import SoroSense.Backend.VaultClient
import SoroSense.Backend.Runner

/-!
# `Backend.PoolRegistry` — pools by slug and by address

`backend/src/tools/vault.ts`: the registry and its inverse, built from one environment, and the
`RealVaultClient` that `create` gives both. A registry that throws answers nothing (`VaultClient`).

The reads of `packages/vault-client/src/real.ts` that the display surfaces make are here too, as they
answer at one ledger.
-/

namespace SoroSense
namespace Backend

open Fallible

/-- `NodeJS.ProcessEnv`. -/
abbrev Env := String → Option String

/-- `Map.get`, on the map built from a list of entries: a later entry replaces an earlier one. -/
def getEntry (entries : List (String × String)) (key : String) : Option String :=
  (entries.reverse.find? fun e => e.1 = key).map Prod.snd

/-- One configured demo pool; an empty variable configures none. -/
def poolEntry (c : Currency) (address : Option Address) : List (PoolId × Address) :=
  match demoPoolFor c, address.filter (· ≠ "") with
  | .ok slug, some address => [(slug, address)]
  | _, _                   => []

def poolRegistryEntries (env : Env) : List (PoolId × Address) :=
  let usd := env "YIELD_POOL_USD" <|> env "BLEND_POOL_USD"
  let eur := env "YIELD_POOL_EUR" <|> env "BLEND_POOL_EUR"
  poolEntry .usd usd ++ poolEntry .eur eur

/-- The forward registry, none when nothing is configured. It throws for a slug it does not hold. -/
def buildPoolRegistry (env : Env) : Option (PoolId → Option Address) :=
  if poolRegistryEntries env = [] then none else some (getEntry (poolRegistryEntries env))

/-- The inverse. An address it does not hold decodes to itself. -/
def buildPoolIdResolver (env : Env) : Option (Address → Option PoolId) :=
  if poolRegistryEntries env = [] then none
  else some fun address => some
    ((getEntry ((poolRegistryEntries env).map fun e => (e.2, e.1)) address).getD address)

/-- `create`, in an integration environment. -/
def create (env : Env) (strkey : Strkey) (refusal : Panic → String) : VaultClient :=
  { strkey := strkey, resolvePool := buildPoolRegistry env, poolIdFor := buildPoolIdResolver env,
    refusal := refusal }

/-- The text is base32 and a slug is not: no strkey spells a slug. -/
def Strkey.UpperCase (strkey : Strkey) : Prop := ∀ a, ∀ ch ∈ (strkey.text a).toList, ch.isLower = false

/-! ## Entries -/

theorem getEntry_eq_some {entries : List (String × String)} {key value : String}
    (h : getEntry entries key = some value) : (key, value) ∈ entries := by
  obtain ⟨e, he, rfl⟩ := Option.map_eq_some_iff.mp h
  have hmem := List.mem_reverse.mp (List.mem_of_find?_eq_some he)
  have hkey := List.find?_some he
  rw [← of_decide_eq_true hkey]
  exact hmem

theorem getEntry_eq_none {entries : List (String × String)} {key : String} :
    getEntry entries key = none ↔ key ∉ entries.map Prod.fst := by
  unfold getEntry
  rw [Option.map_eq_none_iff, List.find?_eq_none]
  simp only [List.mem_reverse, decide_eq_true_eq, List.mem_map, not_exists, not_and]

variable {env : Env} {slug : PoolId} {address : Address}

theorem mem_poolEntry {c : Currency} {o : Option Address} :
    (slug, address) ∈ poolEntry c o ↔ demoPoolFor c = .ok slug ∧ o.filter (· ≠ "") = some address := by
  unfold poolEntry
  cases demoPoolFor c with
  | error e => simp
  | ok s =>
      cases o.filter (· ≠ "") with
      | none   => simp
      | some a => simp [eq_comm]

/-- **What is configured**: the demo pools of dollars and euros, under addresses that are not empty. -/
theorem of_mem_entries (h : (slug, address) ∈ poolRegistryEntries env) :
    (slug = "sorosense-usd" ∨ slug = "sorosense-eur") ∧ address ≠ "" := by
  rcases List.mem_append.mp h with h | h
  · obtain ⟨hslug, haddress⟩ := mem_poolEntry.mp h
    exact ⟨.inl (Except.ok.inj hslug).symm, by simpa using (Option.filter_eq_some_iff.mp haddress).2⟩
  · obtain ⟨hslug, haddress⟩ := mem_poolEntry.mp h
    exact ⟨.inr (Except.ok.inj hslug).symm, by simpa using (Option.filter_eq_some_iff.mp haddress).2⟩

/-- A slug is configured once. -/
theorem entries_functional {address' : Address} (h : (slug, address) ∈ poolRegistryEntries env)
    (h' : (slug, address') ∈ poolRegistryEntries env) : address = address' := by
  have hslugs : ¬ (demoPoolFor .usd = .ok slug ∧ demoPoolFor .eur = .ok slug) := by
    rintro ⟨husd, heur⟩
    exact absurd (Except.ok.inj (husd.trans heur.symm)) (by decide)
  rcases List.mem_append.mp h with h | h <;> rcases List.mem_append.mp h' with h' | h' <;>
    obtain ⟨hslug, haddress⟩ := mem_poolEntry.mp h <;> obtain ⟨hslug', haddress'⟩ := mem_poolEntry.mp h'
  · exact Option.some.inj (haddress.symm.trans haddress')
  · exact absurd ⟨hslug, hslug'⟩ hslugs
  · exact absurd ⟨hslug', hslug⟩ hslugs
  · exact Option.some.inj (haddress.symm.trans haddress')

/-- The registry holds what is configured. -/
theorem getEntry_of_mem (h : (slug, address) ∈ poolRegistryEntries env) :
    getEntry (poolRegistryEntries env) slug = some address := by
  cases hg : getEntry (poolRegistryEntries env) slug with
  | none => exact absurd (List.mem_map.mpr ⟨_, h, rfl⟩) (getEntry_eq_none.mp hg)
  | some address' => rw [entries_functional h (getEntry_eq_some hg)]

/-! ## The reads of one ledger -/

namespace VaultClient

variable (client : VaultClient) (w : World)

def balanceOf (user : Address) (c : Currency) : Except String Int := do
  let u ← client.strkey.parse user
  .ok (Vault.balanceOf w u c)

def assetValueOf (user : Address) (c : Currency) : Except String Int := do
  let u ← client.strkey.parse user
  (Vault.valueOf w u c).mapError client.refusal

def poolStatus (pool : PoolId) : Except String Vault.PoolStatus := do
  let address ← client.poolAddress pool
  let p ← client.strkey.parse address
  .ok (Vault.poolStatus w p)

end VaultClient

end Backend
end SoroSense
