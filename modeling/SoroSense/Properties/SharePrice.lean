import SoroSense.Fund

/-!
# `Properties.SharePrice` — the share price never falls

The price of a share is `(NAV + V) / (TotalShares + V)`. Every step moves the bucket's fund by one move
(`World.fund_step`), and no move of a fund lowers its price; a fresh vault starts at par, so every
reachable bucket is at or above it.
-/

namespace SoroSense

open Fallible Transition

variable {home : Address → Currency} {w w' : World} {a : Action} {c : Currency}

/-- One step does not lower the ratio of any bucket. -/
theorem ratio_le_step (hr : Reachable Genesis (HomeStep home) w)
    (hv : 0 < w.vault.config.virtualOffset) (hs : HomeStep home w a w') : w.ratio c ≤ w'.ratio c := by
  have h := reachable_wf (reachable_of_home hr)
  have hv' : 0 < w'.vault.config.virtualOffset := hs.1.config h ▸ hv
  obtain ⟨m, hm⟩ := World.fund_step (Home.reachable_inv hr) h hs hv (hs.1.wf h) hv' c
  exact hm.price_le

/-- A bucket nobody has touched is at par. -/
theorem Genesis.ratio_eq (hg : Genesis w) (hv : 0 < w.vault.config.virtualOffset) : w.ratio c = 1 := by
  have hv' : (w.vault.config.virtualOffset : ℚ) ≠ 0 := by exact_mod_cast ne_of_gt hv
  unfold World.ratio World.navOf
  rw [hg.bucket_eq]
  simp [Vault.Bucket.empty, hv']

/-- **Par**: no reachable bucket has more shares than value. -/
theorem totalShares_le_navOf (hr : Reachable Genesis (HomeStep home) w)
    (hv : 0 < w.vault.config.virtualOffset) : (w.bucket c).totalShares ≤ w.navOf c := by
  have hpar : 0 < w.vault.config.virtualOffset → 1 ≤ w.ratio c := by
    refine hr.induct (P := fun v => 0 < v.vault.config.virtualOffset → 1 ≤ v.ratio c) ?_ ?_
    · intro v hg hv
      exact le_of_eq (hg.ratio_eq hv).symm
    · intro v a v' hrv ih hs hv'
      have hcfg := hs.1.config (reachable_wf (reachable_of_home hrv))
      have hv₀ : 0 < v.vault.config.virtualOffset := hcfg ▸ hv'
      exact le_trans (ih hv₀) (ratio_le_step hrv hv₀ hs)
  have h := reachable_wf (reachable_of_home hr)
  have hle : ((w.bucket c).totalShares : ℚ) ≤ w.navOf c :=
    (ProRata.Fund.one_le_price_iff (f := w.fund h hv c)).mp (hpar hv)
  exact_mod_cast hle

/-- What `share_price` returns is at least the scale, once the bucket is at par. -/
theorem scale_le_sharePrice (h : w.WF) (hv : 0 < w.vault.config.virtualOffset)
    (hpar : (w.bucket c).totalShares ≤ w.navOf c) {v : Int} (hp : Vault.sharePrice w c = .ok v) :
    Vault.sharePriceScale ≤ v := by
  obtain ⟨_, _, rfl⟩ := (Vault.sharePriceOf_eq_ok h).mp hp
  have ht := h.supply_nonneg c
  have hn := h.navOf_nonneg c
  have hscale : 0 ≤ Vault.sharePriceScale := by decide
  obtain ⟨_, _, hhi⟩ := Vault.proRata_bounds (a := Vault.sharePriceScale) (b := w.navOf c)
    (d := (w.bucket c).totalShares) (v := w.vault.config.virtualOffset) hscale (by omega) (by omega)
  have hmono : Vault.sharePriceScale * ((w.bucket c).totalShares + w.vault.config.virtualOffset)
      ≤ Vault.sharePriceScale * (w.navOf c + w.vault.config.virtualOffset) :=
    mul_le_mul_of_nonneg_left (by omega) hscale
  have hlt := lt_of_mul_lt_mul_right (lt_of_le_of_lt hmono hhi) (by omega)
  omega

/-- **The share price never falls, and never drops below par.** From any reachable state, whatever step
    anybody takes leaves the exact ratio of every bucket where it was or higher; in the state itself the
    value covers the shares, and `share_price`, when it returns, is at least its scale. -/
theorem share_price_never_falls (hr : Reachable Genesis (HomeStep home) w)
    (hv : 0 < w.vault.config.virtualOffset) :
    (∀ a w' c, HomeStep home w a w' → w.ratio c ≤ w'.ratio c) ∧
    (∀ c n, Vault.nav w c = .ok n → n = w.navOf c) ∧
    (∀ c, (w.bucket c).totalShares ≤ w.navOf c) ∧
    (∀ c v, Vault.sharePrice w c = .ok v → Vault.sharePriceScale ≤ v) := by
  have h := reachable_wf (reachable_of_home hr)
  refine ⟨fun a w' c hs => ratio_le_step hr hv hs, fun c n hn => Vault.nav_eq_navOf hn,
    fun c => totalShares_le_navOf hr hv, fun c v hp => ?_⟩
  exact scale_le_sharePrice h hv (totalShares_le_navOf hr hv) hp

/-- One deposit, put to work for a year at ten percent. -/
def yieldRun : List Action :=
  setUpPool .usd (.contract 100) 1 1000 ++ joins 2 .usd 1000 ++
    [.vault [1] (.allocate (.contract 1) .usd 500), .advance 31536000]

theorem yieldRun_reachable :
    Reachable Genesis (HomeStep fun _ => .usd) ((World.opening 1000 5000).after yieldRun) := by
  refine (Genesis.opening (by decide)).reachable_home ?_
  simp [yieldRun, setUpPool, joins, Action.Respects, Vault.Call.Names]

/-- After a year of yield the price is above par, and the next step cannot lower it. -/
theorem share_price_never_falls_yieldRun :
    (∀ a w' c, HomeStep (fun _ => .usd) ((World.opening 1000 5000).after yieldRun) a w' →
      ((World.opening 1000 5000).after yieldRun).ratio c ≤ w'.ratio c) ∧
    Vault.sharePrice ((World.opening 1000 5000).after yieldRun) .usd = .ok 1049950049 :=
  ⟨(share_price_never_falls yieldRun_reachable (by decide +kernel)).1, by decide +kernel⟩

end SoroSense
