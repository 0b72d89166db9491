import SoroSense.Lib.Session
import SoroSense.Lib.Transition
import Mathlib.Data.List.Perm.Subperm

/-!
# `Lib.Courier` — submitting transactions over a network that loses and delays

A client submits transactions to a ledger that others use as well. A submission may be included and confirmed,
included and its answer lost, included only later, or never; while the client waits, others act and open
submissions are settled or expire.

* `Post` / `Step` — the ledger with the open submissions and those that took effect, and one thing that happens
  to it;
* `Net` — a post in front of a client, with the weather its further requests meet;
* `ask` / `send` — the two kinds of request;
* `run_subperm` — nothing takes effect twice, and nothing that was not submitted;
* **`Sends φ l x`** — whatever the network does, and whatever `φ`-things others do, what `x` submits is, in order,
  some of `l`, and all that happened meanwhile is a run. Its rules follow the shape of a program.

Nothing here names a particular ledger or client.
-/

namespace Courier

open Session Transition

variable {σ τ ω α β : Type}

/-! ## The ledger -/

/-- What a transaction does to the ledger, or why it is refused, and what others do to it. -/
structure Rules (σ τ ω : Type) where
  accept : σ → τ → Except String σ
  act    : σ → ω → σ

/-- A ledger, the submissions whose fate is open, and those that took effect. -/
structure Post (σ τ : Type) where
  ledger  : σ
  pending : List τ
  landed  : List τ

/-- One thing that happens to a post: with a label, the client submits that transaction. -/
inductive Step (r : Rules σ τ ω) (φ : ω → Prop) (p : Post σ τ) : Option τ → Post σ τ → Prop where
  /-- Somebody else acts. -/
  | other {o : ω} (h : φ o) : Step r φ p none { p with ledger := r.act p.ledger o }
  /-- An open submission is included. -/
  | settled {i : ℕ} {t : τ} {s : σ} (hi : p.pending[i]? = some t) (hs : r.accept p.ledger t = .ok s) :
      Step r φ p none { ledger := s, pending := p.pending.eraseIdx i, landed := p.landed ++ [t] }
  /-- An open submission expires, or fails. -/
  | expired {i : ℕ} : Step r φ p none { p with pending := p.pending.eraseIdx i }
  /-- A submission is included at once. -/
  | landed {t : τ} {s : σ} (hs : r.accept p.ledger t = .ok s) :
      Step r φ p (some t) { p with ledger := s, landed := p.landed ++ [t] }
  /-- A submission stays open. -/
  | waits {t : τ} : Step r φ p (some t) { p with pending := p.pending ++ [t] }
  /-- A submission is refused, or lost on the way. -/
  | gone {t : τ} : Step r φ p (some t) p

/-- What the client submitted along a run, in order. -/
def submitted (tr : List (Event (Post σ τ) (Option τ))) : List τ := tr.filterMap Event.label

/-! ## The network -/

/-- What happens while the client waits. -/
inductive Deed (ω : Type) where
  | other (o : ω)
  | settle (i : ℕ)
  | expire (i : ℕ)

/-- How a request fares. A read that is not broken answers; what an answer says of a submission comes with a text,
    its hash or its HTTP status. -/
inductive Fate where
  /-- Included; the sender is told. -/
  | confirmed (answer : String)
  /-- Included, without success. -/
  | failed (answer : String)
  /-- Still open when the sender stops waiting. -/
  | unconfirmed (answer : String)
  /-- Included, but the sender gets an error. -/
  | lost (message : String)
  /-- Still open when the sender gets an error. -/
  | late (message : String)
  /-- Never submitted; the sender gets an error. -/
  | dropped (message : String)

/-- The error the client meets. -/
def Fate.broken : Fate → Option String
  | .lost message | .late message | .dropped message => some message
  | _ => none

structure Weather (ω : Type) where
  meanwhile : List (Deed ω)
  fate      : Fate

/-- A post in front of a client, and how its further requests will fare. -/
structure Net (σ τ ω : Type) where
  post    : Post σ τ
  weather : ℕ → Weather ω

/-- What is known of a submission at the end. -/
inductive Status where
  | success
  | failed
  | notFound
deriving DecidableEq

structure Sent where
  answer : String
  status : Status

namespace Post

variable (r : Rules σ τ ω) (p : Post σ τ)

/-- The post after a transaction took effect. -/
def lands (s : σ) (t : τ) : Post σ τ := { p with ledger := s, landed := p.landed ++ [t] }

def waits (t : τ) : Post σ τ := { p with pending := p.pending ++ [t] }

def deed : Deed ω → Post σ τ
  | .other o  => { p with ledger := r.act p.ledger o }
  | .expire i => { p with pending := p.pending.eraseIdx i }
  | .settle i =>
    match p.pending[i]? with
    | none   => p
    | some t =>
      match r.accept p.ledger t with
      | .ok s    => { ledger := s, pending := p.pending.eraseIdx i, landed := p.landed ++ [t] }
      | .error _ => { p with pending := p.pending.eraseIdx i }

end Post

namespace Net

/-- The net after `p` came about, one request later. -/
def next (n : Net σ τ ω) (p : Post σ τ) : Net σ τ ω := { post := p, weather := fun k => n.weather (k + 1) }

/-- Others do `φ`-things only, whatever the client still requests. -/
def Fair (φ : ω → Prop) (n : Net σ τ ω) : Prop :=
  ∀ k o, Deed.other o ∈ (n.weather k).meanwhile → φ o

end Net

/-! ## Requests -/

/-- Wait for an answer. -/
def request (r : Rules σ τ ω) : EStateM String (Net σ τ ω) Fate := fun n =>
  .ok (n.weather 0).fate (n.next ((n.weather 0).meanwhile.foldl (Post.deed r) n.post))

/-- What a request that fares so reads. -/
def reply (read : σ → Except String α) (fate : Fate) : EStateM String (Net σ τ ω) α := fun n =>
  match fate.broken, read n.post.ledger with
  | some message, _        => .error message n
  | none, .error message   => .error message n
  | none, .ok a            => .ok a n

/-- Read the ledger. -/
def ask (r : Rules σ τ ω) (read : σ → Except String α) : EStateM String (Net σ τ ω) α := do
  let fate ← request r
  reply read fate

/-- Where a submission ends up. One the ledger refuses fails the simulation that assembles it. -/
def deliver (r : Rules σ τ ω) (t : τ) (fate : Fate) : EStateM String (Net σ τ ω) Sent := fun n =>
  match r.accept n.post.ledger t with
  | .error message => .error (fate.broken.getD message) n
  | .ok s =>
    match fate with
    | .confirmed answer   => .ok ⟨answer, .success⟩ { n with post := n.post.lands s t }
    | .failed answer      => .ok ⟨answer, .failed⟩ n
    | .unconfirmed answer => .ok ⟨answer, .notFound⟩ { n with post := n.post.waits t }
    | .lost message       => .error message { n with post := n.post.lands s t }
    | .late message       => .error message { n with post := n.post.waits t }
    | .dropped message    => .error message n

/-- Submit a transaction and wait. -/
def send (r : Rules σ τ ω) (t : τ) : EStateM String (Net σ τ ω) Sent := do
  let fate ← request r
  deliver r t fate

/-! ## What a program submits -/

variable {r : Rules σ τ ω} {φ : ω → Prop} {p q : Post σ τ} {n : Net σ τ ω} {l l₁ l₂ : List τ} {t : τ}

theorem submitted_append (tr tr' : List (Event (Post σ τ) (Option τ))) :
    submitted (tr ++ tr') = submitted tr ++ submitted tr' := List.filterMap_append

/-- Whatever is done while the client waits is a step. -/
theorem step_deed {d : Deed ω} (h : ∀ o, d = .other o → φ o) : Step r φ p none (p.deed r d) ∨ p.deed r d = p := by
  cases d with
  | other o  => exact .inl (.other (h o rfl))
  | expire i => exact .inl .expired
  | settle i =>
      cases hi : p.pending[i]? with
      | none   => exact .inr (by simp only [Post.deed, hi])
      | some t =>
          cases hs : r.accept p.ledger t with
          | ok s    => exact .inl (by simpa only [Post.deed, hi, hs] using Step.settled hi hs)
          | error _ => exact .inl (by simpa only [Post.deed, hi, hs] using Step.expired)

/-- **What happens while the client waits is a run that submits nothing.** -/
theorem run_meanwhile {l : List (Deed ω)} (h : ∀ o, Deed.other o ∈ l → φ o) :
    ∃ tr, Run (Step r φ) p tr (l.foldl (Post.deed r) p) ∧ submitted tr = [] := by
  induction l generalizing p with
  | nil => exact ⟨[], .nil p, rfl⟩
  | cons d l ih =>
      obtain ⟨tr, hr, hsub⟩ := ih (p := p.deed r d) fun o ho => h o (List.mem_cons_of_mem d ho)
      have hd : ∀ o, d = .other o → φ o := fun o ho => h o (ho ▸ List.mem_cons_self)
      rcases step_deed (r := r) (p := p) hd with hs | hsame
      · exact ⟨_, .cons hs hr, hsub⟩
      · rw [hsame] at hr
        rw [List.foldl_cons, hsame]
        exact ⟨tr, hr, hsub⟩

/-! ## What a run does to a post -/

/-- A submission takes effect or stays open once at most. -/
theorem Step.subperm {a : Option τ} (h : Step r φ p a q) :
    (q.landed ++ q.pending).Subperm (p.landed ++ p.pending ++ a.toList) := by
  cases h with
  | other _ => rw [Option.toList_none, List.append_nil]
  | @settled i t s hi _ =>
      obtain ⟨hlt, ht⟩ := List.getElem?_eq_some_iff.mp hi
      have hperm : ((p.landed ++ [t]) ++ p.pending.eraseIdx i).Perm (p.landed ++ p.pending) := by
        rw [List.append_assoc, List.singleton_append, ← ht]
        exact (List.perm_append_left_iff p.landed).mpr (List.getElem_cons_eraseIdx_perm hlt)
      rw [Option.toList_none, List.append_nil]
      exact hperm.subperm
  | @expired i =>
      rw [Option.toList_none, List.append_nil]
      exact ((List.Sublist.refl p.landed).append (List.eraseIdx_sublist p.pending i)).subperm
  | @landed t s _ =>
      have hperm : ((p.landed ++ [t]) ++ p.pending).Perm (p.landed ++ p.pending ++ [t]) := by
        rw [List.append_assoc, List.append_assoc]
        exact (List.perm_append_left_iff p.landed).mpr List.perm_append_comm
      exact hperm.subperm
  | @waits t =>
      rw [Option.toList_some, List.append_assoc]
  | @gone t => exact (List.sublist_append_left _ _).subperm

/-- **Nothing takes effect twice, and nothing that was not submitted.** -/
theorem run_subperm {tr : List (Event (Post σ τ) (Option τ))} (h : Run (Step r φ) p tr q) :
    (q.landed ++ q.pending).Subperm (p.landed ++ p.pending ++ submitted tr) := by
  induction h with
  | nil p => rw [show submitted ([] : List (Event (Post σ τ) (Option τ))) = [] from rfl, List.append_nil]
  | @cons p m q a tr hs _ ih =>
      have hcons : submitted (⟨p, a, m⟩ :: tr) = a.toList ++ submitted tr := by
        unfold submitted
        cases a <;> rfl
      rw [hcons, ← List.append_assoc]
      exact ih.trans ((List.subperm_append_right _).mpr hs.subperm)

/-- What took effect stays. -/
theorem Step.prefix {a : Option τ} (h : Step r φ p a q) : p.landed <+: q.landed := by
  cases h with
  | settled _ _ => exact List.prefix_append _ _
  | landed _    => exact List.prefix_append _ _
  | _           => exact List.prefix_rfl

theorem run_prefix {tr : List (Event (Post σ τ) (Option τ))} (h : Run (Step r φ) p tr q) :
    p.landed <+: q.landed := by
  induction h with
  | nil p => exact List.prefix_rfl
  | cons hs _ ih => exact hs.prefix.trans ih

/-- **While nothing is open and nothing is submitted, only others act.** -/
theorem run_still {tr : List (Event (Post σ τ) (Option τ))} (h : Run (Step r φ) p tr q) (hp : p.pending = [])
    (hsub : submitted tr = []) :
    q.pending = [] ∧ q.landed = p.landed ∧ ∃ os : List ω, (∀ o ∈ os, φ o) ∧ q.ledger = os.foldl r.act p.ledger := by
  induction h with
  | nil p => exact ⟨hp, rfl, [], by simp, rfl⟩
  | @cons p m q a tr hs _ ih =>
      have hnone : a = none := by
        cases a with
        | none   => rfl
        | some t => exact absurd hsub (by simp [submitted])
      have hrest : submitted tr = [] := by
        rw [hnone] at hsub
        exact hsub
      subst hnone
      cases hs with
      | @other o ho =>
          obtain ⟨hpend, hland, os, hos, hledger⟩ := ih hp hrest
          exact ⟨hpend, hland, o :: os, List.forall_mem_cons.mpr ⟨ho, hos⟩, hledger⟩
      | settled hi _ =>
          rw [hp] at hi
          exact absurd hi (by simp)
      | @expired i =>
          have hsame : p.pending.eraseIdx i = [] := by
            rw [hp]
            exact List.eraseIdx_nil
          exact ih hsame hrest

/-- What is between the state `x` starts in and the one it leaves: a run that submits some of `l`. -/
structure Trail (r : Rules σ τ ω) (φ : ω → Prop) (l : List τ) (n n' : Net σ τ ω) : Prop where
  fair : n'.Fair φ
  run  : ∃ tr, Run (Step r φ) n.post tr n'.post ∧ (submitted tr).Sublist l

theorem Trail.refl (h : n.Fair φ) : Trail r φ l n n := ⟨h, [], .nil _, List.nil_sublist _⟩

theorem Trail.trans {n₁ n₂ n₃ : Net σ τ ω} (h : Trail r φ l₁ n₁ n₂) (h' : Trail r φ l₂ n₂ n₃) :
    Trail r φ (l₁ ++ l₂) n₁ n₃ := by
  obtain ⟨tr, hr, hsub⟩ := h.run
  obtain ⟨tr', hr', hsub'⟩ := h'.run
  refine ⟨h'.fair, tr ++ tr', hr.append hr', ?_⟩
  rw [submitted_append]
  exact hsub.append hsub'

theorem Trail.mono {n₁ n₂ : Net σ τ ω} (h : Trail r φ l₁ n₁ n₂) (hl : l₁.Sublist l₂) : Trail r φ l₂ n₁ n₂ := by
  obtain ⟨tr, hr, hsub⟩ := h.run
  exact ⟨h.fair, tr, hr, hsub.trans hl⟩

/-- Wherever `x` starts, what it submits is, in order, some of `l`. -/
def Sends (r : Rules σ τ ω) (φ : ω → Prop) (l : List τ) (x : EStateM String (Net σ τ ω) α) : Prop :=
  ∀ n, n.Fair φ → Trail r φ l n (after x n)

theorem sends_pure (a : α) : Sends r φ l (pure a) := fun _ h => .refl h

theorem sends_throw (message : String) : Sends r φ l (throw message : EStateM String (Net σ τ ω) α) :=
  fun _ h => .refl h

/-- **Sequence rule.** -/
theorem Sends.bind {x : EStateM String (Net σ τ ω) α} {f : α → EStateM String (Net σ τ ω) β}
    (hx : Sends r φ l₁ x) (hf : ∀ a, Sends r φ l₂ (f a)) : Sends r φ (l₁ ++ l₂) (x >>= f) := by
  intro n hn
  have hfirst := hx n hn
  cases hrun : x.run n with
  | error e n' =>
      rw [after_of_error hrun] at hfirst
      rw [after_bind_of_error hrun]
      exact hfirst.mono (List.sublist_append_left l₁ l₂)
  | ok a n' =>
      rw [after_of_ok hrun] at hfirst
      rw [after_bind_of_ok hrun]
      exact hfirst.trans (hf a n' hfirst.fair)

theorem Sends.mono {x : EStateM String (Net σ τ ω) α} (h : Sends r φ l₁ x) (hl : l₁.Sublist l₂) :
    Sends r φ l₂ x := fun n hn => (h n hn).mono hl

/-- A program that submits nothing, before another. -/
theorem Sends.after_read {x : EStateM String (Net σ τ ω) α} {f : α → EStateM String (Net σ τ ω) β}
    (hx : Sends r φ [] x) (hf : ∀ a, Sends r φ l (f a)) : Sends r φ l (x >>= f) := hx.bind hf

/-- A program before one that submits nothing. -/
theorem Sends.before_read {x : EStateM String (Net σ τ ω) α} {f : α → EStateM String (Net σ τ ω) β}
    (hx : Sends r φ l x) (hf : ∀ a, Sends r φ [] (f a)) : Sends r φ l (x >>= f) := by
  have h := hx.bind hf
  rwa [List.append_nil] at h

theorem run_request (n : Net σ τ ω) : (request r).run n =
    .ok (n.weather 0).fate (n.next ((n.weather 0).meanwhile.foldl (Post.deed r) n.post)) := rfl

theorem sends_request : Sends r φ ([] : List τ) (request r : EStateM String (Net σ τ ω) Fate) := by
  intro n hn
  obtain ⟨tr, hr, hsub⟩ := run_meanwhile (r := r) (p := n.post) fun o ho => hn 0 o ho
  rw [after_of_ok (run_request n)]
  exact ⟨fun k o ho => hn (k + 1) o ho, tr, hr, hsub ▸ List.Sublist.refl _⟩

theorem sends_ask (read : σ → Except String α) : Sends r φ ([] : List τ) (ask r read) := by
  refine sends_request.after_read fun fate n hn => ?_
  have hsame : after (reply read fate) n = n := by
    unfold after EStateM.run reply
    cases fate.broken with
    | some message => rfl
    | none         => cases read n.post.ledger <;> rfl
  rw [hsame]
  exact .refl hn

/-- A read that answers answers what the ledger says when it does. -/
theorem run_ask_eq_ok {read : σ → Except String α} {a : α} {n' : Net σ τ ω} (hn : n.Fair φ)
    (h : (ask r read).run n = .ok a n') :
    Trail r φ [] n n' ∧ read n'.post.ledger = .ok a := by
  have htrail := sends_ask (r := r) (φ := φ) read n hn
  rw [after_of_ok h] at htrail
  refine ⟨htrail, ?_⟩
  obtain ⟨fate, m, _, hreply⟩ := run_bind_eq_ok.mp h
  unfold EStateM.run reply at hreply
  cases hb : fate.broken with
  | some message =>
      rw [hb] at hreply
      exact absurd hreply (by simp)
  | none =>
      cases hr : read m.post.ledger with
      | error message =>
          rw [hb, hr] at hreply
          exact absurd hreply (by simp)
      | ok b =>
          rw [hb, hr] at hreply
          injection hreply with hab hm
          rw [← hm, hr, hab]

theorem sends_deliver (t : τ) (fate : Fate) : Sends r φ [t] (deliver r t fate) := by
  intro n hn
  have hlands : ∀ s, r.accept n.post.ledger t = .ok s → Trail r φ [t] n { n with post := n.post.lands s t } :=
    fun s hs => ⟨hn, _, .single (.landed hs), List.Sublist.refl _⟩
  have hwaits : Trail r φ [t] n { n with post := n.post.waits t } := ⟨hn, _, .single .waits, List.Sublist.refl _⟩
  unfold after EStateM.run deliver
  cases hs : r.accept n.post.ledger t with
  | error message => exact .refl hn
  | ok s =>
      cases fate with
      | confirmed answer   => exact hlands s hs
      | failed answer      => exact .refl hn
      | unconfirmed answer => exact hwaits
      | lost message       => exact hlands s hs
      | late message       => exact hwaits
      | dropped message    => exact .refl hn

theorem sends_send (t : τ) : Sends r φ [t] (send r t : EStateM String (Net σ τ ω) Sent) :=
  sends_request.after_read fun fate => sends_deliver t fate

theorem run_tryCatch_of_ok {x : EStateM String (Net σ τ ω) α} {f : String → EStateM String (Net σ τ ω) α} {a : α}
    {n' : Net σ τ ω} (h : x.run n = .ok a n') : (MonadExcept.tryCatch x f).run n = .ok a n' := by
  show EStateM.tryCatch x f n = _
  unfold EStateM.tryCatch
  rw [show x n = .ok a n' from h]

theorem run_tryCatch_of_error {x : EStateM String (Net σ τ ω) α} {f : String → EStateM String (Net σ τ ω) α}
    {message : String} {n' : Net σ τ ω} (h : x.run n = .error message n') :
    (MonadExcept.tryCatch x f).run n = (f message).run n' := by
  show EStateM.tryCatch x f n = _
  unfold EStateM.tryCatch
  rw [show x n = .error message n' from h]
  rfl

/-- A failure that is caught. -/
theorem Sends.tryCatch {x : EStateM String (Net σ τ ω) α} {f : String → EStateM String (Net σ τ ω) α}
    (hx : Sends r φ l₁ x) (hf : ∀ message, Sends r φ l₂ (f message)) :
    Sends r φ (l₁ ++ l₂) (tryCatch x f) := by
  intro n hn
  have hfirst := hx n hn
  cases hrun : x.run n with
  | ok a n' =>
      rw [after_of_ok hrun] at hfirst
      rw [after_of_ok (run_tryCatch_of_ok hrun)]
      exact hfirst.mono (List.sublist_append_left l₁ l₂)
  | error message n' =>
      rw [after_of_error hrun] at hfirst
      have hsame : after (MonadExcept.tryCatch x f) n = after (f message) n' := by
        unfold after
        rw [run_tryCatch_of_error hrun]
      rw [hsame]
      exact hfirst.trans (hf message n' hfirst.fair)

/-- **A submission that was seen to succeed has just taken effect.** -/
theorem landed_of_run_send {sent : Sent} {n' : Net σ τ ω} (h : (send r t).run n = .ok sent n')
    (hsent : sent.status = .success) :
    ∃ (p : Post σ τ) (s : σ), r.accept p.ledger t = .ok s ∧ n'.post = p.lands s t := by
  obtain ⟨fate, m, _, hdeliver⟩ := run_bind_eq_ok.mp h
  unfold EStateM.run deliver at hdeliver
  cases hs : r.accept m.post.ledger t with
  | error message =>
      rw [hs] at hdeliver
      exact absurd hdeliver (by simp)
  | ok s =>
      rw [hs] at hdeliver
      cases fate with
      | confirmed answer   =>
          injection hdeliver with _ hn
          exact ⟨m.post, s, hs, by rw [← hn]⟩
      | failed answer      =>
          injection hdeliver with ha _
          exact absurd hsent (by simp [← ha])
      | unconfirmed answer =>
          injection hdeliver with ha _
          exact absurd hsent (by simp [← ha])
      | lost message       => exact absurd hdeliver (by simp)
      | late message       => exact absurd hdeliver (by simp)
      | dropped message    => exact absurd hdeliver (by simp)

/-! ## Every request answered -/

/-- The post a request finds: what happens meanwhile comes first. -/
def Net.arrival (r : Rules σ τ ω) (n : Net σ τ ω) : Post σ τ := (n.weather 0).meanwhile.foldl (Post.deed r) n.post

/-- Every request is answered, whatever others do. -/
def Net.Answered (n : Net σ τ ω) : Prop := ∀ k, ∃ answer, (n.weather k).fate = .confirmed answer

theorem Net.Answered.next (h : n.Answered) (p : Post σ τ) : (n.next p).Answered := fun k => h (k + 1)

/-- Nobody else acts, and every request is answered. -/
def Net.Calm (n : Net σ τ ω) : Prop := ∀ k, (n.weather k).meanwhile = [] ∧ ∃ answer, (n.weather k).fate = .confirmed answer

theorem Net.Calm.next (h : n.Calm) (p : Post σ τ) : (n.next p).Calm := fun k => h (k + 1)

theorem Net.Calm.answered (h : n.Calm) : n.Answered := fun k => (h k).2

/-- Nothing happens before a request arrives. -/
theorem Net.Calm.arrival (h : n.Calm) : n.arrival r = n.post := by
  unfold Net.arrival
  rw [(h 0).1]
  rfl

theorem run_request_answered (h : n.Answered) :
    ∃ answer, (request r).run n = .ok (.confirmed answer) (n.next (n.arrival r)) := by
  obtain ⟨answer, hfate⟩ := h 0
  refine ⟨answer, ?_⟩
  rw [run_request, hfate]
  rfl

/-- **A read that is answered says what the ledger says when it arrives.** -/
theorem run_ask_answered_eq_ok (h : n.Answered) {read : σ → Except String α} {a : α} {n' : Net σ τ ω} :
    (ask r read).run n = .ok a n' ↔ read (n.arrival r).ledger = .ok a ∧ n' = n.next (n.arrival r) := by
  obtain ⟨answer, hrun⟩ := run_request_answered (r := r) h
  unfold ask
  rw [run_bind_of_ok hrun]
  show reply read (.confirmed answer) (n.next (n.arrival r)) = _ ↔ _
  unfold reply
  rw [show (n.next (n.arrival r)).post = n.arrival r from rfl]
  cases read (n.arrival r).ledger with
  | error message =>
      constructor
      · intro hr
        injection hr
      · intro hr
        exact absurd hr.1 (by simp)
  | ok b =>
      constructor
      · intro hr
        injection hr with hb hn
        exact ⟨congrArg _ hb, hn.symm⟩
      · rintro ⟨hb, rfl⟩
        rw [Except.ok.inj hb]
        rfl

/-- **A submission that is answered takes effect**, unless the ledger refuses it. -/
theorem run_send_answered (h : n.Answered) : ∃ answer, ∀ {s : σ}, r.accept (n.arrival r).ledger t = .ok s →
    (send r t).run n = .ok ⟨answer, .success⟩ (n.next ((n.arrival r).lands s t)) := by
  obtain ⟨answer, hrun⟩ := run_request_answered (r := r) h
  refine ⟨answer, fun {s} hs => ?_⟩
  unfold send
  rw [run_bind_of_ok hrun]
  show deliver r t (.confirmed answer) (n.next (n.arrival r)) = _
  unfold deliver
  rw [show r.accept (n.next (n.arrival r)).post.ledger t = .ok s from hs]
  rfl

/-! ## Fair weather -/

theorem run_request_calm (h : n.Calm) :
    ∃ answer, (request r).run n = .ok (.confirmed answer) (n.next n.post) := by
  have hrun := run_request_answered (r := r) h.answered
  rwa [h.arrival] at hrun

/-- **In fair weather a read answers what the ledger says.** -/
theorem run_ask_calm_eq_ok (h : n.Calm) {read : σ → Except String α} {a : α} {n' : Net σ τ ω} :
    (ask r read).run n = .ok a n' ↔ read n.post.ledger = .ok a ∧ n' = n.next n.post := by
  rw [run_ask_answered_eq_ok h.answered, h.arrival]

/-- **In fair weather a submission takes effect**, unless the ledger refuses it. -/
theorem run_send_calm (h : n.Calm) : ∃ answer, ∀ {s : σ}, r.accept n.post.ledger t = .ok s →
    (send r t).run n = .ok ⟨answer, .success⟩ (n.next (n.post.lands s t)) := by
  have hsend := run_send_answered (r := r) (t := t) h.answered
  rwa [h.arrival] at hsend

theorem accept_of_run_send_calm (h : n.Calm) {sent : Sent} {n' : Net σ τ ω} (hrun : (send r t).run n = .ok sent n') :
    ∃ s, r.accept n.post.ledger t = .ok s ∧ sent.status = .success ∧ n' = n.next (n.post.lands s t) := by
  obtain ⟨answer, hreq⟩ := run_request_calm (r := r) h
  cases hs : r.accept n.post.ledger t with
  | ok s =>
      obtain ⟨answer', hsend⟩ := run_send_calm (r := r) (t := t) h
      have heq := hrun.symm.trans (hsend hs)
      injection heq with hsent hn
      exact ⟨s, rfl, by rw [hsent], hn⟩
  | error message =>
      have hfail : (send r t).run n = .error message (n.next n.post) := by
        unfold send
        rw [run_bind_of_ok hreq]
        show deliver r t (.confirmed answer) (n.next n.post) = _
        unfold deliver
        rw [show r.accept (n.next n.post).post.ledger t = .error message from hs]
        rfl
      exact absurd (hrun.symm.trans hfail) (by simp)

end Courier
