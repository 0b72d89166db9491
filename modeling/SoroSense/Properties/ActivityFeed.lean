import SoroSense.Backend.Activity
import SoroSense.Lib.Leading
import Mathlib.Data.List.Perm.Subperm

/-!
# `Properties.ActivityFeed` — which rows the activity feed leaves out

The feed sorts and cuts what it merged, so it shows the most recent of the merged rows. What it merged lacks
the rows of the log behind its fifty newest entries of the currency (`beyondLog`), whatever the query's limit
and however many of the fifty its other filters then drop. By `Timeline.leading_hidden_iff` the answer is the
one asked for exactly when each of those rows has a full answer of other rows in front of it.
-/

namespace SoroSense.Backend.Activity

open Timeline

variable {query : ActivityQuery} {deps : ActivityFeedDeps}

/-- All rows that satisfy the query's filters: those of the whole log, of the chain and of the user. -/
def matching (query : ActivityQuery) (deps : ActivityFeedDeps) : List FeedEntry :=
  byActor query (inScope query deps ((deps.log.filtered query.currency).reverse.map ActivityEntry.row)
    ++ chainAgentRows query deps ++ userRows query deps)

/-- Those of them that are of the log's fifty newest entries of the currency, of the chain or of the user. -/
def withinLog (query : ActivityQuery) (deps : ActivityFeedDeps) : List FeedEntry :=
  byActor query (inScope query deps (((deps.log.filtered query.currency).reverse.take 50).map ActivityEntry.row)
    ++ chainAgentRows query deps ++ userRows query deps)

/-- Those of them that are in the log behind its fifty newest entries of the currency. -/
def beyondLog (query : ActivityQuery) (deps : ActivityFeedDeps) : List FeedEntry :=
  byActor query (inScope query deps (((deps.log.filtered query.currency).reverse.drop 50).map ActivityEntry.row))

/-- The first `limit` of the rows in the order of `compareRows`, or all of them. -/
structure MostRecent (limit : ℕ) (rows ans : List FeedEntry) : Prop where
  sorted : ans.Pairwise fun a b => compareRows a b ≤ 0
  length : ans.length = min limit rows.length
  ahead  : ∃ rest, rows.Perm (ans ++ rest) ∧ ∀ x ∈ ans, ∀ y ∈ rest, compareRows x y ≤ 0

/-- The rows that come no later than `d`. -/
def noLater (d : FeedEntry) (rows : List FeedEntry) : List FeedEntry := rows.filter fun r => compareRows r d ≤ 0

/-! ## The feed as a sorted, cut list -/

theorem mostRecent_iff {limit : ℕ} {rows ans : List FeedEntry} :
    MostRecent limit rows ans ↔ Leading rowKey limit rows ans := by
  constructor
  · rintro ⟨hsorted, hlength, rest, hperm, hahead⟩
    exact ⟨hsorted.imp compareRows_nonpos_iff.mp, hlength, rest, hperm,
      fun x hx y hy => compareRows_nonpos_iff.mp (hahead x hx y hy)⟩
  · rintro ⟨hsorted, hlength, rest, hperm, hahead⟩
    exact ⟨hsorted.imp compareRows_nonpos_iff.mpr, hlength, rest, hperm,
      fun x hx y hy => compareRows_nonpos_iff.mpr (hahead x hx y hy)⟩

theorem noLater_eq (d : FeedEntry) (rows : List FeedEntry) : noLater d rows = upToKey rowKey d rows := by
  unfold noLater upToKey
  congr 1
  funext r
  exact decide_eq_decide.mpr compareRows_nonpos_iff

theorem getActivity_eq :
    getActivity query deps = (sortOn rowKey (merged query deps)).take (query.limit.getD 50) := by
  unfold getActivity
  rw [sort_eq_sortOn]

/-- Filtering rows of the agent distributes over concatenation. -/
theorem inScope_append (rows rows' : List FeedEntry) :
    inScope query deps (rows ++ rows') = inScope query deps rows ++ inScope query deps rows' := by
  unfold inScope
  rw [List.filter_append, List.filter_append]

theorem byActor_append (rows rows' : List FeedEntry) :
    byActor query (rows ++ rows') = byActor query rows ++ byActor query rows' := by
  unfold byActor
  rw [List.filter_append]

/-- Every matching row is within the log's fifty or beyond them. -/
theorem matching_perm : (matching query deps).Perm (withinLog query deps ++ beyondLog query deps) := by
  have hsplit : (deps.log.filtered query.currency).reverse.map ActivityEntry.row
      = ((deps.log.filtered query.currency).reverse.take 50).map ActivityEntry.row
        ++ ((deps.log.filtered query.currency).reverse.drop 50).map ActivityEntry.row := by
    rw [← List.map_append, List.take_append_drop]
  unfold matching withinLog beyondLog
  rw [hsplit, inScope_append]
  simp only [byActor_append, List.append_assoc]
  -- the rows beyond move to the end
  apply List.Perm.append_left
  apply List.perm_append_comm.trans
  rw [List.append_assoc]

/-- **The feed merges every matching row but those beyond the log's fifty.** -/
theorem merged_eq : merged query deps = withinLog query deps := rfl

/-- The limit of a query does not change what is merged. -/
theorem merged_limit (limit : Option ℕ) : merged { query with limit := limit } deps = merged query deps := rfl

/-- **A smaller limit answers a prefix.** -/
theorem getActivity_prefix {k n : ℕ} (h : k ≤ n) :
    getActivity { query with limit := some k } deps <+: getActivity { query with limit := some n } deps := by
  rw [getActivity_eq, getActivity_eq, merged_limit, merged_limit]
  exact List.take_prefix_take_left h

/-- The feed is the answer asked for exactly when each row beyond the log's fifty has a full answer of the other
    matching rows in front of it. -/
theorem mostRecent_getActivity_iff :
    MostRecent (query.limit.getD 50) (matching query deps) (getActivity query deps) ↔
      ∀ d ∈ beyondLog query deps, query.limit.getD 50 ≤ (noLater d (withinLog query deps)).length := by
  have hperm : ∀ ans, Leading rowKey (query.limit.getD 50) (matching query deps) ans ↔
      Leading rowKey (query.limit.getD 50) (withinLog query deps ++ beyondLog query deps) ans := by
    intro ans
    constructor
    · rintro ⟨hsorted, hlength, rest, hrest, hahead⟩
      exact ⟨hsorted, matching_perm.length_eq ▸ hlength, rest, matching_perm.symm.trans hrest, hahead⟩
    · rintro ⟨hsorted, hlength, rest, hrest, hahead⟩
      exact ⟨hsorted, matching_perm.length_eq.symm ▸ hlength, rest, matching_perm.trans hrest, hahead⟩
  rw [mostRecent_iff, hperm, getActivity_eq, merged_eq, leading_hidden_iff]
  simp only [noLater_eq]

/-! ## When the log's fifty are enough -/

/-- The entries of a bucket, newest first, have descending ids. -/
theorem ActivityLog.filtered_descending (log : ActivityLog) (currency : Option Currency) :
    (log.filtered currency).reverse.Pairwise fun a b => b.id < a.id := by
  apply List.pairwise_reverse.mpr
  unfold ActivityLog.filtered
  split
  · exact log.ordered.filter _
  · exact log.ordered

/-- An entry behind another in the log has a lower id. -/
theorem id_lt_of_beyond {e d : ActivityEntry} (he : e ∈ deps.log.list query.currency none)
    (hd : d ∈ (deps.log.filtered query.currency).reverse.drop 50) : d.id < e.id := by
  have hdesc := deps.log.filtered_descending query.currency
  rw [← List.take_append_drop 50 (deps.log.filtered query.currency).reverse] at hdesc
  exact (List.pairwise_append.mp hdesc).2.2 e he d hd

/-- No two listed entries have one row. -/
theorem nodup_listed : ((deps.log.list query.currency none).map ActivityEntry.row).Nodup := by
  have hdesc := (deps.log.filtered_descending query.currency).sublist (List.take_sublist 50 _)
  apply List.pairwise_map.mpr (hdesc.imp ?_)
  intro a b hlt heq
  have hid : a.id = b.id := congrArg FeedEntry.seq heq
  omega

/-- With an entry beyond, fifty are listed. -/
theorem length_listed {d : ActivityEntry} (hd : d ∈ (deps.log.filtered query.currency).reverse.drop 50) :
    (deps.log.list query.currency none).length = 50 := by
  have hpos := List.length_pos_of_mem hd
  rw [List.length_drop] at hpos
  unfold ActivityLog.list
  rw [Option.getD_none, List.length_take]
  omega

/-- **With a limit of at most fifty nothing is lost as long as every listed entry of the log passes the other
    filters**: so for a query without a depositor and without an actor. -/
theorem mostRecent_of_listed (hlimit : query.limit.getD 50 ≤ 50)
    (hall : ∀ e ∈ deps.log.list query.currency none, e.row ∈ withinLog query deps) :
    MostRecent (query.limit.getD 50) (matching query deps) (getActivity query deps) := by
  apply mostRecent_getActivity_iff.mpr
  intro d hd
  have hbeyond : d ∈ ((deps.log.filtered query.currency).reverse.drop 50).map ActivityEntry.row := by
    unfold beyondLog byActor inScope at hd
    exact (List.mem_filter.mp (List.mem_filter.mp (List.mem_filter.mp hd).1).1).1
  obtain ⟨entry, hentry, rfl⟩ := List.mem_map.mp hbeyond
  -- fifty entries are listed, and each of their rows is in front
  have hsub : (deps.log.list query.currency none).map ActivityEntry.row ⊆ noLater entry.row (withinLog query deps) := by
    intro r hr
    obtain ⟨e, he, rfl⟩ := List.mem_map.mp hr
    refine List.mem_filter.mpr ⟨hall e he, decide_eq_true ?_⟩
    have hlt := id_lt_of_beyond he hentry
    unfold compareRows
    rw [if_pos (show e.row.seq ≠ entry.row.seq from ne_of_gt hlt)]
    show entry.id - e.id ≤ 0
    omega
  have hle := (List.subperm_of_subset nodup_listed hsub).length_le
  rw [List.length_map, length_listed hentry] at hle
  omega

/-- **The activity feed shows the most recent matching rows, exactly when each matching row of the log behind
    its fifty newest entries of the currency has `limit` of the other matching rows in front of it.** -/
theorem activity_most_recent_iff (query : ActivityQuery) (deps : ActivityFeedDeps) :
    (MostRecent (query.limit.getD 50) (matching query deps) (getActivity query deps) ∧
      (∀ k n, k ≤ n →
        getActivity { query with limit := some k } deps <+: getActivity { query with limit := some n } deps) ∧
      ((getActivity query deps).length < query.limit.getD 50 →
        ∀ r ∈ matching query deps, r ∈ getActivity query deps)) ↔
      ∀ d ∈ beyondLog query deps, query.limit.getD 50 ≤ (noLater d (withinLog query deps)).length := by
  rw [← mostRecent_getActivity_iff]
  constructor
  · intro h
    exact h.1
  · intro h
    refine ⟨h, fun k n hkn => getActivity_prefix hkn, ?_⟩
    intro hshort r hr
    exact (mostRecent_iff.mp h).mem_of_short hshort hr

/-- One allocation in the depositor's currency, then fifty in another. -/
def busyLog : ActivityLog :=
  (List.replicate 50 ()).foldl (fun log _ => log.append .eur .allocated "EUR -> pool" none none)
    (ActivityLog.empty.append .usd .allocated "USD -> pool" none none)

/-- **A depositor's feed misses a row of their own currency** and is shorter than its limit. -/
theorem activity_row_missing :
    ∃ query deps r, query.limit = none ∧ (getActivity query deps).length < 50 ∧ r ∈ matching query deps ∧
      r ∉ getActivity query deps := by
  refine ⟨⟨some "alice", none, none, none⟩, ⟨busyLog, [.deposit "alice" .usd 100 1 none], none⟩,
    ⟨1, .agent, some .usd, .agent .allocated, "USD -> pool", none, none⟩, rfl, ?_, ?_, ?_⟩
  · decide +kernel
  · decide +kernel
  · decide +kernel

end SoroSense.Backend.Activity
