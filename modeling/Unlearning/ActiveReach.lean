import Mathlib.Data.Set.Card
import Mathlib.Logic.Relation
import Unlearning.Recall

/-!
# The reachability count is exact (`compliance/recall_bounds.py`, `bfs_unreachable_fraction`)

The stack traversal against the set of nodes that a path through active nodes joins to the start.
Lists may be missing, and labels may be out of range, inactive or repeated: a label that is not
active is never pushed, and one that is pushed again is skipped when it is popped.

`bfsSeen` is a total function: a node that is seen leaves the unseen ones, and a skipped one leaves
the stack.
-/

namespace Unlearning

/-- A node that the mask marks. -/
def Active (activeMask : List Bool) (x : ℤ) : Prop := ∃ v : ℕ, x = v ∧ activeMask[v]? = some true

/-- A list leads from an active node to an active node. -/
def ActiveArc (adjacency : List (List ℤ)) (activeMask : List Bool) (u v : ℤ) : Prop :=
  Active activeMask u ∧ Active activeMask v ∧ ∃ l, adjacency[u.toNat]? = some l ∧ v ∈ l

/-- The nodes that a path through active nodes joins to the start. -/
def activeReach (adjacency : List (List ℤ)) (activeMask : List Bool) (start : ℤ) : Set ℤ :=
  {v | Relation.ReflTransGen (ActiveArc adjacency activeMask) start v}

section Reach

variable {adjacency : List (List ℤ)} {activeMask : List Bool} {start : ℤ}

theorem mem_flatnonzero_iff {x : ℤ} : x ∈ flatnonzero activeMask ↔ Active activeMask x := by
  rw [flatnonzero, List.mem_map]
  constructor
  · rintro ⟨v, hv, rfl⟩
    obtain ⟨hrange, hset⟩ := List.mem_filter.mp hv
    rw [List.getElem?_eq_getElem (List.mem_range.mp hrange), Option.getD_some] at hset
    exact ⟨v, rfl, by rw [List.getElem?_eq_getElem (List.mem_range.mp hrange), hset]⟩
  · rintro ⟨v, rfl, hv⟩
    obtain ⟨hlt, -⟩ := List.getElem?_eq_some_iff.mp hv
    exact ⟨v, List.mem_filter.mpr ⟨List.mem_range.mpr hlt, by rw [hv, Option.getD_some]⟩, rfl⟩

theorem mem_getD_iff {u v : ℤ} (hu : Active activeMask u) :
    v ∈ adjacency[asSize u]?.getD [] ↔ ∃ l, adjacency[u.toNat]? = some l ∧ v ∈ l := by
  obtain ⟨i, rfl, -⟩ := hu
  rw [Index.asSize_natCast, Int.toNat_natCast]
  rcases adjacency[i]? with _ | l <;> simp

/-- **Nothing else is seen**: what holds of the stack and of what was seen, and goes along active
arcs, holds of everything the loop sees. -/
theorem forall_mem_bfsSeen {P : ℤ → Prop}
    (hstep : ∀ u v, P u → ActiveArc adjacency activeMask u v → P v) {stack seen : List ℤ}
    (hstack : ∀ u ∈ stack, P u) (hseen : ∀ u ∈ seen, P u) :
    ∀ v ∈ bfsSeen adjacency (flatnonzero activeMask) stack seen, P v := by
  fun_induction bfsSeen adjacency (flatnonzero activeMask) stack seen with
  | case1 seen => exact hseen
  | case2 u stack seen hskip ih => exact ih (List.forall_mem_cons.mp hstack).2 hseen
  | case3 u stack seen hnew pushed ih =>
    obtain ⟨hu, hrest⟩ := List.forall_mem_cons.mp hstack
    have hactive : Active activeMask u :=
      mem_flatnonzero_iff.mp (not_not.mp (not_or.mp hnew).2)
    refine ih (fun v hv => ?_) (List.forall_mem_cons.mpr ⟨hu, hseen⟩)
    rcases List.mem_append.mp hv with hpushed | hold
    · obtain ⟨hmem, hkeep⟩ := List.mem_filter.mp (List.mem_reverse.mp hpushed)
      have hv : Active activeMask v := mem_flatnonzero_iff.mp (by simpa using hkeep : _ ∧ _).1
      exact hstep u v hu ⟨hactive, hv, (mem_getD_iff hactive).mp hmem⟩
    · exact hrest v hold

variable (adjacency activeMask start) in
theorem sweeps_start : Sweeps adjacency (flatnonzero activeMask) [start] [] :=
  ⟨by simp, List.nodup_nil, by simp⟩

/-- **The loop sees what can be reached**, and only that. -/
theorem mem_bfsSeen_iff (hstart : Active activeMask start) {v : ℤ} :
    v ∈ bfsSeen adjacency (flatnonzero activeMask) [start] [] ↔
      v ∈ activeReach adjacency activeMask start := by
  constructor
  · refine forall_mem_bfsSeen (fun u v hu hv => hu.tail hv) ?_ (by simp) v
    intro u hu
    rw [List.mem_singleton.mp hu]
    exact .refl
  · intro hreach
    obtain ⟨hend, hall⟩ := sweeps_bfsSeen (sweeps_start adjacency activeMask start)
    have hfirst := hall start (mem_flatnonzero_iff.mpr hstart) (Or.inr List.mem_cons_self)
    induction hreach with
    | refl => exact hfirst
    | tail _ harc ih =>
      obtain ⟨hu, hv, hmem⟩ := harc
      exact (hend.closed _ ih _ ((mem_getD_iff hu).mpr hmem)
        (mem_flatnonzero_iff.mpr hv)).resolve_right List.not_mem_nil

/-- A list without repetitions has as many entries as its set has elements. -/
theorem length_eq_ncard {l : List ℤ} (hnodup : l.Nodup) {S : Set ℤ} (hmem : ∀ v, v ∈ l ↔ v ∈ S) :
    l.length = S.ncard := by
  have hset : S = (l.toFinset : Set ℤ) := by
    ext v
    rw [Finset.mem_coe, List.mem_toFinset, hmem]
  rw [hset, Set.ncard_coe_finset, List.toFinset_card_of_nodup hnodup]

theorem length_bfsSeen (hstart : Active activeMask start) :
    (bfsSeen adjacency (flatnonzero activeMask) [start] []).length =
      (activeReach adjacency activeMask start).ncard := by
  obtain ⟨hend, -⟩ := sweeps_bfsSeen (sweeps_start adjacency activeMask start)
  exact length_eq_ncard hend.nodup fun _ => mem_bfsSeen_iff hstart

theorem length_flatnonzero (activeMask : List Bool) :
    (flatnonzero activeMask).length = {x | Active activeMask x}.ncard :=
  length_eq_ncard (nodup_flatnonzero activeMask) fun _ => mem_flatnonzero_iff

end Reach

/-- **The reachability metric is exact.** Where some node is active, the count starts at the entry,
if that is active, and else at some active node; `n_reach` is the number of nodes that a path
through active nodes joins to the start, `n_act` the number of active nodes, and the fraction is
theirs. -/
theorem bfsUnreachableFraction_exact (adjacency : List (List ℤ)) {activeMask : List Bool}
    (entry : ℤ) {pick : List ℤ → ℤ} (hpick : ∀ l, l ≠ [] → pick l ∈ l)
    (hsome : ∃ x, Active activeMask x) :
    ∃ start, Active activeMask start ∧ (Active activeMask entry → start = entry) ∧
      ∃ nReach nAct : ℕ, nReach = (activeReach adjacency activeMask start).ncard ∧
        nAct = {x | Active activeMask x}.ncard ∧
        bfsUnreachableFraction adjacency activeMask entry pick =
          (((nAct : ℚ) - nReach) / nAct, nReach, nAct) := by
  obtain ⟨x, hx⟩ := hsome
  have hne : flatnonzero activeMask ≠ [] := List.ne_nil_of_mem (mem_flatnonzero_iff.mpr hx)
  obtain ⟨start, hstart⟩ : ∃ start, start =
      if entry ∈ flatnonzero activeMask then entry else pick (flatnonzero activeMask) := ⟨_, rfl⟩
  have hactive : Active activeMask start := by
    rw [hstart]
    split
    · rename_i hentry
      exact mem_flatnonzero_iff.mp hentry
    · exact mem_flatnonzero_iff.mp (hpick _ hne)
  refine ⟨start, hactive, fun hentry => ?_, _, _, rfl, rfl, ?_⟩
  · rw [hstart, if_pos (mem_flatnonzero_iff.mpr hentry)]
  · rw [bfsUnreachableFraction, if_neg hne, ← hstart]
    dsimp only
    rw [length_bfsSeen hactive, length_flatnonzero]

/-- Two lists for three nodes, one label out of range and one repeated, and an entry that is not
active: two of the three are joined to the node that the count starts at. -/
theorem bfsUnreachableFraction_exact_pair :
    ∃ start, Active [true, true, true] start ∧ (Active [true, true, true] 5 → start = 5) ∧
      ∃ nReach nAct : ℕ, nReach = (activeReach [[1, 9], [0, 0]] [true, true, true] start).ncard ∧
        nAct = {x | Active [true, true, true] x}.ncard ∧
        bfsUnreachableFraction [[1, 9], [0, 0]] [true, true, true] 5 (fun l => l.headD 0) =
          (((nAct : ℚ) - nReach) / nAct, nReach, nAct) := by
  refine bfsUnreachableFraction_exact _ 5 (fun l hl => ?_) ⟨0, 0, rfl, rfl⟩
  cases l with
  | nil => exact absurd rfl hl
  | cons x rest => exact List.mem_cons_self

end Unlearning
