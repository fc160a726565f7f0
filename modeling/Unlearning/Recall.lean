import Mathlib.Algebra.Order.BigOperators.Group.List
import Mathlib.Algebra.Order.Field.Rat
import Mathlib.Data.Finset.Dedup
import Mathlib.Data.Rat.Defs
import Mathlib.Tactic.FieldSimp
import Mathlib.Tactic.Linarith
import Mathlib.Tactic.Positivity
import Unlearning.Reached

/-!
# The fragmentation bound (`compliance/recall_bounds.py`, Theorem 2)

Three pieces that the repository writes separately: the reachability count over the layer-0
lists, the recall average, and the bound made of the count. The theorem ties them to the real
search: what `search_knn` returns lies in every closed set that holds its entry, and the set of
nodes the count has seen is closed, so a node that was not seen is never found.

Python's floats are exact rationals here. The ground truth is exact too: the nearest node by the
exact values of the `float32` words; the search computes its own distances in any arithmetic.
-/

namespace Unlearning

/-! ## The code -/

/-- `np.flatnonzero` of a mask. -/
def flatnonzero (mask : List Bool) : List ℤ :=
  ((List.range mask.length).filter fun i => mask[i]?.getD false).map Nat.cast

/-- A node that is seen is one less to see. -/
theorem length_unseen_lt {active seen : List ℤ} {u : ℤ} (hactive : u ∈ active) (hseen : u ∉ seen) :
    (active.filter (· ∉ u :: seen)).length < (active.filter (· ∉ seen)).length := by
  have hfilter : active.filter (· ∉ u :: seen) = (active.filter (· ∉ seen)).filter (· ≠ u) := by
    rw [List.filter_filter]
    congr 1
    funext v
    simp [List.mem_cons, not_or]
  rw [hfilter, List.length_filter_lt_length_iff_exists]
  exact ⟨u, List.mem_filter.mpr ⟨hactive, by simpa using hseen⟩, by simp⟩

/-- The loop of `bfs_unreachable_fraction`: the stack, its top first, and the nodes seen. -/
def bfsSeen (adjacency : List (List ℤ)) (active : List ℤ) : List ℤ → List ℤ → List ℤ
  | [], seen => seen
  | u :: stack, seen =>
    if u ∈ seen ∨ u ∉ active then bfsSeen adjacency active stack seen
    else
      let pushed := (adjacency[asSize u]?.getD []).filter fun v => v ∈ active ∧ v ∉ u :: seen
      bfsSeen adjacency active (pushed.reverse ++ stack) (u :: seen)
termination_by stack seen => ((active.filter (· ∉ seen)).length, stack.length)
decreasing_by
  · exact Prod.Lex.right _ (Nat.lt_succ_self _)
  · rename_i hnew
    obtain ⟨hseen, hactive⟩ := not_or.mp hnew
    exact Prod.Lex.left _ _ (length_unseen_lt (not_not.mp hactive) hseen)

/-- `bfs_unreachable_fraction`; `pick` is what `next(iter(active))` yields, read if the entry is
not active. -/
def bfsUnreachableFraction (adjacency : List (List ℤ)) (activeMask : List Bool) (entry : ℤ)
    (pick : List ℤ → ℤ) : ℚ × ℕ × ℕ :=
  let active := flatnonzero activeMask
  if active = [] then (1, 0, 0)
  else
    let start := if entry ∈ active then entry else pick active
    let nAct := active.length
    let nReach := (bfsSeen adjacency active [start] []).length
    (((nAct : ℚ) - nReach) / nAct, nReach, nAct)

/-- `FragmentationBound` -/
structure FragmentationBound where
  nActive : ℤ
  nUnreachable : ℤ
  recallAt1UpperBound : ℚ

/-- `FragmentationBound.from_counts` -/
def FragmentationBound.fromCounts (nActive nUnreachable : ℤ) : FragmentationBound :=
  if nActive ≤ 0 then ⟨0, 0, 0⟩
  else
    let u := min nUnreachable nActive
    ⟨nActive, u, 1 - u / nActive⟩

/-- The labels of a row that count, as a set. -/
def labelSet (k : ℕ) (row : List ℤ) : Finset ℤ := ((row.take k).filter (0 ≤ ·)).toFinset

/-- `exact_recall_at_k` -/
def exactRecallAtK (predicted groundTruth : List (List ℤ)) (k : ℕ) : ℚ :=
  let scores := (predicted.zip groundTruth).filterMap fun p =>
    if labelSet k p.2 = ∅ then none
    else some (((labelSet k p.1 ∩ labelSet k p.2).card : ℚ) / (labelSet k p.2).card)
  if scores = [] then 0 else scores.sum / scores.length

/-! ## What the count has seen -/

section Seen

variable {adjacency : List (List ℤ)} {active : List ℤ}

/-- The invariant of the loop: what was seen is active and seen once, and the active neighbours of
what was seen are seen or on the stack. -/
structure Sweeps (adjacency : List (List ℤ)) (active stack seen : List ℤ) : Prop where
  live : ∀ u ∈ seen, u ∈ active
  nodup : seen.Nodup
  closed : ∀ u ∈ seen, ∀ v ∈ adjacency[asSize u]?.getD [], v ∈ active → v ∈ seen ∨ v ∈ stack

/-- **The loop**, by its own induction: the invariant holds at its end with an empty stack, and
every active node that was seen or on the stack is seen. -/
theorem sweeps_bfsSeen {stack seen : List ℤ} (h : Sweeps adjacency active stack seen) :
    Sweeps adjacency active [] (bfsSeen adjacency active stack seen) ∧
      ∀ v, v ∈ active → v ∈ seen ∨ v ∈ stack → v ∈ bfsSeen adjacency active stack seen := by
  fun_induction bfsSeen adjacency active stack seen with
  | case1 seen => exact ⟨h, fun v _ hv => hv.resolve_right List.not_mem_nil⟩
  | case2 u stack seen hskip ih =>
    -- the top of the stack is seen, or not active
    have hmoves : ∀ v, v ∈ active → v ∈ seen ∨ v ∈ u :: stack → v ∈ seen ∨ v ∈ stack := by
      rintro v hva (hseen | hstack)
      · exact Or.inl hseen
      · rcases List.mem_cons.mp hstack with rfl | hstack
        · exact Or.inl (hskip.resolve_right fun hnot => hnot hva)
        · exact Or.inr hstack
    obtain ⟨hend, hall⟩ := ih ⟨h.live, h.nodup, fun x hx v hv hva =>
      hmoves v hva (h.closed x hx v hv hva)⟩
    exact ⟨hend, fun v hva hv => hall v hva (hmoves v hva hv)⟩
  | case3 u stack seen hnew pushed ih =>
    obtain ⟨hseen, hactive⟩ := not_or.mp hnew
    have hmoves : ∀ v, v ∈ seen ∨ v ∈ u :: stack →
        v ∈ u :: seen ∨ v ∈ pushed.reverse ++ stack := by
      rintro v (hold | hstack)
      · exact Or.inl (List.mem_cons_of_mem u hold)
      · rcases List.mem_cons.mp hstack with rfl | hstack
        · exact Or.inl List.mem_cons_self
        · exact Or.inr (List.mem_append_right _ hstack)
    have hpushed : ∀ v, v ∈ adjacency[asSize u]?.getD [] → v ∈ active →
        v ∈ u :: seen ∨ v ∈ pushed.reverse ++ stack := by
      intro v hv hva
      by_cases hin : v ∈ u :: seen
      · exact Or.inl hin
      · refine Or.inr (List.mem_append_left _ (List.mem_reverse.mpr (List.mem_filter.mpr ⟨hv, ?_⟩)))
        simpa using ⟨hva, by simpa using hin⟩
    have hnext : Sweeps adjacency active (pushed.reverse ++ stack) (u :: seen) := by
      refine ⟨?_, List.nodup_cons.mpr ⟨hseen, h.nodup⟩, fun x hx v hv hva => ?_⟩
      · exact List.forall_mem_cons.mpr ⟨not_not.mp hactive, h.live⟩
      · rcases List.mem_cons.mp hx with rfl | hx
        · exact hpushed v hv hva
        · exact hmoves v (h.closed x hx v hv hva)
    obtain ⟨hend, hall⟩ := ih hnext
    exact ⟨hend, fun v hva hv => hall v hva (hmoves v hv)⟩

end Seen

/-! ## Exact nearest neighbours -/

/-- The exact value of a finite `float32`. -/
def float32Value (w : UInt32) : ℚ :=
  let exponent : ℕ := w.toNat / 2 ^ 23 % 256
  let mantissa : ℕ := w.toNat % 2 ^ 23
  let magnitude : ℚ :=
    if exponent = 0 then mkRat (mantissa : ℕ) (2 ^ 149)
    else mkRat (((2 ^ 23 + mantissa) * 2 ^ exponent : ℕ) : ℤ) (2 ^ 150)
  if w.toNat < 2 ^ 31 then magnitude else -magnitude

/-- The exact squared distance. -/
def exactSqDistance (xs ys : List UInt32) : ℚ :=
  ((xs.zip ys).map fun p => (float32Value p.1 - float32Value p.2) ^ 2).sum

/-- `g` is an exact nearest active node of the query. -/
def IsNearest (ix : Index) (active : List ℤ) (query : List UInt32) (g : ℤ) : Prop :=
  g ∈ active ∧ ∀ b ∈ active,
    exactSqDistance query (ix.row (asSize g)) ≤ exactSqDistance query (ix.row (asSize b))

instance (ix : Index) (active : List ℤ) (query : List UInt32) (g : ℤ) :
    Decidable (IsNearest ix active query g) :=
  inferInstanceAs (Decidable (g ∈ active ∧ ∀ b ∈ active,
    exactSqDistance query (ix.row (asSize g)) ≤ exactSqDistance query (ix.row (asSize b))))

section Nearest

theorem exactSqDistance_self (xs : List UInt32) : exactSqDistance xs xs = 0 := by
  induction xs with
  | nil => rfl
  | cons x xs ih =>
    rw [exactSqDistance] at ih ⊢
    simp [ih]

theorem exactSqDistance_nonneg (xs ys : List UInt32) : 0 ≤ exactSqDistance xs ys := by
  refine List.sum_nonneg ?_
  simp only [List.mem_map, forall_exists_index, and_imp]
  rintro _ p - rfl
  positivity

/-- At distance zero the exact values are the same. -/
theorem map_eq_of_exactSqDistance_nonpos {xs ys : List UInt32} (hlen : xs.length = ys.length)
    (h : exactSqDistance xs ys ≤ 0) : xs.map float32Value = ys.map float32Value := by
  induction xs generalizing ys with
  | nil =>
    rw [List.length_nil, eq_comm, List.length_eq_zero_iff] at hlen
    rw [hlen]
  | cons x xs ih =>
    cases ys with
    | nil => cases hlen
    | cons y ys =>
      have hsum : exactSqDistance (x :: xs) (y :: ys) =
          (float32Value x - float32Value y) ^ 2 + exactSqDistance xs ys := by
        simp [exactSqDistance]
      have hrest := exactSqDistance_nonneg xs ys
      have hfirst := sq_nonneg (float32Value x - float32Value y)
      have hzero : float32Value x - float32Value y = 0 := by
        apply pow_eq_zero_iff (two_ne_zero) |>.mp
        linarith
      rw [List.map_cons, List.map_cons, ih (Nat.succ.inj hlen) (by linarith), sub_eq_zero.mp hzero]

end Nearest

/-! ## The bound -/

/-- The layer-0 lists of an index. -/
def layer0 (ix : Index) : List (List ℤ) := ix.adjacency.map fun layers => layers.head?.getD []

theorem getD_layer0 (ix : Index) (v : ℕ) : (layer0 ix)[v]?.getD [] = ix.adjacency.nbrs v 0 := by
  rw [layer0, List.getElem?_map, Layered.nbrs, Layered.layersOf]
  rcases ix.adjacency[v]? with _ | layers
  · rfl
  · simp [List.head?_eq_getElem?]

theorem mem_flatnonzero {mask : List Bool} {x : ℤ} (h : x ∈ flatnonzero mask) :
    ∃ v : ℕ, x = v ∧ v < mask.length := by
  rw [flatnonzero, List.mem_map] at h
  obtain ⟨v, hv, rfl⟩ := h
  exact ⟨v, rfl, List.mem_range.mp (List.mem_filter.mp hv).1⟩

theorem nodup_flatnonzero (mask : List Bool) : (flatnonzero mask).Nodup :=
  ((List.nodup_range).filter _).map Nat.cast_injective

/-- A loaded single-layer index and an active set: no list of an active node leaves it, the
entry is in it, and its vectors are pairwise distinct. -/
structure ActiveGraph (ix : Index) (activeMask : List Bool) (s : ℤ) : Prop where
  wellFormed : ix.WellFormed
  loaded : ix.isLoaded = true
  mask : activeMask.length = ix.numElements
  singleLayer : ∀ v, (ix.adjacency.layersOf v).length ≤ 1
  inner : ∀ a ∈ flatnonzero activeMask, ∀ nb ∈ ix.adjacency.nbrs (asSize a) 0,
    nb ∈ flatnonzero activeMask
  entry : s ∈ flatnonzero activeMask
  distinct : ∀ a ∈ flatnonzero activeMask, ∀ b ∈ flatnonzero activeMask,
    (ix.row (asSize a)).map float32Value = (ix.row (asSize b)).map float32Value → a = b

section Bound

variable {ix : Index} {activeMask : List Bool} {s : ℤ} (h : ActiveGraph ix activeMask s)
include h

theorem ActiveGraph.inRange {a : ℤ} (ha : a ∈ flatnonzero activeMask) : ix.inRange a = true := by
  obtain ⟨v, rfl, hv⟩ := mem_flatnonzero ha
  exact Index.inRange_iff.mpr ⟨v, rfl, by rwa [← h.mask]⟩

theorem ActiveGraph.length_row {a : ℤ} (ha : a ∈ flatnonzero activeMask) :
    (ix.row (asSize a)).length = ix.dim := by
  obtain ⟨v, rfl, hv⟩ := mem_flatnonzero ha
  have hend := Nat.mul_le_mul_right ix.dim (Nat.succ_le_of_lt (h.mask ▸ hv))
  rw [Nat.succ_mul] at hend
  rw [Index.asSize_natCast, Index.row, Index.vectorPtr, List.length_take, List.length_drop,
    h.wellFormed.words]
  omega

/-- The exact nearest active node of an active vector is the node itself. -/
theorem ActiveGraph.nearest_eq {a g : ℤ} (ha : a ∈ flatnonzero activeMask)
    (hg : IsNearest ix (flatnonzero activeMask) (ix.row (asSize a)) g) : g = a := by
  have hle := hg.2 a ha
  rw [exactSqDistance_self] at hle
  refine (h.distinct a ha g hg.1 (map_eq_of_exactSqDistance_nonpos ?_ hle)).symm
  rw [h.length_row ha, h.length_row hg.1]

/-- What the count sees from the entry. -/
theorem ActiveGraph.sweeps :
    Sweeps (layer0 ix) (flatnonzero activeMask) []
        (bfsSeen (layer0 ix) (flatnonzero activeMask) [s] []) ∧
      s ∈ bfsSeen (layer0 ix) (flatnonzero activeMask) [s] [] := by
  have hstart : Sweeps (layer0 ix) (flatnonzero activeMask) [s] [] :=
    ⟨by simp, List.nodup_nil, by simp⟩
  obtain ⟨hend, hall⟩ := sweeps_bfsSeen hstart
  exact ⟨hend, hall s h.entry (Or.inr List.mem_cons_self)⟩

/-- **The seen nodes are closed** under every list of the index. -/
theorem ActiveGraph.closed (L : ℕ) :
    Walk.Closed ix L {x | x ∈ bfsSeen (layer0 ix) (flatnonzero activeMask) [s] []} := by
  obtain ⟨hend, -⟩ := h.sweeps
  refine ⟨fun x hx => h.inRange (hend.live x hx), fun x hx nb hnb _ => ?_⟩
  cases L with
  | zero =>
    have hactive := h.inner x (hend.live x hx) nb hnb
    rw [← getD_layer0] at hnb
    exact (hend.closed x hx nb hnb hactive).resolve_right List.not_mem_nil
  | succ L =>
    have hone := h.singleLayer (asSize x)
    rw [Layered.nbrs, List.getElem?_eq_none (by omega)] at hnb
    cases hnb

theorem ActiveGraph.searchEntry_eq : ix.searchEntry s = s := by
  obtain ⟨v, rfl, hv⟩ := mem_flatnonzero h.entry
  have hlt : v < ix.numElements := h.mask ▸ hv
  have hcurr : (if (v : ℤ) < 0 then ix.entrypoint else v) = v := if_neg (by omega)
  simp only [Index.searchEntry, hcurr, Index.asSize_natCast]
  rw [if_neg (by omega)]

variable {D : Type} [FloatArith D] {locks : LockManager} {std : StdOrder (SearchHit.less D)}

/-- **A search from the entry**: what it returns was seen by the count, and it returns if no
acquisition times out and there is fuel for every node. -/
theorem ActiveGraph.gives_search (locks : LockManager) (std : StdOrder (SearchHit.less D))
    (acquires : ℕ → Bool) {query : List UInt32} (hquery : query.length = ix.dim) (fuel k : ℕ) :
    Walk.Gives (Walk.searchKnn (.fixed acquires ix) locks std (some query) fuel k s)
      (fun hits => ∀ hit ∈ hits,
        hit.nodeId ∈ bfsSeen (layer0 ix) (flatnonzero activeMask) [s] [])
      (Walk.Exits (.fixed acquires ix) locks (fuel ≤ ix.numElements)) := by
  have hone := h.singleLayer (asSize (ix.searchEntry s))
  refine (Walk.gives_searchKnn h.wellFormed.words hquery.ge h.loaded h.closed ?_ fuel k).mono
    (fun _ hhits => hhits) (Walk.Exits.imp fun hshort => by omega)
  rw [h.searchEntry_eq]
  exact h.sweeps.2

theorem ActiveGraph.seen_of_hit {acquires : ℕ → Bool} {query : List UInt32}
    (hquery : query.length = ix.dim) {fuel k : ℕ} {hits : List (SearchHit D)} {t : SearchState}
    (hsearch : Walk.searchKnn (.fixed acquires ix) locks std (some query) fuel k s Walk.start =
      (.ok hits, t)) :
    ∀ hit ∈ hits, hit.nodeId ∈ bfsSeen (layer0 ix) (flatnonzero activeMask) [s] [] := by
  rcases h.gives_search locks std acquires hquery fuel k Walk.start trivial with
    ⟨hits', t', heq, hin⟩ | ⟨e, t', heq, -⟩
  · rw [hsearch] at heq
    cases heq
    exact hin
  · rw [hsearch] at heq
    cases heq

/-- Without contention the search returns. -/
theorem ActiveGraph.search_returns {query : List UInt32} (hquery : query.length = ix.dim)
    {fuel : ℕ} (hfuel : ix.numElements < fuel) (k : ℕ) :
    ∃ hits t, Walk.searchKnn (.fixed (fun _ => true) ix) locks std (some query) fuel k s
      Walk.start = (.ok hits, t) := by
  rcases h.gives_search locks std (fun _ => true) hquery fuel k Walk.start trivial with
    ⟨hits, t, heq, -⟩ | ⟨e, t, -, hexit⟩
  · exact ⟨hits, t, heq⟩
  · cases e with
    | native e =>
      obtain ⟨-, t, ht⟩ := hexit
      cases ht
    | undefined => exact hexit.elim
    | outOfFuel =>
      have hshort : fuel ≤ ix.numElements := hexit
      omega

omit h in
/-- With one true neighbour each, the recall is the share of the queries that find it. -/
theorem exactRecallAtK_one {queries : List ℤ} (hpos : ∀ a ∈ queries, 0 ≤ a) (hne : queries ≠ [])
    (pred : ℤ → List ℤ) :
    exactRecallAtK (queries.map pred) (queries.map fun a => [a]) 1 =
      ((queries.filter fun a => a ∈ labelSet 1 (pred a)).length : ℚ) / queries.length := by
  have hscore : ∀ a ∈ queries, (if labelSet 1 [a] = ∅ then none
      else some (((labelSet 1 (pred a) ∩ labelSet 1 [a]).card : ℚ) / (labelSet 1 [a]).card)) =
        some (if a ∈ labelSet 1 (pred a) then (1 : ℚ) else 0) := by
    intro a ha
    have hself : labelSet 1 [a] = {a} := by simp [labelSet, hpos a ha]
    rw [hself, if_neg (Finset.singleton_ne_empty a), Finset.inter_singleton]
    split <;> simp
  have hscores : ((queries.map pred).zip (queries.map fun a => [a])).filterMap (fun p =>
      if labelSet 1 p.2 = ∅ then none
      else some (((labelSet 1 p.1 ∩ labelSet 1 p.2).card : ℚ) / (labelSet 1 p.2).card)) =
        queries.map fun a => if a ∈ labelSet 1 (pred a) then (1 : ℚ) else 0 := by
    rw [List.zip_map', List.filterMap_map]
    refine (List.filterMap_congr hscore).trans ?_
    exact congrFun List.filterMap_eq_map queries
  have hsum : ∀ l : List ℤ, (l.map fun a => if a ∈ labelSet 1 (pred a) then (1 : ℚ) else 0).sum =
      ((l.filter fun a => a ∈ labelSet 1 (pred a)).length : ℚ) := by
    intro l
    induction l with
    | nil => rfl
    | cons a l ih =>
      rw [List.map_cons, List.sum_cons, ih, List.filter_cons]
      by_cases ha : a ∈ labelSet 1 (pred a)
      · simp [ha, add_comm]
      · simp [ha]
  simp only [exactRecallAtK, hscores]
  rw [if_neg (by simpa using hne), hsum, List.length_map]

omit h in
/-- The share of the seen nodes is the bound. -/
theorem share_le_bound {found seen n : ℕ} (hn : 0 < n) (hfound : found ≤ seen) :
    (found : ℚ) / n ≤ (FragmentationBound.fromCounts n (n - seen)).recallAt1UpperBound := by
  have hbound : (FragmentationBound.fromCounts n (n - seen)).recallAt1UpperBound =
      1 - (((n : ℤ) - seen : ℤ) : ℚ) / ((n : ℤ) : ℚ) := by
    simp only [FragmentationBound.fromCounts]
    rw [if_neg (by omega), min_eq_left (by omega)]
  have hpos : (0 : ℚ) < n := by exact_mod_cast hn
  have hle : (found : ℚ) ≤ seen := by exact_mod_cast hfound
  rw [hbound]
  push_cast
  rw [sub_div, div_self hpos.ne', sub_sub_cancel]
  exact div_le_div_of_nonneg_right hle hpos.le

/-- **The fragmentation bound for the real search.** On a single-layer index, with an active set
that its lists do not leave and whose vectors are distinct, every active vector used once as a
query: the searches from the entry `s` return, and the recall@1 of what any such searches return
against the exact nearest active nodes is at most the bound made of the number of active nodes
that `bfs_unreachable_fraction` does not reach from `s`. -/
theorem ActiveGraph.recall_le_bound {queries : List ℤ}
    (hqueries : queries.Perm (flatnonzero activeMask)) {truth : ℤ → ℤ}
    (htruth : ∀ a ∈ queries,
      IsNearest ix (flatnonzero activeMask) (ix.row (asSize a)) (truth a))
    (locks : LockManager) (std : StdOrder (SearchHit.less D)) (pick : List ℤ → ℤ) :
    let bfs := bfsUnreachableFraction (layer0 ix) activeMask s pick
    (∀ a ∈ queries, ∀ fuel, ix.numElements < fuel → ∃ hits t,
      Walk.searchKnn (.fixed (fun _ => true) ix) locks std (some (ix.row (asSize a))) fuel 1 s
        Walk.start = (.ok hits, t)) ∧
      ∀ pred : ℤ → List ℤ, (∀ a ∈ queries, ∃ acquires fuel hits t,
        Walk.searchKnn (.fixed acquires ix) locks std (some (ix.row (asSize a))) fuel 1 s
          Walk.start = (.ok hits, t) ∧ pred a = hits.map SearchHit.nodeId) →
        exactRecallAtK (queries.map pred) (queries.map fun a => [truth a]) 1 ≤
          (FragmentationBound.fromCounts bfs.2.2 (bfs.2.2 - bfs.2.1)).recallAt1UpperBound := by
  intro bfs
  have hactive : ∀ a ∈ queries, a ∈ flatnonzero activeMask := fun a ha => hqueries.mem_iff.mp ha
  refine ⟨fun a ha fuel hfuel => h.search_returns (h.length_row (hactive a ha)) hfuel 1, ?_⟩
  intro pred hpred
  obtain ⟨hsweeps, -⟩ := h.sweeps
  -- the ground truth is the queries themselves
  have hself : (queries.map fun a => [truth a]) = queries.map fun a => [a] :=
    List.map_congr_left fun a ha => by rw [h.nearest_eq (hactive a ha) (htruth a ha)]
  have hne : queries ≠ [] := List.ne_nil_of_mem (hqueries.mem_iff.mpr h.entry)
  have hpos : ∀ a ∈ queries, 0 ≤ a := by
    intro a ha
    obtain ⟨v, rfl, -⟩ := mem_flatnonzero (hactive a ha)
    exact Int.natCast_nonneg v
  -- a query that finds itself was seen
  have hfound : (queries.filter fun a => a ∈ labelSet 1 (pred a)).length ≤
      (bfsSeen (layer0 ix) (flatnonzero activeMask) [s] []).length := by
    refine (List.Nodup.subperm ?_ fun a ha => ?_).length_le
    · exact (hqueries.nodup_iff.mpr (nodup_flatnonzero activeMask)).filter _
    · obtain ⟨ha, hmem⟩ := List.mem_filter.mp ha
      obtain ⟨acquires, fuel, hits, t, hsearch, heq⟩ := hpred a ha
      have hin : a ∈ pred a := by
        have hset : a ∈ labelSet 1 (pred a) := by simpa using hmem
        rw [labelSet, List.mem_toFinset] at hset
        exact List.mem_of_mem_take (List.mem_filter.mp hset).1
      rw [heq, List.mem_map] at hin
      obtain ⟨hit, hhit, rfl⟩ := hin
      exact h.seen_of_hit (h.length_row (hactive _ ha)) hsearch hit hhit
  have hbfs : bfs.2 = ((bfsSeen (layer0 ix) (flatnonzero activeMask) [s] []).length,
      queries.length) := by
    simp only [bfs, bfsUnreachableFraction]
    rw [if_neg (List.ne_nil_of_mem h.entry), if_pos h.entry, hqueries.length_eq]
  rw [hself, exactRecallAtK_one hpos hne, hbfs]
  exact share_le_bound (List.length_pos_of_ne_nil hne) hfound

end Bound

/-- Three nodes, two of them joined. -/
def twoOfThree : Index where
  data := some ⟨[1065353216, 1073741824, 1082130432], by simp⟩
  ownsData := true
  dim := 1
  numElements := 3
  entrypoint := 0
  adjacency := [[[1]], [[0]], [[]]]

theorem activeGraph_twoOfThree : ActiveGraph twoOfThree [true, true, true] 0 where
  wellFormed := ⟨rfl, rfl, Index.labelsIn_iff.mpr (by decide), Or.inr (by decide)⟩
  loaded := rfl
  mask := rfl
  singleLayer v := by rcases v with _ | _ | _ | v <;> simp [twoOfThree, Layered.layersOf]
  inner := by decide
  entry := by decide
  distinct := by decide +kernel

/-- The labels a search returned. -/
def labelsOf {D : Type} : Except SearchExit (List (SearchHit D)) → List ℤ
  | .ok hits => hits.map SearchHit.nodeId
  | .error _ => []

/-- The searches on `twoOfThree`, and their recall. -/
theorem recall_le_bound_twoOfThree :
    let search := fun a : ℤ => Walk.searchKnn (.fixed (fun _ => true) twoOfThree)
      (.ofPool 64 50) (.reference (SearchHit.less Float)) (some (twoOfThree.row (asSize a))) 4 1 0
      Walk.start
    let bfs := bfsUnreachableFraction (layer0 twoOfThree) [true, true, true] 0 List.sum
    exactRecallAtK (([0, 1, 2] : List ℤ).map fun a => labelsOf (search a).1) [[0], [1], [2]] 1 ≤
      (FragmentationBound.fromCounts bfs.2.2 (bfs.2.2 - bfs.2.1)).recallAt1UpperBound := by
  intro search bfs
  have hqueries : ([0, 1, 2] : List ℤ).Perm (flatnonzero [true, true, true]) := by decide
  have hnearest : ∀ a ∈ ([0, 1, 2] : List ℤ), IsNearest twoOfThree
      (flatnonzero [true, true, true]) (twoOfThree.row (asSize a)) a := by decide +kernel
  obtain ⟨hreturns, hbound⟩ := activeGraph_twoOfThree.recall_le_bound hqueries hnearest
    (.ofPool 64 50) (.reference (SearchHit.less Float)) List.sum
  refine hbound (fun a => labelsOf (search a).1) fun a ha => ?_
  obtain ⟨hits, t, heq⟩ := hreturns a ha 4 (by decide)
  exact ⟨fun _ => true, 4, hits, t, heq, by simp only [search, heq, labelsOf]⟩

end Unlearning
