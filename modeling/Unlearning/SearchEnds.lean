import Unlearning.ExactSearch

/-!
# Search terminates (`greedy_update_locked`, `base_layer_search_locked`)

Both `while` loops of a search end on every graph, with cycles, loops, repeated labels and missing
layers, whatever is asked of them:

* the improve loop has no visited set, but it restarts at a node that is strictly closer to the
  query, so fewer nodes are closer still (`closer`). It stops where a scan found nothing closer;
* a round of the frontier loop pops a pending node and makes none pending (`Beam.pending`): a node
  is marked before it is offered, whether the heap admits it or not. This needs nothing of the
  distances, nor that the index stays the same.

`Halts` is how a loop may end without returning. Running out of fuel is not among it.
-/

namespace Unlearning

namespace Walk

/-- A lock timed out, or a read was outside a buffer, where `wild` allows that. -/
def Halts (env : SearchEnv) (locks : LockManager) (wild : Prop) : SearchExit → Prop
  | .native e => (∃ stripe, e = sharedTimeout locks stripe) ∧ ∃ t, env.acquires t = false
  | .undefined => wild
  | .outOfFuel => False

theorem Exits.halts {env : SearchEnv} {locks : LockManager} {short wild : Prop} (h : ¬ short)
    (e : SearchExit) (he : Exits env locks short e) : Halts env locks wild e := by
  cases e with
  | native e => exact he
  | undefined => exact he.elim
  | outOfFuel => exact h he

theorem Halts.imp {env : SearchEnv} {locks : LockManager} {wild wild' : Prop} (h : wild → wild')
    (e : SearchExit) (he : Halts env locks wild e) : Halts env locks wild' e := by
  cases e with
  | undefined => exact h he
  | _ => exact he

theorem Halts.ne_outOfFuel {env : SearchEnv} {locks : LockManager} {wild : Prop} (e : SearchExit)
    (he : Halts env locks wild e) : e ≠ .outOfFuel := by
  rintro rfl
  exact he

/-! ## The frontier loop -/

section Frontier

variable {env : SearchEnv} {locks : LockManager} {D : Type} [FloatArith D]
  {std : StdOrder (SearchHit.less D)} {query : List UInt32}

theorem look_some {α : Type} {e : SearchEvent} {f : Index → Option α} {s : SearchState} {a : α}
    (h : f (env.index s.clock) = some a) : look env e f s = (.ok a, s.log e) := by
  simp only [look, h]

theorem look_none {α : Type} {e : SearchEvent} {f : Index → Option α} {s : SearchState}
    (h : f (env.index s.clock) = none) : look env e f s = (.error .undefined, s.log e) := by
  simp only [look, h]

theorem halts_look {α : Type} (e : SearchEvent) (f : Index → Option α) :
    Gives (look env e f) (fun _ => True) (Halts env locks True) := by
  intro s _
  rcases hf : f (env.index s.clock) with _ | a
  · exact Or.inr ⟨.undefined, s.log e, look_none hf, trivial⟩
  · exact Or.inl ⟨a, s.log e, look_some hf, trivial⟩

theorem halts_here : Gives (here env) (fun _ => True) (Halts env locks True) :=
  Act.triple_reads fun _ _ => trivial

theorem halts_advance {wild : Prop} (next : ℤ) :
    Gives (advance env locks next) (fun _ => True) (Halts env locks wild) :=
  (gives_advance next).mono (fun _ h => h) (Exits.halts not_false)

theorem halts_layers (node : ℤ) :
    Gives (layers env node) (fun _ => True) (Halts env locks True) := by
  refine halts_here.bind fun _ _ => ?_
  split
  · exact halts_look _ _
  · exact gives_pure trivial

theorem halts_neighbors (node : ℤ) (layer : ℕ) :
    Gives (neighbors env node layer) (fun _ => True) (Halts env locks True) := by
  refine (halts_layers node).bind fun _ _ => ?_
  split
  · exact halts_look _ _
  · exact gives_pure trivial

theorem halts_distanceQuery (node : ℤ) :
    Gives (distanceQuery env D query node) (fun _ => True) (Halts env locks True) :=
  halts_look _ _

/-- A scan makes no node pending: what it may push it has marked. -/
theorem halts_scan (ef : ℕ) (u : ℤ) (nbrs : List ℤ) (b : Beam D) :
    Gives (scan env locks std query ef u nbrs b) (fun b' => b'.pending ≤ b.pending)
      (Halts env locks True) := by
  induction nbrs generalizing b with
  | nil => exact gives_pure le_rfl
  | cons nb rest ih =>
    refine halts_here.bind fun ix _ => ?_
    split
    · split
      · exact gives_raise trivial
      · exact ih b
      · rename_i hfresh
        refine (halts_advance nb).bind fun _ _ => ?_
        refine (halts_distanceQuery nb).bind fun d _ => ?_
        refine (halts_advance u).bind fun _ _ => ?_
        refine (ih _).mono (fun b' hb' => ?_) fun _ h => h
        have hmark := Beam.pending_mark hfresh
        have hoffer := Beam.pending_offer std ef nb d
          { b with visited := b.visited.set (asSize nb) true }
        omega
    · exact ih b

/-- **The frontier loop ends**, with a unit of fuel for every pending node. -/
theorem halts_explore (ef : ℕ) {fuel : ℕ} {b : Beam D} (hfuel : b.pending < fuel) :
    Gives (explore env locks std query ef fuel b) (fun _ => True) (Halts env locks True) := by
  induction fuel generalizing b with
  | zero => exact absurd hfuel (Nat.not_lt_zero _)
  | succ fuel ih =>
    rw [explore]
    split
    · exact gives_pure trivial
    · rename_i u frontier hfrontier
      have hpop : ({ b with frontier := frontier } : Beam D).pending + 1 = b.pending := by
        simp only [Beam.pending, hfrontier, List.length_cons]
        omega
      refine (halts_advance u).bind fun _ _ => ?_
      refine (halts_neighbors u 0).bind fun nbrs _ => ?_
      refine (halts_scan ef u nbrs _).bind fun b' hb' => ?_
      exact ih (by omega)

/-- The base layer, from any label. -/
theorem halts_baseLayerSearchLocked {acquires : ℕ → Bool} {ix : Index} {fuel : ℕ}
    (hfuel : ix.numElements < fuel) (entry : ℤ) (k : ℕ) :
    Gives (baseLayerSearchLocked (.fixed acquires ix) locks std query fuel entry k)
      (fun _ => True) (Halts (.fixed acquires ix) locks True) := by
  refine gives_here.bind ?_
  rintro _ rfl
  refine (halts_advance entry).bind fun _ _ => ?_
  split
  · rename_i hentry
    refine (halts_distanceQuery entry).bind fun d _ => ?_
    have hstart := Beam.pending_start (std.push [] ⟨entry, d⟩) hentry
    exact (halts_explore (max k 16) (by omega)).bind fun _ _ => gives_pure trivial
  · exact gives_raise trivial

end Frontier

/-! ## The improve loop -/

section Improve

variable {D : Type} [FloatArith D] [LinearOrder D] {acquires : ℕ → Bool} {ix : Index}
  {locks : LockManager} {query : List UInt32}

/-- The query is too short for a row, or the label is no node. -/
def OutOfBounds (ix : Index) (query : List UInt32) (node : ℤ) : Prop :=
  query.length < ix.dim ∨ ix.inRange node = false

/-- What the improve loop returns from `curr`: a node no further, with no closer neighbour. -/
def LocallyNearest (D : Type) [FloatArith D] [LinearOrder D] (ix : Index) (query : List UInt32)
    (layer : ℕ) (curr r : ℤ) : Prop :=
  ix.queryDistance D query r ≤ ix.queryDistance D query curr ∧
    ∀ nb ∈ ix.adjacency.nbrs (asSize r) layer,
      ¬ ix.queryDistance D query nb < ix.queryDistance D query r

variable (hlt : ∀ a b : D, FloatArith.lt a b = true ↔ a < b) (hix : ix.WellFormed)

theorem inRange_of_mem (hix : ix.WellFormed) {v L : ℕ} {nb : ℤ} (h : nb ∈ ix.adjacency.nbrs v L) :
    ix.inRange nb = true := by
  obtain ⟨h0, hlt⟩ := hix.labels v L nb h
  exact Index.inRange_iff.mpr ⟨nb.toNat, (Int.toNat_of_nonneg h0).symm, by omega⟩

omit [LinearOrder D] in
include hix in
/-- A distance is the true one, or it was read out of bounds. -/
theorem halts_distanceQuery_true (node : ℤ) :
    Gives (distanceQuery (.fixed acquires ix) D query node)
      (fun d => d = ix.queryDistance D query node ∧ ix.dim ≤ query.length)
      (Halts (.fixed acquires ix) locks (OutOfBounds ix query node)) := by
  by_cases hbounds : OutOfBounds ix query node
  · intro s _
    by_cases hread : ix.dim ≤ query.length ∧
        asSize node * ix.dim + ix.dim ≤ ix.words.length
    · exact Or.inl ⟨ix.queryDistance D query node, s.log (.readVector node),
        look_some (if_pos hread), rfl, hread.1⟩
    · exact Or.inr ⟨.undefined, s.log (.readVector node), look_none (if_neg hread), hbounds⟩
  · obtain ⟨hquery, hr⟩ := not_or.mp hbounds
    exact (gives_distanceQuery hix.words (Nat.le_of_not_lt hquery) (by simpa using hr)).mono
      (fun d hd => ⟨hd, Nat.le_of_not_lt hquery⟩) fun _ h => h

include hlt hix in
/-- A scan that finds nothing has seen that no neighbour is closer. -/
theorem gives_greedyScan_none (hquery : ix.dim ≤ query.length) (curr : ℤ) (bestDist : D)
    {nbrs : List ℤ} (hnbrs : ∀ nb ∈ nbrs, ix.inRange nb = true) :
    Gives (greedyScan (.fixed acquires ix) locks D query curr bestDist nbrs)
      (fun r => r = none → ∀ nb ∈ nbrs, ¬ ix.queryDistance D query nb < bestDist)
      (Exits (.fixed acquires ix) locks False) := by
  induction nbrs with
  | nil => exact gives_pure fun _ nb hnb => absurd hnb List.not_mem_nil
  | cons nb rest ih =>
    obtain ⟨hr, hrest⟩ := List.forall_mem_cons.mp hnbrs
    refine gives_here.bind ?_
    rintro _ rfl
    rw [if_pos hr]
    refine (gives_advance nb).bind fun _ _ => ?_
    refine (gives_distanceQuery hix.words hquery hr).bind fun d hd => ?_
    split
    · exact gives_pure fun h => by cases h
    · rename_i hfurther
      rw [hlt, hd] at hfurther
      refine (gives_advance curr).bind fun _ _ => ?_
      exact (ih hrest).mono
        (fun r hnone hr => List.forall_mem_cons.mpr ⟨hfurther, hnone hr⟩) fun _ h => h

include hlt hix in
/-- **The improve loop ends**, with a unit of fuel for every node that is closer, and where it ends
no neighbour is closer. -/
theorem halts_greedyUpdateLocked (layer : ℕ) {fuel : ℕ} {curr : ℤ}
    (hfuel : (closer ix query (ix.queryDistance D query curr)).length < fuel) :
    Gives (greedyUpdateLocked (.fixed acquires ix) locks D query layer fuel curr)
      (LocallyNearest D ix query layer curr)
      (Halts (.fixed acquires ix) locks (OutOfBounds ix query curr)) := by
  induction fuel generalizing curr with
  | zero => exact absurd hfuel (Nat.not_lt_zero _)
  | succ fuel ih =>
    refine (halts_distanceQuery_true hix curr).bind ?_
    rintro _ ⟨rfl, hquery⟩
    refine (gives_neighbors curr layer).bind ?_
    rintro _ rfl
    have hlabels : ∀ nb ∈ ix.adjacency.nbrs (asSize curr) layer, ix.inRange nb = true :=
      fun nb hnb => inRange_of_mem hix hnb
    refine (((gives_greedyScan_closer hlt hix.words hquery curr _ _).and
      (gives_greedyScan_none hlt hix hquery curr _ hlabels)).mono
      (fun _ h => h) fun e he => Exits.halts not_false e he.1).bind ?_
    rintro r ⟨hcloser, hnone⟩
    cases r with
    | none => exact gives_pure ⟨le_rfl, hnone rfl⟩
    | some nb =>
      obtain ⟨hin, hless⟩ := hcloser nb rfl
      have hfewer := length_closer_lt hin hless
      have hfuel' : (closer ix query (ix.queryDistance D query nb)).length < fuel := by omega
      refine (ih hfuel').mono (fun r hr => ⟨hr.1.trans hless.le, hr.2⟩)
        (Halts.imp fun hbounds => ?_)
      rcases hbounds with hshort | hout
      · exact absurd hquery (Nat.not_le_of_lt hshort)
      · rw [hin] at hout
        cases hout

include hlt hix in
theorem halts_descend {fuel : ℕ} (hfuel : ix.numElements < fuel) (lc : ℕ) (curr : ℤ) :
    Gives (descend (.fixed acquires ix) locks D query fuel lc curr) (fun _ => True)
      (Halts (.fixed acquires ix) locks True) := by
  induction lc generalizing curr with
  | zero => exact gives_pure trivial
  | succ lc ih =>
    have hround : Gives (greedyUpdateLocked (.fixed acquires ix) locks D query (lc + 1) fuel curr)
        (LocallyNearest D ix query (lc + 1) curr)
        (Halts (.fixed acquires ix) locks (OutOfBounds ix query curr)) :=
      halts_greedyUpdateLocked hlt hix (lc + 1) ((length_closer_le _).trans_lt hfuel)
    exact (hround.mono (fun _ _ => trivial) (Halts.imp fun _ => trivial)).bind fun r _ => ih r

include hlt hix in
theorem ends_searchKnn (std : StdOrder (SearchHit.less D)) {fuel : ℕ}
    (hfuel : ix.numElements < fuel) (k : ℕ) (entryNode : ℤ) :
    Gives (searchKnn (.fixed acquires ix) locks std (some query) fuel k entryNode)
      (fun _ => True) (· ≠ .outOfFuel) := by
  have hends {α : Type} {Q : α → Prop} {w : Walk α}
      (h : Gives w Q (Halts (.fixed acquires ix) locks True)) :
      Gives w (fun _ => True) (· ≠ .outOfFuel) := h.mono (fun _ _ => trivial) Halts.ne_outOfFuel
  rw [searchKnn]
  split
  · exact gives_pure trivial
  · refine (gives_alter _).bind fun _ _ => Gives.withDestructor ?_ _
    refine (hends halts_here).bind fun _ _ => ?_
    split
    · exact gives_raise fun h => by cases h
    · refine (hends ((gives_topLayer _).mono (fun _ h => h)
        (Exits.halts not_false))).bind fun top _ => Gives.withDestructor ?_ _
      refine (hends ((gives_enter _).mono (fun _ h => h)
        (Exits.halts not_false))).bind fun _ _ => ?_
      refine (hends (halts_descend hlt hix hfuel top _)).bind fun curr _ => ?_
      exact hends (halts_baseLayerSearchLocked hfuel curr k)

end Improve

/-- **Search terminates.** With a unit of fuel more than there are nodes, neither loop runs out of
it: from any label and for any query, the improve loop returns a node that is no further and has no
strictly closer neighbour, and the frontier loop returns; unless a lock times out, or the very label
or query that was given is out of bounds. So no search runs out of fuel, whatever its entry
and `k`. -/
theorem search_terminates {D : Type} [FloatArith D] [LinearOrder D]
    (hlt : ∀ a b : D, FloatArith.lt a b = true ↔ a < b) {ix : Index} (hix : ix.WellFormed)
    (query : List UInt32) {fuel : ℕ} (hfuel : ix.numElements < fuel) (acquires : ℕ → Bool)
    (locks : LockManager) (std : StdOrder (SearchHit.less D)) :
    (∀ layer curr, Gives (greedyUpdateLocked (.fixed acquires ix) locks D query layer fuel curr)
      (LocallyNearest D ix query layer curr)
      (Halts (.fixed acquires ix) locks (OutOfBounds ix query curr))) ∧
    (∀ entry k, Gives (baseLayerSearchLocked (.fixed acquires ix) locks std query fuel entry k)
      (fun _ => True) (Halts (.fixed acquires ix) locks (OutOfBounds ix query entry))) ∧
    ∀ k entryNode s,
      (searchKnn (.fixed acquires ix) locks std (some query) fuel k entryNode s).1 ≠
        .error .outOfFuel := by
  refine ⟨fun layer curr => ?_, fun entry k => ?_, fun k entryNode s => ?_⟩
  · exact halts_greedyUpdateLocked hlt hix layer ((length_closer_le _).trans_lt hfuel)
  · by_cases hbounds : OutOfBounds ix query entry
    · exact (halts_baseLayerSearchLocked hfuel entry k).mono (fun _ h => h)
        (Halts.imp fun _ => hbounds)
    · obtain ⟨hquery, hr⟩ := not_or.mp hbounds
      exact (gives_baseLayerSearchLocked hix.words (Nat.le_of_not_lt hquery)
        (Index.closed_inRange ix 0) fuel (by simpa using hr) k).mono (fun _ _ => trivial)
        (Exits.halts (Nat.not_le_of_lt hfuel))
  · have hends : Gives (searchKnn (.fixed acquires ix) locks std (some query) fuel k entryNode)
        (fun _ => True) (· ≠ .outOfFuel) := ends_searchKnn hlt hix std hfuel k entryNode
    rcases hends s trivial with ⟨a, s', heq, -⟩ | ⟨e, s', heq, he⟩
    · rw [heq]
      exact fun h => by cases h
    · rw [heq]
      exact fun h => he (Except.error.inj h)

/-- Two nodes that lead to each other. -/
theorem search_terminates_twoNodes : ∃ r s,
    greedyUpdateLocked (.fixed (fun _ => true) twoNodes) (.ofPool 64 50) ℚ [1073741824] 0 3 0 start =
      (.ok r, s) ∧ LocallyNearest ℚ twoNodes [1073741824] 0 0 r := by
  have hix : twoNodes.WellFormed :=
    ⟨rfl, rfl, Index.labelsIn_iff.mpr (by decide), Or.inr (by decide)⟩
  rcases (search_terminates (D := ℚ) (fun _ _ => decide_eq_true_iff) hix [1073741824]
    (by decide : twoNodes.numElements < 3) (fun _ => true) (.ofPool 64 50)
    (.reference (SearchHit.less ℚ))).1 0 0 start trivial with ⟨r, s, heq, hr⟩ | ⟨e, s, -, he⟩
  · exact ⟨r, s, heq, hr⟩
  · cases e with
    | native e =>
      obtain ⟨-, t, ht⟩ := he
      cases ht
    | undefined =>
      rcases he with hshort | hout
      · exact absurd hshort (by decide)
      · exact absurd hout (by decide)
    | outOfFuel => exact he.elim

end Walk

end Unlearning
