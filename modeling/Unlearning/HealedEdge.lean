import Unlearning.HealFrame

/-!
# One healed edge (`src/hnsw_helper.hpp`, `try_insert_healed_edge`)

Both endpoints make capacity before either half of the edge is written. What an endpoint does
depends on its own list only, so the whole insertion is read off the two lists:

* `Accepts` is the answer of a capacity check, `afterCheck` the list it leaves;
* `Fits` says that the half edge is appended in the end: the list is checked twice, once before
  and once inside `commit_half_edge`, and may lose a neighbour each time.

The first endpoint has given up its furthest neighbour before the second one is asked, so a
refusal of the second leaves the first without either.
-/

namespace Unlearning

namespace Index

section Lists

variable (D : Type) [FloatArith D] (ix : Index)

/-- The list after an eviction. A node that lists itself gives up the edge back from its own
list. -/
def evictedFrom (node : ℤ) (nbrs : List ℤ) : List ℤ :=
  let i := (ix.furthest D node nbrs).1
  if nbrs[i]? = some node then (nbrs.eraseIdx i).filter (· ≠ node) else nbrs.eraseIdx i

/-- The capacity check lets the candidate in. -/
def Accepts (maxM node cand : ℤ) (nbrs : List ℤ) : Prop :=
  HasRoom maxM nbrs ∨ Swaps D ix node cand nbrs

instance (maxM node cand : ℤ) (nbrs : List ℤ) : Decidable (Accepts D ix maxM node cand nbrs) :=
  inferInstanceAs (Decidable (_ ∨ _))

/-- The list a capacity check leaves, of a list without the candidate. -/
def afterCheck (maxM node cand : ℤ) (nbrs : List ℤ) : List ℤ :=
  if HasRoom maxM nbrs then nbrs
  else if Swaps D ix node cand nbrs then evictedFrom D ix node nbrs
  else nbrs

/-- **The half edge gets in**: both checks pass and leave room. -/
def Fits (maxM node cand : ℤ) (nbrs : List ℤ) : Prop :=
  Accepts D ix maxM node cand nbrs ∧
    Accepts D ix maxM node cand (afterCheck D ix maxM node cand nbrs) ∧
    HasRoom maxM (afterCheck D ix maxM node cand (afterCheck D ix maxM node cand nbrs))

instance (maxM node cand : ℤ) (nbrs : List ℤ) : Decidable (Fits D ix maxM node cand nbrs) :=
  inferInstanceAs (Decidable (_ ∧ _ ∧ _))

variable {D ix} {maxM node cand : ℤ} {nbrs : List ℤ}

theorem evictedFrom_sublist : (evictedFrom D ix node nbrs).Sublist nbrs := by
  simp only [evictedFrom]
  split
  · exact List.filter_sublist.trans (List.eraseIdx_sublist _ _)
  · exact List.eraseIdx_sublist _ _

theorem afterCheck_sublist : (afterCheck D ix maxM node cand nbrs).Sublist nbrs := by
  rw [afterCheck]
  split
  · exact List.Sublist.refl _
  · split
    · exact evictedFrom_sublist
    · exact List.Sublist.refl _

theorem afterCheck_of_hasRoom (h : HasRoom maxM nbrs) :
    afterCheck D ix maxM node cand nbrs = nbrs := if_pos h

/-- A full list that lets a candidate in is shorter afterwards. -/
theorem length_afterCheck_lt (hmax : 0 < maxM) (hfull : ¬ HasRoom maxM nbrs)
    (h : Accepts D ix maxM node cand nbrs) :
    (afterCheck D ix maxM node cand nbrs).length < nbrs.length := by
  have hlt : (ix.furthest D node nbrs).1 < nbrs.length := furthest_lt_of_full hmax hfull node
  have herase : (nbrs.eraseIdx (ix.furthest D node nbrs).1).length < nbrs.length := by
    rw [List.length_eraseIdx_of_lt hlt]
    omega
  rw [afterCheck, if_neg hfull, if_pos (h.resolve_left hfull), evictedFrom]
  split
  · exact (List.length_filter_le _ _).trans_lt herase
  · exact herase

theorem fits_of_hasRoom (h : HasRoom maxM nbrs) : Fits D ix maxM node cand nbrs := by
  rw [Fits, afterCheck_of_hasRoom h, afterCheck_of_hasRoom h]
  exact ⟨Or.inl h, Or.inl h, h⟩

end Lists

/-! ## What the helpers do to the lists -/

section Helpers

variable {D : Type} [FloatArith D] {ix : Index} {maxM : ℤ} {layer : ℕ} {node cand : ℤ}
  {s : HealWork}

/-- The evicted list, where the node can list itself. -/
theorem nbrs_evict_self (hnode : asSize node < ix.numElements) (hint : IsInt64 node)
    (hlabels : ∀ x ∈ s.adjacency.nbrs (asSize node) layer, IsInt64 x) {i : ℕ}
    (hi : i < (s.adjacency.nbrs (asSize node) layer).length) :
    (s.evict ix.numElements node layer i).adjacency.nbrs (asSize node) layer =
      if (s.adjacency.nbrs (asSize node) layer)[i]? = some node then
        ((s.adjacency.nbrs (asSize node) layer).eraseIdx i).filter (· ≠ node)
      else (s.adjacency.nbrs (asSize node) layer).eraseIdx i := by
  obtain ⟨far, hfar⟩ : ∃ far, (s.adjacency.nbrs (asSize node) layer)[i]? = some far :=
    ⟨_, List.getElem?_eq_getElem hi⟩
  have hfar64 := hlabels far (List.mem_of_getElem? hfar)
  rw [nbrs_evict_eq]
  simp only [hfar, Option.getD_some, Option.some.injEq, and_true, if_true]
  by_cases hself : far = node
  · rw [if_pos ⟨by rwa [hself], by rw [hself]⟩, if_pos hself]
  · rw [if_neg hself, if_neg fun h => hself (asSize_inj hfar64 hint h.2.symm)]

/-- **The capacity check**: its answer and the list it leaves. -/
theorem ensureCapacityFor_self (hnode : asSize node < ix.numElements) (hint : IsInt64 node)
    (hlabels : ∀ x ∈ s.adjacency.nbrs (asSize node) layer, IsInt64 x) (hmax : 0 < maxM)
    (hnot : cand ∉ s.adjacency.nbrs (asSize node) layer) :
    ((ix.ensureCapacityFor D node cand layer maxM s).1 = true ↔
        Accepts D ix maxM node cand (s.adjacency.nbrs (asSize node) layer)) ∧
      (ix.ensureCapacityFor D node cand layer maxM s).2.adjacency.nbrs (asSize node) layer =
        afterCheck D ix maxM node cand (s.adjacency.nbrs (asSize node) layer) := by
  have hslot : (s.slot ix.numElements (asSize node) layer).adjacency.nbrs (asSize node) layer =
      s.adjacency.nbrs (asSize node) layer := nbrs_ensureLayerSlot _ _ _ _ _ _
  rw [ensureCapacityFor_eq, afterCheck, Accepts]
  by_cases hroom : HasRoom maxM (s.adjacency.nbrs (asSize node) layer)
  · rw [if_pos (Or.inr hroom), if_pos hroom]
    exact ⟨iff_of_true rfl (Or.inl hroom), hslot⟩
  · rw [if_neg (not_or.mpr ⟨hnot, hroom⟩), if_neg hroom]
    by_cases hswap : Swaps D ix node cand (s.adjacency.nbrs (asSize node) layer)
    · rw [if_pos hswap, if_pos hswap]
      refine ⟨iff_of_true rfl (Or.inr hswap), ?_⟩
      have hlt : (ix.furthest D node (s.adjacency.nbrs (asSize node) layer)).1 <
          (s.adjacency.nbrs (asSize node) layer).length := furthest_lt_of_full hmax hroom node
      rw [nbrs_evict_self hnode hint (by rwa [hslot]) (by rwa [hslot]), hslot]
      rfl
    · rw [if_neg hswap, if_neg hswap]
      exact ⟨iff_of_false (by simp) (not_or.mpr ⟨hroom, hswap⟩), hslot⟩

/-- The lists of a node that is not listed stay as they are. -/
theorem ensureCapacityFor_other {v : ℕ} (hv : v ≠ asSize node)
    (hnot : ∀ x ∈ s.adjacency.nbrs (asSize node) layer, asSize x ≠ v) (hmax : 0 < maxM) (K : ℕ) :
    (ix.ensureCapacityFor D node cand layer maxM s).2.adjacency.nbrs v K =
      s.adjacency.nbrs v K := by
  have hslot : ∀ v K, (s.slot ix.numElements (asSize node) layer).adjacency.nbrs v K =
      s.adjacency.nbrs v K := nbrs_ensureLayerSlot _ _ _ _
  rw [ensureCapacityFor_eq]
  split
  · exact hslot v K
  · rename_i hfull
    split
    · have hlt : (ix.furthest D node (s.adjacency.nbrs (asSize node) layer)).1 <
          (s.adjacency.nbrs (asSize node) layer).length :=
        furthest_lt_of_full hmax (fun hroom => hfull (Or.inr hroom)) node
      simp only [HealWork.evict, hslot, List.getElem?_eq_getElem hlt, Option.getD_some]
      have hfar := hnot _ (List.getElem_mem hlt)
      have hput : ∀ l, ((s.slot ix.numElements (asSize node) layer).adjacency.put (asSize node)
          layer l).nbrs v K = s.adjacency.nbrs v K :=
        fun l => (Layered.nbrs_put_ne l (Or.inl hv)).trans (hslot v K)
      split
      · rw [nbrs_dropLabel, if_neg fun h => hfar h.1.symm]
        simp only [HealWork.slot, nbrs_ensureLayerSlot] at hput ⊢
        exact hput _
      · exact hput _
    · exact hslot v K

/-- With room, or after a refusal, no list has changed. -/
theorem ensureCapacityFor_same
    (h : HasRoom maxM (s.adjacency.nbrs (asSize node) layer) ∨
      ¬ Accepts D ix maxM node cand (s.adjacency.nbrs (asSize node) layer)) (v K : ℕ) :
    (ix.ensureCapacityFor D node cand layer maxM s).2.adjacency.nbrs v K =
      s.adjacency.nbrs v K := by
  have hslot : (s.slot ix.numElements (asSize node) layer).adjacency.nbrs v K =
      s.adjacency.nbrs v K := nbrs_ensureLayerSlot _ _ _ _ _ _
  rw [ensureCapacityFor_eq]
  split
  · exact hslot
  · rename_i hfull
    split
    · rename_i hswap
      rcases h with hroom | hrefused
      · exact absurd (Or.inr hroom) hfull
      · exact absurd (Or.inr hswap) hrefused
    · exact hslot

/-- **`commit_half_edge`** and the list it leaves. -/
theorem commitHalfEdge_self (hnode : asSize node < ix.numElements) (hint : IsInt64 node)
    (hlabels : ∀ x ∈ s.adjacency.nbrs (asSize node) layer, IsInt64 x) (hmax : 0 < maxM)
    (hnot : cand ∉ s.adjacency.nbrs (asSize node) layer) {nbrs : List ℤ}
    (hnbrs : s.adjacency.nbrs (asSize node) layer = nbrs) :
    (ix.commitHalfEdge D node cand layer maxM s).2.adjacency.nbrs (asSize node) layer =
      if Accepts D ix maxM node cand nbrs ∧ HasRoom maxM (afterCheck D ix maxM node cand nbrs) then
        afterCheck D ix maxM node cand nbrs ++ [cand]
      else afterCheck D ix maxM node cand nbrs := by
  have hslot : (s.slot ix.numElements (asSize node) layer).adjacency.nbrs (asSize node) layer =
      s.adjacency.nbrs (asSize node) layer := nbrs_ensureLayerSlot _ _ _ _ _ _
  have hlen : layer < ((ix.ensureCapacityFor D node cand layer maxM
      (s.slot ix.numElements (asSize node) layer)).2.adjacency.layersOf (asSize node)).length :=
    lt_length_ensureCapacityFor hnode _
  have hlabels' : ∀ x ∈ (s.slot ix.numElements (asSize node) layer).adjacency.nbrs
      (asSize node) layer, IsInt64 x := by rwa [hslot]
  have hnot' : cand ∉ (s.slot ix.numElements (asSize node) layer).adjacency.nbrs
      (asSize node) layer := by rwa [hslot]
  obtain ⟨hanswer, hleft⟩ := ensureCapacityFor_self (D := D) hnode hint hlabels' hmax hnot'
  rw [hslot, hnbrs] at hanswer hleft
  have hstill : cand ∉ afterCheck D ix maxM node cand nbrs := by
    rw [hnbrs] at hnot
    exact fun h => hnot (afterCheck_sublist.subset h)
  simp only [commitHalfEdge, hslot, if_neg hnot, hleft]
  by_cases haccepts : Accepts D ix maxM node cand nbrs
  · rw [if_neg (by simp [hanswer.mpr haccepts]), if_neg hstill]
    by_cases hroom : HasRoom maxM (afterCheck D ix maxM node cand nbrs)
    · rw [if_neg (not_le.mpr hroom), if_pos ⟨haccepts, hroom⟩]
      exact Layered.nbrs_put_same _ (Layered.lt_length_of_lt hlen) hlen
    · rw [if_pos (not_lt.mp hroom), if_neg fun h => hroom h.2]
      exact hleft
  · have hfalse : (ix.ensureCapacityFor D node cand layer maxM
        (s.slot ix.numElements (asSize node) layer)).1 = false :=
      Bool.eq_false_iff.mpr fun h => haccepts (hanswer.mp h)
    rw [if_pos (by simp [hfalse]), if_neg fun h => haccepts h.1]
    exact hleft

theorem commitHalfEdge_other {v : ℕ} (hv : v ≠ asSize node)
    (hnot : ∀ x ∈ s.adjacency.nbrs (asSize node) layer, asSize x ≠ v) (hmax : 0 < maxM) (K : ℕ) :
    (ix.commitHalfEdge D node cand layer maxM s).2.adjacency.nbrs v K = s.adjacency.nbrs v K := by
  have hslot : ∀ v K, (s.slot ix.numElements (asSize node) layer).adjacency.nbrs v K =
      s.adjacency.nbrs v K := nbrs_ensureLayerSlot _ _ _ _
  have hcheck : (ix.ensureCapacityFor D node cand layer maxM
      (s.slot ix.numElements (asSize node) layer)).2.adjacency.nbrs v K = s.adjacency.nbrs v K := by
    rw [ensureCapacityFor_other hv (by rwa [hslot]) hmax, hslot]
  simp only [commitHalfEdge]
  split
  · exact hslot v K
  · split
    · exact hcheck
    · split
      · exact hcheck
      · split
        · exact hcheck
        · exact (Layered.nbrs_put_ne _ (Or.inl hv)).trans hcheck

end Helpers

/-! ## The whole insertion -/

/-- Two nodes to be connected. -/
structure Endpoints (ix : Index) (u w : ℤ) : Prop where
  ne : u ≠ w
  left64 : IsInt64 u
  right64 : IsInt64 w
  left_lt : asSize u < ix.numElements
  right_lt : asSize w < ix.numElements

/-- The lists of the two endpoints; neither names the other one. -/
structure Apart (layer : ℕ) (u w : ℤ) (lu lw : List ℤ) (s : HealWork) : Prop where
  left : s.adjacency.nbrs (asSize u) layer = lu
  right : s.adjacency.nbrs (asSize w) layer = lw
  left_lacks : ∀ x ∈ lu, IsInt64 x ∧ x ≠ w
  right_lacks : ∀ x ∈ lw, IsInt64 x ∧ x ≠ u

/-- **All or nothing**: the lists are as before or hold each other's node, and a node has lost a
neighbour only for the new one. -/
structure AllOrNothing (layer : ℕ) (u w : ℤ) (s t : HealWork) : Prop where
  whole : (∀ v K, t.adjacency.nbrs v K = s.adjacency.nbrs v K) ∨
    w ∈ t.adjacency.nbrs (asSize u) layer ∧ u ∈ t.adjacency.nbrs (asSize w) layer
  paidLeft : ∀ x, (t.adjacency.nbrs (asSize u) layer).count x <
    (s.adjacency.nbrs (asSize u) layer).count x → w ∈ t.adjacency.nbrs (asSize u) layer
  paidRight : ∀ x, (t.adjacency.nbrs (asSize w) layer).count x <
    (s.adjacency.nbrs (asSize w) layer).count x → u ∈ t.adjacency.nbrs (asSize w) layer

/-- **The insertions without a loss**: an endpoint is no node, `u` refuses, `u` has room and `w`
refuses, or the half edge gets in on both sides. -/
def Clean (D : Type) [FloatArith D] (ix : Index) (maxM u w : ℤ) (lu lw : List ℤ) : Prop :=
  (ix.numElements ≤ asSize u ∨ ix.numElements ≤ asSize w) ∨
    ¬ Accepts D ix maxM u w lu ∨
    (HasRoom maxM lu ∧ ¬ Accepts D ix maxM w u lw) ∨
    (Fits D ix maxM u w lu ∧ Fits D ix maxM w u lw)

instance (D : Type) [FloatArith D] (ix : Index) (maxM u w : ℤ) (lu lw : List ℤ) :
    Decidable (Clean D ix maxM u w lu lw) :=
  inferInstanceAs (Decidable (_ ∨ _ ∨ _ ∨ _))

section Insertion

variable {D : Type} [FloatArith D] {ix : Index} {maxM : ℤ} {layer : ℕ} {u w : ℤ}
  {lu lw : List ℤ} {s : HealWork}

theorem Endpoints.symm (h : ix.Endpoints u w) : ix.Endpoints w u :=
  ⟨h.ne.symm, h.right64, h.left64, h.right_lt, h.left_lt⟩

theorem Endpoints.apart (h : ix.Endpoints u w) : asSize w ≠ asSize u :=
  fun heq => h.ne (asSize_inj h.left64 h.right64 heq.symm)

theorem Apart.symm (h : Apart layer u w lu lw s) : Apart layer w u lw lu s :=
  ⟨h.right, h.left, h.right_lacks, h.left_lacks⟩

theorem Apart.not_mem (h : Apart layer u w lu lw s) : w ∉ lu :=
  fun hmem => (h.left_lacks w hmem).2 rfl

/-- The evictions of `u` do not reach the list of `w`. -/
theorem Apart.asSize_ne (h : Apart layer u w lu lw s) (hend : ix.Endpoints u w) :
    ∀ x ∈ s.adjacency.nbrs (asSize u) layer, asSize x ≠ asSize w := by
  intro x hx heq
  rw [h.left] at hx
  exact (h.left_lacks x hx).2 (asSize_inj (h.left_lacks x hx).1 hend.right64 heq)

/-- **The capacity check of `u`**: its answer, its own list, and the list of `w` as it was. -/
theorem Apart.check (h : Apart layer u w lu lw s) (hend : ix.Endpoints u w) (hmax : 0 < maxM) :
    ((ix.ensureCapacityFor D u w layer maxM s).1 = true ↔ Accepts D ix maxM u w lu) ∧
      Apart layer u w (afterCheck D ix maxM u w lu) lw
        (ix.ensureCapacityFor D u w layer maxM s).2 := by
  have hlabels : ∀ x ∈ s.adjacency.nbrs (asSize u) layer, IsInt64 x := by
    rw [h.left]
    exact fun x hx => (h.left_lacks x hx).1
  have hnot : w ∉ s.adjacency.nbrs (asSize u) layer := by
    rw [h.left]
    exact h.not_mem
  obtain ⟨hanswer, hself⟩ := ensureCapacityFor_self (D := D) hend.left_lt hend.left64 hlabels hmax
    hnot
  rw [h.left] at hanswer hself
  refine ⟨hanswer, hself, ?_, fun x hx => h.left_lacks x (afterCheck_sublist.subset hx),
    h.right_lacks⟩
  rw [ensureCapacityFor_other hend.apart (h.asSize_ne hend) hmax, h.right]

/-- The two checks of `capacityForBoth`, when both pass. -/
theorem Apart.checkBoth (h : Apart layer u w lu lw s) (hend : ix.Endpoints u w) (hmax : 0 < maxM)
    (hu : Accepts D ix maxM u w lu) (hw : Accepts D ix maxM w u lw) :
    (ix.capacityForBoth D u w layer maxM s).1 = true ∧
      Apart layer u w (afterCheck D ix maxM u w lu) (afterCheck D ix maxM w u lw)
        (ix.capacityForBoth D u w layer maxM s).2 := by
  obtain ⟨hanswer, hfirst⟩ := h.check (D := D) hend hmax
  obtain ⟨hanswer', hsecond⟩ := hfirst.symm.check (D := D) hend.symm hmax
  rw [Index.capacityForBoth, if_neg (by simp [hanswer.mpr hu])]
  exact ⟨hanswer'.mpr hw, hsecond.symm⟩

/-- **Both half edges are committed**, each to its own list. -/
theorem Apart.commitBoth (h : Apart layer u w lu lw s) (hend : ix.Endpoints u w) (hmax : 0 < maxM) :
    let t := (ix.commitHalfEdge D w u layer maxM (ix.commitHalfEdge D u w layer maxM s).2).2
    (t.adjacency.nbrs (asSize u) layer =
        if Accepts D ix maxM u w lu ∧ HasRoom maxM (afterCheck D ix maxM u w lu) then
          afterCheck D ix maxM u w lu ++ [w]
        else afterCheck D ix maxM u w lu) ∧
      t.adjacency.nbrs (asSize w) layer =
        if Accepts D ix maxM w u lw ∧ HasRoom maxM (afterCheck D ix maxM w u lw) then
          afterCheck D ix maxM w u lw ++ [u]
        else afterCheck D ix maxM w u lw := by
  have hu := commitHalfEdge_self (D := D) (s := s) hend.left_lt hend.left64
    (by rw [h.left]; exact fun x hx => (h.left_lacks x hx).1) hmax
    (by rw [h.left]; exact h.not_mem) h.left
  have hright : (ix.commitHalfEdge D u w layer maxM s).2.adjacency.nbrs (asSize w) layer = lw := by
    rw [commitHalfEdge_other hend.apart (h.asSize_ne hend) hmax, h.right]
  have hw := commitHalfEdge_self (D := D) (s := (ix.commitHalfEdge D u w layer maxM s).2)
    hend.right_lt hend.right64 (by rw [hright]; exact fun x hx => (h.right_lacks x hx).1) hmax
    (by rw [hright]; exact h.symm.not_mem) hright
  refine ⟨?_, hw⟩
  rw [commitHalfEdge_other hend.symm.apart _ hmax, hu]
  intro x hx heq
  rw [hright] at hx
  exact (h.right_lacks x hx).2 (asSize_inj (h.right_lacks x hx).1 hend.left64 heq)

/-- The slots of the two endpoints change no list. -/
theorem nbrs_slots (N v K : ℕ) (s : HealWork) :
    ((s.slot N (asSize u) layer).slot N (asSize w) layer).adjacency.nbrs v K =
      s.adjacency.nbrs v K := by
  simp only [HealWork.slot, nbrs_ensureLayerSlot]

/-- `try_insert_healed_edge` on nodes that do not list each other. -/
theorem Apart.tryInsert_eq (h : Apart layer u w lu lw s) (hend : ix.Endpoints u w) :
    ix.tryInsertHealedEdge D u w layer maxM s =
      let t := (s.slot ix.numElements (asSize u) layer).slot ix.numElements (asSize w) layer
      let r := ix.capacityForBoth D u w layer maxM t
      if !r.1 then r.2
      else (ix.commitHalfEdge D w u layer maxM (ix.commitHalfEdge D u w layer maxM r.2).2).2 := by
  have hleft := h.not_mem
  have hright := h.symm.not_mem
  rw [← h.left] at hleft
  rw [← h.right] at hright
  have hin : ¬ (ix.numElements ≤ asSize u ∨ ix.numElements ≤ asSize w) := by
    have := hend.left_lt
    have := hend.right_lt
    omega
  simp only [tryInsertHealedEdge, nbrs_slots, if_neg hend.ne, if_neg hin, hleft, hright,
    not_false_eq_true, and_self, if_true, if_false]

theorem Apart.slots (h : Apart layer u w lu lw s) (N : ℕ) :
    Apart layer u w lu lw ((s.slot N (asSize u) layer).slot N (asSize w) layer) :=
  ⟨by rw [nbrs_slots, h.left], by rw [nbrs_slots, h.right], h.left_lacks, h.right_lacks⟩

/-- **A refused insertion**: `u` has been checked, and no half edge is written. -/
theorem Apart.tryInsert_refused (h : Apart layer u w lu lw s) (hend : ix.Endpoints u w)
    (hmax : 0 < maxM) (hrefused : ¬ (Accepts D ix maxM u w lu ∧ Accepts D ix maxM w u lw)) :
    let t := ix.tryInsertHealedEdge D u w layer maxM s
    t.adjacency.nbrs (asSize u) layer = afterCheck D ix maxM u w lu ∧
      (¬ Accepts D ix maxM u w lu ∨ HasRoom maxM lu →
        ∀ v K, t.adjacency.nbrs v K = s.adjacency.nbrs v K) := by
  have hslots := h.slots ix.numElements
  obtain ⟨hanswer, hfirst⟩ := hslots.check (D := D) hend hmax
  have hsame : ¬ Accepts D ix maxM u w lu ∨ HasRoom maxM lu → ∀ v K,
      (ix.ensureCapacityFor D u w layer maxM ((s.slot ix.numElements (asSize u) layer).slot
        ix.numElements (asSize w) layer)).2.adjacency.nbrs v K = s.adjacency.nbrs v K := by
    intro hlu v K
    rw [ensureCapacityFor_same (by rw [hslots.left]; exact hlu.symm), nbrs_slots]
  rw [h.tryInsert_eq hend]
  generalize (s.slot ix.numElements (asSize u) layer).slot ix.numElements (asSize w) layer = t
    at hslots hanswer hfirst hsame ⊢
  simp only [Index.capacityForBoth]
  by_cases hu : Accepts D ix maxM u w lu
  · have hw : ¬ Accepts D ix maxM w u lw := fun hw => hrefused ⟨hu, hw⟩
    obtain ⟨hanswer', hsecond⟩ := hfirst.symm.check (D := D) hend.symm hmax
    have hfalse : (ix.ensureCapacityFor D w u layer maxM
        (ix.ensureCapacityFor D u w layer maxM t).2).1 = false :=
      Bool.eq_false_iff.mpr fun h => hw (hanswer'.mp h)
    simp only [hanswer.mpr hu, hfalse, Bool.not_true, Bool.not_false, if_true, Bool.false_eq_true,
      if_false]
    refine ⟨hsecond.right, fun hlu v K => ?_⟩
    rw [ensureCapacityFor_same (Or.inr (by rwa [hfirst.right])), hsame hlu]
  · have hfalse : (ix.ensureCapacityFor D u w layer maxM t).1 = false :=
      Bool.eq_false_iff.mpr fun h => hu (hanswer.mp h)
    simp only [hfalse, Bool.not_false, if_true]
    exact ⟨hfirst.left, hsame⟩

/-- **An accepted insertion**: each half edge is there if it fits, and otherwise only the
evictions are. -/
theorem Apart.tryInsert_accepted (h : Apart layer u w lu lw s) (hend : ix.Endpoints u w)
    (hmax : 0 < maxM) (hu : Accepts D ix maxM u w lu) (hw : Accepts D ix maxM w u lw) :
    let t := ix.tryInsertHealedEdge D u w layer maxM s
    let lu' := afterCheck D ix maxM u w (afterCheck D ix maxM u w lu)
    let lw' := afterCheck D ix maxM w u (afterCheck D ix maxM w u lw)
    t.adjacency.nbrs (asSize u) layer = (if Fits D ix maxM u w lu then lu' ++ [w] else lu') ∧
      t.adjacency.nbrs (asSize w) layer = (if Fits D ix maxM w u lw then lw' ++ [u] else lw') := by
  obtain ⟨hpass, hboth⟩ := (h.slots ix.numElements).checkBoth hend hmax hu hw
  obtain ⟨hleft, hright⟩ := hboth.commitBoth (D := D) hend hmax
  rw [h.tryInsert_eq hend]
  dsimp only
  rw [if_neg (by simp [hpass])]
  refine ⟨hleft.trans ?_, hright.trans ?_⟩
  · simp only [Fits, hu, true_and]
  · simp only [Fits, hw, true_and]

/-- A list that accepts but does not fit has lost a neighbour in the end. -/
theorem length_lt_of_not_fits (hmax : 0 < maxM) (haccepts : Accepts D ix maxM u w lu)
    (hfits : ¬ Fits D ix maxM u w lu) :
    (afterCheck D ix maxM u w (afterCheck D ix maxM u w lu)).length < lu.length :=
  afterCheck_sublist.length_le.trans_lt
    (length_afterCheck_lt hmax (fun hroom => hfits (fits_of_hasRoom hroom)) haccepts)

/-- Nothing changed, or both halves are there: then every loss is paid for. -/
theorem allOrNothing_of_whole {t : HealWork}
    (h : (∀ v K, t.adjacency.nbrs v K = s.adjacency.nbrs v K) ∨
      w ∈ t.adjacency.nbrs (asSize u) layer ∧ u ∈ t.adjacency.nbrs (asSize w) layer) :
    AllOrNothing layer u w s t := by
  refine ⟨h, fun x hx => ?_, fun x hx => ?_⟩
  · rcases h with hsame | hboth
    · rw [hsame] at hx
      exact absurd hx (lt_irrefl _)
    · exact hboth.1
  · rcases h with hsame | hboth
    · rw [hsame] at hx
      exact absurd hx (lt_irrefl _)
    · exact hboth.2

theorem not_whole {t : HealWork} (hchanged : ∃ v K, t.adjacency.nbrs v K ≠ s.adjacency.nbrs v K)
    (hmiss : w ∉ t.adjacency.nbrs (asSize u) layer ∨ u ∉ t.adjacency.nbrs (asSize w) layer) :
    ¬ AllOrNothing layer u w s t := by
  intro hall
  obtain ⟨v, K, hne⟩ := hchanged
  rcases hall.whole with hsame | ⟨hu, hw⟩
  · exact hne (hsame v K)
  · exact hmiss.elim (fun h => h hu) fun h => h hw

/-- **When an insertion is all or nothing**, for two different `int64` labels whose lists do not
name each other, on any graph of `int64` labels. -/
theorem tryInsertHealedEdge_allOrNothing_iff (hne : u ≠ w) (hu : IsInt64 u) (hw : IsInt64 w)
    (hlabels : ∀ v K, ∀ x ∈ s.adjacency.nbrs v K, IsInt64 x) (hmax : 0 < maxM)
    (hleft : w ∉ s.adjacency.nbrs (asSize u) layer)
    (hright : u ∉ s.adjacency.nbrs (asSize w) layer) :
    AllOrNothing layer u w s (ix.tryInsertHealedEdge D u w layer maxM s) ↔
      Clean D ix maxM u w (s.adjacency.nbrs (asSize u) layer)
        (s.adjacency.nbrs (asSize w) layer) := by
  by_cases hin : ix.numElements ≤ asSize u ∨ ix.numElements ≤ asSize w
  · refine iff_of_true (allOrNothing_of_whole (Or.inl fun v K => ?_)) (Or.inl hin)
    rw [tryInsertHealedEdge, if_neg hne, if_pos hin]
  · have hend : ix.Endpoints u w := ⟨hne, hu, hw, by omega, by omega⟩
    have h : Apart layer u w _ _ s := ⟨rfl, rfl,
      fun x hx => ⟨hlabels _ _ x hx, by rintro rfl; exact hleft hx⟩,
      fun x hx => ⟨hlabels _ _ x hx, by rintro rfl; exact hright hx⟩⟩
    generalize s.adjacency.nbrs (asSize u) layer = lu at h hleft ⊢
    generalize s.adjacency.nbrs (asSize w) layer = lw at h hright ⊢
    by_cases hboth : Accepts D ix maxM u w lu ∧ Accepts D ix maxM w u lw
    · obtain ⟨hul, hwl⟩ := h.tryInsert_accepted (D := D) hend hmax hboth.1 hboth.2
      by_cases hfits : Fits D ix maxM u w lu ∧ Fits D ix maxM w u lw
      · refine iff_of_true (allOrNothing_of_whole (Or.inr ⟨?_, ?_⟩))
          (Or.inr (Or.inr (Or.inr hfits)))
        · rw [hul, if_pos hfits.1]
          exact List.mem_append_right _ (List.mem_singleton_self w)
        · rw [hwl, if_pos hfits.2]
          exact List.mem_append_right _ (List.mem_singleton_self u)
      · refine iff_of_false (fun hall => ?_) ?_
        · -- one half is missing, and its list is shorter than before
          rcases not_and_or.mp hfits with hno | hno
          · rw [if_neg hno] at hul
            refine not_whole ?_ (Or.inl ?_) hall
            · exact ⟨asSize u, layer, by
                rw [hul, h.left]
                exact ne_of_apply_ne _ (length_lt_of_not_fits hmax hboth.1 hno).ne⟩
            · rw [hul]
              exact fun hmem => hleft (afterCheck_sublist.subset (afterCheck_sublist.subset hmem))
          · rw [if_neg hno] at hwl
            refine not_whole ?_ (Or.inr ?_) hall
            · exact ⟨asSize w, layer, by
                rw [hwl, h.right]
                exact ne_of_apply_ne _ (length_lt_of_not_fits hmax hboth.2 hno).ne⟩
            · rw [hwl]
              exact fun hmem => hright (afterCheck_sublist.subset (afterCheck_sublist.subset hmem))
        · rintro (hout | hu' | ⟨-, hw'⟩ | hfit)
          · exact hin hout
          · exact hu' hboth.1
          · exact hw' hboth.2
          · exact hfits hfit
    · obtain ⟨hul, hsame⟩ := h.tryInsert_refused (D := D) hend hmax hboth
      by_cases hclean : ¬ Accepts D ix maxM u w lu ∨ HasRoom maxM lu
      · refine iff_of_true (allOrNothing_of_whole (Or.inl (hsame hclean))) (Or.inr ?_)
        rcases hclean with hu' | hroom
        · exact Or.inl hu'
        · exact Or.inr (Or.inl ⟨hroom, fun hw' => hboth ⟨Or.inl hroom, hw'⟩⟩)
      · -- `u` has given up its furthest neighbour, and `w` refuses
        obtain ⟨hu', hfull⟩ := not_or.mp hclean
        have hlt : (afterCheck D ix maxM u w lu).length < lu.length :=
          length_afterCheck_lt hmax hfull (not_not.mp hu')
        refine iff_of_false (fun hall => ?_) ?_
        · refine not_whole ?_ (Or.inl ?_) hall
          · exact ⟨asSize u, layer, by
              rw [hul, h.left]
              exact ne_of_apply_ne _ hlt.ne⟩
          · rw [hul]
            exact fun hmem => hleft (afterCheck_sublist.subset hmem)
        · rintro (hout | hu'' | ⟨hroom, -⟩ | ⟨-, hfit⟩)
          · exact hin hout
          · exact hu' hu''
          · exact hfull hroom
          · exact hboth ⟨not_not.mp hu', hfit.1⟩

end Insertion

/-- Node `4` lists `0` and `1`. Node `0` lists only the distant `3`, node `1` the near `2`. -/
def refusingEnd : Index where
  data := some ⟨[0, 1065353216, 1069547520, 1092616192, 1056964608], by simp⟩
  ownsData := true
  dim := 1
  numElements := 5
  entrypoint := 0
  adjacency := [[[3]], [[2]], [[]], [[]], [[0, 1]]]

theorem wellFormed_refusingEnd : refusingEnd.WellFormed :=
  ⟨rfl, rfl, labelsIn_iff.mpr (by decide), Or.inr (by decide)⟩

theorem isInt64_refusingEnd : ∀ v K, ∀ x ∈ refusingEnd.adjacency.nbrs v K, IsInt64 x := by
  intro v K x hx
  obtain ⟨hlow, hhigh⟩ := wellFormed_refusingEnd.labels v K x hx
  have hsize : refusingEnd.numElements = 5 := rfl
  exact ⟨by omega, by omega⟩

/-- With lists of two labels the edge from `0` to `1` gets in on both sides, with lists of one
label `0` is left without `3` and without `1`. -/
theorem allOrNothing_iff_refusingEnd :
    AllOrNothing 0 0 1 ⟨refusingEnd.adjacency, 0, 0⟩
        (refusingEnd.tryInsertHealedEdge ℚ 0 1 0 2 ⟨refusingEnd.adjacency, 0, 0⟩) ∧
      ¬ AllOrNothing 0 0 1 ⟨refusingEnd.adjacency, 0, 0⟩
        (refusingEnd.tryInsertHealedEdge ℚ 0 1 0 1 ⟨refusingEnd.adjacency, 0, 0⟩) := by
  have h64 : IsInt64 0 ∧ IsInt64 1 := ⟨⟨by decide, by decide⟩, ⟨by decide, by decide⟩⟩
  constructor
  · exact (tryInsertHealedEdge_allOrNothing_iff (by decide) h64.1 h64.2 isInt64_refusingEnd
      (by decide) (by decide) (by decide)).mpr (by decide +kernel)
  · exact mt (tryInsertHealedEdge_allOrNothing_iff (by decide) h64.1 h64.2 isInt64_refusingEnd
      (by decide) (by decide) (by decide)).mp (by decide +kernel)

/-- **A neighbour lost for nothing**, on a well-formed index and labels of its nodes. -/
theorem tryInsertHealedEdge_loses_neighbour :
    ¬ ∀ ix : Index, ix.WellFormed → ∀ (u w : ℤ) (layer : ℕ) (maxM : ℤ), 0 < maxM → u ≠ w →
      ix.inRange u = true → ix.inRange w = true → w ∉ ix.adjacency.nbrs (asSize u) layer →
      u ∉ ix.adjacency.nbrs (asSize w) layer →
      AllOrNothing layer u w ⟨ix.adjacency, 0, 0⟩
        (ix.tryInsertHealedEdge ℚ u w layer maxM ⟨ix.adjacency, 0, 0⟩) := by
  intro hall
  have h := hall refusingEnd wellFormed_refusingEnd 0 1 0 1 (by decide) (by decide) (by decide)
    (by decide) (by decide) (by decide)
  have hlost : (refusingEnd.tryInsertHealedEdge ℚ 0 1 0 1
      ⟨refusingEnd.adjacency, 0, 0⟩).adjacency = [[[]], [[2]], [[]], [[]], [[0, 1]]] := by
    decide +kernel
  have hnew := h.paidLeft 3 (by rw [hlost]; decide)
  rw [hlost] at hnew
  cases hnew

end Index

end Unlearning
