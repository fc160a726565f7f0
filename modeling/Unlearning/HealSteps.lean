import Mathlib.Data.List.Nodup
import Unlearning.Erase

/-!
# The helpers of the heal, one outcome each (`src/hnsw_helper.hpp`)

What `ensure_capacity_for`, `commit_half_edge` and the isolation can do to the lists,
said once: the modules on degree caps, reachability and memory safety start from here
and unfold none of them.
-/

namespace Unlearning

namespace Index

section Helpers

variable {D : Type} [FloatArith D] {ix : Index}

/-- The index of the furthest neighbour is an index of the list. -/
theorem furthest_lt (ix : Index) (node : ℤ) {nbrs : List ℤ} (h : nbrs ≠ []) :
    (ix.furthest D node nbrs).1 < nbrs.length := by
  refine List.foldlRecOn (motive := fun far : ℕ × D => far.1 < nbrs.length) nbrs.zipIdx _
    (List.length_pos_of_ne_nil h) ?_
  intro far hfar p hp
  dsimp only
  split
  · simpa using List.snd_lt_of_mem_zipIdx hp
  · exact hfar

/-- Its distance is the one of that neighbour, or still the `-1` the loop starts with. -/
theorem furthest_dist (ix : Index) (node : ℤ) (nbrs : List ℤ) :
    (ix.furthest D node nbrs).2 = FloatArith.negOne ∨
      ∃ far, nbrs[(ix.furthest D node nbrs).1]? = some far ∧
        (ix.furthest D node nbrs).2 = ix.distance D node far := by
  refine List.foldlRecOn (motive := fun far : ℕ × D => far.2 = FloatArith.negOne ∨
    ∃ x, nbrs[far.1]? = some x ∧ far.2 = ix.distance D node x) nbrs.zipIdx _ (Or.inl rfl) ?_
  intro far hfar p hp
  dsimp only
  split
  · exact Or.inr ⟨p.1, List.mem_zipIdx_iff_getElem?.mp hp, rfl⟩
  · exact hfar

/-- **The outcomes of `ensure_capacity_for`**: the slot is made and the answer says
whether the label fits, or the furthest neighbour of a full list is evicted. -/
theorem ensureCapacityFor_cases (ix : Index) (node cand : ℤ) (layer : ℕ) (maxM : ℤ)
    (s : HealWork) :
    (∃ fits, ix.ensureCapacityFor D node cand layer maxM s =
        (fits, s.slot ix.numElements (asSize node) layer) ∧
      (fits = true → cand ∈ s.adjacency.nbrs (asSize node) layer ∨
        asInt (s.adjacency.nbrs (asSize node) layer).length < maxM)) ∨
    (cand ∉ s.adjacency.nbrs (asSize node) layer ∧
      ¬ asInt (s.adjacency.nbrs (asSize node) layer).length < maxM ∧
      FloatArith.lt (ix.distance D node cand)
        (ix.furthest D node (s.adjacency.nbrs (asSize node) layer)).2 = true ∧
      ix.ensureCapacityFor D node cand layer maxM s =
        (true, (s.slot ix.numElements (asSize node) layer).evict ix.numElements node layer
          (ix.furthest D node (s.adjacency.nbrs (asSize node) layer)).1)) := by
  have hnbrs : (s.slot ix.numElements (asSize node) layer).adjacency.nbrs (asSize node) layer =
      s.adjacency.nbrs (asSize node) layer := nbrs_ensureLayerSlot _ _ _ _ _ _
  simp only [ensureCapacityFor, hnbrs]
  split
  · rename_i hmem
    exact Or.inl ⟨true, rfl, fun _ => Or.inl hmem⟩
  · rename_i hnot
    split
    · rename_i hroom
      exact Or.inl ⟨true, rfl, fun _ => Or.inr hroom⟩
    · rename_i hfull
      split
      · exact Or.inl ⟨false, rfl, by simp⟩
      · rename_i hcloser
        split
        · exact Or.inl ⟨false, rfl, by simp⟩
        · exact Or.inr ⟨hnot, hfull, by simpa using hcloser, rfl⟩

/-- With room, the capacity check only makes the slot. -/
theorem ensureCapacityFor_room {node cand : ℤ} {layer : ℕ} {maxM : ℤ} {s : HealWork}
    (hroom : asInt (s.adjacency.nbrs (asSize node) layer).length < maxM) :
    ix.ensureCapacityFor D node cand layer maxM s =
      (true, s.slot ix.numElements (asSize node) layer) := by
  simp only [ensureCapacityFor, HealWork.slot, nbrs_ensureLayerSlot, hroom, if_true, ite_self]

/-- With room, `commit_half_edge` appends the label. -/
theorem nbrs_commitHalfEdge_room {node : ℕ} {cand : ℤ} {layer : ℕ} {maxM : ℤ} {s : HealWork}
    (hn : node < ix.numElements) (hnot : cand ∉ s.adjacency.nbrs node layer)
    (hroom : asInt (s.adjacency.nbrs node layer).length < maxM) (w K : ℕ) :
    (ix.commitHalfEdge D node cand layer maxM s).2.adjacency.nbrs w K =
      if w = node ∧ K = layer then s.adjacency.nbrs node layer ++ [cand]
      else s.adjacency.nbrs w K := by
  have hslot : ∀ w K, (s.slot ix.numElements node layer).adjacency.nbrs w K =
      s.adjacency.nbrs w K := nbrs_ensureLayerSlot _ _ _ _
  have hslot' : ∀ w K, ((s.slot ix.numElements node layer).slot ix.numElements node
      layer).adjacency.nbrs w K = s.adjacency.nbrs w K := by
    intro w K
    rw [← hslot w K]
    exact nbrs_ensureLayerSlot _ _ _ _ _ _
  have hcap : ix.ensureCapacityFor D node cand layer maxM (s.slot ix.numElements node layer) =
      (true, (s.slot ix.numElements node layer).slot ix.numElements node layer) := by
    rw [ensureCapacityFor_room (by rwa [asSize_natCast, hslot]), asSize_natCast]
  simp only [commitHalfEdge, asSize_natCast, hslot, if_neg hnot, hcap, hslot']
  rw [if_neg (by simp), if_neg (by omega)]
  refine (Layered.nbrs_put_slot ?_ _ w K).trans ?_
  · rw [Layered.length_resize]
    omega
  · rw [Layered.nbrs_resize, hslot w K]

/-- In a list without duplicates, erasing a position is dropping its label. -/
theorem eraseIdx_eq_filter {l : List ℤ} (h : l.Nodup) {i : ℕ} {x : ℤ} (hi : l[i]? = some x) :
    l.eraseIdx i = l.filter (· ≠ x) := by
  obtain ⟨hlt, rfl⟩ := List.getElem?_eq_some_iff.mp hi
  rw [← h.erase_getElem i hlt, h.erase_eq_filter]
  congr 1
  funext a
  simp [bne, Bool.beq_eq_decide_eq]

/-- **An eviction**: a position goes from the list of the node, and then the node from the list of
the label that stood there, if that is a node. -/
theorem nbrs_evict_eq (N : ℕ) (node : ℤ) (layer i : ℕ) (s : HealWork) (v K : ℕ) :
    (s.evict N node layer i).adjacency.nbrs v K =
      let far := asSize ((s.adjacency.nbrs (asSize node) layer)[i]?.getD 0)
      let kept := if v = asSize node ∧ K = layer then
        (s.adjacency.nbrs (asSize node) layer).eraseIdx i else s.adjacency.nbrs v K
      if far < N ∧ v = far ∧ K = layer then kept.filter (· ≠ node) else kept := by
  have hput : ∀ v K, (s.adjacency.put (asSize node) layer
      ((s.adjacency.nbrs (asSize node) layer).eraseIdx i)).nbrs v K =
        if v = asSize node ∧ K = layer then (s.adjacency.nbrs (asSize node) layer).eraseIdx i
        else s.adjacency.nbrs v K :=
    Layered.nbrs_put_map (f := fun l => l.eraseIdx i) rfl s.adjacency (asSize node) layer
  simp only [HealWork.evict]
  by_cases hfar : asSize ((s.adjacency.nbrs (asSize node) layer)[i]?.getD 0) < N
  · rw [if_pos hfar, nbrs_dropLabel]
    simp only [HealWork.slot, nbrs_ensureLayerSlot, hput, hfar, true_and]
    split
    · rename_i hplace
      simp only [hplace.1, hplace.2, and_true]
    · rfl
  · rw [if_neg hfar, if_neg fun h => hfar h.1, hput]

/-- On lists without duplicates the edge goes, both halves of it. -/
theorem nbrs_evict {N u x layer i : ℕ} {s : HealWork} (hnd : (s.adjacency.nbrs u layer).Nodup)
    (hi : (s.adjacency.nbrs u layer)[i]? = some (x : ℤ)) (hx : x < N) (hne : x ≠ u) (v K : ℕ) :
    (s.evict N u layer i).adjacency.nbrs v K =
      if v = u ∧ K = layer then (s.adjacency.nbrs u layer).filter (· ≠ (x : ℤ))
      else if v = x ∧ K = layer then (s.adjacency.nbrs x layer).filter (· ≠ (u : ℤ))
      else s.adjacency.nbrs v K := by
  rw [nbrs_evict_eq]
  simp only [asSize_natCast, hi, Option.getD_some, hx, true_and, eraseIdx_eq_filter hnd hi]
  by_cases hvx : v = x ∧ K = layer
  · obtain ⟨rfl, rfl⟩ := hvx
    simp [hne]
  · simp [hvx]

/-- The label goes from the node's list, and the node from the list of the label. -/
theorem mem_evict {N layer i : ℕ} {node far : ℤ} {s : HealWork}
    (hfar : (s.adjacency.nbrs (asSize node) layer)[i]? = some far) {v K : ℕ} {y : ℤ}
    (hy : y ∈ s.adjacency.nbrs v K) :
    y ∈ (s.evict N node layer i).adjacency.nbrs v K ∨
      K = layer ∧ (v = asSize node ∧ y = far ∨ v = asSize far ∧ y = node) := by
  by_cases hlost : K = layer ∧ (v = asSize node ∧ y = far ∨ v = asSize far ∧ y = node)
  · exact Or.inr hlost
  · refine Or.inl ?_
    have hkept : y ∈ if v = asSize node ∧ K = layer then
        (s.adjacency.nbrs (asSize node) layer).eraseIdx i else s.adjacency.nbrs v K := by
      split
      · rename_i hplace
        obtain ⟨rfl, rfl⟩ := hplace
        obtain ⟨j, hj⟩ := List.mem_iff_getElem?.mp hy
        refine List.mem_eraseIdx_iff_getElem?.mpr ⟨j, ?_, hj⟩
        rintro rfl
        rw [hfar] at hj
        exact hlost ⟨rfl, Or.inl ⟨rfl, (Option.some.inj hj).symm⟩⟩
      · exact hy
    rw [nbrs_evict_eq]
    simp only [hfar, Option.getD_some]
    split
    · rename_i hplace
      refine List.mem_filter.mpr ⟨hkept, ?_⟩
      rw [decide_eq_true_iff]
      exact fun hnode => hlost ⟨hplace.2.2, Or.inr ⟨hplace.2.1, hnode⟩⟩
    · exact hkept

/-- An eviction at a node, seen from the other lists. -/
theorem nbrs_evict_other (N : ℕ) (node : ℤ) (layer i : ℕ) (s : HealWork) {v K : ℕ}
    (h : ¬ (v = asSize node ∧ K = layer)) :
    (s.evict N node layer i).adjacency.nbrs v K = s.adjacency.nbrs v K ∨
      K = layer ∧ (s.evict N node layer i).adjacency.nbrs v K =
        (s.adjacency.nbrs v K).filter (· ≠ node) := by
  simp only [nbrs_evict_eq, if_neg h]
  split
  · rename_i hplace
    exact Or.inr ⟨hplace.2.2, rfl⟩
  · exact Or.inl rfl

/-- Lists only lose labels. -/
theorem sublist_evict (N : ℕ) (node : ℤ) (layer i : ℕ) (s : HealWork) (v K : ℕ) :
    ((s.evict N node layer i).adjacency.nbrs v K).Sublist (s.adjacency.nbrs v K) := by
  have hkept : (if v = asSize node ∧ K = layer then
      (s.adjacency.nbrs (asSize node) layer).eraseIdx i
      else s.adjacency.nbrs v K).Sublist (s.adjacency.nbrs v K) := by
    split
    · rename_i hplace
      rw [hplace.1, hplace.2]
      exact List.eraseIdx_sublist _ _
    · exact .refl _
  simp only [nbrs_evict_eq]
  split
  · exact List.filter_sublist.trans hkept
  · exact hkept

/-! ## Isolation -/

/-- Some lists of layer `L` have lost the label `n`; nothing else changed. -/
def DropsAt (n L : ℕ) (g g' : Layered ℤ) : Prop :=
  ∀ v K, g'.nbrs v K = g.nbrs v K ∨ K = L ∧ g'.nbrs v K = (g.nbrs v K).filter (· ≠ (n : ℤ))

theorem DropsAt.refl (n L : ℕ) (g : Layered ℤ) : DropsAt n L g g := fun _ _ => Or.inl rfl

theorem DropsAt.trans {n L : ℕ} {g g' g'' : Layered ℤ} (h : DropsAt n L g g')
    (h' : DropsAt n L g' g'') : DropsAt n L g g'' := by
  intro v K
  rcases h v K with heq | ⟨hK, heq⟩ <;> rcases h' v K with heq' | ⟨hK', heq'⟩
  · exact Or.inl (heq'.trans heq)
  · exact Or.inr ⟨hK', by rw [heq', heq]⟩
  · exact Or.inr ⟨hK, heq'.trans heq⟩
  · exact Or.inr ⟨hK, by simp [heq', heq, List.filter_filter]⟩

theorem dropsAt_dropLabel (n v L : ℕ) (s : HealWork) :
    DropsAt n L s.adjacency (s.dropLabel n v L).adjacency := by
  intro w K
  rw [nbrs_dropLabel]
  split
  · rename_i hw
    exact Or.inr ⟨hw.2, by rw [hw.1, hw.2]⟩
  · exact Or.inl rfl

theorem dropsAt_unlinkOrphans (ix : Index) (n L : ℕ) (orphans : List ℤ) (s : HealWork) :
    DropsAt n L s.adjacency (ix.unlinkOrphans n L orphans s).adjacency := by
  refine List.foldlRecOn (motive := fun t : HealWork =>
    DropsAt n L s.adjacency t.adjacency) orphans _ (.refl n L _) ?_
  intro t ih u _
  refine ih.trans fun v K => ?_
  rcases dropsAt_dropLabel n (asSize u) L (t.slot ix.numElements (asSize u) L) v K with
    heq | ⟨hK, heq⟩
  · exact Or.inl (heq.trans (nbrs_ensureLayerSlot _ _ _ _ _ _))
  · exact Or.inr ⟨hK, heq.trans (by simp [HealWork.slot])⟩

theorem dropsAt_unlinkRegion (n L : ℕ) (region : List ℤ) (s : HealWork) :
    DropsAt n L s.adjacency (unlinkRegion n region L s).adjacency := by
  refine List.foldlRecOn (motive := fun t : HealWork =>
    DropsAt n L s.adjacency t.adjacency) region _ (.refl n L _) ?_
  intro t ih v _
  split
  · exact ih
  · split
    · exact ih.trans (dropsAt_dropLabel n (asSize v) L t)
    · exact ih

theorem nbrs_clearLayer (n L : ℕ) (s : HealWork) (v K : ℕ) :
    (clearLayer n L s).adjacency.nbrs v K =
      if v = n ∧ K = L then [] else s.adjacency.nbrs v K := by
  rw [clearLayer]
  split
  · exact Layered.nbrs_put_map (f := fun _ => []) rfl s.adjacency n L v K
  · rename_i hL
    split
    · rename_i hv
      rw [hv.1, hv.2, Layered.nbrs, List.getElem?_eq_none (by omega)]
      rfl
    · rfl

/-- **Isolation**: the list of `n` is cleared, other lists of the layer lose at most
the label `n`, and other layers are not touched. -/
theorem nbrs_isolate (ix : Index) (n : ℕ) (region : List ℤ) (L : ℕ) (s : HealWork) :
    (ix.isolate n region L s).adjacency.nbrs n L = [] ∧
      ∀ v K, ¬ (v = n ∧ K = L) →
        (ix.isolate n region L s).adjacency.nbrs v K = s.adjacency.nbrs v K ∨
          K = L ∧ (ix.isolate n region L s).adjacency.nbrs v K =
            (s.adjacency.nbrs v K).filter (· ≠ (n : ℤ)) := by
  have horph := dropsAt_unlinkOrphans ix n L (ix.orphans s.adjacency n L) s
  have hclear := nbrs_clearLayer n L (ix.unlinkOrphans n L (ix.orphans s.adjacency n L) s)
  have hregion := dropsAt_unlinkRegion n L region
    (clearLayer n L (ix.unlinkOrphans n L (ix.orphans s.adjacency n L) s))
  rw [isolate, asSize_natCast]
  refine ⟨?_, fun v K hne => ?_⟩
  · rcases hregion n L with heq | ⟨-, heq⟩
    · rw [heq, hclear, if_pos ⟨rfl, rfl⟩]
    · rw [heq, hclear, if_pos ⟨rfl, rfl⟩]
      rfl
  · have hmid : ∀ l, l = (clearLayer n L (ix.unlinkOrphans n L (ix.orphans s.adjacency n L)
        s)).adjacency.nbrs v K → l = s.adjacency.nbrs v K ∨
          K = L ∧ l = (s.adjacency.nbrs v K).filter (· ≠ (n : ℤ)) := by
      intro l hl
      rw [hl, hclear, if_neg hne]
      exact horph v K
    rcases hregion v K with heq | ⟨hK, heq⟩
    · exact hmid _ heq
    · rcases hmid _ rfl with hsame | ⟨-, hfilter⟩
      · exact Or.inr ⟨hK, by rw [heq, hsame]⟩
      · exact Or.inr ⟨hK, by simp [heq, hfilter, List.filter_filter]⟩

end Helpers

end Index

end Unlearning
