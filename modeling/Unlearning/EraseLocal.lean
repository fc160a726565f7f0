import Unlearning.Calls
import Unlearning.ConcurrentGuards
import Unlearning.Footprint
import Unlearning.HealFrame
import Unlearning.NoTrace

/-!
# Erasures of separate neighbourhoods (`src/hnsw_helper.hpp`, `erase_node`)

All that an `erase_node(q)` reads of the index, beside its sizes, is the rows and the lists of
the nodes of its region, and these are all it writes: so the locks of the region are enough.
`Twin` carries this through the heal: on two indexes that agree on the region the two heals stay
the same there, step by step. With `Footprint` it follows that erasures whose regions have no node
in common can be done in any order (`eraseLog_perm`), and with `ConcurrentGuards` that erasures
that hold their locks at the same time can (`guarded_erasures_perm`).
-/

namespace Unlearning

namespace Index

/-- Two indexes of one size that agree on some nodes. -/
structure Agree (R : Set ℕ) (a b : Index) : Prop where
  numElements : b.numElements = a.numElements
  dim : b.dim = a.dim
  words : a.words.length = a.numElements * a.dim
  words' : b.words.length = b.numElements * b.dim
  length : b.adjacency.length = a.adjacency.length
  lists : ∀ v ∈ R, b.adjacency.layersOf v = a.adjacency.layersOf v
  rows : ∀ v ∈ R, b.row v = a.row v

/-- Two graphs of one size that agree on some nodes. -/
structure AgreeOn (R : Set ℕ) (g g' : Layered ℤ) : Prop where
  length : g'.length = g.length
  lists : ∀ v ∈ R, g'.layersOf v = g.layersOf v

namespace AgreeOn

variable {R : Set ℕ} {g g' : Layered ℤ}

/-- The same lists in the region. -/
theorem nbrs (h : AgreeOn R g g') {v : ℕ} (hv : v ∈ R) (L : ℕ) : g'.nbrs v L = g.nbrs v L := by
  rw [Layered.nbrs, Layered.nbrs, h.lists v hv]

/-- One change to both graphs keeps the agreement. -/
theorem modify (h : AgreeOn R g g') (v : ℕ) (f : List (List ℤ) → List (List ℤ)) :
    AgreeOn R (g.modify v f) (g'.modify v f) where
  length := by rw [List.length_modify, List.length_modify, h.length]
  lists w hw := by
    by_cases hwv : w = v
    · subst hwv
      by_cases hlt : w < g.length
      · rw [Layered.layersOf_modify_same g w hlt,
          Layered.layersOf_modify_same g' w (h.length ▸ hlt), h.lists w hw]
      · have hlen := h.length
        rw [List.modify_eq_self (by omega), List.modify_eq_self (by omega), h.lists w hw]
    · rw [Layered.layersOf_modify_ne g f hwv, Layered.layersOf_modify_ne g' f hwv, h.lists w hw]

/-- So does growth. -/
theorem resize (h : AgreeOn R g g') (n : ℕ) :
    AgreeOn R (Layered.resize n g) (Layered.resize n g') where
  length := by rw [Layered.length_resize, Layered.length_resize, h.length]
  lists w hw := by
    have hsame : ∀ g : Layered ℤ, Layered.layersOf (Layered.resize n g) w = g.layersOf w :=
      fun g => Layered.getD_resize n w g
    rw [hsame, hsame, h.lists w hw]

end AgreeOn

section Twins

variable {D : Type} [FloatArith D] {a b : Index} {R : Set ℕ}

/-- The ids in range are the same. -/
theorem Agree.inRange (h : Agree R a b) : b.inRange = a.inRange := by
  funext x
  rw [Index.inRange, Index.inRange, h.numElements]

/-- `add_unique` tests the same ids. -/
theorem Agree.addUnique (hab : Agree R a b) : b.addUnique = a.addUnique := by
  funext region x
  rw [Index.addUnique, Index.addUnique, hab.inRange]

/-- What a distance reads of a node: the node is one of those agreed on, or is none at all. -/
theorem Agree.getElem?_vectorPtr (h : Agree R a b) {v i : ℕ} (hv : v ∈ R ∨ a.numElements ≤ v)
    (hi : i < a.dim) : (b.vectorPtr v)[i]? = (a.vectorPtr v)[i]? := by
  rcases hv with hv | hv
  · have hrow := congrArg (fun l : List UInt32 => l[i]?) (h.rows v hv)
    rw [Index.row, Index.row, h.dim] at hrow
    simpa [List.getElem?_take, hi] using hrow
  · have hend : ∀ ix : Index, ix.words.length ≤ v * a.dim + i → ix.words[v * a.dim + i]? = none :=
      fun ix hle => List.getElem?_eq_none hle
    have hle := Nat.mul_le_mul_right a.dim hv
    have hlen := h.words'
    rw [h.numElements, h.dim] at hlen
    rw [vectorPtr, vectorPtr, List.getElem?_drop, List.getElem?_drop, h.dim,
      hend a (by rw [h.words]; omega), hend b (by omega)]

/-- Distances between rows of the region are the same. -/
theorem Agree.distance (h : Agree R a b) {x y : ℤ} (hx : asSize x ∈ R ∨ a.numElements ≤ asSize x)
    (hy : asSize y ∈ R ∨ a.numElements ≤ asSize y) : b.distance D x y = a.distance D x y := by
  rw [Index.distance, Index.distance, l2Distance, l2Distance, h.dim]
  refine congrArg _ (List.foldl_ext _ _ _ fun acc i hi => ?_)
  have hlt := List.mem_range.mp hi
  rw [h.getElem?_vectorPtr hx hlt, h.getElem?_vectorPtr hy hlt]

/-- **The invariant of two heals of `n`**, on indexes that agree on its region: the first is
confined to the region, and the second is in step with it there. -/
structure Twin (a : Index) (n : ℕ) (s t : HealWork) : Prop where
  confined : a.Confined n s
  agree : AgreeOn (a.healRegion n) s.adjacency t.adjacency
  removed : t.edgesRemoved = s.edgesRemoved
  added : t.edgesAdded = s.edgesAdded

variable {n : ℕ} {s t : HealWork} {maxM : ℤ}

/-- The labels that a neighbour of `n` lists are of the region, or none at all. -/
theorem Confined.known (h : a.Confined n s) {u : ℤ} (hu : a.Near n u) {L : ℕ} :
    ∀ y ∈ s.adjacency.nbrs (asSize u) L, asSize y ∈ a.healRegion n ∨ a.numElements ≤ asSize y :=
  fun y hy => (Nat.lt_or_ge (asSize y) a.numElements).imp_left (h.near u hu L y hy)

/-- The furthest neighbour of a node of the region is the same. -/
theorem Agree.furthest (hab : Agree R a b) {u : ℤ} (hu : asSize u ∈ R) {nbrs : List ℤ}
    (hl : ∀ y ∈ nbrs, asSize y ∈ R ∨ a.numElements ≤ asSize y) :
    b.furthest D u nbrs = a.furthest D u nbrs := by
  refine List.foldl_ext _ _ _ fun far p hp => ?_
  rw [hab.distance (Or.inl hu) (hl p.1 (List.fst_mem_of_mem_zipIdx hp))]

/-- So is its navigability score. -/
theorem Agree.scoreOf (hab : Agree R a b) {u : ℤ} (hu : asSize u ∈ R) {nbrs : List ℤ}
    (hl : ∀ y ∈ nbrs, asSize y ∈ R ∨ a.numElements ≤ asSize y) :
    Index.scoreOf D b u nbrs = Index.scoreOf D a u nbrs := by
  refine List.foldl_ext _ _ _ fun score y hy => ?_
  rw [hab.inRange, hab.distance (Or.inl hu) (hl y hy)]

namespace Twin

/-- `ensure_layer_slot` keeps the two heals alike. -/
theorem slot (h : Twin a n s t) {v : ℕ} (hv : v ∈ a.healRegion n) (L : ℕ) :
    Twin a n (s.slot a.numElements v L) (t.slot a.numElements v L) :=
  ⟨h.confined.slot hv L, (h.agree.resize _).modify v _, h.removed, h.added⟩

/-- So does the removal of a label. -/
theorem dropLabel (h : Twin a n s t) {v : ℕ} (hv : v ∈ a.healRegion n) (x : ℤ) (L : ℕ) :
    Twin a n (s.dropLabel x v L) (t.dropLabel x v L) := by
  refine ⟨h.confined.dropLabel hv x L, ?_, ?_, h.added⟩
  · rw [HealWork.dropLabel, HealWork.dropLabel, h.agree.nbrs hv]
    exact h.agree.modify v _
  · rw [HealWork.dropLabel, HealWork.dropLabel, h.agree.nbrs hv, h.removed]

/-- So does an eviction. -/
theorem evict (h : Twin a n s t) {node : ℤ} (hnode : a.Near n node) {layer i : ℕ}
    (hi : i < (s.adjacency.nbrs (asSize node) layer).length) :
    Twin a n (s.evict a.numElements node layer i) (t.evict a.numElements node layer i) := by
  have herase : Twin a n ⟨s.adjacency.put (asSize node) layer
      ((s.adjacency.nbrs (asSize node) layer).eraseIdx i), s.edgesRemoved + 1, s.edgesAdded⟩
      ⟨t.adjacency.put (asSize node) layer
      ((s.adjacency.nbrs (asSize node) layer).eraseIdx i), t.edgesRemoved + 1, t.edgesAdded⟩ :=
    ⟨h.confined.put hnode.mem_region fun y hy => Or.inl (List.eraseIdx_subset hy),
      h.agree.modify _ _, by rw [h.removed], h.added⟩
  simp only [HealWork.evict, h.agree.nbrs hnode.mem_region]
  split
  · rename_i hfar
    rw [List.getElem?_eq_getElem hi, Option.getD_some] at hfar ⊢
    have hmem := h.confined.near node hnode layer _ (List.getElem_mem hi) hfar
    exact (herase.slot hmem layer).dropLabel hmem node layer
  · exact herase

/-- **The capacity check** answers the same on both. -/
theorem ensureCapacityFor (hab : Agree (a.healRegion n) a b) (h : Twin a n s t) (hmax : 0 < maxM)
    {node cand : ℤ} (hnode : a.Near n node) (hcand : a.Near n cand) (layer : ℕ) :
    (b.ensureCapacityFor D node cand layer maxM t).1 =
        (a.ensureCapacityFor D node cand layer maxM s).1 ∧
      Twin a n (a.ensureCapacityFor D node cand layer maxM s).2
        (b.ensureCapacityFor D node cand layer maxM t).2 := by
  have hin := hnode.mem_region
  have hnbrs := h.agree.nbrs hin layer
  have hknown := h.confined.known hnode (L := layer)
  have hslot := h.slot hin layer
  have hswaps : Swaps D b node cand (s.adjacency.nbrs (asSize node) layer) ↔
      Swaps D a node cand (s.adjacency.nbrs (asSize node) layer) := by
    rw [Swaps, Swaps, hab.furthest hin hknown, hab.scoreOf hin hknown,
      hab.distance (Or.inl hin) (Or.inl hcand.mem_region)]
  rw [ensureCapacityFor_eq, ensureCapacityFor_eq, hnbrs, hab.numElements]
  split
  · exact ⟨rfl, hslot⟩
  · rename_i hfull
    by_cases hswap : Swaps D a node cand (s.adjacency.nbrs (asSize node) layer)
    · rw [if_pos hswap, if_pos (hswaps.mpr hswap), hab.furthest hin hknown]
      refine ⟨rfl, hslot.evict hnode ?_⟩
      rw [HealWork.slot, nbrs_ensureLayerSlot]
      exact furthest_lt_of_full hmax (fun hroom => hfull (Or.inr hroom)) node
    · rw [if_neg hswap, if_neg (mt hswaps.mp hswap)]
      exact ⟨rfl, hslot⟩

/-- The label that `commit_half_edge` appends. -/
theorem append (h : Twin a n s t) {node cand : ℤ} (hnode : a.Near n node) (hcand : a.Near n cand)
    (layer : ℕ) :
    Twin a n (Index.append (asSize node) cand layer s)
      (Index.append (asSize node) cand layer t) := by
  refine ⟨?_, ?_, h.removed, by rw [Index.append, Index.append, h.added]⟩
  · refine h.confined.put hnode.mem_region fun y hy => ?_
    rcases List.mem_append.mp hy with hold | hnew
    · exact Or.inl hold
    · obtain ⟨v, rfl, -, hne⟩ := hnode.natCast
      rw [List.mem_singleton.mp hnew, asSize_natCast]
      exact Or.inr ⟨hne, hcand⟩
  · rw [Index.append, Index.append, h.agree.nbrs hnode.mem_region]
    exact h.agree.modify _ _

variable {node cand : ℤ} {layer : ℕ}

/-- **A half edge** is committed on both, or on neither. -/
theorem commitHalfEdge (hab : Agree (a.healRegion n) a b) (h : Twin a n s t) (hmax : 0 < maxM)
    (hnode : a.Near n node) (hcand : a.Near n cand) :
    Twin a n (a.commitHalfEdge D node cand layer maxM s).2
      (b.commitHalfEdge D node cand layer maxM t).2 := by
  have hin := hnode.mem_region
  have hslot := h.slot hin layer
  obtain ⟨hanswer, hroom⟩ := hslot.ensureCapacityFor (D := D) hab hmax hnode hcand layer
  simp only [Index.commitHalfEdge, hab.numElements, hslot.agree.nbrs hin, hanswer,
    hroom.agree.nbrs hin]
  split
  · exact hslot
  · split
    · exact hroom
    · split
      · exact hroom
      · split
        · exact hroom
        · have hdone := hroom.append hnode hcand layer
          rw [Index.append, Index.append, hroom.agree.nbrs hin] at hdone
          exact hdone

/-- The two heals find the same room for a pair. -/
theorem capacityForBoth (hab : Agree (a.healRegion n) a b) (h : Twin a n s t) (hmax : 0 < maxM)
    (hnode : a.Near n node) (hcand : a.Near n cand) :
    (b.capacityForBoth D node cand layer maxM t).1 =
        (a.capacityForBoth D node cand layer maxM s).1 ∧
      Twin a n (a.capacityForBoth D node cand layer maxM s).2
        (b.capacityForBoth D node cand layer maxM t).2 := by
  obtain ⟨hanswer, hfirst⟩ := h.ensureCapacityFor (D := D) hab hmax hnode hcand layer
  simp only [Index.capacityForBoth, hanswer]
  split
  · exact ⟨rfl, hfirst⟩
  · exact hfirst.ensureCapacityFor hab hmax hcand hnode layer

/-- **One insertion** between neighbours of `n`. -/
theorem tryInsertHealedEdge (hab : Agree (a.healRegion n) a b) (h : Twin a n s t)
    (hmax : 0 < maxM) (hnode : a.Near n node) (hcand : a.Near n cand) :
    Twin a n (a.tryInsertHealedEdge D node cand layer maxM s)
      (b.tryInsertHealedEdge D node cand layer maxM t) := by
  have hin := hnode.mem_region
  have hin' := hcand.mem_region
  have hslots := (h.slot hin layer).slot hin' layer
  simp only [Index.tryInsertHealedEdge, hab.numElements, hslots.agree.nbrs hin,
    hslots.agree.nbrs hin']
  generalize (s.slot a.numElements (asSize node) layer).slot a.numElements (asSize cand) layer =
    s' at hslots ⊢
  generalize (t.slot a.numElements (asSize node) layer).slot a.numElements (asSize cand) layer =
    t' at hslots ⊢
  split
  · exact h
  · split
    · exact h
    · split
      · exact hslots
      · obtain ⟨r, hr⟩ : ∃ r, r = if ¬ cand ∈ s'.adjacency.nbrs (asSize node) layer ∧
            ¬ node ∈ s'.adjacency.nbrs (asSize cand) layer
          then a.capacityForBoth D node cand layer maxM s' else (true, s') := ⟨_, rfl⟩
        obtain ⟨r', hr'⟩ : ∃ r', r' = if ¬ cand ∈ s'.adjacency.nbrs (asSize node) layer ∧
            ¬ node ∈ s'.adjacency.nbrs (asSize cand) layer
          then b.capacityForBoth D node cand layer maxM t' else (true, t') := ⟨_, rfl⟩
        have hcap : r'.1 = r.1 ∧ Twin a n r.2 r'.2 := by
          rw [hr, hr']
          split
          · exact hslots.capacityForBoth hab hmax hnode hcand
          · exact ⟨rfl, hslots⟩
        rw [← hr, ← hr', hcap.1]
        split
        · exact hcap.2
        · -- the two half edges, each written only where it is missing
          split <;> split
          · exact hcap.2
          · exact hcap.2.commitHalfEdge hab hmax hnode hcand
          · exact hcap.2.commitHalfEdge hab hmax hcand hnode
          · exact (hcap.2.commitHalfEdge hab hmax hnode hcand).commitHalfEdge hab hmax hcand hnode

/-! ### The layers -/

/-- The two heals see the same orphans. -/
theorem orphans (hab : Agree (a.healRegion n) a b) (h : Twin a n s t) (L : ℕ) :
    b.orphans t.adjacency n L = a.orphans s.adjacency n L := by
  have hself : n ∈ a.healRegion n := mem_nodesOf_collect.mpr (Or.inl rfl)
  rw [Index.orphans, Index.orphans, asSize_natCast, h.agree.nbrs hself, hab.addUnique]

/-- They unlink them alike. -/
theorem unlinkOrphans (hab : Agree (a.healRegion n) a b) (h : Twin a n s t) (L : ℕ) {l : List ℤ}
    (hl : ∀ u ∈ l, asSize u ∈ a.healRegion n) :
    Twin a n (a.unlinkOrphans n L l s) (b.unlinkOrphans n L l t) := by
  rw [Index.unlinkOrphans, Index.unlinkOrphans, hab.numElements]
  exact List.foldl_rel h fun u hu _ _ hst => (hst.slot (hl u hu) L).dropLabel (hl u hu) n L

/-- They clear the list of the erased node alike. -/
theorem clearLayer (h : Twin a n s t) (hself : n ∈ a.healRegion n) (L : ℕ) :
    Twin a n (Index.clearLayer n L s) (Index.clearLayer n L t) := by
  rw [Index.clearLayer, Index.clearLayer, h.agree.lists n hself]
  split
  · exact ⟨h.confined.put hself (by simp), h.agree.modify _ _,
      by rw [h.removed, h.agree.nbrs hself], h.added⟩
  · exact h

/-- They unlink it from the region alike. -/
theorem unlinkRegion (h : Twin a n s t) (L : ℕ) {l : List ℤ}
    (hl : ∀ x ∈ l, asSize x ∈ a.healRegion n) :
    Twin a n (Index.unlinkRegion n l L s) (Index.unlinkRegion n l L t) := by
  rw [Index.unlinkRegion, Index.unlinkRegion]
  refine List.foldl_rel h fun x hx _ _ hst => ?_
  rw [hst.agree.lists _ (hl x hx)]
  split
  · exact hst
  · split
    · exact hst.dropLabel (hl x hx) n L
    · exact hst

/-- **Isolation**, from the same region. -/
theorem isolate (hab : Agree (a.healRegion n) a b) (h : Twin a n s t) (L : ℕ) :
    Twin a n (a.isolate n (a.collectHealRegionUnlocked n) L s)
      (b.isolate n (a.collectHealRegionUnlocked n) L t) := by
  have hself : n ∈ a.healRegion n := mem_nodesOf_collect.mpr (Or.inl rfl)
  rw [Index.isolate, Index.isolate, h.orphans hab, asSize_natCast]
  refine ((h.unlinkOrphans hab L fun u hu => ?_).clearLayer hself L).unlinkRegion L fun x hx => ?_
  · exact (h.confined.near_of_mem_orphans hu).mem_region
  · obtain ⟨v, rfl⟩ := labels_collect a n x hx
    rwa [asSize_natCast]

/-- The pairs of orphans, with their distances. -/
theorem candidates (hab : Agree (a.healRegion n) a b) {l : List ℤ}
    (hl : ∀ u ∈ l, asSize u ∈ a.healRegion n) : b.candidates D l = a.candidates D l := by
  induction l with
  | nil => rfl
  | cons u rest ih =>
    obtain ⟨hu, hrest⟩ := List.forall_mem_cons.mp hl
    rw [Index.candidates, Index.candidates, ih hrest]
    refine congrArg (· ++ _) (List.map_congr_left fun w hw => ?_)
    rw [hab.distance (Or.inl hu) (Or.inl (hrest w hw))]

/-- **One layer** of the heal loop. -/
theorem healLayer (hab : Agree (a.healRegion n) a b) (h : Twin a n s t) (hmax : 0 < maxM) (L : ℕ) :
    Twin a n (a.healLayer D n (a.collectHealRegionUnlocked n) maxM s L)
      (b.healLayer D n (a.collectHealRegionUnlocked n) maxM t L) := by
  have hnear : ∀ u ∈ a.orphans s.adjacency n L, a.Near n u :=
    fun u hu => h.confined.near_of_mem_orphans hu
  have hranked : b.rankedCandidates D (a.orphans s.adjacency n L) =
      a.rankedCandidates D (a.orphans s.adjacency n L) := by
    rw [rankedCandidates, rankedCandidates, candidates hab fun u hu => (hnear u hu).mem_region]
  rw [Index.healLayer, Index.healLayer, h.orphans hab, hranked]
  split
  · exact h.isolate hab L
  · refine List.foldl_rel (h.isolate hab L) fun c hc _ _ hst => ?_
    obtain ⟨hu, hw⟩ := mem_candidates (List.mem_mergeSort.mp hc)
    exact hst.tryInsertHealedEdge hab hmax (hnear _ hu) (hnear _ hw)

/-- **The layer loop.** -/
theorem upToLayer (hab : Agree (a.healRegion n) a b) (hsize : a.MachineSized) (hmax : 0 < maxM)
    (k : ℕ) : Twin a n (Index.upToLayer D a n (a.collectHealRegionUnlocked n) maxM k)
      (Index.upToLayer D b n (a.collectHealRegionUnlocked n) maxM k) := by
  induction k with
  | zero =>
    refine ⟨confined_start hsize n, ?_, rfl, rfl⟩
    have hstart : AgreeOn (a.healRegion n) a.adjacency b.adjacency := ⟨hab.length, hab.lists⟩
    have hgrown := hstart.resize a.numElements
    rw [Index.upToLayer, Index.upToLayer, hab.numElements]
    exact hgrown
  | succ k ih =>
    rw [upToLayer_succ, upToLayer_succ]
    exact ih.healLayer hab hmax k

end Twin

/-- The region grows by the same neighbours. -/
theorem Agree.addNeighbors (hab : Agree R a b) {u : ℤ} (hu : asSize u ∈ R) (region : List ℤ) :
    b.addNeighbors region u = a.addNeighbors region u := by
  rw [Index.addNeighbors, Index.addNeighbors, hab.lists _ hu, hab.addUnique]

/-- **The region** is collected from the lists of its nodes. -/
theorem Agree.collect {n : ℕ} (hab : Agree (a.healRegion n) a b) :
    b.collectHealRegionUnlocked n = a.collectHealRegionUnlocked n := by
  have hself : asSize (n : ℤ) ∈ a.healRegion n := by
    rw [asSize_natCast]
    exact mem_nodesOf_collect.mpr (Or.inl rfl)
  rw [collectHealRegionUnlocked, collectHealRegionUnlocked, hab.addNeighbors hself]
  refine List.foldl_ext _ _ _ fun region u hu => hab.addNeighbors ?_ region
  have hmem : u ∈ a.addNeighbors [(n : ℤ)] n := List.mem_of_mem_drop hu
  rw [mem_addNeighbors, List.mem_singleton] at hmem
  rcases hmem with rfl | ⟨hin, hlisted⟩
  · exact hself
  · obtain ⟨v, rfl, hv⟩ := inRange_iff.mp hin
    rw [asSize_natCast] at hlisted ⊢
    exact mem_nodesOf_collect.mpr (Or.inr ⟨hv, Or.inl hlisted⟩)

/-- The two heals go over the same layers. -/
theorem Agree.maxLayerGlobal {n : ℕ} (hab : Agree (a.healRegion n) a b) :
    Index.maxLayerGlobal (Layered.resize b.numElements b.adjacency) n
        (a.collectHealRegionUnlocked n) =
      Index.maxLayerGlobal (Layered.resize a.numElements a.adjacency) n
        (a.collectHealRegionUnlocked n) := by
  have hself : n ∈ a.healRegion n := mem_nodesOf_collect.mpr (Or.inl rfl)
  have hstart : AgreeOn (a.healRegion n) a.adjacency b.adjacency := ⟨hab.length, hab.lists⟩
  have hgrown := hstart.resize a.numElements
  rw [Index.maxLayerGlobal, Index.maxLayerGlobal, hab.numElements, asSize_natCast,
    hgrown.lists n hself]
  refine List.foldl_ext _ _ _ fun m x hx => ?_
  obtain ⟨v, rfl⟩ := labels_collect a n x hx
  rw [asSize_natCast, hgrown.lists v hx]

/-- **Two heals in step**: they leave the same lists in the region, and count the same edges. -/
theorem Agree.healLocked {n : ℕ} {maxM : ℤ} (hab : Agree (a.healRegion n) a b)
    (hsize : a.MachineSized) (hmax : 0 < maxM) :
    AgreeOn (a.healRegion n)
        (a.healLocked D n (a.collectHealRegionUnlocked n) maxM).adjacency
        (b.healLocked D n (b.collectHealRegionUnlocked n) maxM).adjacency ∧
      (b.healLocked D n (b.collectHealRegionUnlocked n) maxM).edgesRemoved =
        (a.healLocked D n (a.collectHealRegionUnlocked n) maxM).edgesRemoved ∧
      (b.healLocked D n (b.collectHealRegionUnlocked n) maxM).edgesAdded =
        (a.healLocked D n (a.collectHealRegionUnlocked n) maxM).edgesAdded := by
  have hself : n ∈ a.healRegion n := mem_nodesOf_collect.mpr (Or.inl rfl)
  rw [hab.collect, healLocked_eq, healLocked_eq, hab.maxLayerGlobal]
  generalize Index.maxLayerGlobal (Layered.resize a.numElements a.adjacency) n _ = k
  have htwin := Twin.upToLayer (D := D) hab hsize hmax k
  exact ⟨htwin.agree.modify n _,
    by rw [clearNode, clearNode, htwin.removed, htwin.agree.lists n hself], htwin.added⟩

end Twins

/-! ## Erasures as local operations -/

/-- What an index has of a node: its row and its lists. -/
def cell (ix : Index) (v : ℕ) : List UInt32 × List (List ℤ) := (ix.row v, ix.adjacency.layersOf v)

/-- Well-formed indexes over as many nodes, with a buffer or without one. -/
structure Like (s t : Index) : Prop where
  wellFormed : t.WellFormed
  numElements : t.numElements = s.numElements
  dim : t.dim = s.dim
  data : t.data.isSome = s.data.isSome
  ownsData : t.ownsData = s.ownsData

section Local

variable {D : Type} [FloatArith D] {s t : Index} {q : ℕ}

/-- A well-formed index below `2 ^ 63` nodes fits a machine. -/
theorem WellFormed.machineSized (h : s.WellFormed) (hnodes : s.numElements < 2 ^ 63) :
    s.MachineSized := by
  refine ⟨fun v L nb hnb => ?_, hnodes⟩
  obtain ⟨hlow, hhigh⟩ := h.labels v L nb hnb
  exact ⟨by omega, by omega⟩

/-- Loaded at the same time. -/
theorem Like.isLoaded (h : Like s t) : t.isLoaded = s.isLoaded := by
  rw [Index.isLoaded, Index.isLoaded, h.numElements, h.data]

/-- Indexes that have the same of the nodes agree on them. -/
theorem Like.agree (h : Like s t) (hs : s.WellFormed) {R : Set ℕ}
    (hcells : Set.EqOn (cell t) (cell s) R) : Agree R s t where
  numElements := h.numElements
  dim := h.dim
  words := hs.words
  words' := h.wellFormed.words
  length := by rw [h.wellFormed.nodes, hs.nodes, h.numElements]
  lists _ hv := congrArg Prod.snd (hcells hv)
  rows _ hv := congrArg Prod.fst (hcells hv)

/-- Zeroing the same row keeps two indexes alike. -/
theorem Like.wipeRow (h : Like s t) (q : ℕ) : Like s (t.wipeRow q) where
  wellFormed := h.wellFormed.wipeRow q
  numElements := h.numElements
  dim := h.dim
  data := by rw [← h.data, Index.wipeRow, Option.isSome_map]
  ownsData := h.ownsData

/-- Zeroing a row is nothing to the other nodes. -/
theorem cell_wipeRow_ne (ix : Index) {v : ℕ} (hne : v ≠ q) : cell (ix.wipeRow q) v = cell ix v := by
  rw [cell, cell, row_wipeRow_ne ix hne, wipeRow_adjacency]

/-- The wiped row is as long in both. -/
theorem Agree.wipeRow {R : Set ℕ} (h : Agree R s t) (q : ℕ) :
    Agree R (s.wipeRow q) (t.wipeRow q) where
  numElements := h.numElements
  dim := h.dim
  words := by rw [words_wipeRow, List.length_mapIdx]; exact h.words
  words' := by rw [words_wipeRow, List.length_mapIdx]; exact h.words'
  length := h.length
  lists := h.lists
  rows v hv := by
    by_cases hvq : v = q
    · subst hvq
      have hrow := h.rows v hv
      apply List.ext_getElem?
      intro i
      have hi := congrArg (fun l : List UInt32 => l[i]?) hrow
      rw [getElem?_row, getElem?_row, h.dim] at hi
      rw [getElem?_row, getElem?_row, words_wipeRow, words_wipeRow, List.getElem?_mapIdx,
        List.getElem?_mapIdx, wipeRow_dim, wipeRow_dim, h.dim]
      split
      · rename_i hlt
        rw [if_pos hlt, if_pos hlt] at hi
        rw [hi]
      · rfl
    · rw [row_wipeRow_ne t hvq, row_wipeRow_ne s hvq]
      exact h.rows v hv

/-- What `heal_graph_structure` does, on two indexes that agree on its region. -/
theorem Agree.healGraphStructure (hab : Agree (s.healRegion q) s t) (hs : s.WellFormed)
    (hnodes : s.numElements < 2 ^ 63) (hloaded : t.isLoaded = s.isLoaded) (env : NativeEnv)
    (maxM : ℤ) :
    (t.healGraphStructure D env q maxM).1 = (s.healGraphStructure D env q maxM).1 ∧
      ∀ v ∈ s.healRegion q, (t.healGraphStructure D env q maxM).2.adjacency.layersOf v =
        (s.healGraphStructure D env q maxM).2.adjacency.layersOf v := by
  rw [Index.healGraphStructure, Index.healGraphStructure, hloaded, hab.numElements]
  split
  · exact ⟨rfl, hab.lists⟩
  · split
    · exact ⟨rfl, hab.lists⟩
    · split
      · exact ⟨rfl, hab.lists⟩
      · rename_i hmax _ _
        obtain ⟨hlists, hremoved, hadded⟩ :=
          hab.healLocked (D := D) (hs.machineSized hnodes) (show 0 < maxM by omega)
        rcases lockRegion_cases s env q with ⟨hlocks, hok⟩ | ⟨hlocks, herr⟩
        · rcases lockRegion_cases t env q with ⟨-, hok'⟩ | ⟨hno, -⟩
          · rw [hok, hok']
            have hmetrics : ∀ work work' : HealWork, work'.edgesRemoved = work.edgesRemoved →
                work'.edgesAdded = work.edgesAdded →
                  work'.metrics env.elapsedMs = work.metrics env.elapsedMs := by
              intro work work' hremoved hadded
              rw [HealWork.metrics, HealWork.metrics, hremoved, hadded]
            exact ⟨congrArg Except.ok (hmetrics _ _ hremoved hadded), hlists.lists⟩
          · exact absurd hlocks hno
        · rcases lockRegion_cases t env q with ⟨hyes, -⟩ | ⟨-, herr'⟩
          · exact absurd hyes hlocks
          · rw [herr, herr']
            exact ⟨rfl, hab.lists⟩

/-- A heal changes no row. -/
theorem row_healGraphStructure (ix : Index) (env : NativeEnv) (maxM : ℤ) (v : ℕ) :
    (ix.healGraphStructure D env q maxM).2.row v = ix.row v := by
  rcases healGraphStructure_cases (D := D) ix env q maxM with ⟨-, _, -, heq⟩ | ⟨-, _, heq⟩
  · rw [heq]
    exact row_congr rfl rfl v
  · rw [heq]

/-- A heal does not change the dimension. -/
theorem dim_healGraphStructure (ix : Index) (env : NativeEnv) (maxM : ℤ) :
    (ix.healGraphStructure D env q maxM).2.dim = ix.dim := by
  rcases healGraphStructure_cases (D := D) ix env q maxM with ⟨-, _, -, heq⟩ | ⟨-, _, heq⟩
  · rw [heq]
    rfl
  · rw [heq]

/-- The call and what it comes to. -/
def EraseCall.run (D : Type) [FloatArith D] (c : EraseCall) (ix : Index) :
    Except NativeError ErasureResult × Index :=
  ix.eraseNode D c.env c.nodeId c.maxM

/-- The nodes whose rows and lists the call reads and writes. -/
def footprint (ix : Index) (c : EraseCall) : Set ℕ := ix.healRegion (asSize c.nodeId)

/-- **Inside the footprint** a call does the same to two indexes that are the same there, and
answers the same. -/
theorem run_inside (hs : s.WellFormed) (hnodes : s.numElements < 2 ^ 63) (ht : Like s t)
    (c : EraseCall) (hcells : Set.EqOn (cell t) (cell s) (s.footprint c)) :
    (c.run D t).1 = (c.run D s).1 ∧
      Set.EqOn (cell (c.run D t).2) (cell (c.run D s).2) (s.footprint c) := by
  have hab := ht.agree hs hcells
  have hensure : t.ensureNode c.nodeId = s.ensureNode c.nodeId := by
    rw [ensureNode, ensureNode, ht.isLoaded, ht.numElements]
  rw [EraseCall.run, EraseCall.run, eraseNode, eraseNode, overwriteVector, overwriteVector, hensure]
  rcases s.ensureNode c.nodeId with e | u
  · exact ⟨rfl, hcells⟩
  · by_cases hlock : c.env.acquires .overwrite = true
    · obtain ⟨hanswer, hlists⟩ := Agree.healGraphStructure (D := D)
        (s := s.wipeRow (asSize c.nodeId)) (q := asSize c.nodeId) (hab.wipeRow _) (hs.wipeRow _)
        hnodes (by rw [wipeRow_isLoaded, wipeRow_isLoaded, ht.isLoaded]) c.env c.maxM
      have hdim := dim_healGraphStructure (D := D) (q := asSize c.nodeId)
        (s.wipeRow (asSize c.nodeId)) c.env c.maxM
      have hdim' := dim_healGraphStructure (D := D) (q := asSize c.nodeId)
        (t.wipeRow (asSize c.nodeId)) c.env c.maxM
      have hinside : Set.EqOn
          (cell ((t.wipeRow (asSize c.nodeId)).healGraphStructure D c.env
            (asSize c.nodeId) c.maxM).2)
          (cell ((s.wipeRow (asSize c.nodeId)).healGraphStructure D c.env
            (asSize c.nodeId) c.maxM).2) (s.footprint c) := by
        intro v hv
        rw [cell, cell, row_healGraphStructure, row_healGraphStructure, hlists v hv,
          (hab.wipeRow (asSize c.nodeId)).rows v hv]
      simp only [hlock, Bool.not_true, Bool.false_eq_true, if_false]
      revert hanswer hinside hdim hdim'
      rcases (s.wipeRow (asSize c.nodeId)).healGraphStructure D c.env (asSize c.nodeId) c.maxM with
        ⟨e | hm, ix⟩ <;>
      rcases (t.wipeRow (asSize c.nodeId)).healGraphStructure D c.env (asSize c.nodeId) c.maxM with
        ⟨e' | hm', ix'⟩ <;> intro hanswer hdim hdim' hinside
      · obtain rfl := Except.error.inj hanswer
        exact ⟨rfl, hinside⟩
      · cases hanswer
      · cases hanswer
      · obtain rfl := Except.ok.inj hanswer
        refine ⟨?_, hinside⟩
        dsimp only at hdim hdim' ⊢
        rw [hdim, hdim', wipeRow_dim, wipeRow_dim, ht.dim]
    · simpa [hlock] using hcells

/-- **Outside the footprint** a call leaves the index as it is. -/
theorem run_outside (hs : s.WellFormed) (hnodes : s.numElements < 2 ^ 63) (c : EraseCall) :
    Like s (c.run D s).2 ∧ ∀ v ∉ s.footprint c, cell (c.run D s).2 v = cell s v := by
  have hself : asSize c.nodeId ∈ s.footprint c := mem_nodesOf_collect.mpr (Or.inl rfl)
  have hwiped : Like s (s.wipeRow (asSize c.nodeId)) := Like.wipeRow ⟨hs, rfl, rfl, rfl, rfl⟩ _
  have hwipedCells : ∀ v ∉ s.footprint c, cell (s.wipeRow (asSize c.nodeId)) v = cell s v :=
    fun v hv => cell_wipeRow_ne s (by rintro rfl; exact hv hself)
  rw [EraseCall.run]
  rcases eraseNode_cases (D := D) s c.env c.nodeId c.maxM with
    ⟨her, _, -, heq⟩ | ⟨-, _, heq⟩ | ⟨-, -, _, heq⟩
  · rw [heq]
    refine ⟨⟨hwiped.wellFormed.healed her.maxM_pos her.lt, rfl, rfl, hwiped.data, rfl⟩,
      fun v hv => ?_⟩
    have hlists := (confined_healLocked (D := D) (hwiped.wellFormed.machineSized hnodes)
      her.maxM_pos (asSize c.nodeId)).outside v hv
    rw [← hwipedCells v hv]
    exact congrArg₂ Prod.mk (row_congr rfl rfl v) hlists
  · rw [heq]
    exact ⟨⟨hs, rfl, rfl, rfl, rfl⟩, fun _ _ => rfl⟩
  · rw [heq]
    exact ⟨hwiped, hwipedCells⟩

/-- Where the lists of a footprint are the same, it is the same footprint. -/
theorem Agree.footprint {c : EraseCall} (hab : Agree (s.footprint c) s t) :
    t.footprint c = s.footprint c := by
  rw [Index.footprint, healRegion, hab.collect]
  rfl

/-- Alike by way of a third. -/
theorem Like.trans {r : Index} (h : Like s t) (h' : Like t r) : Like s r :=
  ⟨h'.wellFormed, h'.numElements.trans h.numElements, h'.dim.trans h.dim, h'.data.trans h.data,
    h'.ownsData.trans h.ownsData⟩

/-- **An erasure is local**, at every well-formed index. -/
def localErase (D : Type) [FloatArith D] (hs : s.WellFormed) (hnodes : s.numElements < 2 ^ 63)
    (c : EraseCall) : LocalOp cell (Like s) s (Except NativeError ErasureResult) where
  footprint := s.footprint c
  run := c.run D
  shape t ht _ := ht.trans
    (run_outside ht.wellFormed (by rw [ht.numElements]; exact hnodes) c).1
  answer t ht hcells := (run_inside hs hnodes ht c hcells).1
  inside t ht hcells := (run_inside hs hnodes ht c hcells).2
  outside t ht hcells v hv :=
    (run_outside ht.wellFormed (by rw [ht.numElements]; exact hnodes) c).2 v
      (by rwa [(ht.agree hs hcells).footprint])

end Local

/-! ## The order of erasures -/

/-- Calls of `erase_node`, one after the other: what each returned or threw, and the index. -/
def eraseLog (D : Type) [FloatArith D] :
    List EraseCall → Index → List (Except NativeError ErasureResult) × Index
  | [], ix => ([], ix)
  | c :: calls, ix =>
    let r := c.run D ix
    let rest := eraseLog D calls r.2
    (r.1 :: rest.1, rest.2)

/-- Running the local operations is erasing one after the other. -/
theorem runAll_localErase {D : Type} [FloatArith D] {s : Index} (hs : s.WellFormed)
    (hnodes : s.numElements < 2 ^ 63) (calls : List EraseCall) (t : Index) :
    LocalOp.runAll (calls.map (localErase D hs hnodes)) t = eraseLog D calls t := by
  induction calls generalizing t with
  | nil => rfl
  | cons c calls ih =>
    rw [List.map_cons, LocalOp.runAll, eraseLog, ih]
    rfl

/-- The buffer is its words. -/
theorem eq_of_fields {a b : Index} (hwords : b.words = a.words)
    (hdata : b.data.isSome = a.data.isSome) (howns : b.ownsData = a.ownsData) (hdim : b.dim = a.dim)
    (hnum : b.numElements = a.numElements) (hlists : b.adjacency = a.adjacency) :
    b = { a with entrypoint := b.entrypoint } := by
  obtain ⟨data, owns, dim, num, entry, lists⟩ := a
  obtain ⟨data', owns', dim', num', entry', lists'⟩ := b
  obtain rfl : owns' = owns := howns
  obtain rfl : dim' = dim := hdim
  obtain rfl : num' = num := hnum
  obtain rfl : lists' = lists := hlists
  have hsame : data' = data := by
    rcases data with _ | ⟨words, fits⟩ <;> rcases data' with _ | ⟨words', fits'⟩
    · rfl
    · cases hdata
    · cases hdata
    · obtain rfl : words' = words := hwords
      rfl
  rw [hsame]

/-- Well-formed indexes with the same rows and lists are the same, entrypoint aside. -/
theorem Like.eq_of_cells {s t t' : Index} (h : Like s t) (h' : Like s t')
    (hcells : cell t = cell t') : t' = { t with entrypoint := t'.entrypoint } := by
  have hdim : t'.dim = t.dim := h'.dim.trans h.dim.symm
  have hnum : t'.numElements = t.numElements := h'.numElements.trans h.numElements.symm
  have hw := h.wellFormed.words
  have hw' := h'.wellFormed.words
  have hwords : t'.words = t.words := by
    apply List.ext_getElem?
    intro i
    by_cases hi : i < t.words.length
    · obtain ⟨-, -, hat⟩ := getElem?_words hw hi
      obtain ⟨-, -, hat'⟩ := getElem?_words hw' (i := i) (by rw [hw', hnum, hdim, ← hw]; exact hi)
      have hrow : t.row (i / t.dim) = t'.row (i / t.dim) :=
        congrArg Prod.fst (congrFun hcells (i / t.dim))
      rw [hat, hat', hdim, hrow]
    · rw [List.getElem?_eq_none (by rw [hw', hnum, hdim, ← hw]; omega),
        List.getElem?_eq_none (by omega)]
  have hlists : t'.adjacency = t.adjacency := by
    have hlen : t'.adjacency.length = t.adjacency.length := by
      rw [h'.wellFormed.nodes, h.wellFormed.nodes, hnum]
    refine List.ext_getElem hlen fun v hv hv' => ?_
    have hat : t.adjacency.layersOf v = t'.adjacency.layersOf v :=
      congrArg Prod.snd (congrFun hcells v)
    simpa [Layered.layersOf, hv, hv'] using hat.symm
  exact eq_of_fields hwords (h'.data.trans h.data.symm)
    (h'.ownsData.trans h.ownsData.symm) hdim hnum hlists

/-- **The order of erasures does not matter** where their regions have no node in common: the
calls answer the same, errors and reported edges included, and leave the same index, but for the
entrypoint. -/
theorem eraseLog_perm {D : Type} [FloatArith D] {ix : Index} (hix : ix.WellFormed)
    (hnodes : ix.numElements < 2 ^ 63) {calls calls' : List EraseCall}
    (hperm : calls.Perm calls')
    (hapart : calls.Pairwise fun c c' => ∀ v ∈ ix.footprint c, v ∉ ix.footprint c') :
    (eraseLog D calls ix).1.Perm (eraseLog D calls' ix).1 ∧
      (eraseLog D calls' ix).2 =
        { (eraseLog D calls ix).2 with entrypoint := (eraseLog D calls' ix).2.entrypoint } := by
  have hhere : Like ix ix := ⟨hix, rfl, rfl, rfl, rfl⟩
  have hops : (calls.map (localErase D hix hnodes)).Pairwise LocalOp.Apart :=
    List.pairwise_map.mpr hapart
  obtain ⟨hanswers, hcells, hlike'⟩ := LocalOp.runAll_perm (hperm.map _) hops hhere
  obtain ⟨-, hlike, -⟩ := LocalOp.runAll_alone hops hhere fun _ _ _ _ => rfl
  rw [runAll_localErase] at hanswers hcells hlike'
  rw [runAll_localErase] at hanswers hcells hlike
  exact ⟨hanswers, hlike.eq_of_cells hlike' hcells⟩

/-- Two pairs of nodes, without an edge between the pairs. -/
def twoPairs : Index where
  data := some ⟨[1065353216, 1073741824, 1077936128, 1082130432], by decide⟩
  ownsData := true
  dim := 1
  numElements := 4
  entrypoint := 0
  adjacency := [[[1]], [[0]], [[3]], [[2]]]

/-- The example is well formed. -/
theorem wellFormed_twoPairs : twoPairs.WellFormed :=
  ⟨rfl, rfl, labelsIn_iff.mpr (by decide), Or.inr (by decide)⟩

/-! ## Erasures that hold their locks -/

/-- **Whose locks are held at the same time, they commute.** In a state that the threads of a lock
manager have reached, each of some threads guards the region of one call: the calls can be done
in any order. -/
theorem guarded_erasures_perm {D : Type} [FloatArith D] {T : Type} [Fintype T] [DecidableEq T]
    {m : LockManager} {as : List (T × LockStep)} {g : GuardSystem T}
    (h : Trace (GuardSystem.Step m) .initial as g) {ix : Index} (hix : ix.WellFormed)
    (hnodes : ix.numElements < 2 ^ 63) {calls calls' : List EraseCall} (thread : EraseCall → T)
    (hthreads : calls.Pairwise fun c c' => thread c ≠ thread c')
    (hguards : ∀ c ∈ calls, ∃ locked, g.threads (thread c) =
      .guarding (ix.collectHealRegionUnlocked (asSize c.nodeId : ℕ)) locked)
    (hperm : calls.Perm calls') :
    (eraseLog D calls ix).1.Perm (eraseLog D calls' ix).1 ∧
      (eraseLog D calls' ix).2 =
        { (eraseLog D calls ix).2 with entrypoint := (eraseLog D calls' ix).2.entrypoint } := by
  refine eraseLog_perm hix hnodes hperm (hthreads.imp_of_mem fun {c c'} hc hc' hne => ?_)
  obtain ⟨locked, hguard⟩ := hguards c hc
  obtain ⟨locked', hguard'⟩ := hguards c' hc'
  intro v hv hv'
  exact (GuardSystem.consistent_of_trace h).excluding.guards _ _ hne _ _ _ _ hguard hguard' v hv hv'

/-- Two threads guard the two pairs of `twoPairs`. -/
theorem guarded_erasures_perm_twoPairs : ∃ as, ∃ g : GuardSystem (Fin 2),
    Trace (GuardSystem.Step (.ofPool 4 50)) .initial as g ∧
      g.threads 0 = .guarding [0, 1] [0, 1] ∧ g.threads 1 = .guarding [2, 3] [2, 3] ∧
      (eraseLog Float [eraseCall 2, eraseCall 0] twoPairs).2 =
        { (eraseLog Float [eraseCall 0, eraseCall 2] twoPairs).2 with
          entrypoint := (eraseLog Float [eraseCall 2, eraseCall 0] twoPairs).2.entrypoint } := by
  have hregion : twoPairs.collectHealRegionUnlocked (asSize 0 : ℕ) = [0, 1] := by decide
  have hregion' : twoPairs.collectHealRegionUnlocked (asSize 2 : ℕ) = [2, 3] := by decide
  have hstripes : (LockManager.ofPool 4 50).uniqueStripes [0, 1] = [0, 1] := by
    rw [LockManager.uniqueStripes, List.mergeSort_of_pairwise (by decide)]
    rfl
  have hstripes' : (LockManager.ofPool 4 50).uniqueStripes [2, 3] = [2, 3] := by
    rw [LockManager.uniqueStripes, List.mergeSort_of_pairwise (by decide)]
    rfl
  have hguard : LockThread.run (.ofPool 4 50)
      [.acquireExclusive [0, 1], .lockNext, .lockNext, .acquired] .idle (fun _ => .free) =
      some (.guarding [0, 1] [0, 1],
        Function.update (Function.update (fun _ => .free) 0 .exclusive) 1 .exclusive) := by
    simp [LockThread.run, LockThread.step, hstripes, Stripes.tryLockFor]
  have hguard' : LockThread.run (.ofPool 4 50)
      [.acquireExclusive [2, 3], .lockNext, .lockNext, .acquired] .idle
      (Function.update (Function.update (fun _ => .free) 0 .exclusive) 1 .exclusive) =
      some (.guarding [2, 3] [2, 3], Function.update (Function.update (Function.update
        (Function.update (fun _ => .free) 0 .exclusive) 1 .exclusive) 2 .exclusive) 3
        .exclusive) := by
    simp [LockThread.run, LockThread.step, hstripes', Stripes.tryLockFor]
  have hrun := (GuardSystem.trace_of_run (T := Fin 2) (g := .initial) 0 hguard).append
    (GuardSystem.trace_of_run 1 hguard')
  refine ⟨_, _, hrun, rfl, rfl, (guarded_erasures_perm (D := Float) hrun wellFormed_twoPairs
    (by decide) (fun c => if c.nodeId = 0 then 0 else 1) (List.pairwise_pair.mpr (by decide)) ?_
    (.swap _ _ [])).2⟩
  intro c hc
  rcases List.mem_pair.mp hc with rfl | rfl
  · exact ⟨[0, 1], by rw [show (eraseCall 0).nodeId = 0 from rfl, hregion]; rfl⟩
  · exact ⟨[2, 3], by rw [show (eraseCall 2).nodeId = 2 from rfl, hregion']; rfl⟩

end Index

end Unlearning
