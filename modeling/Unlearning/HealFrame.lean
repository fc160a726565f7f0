import Unlearning.HealRun
import Unlearning.Rewiring

/-!
# What a heal writes (`src/hnsw_helper.hpp`, `heal_graph_structure`)

The heal holds the locks of `{q} ∪ N(q) ∪ N(N(q))`, as collected before its first write, and
the evictions follow edges of orphans that earlier candidates and layers have changed already.
`Confined` is the invariant that carries the frame: outside the region no list has changed, the
list of `q` only shrank, and every node that a neighbour of `q` lists is in the region, since
whatever a list gains is a neighbour of `q` itself.
-/

namespace Unlearning

namespace Index

/-- What the C++ types hold: `int64` labels, and a number of nodes that a `std::vector` can have. -/
structure MachineSized (ix : Index) : Prop where
  labels : ∀ v L, ∀ nb ∈ ix.adjacency.nbrs v L, IsInt64 nb
  nodes : ix.numElements < 2 ^ 63

/-- The nodes whose locks the heal of `n` holds. -/
def healRegion (ix : Index) (n : ℕ) : Set ℕ := nodesOf (ix.collectHealRegionUnlocked n)

/-- A label that the heal of `n` may treat as an orphan. -/
structure Near (ix : Index) (n : ℕ) (u : ℤ) : Prop where
  label_ne : u ≠ n
  inRange : ix.inRange u = true
  listed : ∃ K, u ∈ ix.adjacency.nbrs n K

/-- **The invariant of a heal of `n`**, against the index it started from. -/
structure Confined (ix : Index) (n : ℕ) (s : HealWork) : Prop where
  /-- outside the region nothing has changed, the number of layers included -/
  outside : ∀ v, v ∉ ix.healRegion n → s.adjacency.layersOf v = ix.adjacency.layersOf v
  /-- the list of `n` has gained nothing -/
  own : ∀ K, ∀ y ∈ s.adjacency.nbrs n K, y ∈ ix.adjacency.nbrs n K
  /-- the nodes that a neighbour of `n` lists are in the region -/
  near : ∀ u, ix.Near n u → ∀ K, ∀ y ∈ s.adjacency.nbrs (asSize u) K,
    asSize y < ix.numElements → asSize y ∈ ix.healRegion n

section Frame

variable {D : Type} [FloatArith D] {ix : Index} {n : ℕ} {s t : HealWork}

theorem Near.natCast {u : ℤ} (h : ix.Near n u) : ∃ v : ℕ, u = v ∧ v < ix.numElements ∧ v ≠ n := by
  obtain ⟨v, rfl, hv⟩ := inRange_iff.mp h.inRange
  exact ⟨v, rfl, hv, by exact_mod_cast h.label_ne⟩

/-- The neighbours of `n` are in its region. -/
theorem Near.mem_region {u : ℤ} (h : ix.Near n u) :
    asSize u ∈ ix.healRegion n := by
  obtain ⟨v, rfl, hv, -⟩ := h.natCast
  rw [asSize_natCast, healRegion, mem_nodesOf_collect]
  exact Or.inr ⟨hv, Or.inl h.listed⟩

/-- The region covers the graph the heal starts from. -/
theorem confined_start (hsize : ix.MachineSized) (n : ℕ) :
    ix.Confined n
      ⟨Layered.resize ix.numElements ix.adjacency, 0, 0⟩ where
  outside v _ := Layered.getD_resize _ _ _
  own K y hy := by rwa [Layered.nbrs_resize] at hy
  near u hu K y hy hlt := by
    obtain ⟨w, rfl, hw, -⟩ := hu.natCast
    rw [Layered.nbrs_resize, asSize_natCast] at hy
    obtain ⟨hlow, -⟩ := hsize.labels w K y hy
    have hnodes := hsize.nodes
    have hnonneg : 0 ≤ y := by
      by_contra hneg
      rw [asSize, if_pos (by omega)] at hlt
      omega
    obtain ⟨v, rfl⟩ := Int.eq_ofNat_of_zero_le hnonneg
    rw [asSize_natCast] at hlt ⊢
    exact mem_nodesOf_collect.mpr (Or.inr ⟨hlt, Or.inr ⟨w, hw, hu.listed, K, hy⟩⟩)

/-- **A write inside the region**, whose gains are neighbours of `n`, keeps the invariant. -/
theorem Confined.write (h : ix.Confined n s)
    (hout : ∀ v, v ∉ ix.healRegion n →
      t.adjacency.layersOf v = s.adjacency.layersOf v)
    (hgain : ∀ v K, ∀ y ∈ t.adjacency.nbrs v K,
      y ∈ s.adjacency.nbrs v K ∨ (v ≠ n ∧ ix.Near n y)) :
    ix.Confined n t where
  outside v hv := (hout v hv).trans (h.outside v hv)
  own K y hy := h.own K y ((hgain n K y hy).resolve_right fun hnew => hnew.1 rfl)
  near u hu K y hy hlt := by
    rcases hgain _ K y hy with hold | ⟨-, hnew⟩
    · exact h.near u hu K y hold hlt
    · exact hnew.mem_region

theorem Confined.slot (h : ix.Confined n s) {v : ℕ}
    (hv : v ∈ ix.healRegion n) (L : ℕ) :
    ix.Confined n (s.slot ix.numElements v L) := by
  refine h.write (fun w hw => ?_) fun w K y hy => Or.inl ?_
  · rw [HealWork.slot, ensureLayerSlot, Layered.slot,
      Layered.layersOf_modify_ne _ _ (by rintro rfl; exact hw hv)]
    exact Layered.getD_resize _ _ _
  · rwa [HealWork.slot, nbrs_ensureLayerSlot] at hy

theorem Confined.put (h : ix.Confined n s) {v L : ℕ} {l : List ℤ}
    (hv : v ∈ ix.healRegion n)
    (hl : ∀ y ∈ l, y ∈ s.adjacency.nbrs v L ∨ (v ≠ n ∧ ix.Near n y)) {r a : ℤ} :
    ix.Confined n ⟨s.adjacency.put v L l, r, a⟩ := by
  refine h.write (fun w hw => ?_) fun w K y hy => ?_
  · exact Layered.layersOf_modify_ne _ _ (by rintro rfl; exact hw hv)
  · rcases Layered.nbrs_put_subset hy with ⟨rfl, rfl, hnew⟩ | hold
    · exact hl y hnew
    · exact Or.inl hold

theorem Confined.dropLabel (h : ix.Confined n s) {v : ℕ}
    (hv : v ∈ ix.healRegion n) (x : ℤ) (L : ℕ) :
    ix.Confined n (s.dropLabel x v L) :=
  h.put hv fun _ hy => Or.inl (List.mem_filter.mp hy).1

/-- **An eviction** from the list of a neighbour of `n` stays in the region: the node that gives
up the edge back is one that the neighbour lists. -/
theorem Confined.evict (h : ix.Confined n s) {node : ℤ}
    (hnode : ix.Near n node) {layer i : ℕ} (hi : i < (s.adjacency.nbrs (asSize node) layer).length) :
    ix.Confined n (s.evict ix.numElements node layer i) := by
  have herase : ix.Confined n ⟨s.adjacency.put (asSize node) layer
      ((s.adjacency.nbrs (asSize node) layer).eraseIdx i), s.edgesRemoved + 1, s.edgesAdded⟩ :=
    h.put hnode.mem_region fun y hy => Or.inl (List.eraseIdx_subset hy)
  simp only [HealWork.evict]
  split
  · rename_i hfar
    rw [List.getElem?_eq_getElem hi, Option.getD_some] at hfar ⊢
    have hmem := h.near node hnode layer _ (List.getElem_mem hi) hfar
    exact (herase.slot hmem layer).dropLabel hmem node layer
  · exact herase

variable {maxM : ℤ}

/-- The furthest neighbour of a list without room is one of its labels. -/
theorem furthest_lt_of_full (hmax : 0 < maxM) {nbrs : List ℤ} (hfull : ¬ HasRoom maxM nbrs)
    (node : ℤ) : (ix.furthest D node nbrs).1 < nbrs.length :=
  furthest_lt ix node (by rintro rfl; exact hfull hmax)

theorem Confined.ensureCapacityFor (h : ix.Confined n s) (hmax : 0 < maxM) {node : ℤ}
    (hnode : ix.Near n node) (cand : ℤ) (layer : ℕ) :
    ix.Confined n (ix.ensureCapacityFor D node cand layer maxM s).2 := by
  have hslot := h.slot hnode.mem_region layer
  rw [ensureCapacityFor_eq]
  split
  · exact hslot
  · rename_i hfull
    split
    · refine hslot.evict hnode ?_
      rw [HealWork.slot, nbrs_ensureLayerSlot]
      exact furthest_lt_of_full hmax (fun hroom => hfull (Or.inr hroom)) node
    · exact hslot

/-- Insertions between neighbours of `n` are confined. -/
theorem steps_confined (hmax : 0 < maxM) (layer : ℕ) :
    Steps D ix layer maxM (fun node cand => ix.Near n node ∧ ix.Near n cand)
      (fun s t => ix.Confined n s → ix.Confined n t) where
  inTable {node _} hp := by
    obtain ⟨v, rfl, hv, -⟩ := hp.1.natCast
    rwa [asSize_natCast]
  refl _ h := h
  trans h h' hs := h' (h hs)
  slot hp s h := h.slot hp.1.mem_region layer
  capacity hp s h := h.ensureCapacityFor hmax hp.1 _ layer
  append {node cand} hp s _ _ _ h := by
    refine h.put hp.1.mem_region fun y hy => ?_
    rcases List.mem_append.mp hy with hold | hnew
    · exact Or.inl hold
    · obtain ⟨v, rfl, -, hne⟩ := hp.1.natCast
      rw [List.mem_singleton.mp hnew, asSize_natCast]
      exact Or.inr ⟨hne, hp.2⟩

/-- The orphans of a confined graph are neighbours of `n` in the index. -/
theorem Confined.near_of_mem_orphans (h : ix.Confined n s) {L : ℕ} {u : ℤ}
    (hu : u ∈ ix.orphans s.adjacency n L) : ix.Near n u := by
  obtain ⟨hne, hin, hmem⟩ := mem_orphans hu
  rw [asSize_natCast] at hmem
  exact ⟨hne, hin, L, h.own L u hmem⟩

theorem Confined.isolate (h : ix.Confined n s) (L : ℕ) :
    ix.Confined n (ix.isolate n (ix.collectHealRegionUnlocked n) L s) := by
  have hself : n ∈ ix.healRegion n := mem_nodesOf_collect.mpr (Or.inl rfl)
  have horphans : ix.Confined n (ix.unlinkOrphans n L (ix.orphans s.adjacency n L) s) := by
    refine List.foldlRecOn (motive := fun t => ix.Confined n t) (ix.orphans s.adjacency n L) _ h ?_
    intro t ih u hu
    have hnear := h.near_of_mem_orphans hu
    exact (ih.slot hnear.mem_region L).dropLabel hnear.mem_region n L
  have hclear : ix.Confined n
      (clearLayer n L (ix.unlinkOrphans n L (ix.orphans s.adjacency n L) s)) := by
    rw [clearLayer]
    split
    · exact horphans.put hself (by simp)
    · exact horphans
  rw [Index.isolate, asSize_natCast, unlinkRegion]
  refine List.foldlRecOn (motive := fun t => ix.Confined n t) (ix.collectHealRegionUnlocked n) _
    hclear ?_
  intro t ih x hx
  obtain ⟨v, rfl⟩ := labels_collect ix n x hx
  rw [asSize_natCast]
  split
  · exact ih
  · split
    · exact ih.dropLabel hx n L
    · exact ih

/-- **One layer** is confined, and so is what each of its calls finds. -/
theorem Confined.healLayer (h : ix.Confined n s) (hmax : 0 < maxM) (L : ℕ) :
    ix.Confined n (ix.healLayer D n (ix.collectHealRegionUnlocked n) maxM s L) ∧
      ∀ c ∈ layerCalls D ix n (ix.collectHealRegionUnlocked n) maxM s L,
        ix.Confined n c.before ∧ ix.Near n c.node := by
  have hiso := h.isolate L
  have hstep : ∀ cand ∈ ix.rankedCandidates D (ix.orphans s.adjacency n L), ∀ t,
      ix.Confined n t → ix.Confined n (insertAt D ix L maxM t cand) ∧
        ∀ c ∈ insertCalls D ix cand.u cand.w L maxM t,
          ix.Confined n c.before ∧ ix.Near n c.node := by
    intro cand hcand t ht
    obtain ⟨hu, hw⟩ := mem_candidates (List.mem_mergeSort.mp hcand)
    have hnear := h.near_of_mem_orphans hu
    have hnear' := h.near_of_mem_orphans hw
    obtain ⟨hrun, hcalls⟩ := (steps_confined (D := D) (n := n) hmax L).tryInsertHealedEdge
      (u := cand.u) (w := cand.w) (fun _ _ _ => ⟨⟨hnear, hnear'⟩, hnear', hnear⟩) t
    exact ⟨hrun ht, fun c hc => ⟨(hcalls c hc).before ht, (hcalls c hc).offered.1⟩⟩
  have hrun : ∀ l ⊆ ix.rankedCandidates D (ix.orphans s.adjacency n L),
      ix.Confined n (l.foldl (insertAt D ix L maxM)
        (ix.isolate n (ix.collectHealRegionUnlocked n) L s)) := by
    intro l hl
    refine List.foldlRecOn (motive := fun t => ix.Confined n t) l _ hiso ?_
    intro t ih cand hcand
    exact (hstep cand (hl hcand) t ih).1
  constructor
  · by_cases hfew : (ix.orphans s.adjacency n L).length < 2
    · rw [Index.healLayer, if_pos hfew]
      exact hiso
    · rw [healLayer_eq hfew]
      exact hrun _ (List.Subset.refl _)
  · intro c hc
    obtain ⟨-, pre, cand, post, hsplit, hc⟩ := mem_layerCalls hc
    refine (hstep cand ?_ _ (hrun pre ?_)).2 c hc
    · rw [hsplit]
      exact List.mem_append_right _ List.mem_cons_self
    · rw [hsplit]
      exact List.subset_append_left _ _

/-- **The layer loop**, by induction on the number of layers done. -/
theorem confined_upToLayer (hsize : ix.MachineSized) (hmax : 0 < maxM) (n k : ℕ) :
    ix.Confined n (upToLayer D ix n (ix.collectHealRegionUnlocked n) maxM k) := by
  induction k with
  | zero => exact confined_start hsize n
  | succ k ih =>
    rw [upToLayer_succ]
    exact (ih.healLayer (D := D) hmax k).1

theorem confined_healLocked (hsize : ix.MachineSized) (hmax : 0 < maxM) (n : ℕ) :
    ix.Confined n (ix.healLocked D n (ix.collectHealRegionUnlocked n) maxM) := by
  rw [healLocked_eq]
  generalize maxLayerGlobal _ _ _ = k
  refine (confined_upToLayer (D := D) hsize hmax n k).write (fun v hv => ?_) fun v K y hy => Or.inl ?_
  · refine Layered.layersOf_modify_ne _ _ ?_
    rintro rfl
    exact hv (mem_nodesOf_collect.mpr (Or.inl rfl))
  · rw [clearNode, Layered.nbrs_clear] at hy
    split at hy
    · cases hy
    · exact hy

/-- The label that a call of `ensure_capacity_for` evicts, if it evicts one. -/
def evicted (D : Type) [FloatArith D] (ix : Index) (maxM : ℤ) (c : HelperCall) : Option ℤ :=
  let nbrs := c.before.adjacency.nbrs (asSize c.node) c.layer
  if c.helper = .ensureCapacityFor ∧ ¬ (c.cand ∈ nbrs ∨ HasRoom maxM nbrs) ∧
      Swaps D ix c.node c.cand nbrs then
    nbrs[(ix.furthest D c.node nbrs).1]?
  else none

/-- An evicted label was listed. -/
theorem mem_of_evicted {c : HelperCall} {far : ℤ} (h : evicted D ix maxM c = some far) :
    far ∈ c.before.adjacency.nbrs (asSize c.node) c.layer := by
  simp only [evicted] at h
  split at h
  · exact List.mem_of_getElem? h
  · cases h

/-- **A heal writes only inside its region.** Whatever the outcome, the lists of the nodes
outside the two-hop region of `q`, as collected on the index it is given, stay as they are, the
number of layers included, and so does every vector. Each label evicted on the way, if it is an
index, is a node of that region. -/
theorem healGraphStructure_frame (hsize : ix.MachineSized) (hmax : 0 < maxM) (env : NativeEnv)
    (q : ℕ) :
    (∀ v : ℕ, (v : ℤ) ∉ ix.collectHealRegionUnlocked q →
        (ix.healGraphStructure D env q maxM).2.adjacency.layersOf v = ix.adjacency.layersOf v) ∧
      (ix.healGraphStructure D env q maxM).2.data = ix.data ∧
      (∀ v, (ix.healGraphStructure D env q maxM).2.row v = ix.row v) ∧
      ∀ c ∈ healCalls D ix q (ix.collectHealRegionUnlocked q) maxM,
        ∀ far, evicted D ix maxM c = some far → asSize far < ix.numElements →
          (asSize far : ℤ) ∈ ix.collectHealRegionUnlocked q := by
  have hcalls : ∀ c ∈ healCalls D ix q (ix.collectHealRegionUnlocked q) maxM,
      ∀ far, evicted D ix maxM c = some far → asSize far < ix.numElements →
        (asSize far : ℤ) ∈ ix.collectHealRegionUnlocked q := by
    intro c hc far hfar hlt
    obtain ⟨L, -, hc⟩ := mem_healCalls hc
    obtain ⟨hbefore, hnear⟩ := ((confined_upToLayer hsize hmax q L).healLayer hmax L).2 c hc
    exact hbefore.near c.node hnear c.layer far (mem_of_evicted hfar) hlt
  rcases healGraphStructure_cases (D := D) ix env q maxM with ⟨-, hm, -, heq⟩ | ⟨-, e, heq⟩
  · rw [heq]
    exact ⟨(confined_healLocked hsize hmax q).outside, rfl, fun v => rfl, hcalls⟩
  · rw [heq]
    exact ⟨fun v _ => rfl, rfl, fun v => rfl, hcalls⟩

end Frame

/-- On `fullSpoke` with lists of one label the label `3` is evicted, two hops from `0`. -/
theorem healGraphStructure_frame_fullSpoke :
    (healCalls ℚ fullSpoke 0 (fullSpoke.collectHealRegionUnlocked 0) 1).filterMap
        (evicted ℚ fullSpoke 1) = [3] ∧
      (∀ v : ℕ, (v : ℤ) ∉ fullSpoke.collectHealRegionUnlocked (0 : ℕ) →
        (fullSpoke.healGraphStructure ℚ .calm 0 1).2.adjacency.layersOf v =
          fullSpoke.adjacency.layersOf v) ∧
      (fullSpoke.healGraphStructure ℚ .calm 0 1).2.data = fullSpoke.data ∧
      (∀ v, (fullSpoke.healGraphStructure ℚ .calm 0 1).2.row v = fullSpoke.row v) ∧
      ∀ c ∈ healCalls ℚ fullSpoke 0 (fullSpoke.collectHealRegionUnlocked (0 : ℕ)) 1,
        ∀ far, evicted ℚ fullSpoke 1 c = some far → asSize far < fullSpoke.numElements →
          (asSize far : ℤ) ∈ fullSpoke.collectHealRegionUnlocked (0 : ℕ) := by
  have hsize : fullSpoke.MachineSized := by
    have hin : LabelsIn 4 fullSpoke.adjacency := labelsIn_iff.mpr (by decide)
    refine ⟨fun v L nb hnb => ?_, by decide⟩
    obtain ⟨hlow, hhigh⟩ := hin v L nb hnb
    exact ⟨by omega, by omega⟩
  exact ⟨by decide +kernel, healGraphStructure_frame hsize (by decide) .calm 0⟩

end Index

end Unlearning
