import Unlearning.Index

/-!
# Healing and hard erasure (`src/hnsw_helper.hpp`, `heal_graph_structure`, `erase_node`)

Layers:

* the bottom one is the code: region collection, the capacity and insertion
  helpers, one layer of the heal loop, the whole heal, `erase_node`;
* above it `Prunes`, which says of a change of the graph that no list gains the
  label `q` and that the lists of nodes outside a given set keep it. Every write
  of the heal loop is a `Prunes`, so the loop is one, whatever the distances
  were;
* `eraseNode_cases` says what a call can do to the index, and `mem_nbrs_eraseNode`
  where the label survives.

The counters are `int`s. Wrapping goes with addition (`wrapInt_wrapInt_add`), so `HealWork`
keeps the plain sums of what is added up, and they are wrapped once, where they are returned.
-/

namespace Unlearning

/-- `HealingMetrics`; the duration is kept as the text `std::to_string` makes of it. -/
structure HealingMetrics where
  success : Bool
  /-- an `int` -/
  edgesRemoved : ℤ
  /-- an `int` -/
  edgesAdded : ℤ
  repairDurationMs : String
  deriving DecidableEq

/-- `ErasureResult` -/
structure ErasureResult where
  success : Bool
  nodeId : ℤ
  bytesWiped : ℕ
  message : String
  deriving DecidableEq

/-- What the heal loop mutates: the adjacency and the two counters, not wrapped. -/
structure HealWork where
  adjacency : Layered ℤ
  edgesRemoved : ℤ
  edgesAdded : ℤ

/-- A counter that wraps at each `+=` is the wrapped sum. -/
theorem wrapInt_wrapInt_add (a b : ℤ) : wrapInt (wrapInt a + b) = wrapInt (a + b) :=
  Int.bmod_add_bmod

/-- The metrics of a heal that is over. -/
def HealWork.metrics (s : HealWork) (elapsedMs : String) : HealingMetrics :=
  ⟨true, wrapInt s.edgesRemoved, wrapInt s.edgesAdded, elapsedMs⟩

/-- `remove_label`: the list left and the number of labels removed. -/
def removeLabel (list : List ℤ) (target : ℤ) : List ℤ × ℤ :=
  let left := list.filter (· ≠ target)
  (left, asInt (list.length - left.length))

namespace HealWork

/-- `ensure_layer_slot(v, L)` -/
def slot (n v L : ℕ) (s : HealWork) : HealWork :=
  { s with adjacency := Index.ensureLayerSlot n s.adjacency v L }

/-- `metrics.edges_removed += remove_label(adjacency_[v][L], target)` -/
def dropLabel (target : ℤ) (v L : ℕ) (s : HealWork) : HealWork :=
  let removed := removeLabel (s.adjacency.nbrs v L) target
  { s with
    adjacency := s.adjacency.put v L removed.1
    edgesRemoved := s.edgesRemoved + removed.2 }

/-- The eviction in `ensure_capacity_for`: `nbrs.erase(far_idx)`, then the edge
back from the evicted label, if it is an index. -/
def evict (n : ℕ) (node : ℤ) (layer farIdx : ℕ) (s : HealWork) : HealWork :=
  let nbrs := s.adjacency.nbrs (asSize node) layer
  let far := nbrs[farIdx]?.getD 0
  let s := { s with
    adjacency := s.adjacency.put (asSize node) layer (nbrs.eraseIdx farIdx)
    edgesRemoved := s.edgesRemoved + 1 }
  if asSize far < n then (s.slot n (asSize far) layer).dropLabel node (asSize far) layer
  else s

end HealWork

namespace Index

/-! ## The locked region -/

/-- `add_unique` -/
def addUnique (ix : Index) (region : List ℤ) (n : ℤ) : List ℤ :=
  if !ix.inRange n then region
  else if n ∈ region then region
  else region ++ [n]

/-- `add_unique` for every label of every list of a node. -/
def addNeighbors (ix : Index) (region : List ℤ) (u : ℤ) : List ℤ :=
  (ix.adjacency.layersOf (asSize u)).flatten.foldl ix.addUnique region

/-- `collect_heal_region_unlocked`: `q`, its out-neighbours, and theirs. -/
def collectHealRegionUnlocked (ix : Index) (q : ℤ) : List ℤ :=
  let oneHop := ix.addNeighbors [q] q
  (oneHop.drop 1).foldl ix.addNeighbors oneHop

/-! ## Degree capacity and insertion -/

section Insert

variable (D : Type) [FloatArith D] (ix : Index)

open FloatArith

/-- `1.0 / (1.0 + d)` -/
def closeness (d : D) : D := div one (add one d)

/-- `navigability_score` -/
def navigabilityScore (adj : Layered ℤ) (node : ℤ) (layer : ℕ) : D :=
  (adj.nbrs (asSize node) layer).foldl (fun score nb =>
    if !ix.inRange nb then score
    else add score (closeness D (ix.distance D node nb))) zero

/-- The furthest neighbour: its index and distance. -/
def furthest (node : ℤ) (nbrs : List ℤ) : ℕ × D :=
  nbrs.zipIdx.foldl (fun far p =>
    let d := ix.distance D node p.1
    if lt far.2 d then (p.2, d) else far) (0, negOne)

/-- `ensure_capacity_for` -/
def ensureCapacityFor (node cand : ℤ) (layer : ℕ) (maxM : ℤ) (s : HealWork) : Bool × HealWork :=
  let n := asSize node
  let s := s.slot ix.numElements n layer
  let nbrs := s.adjacency.nbrs n layer
  if cand ∈ nbrs then (true, s)
  else if asInt nbrs.length < maxM then (true, s)
  else
    let far := ix.furthest D node nbrs
    let distCand := ix.distance D node cand
    if !lt distCand far.2 then (false, s)
    else
      let scoreBefore := ix.navigabilityScore D s.adjacency node layer
      let scoreAfter := add (sub scoreBefore (closeness D far.2)) (closeness D distCand)
      if !lt scoreBefore scoreAfter then (false, s)
      else (true, s.evict ix.numElements node layer far.1)

/-- `commit_half_edge` -/
def commitHalfEdge (node cand : ℤ) (layer : ℕ) (maxM : ℤ) (s : HealWork) : Bool × HealWork :=
  let n := asSize node
  let s := s.slot ix.numElements n layer
  if cand ∈ s.adjacency.nbrs n layer then (true, s)
  else
    let r := ix.ensureCapacityFor D node cand layer maxM s
    let s := r.2
    let nbrs := s.adjacency.nbrs n layer
    if !r.1 then (false, s)
    else if cand ∈ nbrs then (true, s)
    else if maxM ≤ asInt nbrs.length then (false, s)
    else (true, { s with
      adjacency := s.adjacency.put n layer (nbrs ++ [cand])
      edgesAdded := s.edgesAdded + 1 })

/-- The capacity check both endpoints pass before either half is written. -/
def capacityForBoth (u w : ℤ) (layer : ℕ) (maxM : ℤ) (s : HealWork) : Bool × HealWork :=
  let ru := ix.ensureCapacityFor D u w layer maxM s
  if !ru.1 then (false, ru.2) else ix.ensureCapacityFor D w u layer maxM ru.2

/-- `try_insert_healed_edge` -/
def tryInsertHealedEdge (u w : ℤ) (layer : ℕ) (maxM : ℤ) (s : HealWork) : HealWork :=
  let ui := asSize u
  let wi := asSize w
  if u = w then s
  else if ix.numElements ≤ ui ∨ ix.numElements ≤ wi then s
  else
    let s := (s.slot ix.numElements ui layer).slot ix.numElements wi layer
    let uHas := w ∈ s.adjacency.nbrs ui layer
    let wHas := u ∈ s.adjacency.nbrs wi layer
    if uHas ∧ wHas then s
    else
      let r := if ¬ uHas ∧ ¬ wHas then ix.capacityForBoth D u w layer maxM s else (true, s)
      if !r.1 then r.2
      else
        let s := if uHas then r.2 else (ix.commitHalfEdge D u w layer maxM r.2).2
        if wHas then s else (ix.commitHalfEdge D w u layer maxM s).2

/-! ## One layer of the heal loop -/

/-- The distinct in-range neighbours of `q` at a layer, `q` aside. -/
def orphans (adj : Layered ℤ) (q : ℤ) (L : ℕ) : List ℤ :=
  (adj.nbrs (asSize q) L).foldl (fun uniq u => if u = q then uniq else ix.addUnique uniq u) []

/-- Isolation, first loop: drop `q` from the lists of its orphans. -/
def unlinkOrphans (q : ℤ) (L : ℕ) (orphans : List ℤ) (s : HealWork) : HealWork :=
  orphans.foldl (fun s u => (s.slot ix.numElements (asSize u) L).dropLabel q (asSize u) L) s

/-- Isolation: clear `adjacency_[node_id][L]`. -/
def clearLayer (n L : ℕ) (s : HealWork) : HealWork :=
  if L < (s.adjacency.layersOf n).length then
    { s with
      adjacency := s.adjacency.put n L []
      edgesRemoved := s.edgesRemoved + asInt (s.adjacency.nbrs n L).length }
  else s

/-- Isolation, last loop: residual inbound edges, only from the locked region. -/
def unlinkRegion (q : ℤ) (region : List ℤ) (L : ℕ) (s : HealWork) : HealWork :=
  region.foldl (fun s v =>
    if asSize v = asSize q then s
    else if L < (s.adjacency.layersOf (asSize v)).length then s.dropLabel q (asSize v) L
    else s) s

/-- Neighborhood isolation at a layer. -/
def isolate (q : ℤ) (region : List ℤ) (L : ℕ) (s : HealWork) : HealWork :=
  unlinkRegion q region L
    (clearLayer (asSize q) L (ix.unlinkOrphans q L (ix.orphans s.adjacency q L) s))

/-- A pair of orphans and their distance. -/
structure Candidate where
  u : ℤ
  w : ℤ
  dist : D

/-- The order `std::sort` is given. -/
def Candidate.less (a b : Candidate D) : Bool :=
  if !eq a.dist b.dist then lt a.dist b.dist
  else if a.u ≠ b.u then a.u < b.u
  else a.w < b.w

/-- All pairs `i < j` of orphans, in loop order. -/
def candidates : List ℤ → List (Candidate D)
  | [] => []
  | u :: rest => rest.map (fun w => ⟨u, w, ix.distance D u w⟩) ++ candidates rest

/-- `std::sort` of the candidates. -/
def rankedCandidates (orphans : List ℤ) : List (Candidate D) :=
  (ix.candidates D orphans).mergeSort fun a b => !Candidate.less D b a

/-- The body of the layer loop: isolate, then reconnect the orphans. -/
def healLayer (q : ℤ) (region : List ℤ) (maxM : ℤ) (s : HealWork) (L : ℕ) : HealWork :=
  let orphans := ix.orphans s.adjacency q L
  let s := ix.isolate q region L s
  if orphans.length < 2 then s
  else (ix.rankedCandidates D orphans).foldl
    (fun s c => ix.tryInsertHealedEdge D c.u c.w L maxM s) s

/-! ## The whole heal -/

/-- `max_layer_global` -/
def maxLayerGlobal (adj : Layered ℤ) (q : ℤ) (region : List ℤ) : ℕ :=
  region.foldl (fun m n => max m (adj.layersOf (asSize n)).length) (adj.layersOf (asSize q)).length

/-- The last loop: clear every list of `q` that is left. -/
def clearNode (n : ℕ) (s : HealWork) : HealWork :=
  { s with
    adjacency := s.adjacency.modify n fun perNode => perNode.map fun _ => []
    edgesRemoved := s.edgesRemoved + ((s.adjacency.layersOf n).map fun l => asInt l.length).sum }

/-- Entrypoint retirement: the first label that is not `q`, `-1` if there is none. -/
def retireEntrypoint (entrypoint : ℤ) (n : ℕ) : ℤ :=
  if entrypoint = (n : ℤ) then
    match (List.range ix.numElements).find? (· ≠ n) with
    | some i => (i : ℤ)
    | none => -1
  else entrypoint

/-- The heal under the held locks. -/
def healLocked (nodeId : ℕ) (region : List ℤ) (maxM : ℤ) : HealWork :=
  let adj := Layered.resize ix.numElements ix.adjacency
  let q := (nodeId : ℤ)
  clearNode nodeId ((List.range (maxLayerGlobal adj q region)).foldl
    (ix.healLayer D q region maxM) ⟨adj, 0, 0⟩)

/-- The region is collected twice, around the acquisition of its locks; the
locks are taken again if the second collection differs. -/
def lockRegion (env : NativeEnv) (q : ℤ) : Except NativeError (List ℤ) :=
  if !env.acquires .healNode then .error lockTimeout
  else
    let region := ix.collectHealRegionUnlocked q
    if !env.acquires .healRegion then .error lockTimeout
    else
      let region2 := ix.collectHealRegionUnlocked q
      if region2.length ≠ region.length ∨ ¬ region.isPerm region2 then
        if !env.acquires .healRegrown then .error lockTimeout else .ok region2
      else .ok region

/-- `heal_graph_structure` -/
def healGraphStructure (env : NativeEnv) (nodeId : ℕ) (maxM : ℤ) :
    Except NativeError HealingMetrics × Index :=
  if maxM ≤ 0 then
    (.error ⟨.invalidArgument, s!"heal_graph_structure: max_m must be positive, got {maxM}"⟩, ix)
  else if !ix.isLoaded then
    (.error ⟨.logicError, "heal_graph_structure: no index loaded; call load_index first"⟩, ix)
  else if ix.numElements ≤ nodeId then
    (.error ⟨.outOfRange, s!"heal_graph_structure: node_id {nodeId} out of range [0, {ix.numElements})"⟩, ix)
  else match ix.lockRegion env nodeId with
    | .error e => (.error e, ix)
    | .ok region =>
      let s := ix.healLocked D nodeId region maxM
      (.ok (s.metrics env.elapsedMs),
        { ix with
          adjacency := s.adjacency
          entrypoint := ix.retireEntrypoint ix.entrypoint nodeId })

/-- `erase_node`: wipe the row, then heal. -/
def eraseNode (env : NativeEnv) (nodeId maxM : ℤ) : Except NativeError ErasureResult × Index :=
  match ix.overwriteVector env nodeId with
  | (.error e, ix) => (.error e, ix)
  | (.ok (), ix) =>
    match ix.healGraphStructure D env (asSize nodeId) maxM with
    | (.error e, ix) => (.error e, ix)
    | (.ok hm, ix) => (.ok
        { success := hm.success
          nodeId := nodeId
          bytesWiped := sizeMul ix.dim 4
          message := s!"vector zeroed; graph healed (removed={hm.edgesRemoved}, added={hm.edgesAdded}, {hm.repairDurationMs} ms)" }, ix)

end Insert

/-! ## A rule for insertions -/

/-- **A relation that insertions respect**: it contains what an insertion is made of, the slots,
the capacity checks and the appended label, and it composes. `P` says which labels may be offered
to which. -/
structure Composes (D : Type) [FloatArith D] (ix : Index) (layer : ℕ) (maxM : ℤ)
    (P : ℤ → ℤ → Prop) (R : Layered ℤ → Layered ℤ → Prop) : Prop where
  refl : ∀ g, R g g
  trans : ∀ {g g' g''}, R g g' → R g' g'' → R g g''
  slot : ∀ (v : ℕ) (s : HealWork), R s.adjacency (s.slot ix.numElements v layer).adjacency
  capacity : ∀ {node cand}, P node cand → ∀ s,
    R s.adjacency (ix.ensureCapacityFor D node cand layer maxM s).2.adjacency
  append : ∀ {node cand}, P node cand → ∀ g, cand ∉ g.nbrs (asSize node) layer →
    R g (g.put (asSize node) layer (g.nbrs (asSize node) layer ++ [cand]))

namespace Composes

variable {D : Type} [FloatArith D] {ix : Index} {layer : ℕ} {maxM : ℤ} {P : ℤ → ℤ → Prop}
  {R : Layered ℤ → Layered ℤ → Prop} {u w : ℤ}

theorem commitHalfEdge (h : Composes D ix layer maxM P R) (hp : P u w) (s : HealWork) :
    R s.adjacency (ix.commitHalfEdge D u w layer maxM s).2.adjacency := by
  have hslot := h.slot (asSize u) s
  have hroom := h.trans hslot (h.capacity hp (s.slot ix.numElements (asSize u) layer))
  simp only [Index.commitHalfEdge]
  split
  · exact hslot
  · split
    · exact hroom
    · split
      · exact hroom
      · rename_i hnot
        split
        · exact hroom
        · exact h.trans hroom (h.append hp _ hnot)

theorem capacityForBoth (h : Composes D ix layer maxM P R) (hp : P u w) (hp' : P w u)
    (s : HealWork) : R s.adjacency (ix.capacityForBoth D u w layer maxM s).2.adjacency := by
  have hfirst := h.capacity hp s
  simp only [Index.capacityForBoth]
  split
  · exact hfirst
  · exact h.trans hfirst (h.capacity hp' _)

/-- **One insertion** respects the relation. -/
theorem tryInsertHealedEdge (h : Composes D ix layer maxM P R) (hp : u ≠ w → P u w ∧ P w u)
    (s : HealWork) : R s.adjacency (ix.tryInsertHealedEdge D u w layer maxM s).adjacency := by
  simp only [Index.tryInsertHealedEdge]
  split
  · exact h.refl _
  · rename_i hne
    obtain ⟨huw, hwu⟩ := hp hne
    split
    · exact h.refl _
    · have hslots := h.trans (h.slot (asSize u) s)
        (h.slot (asSize w) (s.slot ix.numElements (asSize u) layer))
      split
      · exact hslots
      · refine h.trans hslots ?_
        generalize
          (s.slot ix.numElements (asSize u) layer).slot ix.numElements (asSize w) layer = t
        obtain ⟨r, hr⟩ : ∃ r, r = if ¬ w ∈ t.adjacency.nbrs (asSize u) layer ∧
            ¬ u ∈ t.adjacency.nbrs (asSize w) layer
          then ix.capacityForBoth D u w layer maxM t else (true, t) := ⟨_, rfl⟩
        have hcap : R t.adjacency r.2.adjacency := by
          rw [hr]
          split
          · exact h.capacityForBoth huw hwu t
          · exact h.refl _
        rw [← hr]
        split
        · exact hcap
        · refine h.trans hcap ?_
          -- the two half edges, each written only where it is missing
          split <;> split
          · exact h.refl _
          · exact h.commitHalfEdge huw _
          · exact h.commitHalfEdge hwu _
          · exact h.trans (h.commitHalfEdge huw _) (h.commitHalfEdge hwu _)

end Composes

/-! ## The heal loop only prunes the erased label -/

section Pruning

variable {D : Type} [FloatArith D] {ix : Index} {n : ℕ} {O : Set ℕ}

open Layered (Prunes)

@[simp] theorem nbrs_ensureLayerSlot (N : ℕ) (adj : Layered ℤ) (v L w K : ℕ) :
    (ensureLayerSlot N adj v L).nbrs w K = adj.nbrs w K := by
  rw [ensureLayerSlot, Layered.nbrs_slot, Layered.nbrs_resize]

theorem prunes_slot (N v L : ℕ) (s : HealWork) :
    Prunes (n : ℤ) n O s.adjacency (s.slot N v L).adjacency :=
  .of_nbrs_eq fun w K => nbrs_ensureLayerSlot N s.adjacency v L w K

theorem nbrs_dropLabel (t : ℤ) (v L : ℕ) (s : HealWork) (w K : ℕ) :
    (s.dropLabel t v L).adjacency.nbrs w K =
      if w = v ∧ K = L then (s.adjacency.nbrs v L).filter (· ≠ t) else s.adjacency.nbrs w K :=
  Layered.nbrs_put_map (f := fun l => l.filter (· ≠ t)) rfl s.adjacency v L w K

/-- Dropping a label prunes `n` if it is another label, or the node is in `O`. -/
theorem prunes_dropLabel {t : ℤ} {v : ℕ} (h : t ≠ n ∨ v ∈ O) (L : ℕ) (s : HealWork) :
    Prunes (n : ℤ) n O s.adjacency (s.dropLabel t v L).adjacency := by
  refine .put_subset (fun _ hx => (List.mem_filter.mp hx).1) ?_
  rcases h with ht | hv
  · exact Or.inr fun hx => List.mem_filter.mpr ⟨hx, by simpa using ht.symm⟩
  · exact Or.inl hv

/-- A label whose lists the heal of `n` may rewrite. -/
structure IsOrphan (n : ℕ) (O : Set ℕ) (u : ℤ) : Prop where
  label_ne : u ≠ n
  node_ne : asSize u ≠ n
  mem : asSize u ∈ O

theorem prunes_evict {node : ℤ} (h : IsOrphan n O node) (N layer farIdx : ℕ) (s : HealWork) :
    Prunes (n : ℤ) n O s.adjacency (s.evict N node layer farIdx).adjacency := by
  unfold HealWork.evict
  dsimp only
  generalize hs : HealWork.mk (s.adjacency.put (asSize node) layer _) _ _ = s₁
  have herase : Prunes (n : ℤ) n O s.adjacency s₁.adjacency := by
    rw [← hs]
    exact .put_subset (List.eraseIdx_subset) (Or.inl h.mem)
  split
  · exact herase.trans
      ((prunes_slot N _ layer s₁).trans (prunes_dropLabel (Or.inl h.label_ne) layer _))
  · exact herase

theorem prunes_ensureCapacityFor (ix : Index) {node : ℤ} (h : IsOrphan n O node) (cand : ℤ)
    (layer : ℕ) (maxM : ℤ) (s : HealWork) :
    Prunes (n : ℤ) n O s.adjacency (ix.ensureCapacityFor D node cand layer maxM s).2.adjacency := by
  have hslot := prunes_slot (n := n) (O := O) ix.numElements (asSize node) layer s
  unfold ensureCapacityFor
  dsimp only
  split
  · exact hslot
  · split
    · exact hslot
    · split
      · exact hslot
      · split
        · exact hslot
        · exact hslot.trans (prunes_evict h ix.numElements layer _ _)

/-- Pruning is respected by insertions between orphans. -/
theorem composes_prunes (ix : Index) (layer : ℕ) (maxM : ℤ) :
    Composes D ix layer maxM (fun node cand => IsOrphan n O node ∧ IsOrphan n O cand)
      (Prunes (n : ℤ) n O) where
  refl := .refl
  trans := .trans
  slot v s := prunes_slot ix.numElements v layer s
  capacity hp s := prunes_ensureCapacityFor ix hp.1 _ layer maxM s
  append {node cand} hp g _ := by
    refine .put (fun y hy => ?_) (Or.inl hp.1.mem)
    rcases List.mem_append.mp hy with hold | hnew
    · exact Or.inl hold
    · rw [List.mem_singleton.mp hnew]
      exact Or.inr ⟨hp.1.node_ne, hp.2.label_ne⟩

/-! ## Isolation and the layer loop -/

theorem mem_addUnique {region : List ℤ} {u x : ℤ} :
    x ∈ ix.addUnique region u ↔ x ∈ region ∨ (ix.inRange x = true ∧ x = u) := by
  unfold addUnique
  by_cases hr : ix.inRange u = true
  · rw [if_neg (by simp [hr])]
    by_cases hu : u ∈ region
    · rw [if_pos hu]
      exact ⟨Or.inl, fun h => h.elim id fun hx => hx.2 ▸ hu⟩
    · rw [if_neg hu, List.mem_append, List.mem_singleton]
      exact or_congr_right ⟨fun hx => ⟨hx ▸ hr, hx⟩, fun hx => hx.2⟩
  · rw [if_pos (by simpa using hr)]
    exact ⟨Or.inl, fun h => h.elim id fun hx => absurd (hx.2 ▸ hx.1) hr⟩

theorem mem_foldl_addUnique {l region : List ℤ} {x : ℤ} :
    x ∈ l.foldl ix.addUnique region ↔ x ∈ region ∨ (ix.inRange x = true ∧ x ∈ l) := by
  induction l generalizing region with
  | nil => simp
  | cons u rest ih =>
    rw [List.foldl_cons, ih, mem_addUnique, List.mem_cons]
    tauto

/-- An orphan is a label of `q`'s list, in range, and not `q`. -/
theorem mem_orphans {adj : Layered ℤ} {q u : ℤ} {L : ℕ} (h : u ∈ ix.orphans adj q L) :
    u ≠ q ∧ ix.inRange u = true ∧ u ∈ adj.nbrs (asSize q) L := by
  have hall : ∀ v ∈ ix.orphans adj q L,
      v ≠ q ∧ ix.inRange v = true ∧ v ∈ adj.nbrs (asSize q) L := by
    unfold orphans
    refine List.foldlRecOn (motive := fun uniq => ∀ v ∈ uniq, v ≠ q ∧ ix.inRange v = true ∧
      v ∈ adj.nbrs (asSize q) L) (adj.nbrs (asSize q) L) _ (by simp) ?_
    intro uniq ih u hu v hv
    split at hv
    · exact ih v hv
    · rename_i hne
      rcases mem_addUnique.mp hv with hold | ⟨hr, rfl⟩
      · exact ih v hold
      · exact ⟨hne, hr, hu⟩
  exact hall u h

theorem inRange_iff {x : ℤ} : ix.inRange x = true ↔ ∃ v : ℕ, x = v ∧ v < ix.numElements := by
  rw [inRange, Bool.and_eq_true, decide_eq_true_iff, decide_eq_true_iff]
  constructor
  · rintro ⟨h0, hlt⟩
    rw [asSize_of_nonneg h0] at hlt
    exact ⟨x.toNat, (Int.toNat_of_nonneg h0).symm, hlt⟩
  · rintro ⟨v, rfl, hv⟩
    exact ⟨Int.natCast_nonneg v, by rwa [asSize_natCast]⟩

/-- The nodes of a list of labels. -/
def nodesOf (region : List ℤ) : Set ℕ := {v | (v : ℤ) ∈ region}

/-- Orphans that lie in the region are labels the heal may rewrite. -/
theorem isOrphan_of_mem {adj : Layered ℤ} {region : List ℤ} {L : ℕ} {u : ℤ}
    (hreg : ∀ x ∈ adj.nbrs n L, ix.inRange x = true → x ∈ region)
    (h : u ∈ ix.orphans adj n L) : IsOrphan n (nodesOf region) u := by
  obtain ⟨hne, hr, hmem⟩ := mem_orphans h
  obtain ⟨v, rfl, hv⟩ := inRange_iff.mp hr
  rw [asSize_natCast] at hmem
  refine ⟨hne, ?_, ?_⟩
  · rw [asSize_natCast]
    exact_mod_cast hne
  · rw [asSize_natCast]
    exact hreg _ hmem hr

theorem prunes_unlinkOrphans {orphans : List ℤ} (h : ∀ u ∈ orphans, IsOrphan n O u) (L : ℕ)
    (s : HealWork) :
    Prunes (n : ℤ) n O s.adjacency (ix.unlinkOrphans n L orphans s).adjacency := by
  refine List.foldlRecOn (motive := fun t : HealWork =>
    Prunes (n : ℤ) n O s.adjacency t.adjacency) orphans _ (.refl _) ?_
  intro t ih u hu
  exact ih.trans ((prunes_slot _ _ _ t).trans (prunes_dropLabel (Or.inr (h u hu).mem) L _))

theorem prunes_clearLayer (hn : n ∈ O) (L : ℕ) (s : HealWork) :
    Prunes (n : ℤ) n O s.adjacency (clearLayer n L s).adjacency := by
  unfold clearLayer
  split
  · exact .put_subset (List.nil_subset _) (Or.inl hn)
  · exact .refl _

theorem mem_nodesOf {region : List ℤ} {v : ℕ} : v ∈ nodesOf region ↔ (v : ℤ) ∈ region := Iff.rfl

/-- A region made of node labels. -/
def Labels (region : List ℤ) : Prop := ∀ x ∈ region, ∃ v : ℕ, x = v

theorem prunes_unlinkRegion {region : List ℤ} (hlab : Labels region) (L : ℕ) (s : HealWork) :
    Prunes (n : ℤ) n (nodesOf region) s.adjacency (unlinkRegion n region L s).adjacency := by
  refine List.foldlRecOn (motive := fun t : HealWork =>
    Prunes (n : ℤ) n (nodesOf region) s.adjacency t.adjacency) region _ (.refl _) ?_
  intro t ih x hx
  obtain ⟨v, rfl⟩ := hlab x hx
  rw [asSize_natCast, asSize_natCast]
  split
  · exact ih
  · split
    · exact ih.trans (prunes_dropLabel (Or.inr hx) L t)
    · exact ih

/-- After the region loop no other node of the region lists `n` at this layer. -/
theorem not_mem_unlinkRegion {region : List ℤ} (hlab : Labels region) (L : ℕ) (s : HealWork) {v : ℕ}
    (hv : v ∈ nodesOf region) (hne : v ≠ n) :
    (n : ℤ) ∉ (unlinkRegion n region L s).adjacency.nbrs v L := by
  induction region generalizing s with
  | nil => cases hv
  | cons x rest ih =>
    have hrest : Labels rest := fun y hy => hlab y (List.mem_cons_of_mem x hy)
    rw [unlinkRegion, List.foldl_cons]
    rcases List.mem_cons.mp hv with rfl | htail
    · -- dropped here, and nothing later brings it back
      refine fun hmem => absurd ((prunes_unlinkRegion hrest L _).mem_of_mem hmem) ?_
      rw [asSize_natCast, asSize_natCast, if_neg hne]
      split
      · rw [nbrs_dropLabel, if_pos ⟨rfl, rfl⟩]
        simp
      · rename_i hL
        rw [Layered.nbrs, List.getElem?_eq_none (by omega)]
        exact List.not_mem_nil
    · exact ih hrest _ htail

/-- Every label `q`'s list holds and that is in range is in the region. -/
def CoversAt (ix : Index) (n : ℕ) (region : List ℤ) (adj : Layered ℤ) : Prop :=
  ∀ L, ∀ x ∈ adj.nbrs n L, ix.inRange x = true → x ∈ region

theorem prunes_isolate {region : List ℤ} {s : HealWork} (hn : n ∈ nodesOf region)
    (hlab : Labels region) (hcov : CoversAt ix n region s.adjacency) (L : ℕ) :
    Prunes (n : ℤ) n (nodesOf region) s.adjacency (ix.isolate n region L s).adjacency := by
  unfold isolate
  rw [asSize_natCast]
  exact (prunes_unlinkOrphans (fun u hu => isOrphan_of_mem (hcov L) hu) L s).trans
    ((prunes_clearLayer hn L _).trans (prunes_unlinkRegion hlab L _))

theorem mem_candidates {orphans : List ℤ} {c : Candidate D} (h : c ∈ ix.candidates D orphans) :
    c.u ∈ orphans ∧ c.w ∈ orphans := by
  induction orphans with
  | nil => cases h
  | cons u rest ih =>
    rcases List.mem_append.mp h with hhead | htail
    · obtain ⟨w, hw, rfl⟩ := List.mem_map.mp hhead
      exact ⟨List.mem_cons_self, List.mem_cons_of_mem u hw⟩
    · obtain ⟨hu, hw⟩ := ih htail
      exact ⟨List.mem_cons_of_mem u hu, List.mem_cons_of_mem u hw⟩

/-- The insertions of a layer prune too. -/
theorem prunes_insertions (ix : Index) {orphans : List ℤ} (h : ∀ u ∈ orphans, IsOrphan n O u)
    (L : ℕ) (maxM : ℤ) (s : HealWork) :
    Prunes (n : ℤ) n O s.adjacency ((ix.rankedCandidates D orphans).foldl
      (fun s c => ix.tryInsertHealedEdge D c.u c.w L maxM s) s).adjacency := by
  refine List.foldlRecOn (motive := fun t : HealWork =>
    Prunes (n : ℤ) n O s.adjacency t.adjacency) (ix.rankedCandidates D orphans) _ (.refl _) ?_
  intro t ih c hc
  obtain ⟨hu, hw⟩ := mem_candidates (List.mem_mergeSort.mp hc)
  exact ih.trans ((composes_prunes ix L maxM).tryInsertHealedEdge
    (fun _ => ⟨⟨h _ hu, h _ hw⟩, h _ hw, h _ hu⟩) t)

/-- **One layer.** The layer is pruned, and within the region it no longer lists `n`. -/
theorem healLayer_spec {region : List ℤ} {s : HealWork} (hn : n ∈ nodesOf region)
    (hlab : Labels region) (hcov : CoversAt ix n region s.adjacency) (maxM : ℤ) (L : ℕ) :
    Prunes (n : ℤ) n (nodesOf region) s.adjacency
        (ix.healLayer D n region maxM s L).adjacency ∧
      ∀ v ∈ nodesOf region, v ≠ n →
        (n : ℤ) ∉ (ix.healLayer D n region maxM s L).adjacency.nbrs v L := by
  have hiso := prunes_isolate hn hlab hcov L
  have hgone : ∀ v ∈ nodesOf region, v ≠ n →
      (n : ℤ) ∉ (ix.isolate n region L s).adjacency.nbrs v L :=
    fun v hv hne => not_mem_unlinkRegion hlab L _ hv hne
  unfold healLayer
  dsimp only
  split
  · exact ⟨hiso, hgone⟩
  · have hins := prunes_insertions (D := D) ix
      (fun u hu => isOrphan_of_mem (hcov L) hu) L maxM (ix.isolate n region L s)
    exact ⟨hiso.trans hins, fun v hv hne hmem => hgone v hv hne (hins.mem_of_mem hmem)⟩

/-- **The layer loop**, by induction on the number of layers done. -/
theorem healLayers_spec {region : List ℤ} {s : HealWork} (hn : n ∈ nodesOf region)
    (hlab : Labels region) (hcov : CoversAt ix n region s.adjacency) (maxM : ℤ) (k : ℕ) :
    Prunes (n : ℤ) n (nodesOf region) s.adjacency
        ((List.range k).foldl (ix.healLayer D n region maxM) s).adjacency ∧
      ∀ v ∈ nodesOf region, v ≠ n → ∀ L < k,
        (n : ℤ) ∉ ((List.range k).foldl (ix.healLayer D n region maxM) s).adjacency.nbrs v L := by
  induction k with
  | zero => exact ⟨.refl _, fun v _ _ L hL => absurd hL (Nat.not_lt_zero L)⟩
  | succ k ih =>
    obtain ⟨hpr, hgone⟩ := ih
    rw [List.range_succ, List.foldl_append, List.foldl_cons, List.foldl_nil]
    -- the list of `n` only shrank, so the region still covers it
    have hcov' : CoversAt ix n region
        ((List.range k).foldl (ix.healLayer D n region maxM) s).adjacency :=
      fun L x hx hr => hcov L x (hpr.subset_at hx) hr
    obtain ⟨hstep, hgone'⟩ := healLayer_spec (D := D) hn hlab hcov' maxM k
    refine ⟨hpr.trans hstep, fun v hv hne L hL hmem => ?_⟩
    rcases Nat.lt_succ_iff_lt_or_eq.mp hL with hlt | rfl
    · exact hgone v hv hne L hlt (hstep.mem_of_mem hmem)
    · exact hgone' v hv hne hmem

end Pruning

end Index

end Unlearning
