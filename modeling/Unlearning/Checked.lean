import Unlearning.HealSteps
import Unlearning.IndexFile

/-!
# The heal and the save with every index checked (`src/hnsw_helper.hpp`)

The C++ code indexes rows and lists without a check; the functional model reads an empty list
where there is none. Here are `heal_graph_structure` and `save_to_file` once more, in `Option`:
`none` as soon as an index that the source does not test is outside. `HealSteps` is about what
these functions do, this module about the fact that on a well-formed index they never go
outside: the checked function answers, and answers what the model says.

`Sized` is the invariant of the heal loop; each lemma here says of one function that it stays
inside and keeps `Sized`.
-/

namespace Unlearning

/-- A loop in `Option` that never fails, with an invariant. -/
theorem foldlM_eq_some {α β : Type} {f : β → α → Option β} {g : β → α → β} {I : β → Prop}
    {l : List α} {b : β} (hb : I b)
    (hstep : ∀ b, I b → ∀ a ∈ l, f b a = some (g b a) ∧ I (g b a)) :
    l.foldlM f b = some (l.foldl g b) ∧ I (l.foldl g b) := by
  induction l generalizing b with
  | nil => exact ⟨rfl, hb⟩
  | cons a rest ih =>
    obtain ⟨heq, hI⟩ := hstep b hb a List.mem_cons_self
    rw [List.foldlM_cons, heq]
    exact ih hI fun b hb a ha => hstep b hb a (List.mem_cons_of_mem _ ha)

/-- If no call fails, `mapM` is `map`. -/
theorem mapM_eq_some {α β : Type} {f : α → Option β} {g : α → β} {l : List α}
    (h : ∀ a ∈ l, f a = some (g a)) : l.mapM f = some (l.map g) := by
  induction l with
  | nil => rfl
  | cons a rest ih =>
    rw [List.mapM_cons, h a List.mem_cons_self,
      ih fun a ha => h a (List.mem_cons_of_mem _ ha)]
    rfl

namespace Checked

/-! ## Accesses -/

/-- `adjacency_[v][L]` -/
def list (adj : Layered ℤ) (v L : ℕ) : Option (List ℤ) := adj[v]?.bind (·[L]?)

/-- `adjacency_[v].size()` -/
def layers (adj : Layered ℤ) (v : ℕ) : Option ℕ := adj[v]?.map List.length

/-- `adjacency_[v][L]` if the node has that layer. -/
def listIfAny (adj : Layered ℤ) (v L : ℕ) : Option (List ℤ) := do
  let count ← layers adj v
  if L < count then list adj v L else pure []

/-- The row of a node, all `dim` words of it. -/
def row (ix : Index) (node : ℤ) : Option (List UInt32) :=
  if asSize node * ix.dim + ix.dim ≤ ix.words.length then some (ix.vectorPtr (asSize node))
  else none

/-- `ensure_layer_slot` -/
def slot (n v L : ℕ) (s : HealWork) : Option HealWork :=
  if v < (Layered.resize n s.adjacency).length then some (s.slot n v L) else none

/-- `remove_label(adjacency_[v][L], target)` -/
def dropLabel (target : ℤ) (v L : ℕ) (s : HealWork) : Option HealWork := do
  let _ ← list s.adjacency v L
  pure (s.dropLabel target v L)

section Heal

variable (D : Type) [FloatArith D] (ix : Index)

open FloatArith

/-- `distance` -/
def distance (a b : ℤ) : Option D := do
  let pa ← row ix a
  let pb ← row ix b
  pure (Index.l2Distance D pa pb ix.dim)

/-- The loop that finds the furthest neighbour. -/
def furthest (node : ℤ) (nbrs : List ℤ) : Option (ℕ × D) :=
  nbrs.zipIdx.foldlM (fun far p => do
    let d ← distance D ix node p.1
    pure (if lt far.2 d then (p.2, d) else far)) (0, negOne)

/-- `navigability_score`; its two accesses to the adjacency are tested. -/
def navigabilityScore (adj : Layered ℤ) (node : ℤ) (layer : ℕ) : Option D :=
  (adj.nbrs (asSize node) layer).foldlM (fun score nb =>
    if !ix.inRange nb then pure score
    else do
      let d ← distance D ix node nb
      pure (add score (Index.closeness D d))) zero

/-- The eviction of `ensure_capacity_for`. -/
def evict (n : ℕ) (node : ℤ) (layer farIdx : ℕ) (s : HealWork) : Option HealWork := do
  let nbrs ← list s.adjacency (asSize node) layer
  let far ← nbrs[farIdx]?
  let s := { s with
    adjacency := s.adjacency.put (asSize node) layer (nbrs.eraseIdx farIdx)
    edgesRemoved := s.edgesRemoved + 1 }
  if asSize far < n then
    let s ← slot n (asSize far) layer s
    dropLabel node (asSize far) layer s
  else pure s

/-- `ensure_capacity_for` -/
def ensureCapacityFor (node cand : ℤ) (layer : ℕ) (maxM : ℤ) (s : HealWork) :
    Option (Bool × HealWork) := do
  let s ← slot ix.numElements (asSize node) layer s
  let nbrs ← list s.adjacency (asSize node) layer
  if cand ∈ nbrs then pure (true, s)
  else if asInt nbrs.length < maxM then pure (true, s)
  else
    let far ← furthest D ix node nbrs
    let distCand ← distance D ix node cand
    if !lt distCand far.2 then pure (false, s)
    else
      let _ ← nbrs[far.1]?
      let scoreBefore ← navigabilityScore D ix s.adjacency node layer
      let scoreAfter := add (sub scoreBefore (Index.closeness D far.2))
        (Index.closeness D distCand)
      if !lt scoreBefore scoreAfter then pure (false, s)
      else
        let s ← evict ix.numElements node layer far.1 s
        pure (true, s)

/-- `commit_half_edge` -/
def commitHalfEdge (node cand : ℤ) (layer : ℕ) (maxM : ℤ) (s : HealWork) :
    Option (Bool × HealWork) := do
  let s ← slot ix.numElements (asSize node) layer s
  let nbrs ← list s.adjacency (asSize node) layer
  if cand ∈ nbrs then pure (true, s)
  else
    let (fits, s) ← ensureCapacityFor D ix node cand layer maxM s
    let nbrs ← list s.adjacency (asSize node) layer
    if !fits then pure (false, s)
    else if cand ∈ nbrs then pure (true, s)
    else if maxM ≤ asInt nbrs.length then pure (false, s)
    else pure (true, { s with
      adjacency := s.adjacency.put (asSize node) layer (nbrs ++ [cand])
      edgesAdded := s.edgesAdded + 1 })

/-- The two capacity checks of `try_insert_healed_edge`. -/
def capacityForBoth (u w : ℤ) (layer : ℕ) (maxM : ℤ) (s : HealWork) :
    Option (Bool × HealWork) := do
  let (fits, s) ← ensureCapacityFor D ix u w layer maxM s
  if !fits then pure (false, s) else ensureCapacityFor D ix w u layer maxM s

/-- The capacity checks, made if both halves are missing. -/
def reserve (uHas wHas : Prop) [Decidable uHas] [Decidable wHas] (u w : ℤ) (layer : ℕ) (maxM : ℤ)
    (s : HealWork) : Option (Bool × HealWork) :=
  if ¬ uHas ∧ ¬ wHas then capacityForBoth D ix u w layer maxM s else pure (true, s)

/-- A half edge, written if it is missing. -/
def commitMissing (has : Prop) [Decidable has] (node cand : ℤ) (layer : ℕ) (maxM : ℤ)
    (s : HealWork) : Option HealWork :=
  if has then pure s else (commitHalfEdge D ix node cand layer maxM s).map Prod.snd

/-- `try_insert_healed_edge` -/
def tryInsertHealedEdge (u w : ℤ) (layer : ℕ) (maxM : ℤ) (s : HealWork) : Option HealWork :=
  if u = w then pure s
  else if ix.numElements ≤ asSize u ∨ ix.numElements ≤ asSize w then pure s
  else do
    let s ← slot ix.numElements (asSize u) layer s
    let s ← slot ix.numElements (asSize w) layer s
    let ofU ← list s.adjacency (asSize u) layer
    let ofW ← list s.adjacency (asSize w) layer
    if w ∈ ofU ∧ u ∈ ofW then pure s
    else
      let (fits, s) ← reserve D ix (w ∈ ofU) (u ∈ ofW) u w layer maxM s
      if !fits then pure s
      else
        let s ← commitMissing D ix (w ∈ ofU) u w layer maxM s
        commitMissing D ix (u ∈ ofW) w u layer maxM s

/-! ## The layer loop -/

/-- The orphans of a layer. -/
def orphans (adj : Layered ℤ) (q : ℤ) (L : ℕ) : Option (List ℤ) := do
  let nbrs ← listIfAny adj (asSize q) L
  pure (nbrs.foldl (fun uniq u => if u = q then uniq else ix.addUnique uniq u) [])

/-- Isolation, first loop. -/
def unlinkOrphans (q : ℤ) (L : ℕ) (orphans : List ℤ) (s : HealWork) : Option HealWork :=
  orphans.foldlM (fun s u => do
    let s ← slot ix.numElements (asSize u) L s
    dropLabel q (asSize u) L s) s

/-- Isolation: clear `adjacency_[node_id][L]`. -/
def clearLayer (n L : ℕ) (s : HealWork) : Option HealWork := do
  let count ← layers s.adjacency n
  if L < count then
    let nbrs ← list s.adjacency n L
    pure { s with
      adjacency := s.adjacency.put n L []
      edgesRemoved := s.edgesRemoved + asInt nbrs.length }
  else pure s

/-- Isolation, last loop: the source does not test that a region label is an index. -/
def unlinkRegion (q : ℤ) (region : List ℤ) (L : ℕ) (s : HealWork) : Option HealWork :=
  region.foldlM (fun s v =>
    if asSize v = asSize q then pure s
    else do
      let count ← layers s.adjacency (asSize v)
      if L < count then dropLabel q (asSize v) L s else pure s) s

/-- All pairs `i < j` of orphans. -/
def candidates : List ℤ → Option (List (Index.Candidate D))
  | [] => pure []
  | u :: rest => do
    let first ← rest.mapM fun w => (distance D ix u w).map (Index.Candidate.mk u w)
    let others ← candidates rest
    pure (first ++ others)

/-- The body of the layer loop. -/
def healLayer (q : ℤ) (region : List ℤ) (maxM : ℤ) (s : HealWork) (L : ℕ) : Option HealWork := do
  let orphans ← orphans ix s.adjacency q L
  let s ← unlinkOrphans ix q L orphans s
  let s ← clearLayer (asSize q) L s
  let s ← unlinkRegion q region L s
  if orphans.length < 2 then pure s
  else
    let candidates ← candidates D ix orphans
    (candidates.mergeSort fun a b => !Index.Candidate.less D b a).foldlM
      (fun s c => tryInsertHealedEdge D ix c.u c.w L maxM s) s

/-- The heal under the held locks. -/
def healLocked (nodeId : ℕ) (region : List ℤ) (maxM : ℤ) : Option HealWork := do
  let adj := Layered.resize ix.numElements ix.adjacency
  let _ ← layers adj nodeId
  let s ← (List.range (Index.maxLayerGlobal adj nodeId region)).foldlM
    (healLayer D ix nodeId region maxM) ⟨adj, 0, 0⟩
  let _ ← layers s.adjacency nodeId
  pure (Index.clearNode nodeId s)

/-- `heal_graph_structure` -/
def healGraphStructure (env : NativeEnv) (nodeId : ℕ) (maxM : ℤ) :
    Option (Except NativeError HealingMetrics × Index) :=
  if maxM ≤ 0 then
    pure (.error ⟨.invalidArgument, s!"heal_graph_structure: max_m must be positive, got {maxM}"⟩, ix)
  else if !ix.isLoaded then
    pure (.error ⟨.logicError, "heal_graph_structure: no index loaded; call load_index first"⟩, ix)
  else if ix.numElements ≤ nodeId then
    pure (.error ⟨.outOfRange, s!"heal_graph_structure: node_id {nodeId} out of range [0, {ix.numElements})"⟩, ix)
  else match ix.lockRegion env nodeId with
    | .error e => pure (.error e, ix)
    | .ok region => do
      let s ← healLocked D ix nodeId region maxM
      pure (.ok (s.metrics env.elapsedMs),
        { ix with
          adjacency := s.adjacency
          entrypoint := ix.retireEntrypoint ix.entrypoint nodeId })

end Heal

/-! ## The save -/

/-- One node of the file: the layers counted in `uint32`, each read by its index. -/
def encodeNode (adj : Layered ℤ) (node : ℕ) : Option (List UInt8) := do
  let count ← if node < adj.length then layers adj node else pure 0
  let lists ← (List.range (count % 2 ^ 32)).mapM (list adj node)
  pure (leBytes 4 count ++ lists.flatMap Index.encodeList)

/-- `save_to_file` -/
def saveToFile (ix : Index) : Option (Except NativeError (List UInt8)) :=
  if !ix.isLoaded then
    pure (.error ⟨.logicError, "save_to_file: no index loaded; call load_index first"⟩)
  else do
    let total := sizeMul ix.numElements ix.dim
    let payload ← if total ≤ ix.words.length then some (ix.words.take total) else none
    let nodes ← (List.range ix.numElements).mapM (encodeNode ix.adjacency)
    pure (.ok (Index.fileMagic ++ (leBytes 4 1 ++ (leBytes 8 ix.numElements ++
      (leBytes 8 ix.dim ++ (leBytes 8 (i64Bits ix.entrypoint) ++
      (payload.flatMap (fun w => leBytes 4 w.toNat) ++ nodes.flatten)))))))

/-! ## The invariant of the loop -/

/-- One entry for each node, and every label in range. -/
structure Sized (N : ℕ) (adj : Layered ℤ) : Prop where
  nodes : adj.length = N
  labels : Index.LabelsIn N adj

/-- A change that keeps `Sized` and takes no list away. -/
structure Inside (N : ℕ) (adj adj' : Layered ℤ) : Prop where
  sized : Sized N adj'
  grows : ∀ v, (adj.layersOf v).length ≤ (adj'.layersOf v).length

section Invariant

variable {N : ℕ} {adj adj' adj'' : Layered ℤ} {v L : ℕ}

/-- A graph of the right size is inside itself. -/
theorem Sized.inside (h : Sized N adj) : Inside N adj adj := ⟨h, fun _ => le_rfl⟩

/-- Inside by way of a third. -/
theorem Inside.trans (h : Inside N adj adj') (h' : Inside N adj' adj'') : Inside N adj adj'' :=
  ⟨h'.sized, fun v => (h.grows v).trans (h'.grows v)⟩

/-- The list that is there is the one the model reads. -/
theorem list_eq_some (hL : L < (adj.layersOf v).length) : list adj v L = some (adj.nbrs v L) := by
  rw [list, Layered.nbrs, Layered.layersOf]
  rw [Layered.layersOf] at hL
  rcases hv : adj[v]? with _ | perNode
  · simp [hv] at hL
  · rw [hv, Option.getD_some] at hL
    simp [hL]

/-- The layers of a node that there is can be read. -/
theorem layers_eq_some (hv : v < adj.length) :
    layers adj v = some (adj.layersOf v).length := by
  simp [layers, Layered.layersOf, hv]

/-- `ensure_layer_slot` grows one node. -/
theorem layersOf_ensureLayerSlot (h : Sized N adj) (hv : v < N) (w : ℕ) :
    ((Index.ensureLayerSlot N adj v L).layersOf w).length =
      if w = v then max (adj.layersOf v).length (L + 1) else (adj.layersOf w).length := by
  have hresize : Layered.resize N adj = adj := by simp [Layered.resize, h.nodes]
  rw [Index.ensureLayerSlot, hresize, Layered.slot]
  split
  · rename_i hw
    subst hw
    rw [Layered.layersOf_modify_same adj w (by rw [h.nodes]; exact hv), Layered.length_resize]
  · rename_i hw
    rw [Layered.layersOf_modify_ne adj _ hw]

/-- `ensure_layer_slot` keeps the size and shortens no node. -/
theorem inside_ensureLayerSlot (h : Sized N adj) (hv : v < N) (L : ℕ) :
    Inside N adj (Index.ensureLayerSlot N adj v L) := by
  refine ⟨⟨?_, fun w K nb hnb => h.labels w K nb (by simpa using hnb)⟩, fun w => ?_⟩
  · simp [Index.ensureLayerSlot, Layered.slot, h.nodes]
  · rw [layersOf_ensureLayerSlot h hv]
    split
    · rename_i hw
      subst hw
      exact le_max_left _ _
    · exact le_rfl

/-- After `ensure_layer_slot` the layer is there. -/
theorem has_ensureLayerSlot (h : Sized N adj) (hv : v < N) (L : ℕ) :
    L < ((Index.ensureLayerSlot N adj v L).layersOf v).length := by
  rw [layersOf_ensureLayerSlot h hv, if_pos rfl]
  exact lt_of_lt_of_le (Nat.lt_succ_self L) (le_max_right _ _)

/-- Writing labels in range keeps the size and shortens no node. -/
theorem inside_put (h : Sized N adj) (v L : ℕ) {l : List ℤ} (hl : ∀ nb ∈ l, 0 ≤ nb ∧ nb < N) :
    Inside N adj (adj.put v L l) := by
  refine ⟨⟨?_, fun w K nb hnb => ?_⟩, fun w => ?_⟩
  · simp [Layered.put, h.nodes]
  · rcases Layered.nbrs_put_subset hnb with ⟨-, -, hnew⟩ | hold
    · exact hl nb hnew
    · exact h.labels w K nb hold
  · by_cases hw : w = v
    · subst hw
      by_cases hlt : w < adj.length
      · rw [Layered.put, Layered.layersOf_modify_same adj w hlt, List.length_set]
      · rw [Layered.put, List.modify_eq_self (by omega)]
    · rw [Layered.put, Layered.layersOf_modify_ne adj _ hw]

end Invariant

/-! ## The helpers of the heal stay inside -/

section Helpers

variable {D : Type} [FloatArith D] {ix : Index}

/-- A label in range is an index in range. -/
theorem asSize_lt {N : ℕ} {x : ℤ} (h : 0 ≤ x ∧ x < N) : asSize x < N := by
  rw [Index.asSize_of_nonneg h.1]
  omega

variable (hrows : ix.words.length = ix.numElements * ix.dim)
include hrows

/-- The row of a node in range is in the buffer. -/
theorem row_eq_some {node : ℤ} (h : asSize node < ix.numElements) :
    row ix node = some (ix.vectorPtr (asSize node)) := by
  have hend := Nat.mul_le_mul_right ix.dim (Nat.succ_le_of_lt h)
  rw [Nat.succ_mul] at hend
  rw [row, if_pos (by omega)]

/-- So a distance reads nothing outside it. -/
theorem distance_eq_some {a b : ℤ} (ha : asSize a < ix.numElements)
    (hb : asSize b < ix.numElements) : distance D ix a b = some (ix.distance D a b) := by
  rw [distance, row_eq_some hrows ha, row_eq_some hrows hb]
  rfl

/-- Nor does the search for the furthest neighbour. -/
theorem furthest_eq_some {node : ℤ} {nbrs : List ℤ} (hnode : asSize node < ix.numElements)
    (hnbrs : ∀ nb ∈ nbrs, asSize nb < ix.numElements) :
    furthest D ix node nbrs = some (ix.furthest D node nbrs) := by
  refine (foldlM_eq_some (I := fun _ => True) trivial fun far _ p hp => ⟨?_, trivial⟩).1
  obtain ⟨nb, i⟩ := p
  have hnb : nb ∈ nbrs := (List.mem_zipIdx hp).2.2 ▸ List.getElem_mem _
  rw [distance_eq_some hrows hnode (hnbrs nb hnb)]
  rfl

/-- Nor does a navigability score. -/
theorem navigabilityScore_eq_some {adj : Layered ℤ} {node : ℤ}
    (hnode : asSize node < ix.numElements) (layer : ℕ) :
    navigabilityScore D ix adj node layer = some (ix.navigabilityScore D adj node layer) := by
  refine (foldlM_eq_some (I := fun _ => True) trivial fun score _ nb _ => ⟨?_, trivial⟩).1
  split
  · rfl
  · rename_i hin
    obtain ⟨v, rfl, hv⟩ := Index.inRange_iff.mp (by simpa using hin)
    rw [distance_eq_some hrows hnode (by simpa using hv)]
    rfl

omit hrows

/-- The slot of a node in range is there. -/
theorem slot_eq_some {N v L : ℕ} {s : HealWork} (hs : Sized N s.adjacency) (hv : v < N) :
    slot N v L s = some (s.slot N v L) := by
  rw [slot, if_pos (by simp [hs.nodes, hv])]

/-- An eviction at an index of the list. -/
theorem evict_eq_some {N layer farIdx : ℕ} {node : ℤ} {s : HealWork} (hs : Sized N s.adjacency)
    (hlist : layer < (s.adjacency.layersOf (asSize node)).length)
    (hfar : farIdx < (s.adjacency.nbrs (asSize node) layer).length) :
    evict N node layer farIdx s = some (s.evict N node layer farIdx) ∧
      Inside N s.adjacency (s.evict N node layer farIdx).adjacency := by
  have hget : (s.adjacency.nbrs (asSize node) layer)[farIdx]? =
      some (s.adjacency.nbrs (asSize node) layer)[farIdx] := List.getElem?_eq_getElem hfar
  have hput := inside_put hs (asSize node) layer
    (l := (s.adjacency.nbrs (asSize node) layer).eraseIdx farIdx)
    fun nb hnb => hs.labels _ _ nb (List.mem_of_mem_eraseIdx hnb)
  simp only [evict, list_eq_some hlist, hget, HealWork.evict, Option.bind_eq_bind,
    Option.bind_some, Option.getD_some]
  split
  · rename_i hlt
    -- the slot of the evicted label is made, then the label is dropped there
    have hslot := inside_ensureLayerSlot hput.sized hlt layer
    have hhas := has_ensureLayerSlot hput.sized hlt layer
    rw [slot_eq_some hput.sized hlt, Option.bind_some]
    simp only [dropLabel, HealWork.slot, list_eq_some hhas, Option.bind_eq_bind, Option.bind_some,
      Option.pure_def, true_and]
    refine hput.trans (hslot.trans (inside_put hslot.sized _ _ fun nb hnb => ?_))
    exact hslot.sized.labels _ _ nb (List.mem_filter.mp hnb).1
  · exact ⟨rfl, hput⟩

include hrows

/-- `ensure_capacity_for` stays in bounds and keeps the size. -/
theorem ensureCapacityFor_eq_some {node cand : ℤ} (layer : ℕ) {maxM : ℤ} {s : HealWork}
    (hpos : 0 < maxM) (hs : Sized ix.numElements s.adjacency)
    (hnode : asSize node < ix.numElements) (hcand : asSize cand < ix.numElements) :
    ensureCapacityFor D ix node cand layer maxM s =
        some (ix.ensureCapacityFor D node cand layer maxM s) ∧
      Inside ix.numElements s.adjacency
        (ix.ensureCapacityFor D node cand layer maxM s).2.adjacency ∧
      layer < ((ix.ensureCapacityFor D node cand layer maxM s).2.adjacency.layersOf
        (asSize node)).length := by
  have hslot : Inside ix.numElements s.adjacency
      (s.slot ix.numElements (asSize node) layer).adjacency := inside_ensureLayerSlot hs hnode layer
  have hhas : layer < ((s.slot ix.numElements (asSize node) layer).adjacency.layersOf
      (asSize node)).length := has_ensureLayerSlot hs hnode layer
  rw [ensureCapacityFor, Index.ensureCapacityFor, slot_eq_some hs hnode]
  generalize s.slot ix.numElements (asSize node) layer = t at hslot hhas ⊢
  simp only [Option.bind_eq_bind, Option.bind_some, list_eq_some hhas]
  split
  · exact ⟨rfl, hslot, hhas⟩
  · split
    · exact ⟨rfl, hslot, hhas⟩
    · rename_i hfull
      have hne : t.adjacency.nbrs (asSize node) layer ≠ [] := by
        intro hnil
        have hzero : asInt (List.length ([] : List ℤ)) = 0 := by decide
        rw [hnil, hzero] at hfull
        exact hfull hpos
      have hfar := Index.furthest_lt (D := D) ix node hne
      simp only [furthest_eq_some hrows hnode fun nb hnb =>
          asSize_lt (hslot.sized.labels _ _ nb hnb),
        distance_eq_some hrows hnode hcand, navigabilityScore_eq_some hrows hnode,
        List.getElem?_eq_getElem hfar, Option.bind_some]
      split
      · exact ⟨rfl, hslot, hhas⟩
      · split
        · exact ⟨rfl, hslot, hhas⟩
        · obtain ⟨heq, hin⟩ := evict_eq_some hslot.sized hhas hfar
          rw [heq]
          exact ⟨rfl, hslot.trans hin, lt_of_lt_of_le hhas (hin.grows _)⟩

/-- Committing half an edge stays in bounds and keeps the size. -/
theorem commitHalfEdge_eq_some {node cand : ℤ} (layer : ℕ) {maxM : ℤ} {s : HealWork}
    (hpos : 0 < maxM) (hs : Sized ix.numElements s.adjacency)
    (hnode : asSize node < ix.numElements) (hcand : 0 ≤ cand ∧ cand < ix.numElements) :
    commitHalfEdge D ix node cand layer maxM s =
        some (ix.commitHalfEdge D node cand layer maxM s) ∧
      Inside ix.numElements s.adjacency
        (ix.commitHalfEdge D node cand layer maxM s).2.adjacency := by
  have hslot : Inside ix.numElements s.adjacency
      (s.slot ix.numElements (asSize node) layer).adjacency := inside_ensureLayerSlot hs hnode layer
  have hhas : layer < ((s.slot ix.numElements (asSize node) layer).adjacency.layersOf
      (asSize node)).length := has_ensureLayerSlot hs hnode layer
  rw [commitHalfEdge, Index.commitHalfEdge, slot_eq_some hs hnode]
  generalize s.slot ix.numElements (asSize node) layer = t at hslot hhas ⊢
  obtain ⟨heq, hroom, hhas'⟩ := ensureCapacityFor_eq_some (D := D) hrows layer hpos
    hslot.sized hnode (asSize_lt hcand)
  simp only [Option.bind_eq_bind, Option.bind_some, list_eq_some hhas, heq, list_eq_some hhas']
  have hin := hslot.trans hroom
  split
  · exact ⟨rfl, hslot⟩
  · split
    · exact ⟨rfl, hin⟩
    · split
      · exact ⟨rfl, hin⟩
      · split
        · exact ⟨rfl, hin⟩
        · refine ⟨rfl, hin.trans (inside_put hin.sized _ _ fun nb hnb => ?_)⟩
          rcases List.mem_append.mp hnb with hold | hnew
          · exact hin.sized.labels _ _ nb hold
          · rw [List.mem_singleton.mp hnew]
            exact hcand

/-- Making room at both ends stays in bounds and keeps the size. -/
theorem capacityForBoth_eq_some {u w : ℤ} (layer : ℕ) {maxM : ℤ} {s : HealWork}
    (hpos : 0 < maxM) (hs : Sized ix.numElements s.adjacency)
    (hu : asSize u < ix.numElements) (hw : asSize w < ix.numElements) :
    capacityForBoth D ix u w layer maxM s = some (ix.capacityForBoth D u w layer maxM s) ∧
      Inside ix.numElements s.adjacency
        (ix.capacityForBoth D u w layer maxM s).2.adjacency := by
  obtain ⟨heq, hin, -⟩ := ensureCapacityFor_eq_some (D := D) hrows layer hpos hs hu hw
  rw [capacityForBoth, Index.capacityForBoth, heq]
  simp only [Option.bind_eq_bind, Option.bind_some]
  split
  · exact ⟨rfl, hin⟩
  · obtain ⟨heq', hin', -⟩ := ensureCapacityFor_eq_some (D := D) hrows layer hpos
      hin.sized hw hu
    exact ⟨heq', hin.trans hin'⟩

/-- Committing what is missing of an edge stays in bounds and keeps the size. -/
theorem commitMissing_eq_some (has : Prop) [Decidable has] {node cand : ℤ} (layer : ℕ) {maxM : ℤ}
    {s : HealWork} (hpos : 0 < maxM) (hs : Sized ix.numElements s.adjacency)
    (hnode : asSize node < ix.numElements) (hcand : 0 ≤ cand ∧ cand < ix.numElements) :
    commitMissing D ix has node cand layer maxM s =
        some (if has then s else (ix.commitHalfEdge D node cand layer maxM s).2) ∧
      Inside ix.numElements s.adjacency
        (if has then s else (ix.commitHalfEdge D node cand layer maxM s).2).adjacency := by
  rw [commitMissing]
  split
  · exact ⟨rfl, hs.inside⟩
  · obtain ⟨heq, hin⟩ := commitHalfEdge_eq_some (D := D) hrows layer hpos hs hnode hcand
    rw [heq]
    exact ⟨rfl, hin⟩

/-- **One insertion** stays inside. -/
theorem tryInsertHealedEdge_eq_some {u w : ℤ} (layer : ℕ) {maxM : ℤ} {s : HealWork}
    (hpos : 0 < maxM) (hs : Sized ix.numElements s.adjacency)
    (hu : 0 ≤ u ∧ u < ix.numElements) (hw : 0 ≤ w ∧ w < ix.numElements) :
    tryInsertHealedEdge D ix u w layer maxM s =
        some (ix.tryInsertHealedEdge D u w layer maxM s) ∧
      Inside ix.numElements s.adjacency
        (ix.tryInsertHealedEdge D u w layer maxM s).adjacency := by
  have hui := asSize_lt hu
  have hwi := asSize_lt hw
  rw [tryInsertHealedEdge, Index.tryInsertHealedEdge]
  split
  · exact ⟨rfl, hs.inside⟩
  · rw [if_neg (by omega), if_neg (by omega)]
    -- both slots are there from here on
    have hslotU : Inside ix.numElements s.adjacency
        (s.slot ix.numElements (asSize u) layer).adjacency := inside_ensureLayerSlot hs hui layer
    have hslotW : Inside ix.numElements (s.slot ix.numElements (asSize u) layer).adjacency
        ((s.slot ix.numElements (asSize u) layer).slot ix.numElements (asSize w) layer).adjacency :=
      inside_ensureLayerSlot hslotU.sized hwi layer
    have hhasU := lt_of_lt_of_le (has_ensureLayerSlot hs hui layer) (hslotW.grows _)
    have hhasW : layer < (((s.slot ix.numElements (asSize u) layer).slot ix.numElements (asSize w)
        layer).adjacency.layersOf (asSize w)).length := has_ensureLayerSlot hslotU.sized hwi layer
    rw [slot_eq_some hs hui]
    simp only [Option.bind_eq_bind, Option.bind_some, slot_eq_some hslotU.sized hwi]
    have hin := hslotU.trans hslotW
    generalize (s.slot ix.numElements (asSize u) layer).slot ix.numElements (asSize w) layer = t
      at hin hhasU hhasW ⊢
    simp only [list_eq_some hhasU, list_eq_some hhasW, Option.bind_some]
    split
    · exact ⟨rfl, hin⟩
    · obtain ⟨r, hr⟩ : ∃ r, r = if ¬ w ∈ t.adjacency.nbrs (asSize u) layer ∧
          ¬ u ∈ t.adjacency.nbrs (asSize w) layer
        then ix.capacityForBoth D u w layer maxM t else (true, t) := ⟨_, rfl⟩
      have hcap : reserve D ix (w ∈ t.adjacency.nbrs (asSize u) layer)
          (u ∈ t.adjacency.nbrs (asSize w) layer) u w layer maxM t = some r ∧
          Inside ix.numElements t.adjacency r.2.adjacency := by
        rw [hr, reserve]
        split
        · exact capacityForBoth_eq_some hrows layer hpos hin.sized hui hwi
        · exact ⟨rfl, hin.sized.inside⟩
      rw [hcap.1, ← hr]
      have hin' := hin.trans hcap.2
      simp only [Option.bind_some]
      split
      · exact ⟨rfl, hin'⟩
      · obtain ⟨heq, hnext⟩ := commitMissing_eq_some (D := D) hrows
          (w ∈ t.adjacency.nbrs (asSize u) layer) layer hpos hin'.sized hui hw
        obtain ⟨heq', hnext'⟩ := commitMissing_eq_some (D := D) hrows
          (u ∈ t.adjacency.nbrs (asSize w) layer) layer hpos hnext.sized hwi hu
        rw [heq, Option.bind_some, heq']
        exact ⟨rfl, (hin'.trans hnext).trans hnext'⟩

end Helpers

/-! ## The layers stay inside -/

section Layers

variable {D : Type} [FloatArith D] {ix : Index}

/-- Removing a label from a list that there is stays in bounds. -/
theorem dropLabel_eq_some {N v L : ℕ} (target : ℤ) {s : HealWork} (hs : Sized N s.adjacency)
    (hlist : L < (s.adjacency.layersOf v).length) :
    dropLabel target v L s = some (s.dropLabel target v L) ∧
      Inside N s.adjacency (s.dropLabel target v L).adjacency := by
  refine ⟨by simp [dropLabel, list_eq_some hlist], inside_put hs _ _ fun nb hnb => ?_⟩
  exact hs.labels _ _ nb (List.mem_filter.mp hnb).1

/-- The orphans are read in bounds. -/
theorem orphans_eq_some {adj : Layered ℤ} {q : ℤ} (hs : Sized ix.numElements adj)
    (hq : asSize q < ix.numElements) (L : ℕ) :
    orphans ix adj q L = some (ix.orphans adj q L) := by
  have hlist : listIfAny adj (asSize q) L = some (adj.nbrs (asSize q) L) := by
    rw [listIfAny, layers_eq_some (by rwa [hs.nodes]), Option.bind_eq_bind, Option.bind_some]
    split
    · rename_i hL
      exact list_eq_some hL
    · rename_i hL
      rw [Layered.nbrs, List.getElem?_eq_none (by omega)]
      rfl
  rw [orphans, hlist]
  rfl

/-- They are unlinked in bounds. -/
theorem unlinkOrphans_eq_some {q : ℤ} {L : ℕ} {orphans : List ℤ} {s : HealWork}
    (hs : Sized ix.numElements s.adjacency) (horph : ∀ u ∈ orphans, asSize u < ix.numElements) :
    unlinkOrphans ix q L orphans s = some (ix.unlinkOrphans q L orphans s) ∧
      Sized ix.numElements (ix.unlinkOrphans q L orphans s).adjacency := by
  refine foldlM_eq_some (I := fun s : HealWork => Sized ix.numElements s.adjacency) hs ?_
  intro s hs u hu
  have hslot : Inside ix.numElements s.adjacency (s.slot ix.numElements (asSize u) L).adjacency :=
    inside_ensureLayerSlot hs (horph u hu) L
  obtain ⟨heq, hin⟩ := dropLabel_eq_some q (v := asSize u) hslot.sized
    (has_ensureLayerSlot hs (horph u hu) L)
  rw [slot_eq_some hs (horph u hu), Option.bind_eq_bind, Option.bind_some]
  exact ⟨heq, hin.sized⟩

/-- The list of the erased node is cleared in bounds. -/
theorem clearLayer_eq_some {N n L : ℕ} {s : HealWork} (hs : Sized N s.adjacency) (hn : n < N) :
    clearLayer n L s = some (Index.clearLayer n L s) ∧
      Sized N (Index.clearLayer n L s).adjacency := by
  have hlen : n < s.adjacency.length := by rwa [hs.nodes]
  simp only [clearLayer, Index.clearLayer, layers_eq_some hlen, Option.bind_eq_bind,
    Option.bind_some]
  split
  · rename_i hL
    rw [list_eq_some hL]
    exact ⟨rfl, (inside_put hs n L (by simp)).sized⟩
  · exact ⟨rfl, hs⟩

/-- The node is unlinked from its region in bounds. -/
theorem unlinkRegion_eq_some {N L : ℕ} {q : ℤ} {region : List ℤ} {s : HealWork}
    (hs : Sized N s.adjacency) (hregion : ∀ v ∈ region, asSize v < N) :
    unlinkRegion q region L s = some (Index.unlinkRegion q region L s) ∧
      Sized N (Index.unlinkRegion q region L s).adjacency := by
  refine foldlM_eq_some (I := fun s : HealWork => Sized N s.adjacency) hs ?_
  intro s hs v hv
  have hlen : asSize v < s.adjacency.length := by
    rw [hs.nodes]
    exact hregion v hv
  split
  · exact ⟨rfl, hs⟩
  · simp only [layers_eq_some hlen, Option.bind_eq_bind, Option.bind_some]
    split
    · rename_i hL
      obtain ⟨heq, hin⟩ := dropLabel_eq_some q hs hL
      exact ⟨heq, hin.sized⟩
    · exact ⟨rfl, hs⟩

variable (hrows : ix.words.length = ix.numElements * ix.dim)
include hrows

/-- The candidate pairs are measured in bounds. -/
theorem candidates_eq_some {orphans : List ℤ} (h : ∀ u ∈ orphans, asSize u < ix.numElements) :
    candidates D ix orphans = some (ix.candidates D orphans) := by
  induction orphans with
  | nil => rfl
  | cons u rest ih =>
    have hfirst : (rest.mapM fun w => (distance D ix u w).map (Index.Candidate.mk u w)) =
        some (rest.map fun w => ⟨u, w, ix.distance D u w⟩) := by
      refine mapM_eq_some fun w hw => ?_
      rw [distance_eq_some hrows (h u List.mem_cons_self) (h w (List.mem_cons_of_mem u hw))]
      rfl
    rw [candidates, hfirst, ih fun w hw => h w (List.mem_cons_of_mem u hw)]
    rfl

/-- **One layer** stays inside. -/
theorem healLayer_eq_some {q : ℤ} {region : List ℤ} {maxM : ℤ} {s : HealWork} (hpos : 0 < maxM)
    (hq : asSize q < ix.numElements) (hregion : ∀ v ∈ region, asSize v < ix.numElements)
    (hs : Sized ix.numElements s.adjacency) (L : ℕ) :
    healLayer D ix q region maxM s L = some (ix.healLayer D q region maxM s L) ∧
      Sized ix.numElements (ix.healLayer D q region maxM s L).adjacency := by
  have horph : ∀ u ∈ ix.orphans s.adjacency q L, 0 ≤ u ∧ u < ix.numElements := by
    intro u hu
    exact hs.labels _ _ u (Index.mem_orphans hu).2.2
  obtain ⟨heq₁, hs₁⟩ := unlinkOrphans_eq_some (q := q) (L := L) hs
    fun u hu => asSize_lt (horph u hu)
  obtain ⟨heq₂, hs₂⟩ := clearLayer_eq_some (L := L) hs₁ hq
  obtain ⟨heq₃, hs₃⟩ := unlinkRegion_eq_some (q := q) (L := L) hs₂ hregion
  rw [healLayer, Index.healLayer, orphans_eq_some hs hq]
  simp only [Option.bind_eq_bind, Option.bind_some, heq₁, heq₂, heq₃, Index.isolate]
  split
  · exact ⟨rfl, hs₃⟩
  · rw [candidates_eq_some hrows fun u hu => asSize_lt (horph u hu), Option.bind_some]
    refine foldlM_eq_some (I := fun s : HealWork => Sized ix.numElements s.adjacency) hs₃ ?_
    intro s hs c hc
    obtain ⟨hu, hw⟩ := Index.mem_candidates (List.mem_mergeSort.mp hc)
    obtain ⟨heq, hin⟩ := tryInsertHealedEdge_eq_some (D := D) hrows L hpos hs (horph _ hu)
      (horph _ hw)
    exact ⟨heq, hin.sized⟩

/-- **The locked part of a heal stays in bounds.** -/
theorem healLocked_eq_some {n : ℕ} {maxM : ℤ} (hpos : 0 < maxM) (hn : n < ix.numElements)
    (hs : Sized ix.numElements ix.adjacency) :
    healLocked D ix n (ix.collectHealRegionUnlocked n) maxM =
        some (ix.healLocked D n (ix.collectHealRegionUnlocked n) maxM) ∧
      Sized ix.numElements
        (ix.healLocked D n (ix.collectHealRegionUnlocked n) maxM).adjacency := by
  have hresize : Layered.resize ix.numElements ix.adjacency = ix.adjacency := by
    simp [Layered.resize, hs.nodes]
  have hregion : ∀ v ∈ ix.collectHealRegionUnlocked n, asSize v < ix.numElements := by
    intro v hv
    obtain ⟨w, rfl, rfl | ⟨hw, -⟩⟩ := Index.mem_collectHealRegionUnlocked.mp hv
    · simpa using hn
    · simpa using hw
  obtain ⟨hloop, hs'⟩ := foldlM_eq_some (I := fun s : HealWork => Sized ix.numElements s.adjacency)
    (l := List.range (Index.maxLayerGlobal ix.adjacency n (ix.collectHealRegionUnlocked n)))
    (b := ⟨ix.adjacency, 0, 0⟩) hs fun s hs L _ =>
      healLayer_eq_some (D := D) (q := n) hrows hpos (by simpa using hn) hregion hs L
  rw [healLocked, Index.healLocked, hresize]
  simp only [layers_eq_some (hs.nodes.symm ▸ hn), layers_eq_some (hs'.nodes.symm ▸ hn), hloop,
    Option.bind_eq_bind, Option.bind_some, Option.pure_def, true_and]
  refine ⟨by simpa [Index.clearNode] using hs'.nodes, fun v K nb hnb => ?_⟩
  rw [Index.clearNode, Layered.nbrs_clear] at hnb
  split at hnb
  · cases hnb
  · exact hs'.labels v K nb hnb

/-- **The heal stays inside** the rows and the lists of a well-formed index, and does what the
model says. -/
theorem healGraphStructure_eq_some (hs : Sized ix.numElements ix.adjacency) (env : NativeEnv)
    (n : ℕ) (maxM : ℤ) :
    healGraphStructure D ix env n maxM = some (ix.healGraphStructure D env n maxM) := by
  rw [healGraphStructure, Index.healGraphStructure]
  split
  · rfl
  · rename_i hpos
    split
    · rfl
    · split
      · rfl
      · rename_i hn
        rcases Index.lockRegion_cases ix env n with ⟨-, hok⟩ | ⟨-, herr⟩
        · have hpos' : 0 < maxM := by omega
          have hn' : n < ix.numElements := by omega
          obtain ⟨heq, -⟩ := healLocked_eq_some (D := D) hrows hpos' hn' hs
          rw [hok]
          simp only [heq, Option.bind_eq_bind, Option.bind_some]
          rfl
        · rw [herr]
          rfl

end Layers

/-! ## The save stays inside -/

section Save

/-- A node that there is can be saved. -/
theorem encodeNode_eq_some {adj : Layered ℤ} {node : ℕ} (h : node < adj.length) :
    encodeNode adj node = some (Index.encodeNode (adj.layersOf node)) := by
  have hlists : (List.range ((adj.layersOf node).length % 2 ^ 32)).mapM (list adj node) =
      some ((adj.layersOf node).take ((adj.layersOf node).length % 2 ^ 32)) := by
    rw [mapM_eq_some (g := adj.nbrs node) fun L hL => ?_]
    · congr 1
      apply List.ext_getElem
      · simp [Nat.mod_le]
      · intro i h₁ h₂
        have hi : i < (adj.layersOf node).length := by
          rw [List.length_take] at h₂
          omega
        simp [Layered.nbrs, hi]
    · have hle := Nat.mod_le (adj.layersOf node).length (2 ^ 32)
      have hlt := List.mem_range.mp hL
      exact list_eq_some (by omega)
  simp only [encodeNode, if_pos h, layers_eq_some h, Option.bind_eq_bind, Option.bind_some, hlists]
  rfl

/-- **The save stays inside** the words and the lists of a well-formed index. -/
theorem saveToFile_eq_some {ix : Index} (h : ix.WellFormed) :
    saveToFile ix = some ix.saveToFile := by
  have hsmall : ix.words.length < 2 ^ 64 := by
    rw [Index.words]
    split
    · decide
    · rename_i b _
      have := b.fits
      omega
  have htotal : sizeMul ix.numElements ix.dim ≤ ix.words.length := by
    rw [sizeMul, Nat.mod_eq_of_lt (by rw [← h.words]; exact hsmall), h.words]
  have hnodes : (List.range ix.numElements).mapM (encodeNode ix.adjacency) =
      some ((List.range ix.numElements).map fun node =>
        Index.encodeNode (ix.adjacency.layersOf node)) :=
    mapM_eq_some fun node hnode =>
      encodeNode_eq_some (by rw [h.nodes]; exact List.mem_range.mp hnode)
  rw [saveToFile, Index.saveToFile]
  split
  · rfl
  · simp only [if_pos htotal, Option.bind_eq_bind, Option.bind_some, hnodes]
    rw [List.flatMap_map, List.flatMap_def]
    rfl

end Save

end Checked

end Unlearning
