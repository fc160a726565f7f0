import Unlearning.Erase

/-!
# Rejected mutations (`src/hnsw_helper.hpp`)

Each mutation of the index checks its arguments and throws. `load_adjacency`, `overwrite_vector`
and `prune_adjacency` check before they write; `set_neighbors` makes the layer slot before it
checks the labels, and `erase_node` zeroes the row before the heal checks `max_m`.

`untouched_iff` says which rejected calls leave the index as it was.
-/

namespace Unlearning

namespace Index

/-- A call that mutates the index. -/
inductive Mutation : Type where
  | loadAdjacency (adjacency : Layered ℤ) : Mutation
  | setNeighbors (nodeId layer : ℤ) (neighbors : List ℤ) : Mutation
  | overwriteVector (nodeId : ℤ) : Mutation
  | pruneAdjacency (nodeId : ℤ) : Mutation
  | eraseNode (nodeId maxM : ℤ) : Mutation

section

variable (D : Type) [FloatArith D]

/-- What a call throws, if it does, and the index it leaves. -/
def mutate (env : NativeEnv) (ix : Index) : Mutation → Option NativeError × Index
  | .loadAdjacency adjacency => match ix.loadAdjacency adjacency with
    | (.error e, ix) => (some e, ix)
    | (.ok (), ix) => (none, ix)
  | .setNeighbors nodeId layer neighbors => match ix.setNeighbors env nodeId layer neighbors with
    | (.error e, ix) => (some e, ix)
    | (.ok (), ix) => (none, ix)
  | .overwriteVector nodeId => match ix.overwriteVector env nodeId with
    | (.error e, ix) => (some e, ix)
    | (.ok (), ix) => (none, ix)
  | .pruneAdjacency nodeId => match ix.pruneAdjacency env nodeId with
    | (.error e, ix) => (some e, ix)
    | (.ok (), ix) => (none, ix)
  | .eraseNode nodeId maxM => match ix.eraseNode D env nodeId maxM with
    | (.error e, ix) => (some e, ix)
    | (.ok _, ix) => (none, ix)

end

/-- A validation error: `invalid_argument`, `out_of_range` or `logic_error`. -/
def IsValidation (e : NativeError) : Prop :=
  e.kind = .invalidArgument ∨ e.kind = .outOfRange ∨ e.kind = .logicError

/-- The index as it is seen: its size, its vectors, its layers and its entrypoint. -/
structure Untouched (ix ix' : Index) : Prop where
  numElements : ix'.numElements = ix.numElements
  dim : ix'.dim = ix.dim
  rows : ∀ n < ix.numElements, ix'.row n = ix.row n
  adjacency : ix'.adjacency = ix.adjacency
  entrypoint : ix'.entrypoint = ix.entrypoint

theorem Untouched.refl (ix : Index) : Untouched ix ix := ⟨rfl, rfl, fun _ _ => rfl, rfl, rfl⟩

/-- The calls that write before their last check: `set_neighbors` at a layer that the node
does not have, and `erase_node` of a row that is not zero with a `max_m` that is not positive. -/
def WritesFirst (ix : Index) : Mutation → Prop
  | .setNeighbors nodeId layer _ => ix.ensureNode nodeId = .ok () ∧ 0 ≤ layer ∧
      (ix.adjacency.length < ix.numElements ∨
        (ix.adjacency.layersOf (asSize nodeId)).length ≤ asSize layer)
  | .eraseNode nodeId maxM => ix.ensureNode nodeId = .ok () ∧ maxM ≤ 0 ∧
      ¬ ix.RowZero (asSize nodeId)
  | _ => False

variable {ix : Index} {env : NativeEnv}

theorem not_isValidation_lockTimeout : ¬ IsValidation lockTimeout := by
  rintro (h | h | h)
  all_goals cases h

/-! ## The slot and the row -/

/-- The slot is there already, or the adjacency grows. -/
theorem ensureLayerSlot_eq_iff {N n L : ℕ} {adj : Layered ℤ} (hn : n < N) :
    ensureLayerSlot N adj n L = adj ↔ N ≤ adj.length ∧ L < (adj.layersOf n).length := by
  constructor
  · intro h
    have hlen : (ensureLayerSlot N adj n L).length = max adj.length N := by
      rw [ensureLayerSlot, Layered.slot, List.length_modify, Layered.length_resize]
    rw [h] at hlen
    have hN : N ≤ adj.length := by omega
    refine ⟨hN, ?_⟩
    have hlayers : ((ensureLayerSlot N adj n L).layersOf n).length =
        max (adj.layersOf n).length (L + 1) := by
      rw [ensureLayerSlot, Layered.slot, Layered.layersOf_modify_same _ _
        (by rw [Layered.length_resize]; omega), Layered.length_resize, Layered.layersOf,
        Layered.getD_resize]
      rfl
    rw [h] at hlayers
    omega
  · rintro ⟨hN, hL⟩
    have hresize : Layered.resize N adj = adj := by
      rw [Layered.resize, Nat.sub_eq_zero_of_le hN]
      exact List.append_nil adj
    rw [ensureLayerSlot, hresize, Layered.slot]
    apply List.ext_getElem?
    intro v
    rw [List.getElem?_modify]
    split
    · rename_i hv
      subst hv
      rcases hrow : adj[n]? with _ | perNode
      · rfl
      · have hlen : L < perNode.length := by simpa [Layered.layersOf, hrow] using hL
        refine congrArg some ?_
        show Layered.resize (L + 1) perNode = perNode
        rw [Layered.resize, Nat.sub_eq_zero_of_le hlen]
        exact List.append_nil perNode
    · rw [id_map']

/-- Wiping a row is seen unless the row is zero. -/
theorem row_wipeRow_eq_iff (ix : Index) (n : ℕ) :
    (ix.wipeRow n).row n = ix.row n ↔ ix.RowZero n := by
  constructor
  · intro h w hw
    rw [← h] at hw
    exact rowZero_wipeRow ix n w hw
  · intro h
    apply List.ext_getElem?
    intro i
    rw [getElem?_row, getElem?_row, words_wipeRow, List.getElem?_mapIdx, wipeRow_dim]
    by_cases hlt : i < ix.dim
    · rw [if_pos hlt, if_pos hlt]
      rcases hw : ix.words[n * ix.dim + i]? with _ | w
      · rfl
      · have hmem : w ∈ ix.row n := by
          refine List.mem_iff_getElem?.mpr ⟨i, ?_⟩
          rw [getElem?_row, if_pos hlt, hw]
        rw [Option.map_some, if_pos ⟨by omega, by omega⟩, h w hmem]
    · rw [if_neg hlt, if_neg hlt]

/-! ## Every rejected call -/

/-- `load_adjacency` checks first. -/
theorem eq_of_loadAdjacency_error {adjacency : Layered ℤ} {e : NativeError} {ix' : Index}
    (h : ix.loadAdjacency adjacency = (.error e, ix')) : ix' = ix := by
  rw [loadAdjacency] at h
  split at h
  · exact (Prod.mk.inj h).2.symm
  · split at h
    · exact (Prod.mk.inj h).2.symm
    · split at h
      · exact (Prod.mk.inj h).2.symm
      · cases (Prod.mk.inj h).1

/-- `prune_adjacency` checks first. -/
theorem eq_of_pruneAdjacency_error {nodeId : ℤ} {e : NativeError} {ix' : Index}
    (h : ix.pruneAdjacency env nodeId = (.error e, ix')) : ix' = ix := by
  rw [pruneAdjacency] at h
  split at h
  · exact (Prod.mk.inj h).2.symm
  · split at h
    · exact (Prod.mk.inj h).2.symm
    · cases (Prod.mk.inj h).1

/-- `set_neighbors`. -/
theorem untouched_setNeighbors {nodeId layer : ℤ} {neighbors : List ℤ} {e : NativeError}
    {ix' : Index} (h : ix.setNeighbors env nodeId layer neighbors = (.error e, ix'))
    (he : IsValidation e) :
    Untouched ix ix' ↔ ¬ WritesFirst ix (.setNeighbors nodeId layer neighbors) := by
  rw [setNeighbors] at h
  rcases hnode : ix.ensureNode nodeId with e' | u
  · rw [hnode] at h
    obtain ⟨-, rfl⟩ := Prod.mk.inj h
    exact iff_of_true (.refl ix) fun hw => by
      rw [WritesFirst, hnode] at hw
      cases hw.1
  · rw [hnode] at h
    obtain ⟨-, -, hlt⟩ := ensureNode_eq_ok.mp hnode
    simp only at h
    by_cases hlayer : layer < 0
    · rw [if_pos hlayer] at h
      obtain ⟨-, rfl⟩ := Prod.mk.inj h
      exact iff_of_true (.refl ix) fun hw => absurd hw.2.1 (by omega)
    · rw [if_neg hlayer] at h
      split at h
      · obtain ⟨he', -⟩ := Prod.mk.inj h
        rw [← Except.error.inj he'] at he
        exact absurd he not_isValidation_lockTimeout
      · -- some label is out of range, and the slot has been made
        split at h
        · obtain ⟨-, rfl⟩ := Prod.mk.inj h
          have hslot := @ensureLayerSlot_eq_iff _ _ (asSize layer) ix.adjacency hlt
          constructor
          · intro hsame hw
            obtain ⟨hN, hL⟩ := hslot.mp hsame.adjacency
            have := hw.2.2
            omega
          · intro hw
            have hthere : ix.numElements ≤ ix.adjacency.length ∧
                asSize layer < (ix.adjacency.layersOf (asSize nodeId)).length := by
              by_contra hno
              exact hw ⟨hnode, by omega, by omega⟩
            exact ⟨rfl, rfl, fun n _ => rfl, hslot.mpr hthere, rfl⟩
        · cases (Prod.mk.inj h).1

/-- `erase_node`. -/
theorem untouched_eraseNode {D : Type} [FloatArith D] {nodeId maxM : ℤ} {e : NativeError}
    {ix' : Index} (h : ix.eraseNode D env nodeId maxM = (.error e, ix')) (he : IsValidation e) :
    Untouched ix ix' ↔ ¬ WritesFirst ix (.eraseNode nodeId maxM) := by
  rcases overwriteVector_cases env nodeId ix with ⟨hnode, -, hov⟩ | ⟨e', hov⟩
  · obtain ⟨hloaded, -, hlt⟩ := ensureNode_eq_ok.mp hnode
    rw [eraseNode, hov] at h
    simp only at h
    have hrejects : 0 < maxM → False := by
      intro hpos
      rw [healGraphStructure, if_neg (by omega), if_neg (by simp [hloaded]),
        if_neg (by rw [wipeRow_numElements]; omega)] at h
      rcases lockRegion_cases (ix.wipeRow (asSize nodeId)) env (asSize nodeId) with
        ⟨-, hlock⟩ | ⟨-, hlock⟩
      · rw [hlock] at h
        cases (Prod.mk.inj h).1
      · rw [hlock] at h
        rw [← Except.error.inj (Prod.mk.inj h).1] at he
        exact not_isValidation_lockTimeout he
    have hmax : maxM ≤ 0 := by
      by_contra hpos
      exact hrejects (by omega)
    rw [healGraphStructure, if_pos hmax] at h
    obtain ⟨-, rfl⟩ := Prod.mk.inj h
    rw [WritesFirst]
    constructor
    · intro hsame hw
      exact hw.2.2 ((row_wipeRow_eq_iff ix _).mp (hsame.rows _ hlt))
    · intro hw
      have hzero : ix.RowZero (asSize nodeId) := by
        by_contra hno
        exact hw ⟨hnode, hmax, hno⟩
      refine ⟨rfl, rfl, fun n _ => ?_, rfl, rfl⟩
      by_cases hn : n = asSize nodeId
      · rw [hn]
        exact (row_wipeRow_eq_iff ix _).mpr hzero
      · exact row_wipeRow_ne ix hn
  · rw [eraseNode, hov] at h
    obtain ⟨he', rfl⟩ := Prod.mk.inj h
    refine iff_of_true (.refl ix) fun hw => ?_
    rw [overwriteVector, hw.1] at hov
    simp only at hov
    split at hov
    · rw [← Except.error.inj he', ← Except.error.inj (Prod.mk.inj hov).1] at he
      exact not_isValidation_lockTimeout he
    · cases (Prod.mk.inj hov).1

/-- **Which rejected calls leave the index untouched.** For every index, every call with
arbitrary arguments and every environment: if the call throws a validation error, then size,
vectors, layers and entrypoint are as before if and only if the call is not one that writes
before its last check. -/
theorem untouched_iff (D : Type) [FloatArith D] (ix : Index) (env : NativeEnv) (m : Mutation)
    {e : NativeError} (h : (ix.mutate D env m).1 = some e) (he : IsValidation e) :
    Untouched ix (ix.mutate D env m).2 ↔ ¬ WritesFirst ix m := by
  cases m with
  | loadAdjacency adjacency =>
    rw [mutate] at h ⊢
    rcases heq : ix.loadAdjacency adjacency with ⟨e' | u, ix'⟩
    · obtain rfl := eq_of_loadAdjacency_error heq
      exact iff_of_true (.refl ix') not_false
    · rw [heq] at h
      cases h
  | setNeighbors nodeId layer neighbors =>
    rw [mutate] at h ⊢
    rcases heq : ix.setNeighbors env nodeId layer neighbors with ⟨e' | u, ix'⟩
    · rw [heq] at h
      obtain rfl := Option.some.inj h
      exact untouched_setNeighbors heq he
    · rw [heq] at h
      cases h
  | overwriteVector nodeId =>
    rw [mutate] at h ⊢
    rcases overwriteVector_cases env nodeId ix with ⟨-, -, hov⟩ | ⟨e', hov⟩
    · rw [hov] at h
      cases h
    · rw [hov]
      exact iff_of_true (.refl ix) not_false
  | pruneAdjacency nodeId =>
    rw [mutate] at h ⊢
    rcases heq : ix.pruneAdjacency env nodeId with ⟨e' | u, ix'⟩
    · obtain rfl := eq_of_pruneAdjacency_error heq
      exact iff_of_true (.refl ix') not_false
    · rw [heq] at h
      cases h
  | eraseNode nodeId maxM =>
    rw [mutate] at h ⊢
    rcases heq : ix.eraseNode D env nodeId maxM with ⟨e' | u, ix'⟩
    · rw [heq] at h
      obtain rfl := Option.some.inj h
      exact untouched_eraseNode heq he
    · rw [heq] at h
      cases h

/-- A label out of range at a layer that is there: the index is untouched. -/
theorem untouched_iff_oneArc :
    (oneArc.mutate Float .calm (.setNeighbors 0 0 [2])).1.isSome = true ∧
      Untouched oneArc (oneArc.mutate Float .calm (.setNeighbors 0 0 [2])).2 := by
  have hthere : ¬ WritesFirst oneArc (.setNeighbors 0 0 [2]) := by
    rintro ⟨-, -, hshort | hshort⟩
    · exact absurd hshort (by decide)
    · exact absurd hshort (by decide)
  exact ⟨rfl, (untouched_iff Float oneArc .calm (.setNeighbors 0 0 [2]) rfl
    (Or.inr (Or.inl rfl))).mpr hthere⟩

/-- **A rejected call that writes.** `erase_node(0, max_m=0)` throws `invalid_argument`, and the
row of the node is zero. -/
theorem rejected_erase_writes :
    ¬ ∀ (ix : Index) (m : Mutation) (e : NativeError), (ix.mutate Float .calm m).1 = some e →
      IsValidation e → Untouched ix (ix.mutate Float .calm m).2 := by
  intro h
  have hsame := h oneArc (.eraseNode 0 0) _ rfl (Or.inl rfl)
  have hrow := hsame.rows 0 (by decide)
  revert hrow
  decide

end Index

end Unlearning
