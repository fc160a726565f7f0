import Mathlib.Data.List.Basic

/-!
# Layered adjacency lists

A layered graph over labels `α` is a table of nodes, each a table of layers,
each a list of labels. `nbrs g v L` reads a list and is empty where the node
or the layer is missing, so growing a table (`resize`, `slot`) is invisible to
it, and `put` is seen at one node and one layer only. `Prunes` is the relation
between two graphs that sequences of writes are composed through.
-/

namespace Unlearning

/-- `g[v][L]` is the neighbour list of node `v` at layer `L`. -/
abbrev Layered (α : Type) := List (List (List α))

namespace Layered

variable {α : Type}

/-- The layers of a node; none if the node is missing. -/
def layersOf (g : Layered α) (v : ℕ) : List (List α) := g[v]?.getD []

/-- The neighbour list of node `v` at layer `L`; empty if either is missing. -/
def nbrs (g : Layered α) (v L : ℕ) : List α := (g.layersOf v)[L]?.getD []

/-- Grow a table with empty entries to at least `n` entries. -/
def resize {β : Type} (n : ℕ) (l : List (List β)) : List (List β) :=
  l ++ List.replicate (n - l.length) []

/-- Make sure that node `v` has a list at layer `L`. -/
def slot (g : Layered α) (v L : ℕ) : Layered α := g.modify v (resize (L + 1))

/-- Replace the list of node `v` at layer `L`, if it has one. -/
def put (g : Layered α) (v L : ℕ) (l : List α) : Layered α := g.modify v (·.set L l)

/-! ## Reading a grown table -/

/-- A resize only grows. -/
@[simp] theorem length_resize {β : Type} (n : ℕ) (l : List (List β)) :
    (resize n l).length = max l.length n := by
  rw [resize, List.length_append, List.length_replicate]
  omega

/-- The new places are empty. -/
theorem getD_resize {β : Type} (n i : ℕ) (l : List (List β)) :
    (resize n l)[i]?.getD [] = l[i]?.getD [] := by
  rw [resize, List.getElem?_append]
  by_cases h : i < l.length
  · rw [if_pos h]
  · rw [if_neg h, List.getElem?_replicate, List.getElem?_eq_none (by omega : l.length ≤ i)]
    split <;> rfl

/-- Growth adds no neighbour. -/
@[simp] theorem nbrs_resize (g : Layered α) (n v L : ℕ) : nbrs (resize n g) v L = g.nbrs v L := by
  rw [nbrs, nbrs, layersOf, layersOf, getD_resize]

/-- A change to a node, seen there. -/
theorem layersOf_modify_same (g : Layered α) (v : ℕ) {f : List (List α) → List (List α)}
    (hv : v < g.length) : layersOf (g.modify v f) v = f (g.layersOf v) := by
  rw [layersOf, layersOf, List.getElem?_modify_eq, List.getElem?_eq_getElem hv]
  rfl

/-- A change to a node, seen elsewhere. -/
theorem layersOf_modify_ne (g : Layered α) {v w : ℕ} (f : List (List α) → List (List α))
    (h : w ≠ v) : layersOf (g.modify v f) w = g.layersOf w := by
  rw [layersOf, layersOf, List.getElem?_modify_ne f g h.symm]

/-- A node that there is not has no layers. -/
theorem layersOf_eq_nil {g : Layered α} {v : ℕ} (hv : g.length ≤ v) : g.layersOf v = [] := by
  rw [layersOf, List.getElem?_eq_none hv]
  rfl

/-- A node that has a layer is there. -/
theorem lt_length_of_lt {g : Layered α} {v L : ℕ} (hL : L < (g.layersOf v).length) :
    v < g.length := by
  by_contra hv
  rw [layersOf_eq_nil (by omega)] at hL
  cases hL

/-- A layer that there is not has no neighbours. -/
theorem nbrs_of_length_le {g : Layered α} {v L : ℕ} (hL : (g.layersOf v).length ≤ L) :
    g.nbrs v L = [] := by
  rw [nbrs, List.getElem?_eq_none hL]
  rfl

/-- A new slot is empty. -/
@[simp] theorem nbrs_slot (g : Layered α) (v L w K : ℕ) : (g.slot v L).nbrs w K = g.nbrs w K := by
  by_cases hw : w = v
  · subst hw
    by_cases hlt : w < g.length
    · rw [nbrs, nbrs, slot, layersOf_modify_same g w hlt, getD_resize]
    · rw [slot, List.modify_eq_self (by omega)]
  · rw [nbrs, nbrs, slot, layersOf_modify_ne g _ hw]

/-! ## Reading after a write -/

/-- A list that was written is read back. -/
theorem nbrs_put_same {g : Layered α} {v L : ℕ} (l : List α) (hv : v < g.length)
    (hL : L < (g.layersOf v).length) : (g.put v L l).nbrs v L = l := by
  rw [nbrs, put, layersOf_modify_same g v hv, List.getElem?_set_self hL]
  rfl

/-- Other lists are left. -/
theorem nbrs_put_ne {g : Layered α} {v L w K : ℕ} (l : List α) (h : w ≠ v ∨ K ≠ L) :
    (g.put v L l).nbrs w K = g.nbrs w K := by
  by_cases hw : w = v
  · subst hw
    have hK : K ≠ L := h.resolve_left fun hne => hne rfl
    by_cases hlt : w < g.length
    · rw [nbrs, nbrs, put, layersOf_modify_same g w hlt, List.getElem?_set_ne hK.symm]
    · rw [put, List.modify_eq_self (by omega)]
  · rw [nbrs, nbrs, put, layersOf_modify_ne g _ hw]

/-- There is no list to replace. -/
theorem put_of_length_le {g : Layered α} {v L : ℕ} (hL : (g.layersOf v).length ≤ L) (l : List α) :
    g.put v L l = g := by
  apply List.ext_getElem?
  intro w
  rw [put, List.getElem?_modify]
  split
  · rename_i hw
    subst hw
    rcases hv : g[v]? with _ | perNode
    · rfl
    · have hlen : perNode.length ≤ L := by simpa [layersOf, hv] using hL
      exact congrArg some (List.set_eq_of_length_le hlen)
  · rw [id_map']

/-- **A write**: it replaces one list, or there is no list to replace and nothing changes. -/
theorem nbrs_put_cases (g : Layered α) (v L : ℕ) (l : List α) :
    (∀ w K, (g.put v L l).nbrs w K = if w = v ∧ K = L then l else g.nbrs w K) ∨
      g.nbrs v L = [] ∧ ∀ w K, (g.put v L l).nbrs w K = g.nbrs w K := by
  by_cases hL : L < (g.layersOf v).length
  · have hv := lt_length_of_lt hL
    refine Or.inl fun w K => ?_
    split
    · rename_i h
      rw [h.1, h.2, nbrs_put_same l hv hL]
    · exact nbrs_put_ne l (by omega)
  · refine Or.inr ⟨?_, fun w K => ?_⟩
    · rw [nbrs, List.getElem?_eq_none (by omega)]
      rfl
    · have hset : (g.layersOf v).set L l = g.layersOf v := List.set_eq_of_length_le (by omega)
      by_cases hw : w = v
      · subst hw
        by_cases hv : w < g.length
        · rw [nbrs, put, layersOf_modify_same g w hv, hset]
          rfl
        · rw [put, List.modify_eq_self (by omega)]
      · exact nbrs_put_ne l (Or.inl hw)

/-- A read elsewhere is unaffected, a read at the written place sees the new
list or, where there was no list to replace, still the empty one. -/
theorem nbrs_put_subset {g : Layered α} {v L w K : ℕ} {l : List α} {x : α}
    (h : x ∈ (g.put v L l).nbrs w K) : (w = v ∧ K = L ∧ x ∈ l) ∨ x ∈ g.nbrs w K := by
  rcases nbrs_put_cases g v L l with heq | ⟨-, heq⟩
  · rw [heq] at h
    split at h
    · rename_i hplace
      exact Or.inl ⟨hplace.1, hplace.2, h⟩
    · exact Or.inr h
  · rw [heq] at h
    exact Or.inr h

/-- Rewriting a list in place with a function that keeps the empty list empty. -/
theorem nbrs_put_map {f : List α → List α} (hf : f [] = []) (g : Layered α) (v L w K : ℕ) :
    (g.put v L (f (g.nbrs v L))).nbrs w K =
      if w = v ∧ K = L then f (g.nbrs v L) else g.nbrs w K := by
  rcases nbrs_put_cases g v L (f (g.nbrs v L)) with heq | ⟨hnil, heq⟩
  · exact heq w K
  · rw [heq]
    split
    · rename_i hplace
      rw [hplace.1, hplace.2, hnil, hf]
    · rfl

/-- Writing the list of a slot that was just made. -/
theorem nbrs_put_slot {g : Layered α} {v L : ℕ} (hv : v < g.length) (l : List α) (w K : ℕ) :
    ((g.slot v L).put v L l).nbrs w K = if w = v ∧ K = L then l else g.nbrs w K := by
  by_cases h : w = v ∧ K = L
  · obtain ⟨rfl, rfl⟩ := h
    have hlayers : K < ((g.slot w K).layersOf w).length := by
      rw [slot, layersOf_modify_same g w hv, length_resize]
      omega
    rw [if_pos ⟨rfl, rfl⟩, nbrs_put_same l (by simpa [slot] using hv) hlayers]
  · rw [if_neg h, nbrs_put_ne l (by omega), nbrs_slot]

/-- Emptying every list of a node. -/
theorem nbrs_clear (g : Layered α) (v w K : ℕ) :
    nbrs (g.modify v fun perNode => perNode.map fun _ => []) w K =
      if w = v then [] else g.nbrs w K := by
  by_cases hw : w = v
  · subst hw
    rw [if_pos rfl, nbrs]
    by_cases hv : w < g.length
    · rw [layersOf_modify_same g w hv, List.getElem?_map]
      rcases (g.layersOf w)[K]? with _ | l <;> rfl
    · rw [List.modify_eq_self (by omega), layersOf_eq_nil (by omega)]
      rfl
  · rw [if_neg hw, nbrs, nbrs, layersOf_modify_ne g _ hw]

/-- Rewriting every list with a function that keeps the empty list empty. -/
theorem nbrs_map {f : List α → List α} (hf : f [] = []) (g : Layered α) (v L : ℕ) :
    nbrs (g.map fun perNode => perNode.map f) v L = f (g.nbrs v L) := by
  rw [nbrs, nbrs, layersOf, layersOf, List.getElem?_map]
  rcases g[v]? with _ | perNode
  · exact hf.symm
  · rw [Option.map_some, Option.getD_some, Option.getD_some, List.getElem?_map]
    rcases perNode[L]? with _ | l
    · exact hf.symm
    · rfl

/-- What is listed in some layer of a node. -/
theorem mem_layersOf_flatten {g : Layered α} {v : ℕ} {x : α} :
    x ∈ (g.layersOf v).flatten ↔ ∃ L, x ∈ g.nbrs v L := by
  rw [List.mem_flatten]
  constructor
  · rintro ⟨l, hl, hx⟩
    obtain ⟨L, hL⟩ := List.mem_iff_getElem?.mp hl
    exact ⟨L, by rwa [nbrs, hL]⟩
  · rintro ⟨L, hx⟩
    rw [nbrs] at hx
    rcases hL : (g.layersOf v)[L]? with _ | l
    · rw [hL] at hx
      cases hx
    · rw [hL] at hx
      exact ⟨l, List.mem_of_getElem? hL, hx⟩

/-- What is listed anywhere. -/
theorem mem_flatten_flatten {g : Layered α} {x : α} :
    x ∈ g.flatten.flatten ↔ ∃ v L, x ∈ g.nbrs v L := by
  simp only [← mem_layersOf_flatten]
  constructor
  · intro h
    obtain ⟨l, hl, hx⟩ := List.mem_flatten.mp h
    obtain ⟨perNode, hp, hl⟩ := List.mem_flatten.mp hl
    obtain ⟨v, hv⟩ := List.mem_iff_getElem?.mp hp
    exact ⟨v, List.mem_flatten.mpr ⟨l, by rwa [layersOf, hv], hx⟩⟩
  · rintro ⟨v, hx⟩
    obtain ⟨l, hl, hx⟩ := List.mem_flatten.mp hx
    refine List.mem_flatten.mpr ⟨l, List.mem_flatten.mpr ?_, hx⟩
    rcases hv : g[v]? with _ | perNode
    · simp [layersOf, hv] at hl
    · exact ⟨perNode, List.mem_of_getElem? hv, by simpa [layersOf, hv] using hl⟩

/-! ## Sizes -/

/-- A write adds no layer. -/
@[simp] theorem length_layersOf_put (g : Layered α) (v L w : ℕ) (l : List α) :
    ((g.put v L l).layersOf w).length = (g.layersOf w).length := by
  by_cases hw : w = v
  · subst hw
    by_cases hv : w < g.length
    · rw [put, layersOf_modify_same g w hv, List.length_set]
    · rw [put, List.modify_eq_self (by omega)]
  · rw [put, layersOf_modify_ne g _ hw]

/-- A slot adds the layers that are missing. -/
theorem length_layersOf_slot {g : Layered α} {v : ℕ} (hv : v < g.length) (L : ℕ) :
    ((g.slot v L).layersOf v).length = max (g.layersOf v).length (L + 1) := by
  rw [slot, layersOf_modify_same g v hv, length_resize]

/-- A slot takes no layer away. -/
theorem length_layersOf_le_slot (g : Layered α) (v L w : ℕ) :
    (g.layersOf w).length ≤ ((g.slot v L).layersOf w).length := by
  by_cases hw : w = v
  · subst hw
    by_cases hv : w < g.length
    · rw [length_layersOf_slot hv]
      exact Nat.le_max_left _ _
    · exact Nat.le_of_eq (by rw [slot, List.modify_eq_self (by omega)])
  · exact Nat.le_of_eq (by rw [slot, layersOf_modify_ne g _ hw])

/-- The number of labels over all lists of a node. -/
def sizeOf (perNode : List (List α)) : ℕ := perNode.flatten.length

/-- The number of labels over all lists of all nodes. -/
def entries (g : Layered α) : ℕ := g.flatten.flatten.length

/-- The entries of a node, layer by layer. -/
theorem sizeOf_cons (l : List α) (rest : List (List α)) :
    sizeOf (l :: rest) = l.length + sizeOf rest := by
  rw [sizeOf, List.flatten_cons, List.length_append, sizeOf]

/-- The entries of a graph, node by node. -/
theorem entries_cons (perNode : List (List α)) (rest : Layered α) :
    entries (perNode :: rest) = sizeOf perNode + rest.entries := by
  rw [entries, List.flatten_cons, List.flatten_append, List.length_append, entries, sizeOf]

/-- New layers have no entries. -/
theorem sizeOf_resize (n : ℕ) (perNode : List (List α)) :
    sizeOf (resize n perNode) = sizeOf perNode := by
  simp [sizeOf, resize]

/-- A list that is replaced gives its entries back. -/
theorem sizeOf_set {perNode : List (List α)} {L : ℕ} (hL : L < perNode.length) (l : List α) :
    sizeOf (perNode.set L l) + (perNode[L]?.getD []).length = sizeOf perNode + l.length := by
  induction perNode generalizing L with
  | nil => cases hL
  | cons first rest ih =>
    rcases L with _ | L
    · simp only [sizeOf_cons, List.set_cons_zero, List.getElem?_cons_zero, Option.getD_some]
      omega
    · have hrest := ih (by simpa using hL)
      simp only [sizeOf_cons, List.set_cons_succ, List.getElem?_cons_succ] at hrest ⊢
      omega

/-- **Rewriting one node**, counted. -/
theorem entries_modify {g : Layered α} {v : ℕ} (hv : v < g.length)
    (f : List (List α) → List (List α)) :
    entries (g.modify v f) + sizeOf (g.layersOf v) = g.entries + sizeOf (f (g.layersOf v)) := by
  induction g generalizing v with
  | nil => cases hv
  | cons first rest ih =>
    rcases v with _ | v
    · simp only [entries_cons, layersOf, List.modify_zero_cons, List.getElem?_cons_zero,
        Option.getD_some]
      omega
    · have hrest := ih (by simpa using hv)
      simp only [entries_cons, layersOf, List.modify_succ_cons, List.getElem?_cons_succ]
        at hrest ⊢
      omega

/-- New nodes have no entries. -/
@[simp] theorem entries_resize (n : ℕ) (g : Layered α) : entries (resize n g) = g.entries := by
  simp [entries, resize]

/-- A slot adds no entries. -/
@[simp] theorem entries_slot (g : Layered α) (v L : ℕ) : (g.slot v L).entries = g.entries := by
  by_cases hv : v < g.length
  · have hsame := entries_modify hv (resize (L + 1))
    rw [sizeOf_resize] at hsame
    exact Nat.add_right_cancel hsame
  · rw [slot, List.modify_eq_self (by omega)]

/-- **A write**, counted. -/
theorem entries_put {g : Layered α} {v L : ℕ} (hL : L < (g.layersOf v).length) (l : List α) :
    (g.put v L l).entries + (g.nbrs v L).length = g.entries + l.length := by
  have hv := lt_length_of_lt hL
  have hnode := entries_modify hv (·.set L l)
  have hlist := sizeOf_set hL l
  rw [put, nbrs]
  omega

/-- One list is part of the whole. -/
theorem length_nbrs_le_entries (g : Layered α) (v L : ℕ) :
    (g.nbrs v L).length ≤ g.entries := by
  by_cases hL : L < (g.layersOf v).length
  · have hput := entries_put hL []
    rw [List.length_nil] at hput
    omega
  · rw [nbrs_of_length_le (by omega)]
    exact Nat.zero_le _

/-- Emptying a node, counted. -/
theorem entries_clear (g : Layered α) (v : ℕ) :
    entries (g.modify v fun perNode => perNode.map fun _ => []) + sizeOf (g.layersOf v) =
      g.entries := by
  by_cases hv : v < g.length
  · have hzero : sizeOf ((g.layersOf v).map fun _ => ([] : List α)) = 0 := by
      simp [sizeOf]
    rw [entries_modify hv, hzero, Nat.add_zero]
  · rw [List.modify_eq_self (by omega), layersOf_eq_nil (by omega)]
    rfl

/-! ## Changes that only prune a label -/

/-- **Pruning.** No list gains the label `x`, no list of node `n` gains anything,
and the lists of the nodes outside `O` keep `x`. -/
structure Prunes (x : α) (n : ℕ) (O : Set ℕ) (g g' : Layered α) : Prop where
  gains : ∀ {v K : ℕ} {y : α}, y ∈ g'.nbrs v K → y ∈ g.nbrs v K ∨ (v ≠ n ∧ y ≠ x)
  keeps : ∀ {v K : ℕ}, v ∉ O → x ∈ g.nbrs v K → x ∈ g'.nbrs v K

namespace Prunes

variable {x : α} {n : ℕ} {O : Set ℕ} {g g' g'' : Layered α}

/-- Graphs with the same lists. -/
theorem of_nbrs_eq (h : ∀ v K, g'.nbrs v K = g.nbrs v K) : Prunes x n O g g' where
  gains {v K y} hy := Or.inl (by rwa [h v K] at hy)
  keeps {v K} _ hx := by rwa [h v K]

/-- Nothing was pruned. -/
theorem refl (g : Layered α) : Prunes x n O g g := of_nbrs_eq fun _ _ => rfl

/-- Pruning in two steps. -/
theorem trans (h : Prunes x n O g g') (h' : Prunes x n O g' g'') : Prunes x n O g g'' where
  gains hy := (h'.gains hy).elim h.gains Or.inr
  keeps hv hx := h'.keeps hv (h.keeps hv hx)

/-- The pruned label is nowhere new. -/
theorem mem_of_mem (h : Prunes x n O g g') {v K : ℕ} (hx : x ∈ g'.nbrs v K) : x ∈ g.nbrs v K :=
  (h.gains hx).resolve_right fun hne => hne.2 rfl

/-- The list of the pruned node only shrinks. -/
theorem subset_at (h : Prunes x n O g g') {K : ℕ} {y : α} (hy : y ∈ g'.nbrs n K) : y ∈ g.nbrs n K :=
  (h.gains hy).resolve_right fun hne => hne.1 rfl

/-- A write prunes when its list gains nothing it must not, and does not lose `x`
unless the node is in `O`. -/
theorem put {v L : ℕ} {l : List α} (hgain : ∀ y ∈ l, y ∈ g.nbrs v L ∨ (v ≠ n ∧ y ≠ x))
    (hlose : v ∈ O ∨ (x ∈ g.nbrs v L → x ∈ l)) : Prunes x n O g (g.put v L l) where
  gains {w K y} hy := by
    rcases nbrs_put_subset hy with ⟨rfl, rfl, hl⟩ | hold
    · exact hgain y hl
    · exact Or.inl hold
  keeps {w K} hw hx := by
    rcases nbrs_put_cases g v L l with heq | ⟨-, heq⟩
    · rw [heq]
      split
      · rename_i hplace
        obtain ⟨rfl, rfl⟩ := hplace
        exact hlose.resolve_left hw hx
      · exact hx
    · rwa [heq]

/-- A write that only loses labels. -/
theorem put_subset {v L : ℕ} {l : List α} (hl : l ⊆ g.nbrs v L)
    (hlose : v ∈ O ∨ (x ∈ g.nbrs v L → x ∈ l)) : Prunes x n O g (g.put v L l) :=
  put (fun _ hy => Or.inl (hl hy)) hlose

end Prunes

end Layered

end Unlearning
