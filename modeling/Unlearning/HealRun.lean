import Unlearning.HealSteps

/-!
# A heal, call by call (`src/hnsw_helper.hpp`, `heal_graph_structure`)

Between its orphans the heal changes the graph through two helpers only,
`ensure_capacity_for` and `commit_half_edge`. `healCalls` lists their calls during a heal,
each with the graph it finds: the lists follow the control flow of the code, function by
function, and compute nothing of their own.

`Steps` is the rule for them. A relation that the slots, the capacity checks and the appended
labels respect holds across an insertion, from the insertion to each of its calls, and from
each call to the end of the insertion (`Steps.tryInsertHealedEdge`, `Steps.insertCalls`).
-/

namespace Unlearning

/-! ## Calls made by a loop -/

section Fold

variable {S A C : Type}

/-- The calls of a loop: `calls s a` are those of the pass over `a` that starts at `s`. -/
def foldCalls (step : S → A → S) (calls : S → A → List C) : List A → S → List C
  | [], _ => []
  | a :: rest, s => calls s a ++ foldCalls step calls rest (step s a)

/-- A call of a loop is a call of one of its passes. -/
theorem mem_foldCalls {step : S → A → S} {calls : S → A → List C} {l : List A} {s : S} {c : C}
    (h : c ∈ foldCalls step calls l s) :
    ∃ pre a post, l = pre ++ a :: post ∧ c ∈ calls (pre.foldl step s) a := by
  induction l generalizing s with
  | nil => cases h
  | cons a rest ih =>
    rcases List.mem_append.mp h with hhead | htail
    · exact ⟨[], a, rest, rfl, hhead⟩
    · obtain ⟨pre, b, post, rfl, hb⟩ := ih htail
      exact ⟨a :: pre, b, post, rfl, hb⟩

end Fold

/-- The helpers that write between orphans. -/
inductive Helper : Type where
  | ensureCapacityFor
  | commitHalfEdge
  deriving DecidableEq

/-- A call of a helper, and what it finds. -/
structure HelperCall where
  helper : Helper
  node : ℤ
  cand : ℤ
  layer : ℕ
  before : HealWork

/-- A value of the label type, `std::int64_t`. -/
def IsInt64 (x : ℤ) : Prop := -2 ^ 63 ≤ x ∧ x < 2 ^ 63

namespace Index

/-- The cast to `size_t` keeps labels apart. -/
theorem asSize_inj {x y : ℤ} (hx : IsInt64 x) (hy : IsInt64 y) (h : asSize x = asSize y) :
    x = y := by
  obtain ⟨hx, hx'⟩ := hx
  obtain ⟨hy, hy'⟩ := hy
  simp only [asSize] at h
  split at h <;> split at h <;> omega

/-! ## The answer of `ensure_capacity_for`, from the list alone -/

/-- `static_cast<int>(nbrs.size()) < max_m` -/
def HasRoom (maxM : ℤ) (nbrs : List ℤ) : Prop := asInt nbrs.length < maxM

instance (maxM : ℤ) (nbrs : List ℤ) : Decidable (HasRoom maxM nbrs) :=
  inferInstanceAs (Decidable (asInt nbrs.length < maxM))

section Calls

variable (D : Type) [FloatArith D] (ix : Index)

open FloatArith

/-- The sum of `navigability_score`, over a list. -/
def scoreOf (node : ℤ) (nbrs : List ℤ) : D :=
  nbrs.foldl (fun score nb =>
    if !ix.inRange nb then score
    else add score (closeness D (ix.distance D node nb))) zero

theorem navigabilityScore_eq (adj : Layered ℤ) (node : ℤ) (layer : ℕ) :
    navigabilityScore D ix adj node layer = scoreOf D ix node (adj.nbrs (asSize node) layer) := rfl

/-- The two tests before an eviction: the candidate is closer than the furthest neighbour, and
the score rises with it in that neighbour's place. -/
def Swaps (node cand : ℤ) (nbrs : List ℤ) : Prop :=
  let far := ix.furthest D node nbrs
  let distCand := ix.distance D node cand
  lt distCand far.2 = true ∧
    lt (scoreOf D ix node nbrs)
      (add (sub (scoreOf D ix node nbrs) (closeness D far.2)) (closeness D distCand)) = true

instance (node cand : ℤ) (nbrs : List ℤ) : Decidable (Swaps D ix node cand nbrs) :=
  inferInstanceAs (Decidable (_ ∧ _))

/-- **`ensure_capacity_for`**, in terms of the list it finds. -/
theorem ensureCapacityFor_eq (node cand : ℤ) (layer : ℕ) (maxM : ℤ) (s : HealWork) :
    ix.ensureCapacityFor D node cand layer maxM s =
      if cand ∈ s.adjacency.nbrs (asSize node) layer ∨
          HasRoom maxM (s.adjacency.nbrs (asSize node) layer) then
        (true, s.slot ix.numElements (asSize node) layer)
      else if Swaps D ix node cand (s.adjacency.nbrs (asSize node) layer) then
        (true, (s.slot ix.numElements (asSize node) layer).evict ix.numElements node layer
          (ix.furthest D node (s.adjacency.nbrs (asSize node) layer)).1)
      else (false, s.slot ix.numElements (asSize node) layer) := by
  have hnbrs : (s.slot ix.numElements (asSize node) layer).adjacency.nbrs (asSize node) layer =
      s.adjacency.nbrs (asSize node) layer := nbrs_ensureLayerSlot _ _ _ _ _ _
  simp only [ensureCapacityFor, navigabilityScore_eq, hnbrs]
  by_cases hmem : cand ∈ s.adjacency.nbrs (asSize node) layer
  · rw [if_pos hmem, if_pos (Or.inl hmem)]
  · rw [if_neg hmem]
    by_cases hroom : HasRoom maxM (s.adjacency.nbrs (asSize node) layer)
    · rw [if_pos (Or.inr hroom)]
      exact if_pos hroom
    · rw [if_neg (by tauto : ¬ (_ ∨ _)), if_neg (show ¬ asInt _ < maxM from hroom)]
      by_cases hswap : Swaps D ix node cand (s.adjacency.nbrs (asSize node) layer)
      · rw [if_pos hswap]
        obtain ⟨hnear, hscore⟩ := hswap
        rw [if_neg (by simp [hnear])]
        exact if_neg (by simpa using hscore)
      · rw [if_neg hswap]
        split
        · rfl
        · rename_i hnear
          split
          · rfl
          · rename_i hscore
            exact absurd ⟨by simpa using hnear, by simpa using hscore⟩ hswap

/-! ## The calls, function by function -/

/-- The graph a call leaves. -/
def after (maxM : ℤ) (c : HelperCall) : HealWork := match c.helper with
  | .ensureCapacityFor => (ix.ensureCapacityFor D c.node c.cand c.layer maxM c.before).2
  | .commitHalfEdge => (ix.commitHalfEdge D c.node c.cand c.layer maxM c.before).2

/-- `commit_half_edge` itself, and its call of `ensure_capacity_for`. -/
def commitCalls (node cand : ℤ) (layer : ℕ) (s : HealWork) : List HelperCall :=
  let slotted := s.slot ix.numElements (asSize node) layer
  ⟨.commitHalfEdge, node, cand, layer, s⟩ ::
    if cand ∈ slotted.adjacency.nbrs (asSize node) layer then []
    else [⟨.ensureCapacityFor, node, cand, layer, slotted⟩]

/-- The capacity checks of both endpoints. -/
def capacityCalls (u w : ℤ) (layer : ℕ) (maxM : ℤ) (s : HealWork) : List HelperCall :=
  let ru := ix.ensureCapacityFor D u w layer maxM s
  ⟨.ensureCapacityFor, u, w, layer, s⟩ ::
    if !ru.1 then [] else [⟨.ensureCapacityFor, w, u, layer, ru.2⟩]

/-- The calls of `try_insert_healed_edge`. -/
def insertCalls (u w : ℤ) (layer : ℕ) (maxM : ℤ) (s : HealWork) : List HelperCall :=
  let ui := asSize u
  let wi := asSize w
  if u = w then []
  else if ix.numElements ≤ ui ∨ ix.numElements ≤ wi then []
  else
    let s := (s.slot ix.numElements ui layer).slot ix.numElements wi layer
    let uHas := w ∈ s.adjacency.nbrs ui layer
    let wHas := u ∈ s.adjacency.nbrs wi layer
    if uHas ∧ wHas then []
    else
      let r := if ¬ uHas ∧ ¬ wHas then ix.capacityForBoth D u w layer maxM s else (true, s)
      let checks := if ¬ uHas ∧ ¬ wHas then capacityCalls D ix u w layer maxM s else []
      if !r.1 then checks
      else
        let s := if uHas then r.2 else (ix.commitHalfEdge D u w layer maxM r.2).2
        checks ++ ((if uHas then [] else ix.commitCalls u w layer r.2) ++
          (if wHas then [] else ix.commitCalls w u layer s))

/-- The calls of one layer of the heal loop. -/
def layerCalls (q : ℤ) (region : List ℤ) (maxM : ℤ) (s : HealWork) (L : ℕ) : List HelperCall :=
  let orphans := ix.orphans s.adjacency q L
  if orphans.length < 2 then []
  else foldCalls (fun s c => ix.tryInsertHealedEdge D c.u c.w L maxM s)
    (fun s c => insertCalls D ix c.u c.w L maxM s) (ix.rankedCandidates D orphans)
    (ix.isolate q region L s)

/-- **The calls of a heal** under the locks of `region`. -/
def healCalls (nodeId : ℕ) (region : List ℤ) (maxM : ℤ) : List HelperCall :=
  let adj := Layered.resize ix.numElements ix.adjacency
  let q := (nodeId : ℤ)
  foldCalls (ix.healLayer D q region maxM) (layerCalls D ix q region maxM)
    (List.range (maxLayerGlobal adj q region)) ⟨adj, 0, 0⟩

end Calls

/-! ## The rule for insertions -/

/-- The label appended by `commit_half_edge`. -/
def append (node : ℕ) (cand : ℤ) (layer : ℕ) (s : HealWork) : HealWork :=
  { s with
    adjacency := s.adjacency.put node layer (s.adjacency.nbrs node layer ++ [cand])
    edgesAdded := s.edgesAdded + 1 }

/-- **An append** lengthens one list, or finds none to lengthen. -/
theorem nbrs_append_cases (node : ℕ) (cand : ℤ) (layer : ℕ) (s : HealWork) (w K : ℕ) :
    (append node cand layer s).adjacency.nbrs w K = s.adjacency.nbrs w K ∨
      w = node ∧ K = layer ∧
        (append node cand layer s).adjacency.nbrs w K = s.adjacency.nbrs w K ++ [cand] := by
  rcases Layered.nbrs_put_cases s.adjacency node layer (s.adjacency.nbrs node layer ++ [cand]) with
    hnew | ⟨-, hsame⟩
  · rw [append, hnew]
    split
    · rename_i hplace
      obtain ⟨rfl, rfl⟩ := hplace
      exact Or.inr ⟨rfl, rfl, rfl⟩
    · exact Or.inl rfl
  · exact Or.inl (hsame w K)

/-- **What insertions are made of.** `P` says which labels may be offered to which nodes; the
label is appended to a list that is there, lacks it and has room. -/
structure Steps (D : Type) [FloatArith D] (ix : Index) (layer : ℕ) (maxM : ℤ)
    (P : ℤ → ℤ → Prop) (R : HealWork → HealWork → Prop) : Prop where
  inTable : ∀ {node cand}, P node cand → asSize node < ix.numElements
  refl : ∀ s, R s s
  trans : ∀ {s t r}, R s t → R t r → R s r
  slot : ∀ {node cand}, P node cand → ∀ s, R s (s.slot ix.numElements (asSize node) layer)
  capacity : ∀ {node cand}, P node cand → ∀ s,
    R s (ix.ensureCapacityFor D node cand layer maxM s).2
  append : ∀ {node cand}, P node cand → ∀ s,
    layer < (s.adjacency.layersOf (asSize node)).length →
    cand ∉ s.adjacency.nbrs (asSize node) layer →
    HasRoom maxM (s.adjacency.nbrs (asSize node) layer) →
    R s (Index.append (asSize node) cand layer s)

section Lengths

variable {D : Type} [FloatArith D] {ix : Index}

theorem lt_length_slot {n v : ℕ} (hv : v < n) (L : ℕ) (s : HealWork) :
    L < ((s.slot n v L).adjacency.layersOf v).length := by
  rw [HealWork.slot, ensureLayerSlot, Layered.length_layersOf_slot]
  · omega
  · rw [Layered.length_resize]
    omega

theorem length_layersOf_le_slot (n v L w : ℕ) (s : HealWork) :
    (s.adjacency.layersOf w).length ≤ ((s.slot n v L).adjacency.layersOf w).length := by
  refine le_trans ?_ (Layered.length_layersOf_le_slot _ v L w)
  rw [Layered.layersOf, Layered.layersOf, Layered.getD_resize]

theorem length_layersOf_le_evict (n : ℕ) (node : ℤ) (layer i w : ℕ) (s : HealWork) :
    (s.adjacency.layersOf w).length ≤
      ((s.evict n node layer i).adjacency.layersOf w).length := by
  simp only [HealWork.evict]
  split
  · rw [HealWork.dropLabel, Layered.length_layersOf_put]
    refine le_trans ?_ (length_layersOf_le_slot _ _ _ _ _)
    rw [Layered.length_layersOf_put]
  · rw [Layered.length_layersOf_put]

/-- The capacity check leaves its node with a list at its layer. -/
theorem lt_length_ensureCapacityFor {node cand : ℤ} {layer : ℕ} {maxM : ℤ}
    (hnode : asSize node < ix.numElements) (s : HealWork) :
    layer < ((ix.ensureCapacityFor D node cand layer maxM s).2.adjacency.layersOf
      (asSize node)).length := by
  have hslot := lt_length_slot hnode layer s
  rw [ensureCapacityFor_eq]
  split
  · exact hslot
  · split
    · exact hslot.trans_le (length_layersOf_le_evict _ _ _ _ _ _)
    · exact hslot

end Lengths

/-- **A call inside a part of the heal** that leads from `s` to `t`: it offers a label that may
be offered, finds a graph reached from `s`, and from the graph it leaves `t` is reached. -/
structure Within (D : Type) [FloatArith D] (ix : Index) (layer : ℕ) (maxM : ℤ)
    (P : ℤ → ℤ → Prop) (R : HealWork → HealWork → Prop) (s t : HealWork) (c : HelperCall) :
    Prop where
  layer_eq : c.layer = layer
  offered : P c.node c.cand
  before : R s c.before
  after : R (after D ix maxM c) t

namespace Steps

variable {D : Type} [FloatArith D] {ix : Index} {layer : ℕ} {maxM : ℤ} {P : ℤ → ℤ → Prop}
  {R : HealWork → HealWork → Prop} {u w : ℤ} {s s' t t' : HealWork} {c : HelperCall}

theorem within_trans (h : Steps D ix layer maxM P R) (hs : R s' s)
    (hc : Within D ix layer maxM P R s t c) (ht : R t t') : Within D ix layer maxM P R s' t' c :=
  ⟨hc.layer_eq, hc.offered, h.trans hs hc.before, h.trans hc.after ht⟩

/-- From a graph with the slot and the capacity made, the rest of `commit_half_edge`. -/
theorem commitHalfEdge_rest (h : Steps D ix layer maxM P R) (hp : P u w) (s : HealWork)
    (hnot : w ∉ (s.slot ix.numElements (asSize u) layer).adjacency.nbrs (asSize u) layer) :
    R (ix.ensureCapacityFor D u w layer maxM (s.slot ix.numElements (asSize u) layer)).2
      (ix.commitHalfEdge D u w layer maxM s).2 := by
  simp only [Index.commitHalfEdge, if_neg hnot]
  split
  · exact h.refl _
  · split
    · exact h.refl _
    · rename_i hstill
      split
      · exact h.refl _
      · rename_i hroom
        exact h.append hp _ (lt_length_ensureCapacityFor (h.inTable hp) _) hstill
          (by rw [HasRoom]; omega)

theorem commitHalfEdge (h : Steps D ix layer maxM P R) (hp : P u w) (s : HealWork) :
    R s (ix.commitHalfEdge D u w layer maxM s).2 := by
  have hslot := h.slot hp s
  by_cases hmem : w ∈ (s.slot ix.numElements (asSize u) layer).adjacency.nbrs (asSize u) layer
  · simp only [Index.commitHalfEdge, if_pos hmem]
    exact hslot
  · exact h.trans hslot (h.trans (h.capacity hp _) (h.commitHalfEdge_rest hp s hmem))

theorem commitCalls (h : Steps D ix layer maxM P R) (hp : P u w)
    (hc : c ∈ ix.commitCalls u w layer s) :
    Within D ix layer maxM P R s (ix.commitHalfEdge D u w layer maxM s).2 c := by
  rcases List.mem_cons.mp hc with rfl | hinner
  · exact ⟨rfl, hp, h.refl s, h.refl _⟩
  · split at hinner
    · cases hinner
    · rename_i hnot
      rw [List.mem_singleton.mp hinner]
      exact ⟨rfl, hp, h.slot hp s, h.commitHalfEdge_rest hp s hnot⟩

theorem capacityForBoth (h : Steps D ix layer maxM P R) (hp : P u w) (hp' : P w u)
    (s : HealWork) : R s (ix.capacityForBoth D u w layer maxM s).2 := by
  have hfirst := h.capacity hp s
  simp only [Index.capacityForBoth]
  split
  · exact hfirst
  · exact h.trans hfirst (h.capacity hp' _)

theorem capacityCalls (h : Steps D ix layer maxM P R) (hp : P u w) (hp' : P w u)
    (hc : c ∈ capacityCalls D ix u w layer maxM s) :
    Within D ix layer maxM P R s (ix.capacityForBoth D u w layer maxM s).2 c := by
  simp only [Index.capacityForBoth]
  rcases List.mem_cons.mp hc with rfl | hinner
  · refine ⟨rfl, hp, h.refl s, ?_⟩
    split
    · exact h.refl _
    · exact h.capacity hp' _
  · split at hinner
    · cases hinner
    · rename_i hfits
      rw [if_neg hfits, List.mem_singleton.mp hinner]
      exact ⟨rfl, hp', h.capacity hp s, h.refl _⟩

/-- **One insertion**: it respects the relation, and so does the way to and from each call. -/
theorem tryInsertHealedEdge (h : Steps D ix layer maxM P R)
    (hp : u ≠ w → asSize u < ix.numElements → asSize w < ix.numElements → P u w ∧ P w u)
    (s : HealWork) :
    R s (ix.tryInsertHealedEdge D u w layer maxM s) ∧
      ∀ c ∈ insertCalls D ix u w layer maxM s,
        Within D ix layer maxM P R s (ix.tryInsertHealedEdge D u w layer maxM s) c := by
  simp only [Index.tryInsertHealedEdge, insertCalls]
  split
  · exact ⟨h.refl s, by simp⟩
  · rename_i hne
    split
    · exact ⟨h.refl s, by simp⟩
    · rename_i hin
      obtain ⟨huw, hwu⟩ := hp hne (by omega) (by omega)
      have hslots := h.trans (h.slot huw s)
        (h.slot hwu (s.slot ix.numElements (asSize u) layer))
      generalize
        (s.slot ix.numElements (asSize u) layer).slot ix.numElements (asSize w) layer = t at hslots ⊢
      split
      · exact ⟨hslots, by simp⟩
      · -- the checks, made only if both halves are missing
        obtain ⟨r, hr⟩ : ∃ r, r = if ¬ w ∈ t.adjacency.nbrs (asSize u) layer ∧
            ¬ u ∈ t.adjacency.nbrs (asSize w) layer
          then ix.capacityForBoth D u w layer maxM t else (true, t) := ⟨_, rfl⟩
        obtain ⟨checks, hchecks⟩ : ∃ checks, checks = if ¬ w ∈ t.adjacency.nbrs (asSize u) layer ∧
            ¬ u ∈ t.adjacency.nbrs (asSize w) layer
          then Index.capacityCalls D ix u w layer maxM t else [] := ⟨_, rfl⟩
        have hcap : R t r.2 ∧ ∀ c ∈ checks, Within D ix layer maxM P R t r.2 c := by
          rw [hr, hchecks]
          split
          · exact ⟨h.capacityForBoth huw hwu t, fun c hc => h.capacityCalls huw hwu hc⟩
          · exact ⟨h.refl t, by simp⟩
        rw [← hr, ← hchecks]
        split
        · exact ⟨h.trans hslots hcap.1, fun c hc => h.within_trans hslots (hcap.2 c hc) (h.refl _)⟩
        · -- the two half edges, each committed only where it is missing
          have hfirst : ∀ v, v = (if w ∈ t.adjacency.nbrs (asSize u) layer then r.2
              else (ix.commitHalfEdge D u w layer maxM r.2).2) → R r.2 v ∧
              ∀ c ∈ (if w ∈ t.adjacency.nbrs (asSize u) layer then []
                else ix.commitCalls u w layer r.2), Within D ix layer maxM P R r.2 v c := by
            rintro v rfl
            split
            · exact ⟨h.refl _, by simp⟩
            · exact ⟨h.commitHalfEdge huw _, fun c hc => h.commitCalls huw hc⟩
          obtain ⟨v, hv⟩ : ∃ v, v = (if w ∈ t.adjacency.nbrs (asSize u) layer then r.2
              else (ix.commitHalfEdge D u w layer maxM r.2).2) := ⟨_, rfl⟩
          obtain ⟨hrv, hcalls⟩ := hfirst v hv
          rw [← hv]
          have hsecond : R v (if u ∈ t.adjacency.nbrs (asSize w) layer then v
                else (ix.commitHalfEdge D w u layer maxM v).2) ∧
              ∀ c ∈ (if u ∈ t.adjacency.nbrs (asSize w) layer then []
                else ix.commitCalls w u layer v), Within D ix layer maxM P R v
                (if u ∈ t.adjacency.nbrs (asSize w) layer then v
                  else (ix.commitHalfEdge D w u layer maxM v).2) c := by
            split
            · exact ⟨h.refl _, by simp⟩
            · exact ⟨h.commitHalfEdge hwu _, fun c hc => h.commitCalls hwu hc⟩
          have hsr := h.trans hslots hcap.1
          refine ⟨h.trans hsr (h.trans hrv hsecond.1), fun c hc => ?_⟩
          rcases List.mem_append.mp hc with hc | hc
          · exact h.within_trans hslots (hcap.2 c hc) (h.trans hrv hsecond.1)
          · rcases List.mem_append.mp hc with hc | hc
            · exact h.within_trans hsr (hcalls c hc) hsecond.1
            · exact h.within_trans (h.trans hsr hrv) (hsecond.2 c hc) (h.refl _)

end Steps

/-! ## The layers of a heal -/

section Layers

variable (D : Type) [FloatArith D] (ix : Index)

/-- The graph before layer `k` of the heal loop. -/
def upToLayer (nodeId : ℕ) (region : List ℤ) (maxM : ℤ) (k : ℕ) : HealWork :=
  (List.range k).foldl (ix.healLayer D nodeId region maxM)
    ⟨Layered.resize ix.numElements ix.adjacency, 0, 0⟩

variable {D ix} {n : ℕ} {region : List ℤ} {maxM : ℤ}

theorem upToLayer_succ (k : ℕ) :
    upToLayer D ix n region maxM (k + 1) =
      ix.healLayer D n region maxM (upToLayer D ix n region maxM k) k := by
  rw [upToLayer, List.range_succ, List.foldl_append]
  rfl

theorem healLocked_eq :
    ix.healLocked D n region maxM = clearNode n (upToLayer D ix n region maxM
      (maxLayerGlobal (Layered.resize ix.numElements ix.adjacency) n region)) := rfl

/-- A call of a heal is a call of one of its layers. -/
theorem mem_healCalls {c : HelperCall} (h : c ∈ healCalls D ix n region maxM) :
    ∃ L < maxLayerGlobal (Layered.resize ix.numElements ix.adjacency) n region,
      c ∈ layerCalls D ix n region maxM (upToLayer D ix n region maxM L) L := by
  obtain ⟨pre, L, post, hsplit, hc⟩ := mem_foldCalls h
  rw [List.range_eq_range', List.range'_eq_append_iff] at hsplit
  obtain ⟨k, -, rfl, htail⟩ := hsplit
  obtain ⟨rfl, hpos, -⟩ := List.range'_eq_cons_iff.mp htail.symm
  rw [Nat.zero_add, Nat.mul_one, ← List.range_eq_range'] at hc
  exact ⟨k, by omega, hc⟩

/-- One insertion of a layer. -/
def insertAt (D : Type) [FloatArith D] (ix : Index) (L : ℕ) (maxM : ℤ) (s : HealWork)
    (c : Candidate D) : HealWork :=
  ix.tryInsertHealedEdge D c.u c.w L maxM s

theorem healLayer_eq {q : ℤ} {s : HealWork} {L : ℕ}
    (h : ¬ (ix.orphans s.adjacency q L).length < 2) :
    ix.healLayer D q region maxM s L =
      (ix.rankedCandidates D (ix.orphans s.adjacency q L)).foldl (insertAt D ix L maxM)
        (ix.isolate q region L s) := if_neg h

/-- A call of a layer is a call of the insertion of one of its candidates. -/
theorem mem_layerCalls {c : HelperCall} {q : ℤ} {s : HealWork} {L : ℕ}
    (h : c ∈ layerCalls D ix q region maxM s L) :
    ¬ (ix.orphans s.adjacency q L).length < 2 ∧
      ∃ pre cand post, ix.rankedCandidates D (ix.orphans s.adjacency q L) = pre ++ cand :: post ∧
        c ∈ insertCalls D ix cand.u cand.w L maxM
          (pre.foldl (insertAt D ix L maxM) (ix.isolate q region L s)) := by
  simp only [layerCalls] at h
  split at h
  · cases h
  · rename_i hmany
    exact ⟨hmany, mem_foldCalls h⟩

end Layers

end Index

end Unlearning
