import Mathlib.Data.Finset.Card
import Mathlib.Data.Finset.Dedup
import Unlearning.Heal

/-!
# What a hard erasure leaves behind (`src/hnsw_helper.hpp`, `erase_node`)

* `eraseNode_cases`: what a call of `erase_node` can do to an index, in full.
* `mem_nbrs_eraseNode`: in which lists the erased label survives. The graph is
  directed and the heal works on `{q} ∪ N(q) ∪ N(N(q))` along its edges, so an
  in-neighbour that `q` does not reach in two steps keeps its edge.
* `entrypoint_live_iff`: along which sequences of erasures the entrypoint stays a
  label that was not erased.
-/

namespace Unlearning

namespace Index

/-! ## The region, as a set of nodes -/

/-- `v` is an out-neighbour of `u` at some layer. -/
def Edge (ix : Index) (u v : ℕ) : Prop := ∃ L, (v : ℤ) ∈ ix.adjacency.nbrs u L

/-- `{q} ∪ N(q) ∪ N(N(q))` -/
def InHealRegion (ix : Index) (q v : ℕ) : Prop :=
  v = q ∨ v < ix.numElements ∧ (ix.Edge q v ∨ ∃ u < ix.numElements, ix.Edge q u ∧ ix.Edge u v)

section Region

variable {ix : Index}

theorem mem_addNeighbors {region : List ℤ} {u x : ℤ} :
    x ∈ ix.addNeighbors region u ↔
      x ∈ region ∨ (ix.inRange x = true ∧ ∃ L, x ∈ ix.adjacency.nbrs (asSize u) L) := by
  rw [addNeighbors, mem_foldl_addUnique, Layered.mem_layersOf_flatten]

theorem mem_foldl_addNeighbors {us region : List ℤ} {x : ℤ} :
    x ∈ us.foldl ix.addNeighbors region ↔
      x ∈ region ∨ (ix.inRange x = true ∧ ∃ u ∈ us, ∃ L, x ∈ ix.adjacency.nbrs (asSize u) L) := by
  induction us generalizing region with
  | nil => simp
  | cons u rest ih =>
    rw [List.foldl_cons, ih, mem_addNeighbors]
    simp only [List.mem_cons, exists_eq_or_imp]
    tauto

/-- `add_unique` only appends, so the region starts with its seed. -/
theorem foldl_addUnique_cons (q : ℤ) (l r : List ℤ) :
    ∃ t, l.foldl ix.addUnique (q :: r) = q :: t := by
  induction l generalizing r with
  | nil => exact ⟨r, rfl⟩
  | cons u rest ih =>
    rw [List.foldl_cons, addUnique]
    split
    · exact ih r
    · split
      · exact ih r
      · exact ih (r ++ [u])

/-- **The collected region** is the two-hop neighbourhood. -/
theorem mem_collectHealRegionUnlocked {q : ℕ} {x : ℤ} :
    x ∈ ix.collectHealRegionUnlocked q ↔ ∃ v : ℕ, x = v ∧ ix.InHealRegion q v := by
  obtain ⟨t, ht⟩ : ∃ t : List ℤ, ix.addNeighbors [(q : ℤ)] q = (q : ℤ) :: t :=
    foldl_addUnique_cons _ _ _
  have hone : ∀ y, y ∈ (q : ℤ) :: t ↔
      y = q ∨ (ix.inRange y = true ∧ ∃ L, y ∈ ix.adjacency.nbrs q L) := by
    intro y
    rw [← ht, mem_addNeighbors, List.mem_singleton, asSize_natCast]
  rw [collectHealRegionUnlocked, ht, List.drop_one, List.tail_cons, mem_foldl_addNeighbors, hone]
  constructor
  · rintro ((rfl | ⟨hr, hedge⟩) | ⟨hr, u, hu, hedge⟩)
    · exact ⟨q, rfl, Or.inl rfl⟩
    · obtain ⟨v, rfl, hv⟩ := inRange_iff.mp hr
      exact ⟨v, rfl, Or.inr ⟨hv, Or.inl hedge⟩⟩
    · obtain ⟨v, rfl, hv⟩ := inRange_iff.mp hr
      rcases (hone u).mp (List.mem_cons_of_mem _ hu) with rfl | ⟨hur, huedge⟩
      · rw [asSize_natCast] at hedge
        exact ⟨v, rfl, Or.inr ⟨hv, Or.inl hedge⟩⟩
      · obtain ⟨w, rfl, hw⟩ := inRange_iff.mp hur
        rw [asSize_natCast] at hedge
        exact ⟨v, rfl, Or.inr ⟨hv, Or.inr ⟨w, hw, huedge, hedge⟩⟩⟩
  · rintro ⟨v, rfl, rfl | ⟨hv, hedge | ⟨u, hu, huedge, hedge⟩⟩⟩
    · exact Or.inl (Or.inl rfl)
    · exact Or.inl (Or.inr ⟨inRange_iff.mpr ⟨v, rfl, hv⟩, hedge⟩)
    · have hvr : ix.inRange (v : ℤ) = true := inRange_iff.mpr ⟨v, rfl, hv⟩
      rcases List.mem_cons.mp ((hone u).mpr
        (Or.inr ⟨inRange_iff.mpr ⟨u, rfl, hu⟩, huedge⟩)) with heq | hmem
      · -- a step back to `q` is a one-hop edge
        have huq : u = q := by exact_mod_cast heq
        subst huq
        exact Or.inl (Or.inr ⟨hvr, hedge⟩)
      · exact Or.inr ⟨hvr, u, hmem, by rwa [asSize_natCast]⟩

theorem mem_nodesOf_collect {q v : ℕ} :
    v ∈ nodesOf (ix.collectHealRegionUnlocked q) ↔ ix.InHealRegion q v := by
  rw [mem_nodesOf, mem_collectHealRegionUnlocked]
  constructor
  · rintro ⟨w, hw, hreg⟩
    have hvw : v = w := by exact_mod_cast hw
    rwa [hvw]
  · exact fun hreg => ⟨v, rfl, hreg⟩

end Region

/-! ## Outcomes of a call -/

section Outcomes

variable {D : Type} [FloatArith D]

/-- The locks of the heal of one node are free. -/
def HealLocks (env : NativeEnv) : Prop :=
  env.acquires .healNode = true ∧ env.acquires .healRegion = true

/-- Alone, the second collection finds the same region. -/
theorem lockRegion_cases (ix : Index) (env : NativeEnv) (q : ℤ) :
    (HealLocks env ∧ ix.lockRegion env q = .ok (ix.collectHealRegionUnlocked q)) ∨
      (¬ HealLocks env ∧ ix.lockRegion env q = .error lockTimeout) := by
  unfold lockRegion HealLocks
  by_cases hn : env.acquires .healNode = true
  · rw [if_neg (by simp [hn])]
    by_cases hr : env.acquires .healRegion = true
    · refine Or.inl ⟨⟨hn, hr⟩, ?_⟩
      dsimp only
      rw [if_neg (by simp [hr]), if_neg (by simp [List.isPerm_iff])]
    · exact Or.inr ⟨fun h => hr h.2, by dsimp only; rw [if_pos (by simpa using hr)]⟩
  · exact Or.inr ⟨fun h => hn h.1, if_pos (by simpa using hn)⟩

/-- The index after a successful heal of node `n`. -/
def healed (D : Type) [FloatArith D] (ix : Index) (n : ℕ) (maxM : ℤ) : Index :=
  { ix with
    adjacency := (ix.healLocked D n (ix.collectHealRegionUnlocked n) maxM).adjacency
    entrypoint := ix.retireEntrypoint ix.entrypoint n }

/-- The outcomes of `heal_graph_structure`: the healed index, or an exception
and the index as it was. -/
theorem healGraphStructure_cases (ix : Index) (env : NativeEnv) (n : ℕ) (maxM : ℤ) :
    ((0 < maxM ∧ ix.isLoaded = true ∧ n < ix.numElements ∧ HealLocks env) ∧
        ∃ hm, hm.success = true ∧
          ix.healGraphStructure D env n maxM = (.ok hm, ix.healed D n maxM)) ∨
      (¬ (0 < maxM ∧ ix.isLoaded = true ∧ n < ix.numElements ∧ HealLocks env) ∧
        ∃ e, ix.healGraphStructure D env n maxM = (.error e, ix)) := by
  unfold healGraphStructure
  by_cases hm : maxM ≤ 0
  · exact Or.inr ⟨fun h => absurd h.1 (by omega), _, if_pos hm⟩
  · rw [if_neg hm]
    by_cases hl : ix.isLoaded = true
    · rw [if_neg (by simp [hl])]
      by_cases hn : ix.numElements ≤ n
      · exact Or.inr ⟨fun h => absurd h.2.2.1 (by omega), _, if_pos hn⟩
      · rw [if_neg hn]
        rcases lockRegion_cases ix env n with ⟨hlocks, hok⟩ | ⟨hlocks, herr⟩
        · rw [hok]
          exact Or.inl ⟨⟨by omega, hl, by omega, hlocks⟩, _, rfl, rfl⟩
        · rw [herr]
          exact Or.inr ⟨fun h => hlocks h.2.2.2, _, rfl⟩
    · exact Or.inr ⟨fun h => hl h.2.1, _, if_pos (by simpa using hl)⟩

/-- A call that succeeds: its arguments are in range and its locks are free. -/
structure Erasable (ix : Index) (env : NativeEnv) (nodeId maxM : ℤ) : Prop where
  loaded : ix.isLoaded = true
  nonneg : 0 ≤ nodeId
  lt : asSize nodeId < ix.numElements
  maxM_pos : 0 < maxM
  overwrite : env.acquires .overwrite = true
  locks : HealLocks env

/-- **The outcomes of `erase_node`.** It succeeds exactly on `Erasable` calls;
otherwise it throws, and the row may have been wiped already. -/
theorem eraseNode_cases (ix : Index) (env : NativeEnv) (nodeId maxM : ℤ) :
    (Erasable ix env nodeId maxM ∧ ∃ r, r.success = true ∧
        ix.eraseNode D env nodeId maxM =
          (.ok r, (ix.wipeRow (asSize nodeId)).healed D (asSize nodeId) maxM)) ∨
      (¬ Erasable ix env nodeId maxM ∧ ∃ e, ix.eraseNode D env nodeId maxM = (.error e, ix)) ∨
      (¬ Erasable ix env nodeId maxM ∧ 0 ≤ nodeId ∧
        ∃ e, ix.eraseNode D env nodeId maxM = (.error e, ix.wipeRow (asSize nodeId))) := by
  have hover : ∀ e, ix.overwriteVector env nodeId = (.error e, ix) →
      ¬ Erasable ix env nodeId maxM := by
    intro e he h
    rw [overwriteVector, ensureNode_eq_ok.mpr ⟨h.loaded, h.nonneg, h.lt⟩] at he
    simp [h.overwrite] at he
  rcases overwriteVector_cases env nodeId ix with ⟨hnode, hlock, hov⟩ | ⟨e, hov⟩
  · obtain ⟨hl, h0, hlt⟩ := ensureNode_eq_ok.mp hnode
    rcases healGraphStructure_cases (D := D) (ix.wipeRow (asSize nodeId)) env (asSize nodeId) maxM
      with
      ⟨⟨hm, -, -, hlocks⟩, hm', hsucc, hheal⟩ | ⟨hno, e, hheal⟩
    · refine Or.inl ⟨⟨hl, h0, hlt, hm, hlock, hlocks⟩, _, ?_,
        by rw [eraseNode, hov]; simp only [hheal]; rfl⟩
      exact hsucc
    · refine Or.inr (Or.inr ⟨fun h => hno ⟨h.maxM_pos, ?_, ?_, h.locks⟩, h0, e, ?_⟩)
      · rw [wipeRow_isLoaded]
        exact hl
      · exact hlt
      · rw [eraseNode, hov]
        simp only [hheal]
  · exact Or.inr (Or.inl ⟨hover e hov, e, by rw [eraseNode, hov]⟩)

/-- The index a successful erasure leaves. -/
theorem eq_healed_of_eraseNode {ix ix' : Index} {env : NativeEnv} {q maxM : ℤ}
    {r : ErasureResult} (h : ix.eraseNode D env q maxM = (.ok r, ix')) :
    ix' = (ix.wipeRow (asSize q)).healed D (asSize q) maxM := by
  rcases eraseNode_cases (D := D) ix env q maxM with
    ⟨-, r', -, hok⟩ | ⟨-, e, herr⟩ | ⟨-, -, e, herr⟩
  · rw [hok] at h
    exact (Prod.mk.inj h).2.symm
  · rw [herr] at h
    cases (Prod.mk.inj h).1
  · rw [herr] at h
    cases (Prod.mk.inj h).1

end Outcomes

/-! ## Where the erased label survives -/

section Severing

variable {D : Type} [FloatArith D]

theorem le_foldl_max {f : ℤ → ℕ} (l : List ℤ) (m : ℕ) :
    m ≤ l.foldl (fun m n => max m (f n)) m ∧ ∀ x ∈ l, f x ≤ l.foldl (fun m n => max m (f n)) m := by
  induction l generalizing m with
  | nil => exact ⟨le_rfl, by simp⟩
  | cons y rest ih =>
    obtain ⟨hm, hrest⟩ := ih (max m (f y))
    rw [List.foldl_cons]
    refine ⟨le_trans (le_max_left _ _) hm, fun x hx => ?_⟩
    rcases List.mem_cons.mp hx with rfl | hx
    · exact le_trans (le_max_right _ _) hm
    · exact hrest x hx

/-- No node of the region has a list at or above `max_layer_global`. -/
theorem nbrs_of_maxLayerGlobal_le {adj : Layered ℤ} {q : ℤ} {region : List ℤ} {v L : ℕ}
    (hv : v ∈ nodesOf region) (hL : maxLayerGlobal adj q region ≤ L) : adj.nbrs v L = [] := by
  have hle := (le_foldl_max (f := fun n => (adj.layersOf (asSize n)).length) region
    (adj.layersOf (asSize q)).length).2 v hv
  rw [asSize_natCast] at hle
  rw [Layered.nbrs, List.getElem?_eq_none (hle.trans hL)]
  rfl

theorem labels_collect (ix : Index) (n : ℕ) : Labels (ix.collectHealRegionUnlocked n) := by
  intro x hx
  obtain ⟨w, hw, -⟩ := mem_collectHealRegionUnlocked.mp hx
  exact ⟨w, hw⟩

/-- The region covers the lists the heal starts from. -/
theorem coversAt_collect (ix : Index) (n : ℕ) :
    CoversAt ix n (ix.collectHealRegionUnlocked n)
      (Layered.resize ix.numElements ix.adjacency) := by
  intro L x hx hr
  rw [Layered.nbrs_resize] at hx
  obtain ⟨w, rfl, hw⟩ := inRange_iff.mp hr
  exact mem_collectHealRegionUnlocked.mpr ⟨w, rfl, Or.inr ⟨hw, Or.inl ⟨L, hx⟩⟩⟩

/-- The lists that hold `n` after the heal under its locks. -/
theorem mem_nbrs_healLocked (ix : Index) (n : ℕ) (maxM : ℤ) (v L : ℕ) :
    (n : ℤ) ∈ (ix.healLocked D n (ix.collectHealRegionUnlocked n) maxM).adjacency.nbrs v L ↔
      (n : ℤ) ∈ ix.adjacency.nbrs v L ∧ ¬ ix.InHealRegion n v := by
  have hn : n ∈ nodesOf (ix.collectHealRegionUnlocked n) := mem_nodesOf_collect.mpr (Or.inl rfl)
  obtain ⟨hpr, hgone⟩ := healLayers_spec (D := D)
    (s := ⟨Layered.resize ix.numElements ix.adjacency, 0, 0⟩)
    hn (labels_collect ix n) (coversAt_collect ix n) maxM
    (maxLayerGlobal (Layered.resize ix.numElements ix.adjacency) n (ix.collectHealRegionUnlocked n))
  rw [healLocked, clearNode, Layered.nbrs_clear, ← mem_nodesOf_collect]
  by_cases hv : v = n
  · rw [if_pos hv, hv]
    exact iff_of_false List.not_mem_nil fun h => h.2 hn
  · rw [if_neg hv]
    constructor
    · intro hmem
      refine ⟨by simpa using hpr.mem_of_mem hmem, fun hreg => ?_⟩
      -- below the bound the layer was processed, above it there was no list
      by_cases hL : L < maxLayerGlobal (Layered.resize ix.numElements ix.adjacency) n
          (ix.collectHealRegionUnlocked n)
      · exact hgone v hreg hv L hL hmem
      · have hold := hpr.mem_of_mem hmem
        rw [nbrs_of_maxLayerGlobal_le (q := n) hreg (Nat.le_of_not_lt hL)] at hold
        cases hold
    · rintro ⟨hmem, hout⟩
      exact hpr.keeps hout (by simpa using hmem)

theorem nbrs_healLocked_self (ix : Index) (n : ℕ) (region : List ℤ) (maxM : ℤ) (L : ℕ) :
    (ix.healLocked D n region maxM).adjacency.nbrs n L = [] := by
  rw [healLocked, clearNode, Layered.nbrs_clear, if_pos rfl]

/-- **Severing.** After a successful erasure of `q` all its lists are empty, and a
list of another node holds `q` if and only if it did before and the node is
outside the two-hop region of `q`. -/
theorem mem_nbrs_eraseNode {ix ix' : Index} {env : NativeEnv} {q : ℕ} {maxM : ℤ}
    {r : ErasureResult} (h : ix.eraseNode D env q maxM = (.ok r, ix')) :
    (∀ L, ix'.adjacency.nbrs q L = []) ∧
      ∀ v L, (q : ℤ) ∈ ix'.adjacency.nbrs v L ↔
        (q : ℤ) ∈ ix.adjacency.nbrs v L ∧ ¬ ix.InHealRegion q v := by
  obtain rfl := eq_healed_of_eraseNode h
  refine ⟨fun L => nbrs_healLocked_self _ q _ maxM L, fun v L => ?_⟩
  exact mem_nbrs_healLocked (D := D) (ix.wipeRow q) q maxM v L

/-- Two nodes, an edge from the first to the second. -/
def oneArc : Index where
  data := some ⟨[1065353216, 1073741824], by decide⟩
  ownsData := true
  dim := 1
  numElements := 2
  entrypoint := 0
  adjacency := [[[1]], [[]]]

/-- On `oneArc` the erasure of the first node severs it. -/
theorem mem_nbrs_eraseNode_oneArc : ∃ r ix',
    oneArc.eraseNode Float .calm (0 : ℕ) 16 = (.ok r, ix') ∧ (∀ L, ix'.adjacency.nbrs 0 L = []) ∧
      ∀ v L, ((0 : ℕ) : ℤ) ∈ ix'.adjacency.nbrs v L ↔
        ((0 : ℕ) : ℤ) ∈ oneArc.adjacency.nbrs v L ∧ ¬ oneArc.InHealRegion 0 v := by
  have hok : ∃ r ix', oneArc.eraseNode Float .calm (0 : ℕ) 16 = (.ok r, ix') := ⟨_, _, rfl⟩
  obtain ⟨r, ix', h⟩ := hok
  exact ⟨r, ix', h, mem_nbrs_eraseNode h⟩

/-- The second node has no edges of its own: its erasure succeeds and the first
node still lists it. -/
theorem oneArc_still_lists_erased :
    ¬ ∀ (ix : Index) (q : ℕ) (maxM : ℤ), q < ix.numElements → 0 < maxM →
      ix.adjacency.length = ix.numElements →
      (∀ nb ∈ ix.adjacency.flatten.flatten, ix.inRange nb = true) →
      ∀ r ix', ix.eraseNode Float .calm q maxM = (.ok r, ix') →
        ∀ v L, (q : ℤ) ∉ ix'.adjacency.nbrs v L := by
  intro h
  exact h oneArc 1 16 (by decide) (by decide) (by decide) (by decide) _ _ rfl 0 0 (by decide)

end Severing

/-! ## The entrypoint along a sequence of erasures -/

/-- A call of `erase_node` and what it meets. -/
structure EraseCall where
  env : NativeEnv
  nodeId : ℤ
  maxM : ℤ

/-- A sequence of calls that all return; `none` if one of them throws. -/
def eraseAll (D : Type) [FloatArith D] : List EraseCall → Index → Option Index
  | [], ix => some ix
  | c :: rest, ix => match ix.eraseNode D c.env c.nodeId c.maxM with
    | (.ok _, ix') => eraseAll D rest ix'
    | (.error _, _) => none

/-- The labels the calls name. -/
def erasedLabels (calls : List EraseCall) : List ℤ := calls.map EraseCall.nodeId

/-- The entry selection of `search_knn`. -/
def searchEntry (ix : Index) (entryNode : ℤ) : ℤ :=
  let curr := if entryNode < 0 then ix.entrypoint else entryNode
  if curr < 0 ∨ ix.numElements ≤ asSize curr then 0 else curr

/-- The entrypoint is a label in range that was not erased, and searches start there. -/
def EntrypointLive (erased : List ℤ) (ix : Index) : Prop :=
  ix.inRange ix.entrypoint = true ∧ ix.entrypoint ∉ erased ∧ ix.searchEntry (-1) ∉ erased

/-- The label that replaces a retired entrypoint: the lowest other one. -/
def replacement (q : ℤ) : ℤ := if q = 0 then 1 else 0

/-- The call does not retire the entrypoint to a label erased before. -/
def RetiresLive (erased : List ℤ) (ix : Index) (c : EraseCall) : Prop :=
  c.nodeId = ix.entrypoint → replacement c.nodeId ∉ erased

section Entrypoint

variable {D : Type} [FloatArith D]

theorem searchEntry_eq {ix : Index} (h : ix.inRange ix.entrypoint = true) :
    ix.searchEntry (-1) = ix.entrypoint := by
  obtain ⟨v, hv, hlt⟩ := inRange_iff.mp h
  have hcurr : (if (-1 : ℤ) < 0 then ix.entrypoint else -1) = v := hv
  rw [searchEntry, hcurr, asSize_natCast, if_neg (by omega), hv]

theorem entrypointLive_iff {erased : List ℤ} {ix : Index} :
    EntrypointLive erased ix ↔ ix.inRange ix.entrypoint = true ∧ ix.entrypoint ∉ erased := by
  constructor
  · exact fun h => ⟨h.1, h.2.1⟩
  · exact fun h => ⟨h.1, h.2, by rw [searchEntry_eq h.1]; exact h.2⟩

/-- With another node in the index, retirement goes to `replacement`. -/
theorem retireEntrypoint_self {ix : Index} {n : ℕ} (h : 2 ≤ ix.numElements) :
    ix.retireEntrypoint n n = replacement n := by
  obtain ⟨k, hk⟩ := Nat.exists_eq_add_of_le h
  rw [retireEntrypoint, if_pos rfl, hk, Nat.add_comm 2 k, List.range_succ_eq_map,
    List.range_succ_eq_map]
  by_cases hn : n = 0
  · subst hn
    rfl
  · rw [List.find?_cons_of_pos (by simpa using fun h => hn h.symm), replacement,
      if_neg (by exact_mod_cast hn)]
    rfl

theorem eraseAll_append (p t : List EraseCall) (ix : Index) :
    eraseAll D (p ++ t) ix = (eraseAll D p ix).bind (eraseAll D t) := by
  induction p generalizing ix with
  | nil => rfl
  | cons d rest ih =>
    rw [List.cons_append, eraseAll, eraseAll]
    rcases ix.eraseNode D d.env d.nodeId d.maxM with ⟨e | r, ix'⟩
    · rfl
    · exact ih ix'

/-- Every prefix of a sequence that returns returns too. -/
theorem eraseAll_prefix {p calls : List EraseCall} {ix : Index} (hp : p <+: calls)
    (hrun : (eraseAll D calls ix).isSome = true) : ∃ ix', eraseAll D p ix = some ix' := by
  obtain ⟨t, rfl⟩ := hp
  rw [eraseAll_append] at hrun
  rcases h : eraseAll D p ix with _ | ix'
  · rw [h] at hrun
    cases hrun
  · exact ⟨ix', rfl⟩

/-- One erasure: the number of nodes stays, and the entrypoint is kept or retired. -/
theorem eraseAll_singleton {c : EraseCall} {ix ix' : Index} (h : eraseAll D [c] ix = some ix') :
    ix'.numElements = ix.numElements ∧ ∃ n : ℕ, c.nodeId = n ∧ n < ix.numElements ∧
      ix'.entrypoint = ix.retireEntrypoint ix.entrypoint n := by
  rw [eraseAll] at h
  rcases eraseNode_cases (D := D) ix c.env c.nodeId c.maxM with
    ⟨hok, r, -, heq⟩ | ⟨-, e, heq⟩ | ⟨-, -, e, heq⟩
  · rw [heq] at h
    obtain rfl := Option.some.inj h
    refine ⟨rfl, asSize c.nodeId, ?_, hok.lt, rfl⟩
    rw [asSize_of_nonneg hok.nonneg, Int.toNat_of_nonneg hok.nonneg]
  · rw [heq] at h
    cases h
  · rw [heq] at h
    cases h

theorem numElements_eraseAll {calls : List EraseCall} {ix ix' : Index}
    (h : eraseAll D calls ix = some ix') : ix'.numElements = ix.numElements := by
  induction calls using List.reverseRecOn generalizing ix' with
  | nil => rw [← Option.some.inj h]
  | append_singleton p c ih =>
    rw [eraseAll_append] at h
    obtain ⟨ix₁, h₁, h₂⟩ := Option.bind_eq_some_iff.mp h
    rw [(eraseAll_singleton h₂).1, ih h₁]

/-- **One step.** From a live entrypoint, the next one is live exactly when the
call does not retire it to an erased label. -/
theorem entrypointLive_step {erased : List ℤ} {c : EraseCall} {ix ix' : Index}
    (hlive : EntrypointLive erased ix) (htwo : 2 ≤ ix.numElements)
    (h : eraseAll D [c] ix = some ix') :
    EntrypointLive (erased ++ [c.nodeId]) ix' ↔ RetiresLive erased ix c := by
  obtain ⟨hN, n, hn, hlt, hep⟩ := eraseAll_singleton h
  obtain ⟨hr, hnot⟩ := entrypointLive_iff.mp hlive
  rw [entrypointLive_iff, hep, RetiresLive, hn, List.mem_append, List.mem_singleton]
  by_cases heq : ix.entrypoint = n
  · rw [heq, retireEntrypoint_self htwo]
    have hin : ix'.inRange (replacement n) = true := by
      refine inRange_iff.mpr ?_
      rw [hN, replacement]
      split
      · exact ⟨1, rfl, htwo⟩
      · exact ⟨0, rfl, by omega⟩
    have hne : replacement (n : ℤ) ≠ n := by
      rw [replacement]
      split <;> omega
    constructor
    · exact fun h _ hmem => h.2 (Or.inl hmem)
    · exact fun h => ⟨hin, fun hmem => hmem.elim (h rfl) hne⟩
  · rw [retireEntrypoint, if_neg heq]
    refine iff_of_true ⟨?_, ?_⟩ fun h => absurd h.symm heq
    · obtain ⟨v, hv, hvlt⟩ := inRange_iff.mp hr
      exact inRange_iff.mpr ⟨v, hv, by rwa [hN]⟩
    · rintro (hmem | hmem)
      · exact hnot hmem
      · exact heq hmem

/-- A sequence that erases something but not everything runs on two nodes at least. -/
theorem two_le_of_few {calls p : List EraseCall} {c : EraseCall} {N : ℕ}
    (hpre : p ++ [c] <+: calls) (hfew : (erasedLabels calls).toFinset.card < N) : 2 ≤ N := by
  have hc : c.nodeId ∈ (erasedLabels calls).toFinset := by
    rw [List.mem_toFinset]
    exact List.mem_map_of_mem (hpre.subset (List.mem_append_right p List.mem_cons_self))
  have := Finset.card_pos.mpr ⟨_, hc⟩
  omega

/-- **The entrypoint along a run.** Over a sequence of successful erasures that
names fewer than `N` distinct labels, from a live entrypoint: the entrypoint is
live after every prefix if and only if no call retires it to a label erased
earlier in the sequence. -/
theorem entrypoint_live_iff {ix : Index} {calls : List EraseCall}
    (hstart : ix.inRange ix.entrypoint = true)
    (hfew : (erasedLabels calls).toFinset.card < ix.numElements)
    (hrun : (eraseAll D calls ix).isSome = true) :
    (∀ p ix', p <+: calls → eraseAll D p ix = some ix' → EntrypointLive (erasedLabels p) ix') ↔
      ∀ p c ix', p ++ [c] <+: calls → eraseAll D p ix = some ix' →
        RetiresLive (erasedLabels p) ix' c := by
  have hstep : ∀ p c, p ++ [c] <+: calls → ∀ ix', eraseAll D p ix = some ix' →
      EntrypointLive (erasedLabels p) ix' →
      ∃ ix'', eraseAll D (p ++ [c]) ix = some ix'' ∧
        (EntrypointLive (erasedLabels (p ++ [c])) ix'' ↔ RetiresLive (erasedLabels p) ix' c) := by
    intro p c hp ix' h hl
    obtain ⟨ix'', h''⟩ := eraseAll_prefix hp hrun
    refine ⟨ix'', h'', ?_⟩
    have htwo : 2 ≤ ix'.numElements := by
      rw [numElements_eraseAll h]
      exact two_le_of_few hp hfew
    rw [eraseAll_append, h, Option.bind_some] at h''
    rw [erasedLabels, List.map_append, List.map_cons, List.map_nil]
    exact entrypointLive_step hl htwo h''
  constructor
  · intro hall p c ix' hp h
    have hp' : p <+: calls := (List.prefix_append p [c]).trans hp
    obtain ⟨ix'', h'', hiff⟩ := hstep p c hp ix' h (hall p ix' hp' h)
    exact hiff.mp (hall _ ix'' hp h'')
  · intro hall p
    induction p using List.reverseRecOn with
    | nil =>
      intro ix' _ h
      obtain rfl := Option.some.inj h
      exact entrypointLive_iff.mpr ⟨hstart, List.not_mem_nil⟩
    | append_singleton p c ih =>
      intro ix' hp h
      have hp' : p <+: calls := (List.prefix_append p [c]).trans hp
      obtain ⟨ix₁, h₁⟩ := eraseAll_prefix hp' hrun
      obtain ⟨ix'', h'', hiff⟩ := hstep p c hp ix₁ h₁ (ih ix₁ hp' h₁)
      rw [h] at h''
      rw [Option.some.inj h'']
      exact hiff.mpr (hall p c ix₁ hp h₁)

end Entrypoint

/-- Three nodes without edges, as `load_index` leaves them. -/
def threeNodes : Index where
  data := some ⟨[1065353216, 1073741824, 1077936128], by decide⟩
  ownsData := true
  dim := 1
  numElements := 3
  entrypoint := 0
  adjacency := [[], [], []]

/-- The call `erase_node(n)` without contention. -/
def eraseCall (n : ℤ) : EraseCall := ⟨.calm, n, 16⟩

theorem entrypoint_live_iff_two_then_one :
    (∀ p ix', p <+: [eraseCall 2, eraseCall 1] → eraseAll Float p threeNodes = some ix' →
        EntrypointLive (erasedLabels p) ix') ↔
      ∀ p c ix', p ++ [c] <+: [eraseCall 2, eraseCall 1] → eraseAll Float p threeNodes = some ix' →
        RetiresLive (erasedLabels p) ix' c :=
  entrypoint_live_iff (by decide) (by decide) (by decide)

/-- Erasing `0` moves the entrypoint to `1`, erasing `1` moves it back to `0`. -/
theorem entrypoint_returns_to_erased :
    ¬ ∀ (ix : Index) (calls : List EraseCall), ix.inRange ix.entrypoint = true →
      (erasedLabels calls).toFinset.card < ix.numElements →
      ∀ ix', eraseAll Float calls ix = some ix' → ix'.entrypoint ∉ erasedLabels calls := by
  intro h
  exact h threeNodes [eraseCall 0, eraseCall 1] (by decide) (by decide) _ rfl (by decide)

end Index

end Unlearning
