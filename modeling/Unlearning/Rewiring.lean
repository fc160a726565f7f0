import Mathlib.Data.Finset.Card
import Mathlib.Data.Rat.Sqrt
import Mathlib.Logic.Relation
import Unlearning.Capped
import Unlearning.Recall

/-!
# What a heal costs (`erase_node` against `prune_adjacency`)

A heal adds edges between the orphans of `q`, the labels its list held, but under the degree cap
it also evicts: a full list gives up its furthest label for a closer orphan, and the evicted label
gives up the edge back. So a node that was reachable after plain pruning can be lost
(`eraseNode_loses_reachability`). What is lost is bounded here.

* `load` counts what a list holds and the orphans it can still be offered. An orphan whose load
  is within the cap never evicts: the count is kept by an insertion and lowered by the evictions
  of others. An orphan over the cap is `Crowded`.
* `Rewire` is one write of the insertions, `Kept` the invariant of a sequence of them.
* An edge is `AtRisk` if one of its ends is crowded and some orphan is closer to that end than
  the other one. All other edges of the pruned graph are there after the heal.
-/

namespace Unlearning

namespace Index

/-- `u` lists `v` on layer 0. -/
def BaseEdge (ix : Index) (u v : ℕ) : Prop := (v : ℤ) ∈ ix.adjacency.nbrs u 0

/-- `v` is reachable from `u` on layer 0. -/
def Reaches (ix : Index) : ℕ → ℕ → Prop := Relation.ReflTransGen ix.BaseEdge

/-! ## Load -/

/-- The labels of the list of `u`, and the labels of `O` that it could still be given. -/
def load (O : Finset ℤ) (u : ℤ) (l : List ℤ) : ℕ := l.length + (O \ insert u l.toFinset).card

section Load

variable {O : Finset ℤ} {u w : ℤ} {l : List ℤ}

/-- A label that is offered and taken was counted before. -/
theorem load_append (hw : w ∈ O) (hne : w ≠ u) (hnot : w ∉ l) :
    load O u (l ++ [w]) = load O u l := by
  have hmem : w ∈ O \ insert u l.toFinset := by simp [hw, hne, hnot]
  have hrest : O \ insert u (l ++ [w]).toFinset = (O \ insert u l.toFinset).erase w := by
    ext x
    simp only [Finset.mem_sdiff, Finset.mem_insert, List.mem_toFinset, List.mem_append,
      List.mem_singleton, Finset.mem_erase]
    tauto
  have hcard := Finset.card_erase_add_one hmem
  rw [load, load, hrest, List.length_append, List.length_singleton]
  omega

/-- A label that is dropped can be offered again. -/
theorem load_filter_le (O : Finset ℤ) (u x : ℤ) (l : List ℤ) :
    load O u (l.filter (· ≠ x)) ≤ load O u l := by
  by_cases hx : x ∈ l
  · have hshort : (l.filter (· ≠ x)).length < l.length := by
      rw [List.length_filter_lt_length_iff_exists]
      exact ⟨x, hx, by simp⟩
    have hsub : O \ insert u (l.filter (· ≠ x)).toFinset ⊆ insert x (O \ insert u l.toFinset) := by
      intro y hy
      simp only [Finset.mem_sdiff, Finset.mem_insert, List.mem_toFinset, List.mem_filter,
        decide_eq_true_eq] at hy ⊢
      tauto
    have hcard := (Finset.card_le_card hsub).trans (Finset.card_insert_le _ _)
    rw [load, load]
    omega
  · rw [List.filter_eq_self.mpr]
    intro y hy
    rw [decide_eq_true_iff]
    rintro rfl
    exact hx hy

/-- Within the cap, a list that can be offered something is not full. -/
theorem length_lt_of_load {maxM : ℤ} (hload : (load O u l : ℤ) ≤ maxM) (hw : w ∈ O) (hne : w ≠ u)
    (hnot : w ∉ l) : (l.length : ℤ) < maxM := by
  have hpos : 0 < (O \ insert u l.toFinset).card :=
    Finset.card_pos.mpr ⟨w, by simp [hw, hne, hnot]⟩
  rw [load] at hload
  omega

end Load

/-! ## Edges that an eviction can take -/

/-- An orphan that cannot take every orphan it may be offered. -/
def Crowded (p : Index) (O : Finset ℤ) (maxM : ℤ) (u : ℤ) : Prop :=
  u ∈ O ∧ maxM < load O u (p.adjacency.nbrs (asSize u) 0)

instance (p : Index) (O : Finset ℤ) (maxM u : ℤ) : Decidable (p.Crowded O maxM u) :=
  inferInstanceAs (Decidable (u ∈ O ∧ maxM < load O u (p.adjacency.nbrs (asSize u) 0)))

/-- A crowded orphan with another orphan closer to it than `b`. -/
def MayEvict (D : Type) [FloatArith D] (p : Index) (O : Finset ℤ) (maxM : ℤ) (u b : ℤ) : Prop :=
  p.Crowded O maxM u ∧
    ∃ w ∈ O, w ≠ u ∧ FloatArith.lt (p.distance D u w) (p.distance D u b) = true

/-- An edge that one of its ends may evict. -/
def AtRisk (D : Type) [FloatArith D] (p : Index) (O : Finset ℤ) (maxM : ℤ) (a b : ℕ) : Prop :=
  p.MayEvict D O maxM a b ∨ p.MayEvict D O maxM b a

/-! ## One write -/

/-- **One write of the insertions at a layer**, between the labels of `O`. -/
inductive Rewire (D : Type) [FloatArith D] (ix : Index) (O : Finset ℤ) (maxM : ℤ) (L : ℕ)
    (g g' : Layered ℤ) : Prop where
  | same (h : ∀ v K, g'.nbrs v K = g.nbrs v K)
  | add {u w : ℤ} (hu : u ∈ O) (hw : w ∈ O) (hne : w ≠ u) (hnot : w ∉ g.nbrs (asSize u) L)
      (h : ∀ v K, g'.nbrs v K =
        if v = asSize u ∧ K = L then g.nbrs (asSize u) L ++ [w] else g.nbrs v K)
  | evict {u w far : ℤ} (hu : u ∈ O) (hw : w ∈ O) (hne : w ≠ u)
      (hnot : w ∉ g.nbrs (asSize u) L) (hfull : ¬ asInt (g.nbrs (asSize u) L).length < maxM)
      (hcloser : FloatArith.lt (ix.distance D u w) (ix.distance D u far) = true)
      (hkeep : ∀ v K, ∀ y ∈ g.nbrs v K, y ∈ g'.nbrs v K ∨
        K = L ∧ (v = asSize u ∧ y = far ∨ v = asSize far ∧ y = u))
      (hother : ∀ v K, ¬ (v = asSize u ∧ K = L) → g'.nbrs v K = g.nbrs v K ∨
        K = L ∧ g'.nbrs v K = (g.nbrs v K).filter (· ≠ u))

/-- A sequence of writes. -/
abbrev Rewires (D : Type) [FloatArith D] (ix : Index) (O : Finset ℤ) (maxM : ℤ) (L : ℕ) :
    Layered ℤ → Layered ℤ → Prop :=
  Relation.ReflTransGen (Rewire D ix O maxM L)

section Writes

variable {D : Type} [FloatArith D] {ix : Index} {O : Finset ℤ} {maxM : ℤ} {L : ℕ}
  {g g' : Layered ℤ}

theorem Rewire.nbrs_eq (h : Rewire D ix O maxM L g g') {K : ℕ} (hK : K ≠ L) (v : ℕ) :
    g'.nbrs v K = g.nbrs v K := by
  cases h with
  | same h => exact h v K
  | add hu hw hne hnot h => rw [h, if_neg fun hplace => hK hplace.2]
  | evict hu hw hne hnot hfull hcloser hkeep hother =>
    rcases hother v K fun hplace => hK hplace.2 with heq | ⟨hL, -⟩
    · exact heq
    · exact absurd hL hK

/-- Other layers are not touched. -/
theorem Rewires.nbrs_eq (h : Rewires D ix O maxM L g g') {K : ℕ} (hK : K ≠ L) (v : ℕ) :
    g'.nbrs v K = g.nbrs v K := by
  induction h with
  | refl => rfl
  | tail _ hstep ih => rw [hstep.nbrs_eq hK, ih]

theorem rewires_slot (N v K : ℕ) (s : HealWork) :
    Rewires D ix O maxM L s.adjacency (s.slot N v K).adjacency :=
  .single (.same fun w K' => nbrs_ensureLayerSlot N s.adjacency v K w K')

variable (hsqrt : ∀ x : D, FloatArith.lt (FloatArith.sqrt x) FloatArith.negOne = false)
include hsqrt

theorem rewires_ensureCapacityFor {u w : ℤ} (hu : u ∈ O) (hw : w ∈ O) (hne : w ≠ u)
    (s : HealWork) :
    Rewires D ix O maxM L s.adjacency (ix.ensureCapacityFor D u w L maxM s).2.adjacency := by
  rcases ensureCapacityFor_cases (D := D) ix u w L maxM s with
    ⟨fits, heq, -⟩ | ⟨hnot, hfull, hcloser, heq⟩
  · rw [heq]
    exact rewires_slot _ _ _ s
  · rw [heq]
    rcases furthest_dist (D := D) ix u (s.adjacency.nbrs (asSize u) L) with
      hneg | ⟨far, hfar, hdist⟩
    · -- a distance is a square root, so it is not below the start value
      rw [hneg, distance, l2Distance, hsqrt] at hcloser
      cases hcloser
    · rw [hdist] at hcloser
      have hslot : ∀ v K, (s.slot ix.numElements (asSize u) L).adjacency.nbrs v K =
          s.adjacency.nbrs v K := nbrs_ensureLayerSlot _ _ _ _
      refine .single (.evict hu hw hne hnot hfull hcloser (fun v K y hy => ?_) fun v K hv => ?_)
      · exact mem_evict (by rw [hslot]; exact hfar) (by rwa [hslot])
      · rw [← hslot v K]
        exact nbrs_evict_other _ _ _ _ _ hv

/-- Insertions between labels of `O` are sequences of writes. -/
theorem composes_rewires :
    Composes D ix L maxM (fun u w => u ∈ O ∧ w ∈ O ∧ w ≠ u) (Rewires D ix O maxM L) where
  refl _ := .refl
  trans := .trans
  slot v s := rewires_slot ix.numElements v L s
  capacity hp s := rewires_ensureCapacityFor hsqrt hp.1 hp.2.1 hp.2.2 s
  append {u w} hp g hnot := by
    obtain ⟨hu, hw, hne⟩ := hp
    rcases Layered.nbrs_put_cases g (asSize u) L (g.nbrs (asSize u) L ++ [w]) with heq | ⟨-, heq⟩
    · exact .single (.add hu hw hne hnot heq)
    · exact .single (.same heq)

/-- **One layer** is its isolation and a sequence of writes between its orphans. -/
theorem rewires_healLayer (n : ℕ) (region : List ℤ) (s : HealWork) :
    Rewires D ix (ix.orphans s.adjacency n L).toFinset maxM L
      (ix.isolate n region L s).adjacency (ix.healLayer D n region maxM s L).adjacency := by
  simp only [healLayer]
  split
  · exact .refl
  · refine List.foldlRecOn (motive := fun t : HealWork =>
      Rewires D ix (ix.orphans s.adjacency n L).toFinset maxM L
        (ix.isolate n region L s).adjacency t.adjacency)
      (ix.rankedCandidates D (ix.orphans s.adjacency n L)) _ .refl ?_
    intro t ih c hc
    obtain ⟨hu, hw⟩ := mem_candidates (List.mem_mergeSort.mp hc)
    exact ih.trans ((composes_rewires hsqrt).tryInsertHealedEdge (fun hne =>
      ⟨⟨List.mem_toFinset.mpr hu, List.mem_toFinset.mpr hw, hne.symm⟩,
        List.mem_toFinset.mpr hw, List.mem_toFinset.mpr hu, hne⟩) t)

end Writes

/-! ## What a sequence of writes keeps -/

/-- **The invariant of the insertions**, against the pruned index `p`. -/
structure Kept (D : Type) [FloatArith D] (p : Index) (O : Finset ℤ) (maxM : ℤ) (g : Layered ℤ) :
    Prop where
  /-- edges that are not at risk are there -/
  edges : ∀ {a b : ℕ}, p.BaseEdge a b → ¬ p.AtRisk D O maxM a b → (b : ℤ) ∈ g.nbrs a 0
  /-- orphans that are not crowded stay within the cap -/
  loads : ∀ u ∈ O, ¬ p.Crowded O maxM u → (load O u (g.nbrs (asSize u) 0) : ℤ) ≤ maxM

section Keeping

variable {D : Type} [FloatArith D] {ix p : Index} {O : Finset ℤ} {maxM : ℤ} {g g' : Layered ℤ}

/-- Only a crowded orphan evicts. -/
theorem Kept.crowded_of_full (h : Kept D p O maxM g) (hmax : maxM < 2 ^ 31) {u w : ℤ} (hu : u ∈ O)
    (hw : w ∈ O) (hne : w ≠ u) (hnot : w ∉ g.nbrs (asSize u) 0)
    (hfull : ¬ asInt (g.nbrs (asSize u) 0).length < maxM) : p.Crowded O maxM u := by
  by_contra hfree
  have hroom := length_lt_of_load (h.loads u hu hfree) hw hne hnot
  rw [asInt_of_lt (by omega)] at hfull
  exact hfull hroom

variable (hdist : p.distance D = ix.distance D) (hmax : maxM < 2 ^ 31) (hO : ∀ u ∈ O, 0 ≤ u)
include hdist hmax hO

/-- **One write** keeps the invariant. -/
theorem Kept.rewire (h : Kept D p O maxM g) (hstep : Rewire D ix O maxM 0 g g') :
    Kept D p O maxM g' := by
  have hlabel : ∀ u ∈ O, u = (asSize u : ℤ) := by
    intro u hu
    rw [asSize_of_nonneg (hO u hu), Int.toNat_of_nonneg (hO u hu)]
  cases hstep with
  | same heq =>
    refine ⟨fun {a b} hedge hrisk => ?_, fun u hu hfree => ?_⟩
    · rw [heq]
      exact h.edges hedge hrisk
    · rw [heq]
      exact h.loads u hu hfree
  | @add u w hu hw hne hnot heq =>
    refine ⟨fun {a b} hedge hrisk => ?_, fun u' hu' hfree => ?_⟩
    · have hold := h.edges hedge hrisk
      rw [heq]
      split
      · rename_i hplace
        rw [hplace.1] at hold
        exact List.mem_append_left _ hold
      · exact hold
    · have hold := h.loads u' hu' hfree
      rw [heq]
      split
      · rename_i hplace
        have hsame : u' = u := by rw [hlabel u' hu', hlabel u hu, hplace.1]
        subst hsame
        rwa [load_append hw hne hnot]
      · exact hold
  | @evict u w far hu hw hne hnot hfull hcloser hkeep hother =>
    have hcrowded := h.crowded_of_full hmax hu hw hne hnot hfull
    rw [← hdist] at hcloser
    refine ⟨fun {a b} hedge hrisk => ?_, fun u' hu' hfree => ?_⟩
    · -- the two edges that go are at risk through `u`
      rcases hkeep a 0 b (h.edges hedge hrisk) with hmem | ⟨-, ⟨ha, hb⟩ | ⟨ha, hb⟩⟩
      · exact hmem
      · have hua : u = a := by rw [hlabel u hu, ha]
        refine absurd (Or.inl ⟨hua ▸ hcrowded, w, hw, hua ▸ hne, ?_⟩) hrisk
        rw [hb, ← hua]
        exact hcloser
      · refine absurd (Or.inr ⟨hb ▸ hcrowded, w, hw, hb ▸ hne, ?_⟩) hrisk
        rw [hb, ha]
        simpa [distance] using hcloser
    · have hne' : asSize u' ≠ asSize u := by
        intro heq
        rw [hlabel u hu, ← heq, ← hlabel u' hu'] at hcrowded
        exact hfree hcrowded
      have hold := h.loads u' hu' hfree
      rcases hother (asSize u') 0 fun hplace => hne' hplace.1 with heq | ⟨-, heq⟩
      · rwa [heq]
      · rw [heq]
        have hle := load_filter_le O u' u (g.nbrs (asSize u') 0)
        omega

/-- A sequence of writes, by induction on it. -/
theorem Kept.rewires (h : Kept D p O maxM g) (hsteps : Rewires D ix O maxM 0 g g') :
    Kept D p O maxM g' := by
  induction hsteps with
  | refl => exact h
  | tail _ hstep ih => exact ih.rewire hdist hmax hO hstep

end Keeping

/-! ## The heal against plain pruning -/

/-- `p` is `ix` without the node `q`: the label and the lists of `q` are gone, nothing else. -/
structure Severed (D : Type) [FloatArith D] (q : ℕ) (ix p : Index) : Prop where
  dist : p.distance D = ix.distance D
  lists : ∀ v L, p.adjacency.nbrs v L =
    if v = q then [] else (ix.adjacency.nbrs v L).filter (· ≠ (q : ℤ))

/-- What `prune_adjacency` leaves. -/
theorem severed_pruneAdjacency {ix p : Index} {env : NativeEnv} {q : ℕ}
    (h : ix.pruneAdjacency env q = (.ok (), p)) (D : Type) [FloatArith D] :
    Severed D q ix p := by
  rw [pruneAdjacency] at h
  split at h
  · cases h
  · split at h
    · cases h
    · obtain ⟨-, rfl⟩ := Prod.mk.inj h
      refine ⟨rfl, fun v L => ?_⟩
      simp only [asSize_natCast]
      rw [Layered.nbrs_clear, Layered.nbrs_map (by rfl)]

section Heal

variable {D : Type} [FloatArith D] {ix p : Index} {maxM : ℤ} {q : ℕ}

/-- An edge of the pruned graph is one of the index, between other nodes than `q`. -/
theorem Severed.mem (h : Severed D q ix p) {a b : ℕ} (hedge : p.BaseEdge a b) :
    a ≠ q ∧ (b : ℤ) ∈ (ix.adjacency.nbrs a 0).filter (· ≠ (q : ℤ)) := by
  rw [BaseEdge, h.lists] at hedge
  split at hedge
  · cases hedge
  · rename_i ha
    exact ⟨ha, hedge⟩

/-- Layer 0, isolated, is the pruned graph as far as its edges and the orphans' lists go. -/
theorem kept_isolate (hprune : Severed D q ix p) {region : List ℤ} {s : HealWork}
    (hs : ∀ v L, s.adjacency.nbrs v L = ix.adjacency.nbrs v L) (hlab : Labels region)
    (hcov : CoversAt ix q region s.adjacency) :
    Kept D p (ix.orphans s.adjacency q 0).toFinset maxM (ix.isolate q region 0 s).adjacency := by
  obtain ⟨-, hother⟩ := nbrs_isolate ix q region 0 s
  refine ⟨fun {a b} hedge _ => ?_, fun u hu hfree => ?_⟩
  · obtain ⟨ha, hmem⟩ := hprune.mem hedge
    rcases hother a 0 fun hplace => ha hplace.1 with heq | ⟨-, heq⟩
    · rw [heq, hs]
      exact (List.mem_filter.mp hmem).1
    · rwa [heq, hs]
  · obtain ⟨hne, hin, hmem⟩ := mem_orphans (List.mem_toFinset.mp hu)
    obtain ⟨v, rfl, hv⟩ := inRange_iff.mp hin
    have hvq : v ≠ q := by exact_mod_cast hne
    -- an orphan is in the region, so its list has lost exactly the label `q`
    have hgone : (q : ℤ) ∉ (ix.isolate q region 0 s).adjacency.nbrs v 0 := by
      rw [isolate, asSize_natCast]
      exact not_mem_unlinkRegion hlab 0 _ (hcov 0 v (by simpa using hmem) hin) hvq
    have hlist : (ix.isolate q region 0 s).adjacency.nbrs v 0 = p.adjacency.nbrs v 0 := by
      rw [hprune.lists, if_neg hvq, ← hs]
      rcases hother v 0 fun hplace => hvq hplace.1 with heq | ⟨-, heq⟩
      · rw [heq] at hgone ⊢
        symm
        rw [List.filter_eq_self]
        intro y hy
        rw [decide_eq_true_iff]
        rintro rfl
        exact hgone hy
      · exact heq
    rw [asSize_natCast, hlist]
    by_contra hover
    refine hfree ⟨hu, ?_⟩
    rw [asSize_natCast]
    omega

variable (hsqrt : ∀ x : D, FloatArith.lt (FloatArith.sqrt x) FloatArith.negOne = false)
  (hmax : maxM < 2 ^ 31)
include hsqrt hmax

/-- **The layer loop** keeps the edges that are not at risk: layer 0 by the invariant of its
writes, and the layers above it do not touch layer 0. -/
theorem healLayers_keep (hprune : Severed D q ix p) {region : List ℤ} {s : HealWork}
    (hs : ∀ v L, s.adjacency.nbrs v L = ix.adjacency.nbrs v L)
    (hlab : Labels region) (hcov : CoversAt ix q region s.adjacency) {a b : ℕ}
    (hedge : p.BaseEdge a b)
    (hrisk : ¬ p.AtRisk D (ix.orphans s.adjacency q 0).toFinset maxM a b) (k : ℕ) :
    (b : ℤ) ∈ ((List.range k).foldl (ix.healLayer D q region maxM) s).adjacency.nbrs a 0 := by
  induction k with
  | zero =>
    rw [List.range_zero, List.foldl_nil, hs]
    exact (List.mem_filter.mp (hprune.mem hedge).2).1
  | succ k ih =>
    rw [List.range_succ, List.foldl_append, List.foldl_cons, List.foldl_nil]
    rcases Nat.eq_zero_or_pos k with rfl | hk
    · have hO : ∀ u ∈ (ix.orphans s.adjacency q 0).toFinset, 0 ≤ u := by
        intro u hu
        obtain ⟨-, hin, -⟩ := mem_orphans (List.mem_toFinset.mp hu)
        obtain ⟨v, rfl, -⟩ := inRange_iff.mp hin
        exact Int.natCast_nonneg v
      exact ((kept_isolate hprune hs hlab hcov).rewires hprune.dist hmax hO
        (rewires_healLayer hsqrt q region s)).edges hedge hrisk
    · rw [(rewires_healLayer hsqrt q region _).nbrs_eq (by omega)]
      rcases (nbrs_isolate ix q region k _).2 a 0 fun hplace => by omega with heq | ⟨hzero, -⟩
      · rwa [heq]
      · omega

end Heal

section Reachability

variable {D : Type} [FloatArith D] {ix wiped pruned healed : Index} {maxM : ℤ} {q : ℕ}
  {env₁ env₂ env₃ : NativeEnv} {r : ErasureResult}

/-- **An edge that is not at risk** is there after the erasure. -/
theorem baseEdge_eraseNode
    (hsqrt : ∀ x : D, FloatArith.lt (FloatArith.sqrt x) FloatArith.negOne = false)
    (hmax : maxM < 2 ^ 31) (hwipe : ix.overwriteVector env₁ q = (.ok (), wiped))
    (hprune : wiped.pruneAdjacency env₂ q = (.ok (), pruned))
    (herase : ix.eraseNode D env₃ q maxM = (.ok r, healed)) {a b : ℕ}
    (hedge : pruned.BaseEdge a b)
    (hrisk : ¬ pruned.AtRisk D (ix.orphans ix.adjacency q 0).toFinset maxM a b) :
    healed.BaseEdge a b := by
  obtain rfl := eq_wipeRow_of_overwriteVector hwipe
  have hhealed := eq_healed_of_eraseNode herase
  rw [asSize_natCast] at hhealed
  subst hhealed
  have hsevered := severed_pruneAdjacency hprune D
  have horph : (ix.wipeRow q).orphans
      (Layered.resize (ix.wipeRow q).numElements (ix.wipeRow q).adjacency) q 0 =
      ix.orphans ix.adjacency q 0 := by
    rw [orphans, Layered.nbrs_resize]
    rfl
  simp only [BaseEdge, Index.healed, healLocked, clearNode]
  rw [Layered.nbrs_clear, if_neg (hsevered.mem hedge).1]
  refine healLayers_keep hsqrt hmax hsevered (fun v L => Layered.nbrs_resize _ _ v L)
    (labels_collect _ q) (coversAt_collect _ q) hedge ?_ _
  rwa [horph]

/-- **What a heal keeps of the pruned graph.** On any index where `overwrite_vector(q);
prune_adjacency(q)` and `erase_node(q, maxM)` both succeed (`maxM` an `int`): a node that is
reachable on layer 0 of the pruned index over edges that are not at risk is reachable after the
erasure. If no orphan of `q` is crowded, every node reachable after pruning is. Of the arithmetic
it is only used that a square root is not below `-1`. -/
theorem eraseNode_keeps_reachability
    (hsqrt : ∀ x : D, FloatArith.lt (FloatArith.sqrt x) FloatArith.negOne = false)
    (hmax : maxM < 2 ^ 31) (hwipe : ix.overwriteVector env₁ q = (.ok (), wiped))
    (hprune : wiped.pruneAdjacency env₂ q = (.ok (), pruned))
    (herase : ix.eraseNode D env₃ q maxM = (.ok r, healed)) :
    let O := (ix.orphans ix.adjacency q 0).toFinset
    (∀ s x, Relation.ReflTransGen
        (fun a b => pruned.BaseEdge a b ∧ ¬ pruned.AtRisk D O maxM a b) s x → healed.Reaches s x) ∧
      ((∀ u ∈ O, ¬ pruned.Crowded O maxM u) →
        ∀ s x, pruned.Reaches s x → healed.Reaches s x) := by
  intro O
  refine ⟨fun s x hpath => ?_, fun hfree s x hpath => ?_⟩
  · exact Relation.ReflTransGen.mono
      (fun a b hab => baseEdge_eraseNode hsqrt hmax hwipe hprune herase hab.1 hab.2) s x hpath
  · refine Relation.ReflTransGen.mono (fun a b hab => ?_) s x hpath
    refine baseEdge_eraseNode hsqrt hmax hwipe hprune herase hab ?_
    rintro (⟨hcrowded, -⟩ | ⟨hcrowded, -⟩)
    · exact hfree a hcrowded.1 hcrowded
    · exact hfree b hcrowded.1 hcrowded

end Reachability

/-! ## The two outcomes, on exact distances -/

/-- Exact arithmetic; the root is exact on squares. -/
instance : FloatArith ℚ where
  ofFloat32 := float32Value
  zero := 0
  one := 1
  negOne := -1
  add := (· + ·)
  sub := (· - ·)
  mul := (· * ·)
  div := (· / ·)
  sqrt := Rat.sqrt
  lt a b := decide (a < b)
  eq a b := decide (a = b)

theorem distance_comm (ix : Index) (a b : ℤ) : ix.distance ℚ a b = ix.distance ℚ b a := by
  simp only [distance, l2Distance]
  congr 2
  funext acc i
  exact congrArg (acc + ·) (mul_self_eq_mul_self_iff.mpr (Or.inr (neg_sub _ _).symm))

theorem sqrt_not_lt (x : ℚ) :
    FloatArith.lt (FloatArith.sqrt x) (FloatArith.negOne : ℚ) = false := by
  have hroot := Rat.sqrt_nonneg x
  exact decide_eq_false (by show ¬ Rat.sqrt x < -1; linarith)

/-- A node with two neighbours; the first of them lists a node further away. -/
def fullSpoke : Index where
  data := some ⟨[0, 1065353216, 1073741824, 1093664768], by simp⟩
  ownsData := true
  dim := 1
  numElements := 4
  entrypoint := 0
  adjacency := [[[1, 2]], [[3]], [[]], [[]]]

/-- With lists of one label, the edge from `1` to `3` gives way to the one from `1` to `2`, and
`3` is lost to `1`: distances that are symmetric do not help. -/
theorem eraseNode_loses_reachability :
    (∀ ix a b, distance ℚ ix a b = distance ℚ ix b a) ∧
      ¬ ∀ ix : Index, ix.WellFormed → ∀ (q : ℕ) (maxM : ℤ), 0 < maxM →
        ∀ wiped pruned r healed, ix.overwriteVector .calm q = (.ok (), wiped) →
          wiped.pruneAdjacency .calm q = (.ok (), pruned) →
          ix.eraseNode ℚ .calm q maxM = (.ok r, healed) →
          ∀ s x, s ≠ q → x ≠ q → pruned.Reaches s x → healed.Reaches s x := by
  refine ⟨distance_comm, fun hall => ?_⟩
  have hwell : fullSpoke.WellFormed :=
    ⟨rfl, rfl, labelsIn_iff.mpr (by decide), Or.inr (by decide)⟩
  have hpath := hall fullSpoke hwell 0 1 (by decide) _ _ _ _ rfl rfl rfl 1 3 (by decide) (by decide)
    (.single (List.mem_singleton.mpr rfl))
  have hadj : (fullSpoke.eraseNode ℚ .calm (0 : ℕ) 1).2.adjacency = [[[]], [[2]], [[1]], [[]]] := by
    decide +kernel
  have hclosed : ∀ x, (fullSpoke.eraseNode ℚ .calm (0 : ℕ) 1).2.Reaches 1 x → x = 1 ∨ x = 2 := by
    intro x hx
    induction hx with
    | refl => exact Or.inl rfl
    | tail _ hab ih =>
      rw [BaseEdge, hadj] at hab
      rcases ih with rfl | rfl
      · exact Or.inr (by exact_mod_cast List.mem_singleton.mp hab)
      · exact Or.inl (by exact_mod_cast List.mem_singleton.mp hab)
  rcases hclosed 3 hpath with h | h <;> omega

/-- With room for one more label no orphan is crowded, and nothing is lost. -/
theorem eraseNode_keeps_reachability_fullSpoke :
    ∃ wiped pruned r healed, fullSpoke.overwriteVector .calm (0 : ℕ) = (.ok (), wiped) ∧
      wiped.pruneAdjacency .calm (0 : ℕ) = (.ok (), pruned) ∧
      fullSpoke.eraseNode ℚ .calm (0 : ℕ) 2 = (.ok r, healed) ∧
      pruned.Reaches 1 3 ∧ healed.Reaches 1 3 := by
  have hcalls : ∃ wiped pruned r healed, fullSpoke.overwriteVector .calm (0 : ℕ) = (.ok (), wiped) ∧
      wiped.pruneAdjacency .calm (0 : ℕ) = (.ok (), pruned) ∧
      fullSpoke.eraseNode ℚ .calm (0 : ℕ) 2 = (.ok r, healed) ∧
      pruned.adjacency = [[[]], [[3]], [[]], [[]]] := ⟨_, _, _, _, rfl, rfl, rfl, rfl⟩
  obtain ⟨wiped, pruned, r, healed, hwipe, hprune, herase, hadj⟩ := hcalls
  have hpath : pruned.Reaches 1 3 := .single (by
    rw [BaseEdge, hadj]
    exact List.mem_singleton.mpr rfl)
  refine ⟨wiped, pruned, r, healed, hwipe, hprune, herase, hpath, ?_⟩
  refine (eraseNode_keeps_reachability sqrt_not_lt (by decide) hwipe hprune herase).2 ?_ 1 3 hpath
  simp only [Crowded, hadj]
  decide

end Index

end Unlearning
