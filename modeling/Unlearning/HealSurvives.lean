import Mathlib.Order.Defs.LinearOrder
import Unlearning.HealedEdge

/-!
# Healed edges survive the pass (`src/hnsw_helper.hpp`, `heal_graph_structure`)

Later candidates do evict neighbours of the nodes that earlier ones connected, at the node itself
and, by the clean-up of the edge back, at third nodes. But an eviction for a candidate at distance
`d` takes only edges longer than `d`, both halves of them, and the candidates come in
non-decreasing distance. So once an edge of length `δ` is there, `KeepsUpTo δ` holds to the end of
the pass.
-/

namespace Unlearning

namespace Index

/-- **Distances in a linear order.** The comparisons of the code are those of the order, and a
square root is not below the `-1` that the search for the furthest neighbour starts with. -/
structure Ordered (D : Type) [FloatArith D] [LinearOrder D] : Prop where
  lt_iff : ∀ a b : D, FloatArith.lt a b = true ↔ a < b
  eq_iff : ∀ a b : D, FloatArith.eq a b = true ↔ a = b
  sqrt : ∀ x : D, ¬ FloatArith.sqrt x < (FloatArith.negOne : D)

/-- A label is as far as the node it names. -/
theorem distance_asSize {D : Type} [FloatArith D] {ix : Index} (a b : ℤ) :
    ix.distance D (asSize a : ℤ) b = ix.distance D a b := by
  simp only [distance, asSize_natCast]

/-! ## An insertion between two nodes with room -/

section Room

variable {D : Type} [FloatArith D] {ix : Index} {L : ℕ} {maxM : ℤ} {s : HealWork}

/-- With room a half edge is there after its commit, made or already present, and the lists of
other nodes stay. -/
theorem mem_commit_of_hasRoom {node : ℕ} {cand : ℤ} (hnode : node < ix.numElements)
    (hroom : HasRoom maxM (s.adjacency.nbrs node L)) {has : Prop} [Decidable has]
    (hhas : has ↔ cand ∈ s.adjacency.nbrs node L) :
    let t := if has then s else (ix.commitHalfEdge D node cand L maxM s).2
    cand ∈ t.adjacency.nbrs node L ∧
      ∀ v, v ≠ node → t.adjacency.nbrs v L = s.adjacency.nbrs v L := by
  by_cases hmem : cand ∈ s.adjacency.nbrs node L
  · simp only [if_pos (hhas.mpr hmem)]
    exact ⟨hmem, fun v _ => trivial⟩
  · simp only [if_neg fun h => hmem (hhas.mp h)]
    have hlists := nbrs_commitHalfEdge_room (D := D) hnode hmem hroom
    constructor
    · rw [hlists, if_pos ⟨rfl, rfl⟩]
      exact List.mem_append_right _ (List.mem_singleton_self cand)
    · intro v hv
      rw [hlists, if_neg fun h => hv h.1]

/-- **Both ends have room**: afterwards they list each other. -/
theorem tryInsertHealedEdge_room {u w : ℕ} (hne : u ≠ w) (hu : u < ix.numElements)
    (hw : w < ix.numElements) (hru : HasRoom maxM (s.adjacency.nbrs u L))
    (hrw : HasRoom maxM (s.adjacency.nbrs w L)) :
    (w : ℤ) ∈ (ix.tryInsertHealedEdge D u w L maxM s).adjacency.nbrs u L ∧
      (u : ℤ) ∈ (ix.tryInsertHealedEdge D u w L maxM s).adjacency.nbrs w L := by
  have hne' : (u : ℤ) ≠ w := by exact_mod_cast hne
  have hlists : ∀ v K, ((s.slot ix.numElements u L).slot ix.numElements w L).adjacency.nbrs v K =
      s.adjacency.nbrs v K := by
    intro v K
    simp only [HealWork.slot, nbrs_ensureLayerSlot]
  have hin : ¬ (ix.numElements ≤ u ∨ ix.numElements ≤ w) := by omega
  simp only [tryInsertHealedEdge, asSize_natCast, if_neg hne', if_neg hin]
  generalize (s.slot ix.numElements u L).slot ix.numElements w L = t at hlists ⊢
  split
  · rename_i hboth
    exact hboth
  · -- the checks find room and change no list
    obtain ⟨r, hr⟩ : ∃ r, r = if ¬ (w : ℤ) ∈ t.adjacency.nbrs u L ∧
          ¬ (u : ℤ) ∈ t.adjacency.nbrs w L
        then ix.capacityForBoth D u w L maxM t else (true, t) := ⟨_, rfl⟩
    have hcheck : r.1 = true ∧ ∀ v K, r.2.adjacency.nbrs v K = t.adjacency.nbrs v K := by
      rw [hr]
      split
      · have hslot : ∀ v K, (t.slot ix.numElements u L).adjacency.nbrs v K =
            t.adjacency.nbrs v K := nbrs_ensureLayerSlot _ _ _ _
        have hfirst : ix.ensureCapacityFor D u w L maxM t = (true, t.slot ix.numElements u L) := by
          rw [ensureCapacityFor_room (by rw [asSize_natCast, hlists]; exact hru), asSize_natCast]
        have hsecond : ix.ensureCapacityFor D w u L maxM (t.slot ix.numElements u L) =
            (true, (t.slot ix.numElements u L).slot ix.numElements w L) := by
          rw [ensureCapacityFor_room (by rw [asSize_natCast, hslot, hlists]; exact hrw),
            asSize_natCast]
        simp only [Index.capacityForBoth, hfirst, hsecond, Bool.not_true, Bool.false_eq_true,
          if_false]
        refine ⟨trivial, fun v K => ?_⟩
        rw [← hslot v K]
        exact nbrs_ensureLayerSlot _ _ _ _ _ _
      · exact ⟨rfl, fun v K => rfl⟩
    rw [← hr, if_neg (by simp [hcheck.1])]
    have hru' : HasRoom maxM (r.2.adjacency.nbrs u L) := by
      rw [hcheck.2, hlists]
      exact hru
    obtain ⟨hmem, hother⟩ := mem_commit_of_hasRoom (D := D) hu hru'
      (by rw [hcheck.2] : (w : ℤ) ∈ t.adjacency.nbrs u L ↔ (w : ℤ) ∈ r.2.adjacency.nbrs u L)
    obtain ⟨v, hv⟩ : ∃ v, v = (if (w : ℤ) ∈ t.adjacency.nbrs u L then r.2
        else (ix.commitHalfEdge D u w L maxM r.2).2) := ⟨_, rfl⟩
    rw [← hv] at hmem hother ⊢
    have hsame : v.adjacency.nbrs w L = t.adjacency.nbrs w L := by
      rw [hother w hne.symm, hcheck.2]
    have hrw' : HasRoom maxM (v.adjacency.nbrs w L) := by
      rw [hsame, hlists]
      exact hrw
    obtain ⟨hmem', hother'⟩ := mem_commit_of_hasRoom (D := D) hw hrw'
      (by rw [hsame] : (u : ℤ) ∈ t.adjacency.nbrs w L ↔ (u : ℤ) ∈ v.adjacency.nbrs w L)
    refine ⟨?_, hmem'⟩
    rw [hother' u hne]
    exact hmem

end Room

section Survives

variable {D : Type} [FloatArith D] [LinearOrder D] {ix : Index} {L : ℕ} {maxM : ℤ}

theorem Ordered.sqrt_not_lt (hord : Ordered D) (x : D) :
    FloatArith.lt (FloatArith.sqrt x) (FloatArith.negOne : D) = false :=
  Bool.eq_false_iff.mpr fun h => hord.sqrt x ((hord.lt_iff _ _).mp h)

/-- Every edge at layer `L` of length at most `δ` is kept. -/
def KeepsUpTo (ix : Index) (L : ℕ) (δ : D) (g g' : Layered ℤ) : Prop :=
  ∀ (v : ℕ) (x : ℤ), x ∈ g.nbrs v L → ix.distance D v x ≤ δ → x ∈ g'.nbrs v L

theorem KeepsUpTo.of_nbrs_eq {δ : D} {g g' : Layered ℤ} (h : ∀ v, g'.nbrs v L = g.nbrs v L) :
    KeepsUpTo ix L δ g g' := by
  intro v x hx _
  rwa [h v]

theorem KeepsUpTo.trans {δ : D} {g g' g'' : Layered ℤ} (h : KeepsUpTo ix L δ g g')
    (h' : KeepsUpTo ix L δ g' g'') : KeepsUpTo ix L δ g g'' :=
  fun v x hx hle => h' v x (h v x hx hle) hle

/-! ## One insertion -/

variable (hord : Ordered D) (hsymm : ∀ a b, ix.distance D a b = ix.distance D b a)
include hord hsymm

/-- **An eviction takes longer edges only**, at the node and at the evicted label. -/
theorem keepsUpTo_ensureCapacityFor {δ : D} {node cand : ℤ} (hfar : δ ≤ ix.distance D node cand)
    (s : HealWork) :
    KeepsUpTo ix L δ s.adjacency (ix.ensureCapacityFor D node cand L maxM s).2.adjacency := by
  have hslot : ∀ v K, (s.slot ix.numElements (asSize node) L).adjacency.nbrs v K =
      s.adjacency.nbrs v K := nbrs_ensureLayerSlot _ _ _ _
  rcases ensureCapacityFor_cases (D := D) ix node cand L maxM s with
    ⟨fits, heq, -⟩ | ⟨-, -, hcloser, heq⟩
  · rw [heq]
    exact .of_nbrs_eq fun v => hslot v L
  · rcases furthest_dist (D := D) ix node (s.adjacency.nbrs (asSize node) L) with
      hneg | ⟨far, hget, hdist⟩
    · rw [hneg, distance, l2Distance, hord.sqrt_not_lt] at hcloser
      cases hcloser
    · rw [hdist, hord.lt_iff] at hcloser
      have hlong : δ < ix.distance D node far := lt_of_le_of_lt hfar hcloser
      rw [heq]
      intro v x hx hle
      rcases mem_evict (by rwa [hslot]) (by rwa [hslot]) with hkept | ⟨-, ⟨rfl, rfl⟩ | ⟨rfl, rfl⟩⟩
      · exact hkept
      · rw [distance_asSize] at hle
        exact absurd (lt_of_lt_of_le hlong hle) (lt_irrefl δ)
      · rw [distance_asSize, hsymm] at hle
        exact absurd (lt_of_lt_of_le hlong hle) (lt_irrefl δ)

/-- Insertions over distances of at least `δ` keep the edges up to `δ`. -/
theorem steps_keepsUpTo {δ : D} {P : ℤ → ℤ → Prop} (hP : ∀ {node cand}, P node cand →
    asSize node < ix.numElements ∧ δ ≤ ix.distance D node cand) :
    Steps D ix L maxM P (fun s t => KeepsUpTo ix L δ s.adjacency t.adjacency) where
  inTable hp := (hP hp).1
  refl s := .of_nbrs_eq fun _ => rfl
  trans h h' := h.trans h'
  slot _ s := .of_nbrs_eq fun v => nbrs_ensureLayerSlot _ _ _ _ _ _
  capacity hp s := keepsUpTo_ensureCapacityFor hord hsymm (hP hp).2 s
  append {node cand} _ s _ _ _ := by
    intro v x hx _
    rcases nbrs_append_cases (asSize node) cand L s v L with hsame | ⟨-, -, hnew⟩
    · rwa [hsame]
    · rw [hnew]
      exact List.mem_append_left _ hx

/-- **One candidate** keeps the edges up to its own length, from the start and from each of its
calls, which are about its two labels. -/
theorem keepsUpTo_insertAt {δ : D} {c : Candidate D} (hle : δ ≤ ix.distance D c.u c.w)
    (s : HealWork) :
    KeepsUpTo ix L δ s.adjacency (insertAt D ix L maxM s c).adjacency ∧
      ∀ call ∈ insertCalls D ix c.u c.w L maxM s, call.layer = L ∧
        (call.node = c.u ∧ call.cand = c.w ∨ call.node = c.w ∧ call.cand = c.u) ∧
        KeepsUpTo ix L δ (after D ix maxM call).adjacency (insertAt D ix L maxM s c).adjacency := by
  have hsteps : Steps D ix L maxM (fun node cand => asSize node < ix.numElements ∧
      (node = c.u ∧ cand = c.w ∨ node = c.w ∧ cand = c.u))
      (fun s t => KeepsUpTo ix L δ s.adjacency t.adjacency) := by
    refine steps_keepsUpTo hord hsymm ?_
    rintro node cand ⟨hlt, ⟨rfl, rfl⟩ | ⟨rfl, rfl⟩⟩
    · exact ⟨hlt, hle⟩
    · exact ⟨hlt, by rwa [hsymm]⟩
  obtain ⟨hrun, hcalls⟩ := hsteps.tryInsertHealedEdge (u := c.u) (w := c.w)
    (fun _ hu hw => ⟨⟨hu, Or.inl ⟨rfl, rfl⟩⟩, hw, Or.inr ⟨rfl, rfl⟩⟩) s
  exact ⟨hrun, fun call hcall =>
    ⟨(hcalls call hcall).layer_eq, (hcalls call hcall).offered.2, (hcalls call hcall).after⟩⟩

/-! ## The order of the candidates -/

omit hsymm in
/-- The order that `std::sort` is given is lexicographic. -/
theorem less_iff (a b : Candidate D) :
    Candidate.less D a b = true ↔
      a.dist < b.dist ∨ a.dist = b.dist ∧ (a.u < b.u ∨ a.u = b.u ∧ a.w < b.w) := by
  rw [Candidate.less]
  by_cases heq : a.dist = b.dist
  · rw [if_neg (by simp [(hord.eq_iff _ _).mpr heq])]
    by_cases hu : a.u = b.u
    · rw [if_neg (by simpa using hu)]
      simp [heq, hu]
    · rw [if_pos hu]
      simp [heq, hu]
  · have hne : FloatArith.eq a.dist b.dist = false :=
      Bool.eq_false_iff.mpr fun h => heq ((hord.eq_iff _ _).mp h)
    rw [if_pos (by simp [hne]), hord.lt_iff]
    simp [heq]

omit hsymm in
/-- **The candidates are processed in non-decreasing distance.** -/
theorem pairwise_rankedCandidates (orphans : List ℤ) :
    (ix.rankedCandidates D orphans).Pairwise fun a b => a.dist ≤ b.dist := by
  have hle : ∀ a b : Candidate D, (!Candidate.less D b a) = true →
      a.dist < b.dist ∨ a.dist = b.dist ∧ (a.u < b.u ∨ a.u = b.u ∧ a.w ≤ b.w) := by
    intro a b h
    have hnot : ¬ Candidate.less D b a = true := by simpa using h
    rw [less_iff hord] at hnot
    rcases lt_trichotomy a.dist b.dist with hlt | heq | hgt
    · exact Or.inl hlt
    · refine Or.inr ⟨heq, ?_⟩
      have hrest : ¬ (b.u < a.u ∨ b.u = a.u ∧ b.w < a.w) := fun h => hnot (Or.inr ⟨heq.symm, h⟩)
      omega
    · exact absurd (Or.inl hgt) hnot
  have hge : ∀ a b : Candidate D,
      a.dist < b.dist ∨ a.dist = b.dist ∧ (a.u < b.u ∨ a.u = b.u ∧ a.w ≤ b.w) →
      (!Candidate.less D b a) = true := by
    intro a b h
    have hnot : ¬ Candidate.less D b a = true := by
      rw [less_iff hord]
      rcases h with hlt | ⟨heq, hrest⟩
      · rintro (hgt | ⟨heq, -⟩)
        · exact lt_asymm hlt hgt
        · exact hlt.ne heq.symm
      · rintro (hgt | ⟨-, hrest'⟩)
        · exact hgt.ne heq.symm
        · omega
    simpa using hnot
  refine (List.pairwise_mergeSort (fun a b c hab hbc => ?_) (fun a b => ?_) _).imp fun {a b} h => ?_
  · refine hge a c ?_
    rcases hle a b hab with hlt | ⟨heq, hrest⟩ <;> rcases hle b c hbc with hlt' | ⟨heq', hrest'⟩
    · exact Or.inl (hlt.trans hlt')
    · exact Or.inl (heq' ▸ hlt)
    · exact Or.inl (heq ▸ hlt')
    · exact Or.inr ⟨heq.trans heq', by omega⟩
  · rw [Bool.or_eq_true]
    rcases lt_trichotomy a.dist b.dist with hlt | heq | hgt
    · exact Or.inl (hge a b (Or.inl hlt))
    · by_cases hab : a.u < b.u ∨ a.u = b.u ∧ a.w ≤ b.w
      · exact Or.inl (hge a b (Or.inr ⟨heq, hab⟩))
      · exact Or.inr (hge b a (Or.inr ⟨heq.symm, by omega⟩))
    · exact Or.inr (hge b a (Or.inl hgt))
  · rcases hle a b h with hlt | ⟨heq, -⟩
    · exact hlt.le
    · exact heq.le

omit [LinearOrder D] hord hsymm in
/-- A candidate carries its own length. -/
theorem dist_of_mem_candidates {orphans : List ℤ} {c : Candidate D}
    (h : c ∈ ix.candidates D orphans) : c.dist = ix.distance D c.u c.w := by
  induction orphans with
  | nil => cases h
  | cons u rest ih =>
    rcases List.mem_append.mp h with hhead | htail
    · obtain ⟨w, -, rfl⟩ := List.mem_map.mp hhead
      rfl
    · exact ih htail

/-- The candidates after one of them keep the edges up to its length. -/
theorem keepsUpTo_rest {orphans : List ℤ} {pre post : List (Candidate D)} {c : Candidate D}
    (hsplit : ix.rankedCandidates D orphans = pre ++ c :: post) (s : HealWork) :
    KeepsUpTo ix L c.dist s.adjacency (post.foldl (insertAt D ix L maxM) s).adjacency := by
  have hsorted : (ix.rankedCandidates D orphans).Pairwise fun a b => a.dist ≤ b.dist :=
    pairwise_rankedCandidates hord orphans
  rw [hsplit, List.pairwise_append, List.pairwise_cons] at hsorted
  refine List.foldlRecOn (motive := fun t : HealWork =>
    KeepsUpTo ix L c.dist s.adjacency t.adjacency) post _ (.of_nbrs_eq fun _ => rfl) ?_
  intro t ih d hd
  have hmem : d ∈ ix.rankedCandidates D orphans := by
    rw [hsplit]
    exact List.mem_append_right _ (List.mem_cons_of_mem c hd)
  have hle : c.dist ≤ ix.distance D d.u d.w := by
    rw [← dist_of_mem_candidates (List.mem_mergeSort.mp hmem)]
    exact hsorted.2.1.1 d hd
  exact ih.trans (keepsUpTo_insertAt hord hsymm hle t).1

/-! ## The whole pass -/

omit hsymm in
/-- A layer of the loop touches no other layer. -/
theorem nbrs_healLayer_ne {K : ℕ} (hK : K ≠ L) (n : ℕ) (region : List ℤ) (s : HealWork) (v : ℕ) :
    (ix.healLayer D n region maxM s L).adjacency.nbrs v K = s.adjacency.nbrs v K := by
  rw [(rewires_healLayer hord.sqrt_not_lt n region s).nbrs_eq hK]
  rcases (nbrs_isolate ix n region L s).2 v K fun hplace => hK hplace.2 with heq | ⟨hL, -⟩
  · exact heq
  · exact absurd hL hK

omit hsymm in
/-- Once a layer is done its lists stay. -/
theorem nbrs_upToLayer {n k : ℕ} {region : List ℤ} (hk : L + 1 ≤ k) (v : ℕ) :
    (upToLayer D ix n region maxM k).adjacency.nbrs v L =
      (upToLayer D ix n region maxM (L + 1)).adjacency.nbrs v L := by
  induction k, hk using Nat.le_induction with
  | base => rfl
  | succ k hk ih => rw [upToLayer_succ, nbrs_healLayer_ne hord (by omega), ih]

omit hsymm in
/-- Before a layer is begun its lists are those of the index. -/
theorem nbrs_upToLayer_start (n : ℕ) (region : List ℤ) {k : ℕ} (hk : k ≤ L) (v : ℕ) :
    (upToLayer D ix n region maxM k).adjacency.nbrs v L = ix.adjacency.nbrs v L := by
  induction k with
  | zero => exact Layered.nbrs_resize _ _ _ _
  | succ k ih => rw [upToLayer_succ, nbrs_healLayer_ne hord (by omega), ih (by omega)]

omit hsymm in
/-- A list of another node than `n`, as a layer leaves it, is there at the end. -/
theorem mem_healLocked_of_mem_layer {n : ℕ} {region : List ℤ} {v : ℕ} {x : ℤ} (hv : v ≠ n)
    (hL : L < maxLayerGlobal (Layered.resize ix.numElements ix.adjacency) n region)
    (hx : x ∈ (ix.healLayer D n region maxM (upToLayer D ix n region maxM L) L).adjacency.nbrs
      v L) : x ∈ (ix.healLocked D n region maxM).adjacency.nbrs v L := by
  rw [healLocked_eq, clearNode, Layered.nbrs_clear, if_neg hv, nbrs_upToLayer hord hL,
    upToLayer_succ]
  exact hx

/-- `commit_half_edge` has inserted its half edge in this call. -/
def Inserted (D : Type) [FloatArith D] (ix : Index) (maxM : ℤ) (c : HelperCall) : Prop :=
  c.helper = .commitHalfEdge ∧ c.cand ∉ c.before.adjacency.nbrs (asSize c.node) c.layer ∧
    c.cand ∈ (after D ix maxM c).adjacency.nbrs (asSize c.node) c.layer

/-- **What a call leaves at its own length survives the pass.** -/
theorem mem_healLocked_of_after {n : ℕ} {region : List ℤ} {c : HelperCall}
    (hc : c ∈ healCalls D ix n region maxM)
    (hmem : c.cand ∈ (after D ix maxM c).adjacency.nbrs (asSize c.node) c.layer) :
    c.cand ∈ (ix.healLocked D n region maxM).adjacency.nbrs (asSize c.node) c.layer := by
  obtain ⟨L, hL, hc⟩ := mem_healCalls hc
  obtain ⟨hmany, pre, cand, post, hsplit, hc⟩ := mem_layerCalls hc
  have hcand : cand ∈ ix.rankedCandidates D
      (ix.orphans (upToLayer D ix n region maxM L).adjacency n L) := by
    rw [hsplit]
    exact List.mem_append_right _ List.mem_cons_self
  have hdist := dist_of_mem_candidates (List.mem_mergeSort.mp hcand)
  obtain ⟨hu, hw⟩ := mem_candidates (List.mem_mergeSort.mp hcand)
  obtain ⟨rfl, hends, hkeep⟩ := (keepsUpTo_insertAt hord hsymm (L := L) hdist.le _).2 c hc
  have hlen : ix.distance D c.node c.cand ≤ cand.dist := by
    rcases hends with ⟨hn, hc'⟩ | ⟨hn, hc'⟩
    · rw [hn, hc', hdist]
    · rw [hn, hc', hdist, hsymm]
  have hnode : asSize c.node ≠ n := by
    have horph : c.node ∈ ix.orphans (upToLayer D ix n region maxM c.layer).adjacency n c.layer := by
      rcases hends with ⟨hn, -⟩ | ⟨hn, -⟩
      · rwa [hn]
      · rwa [hn]
    obtain ⟨hne, hin, -⟩ := mem_orphans horph
    obtain ⟨v, hv, -⟩ := inRange_iff.mp hin
    rw [hv, asSize_natCast]
    rw [hv] at hne
    exact_mod_cast hne
  refine mem_healLocked_of_mem_layer hord hnode hL ?_
  rw [healLayer_eq hmany, hsplit, List.foldl_append, List.foldl_cons]
  refine keepsUpTo_rest hord hsymm hsplit _ _ _ (hkeep _ _ hmem ?_) ?_
  · rwa [distance_asSize]
  · rwa [distance_asSize]

/-! ## The closest pair -/

omit [FloatArith D] [LinearOrder D] hord hsymm in
/-- The orphans are distinct. -/
theorem nodup_orphans (adj : Layered ℤ) (q : ℤ) (L : ℕ) : (ix.orphans adj q L).Nodup := by
  refine List.foldlRecOn (motive := List.Nodup) (adj.nbrs (asSize q) L) _ List.nodup_nil ?_
  intro uniq ih u _
  split
  · exact ih
  · rw [addUnique]
    split
    · exact ih
    · split
      · exact ih
      · rename_i hnew
        exact List.nodup_append.mpr ⟨ih, List.nodup_singleton u, by
          rintro a ha b hb rfl
          exact hnew (List.mem_singleton.mp hb ▸ ha)⟩

omit [LinearOrder D] hord hsymm in
/-- A candidate is a pair of different orphans. -/
theorem ne_of_mem_candidates {orphans : List ℤ} (hnd : orphans.Nodup) {c : Candidate D}
    (h : c ∈ ix.candidates D orphans) : c.u ≠ c.w := by
  induction orphans with
  | nil => cases h
  | cons u rest ih =>
    obtain ⟨hhead, hrest⟩ := List.nodup_cons.mp hnd
    rcases List.mem_append.mp h with hmem | htail
    · obtain ⟨w, hw, rfl⟩ := List.mem_map.mp hmem
      rintro (rfl : u = w)
      exact hhead hw
    · exact ih hrest htail

omit [LinearOrder D] hord hsymm in
/-- Two orphans are needed for a candidate. -/
theorem two_le_of_mem_candidates {orphans : List ℤ} {c : Candidate D}
    (h : c ∈ ix.candidates D orphans) : ¬ orphans.length < 2 := by
  rcases orphans with _ | ⟨u, _ | ⟨w, rest⟩⟩
  · cases h
  · cases h
  · rw [List.length_cons, List.length_cons]
    omega

omit [FloatArith D] [LinearOrder D] hord hsymm in
/-- A layer with orphans is processed. -/
theorem lt_maxLayerGlobal {q : ℕ} {u : ℤ} (hu : u ∈ ix.orphans ix.adjacency q L) :
    L < maxLayerGlobal (Layered.resize ix.numElements ix.adjacency) q
      (ix.collectHealRegionUnlocked q) := by
  by_contra hge
  obtain ⟨-, -, hmem⟩ := mem_orphans hu
  have hself : q ∈ nodesOf (ix.collectHealRegionUnlocked q) := mem_nodesOf_collect.mpr (Or.inl rfl)
  have hnil := nbrs_of_maxLayerGlobal_le hself (not_lt.mp hge)
  rw [Layered.nbrs_resize] at hnil
  rw [asSize_natCast, hnil] at hmem
  cases hmem

/-- **The closest pair gets connected**, if both have room after the isolation. -/
theorem closest_pair_connected {q : ℕ} {c : Candidate D} (hint : maxM < 2 ^ 31)
    (hhead : (ix.rankedCandidates D (ix.orphans ix.adjacency q L)).head? = some c)
    (hroom : ∀ u, u = c.u ∨ u = c.w →
      (((ix.isolate q (ix.collectHealRegionUnlocked q) L (upToLayer D ix q
        (ix.collectHealRegionUnlocked q) maxM L)).adjacency.nbrs (asSize u) L).length : ℤ) < maxM) :
    c.w ∈ (ix.healLocked D q (ix.collectHealRegionUnlocked q) maxM).adjacency.nbrs (asSize c.u) L ∧
      c.u ∈ (ix.healLocked D q (ix.collectHealRegionUnlocked q) maxM).adjacency.nbrs
        (asSize c.w) L := by
  generalize hregion : ix.collectHealRegionUnlocked q = region at hroom ⊢
  obtain ⟨rest, hsplit⟩ : ∃ rest, ix.rankedCandidates D (ix.orphans ix.adjacency q L) =
      [] ++ c :: rest := List.head?_eq_some_iff.mp hhead
  have hcand : c ∈ ix.candidates D (ix.orphans ix.adjacency q L) :=
    List.mem_mergeSort.mp (List.mem_of_head? hhead)
  have horphans : ix.orphans (upToLayer D ix q region maxM L).adjacency q L =
      ix.orphans ix.adjacency q L := by
    rw [orphans, orphans, nbrs_upToLayer_start hord q region le_rfl]
  obtain ⟨hu, hw⟩ := mem_candidates hcand
  have hL := lt_maxLayerGlobal hu
  rw [hregion] at hL
  -- the two nodes, and their room
  obtain ⟨huq, huin, -⟩ := mem_orphans hu
  obtain ⟨hwq, hwin, -⟩ := mem_orphans hw
  have hne := ne_of_mem_candidates (nodup_orphans ix.adjacency q L) hcand
  obtain ⟨a, ha, haN⟩ := inRange_iff.mp huin
  obtain ⟨b, hb, hbN⟩ := inRange_iff.mp hwin
  have hrooms : ∀ u, u = c.u ∨ u = c.w → HasRoom maxM ((ix.isolate q region L
      (upToLayer D ix q region maxM L)).adjacency.nbrs (asSize u) L) := by
    intro u hu
    have hlt := hroom u hu
    rw [HasRoom, asInt_of_lt (by omega)]
    exact hlt
  have hra := hrooms c.u (Or.inl rfl)
  have hrb := hrooms c.w (Or.inr rfl)
  rw [ha, asSize_natCast] at hra
  rw [hb, asSize_natCast] at hrb
  obtain ⟨hab, hba⟩ := tryInsertHealedEdge_room (D := D) (by rw [ha, hb] at hne; exact_mod_cast hne)
    haN hbN hra hrb
  -- from there to the end of the layer, and from there to the end of the pass
  have hdist := dist_of_mem_candidates hcand
  have hkeep : KeepsUpTo ix L c.dist
      (insertAt D ix L maxM (ix.isolate q region L (upToLayer D ix q region maxM L)) c).adjacency
      (rest.foldl (insertAt D ix L maxM) (insertAt D ix L maxM
        (ix.isolate q region L (upToLayer D ix q region maxM L)) c)).adjacency :=
    keepsUpTo_rest hord hsymm hsplit _
  have hlayer : ∀ v x, x ∈ (insertAt D ix L maxM (ix.isolate q region L
      (upToLayer D ix q region maxM L)) c).adjacency.nbrs v L → ix.distance D v x ≤ c.dist →
      v ≠ q → x ∈ (ix.healLocked D q region maxM).adjacency.nbrs v L := by
    intro v x hx hle hv
    refine mem_healLocked_of_mem_layer hord hv hL ?_
    rw [healLayer_eq (by rw [horphans]; exact two_le_of_mem_candidates hcand), horphans, hsplit]
    exact hkeep v x hx hle
  rw [ha, hb, asSize_natCast, asSize_natCast]
  rw [ha] at huq
  rw [hb] at hwq
  refine ⟨hlayer a b ?_ ?_ (by exact_mod_cast huq), hlayer b a ?_ ?_ (by exact_mod_cast hwq)⟩
  · rw [insertAt, ha, hb]
    exact hab
  · rw [hdist, ha, hb]
  · rw [insertAt, ha, hb]
    exact hba
  · rw [hdist, ha, hb, hsymm]

/-- **Healed edges survive the pass.** Distances are symmetric and in a linear order. After a heal
of `q` that returns, every half edge that `commit_half_edge` has inserted on the way is in its
list; and where the closest pair of orphans of a layer both had fewer than `max_m` neighbours
after the isolation of the layer, they list each other. -/
theorem healed_edges_survive (hint : maxM < 2 ^ 31) {env : NativeEnv} {q : ℕ}
    {hm : HealingMetrics} {ix' : Index}
    (h : ix.healGraphStructure D env q maxM = (.ok hm, ix')) :
    (∀ c ∈ healCalls D ix q (ix.collectHealRegionUnlocked q) maxM, Inserted D ix maxM c →
        c.cand ∈ ix'.adjacency.nbrs (asSize c.node) c.layer) ∧
      ∀ (L : ℕ) (c : Candidate D),
        (ix.rankedCandidates D (ix.orphans ix.adjacency q L)).head? = some c →
        (∀ u, u = c.u ∨ u = c.w →
          (((ix.isolate q (ix.collectHealRegionUnlocked q) L (upToLayer D ix q
            (ix.collectHealRegionUnlocked q) maxM L)).adjacency.nbrs (asSize u) L).length : ℤ) <
              maxM) →
        c.w ∈ ix'.adjacency.nbrs (asSize c.u) L ∧ c.u ∈ ix'.adjacency.nbrs (asSize c.w) L := by
  rcases healGraphStructure_cases (D := D) ix env q maxM with ⟨-, hm', -, hok⟩ | ⟨-, e, herr⟩
  · rw [hok] at h
    obtain ⟨-, rfl⟩ := Prod.mk.inj h
    exact ⟨fun c hc hins => mem_healLocked_of_after hord hsymm hc hins.2.2,
      fun L c hhead hroom => closest_pair_connected hord hsymm hint hhead hroom⟩
  · rw [herr] at h
    cases (Prod.mk.inj h).1

end Survives

theorem ordered_rat : Ordered ℚ where
  lt_iff _ _ := decide_eq_true_iff
  eq_iff _ _ := decide_eq_true_iff
  sqrt x h := by
    have hfalse := sqrt_not_lt x
    exact absurd (decide_eq_true h) (by simpa [FloatArith.lt] using hfalse)

/-- A node with three neighbours, at 3, 2 and 5. -/
def threeSpokes : Index where
  data := some ⟨[1065353216, 1077936128, 1073741824, 1084227584], by simp⟩
  ownsData := true
  dim := 1
  numElements := 4
  entrypoint := 0
  adjacency := [[[1, 2, 3]], [[]], [[]], [[]]]

/-- With lists of one label, the closest pair of orphans is `1` and `2`, and the pairs with `3` that
come after it leave it alone. -/
theorem healed_edges_survive_threeSpokes : ∃ hm ix',
    threeSpokes.healGraphStructure ℚ .calm 0 1 = (.ok hm, ix') ∧
      (∀ c ∈ healCalls ℚ threeSpokes 0 (threeSpokes.collectHealRegionUnlocked (0 : ℕ)) 1,
        Inserted ℚ threeSpokes 1 c → c.cand ∈ ix'.adjacency.nbrs (asSize c.node) c.layer) ∧
      2 ∈ ix'.adjacency.nbrs 1 0 ∧ 1 ∈ ix'.adjacency.nbrs 2 0 := by
  have hok : ∃ hm ix', threeSpokes.healGraphStructure ℚ .calm 0 1 = (.ok hm, ix') := ⟨_, _, rfl⟩
  obtain ⟨hm, ix', h⟩ := hok
  obtain ⟨hcalls, hclosest⟩ :=
    healed_edges_survive ordered_rat (distance_comm threeSpokes) (by decide) h
  have horphans : threeSpokes.orphans threeSpokes.adjacency (0 : ℕ) 0 = [1, 2, 3] := by decide
  have hsorted : (threeSpokes.candidates ℚ [1, 2, 3]).Pairwise
      fun a b => (!Candidate.less ℚ b a) = true := by decide +kernel
  refine ⟨hm, ix', h, hcalls, hclosest 0 ⟨1, 2, threeSpokes.distance ℚ 1 2⟩ ?_ ?_⟩
  · rw [horphans, rankedCandidates, List.mergeSort_of_pairwise hsorted]
    rfl
  · rintro u (rfl | rfl)
    · decide
    · decide

end Index

end Unlearning
