import Unlearning.HealCount
import Unlearning.HealedEdge

/-!
# The degree cap on any graph (`src/hnsw_helper.hpp`, `heal_graph_structure`)

A heal of `q` makes lists shorter, except where `commit_half_edge` appends. What it appends is an
out-neighbour of `q`, goes to another one, and is not in the list. `Bounded` says what this leaves
of every list, whatever it held before: repetitions, loops, more labels than `max_m`.

The length test reads `static_cast<int>(nbrs.size())`. A list of `2 ^ 31` labels or more may pass
for one with room, and then it grows above the cap although it was above it already
(`listHealed_iff`); so the bound is for the lengths that the test reads right (`ReadsRoom`), and
for the lists that do not come to the test (`Tested`).
-/

namespace Unlearning

namespace Index

/-- The length test finds room in a list of this length only if there is some. -/
def ReadsRoom (maxM : ℤ) (k : ℕ) : Prop := asInt k < maxM → (k : ℤ) < maxM

instance (maxM : ℤ) (k : ℕ) : Decidable (ReadsRoom maxM k) :=
  inferInstanceAs (Decidable (_ → _))

/-- The lengths of an `int` are read right. -/
theorem readsRoom_of_lt {maxM : ℤ} {k : ℕ} (h : k < 2 ^ 31) : ReadsRoom maxM k := by
  intro hroom
  rwa [asInt_of_lt (by exact_mod_cast h)] at hroom

/-- **A list that passes for one with room is below its bound**: neither the length it had before
the heal nor the cap does. -/
theorem length_lt_of_hasRoom {maxM : ℤ} (hint : maxM < 2 ^ 31) {k : ℕ} (hread : ReadsRoom maxM k)
    {l : List ℤ} (hlen : (l.length : ℤ) ≤ max (k : ℤ) maxM) (hroom : HasRoom maxM l) :
    (l.length : ℤ) < max (k : ℤ) maxM := by
  refine lt_of_le_of_ne hlen fun heq => ?_
  rw [HasRoom] at hroom
  rcases le_total maxM (k : ℤ) with hle | hle
  · rw [max_eq_left hle] at heq
    have hlength : l.length = k := by exact_mod_cast heq
    rw [hlength] at hroom
    exact absurd (hread hroom) (not_lt.mpr hle)
  · rw [max_eq_right hle] at heq
    rw [asInt_of_lt (by omega)] at hroom
    omega

/-- **What the heal of `q` may make of a list**, that of `v` at layer `L`: it is not longer than
before or than the cap, repeats no label that it did not repeat, and gains only other out-neighbours
of `q`. -/
structure ListHealed (adj : Layered ℤ) (q : ℕ) (maxM : ℤ) (v L : ℕ) (before after : List ℤ) :
    Prop where
  length : (after.length : ℤ) ≤ max (before.length : ℤ) maxM
  once : ∀ x, after.count x ≤ max 1 (before.count x)
  gained : ∀ x ∈ after, x ∉ before → x ∈ adj.nbrs q L ∧ x ≠ q ∧ x ≠ v

/-- The heal of `q` may append to the list of `v` at layer `L`: `v` is an out-neighbour of `q`
there, and not the only one. -/
def Tested (adj : Layered ℤ) (q v L : ℕ) : Prop :=
  v ≠ q ∧ (v : ℤ) ∈ adj.nbrs q L ∧ ∃ w ∈ adj.nbrs q L, w ≠ q ∧ w ≠ v

/-! ## The invariant -/

/-- The lists of `t` against those of the graph `g` that the heal of `q` found. -/
structure Bounded (maxM : ℤ) (q : ℕ) (g t : Layered ℤ) : Prop where
  /-- the list of `q` has gained nothing, so orphans are out-neighbours of `q` from the start -/
  own : ∀ L, ∀ x ∈ t.nbrs q L, x ∈ g.nbrs q L
  length : ∀ v L, (Tested g q v L → ReadsRoom maxM (g.nbrs v L).length) →
    ((t.nbrs v L).length : ℤ) ≤ max ((g.nbrs v L).length : ℤ) maxM
  once : ∀ v L x, (t.nbrs v L).count x ≤ max 1 ((g.nbrs v L).count x)
  gained : ∀ v L, ∀ x ∈ t.nbrs v L, x ∉ g.nbrs v L → x ∈ g.nbrs q L ∧ x ≠ q ∧ x ≠ v

namespace Bounded

variable {maxM : ℤ} {q : ℕ} {g t t' : Layered ℤ}

theorem refl (maxM : ℤ) (q : ℕ) (g : Layered ℤ) : Bounded maxM q g g where
  own _ _ hx := hx
  length _ _ _ := le_max_left _ _
  once _ _ _ := le_max_right _ _
  gained _ _ _ hx hnot := absurd hx hnot

/-- Lists may lose labels. -/
theorem thin (h : Bounded maxM q g t)
    (hsub : ∀ v L, (t'.nbrs v L).Sublist (t.nbrs v L)) : Bounded maxM q g t' where
  own L x hx := h.own L x ((hsub q L).subset hx)
  length v L hread := (Int.ofNat_le.mpr (hsub v L).length_le).trans (h.length v L hread)
  once v L x := ((hsub v L).count_le x).trans (h.once v L x)
  gained v L x hx hnot := h.gained v L x ((hsub v L).subset hx) hnot

/-- **An append**: the label is an orphan, the list lacks it, and the test has found room. -/
theorem append {s : HealWork} (h : Bounded maxM q g s.adjacency) (hint : maxM < 2 ^ 31)
    {v L : ℕ} {cand : ℤ} (hv : v ≠ q) (hnode : (v : ℤ) ∈ g.nbrs q L)
    (hcand : cand ∈ g.nbrs q L ∧ cand ≠ q ∧ cand ≠ v) (hnot : cand ∉ s.adjacency.nbrs v L)
    (hroom : HasRoom maxM (s.adjacency.nbrs v L)) :
    Bounded maxM q g (Index.append v cand L s).adjacency := by
  refine ⟨fun K x hx => ?_, fun w K hread => ?_, fun w K x => ?_, fun w K x hx hnotx => ?_⟩
  · rcases nbrs_append_cases v cand L s q K with hsame | ⟨hplace, -⟩
    · rw [hsame] at hx
      exact h.own K x hx
    · exact absurd hplace.symm hv
  · rcases nbrs_append_cases v cand L s w K with hsame | ⟨rfl, rfl, hnew⟩
    · rw [hsame]
      exact h.length w K hread
    · -- the list comes to the test, so its length is read right
      have hlt := length_lt_of_hasRoom hint (hread ⟨hv, hnode, cand, hcand⟩)
        (h.length w K hread) hroom
      rw [hnew, List.length_append, List.length_singleton]
      push_cast
      omega
  · rcases nbrs_append_cases v cand L s w K with hsame | ⟨rfl, rfl, hnew⟩
    · rw [hsame]
      exact h.once w K x
    · rw [hnew, List.count_append]
      by_cases hx : x = cand
      · subst hx
        rw [List.count_eq_zero_of_not_mem hnot, List.count_singleton_self]
        omega
      · rw [List.count_eq_zero_of_not_mem fun hmem => hx (List.mem_singleton.mp hmem)]
        exact h.once w K x
  · rcases nbrs_append_cases v cand L s w K with hsame | ⟨rfl, rfl, hnew⟩
    · rw [hsame] at hx
      exact h.gained w K x hx hnotx
    · rw [hnew] at hx
      rcases List.mem_append.mp hx with hold | hadded
      · exact h.gained w K x hold hnotx
      · rw [List.mem_singleton.mp hadded]
        exact hcand

end Bounded

/-! ## The heal keeps it -/

section Heal

variable {D : Type} [FloatArith D] {ix : Index} {maxM : ℤ} {q : ℕ}

theorem sublist_ensureCapacityFor (node cand : ℤ) (layer : ℕ) (s : HealWork) (v K : ℕ) :
    ((ix.ensureCapacityFor D node cand layer maxM s).2.adjacency.nbrs v K).Sublist
      (s.adjacency.nbrs v K) := by
  have hslot : (s.slot ix.numElements (asSize node) layer).adjacency.nbrs v K =
      s.adjacency.nbrs v K := nbrs_ensureLayerSlot _ _ _ _ _ _
  rw [ensureCapacityFor_eq]
  split
  · rw [hslot]
  · split
    · rw [← hslot]
      exact sublist_evict _ _ _ _ _ _ _
    · rw [hslot]

theorem sublist_isolate (region : List ℤ) (L : ℕ) (s : HealWork) (v K : ℕ) :
    ((ix.isolate q region L s).adjacency.nbrs v K).Sublist (s.adjacency.nbrs v K) := by
  obtain ⟨hown, hrest⟩ := nbrs_isolate ix q region L s
  by_cases hplace : v = q ∧ K = L
  · rw [hplace.1, hplace.2, hown]
    exact List.nil_sublist _
  · rcases hrest v K hplace with heq | ⟨-, heq⟩
    · rw [heq]
    · rw [heq]
      exact List.filter_sublist

/-- The offers of a heal of `q` at a layer: an out-neighbour of `q` to another one. -/
def Offered (ix : Index) (q L : ℕ) (node cand : ℤ) : Prop :=
  asSize node < ix.numElements ∧ asSize node ≠ q ∧
    (asSize node : ℤ) ∈ ix.adjacency.nbrs q L ∧ cand ∈ ix.adjacency.nbrs q L ∧ cand ≠ q ∧
    cand ≠ (asSize node : ℤ)

/-- Insertions of what is offered keep the bound. -/
theorem steps_bounded (hint : maxM < 2 ^ 31) (L : ℕ) :
    Steps D ix L maxM (ix.Offered q L) fun s t =>
      Bounded maxM q ix.adjacency s.adjacency → Bounded maxM q ix.adjacency t.adjacency where
  inTable hp := hp.1
  refl _ h := h
  trans h h' hs := h' (h hs)
  slot _ s h := h.thin fun v K => by rw [HealWork.slot, nbrs_ensureLayerSlot]
  capacity _ s h := h.thin (sublist_ensureCapacityFor _ _ L s)
  append hp s _ hnot hroom h := h.append hint hp.2.1 hp.2.2.1 hp.2.2.2 hnot hroom

/-- Two orphans may be offered to each other. -/
theorem offered_of_orphans {s : HealWork} (h : Bounded maxM q ix.adjacency s.adjacency) {L : ℕ}
    {u w : ℤ} (hu : u ∈ ix.orphans s.adjacency q L) (hw : w ∈ ix.orphans s.adjacency q L)
    (hne : u ≠ w) : ix.Offered q L u w := by
  obtain ⟨huq, hur, hnode⟩ := mem_orphans hu
  obtain ⟨hwq, -, hmem⟩ := mem_orphans hw
  obtain ⟨a, rfl, ha⟩ := inRange_iff.mp hur
  rw [asSize_natCast] at hnode hmem
  rw [Offered, asSize_natCast]
  exact ⟨ha, by exact_mod_cast huq, h.own L a hnode, h.own L w hmem, hwq, hne.symm⟩

theorem Bounded.healLayer {s : HealWork} (h : Bounded maxM q ix.adjacency s.adjacency)
    (hint : maxM < 2 ^ 31) (region : List ℤ) (L : ℕ) :
    Bounded maxM q ix.adjacency (ix.healLayer D q region maxM s L).adjacency := by
  have hiso : Bounded maxM q ix.adjacency (ix.isolate q region L s).adjacency :=
    h.thin (sublist_isolate region L s)
  by_cases hfew : (ix.orphans s.adjacency q L).length < 2
  · rw [Index.healLayer, if_pos hfew]
    exact hiso
  · rw [healLayer_eq hfew]
    refine List.foldlRecOn (motive := fun t : HealWork =>
      Bounded maxM q ix.adjacency t.adjacency) _ _ hiso ?_
    intro t ih c hc
    obtain ⟨hu, hw⟩ := mem_candidates (List.mem_mergeSort.mp hc)
    exact ((steps_bounded (D := D) hint L).tryInsertHealedEdge
      (fun hne _ _ => ⟨offered_of_orphans h hu hw hne, offered_of_orphans h hw hu hne.symm⟩) t).1 ih

/-- **The layer loop**, by induction on the number of layers done. -/
theorem bounded_upToLayer (hint : maxM < 2 ^ 31) (region : List ℤ) (k : ℕ) :
    Bounded maxM q ix.adjacency (upToLayer D ix q region maxM k).adjacency := by
  induction k with
  | zero =>
    refine (Bounded.refl maxM q ix.adjacency).thin fun v K => ?_
    rw [upToLayer, List.range_zero, List.foldl_nil, Layered.nbrs_resize]
  | succ k ih =>
    rw [upToLayer_succ]
    exact ih.healLayer hint region k

theorem bounded_healLocked (hint : maxM < 2 ^ 31) (region : List ℤ) :
    Bounded maxM q ix.adjacency (ix.healLocked D q region maxM).adjacency := by
  have hlayers : Bounded maxM q ix.adjacency (upToLayer D ix q region maxM
      (maxLayerGlobal (Layered.resize ix.numElements ix.adjacency) q region)).adjacency :=
    bounded_upToLayer hint region _
  rw [healLocked_eq]
  refine hlayers.thin fun v K => ?_
  rw [clearNode, Layered.nbrs_clear]
  split
  · exact List.nil_sublist _
  · exact .refl _

/-- **A list that the test reads right**, or that does not come to the test. -/
theorem listHealed_of_readsRoom (hint : maxM < 2 ^ 31) {env : NativeEnv} {hm : HealingMetrics}
    {ix' : Index} (h : ix.healGraphStructure D env q maxM = (.ok hm, ix')) {v L : ℕ}
    (hread : Tested ix.adjacency q v L → ReadsRoom maxM (ix.adjacency.nbrs v L).length) :
    ListHealed ix.adjacency q maxM v L (ix.adjacency.nbrs v L) (ix'.adjacency.nbrs v L) := by
  obtain ⟨-, -, -, hadj⟩ := healed_of_healGraphStructure h
  have hbounded : Bounded maxM q ix.adjacency
      (ix.healLocked D q (ix.collectHealRegionUnlocked q) maxM).adjacency :=
    bounded_healLocked hint _
  rw [hadj]
  exact ⟨hbounded.length v L hread, hbounded.once v L, hbounded.gained v L⟩

end Heal

/-! ## A list that the test reads wrong -/

section Overlong

variable {D : Type} [FloatArith D] {maxM : ℤ} {k : ℕ}

/-- Node `0` leads to `1` and `2`; node `1` lists itself `k` times. -/
def overlong (k : ℕ) : Index where
  data := some ⟨[0, 0, 0], by decide⟩
  ownsData := true
  dim := 1
  numElements := 3
  entrypoint := 0
  adjacency := [[[1, 2]], [List.replicate k 1], [[]]]

theorem wellFormed_overlong (k : ℕ) : (overlong k).WellFormed := by
  refine ⟨rfl, rfl, labelsIn_iff.mpr fun nb hnb => ?_, Or.inr (show 0 < 3 by decide)⟩
  have hlabel : nb ∈ [1, 2] ++ List.replicate k (1 : ℤ) := by
    simpa [overlong] using hnb
  have hone : nb = 1 ∨ nb = 2 := by
    rcases List.mem_append.mp hlabel with hfirst | hloop
    · simpa using hfirst
    · exact Or.inl (List.eq_of_mem_replicate hloop)
  rcases hone with rfl | rfl
  · exact ⟨by decide, show 1 < 3 by decide⟩
  · exact ⟨by decide, show 2 < 3 by decide⟩

theorem collect_overlong (k : ℕ) : (overlong k).collectHealRegionUnlocked 0 = [0, 1, 2] := by
  have hone : (overlong k).addNeighbors [0] 0 = [0, 1, 2] := rfl
  have hloops : (overlong k).addNeighbors [0, 1, 2] 1 = [0, 1, 2] := by
    refine foldl_addUnique_of_subset fun x hx => ?_
    have hloop : x ∈ List.replicate k (1 : ℤ) := by
      simpa [overlong, Layered.layersOf, asSize] using hx
    rw [List.eq_of_mem_replicate hloop]
    decide
  rw [collectHealRegionUnlocked, hone]
  change (overlong k).addNeighbors ((overlong k).addNeighbors [0, 1, 2] 1) 2 = [0, 1, 2]
  rw [hloops]
  rfl

/-- After the isolation the two orphans have their lists as before. -/
theorem apart_overlong (k : ℕ) : Apart 0 1 2 (List.replicate k 1) []
    ((overlong k).isolate 0 [0, 1, 2] 0 ⟨(overlong k).adjacency, 0, 0⟩) := by
  have hiso := (nbrs_isolate (overlong k) 0 [0, 1, 2] 0 ⟨(overlong k).adjacency, 0, 0⟩).2
  have hfilter : (List.replicate k (1 : ℤ)).filter (· ≠ (0 : ℤ)) = List.replicate k 1 :=
    List.filter_eq_self.mpr fun x hx => by rw [List.eq_of_mem_replicate hx]; rfl
  refine ⟨?_, ?_, fun x hx => ?_, fun x hx => absurd hx List.not_mem_nil⟩
  · rcases hiso 1 0 (by decide) with heq | ⟨-, heq⟩
    · exact heq
    · exact heq.trans hfilter
  · rcases hiso 2 0 (by decide) with heq | ⟨-, heq⟩
    · exact heq
    · exact heq
  · rw [List.eq_of_mem_replicate hx]
    exact ⟨⟨by decide, by decide⟩, by decide⟩

/-- The one layer has one pair of orphans to connect. -/
theorem healLayer_overlong (s : HealWork) (hs : s.adjacency = (overlong k).adjacency) :
    (overlong k).healLayer D (0 : ℕ) [0, 1, 2] maxM s 0 =
      (overlong k).tryInsertHealedEdge D 1 2 0 maxM
        ((overlong k).isolate (0 : ℕ) [0, 1, 2] 0 s) := by
  have horphans : (overlong k).orphans s.adjacency (0 : ℕ) 0 = [1, 2] := by
    rw [hs]
    rfl
  have hranked : (overlong k).rankedCandidates D [1, 2] =
      [⟨1, 2, (overlong k).distance D 1 2⟩] := List.mergeSort_singleton _
  rw [healLayer_eq (by rw [horphans]; decide), horphans, hranked, List.foldl_cons, List.foldl_nil,
    insertAt]

/-- **Where the test finds room, the list of loops grows.** -/
theorem nbrs_healLocked_overlong (hmax : 0 < maxM) (hroom : asInt k < maxM) :
    ((overlong k).healLocked D 0 [0, 1, 2] maxM).adjacency.nbrs 1 0 =
      List.replicate k 1 ++ [2] := by
  have hfits : ∀ {node cand : ℤ} {l : List ℤ}, HasRoom maxM l →
      Accepts D (overlong k) maxM node cand l ∧ Fits D (overlong k) maxM node cand l :=
    fun h => ⟨Or.inl h, fits_of_hasRoom h⟩
  have hlong : HasRoom maxM (List.replicate k (1 : ℤ)) := by
    rwa [HasRoom, List.length_replicate]
  have hnil : HasRoom maxM ([] : List ℤ) := hmax
  have hend : (overlong k).Endpoints 1 2 :=
    ⟨by decide, ⟨by decide, by decide⟩, ⟨by decide, by decide⟩, show asSize 1 < 3 by decide,
      show asSize 2 < 3 by decide⟩
  obtain ⟨hgrown, -⟩ := (apart_overlong k).tryInsert_accepted (D := D) hend hmax
    (hfits hlong).1 (hfits hnil).1
  rw [if_pos (hfits hlong).2, afterCheck_of_hasRoom hlong, afterCheck_of_hasRoom hlong] at hgrown
  have hresize : Layered.resize (overlong k).numElements (overlong k).adjacency =
      (overlong k).adjacency := rfl
  have hlayers : maxLayerGlobal (overlong k).adjacency (0 : ℕ) [0, 1, 2] = 1 := rfl
  have hstart : upToLayer D (overlong k) 0 [0, 1, 2] maxM 0 = ⟨(overlong k).adjacency, 0, 0⟩ := rfl
  have hother : ¬ (1 : ℕ) = 0 := by decide
  rw [healLocked_eq, hresize, hlayers, upToLayer_succ, hstart, healLayer_overlong _ rfl, clearNode,
    Layered.nbrs_clear, if_neg hother]
  exact hgrown

/-- The call on `overlong` returns, with that list. -/
theorem healGraphStructure_overlong (hmax : 0 < maxM) (hroom : asInt k < maxM) : ∃ hm ix',
    (overlong k).healGraphStructure D .calm (0 : ℕ) maxM = (.ok hm, ix') ∧
      ix'.adjacency.nbrs 1 0 = List.replicate k 1 ++ [2] := by
  rcases healGraphStructure_cases (D := D) (overlong k) .calm 0 maxM with
    ⟨-, hm, -, hok⟩ | ⟨hno, -⟩
  · obtain ⟨-, -, -, hadj⟩ := healed_of_healGraphStructure hok
    rw [Nat.cast_zero, collect_overlong] at hadj
    exact ⟨hm, _, hok, by rw [hadj, nbrs_healLocked_overlong hmax hroom]⟩
  · exact absurd ⟨hmax, rfl, show 0 < 3 by decide, rfl, rfl⟩ hno

end Overlong

/-- **The degree cap on any graph.** Of the lists of `k` labels, all are healed as they should be,
in every graph and by every heal, if and only if the length test reads `k` right. -/
theorem listHealed_iff (D : Type) [FloatArith D] {maxM : ℤ} (hmax : 0 < maxM)
    (hint : maxM < 2 ^ 31) (k : ℕ) :
    (∀ (ix : Index) (env : NativeEnv) (q v L : ℕ) (hm : HealingMetrics) (ix' : Index),
      ix.healGraphStructure D env q maxM = (.ok hm, ix') → (ix.adjacency.nbrs v L).length = k →
        ListHealed ix.adjacency q maxM v L (ix.adjacency.nbrs v L) (ix'.adjacency.nbrs v L)) ↔
      ReadsRoom maxM k := by
  constructor
  · intro hall hroom
    obtain ⟨hm, ix', hok, hgrown⟩ := healGraphStructure_overlong (D := D) hmax hroom
    have hlen : ((overlong k).adjacency.nbrs 1 0).length = k := List.length_replicate
    have hcap := (hall (overlong k) .calm 0 1 0 hm ix' hok hlen).length
    rw [hgrown, hlen, List.length_append, List.length_replicate, List.length_singleton] at hcap
    push_cast at hcap
    omega
  · rintro hread ix env q v L hm ix' hok rfl
    exact listHealed_of_readsRoom hint hok fun _ => hread

/-- Ten labels are read right. -/
theorem listHealed_iff_ten : ReadsRoom 16 10 ∧
    ∀ (ix : Index) (env : NativeEnv) (q v L : ℕ) (hm : HealingMetrics) (ix' : Index),
      ix.healGraphStructure ℚ env q 16 = (.ok hm, ix') → (ix.adjacency.nbrs v L).length = 10 →
        ListHealed ix.adjacency q 16 v L (ix.adjacency.nbrs v L) (ix'.adjacency.nbrs v L) := by
  have hread : ReadsRoom 16 10 := readsRoom_of_lt (by decide)
  exact ⟨hread, (listHealed_iff ℚ (by decide) (by decide) 10).mpr hread⟩

/-- **Above the cap and growing**: node `1` has `2 ^ 31` labels, the cap is one, and the heal of
node `0` appends a label to it. -/
theorem healGraphStructure_outgrows :
    ¬ ∀ (ix : Index) (q : ℕ) (maxM : ℤ), 0 < maxM → ix.WellFormed →
      ∀ hm ix', ix.healGraphStructure ℚ .calm q maxM = (.ok hm, ix') → ∀ v L,
        ListHealed ix.adjacency q maxM v L (ix.adjacency.nbrs v L) (ix'.adjacency.nbrs v L) := by
  intro hall
  have hcast : asInt (2 ^ 31) < 1 := by decide
  obtain ⟨hm, ix', hok, hgrown⟩ := healGraphStructure_overlong (D := ℚ) one_pos hcast
  have hlen : ((overlong (2 ^ 31)).adjacency.nbrs 1 0).length = 2 ^ 31 := List.length_replicate
  have hcap := (hall _ 0 1 one_pos (wellFormed_overlong _) hm ix' hok 1 0).length
  rw [hgrown, hlen, List.length_append, List.length_replicate, List.length_singleton] at hcap
  revert hcap
  decide

end Index

end Unlearning
