import Mathlib.Data.Int.ModEq
import Unlearning.HealSurvives

/-!
# The edge accounting of a heal (`src/hnsw_helper.hpp`, `heal_graph_structure`)

`balance` is the number of entries that a heal has to account for: those that are there, those
counted as removed, less those counted as added. Entries go in seven places, one of which may take
several copies of a label and count them together, and come in one. Each removal is counted
through a `static_cast<int>`, so it keeps the balance modulo `2 ^ 32`, and keeps it exactly on
lists of fewer than `2 ^ 31` entries. Lists stay that short, since a label is appended only below
`max_m`, an `int` itself. The counters may still pass the `int`s: what is returned of them is
wrapped.
-/

namespace Unlearning

namespace Index

/-- The entries a heal has to account for. -/
def balance (s : HealWork) : ℤ := s.adjacency.entries + s.edgesRemoved - s.edgesAdded

/-- Every list is short enough for its length to be an `int`. -/
def Short (g : Layered ℤ) : Prop := ∀ v L, (g.nbrs v L).length < 2 ^ 31

/-- A step that counts each entry that it removes or adds. -/
structure Exact (s t : HealWork) : Prop where
  short : Short t.adjacency
  balance : Index.balance t = Index.balance s
  removed : s.edgesRemoved ≤ t.edgesRemoved
  added : s.edgesAdded ≤ t.edgesAdded

/-- **A step that accounts for what it does.** -/
structure Balanced (s t : HealWork) : Prop where
  modular : balance t ≡ balance s [ZMOD 2 ^ 32]
  exact : Short s.adjacency → Exact s t

theorem asInt_modEq (n : ℕ) : asInt n ≡ n [ZMOD 2 ^ 32] := by
  have hmod := Int.bmod_emod (x := (n : ℤ)) (m := 2 ^ 32)
  exact_mod_cast hmod

namespace Balanced

variable {s t r : HealWork}

theorem refl (s : HealWork) : Balanced s s := ⟨rfl, fun h => ⟨h, rfl, le_rfl, le_rfl⟩⟩

theorem trans (h : Balanced s t) (h' : Balanced t r) : Balanced s r where
  modular := h'.modular.trans h.modular
  exact hs := by
    have ht := h.exact hs
    have hr := h'.exact ht.short
    exact ⟨hr.short, hr.balance.trans ht.balance, ht.removed.trans hr.removed,
      ht.added.trans hr.added⟩

/-- A step that changes no list and counts nothing. -/
theorem of_same (hnbrs : ∀ v L, t.adjacency.nbrs v L = s.adjacency.nbrs v L)
    (hentries : t.adjacency.entries = s.adjacency.entries)
    (hremoved : t.edgesRemoved = s.edgesRemoved) (hadded : t.edgesAdded = s.edgesAdded) :
    Balanced s t := by
  have heq : balance t = balance s := by rw [balance, balance, hentries, hremoved, hadded]
  refine ⟨by rw [heq], fun hs => ⟨fun v L => ?_, heq, hremoved.ge, hadded.ge⟩⟩
  rw [hnbrs]
  exact hs v L

/-- **A removal**: `k` entries of one list go and are counted through a cast to `int`. -/
theorem of_removed {k v L : ℕ} (hentries : t.adjacency.entries + k = s.adjacency.entries)
    (hremoved : t.edgesRemoved = s.edgesRemoved + asInt k) (hadded : t.edgesAdded = s.edgesAdded)
    (hk : k ≤ (s.adjacency.nbrs v L).length)
    (hlen : ∀ v L, (t.adjacency.nbrs v L).length ≤ (s.adjacency.nbrs v L).length) :
    Balanced s t := by
  have hcast : (t.adjacency.entries : ℤ) + k = s.adjacency.entries := by exact_mod_cast hentries
  have hbal : balance t = balance s + (asInt k - k) := by
    rw [balance, balance, hremoved, hadded]
    omega
  constructor
  · have hzero : asInt k - k ≡ 0 [ZMOD 2 ^ 32] := by
      have hsub := (asInt_modEq k).sub (Int.ModEq.refl (k : ℤ))
      rwa [sub_self] at hsub
    have hsum := (Int.ModEq.refl (balance s)).add hzero
    rwa [add_zero, ← hbal] at hsum
  · intro hs
    have hint : asInt k = k := asInt_of_lt (by exact_mod_cast hk.trans_lt (hs v L))
    rw [hint, sub_self, add_zero] at hbal
    rw [hint] at hremoved
    refine ⟨fun v L => (hlen v L).trans_lt (hs v L), hbal, ?_, hadded.ge⟩
    rw [hremoved]
    exact le_add_of_nonneg_right (Int.natCast_nonneg k)

end Balanced

/-! ## The helpers -/

section Helpers

variable {D : Type} [FloatArith D] {ix : Index} {maxM : ℤ}

theorem balanced_slot (n v L : ℕ) (s : HealWork) : Balanced s (s.slot n v L) :=
  .of_same (nbrs_ensureLayerSlot n s.adjacency v L)
    (by rw [HealWork.slot, ensureLayerSlot, Layered.entries_slot, Layered.entries_resize]) rfl rfl

/-- `remove_label` takes all copies of a label and counts them together. -/
theorem balanced_dropLabel (x : ℤ) (v L : ℕ) (s : HealWork) :
    Balanced s (s.dropLabel x v L) := by
  have hle := List.length_filter_le (· ≠ x) (s.adjacency.nbrs v L)
  refine .of_removed (k := (s.adjacency.nbrs v L).length -
    ((s.adjacency.nbrs v L).filter (· ≠ x)).length) (v := v) (L := L) ?_
    (by simp only [HealWork.dropLabel, removeLabel]) (by simp only [HealWork.dropLabel])
    (Nat.sub_le _ _) fun w K => ?_
  · by_cases hL : L < (s.adjacency.layersOf v).length
    · have hput := Layered.entries_put hL ((s.adjacency.nbrs v L).filter (· ≠ x))
      simp only [HealWork.dropLabel, removeLabel]
      omega
    · have hnil := Layered.nbrs_of_length_le (Nat.le_of_not_lt hL)
      rw [HealWork.dropLabel, Layered.put_of_length_le (Nat.le_of_not_lt hL), hnil]
      rfl
  · rw [nbrs_dropLabel]
    split
    · rename_i hplace
      rw [hplace.1, hplace.2]
      exact hle
    · exact le_rfl

/-- An eviction takes one entry, and all copies of the node from the evicted label's list. -/
theorem balanced_evict (n : ℕ) {node : ℤ} {layer i : ℕ} {s : HealWork}
    (hi : i < (s.adjacency.nbrs (asSize node) layer).length) :
    Balanced s (s.evict n node layer i) := by
  have hL : layer < (s.adjacency.layersOf (asSize node)).length := by
    by_contra hL
    rw [Layered.nbrs_of_length_le (Nat.le_of_not_lt hL)] at hi
    cases hi
  have herase : Balanced s ⟨s.adjacency.put (asSize node) layer
      ((s.adjacency.nbrs (asSize node) layer).eraseIdx i), s.edgesRemoved + 1, s.edgesAdded⟩ := by
    refine .of_removed (k := 1) (v := asSize node) (L := layer) ?_ rfl rfl (by omega)
      fun w K => ?_
    · have hput := Layered.entries_put hL ((s.adjacency.nbrs (asSize node) layer).eraseIdx i)
      rw [List.length_eraseIdx_of_lt hi] at hput
      dsimp only
      omega
    · rw [Layered.nbrs_put_map (f := fun l => l.eraseIdx i) rfl]
      split
      · rename_i hplace
        rw [hplace.1, hplace.2]
        exact List.length_eraseIdx_le _ _
      · exact le_rfl
  simp only [HealWork.evict]
  split
  · exact herase.trans ((balanced_slot _ _ _ _).trans (balanced_dropLabel _ _ _ _))
  · exact herase

/-- The appended label is counted as added, and the list stays short. -/
theorem balanced_append (hint : maxM < 2 ^ 31) {v L : ℕ} {s : HealWork}
    (hL : L < (s.adjacency.layersOf v).length) (hroom : HasRoom maxM (s.adjacency.nbrs v L))
    (cand : ℤ) : Balanced s (append v cand L s) := by
  have hput := Layered.entries_put hL (s.adjacency.nbrs v L ++ [cand])
  have hone : (append v cand L s).adjacency.entries = s.adjacency.entries + 1 := by
    rw [List.length_append, List.length_singleton] at hput
    simp only [append]
    omega
  have heq : balance (append v cand L s) = balance s := by
    rw [balance, balance, hone]
    simp only [append]
    push_cast
    omega
  refine ⟨by rw [heq], fun hs => ⟨fun w K => ?_, heq, le_rfl, (lt_add_one _).le⟩⟩
  rcases nbrs_append_cases v cand L s w K with hsame | ⟨rfl, rfl, hnew⟩
  · rw [hsame]
    exact hs w K
  · have hlen : asInt (s.adjacency.nbrs w K).length < maxM := hroom
    rw [asInt_of_lt (by exact_mod_cast hs w K)] at hlen
    rw [hnew, List.length_append, List.length_singleton]
    omega

theorem balanced_ensureCapacityFor (hmax : 0 < maxM) (node cand : ℤ) (layer : ℕ) (s : HealWork) :
    Balanced s (ix.ensureCapacityFor D node cand layer maxM s).2 := by
  have hslot := balanced_slot ix.numElements (asSize node) layer s
  rw [ensureCapacityFor_eq]
  split
  · exact hslot
  · rename_i hfull
    split
    · refine hslot.trans (balanced_evict _ ?_)
      rw [HealWork.slot, nbrs_ensureLayerSlot]
      exact furthest_lt_of_full hmax (fun hroom => hfull (Or.inr hroom)) node
    · exact hslot

/-- Insertions account for what they do. -/
theorem steps_balanced (hmax : 0 < maxM) (hint : maxM < 2 ^ 31) (L : ℕ) :
    Steps D ix L maxM (fun node _ => asSize node < ix.numElements) Balanced where
  inTable hp := hp
  refl := .refl
  trans h h' := h.trans h'
  slot _ s := balanced_slot _ _ _ s
  capacity _ s := balanced_ensureCapacityFor hmax _ _ L s
  append _ _ hL _ hroom := balanced_append hint hL hroom _

/-! ## The layers -/

theorem balanced_clearLayer (n L : ℕ) (s : HealWork) : Balanced s (clearLayer n L s) := by
  rw [clearLayer]
  split
  · rename_i hL
    refine .of_removed (k := (s.adjacency.nbrs n L).length) (v := n) (L := L) ?_ rfl rfl le_rfl
      fun w K => ?_
    · have hput := Layered.entries_put hL []
      simpa using hput
    · rw [Layered.nbrs_put_map (f := fun _ => []) rfl]
      split
      · exact Nat.zero_le _
      · exact le_rfl
  · exact .refl s

theorem balanced_isolate (q : ℤ) (region : List ℤ) (L : ℕ) (s : HealWork) :
    Balanced s (ix.isolate q region L s) := by
  have horphans : Balanced s (ix.unlinkOrphans q L (ix.orphans s.adjacency q L) s) := by
    refine List.foldlRecOn (motive := Balanced s) (ix.orphans s.adjacency q L) _ (.refl s) ?_
    intro t ih u _
    exact ih.trans ((balanced_slot _ _ _ t).trans (balanced_dropLabel _ _ _ _))
  refine (horphans.trans (balanced_clearLayer (asSize q) L _)).trans ?_
  refine List.foldlRecOn (motive := Balanced _) region _ (.refl _) ?_
  intro t ih v _
  split
  · exact ih
  · split
    · exact ih.trans (balanced_dropLabel _ _ _ t)
    · exact ih

theorem balanced_healLayer (hmax : 0 < maxM) (hint : maxM < 2 ^ 31) (q : ℤ) (region : List ℤ)
    (s : HealWork) (L : ℕ) : Balanced s (ix.healLayer D q region maxM s L) := by
  have hiso : Balanced s (ix.isolate q region L s) := balanced_isolate q region L s
  by_cases hfew : (ix.orphans s.adjacency q L).length < 2
  · rw [healLayer, if_pos hfew]
    exact hiso
  · rw [healLayer_eq hfew]
    refine List.foldlRecOn (motive := Balanced s) _ _ hiso ?_
    intro t ih c _
    exact ih.trans ((steps_balanced (D := D) hmax hint L).tryInsertHealedEdge
      (fun _ hu hw => ⟨hu, hw⟩) t).1

/-- The lists of one node, counted one by one. -/
theorem sum_asInt_modEq (perNode : List (List ℤ)) :
    (perNode.map fun l => asInt l.length).sum ≡ Layered.sizeOf perNode [ZMOD 2 ^ 32] := by
  induction perNode with
  | nil =>
    rw [List.map_nil, List.sum_nil, Layered.sizeOf, List.flatten_nil, List.length_nil,
      Nat.cast_zero]
  | cons l rest ih =>
    rw [List.map_cons, List.sum_cons, Layered.sizeOf_cons, Nat.cast_add]
    exact (asInt_modEq l.length).add ih

theorem sum_asInt_eq {perNode : List (List ℤ)} (h : ∀ l ∈ perNode, l.length < 2 ^ 31) :
    (perNode.map fun l => asInt l.length).sum = Layered.sizeOf perNode := by
  induction perNode with
  | nil => rfl
  | cons l rest ih =>
    have hl := h l List.mem_cons_self
    have hrest := ih fun l' hl' => h l' (List.mem_cons_of_mem l hl')
    rw [List.map_cons, List.sum_cons, hrest, asInt_of_lt (by exact_mod_cast hl),
      Layered.sizeOf_cons, Nat.cast_add]

/-- The last loop clears what is left of `q`. -/
theorem balanced_clearNode (n : ℕ) (s : HealWork) : Balanced s (clearNode n s) := by
  have hclear := Layered.entries_clear s.adjacency n
  have hcast : ((clearNode n s).adjacency.entries : ℤ) + Layered.sizeOf (s.adjacency.layersOf n) =
      s.adjacency.entries := by exact_mod_cast hclear
  have hbal : balance (clearNode n s) = balance s +
      (((s.adjacency.layersOf n).map fun l => asInt l.length).sum -
        Layered.sizeOf (s.adjacency.layersOf n)) := by
    simp only [balance]
    simp only [clearNode] at hcast ⊢
    omega
  constructor
  · have hzero := (sum_asInt_modEq (s.adjacency.layersOf n)).sub
      (Int.ModEq.refl (Layered.sizeOf (s.adjacency.layersOf n) : ℤ))
    rw [sub_self] at hzero
    have hsum := (Int.ModEq.refl (balance s)).add hzero
    rwa [add_zero, ← hbal] at hsum
  · intro hs
    have hshort : ∀ l ∈ s.adjacency.layersOf n, l.length < 2 ^ 31 := by
      intro l hl
      obtain ⟨K, hK⟩ := List.mem_iff_getElem?.mp hl
      have hlist := hs n K
      rwa [Layered.nbrs, hK] at hlist
    have hsum := sum_asInt_eq hshort
    refine ⟨fun v K => ?_, by omega, ?_, le_rfl⟩
    · rw [clearNode, Layered.nbrs_clear]
      split
      · exact Nat.pos_of_ne_zero (by decide)
      · exact hs v K
    · rw [clearNode]
      dsimp only
      omega

theorem balanced_healLocked (hmax : 0 < maxM) (hint : maxM < 2 ^ 31) (n : ℕ) (region : List ℤ) :
    Balanced ⟨Layered.resize ix.numElements ix.adjacency, 0, 0⟩
      (ix.healLocked D n region maxM) := by
  refine Balanced.trans ?_ (balanced_clearNode n _)
  refine List.foldlRecOn (motive := Balanced _) _ _ (.refl _) ?_
  intro t ih L _
  exact ih.trans (balanced_healLayer hmax hint n region t L)

/-- What a heal that returns has done, with its counters. -/
theorem healed_of_healGraphStructure {env : NativeEnv} {q : ℕ} {hm : HealingMetrics}
    {ix' : Index} (h : ix.healGraphStructure D env q maxM = (.ok hm, ix')) :
    let s := ix.healLocked D q (ix.collectHealRegionUnlocked q) maxM
    0 < maxM ∧ hm.edgesRemoved = wrapInt s.edgesRemoved ∧
      hm.edgesAdded = wrapInt s.edgesAdded ∧ ix'.adjacency = s.adjacency := by
  rcases healGraphStructure_cases (D := D) ix env q maxM with ⟨⟨hmax, hl, hn, hlocks⟩, -⟩ | ⟨-, e, herr⟩
  · have hregion : ix.lockRegion env q = .ok (ix.collectHealRegionUnlocked q) :=
      ((lockRegion_cases ix env q).resolve_right fun hno => hno.1 hlocks).2
    rw [healGraphStructure, if_neg (by omega), if_neg (by simp [hl]), if_neg (by omega),
      hregion] at h
    obtain ⟨hok, rfl⟩ := Prod.mk.inj h
    obtain rfl := Except.ok.inj hok
    exact ⟨hmax, rfl, rfl, rfl⟩
  · rw [herr] at h
    cases (Prod.mk.inj h).1

theorem wrapInt_modEq (x : ℤ) : wrapInt x ≡ x [ZMOD 2 ^ 32] := Int.bmod_emod

theorem wrapInt_of_lt {x : ℤ} (h0 : 0 ≤ x) (h : x < 2 ^ 31) : wrapInt x = x :=
  Int.bmod_eq_of_le (by omega) (by omega)

/-- **The edge accounting.** After a heal that returns, the entries that were there, less those
returned as removed, plus those returned as added, are the entries that are there now: always
modulo `2 ^ 32`, and as integers whenever no list had `2 ^ 31` or more entries and neither of the
counters has come that far. -/
theorem healGraphStructure_accounts (hint : maxM < 2 ^ 31) {env : NativeEnv} {q : ℕ}
    {hm : HealingMetrics} {ix' : Index}
    (h : ix.healGraphStructure D env q maxM = (.ok hm, ix')) :
    let s := ix.healLocked D q (ix.collectHealRegionUnlocked q) maxM
    (ix.adjacency.entries : ℤ) - hm.edgesRemoved + hm.edgesAdded ≡ ix'.adjacency.entries
        [ZMOD 2 ^ 32] ∧
      (Short ix.adjacency → s.edgesRemoved < 2 ^ 31 → s.edgesAdded < 2 ^ 31 →
        (ix.adjacency.entries : ℤ) - hm.edgesRemoved + hm.edgesAdded = ix'.adjacency.entries) := by
  obtain ⟨hmax, hremoved, hadded, hadj⟩ := healed_of_healGraphStructure h
  have hbalanced : Balanced ⟨Layered.resize ix.numElements ix.adjacency, 0, 0⟩
      (ix.healLocked D q (ix.collectHealRegionUnlocked q) maxM) :=
    balanced_healLocked hmax hint q _
  dsimp only
  rw [hadj, hremoved, hadded]
  generalize ix.healLocked D q (ix.collectHealRegionUnlocked q) maxM = s at hbalanced ⊢
  have hstart : balance ⟨Layered.resize ix.numElements ix.adjacency, 0, 0⟩ =
      ix.adjacency.entries := by
    rw [balance, Layered.entries_resize, add_zero, sub_zero]
  constructor
  · have hmod := hbalanced.modular
    rw [hstart] at hmod
    have hshift := (hmod.symm.sub (wrapInt_modEq s.edgesRemoved)).add
      (wrapInt_modEq s.edgesAdded)
    have hend : balance s - s.edgesRemoved + s.edgesAdded = s.adjacency.entries := by
      rw [balance]
      omega
    rwa [hend] at hshift
  · intro hshort hfew hfew'
    obtain ⟨-, heq, hremoved0, hadded0⟩ := hbalanced.exact fun v L => by
      rw [Layered.nbrs_resize]
      exact hshort v L
    rw [hstart, balance] at heq
    rw [wrapInt_of_lt hremoved0 hfew, wrapInt_of_lt hadded0 hfew']
    omega

end Helpers

/-! ## A list too long for an `int` -/

/-- One node that lists itself `k` times. -/
def selfLoops (k : ℕ) : Index where
  data := some ⟨[0], by decide⟩
  ownsData := true
  dim := 1
  numElements := 1
  entrypoint := 0
  adjacency := [[List.replicate k 0]]

theorem entries_selfLoops (k : ℕ) : (selfLoops k).adjacency.entries = k := by
  simp [selfLoops, Layered.entries]

/-- What is listed already is not added. -/
theorem foldl_addUnique_of_subset {ix : Index} {l region : List ℤ} (h : l ⊆ region) :
    l.foldl ix.addUnique region = region := by
  induction l with
  | nil => rfl
  | cons u rest ih =>
    have hu : ix.addUnique region u = region := by
      rw [addUnique]
      split
      · rfl
      · exact if_pos (h List.mem_cons_self)
    rw [List.foldl_cons, hu]
    exact ih fun x hx => h (List.mem_cons_of_mem u hx)

theorem collect_selfLoops (k : ℕ) : (selfLoops k).collectHealRegionUnlocked 0 = [0] := by
  have hone : (selfLoops k).addNeighbors [0] 0 = [0] := by
    refine foldl_addUnique_of_subset fun x hx => ?_
    have hloop : x ∈ List.replicate k (0 : ℤ) := by
      simpa [selfLoops, Layered.layersOf, asSize] using hx
    rw [List.eq_of_mem_replicate hloop]
    exact List.mem_singleton_self 0
  rw [collectHealRegionUnlocked, hone]
  rfl

theorem orphans_selfLoops (k : ℕ) :
    (selfLoops k).orphans (selfLoops k).adjacency 0 0 = [] := by
  refine List.eq_nil_iff_forall_not_mem.mpr fun u hu => ?_
  obtain ⟨hne, -, hmem⟩ := mem_orphans hu
  have hloop : u ∈ List.replicate k (0 : ℤ) := hmem
  exact hne (List.eq_of_mem_replicate hloop)

/-- The heal of the node clears its one list, and counts it through a cast to `int`. -/
theorem healLocked_selfLoops (D : Type) [FloatArith D] (k : ℕ) (maxM : ℤ) :
    (selfLoops k).healLocked D 0 [0] maxM = ⟨[[[]]], asInt k, 0⟩ := by
  have hlayer : (selfLoops k).healLayer D 0 [0] maxM ⟨(selfLoops k).adjacency, 0, 0⟩ 0 =
      ⟨[[[]]], asInt k, 0⟩ := by
    have hfew : ((selfLoops k).orphans (selfLoops k).adjacency 0 0).length < 2 := by
      rw [orphans_selfLoops]
      decide
    have hlen : asInt ((selfLoops k).adjacency.nbrs 0 0).length = asInt k :=
      congrArg asInt List.length_replicate
    rw [healLayer, if_pos hfew, isolate, orphans_selfLoops]
    simp only [unlinkOrphans, List.foldl_nil, unlinkRegion, List.foldl_cons, if_true]
    have hself : asSize 0 = 0 := rfl
    have hlayers : 0 < ((selfLoops k).adjacency.layersOf 0).length := Nat.one_pos
    rw [hself, clearLayer, if_pos hlayers, hlen, zero_add]
    rfl
  have hrun : (selfLoops k).healLocked D 0 [0] maxM =
      clearNode 0 ((selfLoops k).healLayer D 0 [0] maxM ⟨(selfLoops k).adjacency, 0, 0⟩ 0) := rfl
  rw [hrun, hlayer]
  simp only [clearNode, Layered.layersOf, List.getElem?_cons_zero, Option.getD_some, List.map_cons,
    List.map_nil, List.sum_cons, List.sum_nil, List.length_nil]
  have hzero : asInt 0 = 0 := rfl
  rw [hzero, add_zero, add_zero]
  rfl

theorem wellFormed_selfLoops (k : ℕ) : (selfLoops k).WellFormed := by
  refine ⟨rfl, rfl, labelsIn_iff.mpr fun nb hnb => ?_, Or.inr Int.zero_lt_one⟩
  have hloop : nb ∈ List.replicate k (0 : ℤ) := by
    simpa [selfLoops] using hnb
  rw [List.eq_of_mem_replicate hloop]
  exact ⟨le_rfl, Int.zero_lt_one⟩

/-- **Miscounted**: of `2 ^ 31` entries `-2 ^ 31` are reported as removed. -/
theorem healGraphStructure_miscounts :
    ¬ ∀ (ix : Index) (q : ℕ) (maxM : ℤ), 0 < maxM → ix.WellFormed →
      ∀ hm ix', ix.healGraphStructure ℚ .calm q maxM = (.ok hm, ix') →
        (ix.adjacency.entries : ℤ) - hm.edgesRemoved + hm.edgesAdded = ix'.adjacency.entries := by
  intro hall
  have hready : 0 < (1 : ℤ) ∧ (selfLoops (2 ^ 31)).isLoaded = true ∧
      0 < (selfLoops (2 ^ 31)).numElements ∧ HealLocks .calm := ⟨by decide, rfl, by decide, rfl, rfl⟩
  rcases healGraphStructure_cases (D := ℚ) (selfLoops (2 ^ 31)) .calm 0 1 with
    ⟨-, hm, -, hok⟩ | ⟨hno, -⟩
  · have hcount := hall (selfLoops (2 ^ 31)) 0 1 (by decide) (wellFormed_selfLoops _) _ _ hok
    obtain ⟨-, hremoved, hadded, hadj⟩ := healed_of_healGraphStructure hok
    rw [Nat.cast_zero, collect_selfLoops, healLocked_selfLoops] at hremoved hadded hadj
    rw [hremoved, hadded, hadj, entries_selfLoops] at hcount
    have hcast : wrapInt (asInt (2 ^ 31)) = -2 ^ 31 := by decide
    rw [hcast] at hcount
    revert hcount
    decide
  · exact hno hready

/-- On `fullSpoke` with lists of one label: three edges, three removals, two insertions. -/
theorem healGraphStructure_accounts_fullSpoke : ∃ hm ix',
    fullSpoke.healGraphStructure ℚ .calm (0 : ℕ) 1 = (.ok hm, ix') ∧
      (fullSpoke.adjacency.entries : ℤ) - hm.edgesRemoved + hm.edgesAdded =
        ix'.adjacency.entries := by
  have hok : ∃ hm ix', fullSpoke.healGraphStructure ℚ .calm (0 : ℕ) 1 = (.ok hm, ix') :=
    ⟨_, _, rfl⟩
  obtain ⟨hm, ix', h⟩ := hok
  have hshort : Short fullSpoke.adjacency := by
    intro v L
    have hentries : fullSpoke.adjacency.entries = 3 := rfl
    have hle := Layered.length_nbrs_le_entries fullSpoke.adjacency v L
    omega
  exact ⟨hm, ix', h, (healGraphStructure_accounts (by decide) h).2 hshort (by decide +kernel)
    (by decide +kernel)⟩

end Index

end Unlearning
