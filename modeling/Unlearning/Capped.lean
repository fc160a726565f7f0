import Unlearning.HealSteps

/-!
# Symmetric graphs under erasures (`src/hnsw_helper.hpp`, `erase_node`)

On a graph whose lists are symmetric, free of duplicates and loops, and of at most
`max_m` labels, the heal works on undirected edges: an eviction removes both halves
of an edge, an insertion finds either both halves missing or none, and once both
endpoints have room both halves are written. `Capped` is that invariant;
`capped_tryInsertHealedEdge` is the one place where the order of the capacity checks
matters. Nothing is assumed of the distances.
-/

namespace Unlearning

namespace Index

/-- **Symmetric, capped adjacency** over the nodes `0 … N - 1`. -/
structure Capped (N : ℕ) (maxM : ℤ) (adj : Layered ℤ) : Prop where
  range : LabelsIn N adj
  symm : ∀ {u v L : ℕ}, (v : ℤ) ∈ adj.nbrs u L → (u : ℤ) ∈ adj.nbrs v L
  nodup : ∀ v L, (adj.nbrs v L).Nodup
  loopFree : ∀ v L, (v : ℤ) ∉ adj.nbrs v L
  cap : ∀ v L, ((adj.nbrs v L).length : ℤ) ≤ maxM

/-- Both halves of an edge are written, and nothing else. -/
def Linked (u w L : ℕ) (adj adj' : Layered ℤ) : Prop :=
  ∀ v K, adj'.nbrs v K =
    if v = w ∧ K = L then adj.nbrs w L ++ [(u : ℤ)]
    else if v = u ∧ K = L then adj.nbrs u L ++ [(w : ℤ)] else adj.nbrs v K

namespace Linked

variable {u w L : ℕ} {adj adj' : Layered ℤ}

/-- A list is the old one, or one of the two ends' with the other end added. -/
theorem cases (h : Linked u w L adj adj') (v K : ℕ) : adj'.nbrs v K = adj.nbrs v K ∨
    K = L ∧ (v = w ∧ adj'.nbrs v K = adj.nbrs v K ++ [(u : ℤ)] ∨
      v = u ∧ adj'.nbrs v K = adj.nbrs v K ++ [(w : ℤ)]) := by
  have heq := h v K
  split at heq
  · rename_i hv
    obtain ⟨rfl, rfl⟩ := hv
    exact Or.inr ⟨rfl, Or.inl ⟨rfl, heq⟩⟩
  · split at heq
    · rename_i hv
      obtain ⟨rfl, rfl⟩ := hv
      exact Or.inr ⟨rfl, Or.inr ⟨rfl, heq⟩⟩
    · exact Or.inl heq

theorem mem_iff (h : Linked u w L adj adj') (hne : u ≠ w) {v K : ℕ} {y : ℤ} :
    y ∈ adj'.nbrs v K ↔ y ∈ adj.nbrs v K ∨ K = L ∧ (v = w ∧ y = u ∨ v = u ∧ y = w) := by
  rcases h.cases v K with heq | ⟨rfl, ⟨rfl, heq⟩ | ⟨rfl, heq⟩⟩
  · rw [heq]
    refine ⟨Or.inl, ?_⟩
    rintro (hy | ⟨rfl, ⟨rfl, rfl⟩ | ⟨rfl, rfl⟩⟩)
    · exact hy
    · rw [← heq, h, if_pos ⟨rfl, rfl⟩]
      exact List.mem_append_right _ List.mem_cons_self
    · rw [← heq, h, if_neg fun hboth => hne hboth.1, if_pos ⟨rfl, rfl⟩]
      exact List.mem_append_right _ List.mem_cons_self
  · rw [heq]
    simp [hne.symm]
  · rw [heq]
    simp [hne]

end Linked

namespace Capped

variable {N : ℕ} {maxM : ℤ} {adj adj' : Layered ℤ}

/-- The labels of a list are nodes. -/
theorem exists_node (h : Capped N maxM adj) {u L : ℕ} {x : ℤ} (hx : x ∈ adj.nbrs u L) :
    ∃ v : ℕ, x = v ∧ v < N := by
  obtain ⟨h0, hlt⟩ := h.range u L x hx
  exact ⟨x.toNat, by omega, by omega⟩

/-- Only the lists count. -/
theorem congr (h : Capped N maxM adj) (heq : ∀ v L, adj'.nbrs v L = adj.nbrs v L) :
    Capped N maxM adj' where
  range v L nb hnb := h.range v L nb (by rwa [heq] at hnb)
  symm {u v L} huv := by
    rw [heq] at huv ⊢
    exact h.symm huv
  nodup v L := by
    rw [heq]
    exact h.nodup v L
  loopFree v L := by
    rw [heq]
    exact h.loopFree v L
  cap v L := by
    rw [heq]
    exact h.cap v L

/-- Removing edges, both halves of each. -/
theorem thin (h : Capped N maxM adj) (hsub : ∀ v L, (adj'.nbrs v L).Sublist (adj.nbrs v L))
    (hboth : ∀ {u v L : ℕ}, (v : ℤ) ∈ adj'.nbrs u L → (u : ℤ) ∈ adj.nbrs v L →
      (u : ℤ) ∈ adj'.nbrs v L) : Capped N maxM adj' where
  range v L nb hnb := h.range v L nb ((hsub v L).subset hnb)
  symm {u v L} huv := hboth huv (h.symm ((hsub u L).subset huv))
  nodup v L := (h.nodup v L).sublist (hsub v L)
  loopFree v L hv := h.loopFree v L ((hsub v L).subset hv)
  cap v L := by
    have hlen := (hsub v L).length_le
    have hcap := h.cap v L
    omega

/-- Adding both halves of an edge that was not there, with room at both ends. -/
theorem link (h : Capped N maxM adj) {u w L : ℕ} (hu : u < N) (hw : w < N) (hne : u ≠ w)
    (hnot : (w : ℤ) ∉ adj.nbrs u L)
    (hroomu : ((adj.nbrs u L).length : ℤ) < maxM) (hroomw : ((adj.nbrs w L).length : ℤ) < maxM)
    (hlink : Linked u w L adj adj') : Capped N maxM adj' := by
  have hnot' : (u : ℤ) ∉ adj.nbrs w L := fun hmem => hnot (h.symm hmem)
  -- every list is the old one, or the old one and one new label
  have hlist : ∀ v K, adj'.nbrs v K = adj.nbrs v K ∨ ∃ y, adj'.nbrs v K = adj.nbrs v K ++ [y] ∧
      y ∉ adj.nbrs v K ∧ ((adj.nbrs v K).length : ℤ) < maxM := by
    intro v K
    rcases hlink.cases v K with heq | ⟨rfl, ⟨rfl, heq⟩ | ⟨rfl, heq⟩⟩
    · exact Or.inl heq
    · exact Or.inr ⟨u, heq, hnot', hroomw⟩
    · exact Or.inr ⟨w, heq, hnot, hroomu⟩
  refine ⟨fun v K y hy => ?_, fun {a b K} hab => ?_, fun v K => ?_, fun v K hv => ?_, fun v K => ?_⟩
  · rcases (hlink.mem_iff hne).mp hy with hold | ⟨-, ⟨-, rfl⟩ | ⟨-, rfl⟩⟩
    · exact h.range v K y hold
    · exact ⟨by omega, by omega⟩
    · exact ⟨by omega, by omega⟩
  · rcases (hlink.mem_iff hne).mp hab with hold | ⟨rfl, ⟨rfl, hb⟩ | ⟨rfl, hb⟩⟩
    · exact (hlink.mem_iff hne).mpr (Or.inl (h.symm hold))
    · exact (hlink.mem_iff hne).mpr (Or.inr ⟨rfl, Or.inr ⟨by omega, rfl⟩⟩)
    · exact (hlink.mem_iff hne).mpr (Or.inr ⟨rfl, Or.inl ⟨by omega, rfl⟩⟩)
  · rcases hlist v K with hsame | ⟨y, hnew, hy, -⟩
    · rw [hsame]
      exact h.nodup v K
    · rw [hnew]
      exact List.nodup_append.mpr ⟨h.nodup v K, List.nodup_singleton y, by
        intro a ha b hb hab
        rw [List.mem_singleton.mp hb] at hab
        exact hy (hab ▸ ha)⟩
  · rcases (hlink.mem_iff hne).mp hv with hold | ⟨-, ⟨rfl, hb⟩ | ⟨rfl, hb⟩⟩
    · exact h.loopFree v K hold
    · omega
    · omega
  · rcases hlist v K with hsame | ⟨y, hnew, -, hroom⟩
    · rw [hsame]
      exact h.cap v K
    · rw [hnew, List.length_append, List.length_singleton]
      omega

/-- Removing both halves of one edge. -/
theorem evict (h : Capped N maxM adj) {u x L : ℕ}
    (heq : ∀ v K, adj'.nbrs v K =
      if v = u ∧ K = L then (adj.nbrs u L).filter (· ≠ (x : ℤ))
      else if v = x ∧ K = L then (adj.nbrs x L).filter (· ≠ (u : ℤ)) else adj.nbrs v K) :
    Capped N maxM adj' ∧ ∀ v K, (adj'.nbrs v K).Sublist (adj.nbrs v K) := by
  have hsub : ∀ v K, (adj'.nbrs v K).Sublist (adj.nbrs v K) := by
    intro v K
    rw [heq]
    split
    · rename_i hv
      rw [hv.1, hv.2]
      exact List.filter_sublist
    · split
      · rename_i hv
        rw [hv.1, hv.2]
        exact List.filter_sublist
      · exact List.Sublist.refl _
  refine ⟨h.thin hsub fun {a b K} hab hba => ?_, hsub⟩
  rw [heq] at hab ⊢
  by_cases hK : K = L
  · subst hK
    simp only [and_true] at hab ⊢
    by_cases hbu : b = u
    · subst hbu
      rw [if_pos rfl]
      refine List.mem_filter.mpr ⟨hba, ?_⟩
      simp only [ne_eq, Nat.cast_inj, decide_not, Bool.not_eq_true', decide_eq_false_iff_not]
      rintro rfl
      split at hab
      · rename_i hloop
        subst hloop
        exact h.loopFree a K hba
      · simp at hab
    · rw [if_neg hbu]
      split
      · rename_i hbx
        subst hbx
        refine List.mem_filter.mpr ⟨hba, ?_⟩
        simp only [ne_eq, Nat.cast_inj, decide_not, Bool.not_eq_true', decide_eq_false_iff_not]
        rintro rfl
        simp at hab
      · exact hba
  · simpa [hK] using hba

end Capped

section Insert

variable {D : Type} [FloatArith D] {ix : Index} {maxM : ℤ} {s : HealWork} {layer : ℕ}

/-- The cast to `int` is exact below `2 ^ 31`. -/
theorem asInt_of_lt {n : ℕ} (h : (n : ℤ) < 2 ^ 31) : asInt n = n := by
  have hlo : -(((2 ^ 32 : ℕ) : ℤ) / 2) ≤ (n : ℤ) := by omega
  have hhi : (n : ℤ) < (((2 ^ 32 : ℕ) : ℤ) + 1) / 2 := by omega
  exact Int.bmod_eq_of_le hlo hhi

theorem Capped.asInt_length (h : Capped ix.numElements maxM s.adjacency) (hmax : maxM < 2 ^ 31)
    (v L : ℕ) : asInt (s.adjacency.nbrs v L).length = (s.adjacency.nbrs v L).length := by
  have hcap := h.cap v L
  exact asInt_of_lt (by omega)

/-- **`ensure_capacity_for` on a capped graph**: edges are only removed, both halves of
each, and a positive answer is true: there is room. -/
theorem capped_ensureCapacityFor (h : Capped ix.numElements maxM s.adjacency) (hpos : 0 < maxM)
    (hmax : maxM < 2 ^ 31) {u : ℕ} {cand : ℤ} (hnot : cand ∉ s.adjacency.nbrs u layer) :
    Capped ix.numElements maxM (ix.ensureCapacityFor D u cand layer maxM s).2.adjacency ∧
      (∀ v K, ((ix.ensureCapacityFor D u cand layer maxM s).2.adjacency.nbrs v K).Sublist
        (s.adjacency.nbrs v K)) ∧
      ((ix.ensureCapacityFor D u cand layer maxM s).1 = true →
        (((ix.ensureCapacityFor D u cand layer maxM s).2.adjacency.nbrs u layer).length : ℤ) <
          maxM) := by
  have hslot : ∀ v K, (s.slot ix.numElements u layer).adjacency.nbrs v K = s.adjacency.nbrs v K :=
    nbrs_ensureLayerSlot _ _ _ _
  have hs := h.congr hslot
  have hlen := h.asInt_length hmax u layer
  rcases ensureCapacityFor_cases (D := D) ix u cand layer maxM s with
    ⟨fits, heq, hfits⟩ | ⟨-, hfull, -, heq⟩
  · rw [heq]
    simp only [asSize_natCast] at hfits ⊢
    refine ⟨hs, fun v K => by rw [hslot], fun hf => ?_⟩
    rw [hslot, ← hlen]
    exact (hfits hf).resolve_left hnot
  · rw [heq]
    simp only [asSize_natCast] at hfull ⊢
    -- the list is full, so the furthest neighbour exists; it is another node
    have hne : s.adjacency.nbrs u layer ≠ [] := by
      intro hnil
      rw [hlen, hnil] at hfull
      simp only [List.length_nil, Nat.cast_zero] at hfull
      omega
    have hlt := furthest_lt (D := D) ix u hne
    obtain ⟨i, hi⟩ : ∃ i, i = (ix.furthest D u (s.adjacency.nbrs u layer)).1 := ⟨_, rfl⟩
    rw [← hi] at hlt ⊢
    have hmem := List.getElem_mem hlt
    obtain ⟨x, hx, hxN⟩ := h.exists_node hmem
    have hget : (s.adjacency.nbrs u layer)[i]? = some (x : ℤ) := by
      rw [List.getElem?_eq_getElem hlt, hx]
    have hxu : x ≠ u := by
      rintro rfl
      rw [hx] at hmem
      exact h.loopFree x layer hmem
    have hevict := nbrs_evict (s := s.slot ix.numElements u layer)
      (by rw [hslot]; exact h.nodup u layer) (by rw [hslot]; exact hget) hxN hxu
    obtain ⟨hcapped, hsub⟩ := hs.evict hevict
    refine ⟨hcapped, fun v K => by rw [← hslot v K]; exact hsub v K, fun _ => ?_⟩
    rw [hevict, if_pos ⟨rfl, rfl⟩, hslot]
    have hshort : ((s.adjacency.nbrs u layer).filter (· ≠ (x : ℤ))).length <
        (s.adjacency.nbrs u layer).length := by
      rw [List.length_filter_lt_length_iff_exists]
      exact ⟨x, hx ▸ hmem, by simp⟩
    have hcap := h.cap u layer
    omega

/-- Both capacity checks of a missing edge. The second one evicts at `w` only, so the
room found at `u` is still there. -/
theorem capped_capacityForBoth (h : Capped ix.numElements maxM s.adjacency) (hpos : 0 < maxM)
    (hmax : maxM < 2 ^ 31) {u w : ℕ} (hnot : (w : ℤ) ∉ s.adjacency.nbrs u layer) :
    Capped ix.numElements maxM (ix.capacityForBoth D u w layer maxM s).2.adjacency ∧
      (∀ v K, ((ix.capacityForBoth D u w layer maxM s).2.adjacency.nbrs v K).Sublist
        (s.adjacency.nbrs v K)) ∧
      ((ix.capacityForBoth D u w layer maxM s).1 = true →
        (((ix.capacityForBoth D u w layer maxM s).2.adjacency.nbrs u layer).length : ℤ) < maxM ∧
        (((ix.capacityForBoth D u w layer maxM s).2.adjacency.nbrs w layer).length : ℤ) <
          maxM) := by
  obtain ⟨hcap₁, hsub₁, hroom₁⟩ := capped_ensureCapacityFor (D := D) h hpos hmax hnot
  rw [capacityForBoth]
  generalize ix.ensureCapacityFor D u w layer maxM s = ru at hcap₁ hsub₁ hroom₁
  obtain ⟨fits, s₁⟩ := ru
  dsimp only at hcap₁ hsub₁ hroom₁ ⊢
  cases fits with
  | false => exact ⟨hcap₁, hsub₁, by simp⟩
  | true =>
    have hnot' : (u : ℤ) ∉ s₁.adjacency.nbrs w layer :=
      fun hmem => hnot (h.symm ((hsub₁ w layer).subset hmem))
    obtain ⟨hcap₂, hsub₂, hroom₂⟩ := capped_ensureCapacityFor (D := D) hcap₁ hpos hmax hnot'
    refine ⟨hcap₂, fun v K => (hsub₂ v K).trans (hsub₁ v K), fun hf => ⟨?_, hroom₂ hf⟩⟩
    have hle := (hsub₂ u layer).length_le
    have hlt := hroom₁ rfl
    exact lt_of_le_of_lt (Int.ofNat_le.mpr hle) hlt

/-- With room at both ends, both halves of a missing edge are written. -/
theorem linked_commitBoth {u w : ℕ} (hu : u < ix.numElements) (hw : w < ix.numElements)
    (huw : u ≠ w) (hnot : (w : ℤ) ∉ s.adjacency.nbrs u layer)
    (hnot' : (u : ℤ) ∉ s.adjacency.nbrs w layer)
    (hroomu : asInt (s.adjacency.nbrs u layer).length < maxM)
    (hroomw : asInt (s.adjacency.nbrs w layer).length < maxM) :
    Linked u w layer s.adjacency (ix.commitHalfEdge D w u layer maxM
      (ix.commitHalfEdge D u w layer maxM s).2).2.adjacency := by
  have hfirst := nbrs_commitHalfEdge_room (D := D) hu hnot hroomu
  obtain ⟨t, ht⟩ : ∃ t, t = (ix.commitHalfEdge D u w layer maxM s).2 := ⟨_, rfl⟩
  rw [← ht] at hfirst ⊢
  have hwlist : t.adjacency.nbrs w layer = s.adjacency.nbrs w layer := by
    rw [hfirst, if_neg fun hboth => huw hboth.1.symm]
  have hsecond := nbrs_commitHalfEdge_room (D := D) (s := t) hw (by rwa [hwlist])
    (by rwa [hwlist])
  intro v K
  rw [hsecond, hwlist, hfirst]

/-- **One insertion on a capped graph.** Either both halves of the edge were there, or
neither; if the capacity checks pass both are written. -/
theorem capped_tryInsertHealedEdge (layer : ℕ) (h : Capped ix.numElements maxM s.adjacency)
    (hpos : 0 < maxM) (hmax : maxM < 2 ^ 31) {u w : ℕ} (hu : u < ix.numElements)
    (hw : w < ix.numElements) :
    Capped ix.numElements maxM (ix.tryInsertHealedEdge D u w layer maxM s).adjacency ∧
      ∀ v K y, y ∈ (ix.tryInsertHealedEdge D u w layer maxM s).adjacency.nbrs v K →
        y ∈ s.adjacency.nbrs v K ∨ y = u ∨ y = w := by
  by_cases huw : u = w
  · rw [tryInsertHealedEdge, if_pos (by rw [huw])]
    exact ⟨h, fun v K y => Or.inl⟩
  · have hne : ¬ (u : ℤ) = w := by exact_mod_cast huw
    simp only [tryInsertHealedEdge, asSize_natCast, if_neg hne]
    rw [if_neg (by omega)]
    -- the slots made first are not seen by the lists
    obtain ⟨s₂, hs₂⟩ : ∃ s₂, s₂ = (s.slot ix.numElements u layer).slot ix.numElements w layer :=
      ⟨_, rfl⟩
    have hsame : ∀ v K, s₂.adjacency.nbrs v K = s.adjacency.nbrs v K := by
      intro v K
      rw [hs₂]
      simp [HealWork.slot]
    have h₂ := h.congr hsame
    rw [← hs₂]
    by_cases hhas : (w : ℤ) ∈ s₂.adjacency.nbrs u layer
    · rw [if_pos ⟨hhas, h₂.symm hhas⟩]
      exact ⟨h₂, fun v K y hy => Or.inl (by rwa [hsame] at hy)⟩
    · have hhas' : (u : ℤ) ∉ s₂.adjacency.nbrs w layer := fun hmem => hhas (h₂.symm hmem)
      simp only [hhas, hhas', and_self, not_false_eq_true, if_true, if_false]
      obtain ⟨hcap, hsub, hroom⟩ := capped_capacityForBoth (D := D) h₂ hpos hmax hhas
      generalize ix.capacityForBoth D u w layer maxM s₂ = r at hcap hsub hroom
      obtain ⟨fits, s₃⟩ := r
      dsimp only at hcap hsub hroom ⊢
      have hold : ∀ v K y, y ∈ s₃.adjacency.nbrs v K → y ∈ s.adjacency.nbrs v K := by
        intro v K y hy
        rw [← hsame]
        exact (hsub v K).subset hy
      cases fits with
      | false => exact ⟨hcap, fun v K y hy => Or.inl (hold v K y hy)⟩
      | true =>
        obtain ⟨hroomu, hroomw⟩ := hroom rfl
        have hnot : (w : ℤ) ∉ s₃.adjacency.nbrs u layer :=
          fun hmem => hhas ((hsub u layer).subset hmem)
        have hnot' : (u : ℤ) ∉ s₃.adjacency.nbrs w layer :=
          fun hmem => hhas' ((hsub w layer).subset hmem)
        have hlink := linked_commitBoth (D := D) hu hw huw hnot hnot'
          (by rwa [hcap.asInt_length hmax u layer]) (by rwa [hcap.asInt_length hmax w layer])
        simp only [Bool.not_true, Bool.false_eq_true, if_false]
        refine ⟨hcap.link hu hw huw hnot hroomu hroomw hlink, fun v K y hy => ?_⟩
        rcases (hlink.mem_iff huw).mp hy with hold' | ⟨-, ⟨-, rfl⟩ | ⟨-, rfl⟩⟩
        · exact Or.inl (hold v K y hold')
        · exact Or.inr (Or.inl rfl)
        · exact Or.inr (Or.inr rfl)

end Insert

/-! ## The heal -/

section Heal

variable {D : Type} [FloatArith D] {ix : Index} {maxM : ℤ} {n : ℕ}

/-- **Isolation on a capped graph**: every other node that listed `n` was listed by it,
hence is in the region, so both halves of every edge of `n` go. -/
theorem capped_isolate {region : List ℤ} {s : HealWork}
    (h : Capped ix.numElements maxM s.adjacency) (hlab : Labels region)
    (hcov : CoversAt ix n region s.adjacency) (L : ℕ) :
    Capped ix.numElements maxM (ix.isolate n region L s).adjacency ∧
      ∀ v K, ((ix.isolate n region L s).adjacency.nbrs v K).Sublist (s.adjacency.nbrs v K) := by
  obtain ⟨hself, hother⟩ := nbrs_isolate ix n region L s
  have hsub : ∀ v K, ((ix.isolate n region L s).adjacency.nbrs v K).Sublist
      (s.adjacency.nbrs v K) := by
    intro v K
    by_cases hvK : v = n ∧ K = L
    · rw [hvK.1, hvK.2, hself]
      exact List.nil_sublist _
    · rcases hother v K hvK with heq | ⟨-, heq⟩
      · rw [heq]
      · rw [heq]
        exact List.filter_sublist
  -- no list of the layer holds `n` any more
  have hgone : ∀ v, (n : ℤ) ∉ (ix.isolate n region L s).adjacency.nbrs v L := by
    intro v hmem
    have hold := (hsub v L).subset hmem
    have hne : v ≠ n := by
      rintro rfl
      exact h.loopFree v L hold
    obtain ⟨-, hvlt⟩ := h.range n L v (h.symm hold)
    have hreg : (v : ℤ) ∈ region :=
      hcov L v (h.symm hold) (inRange_iff.mpr ⟨v, rfl, by omega⟩)
    rw [isolate, asSize_natCast] at hmem
    exact not_mem_unlinkRegion hlab L _ hreg hne hmem
  refine ⟨h.thin hsub fun {a b K} hab hba => ?_, hsub⟩
  by_cases hbK : b = n ∧ K = L
  · rw [hbK.1, hbK.2] at hab
    exact absurd hab (hgone a)
  · rcases hother b K hbK with heq | ⟨hK, heq⟩
    · rwa [heq]
    · rw [heq]
      refine List.mem_filter.mpr ⟨hba, ?_⟩
      simp only [ne_eq, Nat.cast_inj, decide_not, Bool.not_eq_true', decide_eq_false_iff_not]
      rintro rfl
      rw [hK, hself] at hab
      cases hab

/-- The insertions of a layer, by induction on the ranked candidates. -/
theorem capped_insertions {orphans : List ℤ} {s : HealWork}
    (h : Capped ix.numElements maxM s.adjacency) (hpos : 0 < maxM) (hmax : maxM < 2 ^ 31)
    (horph : ∀ u ∈ orphans, ix.inRange u = true) (L : ℕ) :
    Capped ix.numElements maxM ((ix.rankedCandidates D orphans).foldl
        (fun s c => ix.tryInsertHealedEdge D c.u c.w L maxM s) s).adjacency ∧
      ∀ v K y, y ∈ ((ix.rankedCandidates D orphans).foldl
        (fun s c => ix.tryInsertHealedEdge D c.u c.w L maxM s) s).adjacency.nbrs v K →
        y ∈ s.adjacency.nbrs v K ∨ y ∈ orphans := by
  refine List.foldlRecOn (motive := fun t : HealWork => Capped ix.numElements maxM t.adjacency ∧
    ∀ v K y, y ∈ t.adjacency.nbrs v K → y ∈ s.adjacency.nbrs v K ∨ y ∈ orphans)
    (ix.rankedCandidates D orphans) _ ⟨h, fun v K y => Or.inl⟩ ?_
  intro t ⟨ht, hgain⟩ c hc
  obtain ⟨hcu, hcw⟩ := mem_candidates (List.mem_mergeSort.mp hc)
  obtain ⟨u, hu, hult⟩ := inRange_iff.mp (horph _ hcu)
  obtain ⟨w, hw, hwlt⟩ := inRange_iff.mp (horph _ hcw)
  rw [hu, hw]
  obtain ⟨hcapped, hnew⟩ := capped_tryInsertHealedEdge (D := D) L ht hpos hmax hult hwlt
  refine ⟨hcapped, fun v K y hy => ?_⟩
  rcases hnew v K y hy with hold | rfl | rfl
  · exact hgain v K y hold
  · exact Or.inr (hu ▸ hcu)
  · exact Or.inr (hw ▸ hcw)

/-- **One layer** keeps a capped graph capped; a label that a list gains is one that
`n` listed. -/
theorem capped_healLayer {region : List ℤ} {s : HealWork}
    (h : Capped ix.numElements maxM s.adjacency) (hpos : 0 < maxM) (hmax : maxM < 2 ^ 31)
    (hlab : Labels region) (hcov : CoversAt ix n region s.adjacency) (L : ℕ) :
    Capped ix.numElements maxM (ix.healLayer D n region maxM s L).adjacency ∧
      ∀ v K y, y ∈ (ix.healLayer D n region maxM s L).adjacency.nbrs v K →
        y ∈ s.adjacency.nbrs v K ∨ y ∈ s.adjacency.nbrs n L := by
  obtain ⟨hiso, hsub⟩ := capped_isolate h hlab hcov L
  have horph : ∀ u ∈ ix.orphans s.adjacency n L,
      ix.inRange u = true ∧ u ∈ s.adjacency.nbrs n L := by
    intro u hu
    obtain ⟨-, hr, hmem⟩ := mem_orphans hu
    exact ⟨hr, by rwa [asSize_natCast] at hmem⟩
  simp only [healLayer]
  split
  · exact ⟨hiso, fun v K y hy => Or.inl ((hsub v K).subset hy)⟩
  · obtain ⟨hcapped, hgain⟩ := capped_insertions (D := D) hiso hpos hmax
      (fun u hu => (horph u hu).1) L
    refine ⟨hcapped, fun v K y hy => ?_⟩
    rcases hgain v K y hy with hold | hnew
    · exact Or.inl ((hsub v K).subset hold)
    · exact Or.inr (horph y hnew).2

/-- **The layer loop**, by induction on the number of layers done. -/
theorem capped_healLayers {region : List ℤ} {s : HealWork}
    (h : Capped ix.numElements maxM s.adjacency) (hpos : 0 < maxM) (hmax : maxM < 2 ^ 31)
    (hn : n ∈ nodesOf region) (hlab : Labels region) (hcov : CoversAt ix n region s.adjacency)
    (k : ℕ) :
    Capped ix.numElements maxM
        ((List.range k).foldl (ix.healLayer D n region maxM) s).adjacency ∧
      ∀ v K y, y ∈ ((List.range k).foldl (ix.healLayer D n region maxM) s).adjacency.nbrs v K →
        y ∈ s.adjacency.nbrs v K ∨ ∃ L, y ∈ s.adjacency.nbrs n L := by
  induction k with
  | zero => exact ⟨h, fun v K y => Or.inl⟩
  | succ k ih =>
    obtain ⟨hcapped, hgain⟩ := ih
    have hpr := (healLayers_spec (D := D) hn hlab hcov maxM k).1
    rw [List.range_succ, List.foldl_append, List.foldl_cons, List.foldl_nil]
    obtain ⟨hstep, hnew⟩ := capped_healLayer (D := D) hcapped hpos hmax hlab
      (fun L x hx hr => hcov L x (hpr.subset_at hx) hr) k
    refine ⟨hstep, fun v K y hy => ?_⟩
    rcases hnew v K y hy with hold | hlisted
    · exact hgain v K y hold
    · exact Or.inr ⟨k, hpr.subset_at hlisted⟩

/-- The label occurs in no list. -/
def Absent (adj : Layered ℤ) (e : ℤ) : Prop := ∀ v L, e ∉ adj.nbrs v L

/-- **A heal** keeps a capped graph capped, removes `n` from it, and brings no absent
label back. -/
theorem capped_healed (h : Capped ix.numElements maxM ix.adjacency) (hpos : 0 < maxM)
    (hmax : maxM < 2 ^ 31) :
    Capped ix.numElements maxM (ix.healed D n maxM).adjacency ∧
      Absent (ix.healed D n maxM).adjacency n ∧
      ∀ e, Absent ix.adjacency e → Absent (ix.healed D n maxM).adjacency e := by
  have hstart : Capped ix.numElements maxM (Layered.resize ix.numElements ix.adjacency) :=
    h.congr fun v L => Layered.nbrs_resize ix.adjacency ix.numElements v L
  have hnr : n ∈ nodesOf (ix.collectHealRegionUnlocked n) := mem_nodesOf_collect.mpr (Or.inl rfl)
  obtain ⟨hloop, hgain⟩ := capped_healLayers (D := D)
    (s := ⟨Layered.resize ix.numElements ix.adjacency, 0, 0⟩) hstart hpos hmax hnr
    (labels_collect ix n) (coversAt_collect ix n)
    (maxLayerGlobal (Layered.resize ix.numElements ix.adjacency) n
      (ix.collectHealRegionUnlocked n))
  -- who listed `n` was listed by it, hence is in the region
  have habsent : Absent (ix.healed D n maxM).adjacency n := by
    intro v L hmem
    obtain ⟨hold, hout⟩ := (mem_nbrs_healLocked (D := D) ix n maxM v L).mp hmem
    have hback := h.symm hold
    obtain ⟨-, hlt⟩ := h.range n L v hback
    exact hout (Or.inr ⟨by omega, Or.inl ⟨L, hback⟩⟩)
  have hclear : ∀ v K, (ix.healed D n maxM).adjacency.nbrs v K = if v = n then [] else _ :=
    Layered.nbrs_clear _ n
  refine ⟨hloop.congr fun v K => ?_, habsent, fun e he v K hmem => ?_⟩
  · rw [hclear]
    split
    · -- the last loop clears nothing: an edge of `n` would have its other half
      rename_i hv
      subst hv
      refine (List.eq_nil_iff_forall_not_mem.mpr fun y hy => ?_).symm
      obtain ⟨w, rfl, -⟩ := hloop.exists_node hy
      have hback := hloop.symm hy
      have hne : w ≠ v := by
        rintro rfl
        exact hloop.loopFree w K hy
      refine habsent w K ?_
      rw [hclear, if_neg hne]
      exact hback
    · rfl
  · rw [hclear] at hmem
    split at hmem
    · cases hmem
    · rcases hgain v K e hmem with hold | ⟨L, hold⟩
      · exact he v K (by simpa using hold)
      · exact he n L (by simpa using hold)

end Heal

/-! ## Any sequence of erasures -/

/-- Calls of `erase_node(·, maxM)`, each with what it meets; a call that throws is just
another call. The index left, and the labels whose erasure succeeded. -/
def eraseEach (D : Type) [FloatArith D] (maxM : ℤ) :
    List (NativeEnv × ℤ) → Index → Index × List ℤ
  | [], ix => (ix, [])
  | (env, q) :: rest, ix =>
    let call := ix.eraseNode D env q maxM
    let later := eraseEach D maxM rest call.2
    match call.1 with
    | .ok _ => (later.1, q :: later.2)
    | .error _ => later

section Runs

variable {D : Type} [FloatArith D] {ix : Index} {maxM : ℤ}

/-- **One call** keeps the graph capped; if it succeeds the label is gone, and no absent
label comes back. -/
theorem capped_eraseNode (h : Capped ix.numElements maxM ix.adjacency) (hmax : maxM < 2 ^ 31)
    (env : NativeEnv) (q : ℤ) :
    let call := ix.eraseNode D env q maxM
    Capped call.2.numElements maxM call.2.adjacency ∧
      (∀ e, Absent ix.adjacency e → Absent call.2.adjacency e) ∧
      ∀ r, call.1 = .ok r → 0 ≤ q ∧ Absent call.2.adjacency q := by
  intro call
  rcases eraseNode_cases (D := D) ix env q maxM with
    ⟨hok, r, -, heq⟩ | ⟨-, e, heq⟩ | ⟨-, -, e, heq⟩
  · have hq : ((asSize q : ℕ) : ℤ) = q := by
      rw [asSize_of_nonneg hok.nonneg, Int.toNat_of_nonneg hok.nonneg]
    have hwiped : Capped (ix.wipeRow (asSize q)).numElements maxM
        (ix.wipeRow (asSize q)).adjacency := h
    obtain ⟨hcapped, hgone, hkeep⟩ :=
      capped_healed (D := D) (n := asSize q) hwiped hok.maxM_pos hmax
    rw [hq] at hgone
    rw [show call = _ from heq]
    exact ⟨hcapped, hkeep, fun _ _ => ⟨hok.nonneg, hgone⟩⟩
  · rw [show call = _ from heq]
    exact ⟨h, fun _ he => he, fun r hr => by cases hr⟩
  · rw [show call = _ from heq]
    exact ⟨h, fun _ he => he, fun r hr => by cases hr⟩

/-- On a capped graph, an absent label has empty lists. -/
theorem Capped.nbrs_eq_nil {N : ℕ} {adj : Layered ℤ} (h : Capped N maxM adj) {q : ℤ} (h0 : 0 ≤ q)
    (hq : Absent adj q) (L : ℕ) : adj.nbrs (asSize q) L = [] := by
  refine List.eq_nil_iff_forall_not_mem.mpr fun y hy => ?_
  obtain ⟨v, rfl, -⟩ := h.exists_node hy
  have hback := h.symm hy
  rw [asSize_of_nonneg h0, Int.toNat_of_nonneg h0] at hback
  exact hq v L hback

/-- A run, by induction on its calls. -/
theorem capped_eraseEach (hmax : maxM < 2 ^ 31) (calls : List (NativeEnv × ℤ)) :
    ∀ {ix : Index}, Capped ix.numElements maxM ix.adjacency →
      let run := eraseEach D maxM calls ix
      Capped run.1.numElements maxM run.1.adjacency ∧
        (∀ e, Absent ix.adjacency e → Absent run.1.adjacency e) ∧
        ∀ q ∈ run.2, 0 ≤ q ∧ Absent run.1.adjacency q := by
  induction calls with
  | nil =>
    intro ix h
    exact ⟨h, fun _ he => he, by simp [eraseEach]⟩
  | cons c rest ih =>
    intro ix h
    obtain ⟨env, q⟩ := c
    obtain ⟨hcapped, hkeep, hgone⟩ := capped_eraseNode (D := D) h hmax env q
    obtain ⟨hcapped', hkeep', hgone'⟩ := ih hcapped
    simp only [eraseEach]
    rcases hres : (ix.eraseNode D env q maxM).1 with e | r
    · exact ⟨hcapped', fun e he => hkeep' e (hkeep e he), hgone'⟩
    · obtain ⟨h0, habs⟩ := hgone r hres
      refine ⟨hcapped', fun e he => hkeep' e (hkeep e he), ?_⟩
      exact List.forall_mem_cons.mpr ⟨⟨h0, hkeep' q habs⟩, hgone'⟩

/-- **Symmetric, capped graphs stay so under every sequence of erasures.** On an index
whose lists are symmetric, free of duplicates and loops and of at most `maxM` labels
(`maxM` an `int`), after any sequence of `erase_node(·, maxM)` calls, throwing or not, the
lists are so again, and every node erased so far has empty lists and occurs in no list. -/
theorem erasures_keep_capped (hmax : maxM < 2 ^ 31)
    (h : Capped ix.numElements maxM ix.adjacency) (calls : List (NativeEnv × ℤ)) :
    let run := eraseEach D maxM calls ix
    Capped run.1.numElements maxM run.1.adjacency ∧
      ∀ q ∈ run.2, (∀ L, run.1.adjacency.nbrs (asSize q) L = []) ∧
        ∀ v L, q ∉ run.1.adjacency.nbrs v L := by
  obtain ⟨hcapped, -, hgone⟩ := capped_eraseEach (D := D) hmax calls h
  exact ⟨hcapped, fun q hq => ⟨hcapped.nbrs_eq_nil (hgone q hq).1 (hgone q hq).2, (hgone q hq).2⟩⟩

end Runs

/-- Two nodes joined through a third. -/
def twoSpokes : Index where
  data := some ⟨[1065353216, 1073741824, 1077936128], by simp⟩
  ownsData := true
  dim := 1
  numElements := 3
  entrypoint := 0
  adjacency := [[[1, 2]], [[0]], [[0]]]

theorem nbrs_twoSpokes (v L : ℕ) : twoSpokes.adjacency.nbrs v L =
    if L = 0 ∧ v = 0 then [1, 2] else if L = 0 ∧ (v = 1 ∨ v = 2) then [0] else [] := by
  rcases v with _ | _ | _ | v <;> rcases L with _ | L <;> rfl

theorem capped_twoSpokes : Capped 3 2 twoSpokes.adjacency := by
  refine ⟨labelsIn_iff.mpr (by decide), fun {u v L} huv => ?_, fun v L => ?_, fun v L => ?_,
    fun v L => ?_⟩
  · rw [nbrs_twoSpokes] at huv ⊢
    split at huv
    · simp only [List.mem_cons, List.not_mem_nil, or_false] at huv
      grind
    · split at huv
      · simp only [List.mem_cons, List.not_mem_nil, or_false] at huv
        grind
      · cases huv
  · rw [nbrs_twoSpokes]
    split
    · decide
    · split <;> decide
  · rw [nbrs_twoSpokes]
    split
    · grind
    · split <;> grind
  · rw [nbrs_twoSpokes]
    split
    · decide
    · split <;> decide

/-- Erasing the middle node. -/
theorem erasures_keep_capped_twoSpokes :
    let run := eraseEach Float 2 [(.calm, 0)] twoSpokes
    run.2 = [0] ∧ Capped run.1.numElements 2 run.1.adjacency ∧
      ∀ q ∈ run.2, (∀ L, run.1.adjacency.nbrs (asSize q) L = []) ∧
        ∀ v L, q ∉ run.1.adjacency.nbrs v L :=
  ⟨rfl, erasures_keep_capped (by decide) capped_twoSpokes _⟩

end Index

end Unlearning
