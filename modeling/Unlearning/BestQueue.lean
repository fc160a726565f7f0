import Unlearning.StdOrder

/-!
# A queue that keeps the best

A bounded queue keeps the least `ef` of the elements it is offered: an element enters while there is
room, or if it is less than the top, which is then popped. `Keeps` says so of a container and all
that was offered, and is preserved by `offer`; sorting what is kept gives the least `k` of all that
was offered, for `k` up to `ef` (`Keeps.take`). Which of several equivalent elements are kept is
open.
-/

namespace Unlearning

variable {α : Type} {less : α → α → Bool}

/-- An element is offered to a queue of at most `ef` elements. -/
def StdOrder.offer (std : StdOrder less) (ef : ℕ) (a : α) (c : List α) : List α :=
  if c.length < ef ∨ c.head?.any (less a) then
    if ef < (std.push c a).length then std.pop (std.push c a) else std.push c a
  else c

/-- The container keeps the least `ef` of what was offered. -/
structure Keeps (std : StdOrder less) (ef : ℕ) (offered c : List α) : Prop where
  built : Built std.push std.pop c
  length : c.length = min ef offered.length
  rest : ∃ left, (c ++ left).Perm offered ∧
    ∀ x ∈ left, c.length = ef ∧ ∀ h ∈ c, less x h = false

namespace Keeps

variable {std : StdOrder less} {ef : ℕ} {offered c : List α}

theorem empty (std : StdOrder less) (ef : ℕ) : Keeps std ef [] [] where
  built := .empty
  length := (Nat.min_zero ef).symm
  rest := ⟨[], .refl [], fun _ hx => absurd hx List.not_mem_nil⟩

/-- While there is room everything is kept. -/
theorem offer_room (h : Keeps std ef offered c) (hroom : c.length < ef) (a : α) :
    Keeps std ef (a :: offered) (std.offer ef a c) := by
  obtain ⟨left, hperm, hleft⟩ := h.rest
  have hnone : left = [] := by
    refine List.eq_nil_iff_forall_not_mem.mpr fun x hx => ?_
    exact absurd (hleft x hx).1 hroom.ne
  subst hnone
  rw [List.append_nil] at hperm
  have hpush := std.push_perm c a
  have hlen : (std.push c a).length = c.length + 1 := hpush.length_eq
  rw [StdOrder.offer, if_pos (Or.inl hroom), if_neg (by omega)]
  refine ⟨h.built.push a, ?_, [], ?_, fun _ hx => absurd hx List.not_mem_nil⟩
  · have hc := h.length
    rw [hlen, List.length_cons]
    omega
  · rw [List.append_nil]
    exact hpush.trans (hperm.cons a)

/-- The top gives way to what is less. -/
theorem offer_better (hs : StrictWeak less) (h : Keeps std ef offered c) {top : α} {below : List α}
    (hc : c = top :: below) (hfull : c.length = ef) {a : α} (hless : less a top = true) :
    Keeps std ef (a :: offered) (std.offer ef a c) := by
  obtain ⟨left, hperm, hleft⟩ := h.rest
  have hpush := std.push_perm c a
  have hlen : (std.push c a).length = c.length + 1 := hpush.length_eq
  rw [StdOrder.offer, if_pos (Or.inr (by rw [hc]; exact hless)), if_pos (by omega)]
  rcases hpushed : std.push c a with _ | ⟨p, kept⟩
  · rw [hpushed] at hlen
    cases hlen
  have hpop := std.pop_perm p kept
  have hbuilt : Built std.push std.pop (p :: kept) := hpushed ▸ h.built.push a
  rw [hpushed] at hpush hlen
  refine ⟨hbuilt.pop, ?_, p :: left, ?_, ?_⟩
  · have hc' := h.length
    rw [hpop.length_eq, List.length_cons]
    simp only [List.length_cons] at hlen
    omega
  · have hmiddle : (std.pop (p :: kept) ++ p :: left).Perm (p :: kept ++ left) :=
      List.perm_middle.trans ((hpop.append_right left).cons p)
    exact (hmiddle.trans (hpush.append_right left)).trans (hperm.cons a)
  · have hfull' : (std.pop (p :: kept)).length = ef := by
      rw [hpop.length_eq, ← hfull]
      exact Nat.succ_injective hlen
    intro x hx
    refine ⟨hfull', fun y hy => ?_⟩
    have hykept : y ∈ kept := hpop.mem_iff.mp hy
    rcases List.mem_cons.mp hx with rfl | hx
    · -- what was popped is not less than what stays
      exact std.top_max hs hbuilt y hykept
    · have hxc := (hleft x hx).2
      rcases List.mem_cons.mp (hpush.mem_iff.mp (List.mem_cons_of_mem p hykept)) with rfl | hyc
      · have htop : less x top = false := hxc top (by rw [hc]; exact List.mem_cons_self)
        exact hs.negTrans y top x (hs.asymm y top hless) htop
      · exact hxc y hyc

/-- What is not less than the top is left out. -/
theorem offer_worse (hs : StrictWeak less) (h : Keeps std ef offered c) {top : α} {below : List α}
    (hc : c = top :: below) (hfull : c.length = ef) {a : α} (hless : less a top = false) :
    Keeps std ef (a :: offered) (std.offer ef a c) := by
  obtain ⟨left, hperm, hleft⟩ := h.rest
  have hout : ¬(c.length < ef ∨ c.head?.any (less a) = true) := by
    rw [hc] at hfull ⊢
    rw [List.head?_cons, Option.any_some, hless]
    simp [hfull]
  rw [StdOrder.offer, if_neg hout]
  refine ⟨h.built, ?_, a :: left, List.perm_middle.trans (hperm.cons a), ?_⟩
  · have hlen := h.length
    rw [List.length_cons]
    omega
  · intro x hx
    refine ⟨hfull, fun y hy => ?_⟩
    rcases List.mem_cons.mp hx with rfl | hx
    · have htop : less top y = false := by
        rw [hc] at hy
        rcases List.mem_cons.mp hy with rfl | hbelow
        · rcases hself : less y y with _ | _
          · rfl
          · rw [hs.asymm y y hself] at hself
            cases hself
        · exact std.top_max hs (hc ▸ h.built) y hbelow
      exact hs.negTrans y top x htop hless
    · exact (hleft x hx).2 y hy

/-- **Offer** -/
theorem offer (hs : StrictWeak less) (hef : 0 < ef) (h : Keeps std ef offered c) (a : α) :
    Keeps std ef (a :: offered) (std.offer ef a c) := by
  rcases Nat.lt_or_ge c.length ef with hroom | hge
  · exact h.offer_room hroom a
  · have hfull : c.length = ef := by
      have hlen := h.length
      omega
    rcases hc : c with _ | ⟨top, below⟩
    · rw [hc] at hge
      exact absurd hge (Nat.not_le_of_lt hef)
    · rw [← hc]
      rcases hless : less a top with _ | _
      · exact h.offer_worse hs hc hfull hless
      · exact h.offer_better hs hc hfull hless

/-- A queue of one element. -/
theorem single (std : StdOrder less) (hef : 0 < ef) (a : α) : Keeps std ef [a] (std.push [] a) := by
  have hlen : (std.push [] a).length = 1 := (std.push_perm [] a).length_eq
  have hroom := (empty std ef).offer_room hef a
  have hlt : ([] : List α).length < ef := hef
  rwa [StdOrder.offer, if_pos (Or.inl hlt), if_neg (by omega)] at hroom

/-- **The best `k`** of what was offered, in order; the others are not less. -/
theorem take (hs : StrictWeak less) (h : Keeps std ef offered c) {k : ℕ} (hk : k ≤ ef) :
    ((std.sort (std.drain c)).take k).length = min k offered.length ∧
    ((std.sort (std.drain c)).take k).Pairwise (fun a b => less b a = false) ∧
    ∃ others, ((std.sort (std.drain c)).take k ++ others).Perm offered ∧
      ∀ x ∈ others, ∀ y ∈ (std.sort (std.drain c)).take k, less x y = false := by
  obtain ⟨left, hperm, hleft⟩ := h.rest
  have hsorted := std.sorted hs (std.drain c)
  have hkept : (std.sort (std.drain c)).Perm c := (std.sort_perm _).trans (std.drain_perm c)
  generalize std.sort (std.drain c) = l at hsorted hkept
  rw [← List.take_append_drop k l] at hsorted
  obtain ⟨hfirst, -, hacross⟩ := List.pairwise_append.mp hsorted
  refine ⟨?_, hfirst, l.drop k ++ left, ?_, ?_⟩
  · rw [List.length_take, hkept.length_eq, h.length]
    omega
  · rw [← List.append_assoc, List.take_append_drop]
    exact (hkept.append_right left).trans hperm
  · intro x hx y hy
    rcases List.mem_append.mp hx with hdrop | hx
    · exact hacross y hy x hdrop
    · exact (hleft x hx).2 y (hkept.mem_iff.mp (List.mem_of_mem_take hy))

end Keeps

end Unlearning
