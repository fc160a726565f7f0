import Mathlib.Data.List.Sort

/-!
# `std::priority_queue` and `std::sort`

Both are specified up to the order of equivalent elements: a queue gives back *a* largest
element, a sort puts equivalent elements in any order. `StdOrder less` is an implementation of
them for the comparison `less`, with what the standard promises and nothing more, so that a
result about every `StdOrder` holds for every standard library. A queue is its container, the
top at the front.

The promises on the order hold under `StrictWeak less`, the standard's requirement on a
comparison; the elements are kept in any case. `StdOrder.reference` is one implementation.
-/

namespace Unlearning

variable {α : Type}

/-- A strict weak ordering: what the standard requires of a comparison. -/
structure StrictWeak (less : α → α → Bool) : Prop where
  asymm : ∀ a b, less a b = true → less b a = false
  /-- not less is transitive -/
  negTrans : ∀ a b c, less b a = false → less c b = false → less c a = false

/-- The containers that pushes and pops can build. -/
inductive Built (push : List α → α → List α) (pop : List α → List α) : List α → Prop where
  | empty : Built push pop []
  | push {c : List α} (a : α) (h : Built push pop c) : Built push pop (push c a)
  | pop {c : List α} (h : Built push pop c) : Built push pop (pop c)

/-- An implementation of the ordering algorithms for `less`. -/
structure StdOrder (less : α → α → Bool) where
  push : List α → α → List α
  pop : List α → List α
  sort : List α → List α
  push_perm : ∀ c a, (push c a).Perm (a :: c)
  /-- `pop` removes the top -/
  pop_perm : ∀ a c, (pop (a :: c)).Perm c
  pop_nil : pop [] = []
  sort_perm : ∀ l, (sort l).Perm l
  /-- the top is not less than anything in the queue -/
  top_max : StrictWeak less → ∀ {a c}, Built push pop (a :: c) → ∀ b ∈ c, less a b = false
  sorted : StrictWeak less → ∀ l, (sort l).Pairwise fun a b => less b a = false

namespace StdOrder

variable {less : α → α → Bool}

theorem mem_of_mem_pop (std : StdOrder less) {c : List α} {a : α} (h : a ∈ std.pop c) : a ∈ c := by
  cases c with
  | nil => rwa [std.pop_nil] at h
  | cons b rest => exact List.mem_cons_of_mem b ((std.pop_perm b rest).mem_iff.mp h)

/-- Pops that move the queue out, top first, `n` times at most. -/
def drainUpTo (std : StdOrder less) : ℕ → List α → List α
  | 0, _ => []
  | _, [] => []
  | n + 1, a :: c => a :: std.drainUpTo n (std.pop (a :: c))

/-- `while (!q.empty()) { out.push_back(q.top()); q.pop(); }` -/
def drain (std : StdOrder less) (c : List α) : List α := std.drainUpTo c.length c

theorem drain_perm (std : StdOrder less) (c : List α) : (std.drain c).Perm c := by
  have hupTo : ∀ n c, c.length ≤ n → (std.drainUpTo n c).Perm c := by
    intro n
    induction n with
    | zero =>
      intro c hc
      rw [List.length_eq_zero_iff.mp (Nat.le_zero.mp hc), drainUpTo]
    | succ n ih =>
      intro c hc
      cases c with
      | nil => rfl
      | cons a c =>
        have hpop := std.pop_perm a c
        have hlen : (std.pop (a :: c)).length ≤ n := by
          rw [hpop.length_eq]
          exact Nat.le_of_succ_le_succ hc
        exact ((ih _ hlen).trans hpop).cons a
  exact hupTo c.length c le_rfl

end StdOrder

/-! ## One implementation -/

section Reference

variable {less : α → α → Bool}

/-- The order that a sort by `less` establishes. -/
def NotLess (less : α → α → Bool) (a b : α) : Prop := less b a = false

instance : DecidableRel (NotLess less) := fun a b => inferInstanceAs (Decidable (less b a = false))

theorem StrictWeak.flip (h : StrictWeak less) : StrictWeak fun a b => less b a :=
  ⟨fun a b => h.asymm b a, fun a b c hab hbc => h.negTrans c b a hbc hab⟩

theorem StrictWeak.total (h : StrictWeak less) : Std.Total (NotLess less) := by
  refine ⟨fun a b => ?_⟩
  rcases hab : less b a with _ | _
  · exact Or.inl hab
  · exact Or.inr (h.asymm b a hab)

theorem StrictWeak.trans (h : StrictWeak less) : IsTrans α (NotLess less) :=
  ⟨fun a b c hab hbc => h.negTrans a b c hab hbc⟩

/-- Keep the queue sorted; insertion sort. -/
def StdOrder.reference (less : α → α → Bool) : StdOrder less where
  push c a := c.orderedInsert (NotLess fun a b => less b a) a
  pop := List.tail
  sort := List.insertionSort (NotLess less)
  push_perm c a := List.perm_orderedInsert _ a c
  pop_perm _ c := List.Perm.refl c
  pop_nil := rfl
  sort_perm := List.perm_insertionSort _
  top_max h := by
    have htotal := h.flip.total
    have htrans := h.flip.trans
    intro a c hbuilt
    suffices hsorted : ∀ c, Built (fun c a => c.orderedInsert (NotLess fun a b => less b a) a)
        List.tail c → c.Pairwise (NotLess fun a b => less b a) from
      fun b hb => List.rel_of_pairwise_cons (hsorted (a :: c) hbuilt) hb
    intro c hbuilt
    induction hbuilt with
    | empty => exact List.Pairwise.nil
    | push a _ ih => exact ih.orderedInsert a _
    | pop _ ih => exact ih.tail
  sorted h := by
    have htotal := h.total
    have htrans := h.trans
    exact List.pairwise_insertionSort (NotLess less)

end Reference

end Unlearning
