import Mathlib.Algebra.Order.BigOperators.Group.Finset
import Mathlib.Data.Fintype.BigOperators
import Mathlib.Data.Fintype.Lattice

/-!
# Threads that wait for each other

Finitely many threads hold resources and wait for others, and the resources are ordered.
`exists_descent`: where every thread of a group waits for a resource that a thread of the group
holds, one of them waits at or below a resource that it holds itself.

`sum_step`, `le_sum` and `add_le_sum` are about counts over all threads: what a step of one of
them does to the count, and the part of one or two of them in it.
-/

namespace Unlearning

namespace WaitOrder

variable {T R : Type*}

/-- Every thread of the group waits for what a thread of the group holds. -/
def AllBlocked (holds waits : T → R → Prop) (group : Set T) : Prop :=
  ∀ t ∈ group, ∃ r, waits t r ∧ ∃ u ∈ group, holds u r

/-- **A group that is blocked by itself** has a thread that waits at or below what it holds. -/
theorem exists_descent [Finite T] [LinearOrder R] {holds waits : T → R → Prop} {group : Set T}
    (hsome : group.Nonempty) (hblocked : AllBlocked holds waits group) :
    ∃ t ∈ group, ∃ r r', holds t r ∧ waits t r' ∧ r' ≤ r := by
  choose want hwaits hheld using hblocked
  -- the thread whose wanted resource is the highest: its holder waits no higher
  have : Nonempty group := hsome.to_subtype
  obtain ⟨⟨t, ht⟩, hmax⟩ := Finite.exists_max fun x : group => want x.1 x.2
  obtain ⟨u, hu, hholds⟩ := hheld t ht
  exact ⟨u, hu, want t ht, want u hu, hholds, hwaits u hu, hmax ⟨u, hu⟩⟩

/-- A step of one thread leaves the part of the others in a sum as it is. -/
theorem sum_step [Fintype T] [DecidableEq T] {L : Type*} (f : L → ℕ) (threads : T → L) (t : T)
    (l : L) :
    ∃ others, ∑ u, f (threads u) = f (threads t) + others ∧
      ∑ u, f (Function.update threads t l u) = f l + others := by
  refine ⟨∑ u ∈ {t}ᶜ, f (threads u), Fintype.sum_eq_add_sum_compl t fun u => f (threads u), ?_⟩
  rw [Fintype.sum_eq_add_sum_compl t, Function.update_self]
  refine congrArg _ (Finset.sum_congr rfl fun u hu => ?_)
  rw [Function.update_of_ne (by simpa using hu)]

/-- The part of one thread. -/
theorem le_sum [Fintype T] (f : T → ℕ) (t : T) : f t ≤ ∑ u, f u :=
  Finset.single_le_sum (fun u _ => Nat.zero_le (f u)) (Finset.mem_univ t)

/-- The part of two threads. -/
theorem add_le_sum [Fintype T] [DecidableEq T] (f : T → ℕ) {t u : T} (hne : t ≠ u) :
    f t + f u ≤ ∑ v, f v := by
  rw [Fintype.sum_eq_add_sum_compl t]
  exact Nat.add_le_add_left (Finset.single_le_sum (fun v _ => Nat.zero_le (f v))
    (by simpa using hne.symm)) _

end WaitOrder

end Unlearning
