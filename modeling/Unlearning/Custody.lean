import Mathlib.Data.List.Nodup
import Mathlib.Logic.Function.Basic

/-!
# Who answers for an item

Items are in the hands of owners, `held x` for the owner `x`. `HeldOnce` says that nobody has an
item twice and no two owners have the same. It is kept when an owner gains an item that nobody
has, and when an owner hands all that it has over to another.
-/

namespace Unlearning

variable {O K : Type}

/-- An item is held by one owner, once. -/
structure HeldOnce (held : O → List K) : Prop where
  nodup : ∀ x, (held x).Nodup
  apart : ∀ x y, x ≠ y → (held x).Disjoint (held y)

namespace HeldOnce

variable {held : O → List K}

theorem empty : HeldOnce fun _ : O => ([] : List K) :=
  ⟨fun _ => List.nodup_nil, fun _ _ _ => List.disjoint_nil_left _⟩

variable [DecidableEq O]

/-- One owner's items are replaced by items of which the others have none. -/
theorem update (h : HeldOnce held) {x : O} {l : List K} (hl : l.Nodup)
    (hapart : ∀ y, y ≠ x → l.Disjoint (held y)) : HeldOnce (Function.update held x l) where
  nodup y := by
    by_cases hy : y = x
    · rw [hy, Function.update_self]
      exact hl
    · rw [Function.update_of_ne hy]
      exact h.nodup y
  apart y z hyz := by
    by_cases hy : y = x
    · subst hy
      rw [Function.update_self, Function.update_of_ne (Ne.symm hyz)]
      exact hapart z (Ne.symm hyz)
    · rw [Function.update_of_ne hy]
      by_cases hz : z = x
      · subst hz
        rw [Function.update_self]
        exact List.disjoint_comm.mp (hapart y hy)
      · rw [Function.update_of_ne hz]
        exact h.apart y z hyz

/-- **An owner gains** an item that nobody has. -/
theorem gain (h : HeldOnce held) (x : O) {k : K} (hnew : ∀ y, k ∉ held y) :
    HeldOnce (Function.update held x (held x ++ [k])) := by
  refine h.update ?_ fun y hy => ?_
  · exact List.nodup_append'.mpr ⟨h.nodup x, List.nodup_singleton k, by simpa using hnew x⟩
  · exact List.disjoint_append_left.mpr ⟨h.apart x y (Ne.symm hy), by simpa using hnew y⟩

/-- **An owner hands over** all that it has. -/
theorem handOver (h : HeldOnce held) {x y : O} (hxy : x ≠ y) :
    HeldOnce (Function.update (Function.update held x []) y (held y ++ held x)) := by
  have hdropped : HeldOnce (Function.update held x []) :=
    h.update List.nodup_nil fun _ _ => List.disjoint_nil_left _
  refine hdropped.update ?_ fun z hz => ?_
  · exact List.nodup_append'.mpr ⟨h.nodup y, h.nodup x, h.apart y x (Ne.symm hxy)⟩
  · by_cases hzx : z = x
    · subst hzx
      rw [Function.update_self]
      exact List.disjoint_nil_right _
    · rw [Function.update_of_ne hzx]
      exact List.disjoint_append_left.mpr ⟨h.apart y z (Ne.symm hz), h.apart x z (Ne.symm hzx)⟩

end HeldOnce

end Unlearning
