import Mathlib

/-!
# Joining with a separator

`[c].intercalate xs` joins lists with one element between them. Where no part has the
separator in it, the parts can be read off the whole again (`intercalate_inj`); and where the
number of the parts is known, it is enough that the parts of one side are clean
(`intercalate_inj_of_length`), since a separator too many on the other side would be counted
in the whole.

The last part carries this over to strings, and says that no number is written with a
separator other than `-`.
-/

namespace Unlearning

namespace Separated

section Lists

variable {α : Type} [DecidableEq α] {c : α} {xs ys : List (List α)}

/-- The separators in the whole are those between the parts and those in the parts. -/
theorem count_intercalate (hne : xs ≠ []) :
    ([c].intercalate xs).count c + 1 = (xs.map (List.count c)).sum + xs.length := by
  induction xs with
  | nil => exact absurd rfl hne
  | cons x xs ih =>
    rcases xs with _ | ⟨y, ys⟩
    · simp
    · have hrest := ih (List.cons_ne_nil y ys)
      rw [List.intercalate_cons_cons, List.count_append, List.count_append]
      simp only [List.count_singleton_self, List.map_cons, List.sum_cons, List.length_cons]
        at hrest ⊢
      omega

/-- **Clean parts** can be read off the whole. -/
theorem intercalate_inj (hxs : xs ≠ []) (hys : ys ≠ []) (hx : ∀ x ∈ xs, c ∉ x)
    (hy : ∀ y ∈ ys, c ∉ y) (h : [c].intercalate xs = [c].intercalate ys) : xs = ys := by
  rw [← List.splitOn_intercalate c hx hxs, h, List.splitOn_intercalate c hy hys]

/-- As many parts as there are clean parts with the same whole are clean too. -/
theorem clean_of_length (hlength : xs.length = ys.length) (hx : ∀ x ∈ xs, c ∉ x)
    (h : [c].intercalate xs = [c].intercalate ys) : ∀ y ∈ ys, c ∉ y := by
  rcases eq_or_ne ys [] with rfl | hys
  · simp
  · have hxs : xs ≠ [] := by
      rintro rfl
      exact hys (List.length_eq_zero_iff.mp hlength.symm)
    have hzero : (xs.map (List.count c)).sum = 0 := by
      rw [List.sum_eq_zero_iff]
      intro n hn
      obtain ⟨x, hmem, rfl⟩ := List.mem_map.mp hn
      exact List.count_eq_zero.mpr (hx x hmem)
    -- as many separators stand between the parts on both sides, so none is left for a part
    have hcount := count_intercalate (c := c) hxs
    have hcount' := count_intercalate (c := c) hys
    rw [h, hzero, hlength] at hcount
    have hsum : (ys.map (List.count c)).sum = 0 := by omega
    rw [List.sum_eq_zero_iff] at hsum
    intro y hmem
    exact List.count_eq_zero.mp (hsum _ (List.mem_map.mpr ⟨y, hmem, rfl⟩))

theorem intercalate_inj_of_length (hlength : xs.length = ys.length) (hx : ∀ x ∈ xs, c ∉ x)
    (h : [c].intercalate xs = [c].intercalate ys) : xs = ys := by
  rcases eq_or_ne ys [] with rfl | hys
  · exact List.length_eq_zero_iff.mp hlength
  · have hxs : xs ≠ [] := by
      rintro rfl
      exact hys (List.length_eq_zero_iff.mp hlength.symm)
    exact intercalate_inj hxs hys hx (clean_of_length hlength hx h) h

omit [DecidableEq α] in
/-- What is in the whole is the separator or is in a part. -/
theorem mem_intercalate {a : α} (h : a ∈ [c].intercalate xs) : a = c ∨ ∃ x ∈ xs, a ∈ x := by
  induction xs with
  | nil => cases h
  | cons x xs ih =>
    rcases xs with _ | ⟨y, ys⟩
    · rw [List.intercalate_singleton] at h
      exact .inr ⟨x, List.mem_singleton_self x, h⟩
    · rw [List.intercalate_cons_cons, List.mem_append, List.mem_append] at h
      rcases h with (hx | hc) | hrest
      · exact .inr ⟨x, List.mem_cons_self, hx⟩
      · exact .inl (List.mem_singleton.mp hc)
      · rcases ih hrest with rfl | ⟨z, hz, ha⟩
        · exact .inl rfl
        · exact .inr ⟨z, List.mem_cons_of_mem x hz, ha⟩

omit [DecidableEq α] in
theorem eq_nil_of_intercalate (hx : ∀ x ∈ xs, x ≠ []) (h : [c].intercalate xs = []) :
    xs = [] := by
  rcases xs with _ | ⟨x, _ | ⟨y, ys⟩⟩
  · rfl
  · rw [List.intercalate_singleton] at h
    exact absurd h (hx x List.mem_cons_self)
  · rw [List.intercalate_cons_cons, List.append_assoc] at h
    exact absurd (List.append_eq_nil_iff.mp h).1 (hx x List.mem_cons_self)

/-- Clean parts that are not empty, of any number. -/
theorem intercalate_inj_of_nonempty (hx : ∀ x ∈ xs, x ≠ [] ∧ c ∉ x)
    (hy : ∀ y ∈ ys, y ≠ [] ∧ c ∉ y) (h : [c].intercalate xs = [c].intercalate ys) : xs = ys := by
  rcases eq_or_ne xs [] with rfl | hxs
  · exact (eq_nil_of_intercalate (fun y hmem => (hy y hmem).1) h.symm).symm
  · rcases eq_or_ne ys [] with rfl | hys
    · exact eq_nil_of_intercalate (fun x hmem => (hx x hmem).1) h
    · exact intercalate_inj hxs hys (fun x hmem => (hx x hmem).2) (fun y hmem => (hy y hmem).2) h

end Lists

/-! ## Strings -/

section Strings

variable {sep : String} {c : Char} {xs ys : List String}

theorem toList_map_inj (h : xs.map String.toList = ys.map String.toList) : xs = ys :=
  List.map_injective_iff.mpr (fun _ _ heq => String.toList_inj.mp heq) h

/-- **As many strings with the same whole**, those of one side clean. -/
theorem join_inj_of_length (hsep : sep.toList = [c]) (hlength : xs.length = ys.length)
    (hx : ∀ x ∈ xs, c ∉ x.toList) (h : sep.intercalate xs = sep.intercalate ys) : xs = ys := by
  have hlists := congrArg String.toList h
  rw [String.toList_intercalate, String.toList_intercalate, hsep] at hlists
  apply toList_map_inj
  apply intercalate_inj_of_length (by simpa using hlength) ?_ hlists
  intro x hmem
  obtain ⟨s, hs, rfl⟩ := List.mem_map.mp hmem
  exact hx s hs

/-- **Clean strings that are not empty**, of any number. -/
theorem join_inj (hsep : sep.toList = [c]) (hx : ∀ x ∈ xs, x ≠ "" ∧ c ∉ x.toList)
    (hy : ∀ y ∈ ys, y ≠ "" ∧ c ∉ y.toList) (h : sep.intercalate xs = sep.intercalate ys) :
    xs = ys := by
  have hlists := congrArg String.toList h
  rw [String.toList_intercalate, String.toList_intercalate, hsep] at hlists
  have hparts : ∀ {zs : List String}, (∀ z ∈ zs, z ≠ "" ∧ c ∉ z.toList) →
      ∀ z ∈ zs.map String.toList, z ≠ [] ∧ c ∉ z := by
    intro zs hz z hmem
    obtain ⟨s, hs, rfl⟩ := List.mem_map.mp hmem
    refine ⟨?_, (hz s hs).2⟩
    rw [Ne, String.toList_eq_nil_iff]
    exact (hz s hs).1
  exact toList_map_inj (intercalate_inj_of_nonempty (hparts hx) (hparts hy) hlists)

theorem mem_join {a : Char} (hsep : sep.toList = [c]) (h : a ∈ (sep.intercalate xs).toList) :
    a = c ∨ ∃ x ∈ xs, a ∈ x.toList := by
  rw [String.toList_intercalate, hsep] at h
  rcases mem_intercalate h with rfl | ⟨x, hx, ha⟩
  · exact .inl rfl
  · obtain ⟨s, hs, rfl⟩ := List.mem_map.mp hx
    exact .inr ⟨s, hs, ha⟩

theorem notMem_toString_nat (h : c.isDigit = false) (n : ℕ) : c ∉ (toString n).toList := by
  intro hmem
  have hdigit : c.isDigit := by
    apply Nat.isDigit_of_mem_toDigits (by decide : 0 < 10) (by decide) (n := n)
    simpa [toString, Nat.repr] using hmem
  rw [h] at hdigit
  cases hdigit

theorem notMem_toString_int (h : c.isDigit = false) (hminus : c ≠ '-') (n : ℤ) :
    c ∉ (toString n).toList := by
  rcases n with n | n
  · exact notMem_toString_nat h n
  · have htext : toString (Int.negSucc n) = "-" ++ toString (n + 1) := rfl
    rw [htext, String.toList_append, List.mem_append, not_or]
    exact ⟨fun hmem => hminus (List.mem_singleton.mp hmem), notMem_toString_nat h (n + 1)⟩

end Strings

end Separated

end Unlearning
