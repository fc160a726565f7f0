import Mathlib.Algebra.Group.Nat.Defs
import Mathlib.Data.List.DropRight

/-!
# Python strings

The string functions of Python that texts and keys go through: `strip`, `lower`
(for comparison with ASCII words), `startswith`, `in` and `repr`.

`repr` escapes what `str.isprintable` rejects; that table belongs to the Unicode
version of the interpreter, so it is a parameter.
-/

namespace Unlearning

namespace PyText

/-! ## `strip` -/

/-- `str.isspace`, for one character. -/
def isSpace (c : Char) : Bool :=
  let n := c.toNat
  (9 ≤ n && n ≤ 13) || (28 ≤ n && n ≤ 32) || n == 0x85 || n == 0xA0 || n == 0x1680 ||
    (0x2000 ≤ n && n ≤ 0x200A) || n == 0x2028 || n == 0x2029 || n == 0x202F || n == 0x205F ||
    n == 0x3000

/-- `str.strip` -/
def strip (s : String) : String := String.ofList ((s.toList.dropWhile isSpace).rdropWhile isSpace)

/-- What is left after cutting both ends has nothing to cut. -/
theorem dropWhile_rdropWhile_dropWhile {α : Type} (p : α → Bool) (l : List α) :
    ((l.dropWhile p).rdropWhile p).dropWhile p = (l.dropWhile p).rdropWhile p := by
  rcases h : (l.dropWhile p).rdropWhile p with _ | ⟨a, rest⟩
  · rfl
  · -- the first element is that of `l.dropWhile p`
    obtain ⟨t, ht⟩ := List.rdropWhile_prefix p (l := l.dropWhile p)
    rw [h, List.cons_append] at ht
    have ha : p a = false := by
      have hne : l.dropWhile p ≠ [] := by rw [← ht]; exact List.cons_ne_nil _ _
      have hhead := List.head_dropWhile_not p hne
      simp only [← ht, List.head_cons] at hhead
      exact hhead
    rw [List.dropWhile_cons_of_neg (by simp [ha])]

@[simp]
theorem strip_strip (s : String) : strip (strip s) = strip s := by
  rw [strip, strip, String.toList_ofList, dropWhile_rdropWhile_dropWhile, List.rdropWhile_idempotent]

/-! ## Comparisons -/

/-- `str.lower`, for comparison with ASCII words without a `k`. -/
def lower (s : String) : String := String.ofList (s.toList.map Char.toLower)

/-- `s.startswith(p)` -/
def startsWith (s p : String) : Bool := p.toList.isPrefixOf s.toList

/-- `p in s` -/
def contains (s p : String) : Bool := s.toList.tails.any p.toList.isPrefixOf

theorem startsWith_append {p q : String} (h : startsWith p q = true) (s : String) :
    startsWith (p ++ s) q = true := by
  rw [startsWith, List.isPrefixOf_iff_prefix] at h ⊢
  rw [String.toList_append]
  exact h.trans (List.prefix_append _ _)

/-! ## `repr` -/

/-- The last `w` hexadecimal digits of `n`. -/
def hexDigits (w n : ℕ) : List Char :=
  (List.range w).reverse.map fun i => Nat.digitChar (n / 16 ^ i % 16)

/-- The quote of most texts. -/
def singleQuote : Char := Char.ofNat 39

/-- The quote of a text that has single ones. -/
def doubleQuote : Char := Char.ofNat 34

/-- What an escape begins with. -/
def backslash : Char := Char.ofNat 92

/-- One character of a `repr`. -/
def reprChar (printable : Char → Bool) (quote c : Char) : List Char :=
  let n := c.toNat
  if c = quote ∨ c = backslash then [backslash, c]
  else if n = 9 then [backslash, 't']
  else if n = 10 then [backslash, 'n']
  else if n = 13 then [backslash, 'r']
  else if n < 32 ∨ n = 127 then [backslash, 'x'] ++ hexDigits 2 n
  else if n < 127 then [c]
  else if printable c then [c]
  else if n ≤ 0xff then [backslash, 'x'] ++ hexDigits 2 n
  else if n ≤ 0xffff then [backslash, 'u'] ++ hexDigits 4 n
  else [backslash, 'U'] ++ hexDigits 8 n

/-- `repr(s)`: double quotes only around a text with single quotes and no double
ones. -/
def repr (printable : Char → Bool) (s : String) : String :=
  let quote :=
    if s.toList.contains singleQuote && !s.toList.contains doubleQuote then doubleQuote
    else singleQuote
  String.ofList ([quote] ++ s.toList.flatMap (reprChar printable quote) ++ [quote])

/-- `str(b)` -/
def ofBool (b : Bool) : String := if b then "True" else "False"

end PyText

end Unlearning
