import Unlearning.JsonText

/-!
# JSON texts are read back

* `scanNumber_intText`, `scanNumber_literal`, `scanString_escape`: numbers and strings;
* `scanOnce_text`: what was written is scanned back, whatever follows it, provided that no number
  goes on there;
* `loads_dumps`: a document with distinct keys is read back, with its members sorted.

The scanner takes fuel; as much as the text is long is enough (`readsBack`, by induction on it).
-/

namespace Unlearning

namespace JsonText

/-! ## Numbers, read back -/

/-- No digit comes first. -/
def NoDigit (s : List Char) : Prop := ∀ c ∈ s.head?, c.isDigit = false

/-- Nothing, or what follows a value that was written: a comma or a closing bracket. -/
def Ends (s : List Char) : Prop := ∀ c ∈ s.head?, c = ',' ∨ c = ']' ∨ c = '}'

/-- Where a value ends no digit follows. -/
theorem Ends.noDigit {s : List Char} (h : Ends s) : NoDigit s := by
  intro c hc
  rcases h c hc with rfl | rfl | rfl <;> rfl

/-- A value may end the text. -/
theorem ends_nil : Ends [] := by
  intro c hc
  cases hc

/-- A run of digits is taken as far as it goes. -/
theorem span_digits {digits rest : List Char} (hdigits : ∀ c ∈ digits, c.isDigit = true)
    (hrest : NoDigit rest) :
    (digits ++ rest).takeWhile Char.isDigit = digits ∧
      (digits ++ rest).dropWhile Char.isDigit = rest := by
  rw [List.takeWhile_append_of_pos hdigits, List.dropWhile_append_of_pos hdigits]
  rcases rest with _ | ⟨c, rest⟩
  · exact ⟨List.append_nil _, rfl⟩
  · have hc : c.isDigit = false := hrest c rfl
    rw [List.takeWhile_cons, List.dropWhile_cons, hc]
    exact ⟨List.append_nil _, rfl⟩

/-- The digits of a number: a zero alone, or another digit first. -/
theorem toDigits_cons (n : ℕ) :
    ∃ c ds, Nat.toDigits 10 n = c :: ds ∧ c.isDigit = true ∧ (∀ d ∈ ds, d.isDigit = true) ∧
      (c = '0' → ds = []) := by
  have hall : ∀ d ∈ Nat.toDigits 10 n, d.isDigit = true := fun d hd =>
    Nat.isDigit_of_mem_toDigits (by decide) (by decide) hd
  have hzero : n ≠ 0 → ∃ c ds, Nat.toDigits 10 n = c :: ds ∧ c ≠ '0' := by
    clear hall
    induction n using Nat.base_induction 10 (by decide) with
    | single m hm =>
      intro hne
      refine ⟨m.digitChar, [], Nat.toDigits_of_lt_base hm, ?_⟩
      rwa [Ne, Nat.digitChar_eq_zero]
    | digit m k hk hm ih =>
      intro _
      obtain ⟨c, ds, heq, hc⟩ := ih hm.ne'
      exact ⟨c, ds ++ Nat.toDigits 10 k,
        by rw [← Nat.toDigits_append_toDigits (by decide) hm hk, heq, List.cons_append], hc⟩
  by_cases hn : n = 0
  · subst hn
    exact ⟨'0', [], rfl, rfl, fun _ h => absurd h List.not_mem_nil, fun _ => rfl⟩
  · obtain ⟨c, ds, heq, hc⟩ := hzero hn
    rw [heq] at hall
    exact ⟨c, ds, heq, hall c List.mem_cons_self, fun d hd => hall d (List.mem_cons_of_mem c hd),
      fun h => absurd h hc⟩

/-- A numeral is matched whole. -/
theorem matchWhole_toDigits (n : ℕ) {rest : List Char} (hrest : NoDigit rest) :
    matchWhole (Nat.toDigits 10 n ++ rest) = some (Nat.toDigits 10 n, rest) := by
  obtain ⟨c, ds, heq, hc, hds, hzero⟩ := toDigits_cons n
  rw [heq, List.cons_append, matchWhole]
  by_cases h0 : c = '0'
  · rw [if_pos h0, hzero h0, h0]
    rfl
  · obtain ⟨htake, hdrop⟩ := span_digits hds hrest
    rw [if_neg h0, if_pos hc, htake, hdrop]

/-- The sign of an integer or a literal. -/
def signText (negative : Bool) : List Char := if negative then ['-'] else []

/-- A numeral with its sign is matched whole. -/
theorem matchInteger_toDigits (negative : Bool) (n : ℕ) {rest : List Char} (hrest : NoDigit rest) :
    matchInteger (signText negative ++ Nat.toDigits 10 n ++ rest) =
      some (signText negative ++ Nat.toDigits 10 n, rest) := by
  rcases negative with _ | _
  · obtain ⟨c, ds, heq, hc, -, -⟩ := toDigits_cons n
    rw [signText, if_neg (by decide), List.nil_append, ← matchWhole_toDigits n hrest, heq,
      List.cons_append, matchInteger]
    rintro s hs
    obtain ⟨rfl, -⟩ := List.cons.inj hs
    cases hc
  · rw [signText, if_pos rfl, List.append_assoc, List.singleton_append, matchInteger,
      matchWhole_toDigits n hrest]
    rfl

/-- A fraction is matched whole, if what follows could not be one. -/
theorem matchFraction_append {fraction rest : List Char} (h : IsFraction fraction)
    (hrest : NoDigit rest) (hpoint : fraction = [] → rest.head? ≠ some '.') :
    matchFraction (fraction ++ rest) = (fraction, rest) := by
  rcases h with rfl | ⟨digits, rfl, hne, hdigits⟩
  · rcases rest with _ | ⟨c, rest⟩
    · rfl
    · rw [List.nil_append, matchFraction]
      rintro s hs
      obtain ⟨rfl, -⟩ := List.cons.inj hs
      exact hpoint rfl rfl
  · obtain ⟨htake, hdrop⟩ := span_digits hdigits hrest
    rw [List.cons_append, matchFraction]
    rw [htake, hdrop, if_neg hne]

/-- An exponent is matched whole, if what follows could not be one. -/
theorem matchExponent_append {exponent rest : List Char} (h : IsExponent exponent)
    (hrest : NoDigit rest) (hletter : ∀ c ∈ rest.head?, c ≠ 'e' ∧ c ≠ 'E') :
    matchExponent (exponent ++ rest) = (exponent, rest) := by
  rcases h with rfl | ⟨sign, digits, rfl, hsign, hne, hdigits⟩
  · rcases rest with _ | ⟨c, rest⟩
    · rfl
    · obtain ⟨he, hE⟩ := hletter c rfl
      rw [List.nil_append, matchExponent]
      rw [if_neg fun hmatch => (not_or.mpr ⟨he, hE⟩) hmatch.1]
  · obtain ⟨htake, hdrop⟩ := span_digits hdigits hrest
    have hmatch : matchSign (sign ++ (digits ++ rest)) = (sign, digits ++ rest) := by
      rcases hsign with rfl | rfl | rfl
      · rcases digits with _ | ⟨c, digits⟩
        · exact absurd rfl hne
        · have hc := hdigits c List.mem_cons_self
          rw [List.nil_append, List.cons_append, matchSign]
          · rintro s hs
            obtain ⟨rfl, -⟩ := List.cons.inj hs
            cases hc
          · rintro s hs
            obtain ⟨rfl, -⟩ := List.cons.inj hs
            cases hc
      · rfl
      · rfl
    rw [List.cons_append, List.append_assoc, matchExponent]
    rw [hmatch, htake, hdrop, if_pos ⟨.inl rfl, hne⟩]

/-- An integer's text is its sign and its numeral. -/
theorem intText_eq (n : ℤ) :
    intText n = signText (decide (n < 0)) ++ Nat.toDigits 10 n.natAbs := by
  rw [intText, signText]
  by_cases hn : n < 0
  · rw [if_pos hn, if_pos (decide_eq_true hn)]
    rfl
  · rw [if_neg hn, if_neg (by simpa using hn)]
    rfl

/-- An integer's text has its value. -/
theorem intValue_intText (n : ℤ) : intValue (intText n) = n := by
  rw [intText]
  by_cases hn : n < 0
  · rw [if_pos hn, intValue, Nat.ofDigitChars_ten_toDigits]
    omega
  · obtain ⟨c, ds, heq, hc, -, -⟩ := toDigits_cons n.natAbs
    have hvalue : (Nat.ofDigitChars 10 (Nat.toDigits 10 n.natAbs) 0 : ℤ) = n := by
      rw [Nat.ofDigitChars_ten_toDigits]
      omega
    rw [if_neg hn]
    rw [heq] at hvalue ⊢
    rw [intValue]
    · exact hvalue
    · rintro s hs
      obtain ⟨rfl, -⟩ := List.cons.inj hs
      cases hc

section

variable {F : Type} {floats : FloatText F} {rest : List Char}

/-- An integer is scanned back. -/
theorem scanNumber_intText (n : ℤ) (hrest : Ends rest) :
    scanNumber floats (intText n ++ rest) = some (.int n, rest) := by
  have hinteger := matchInteger_toDigits (decide (n < 0)) n.natAbs hrest.noDigit
  rw [← intText_eq] at hinteger
  have hfraction : matchFraction rest = ([], rest) := by
    refine matchFraction_append (.inl rfl) hrest.noDigit fun _ hpoint => ?_
    rcases hrest '.' hpoint with h | h | h <;> cases h
  have hexponent : matchExponent rest = ([], rest) := by
    refine matchExponent_append (.inl rfl) hrest.noDigit fun c hc => ?_
    rcases hrest c hc with rfl | rfl | rfl <;> decide
  rw [scanNumber, hinteger]
  simp only [Option.bind_eq_bind, Option.bind_some]
  rw [hfraction]
  dsimp only
  rw [hexponent]
  dsimp only
  rw [if_pos ⟨rfl, rfl⟩, intValue_intText]

/-- A float's literal is scanned as one. -/
theorem scanNumber_literal (negative : Bool) (whole : ℕ) {fraction exponent : List Char}
    (hfraction : IsFraction fraction) (hexponent : IsExponent exponent)
    (hfloat : ¬ (fraction = [] ∧ exponent = [])) (hrest : Ends rest) :
    scanNumber floats
        (signText negative ++ Nat.toDigits 10 whole ++ fraction ++ exponent ++ rest) =
      some (.any (floats.read
        (signText negative ++ Nat.toDigits 10 whole ++ fraction ++ exponent)), rest) := by
  have hletter : ∀ c ∈ rest.head?, c ≠ 'e' ∧ c ≠ 'E' := by
    intro c hc
    rcases hrest c hc with rfl | rfl | rfl <;> decide
  have hpoint : rest.head? ≠ some '.' := by
    intro h
    rcases hrest '.' h with h | h | h <;> cases h
  -- what follows the fraction: the exponent, or the rest
  have hafter : NoDigit (exponent ++ rest) ∧ (exponent ++ rest).head? ≠ some '.' := by
    rcases hexponent with rfl | ⟨sign, digits, rfl, -⟩
    · exact ⟨hrest.noDigit, hpoint⟩
    · refine ⟨fun c hc => ?_, by simp⟩
      obtain rfl := Option.some.inj hc
      rfl
  have hfirst : NoDigit (fraction ++ (exponent ++ rest)) := by
    rcases hfraction with rfl | ⟨digits, rfl, -⟩
    · exact hafter.1
    · intro c hc
      obtain rfl := Option.some.inj hc
      rfl
  rw [List.append_assoc, List.append_assoc, scanNumber, matchInteger_toDigits negative whole hfirst]
  simp only [Option.bind_eq_bind, Option.bind_some]
  rw [matchFraction_append hfraction hafter.1 fun _ => hafter.2]
  dsimp only
  rw [matchExponent_append hexponent hrest.noDigit hletter]
  dsimp only
  rw [if_neg hfloat]

end

/-! ## Strings, read back -/

/-- A short escape is read back, and never taken for a `\u`. -/
theorem shortEscape_eq_some {c e : Char} (h : shortEscape c = some e) :
    e ≠ 'u' ∧ backslash e = some c ∧ c.toNat < 0x10000 := by
  rw [shortEscape.eq_def] at h
  split at h
  all_goals cases h
  all_goals exact ⟨by decide, rfl, by decide⟩

/-- A hexadecimal digit is read back. -/
theorem hexDigit_digitChar : ∀ n < 0x10, hexDigit n.digitChar = some n := by decide

/-- A `\u` escape is scanned as its unit. -/
theorem scanUnits_unicodeEscape {n : ℕ} (hn : n < 0x10000) (s : List Char) :
    scanUnits .plain (unicodeEscape n ++ s) =
      (scanUnits .plain s).map fun r => (n :: r.1, r.2) := by
  have hvalue : 0x10 * (0x10 * (0x10 * (0x10 * 0 + n / 0x1000 % 0x10) + n / 0x100 % 0x10) +
      n / 0x10 % 0x10) + n % 0x10 = n := by omega
  simp only [unicodeEscape, List.cons_append, List.nil_append, scanUnits, ↓reduceIte,
    if_neg (by decide : '\\' ≠ '"'), hexDigit_digitChar _ (Nat.mod_lt _ (by decide : 0x10 > 0)),
    hvalue]

/-- Several of them are scanned as their units. -/
theorem scanUnits_unicodeEscapes {units : List ℕ} (h : ∀ n ∈ units, n < 0x10000) (s : List Char) :
    scanUnits .plain (units.flatMap unicodeEscape ++ s) =
      (scanUnits .plain s).map fun r => (units ++ r.1, r.2) := by
  induction units with
  | nil => exact Option.map_id'.symm
  | cons n units ih =>
    obtain ⟨hn, hunits⟩ := List.forall_mem_cons.mp h
    rw [List.flatMap_cons, List.append_assoc, scanUnits_unicodeEscape hn, ih hunits, Option.map_map]
    rfl

/-- A code point is no surrogate. -/
theorem toNat_valid (c : Char) : c.toNat < 0xd800 ∨ 0xe000 ≤ c.toNat ∧ c.toNat < 0x110000 := by
  rcases c.valid with h | ⟨hlow, hhigh⟩
  · exact .inl h
  · exact .inr ⟨hlow, hhigh⟩

/-- A code unit has four hexadecimal digits. -/
theorem codeUnits_lt (c : Char) : ∀ n ∈ codeUnits c, n < 0x10000 := by
  have hvalid := toNat_valid c
  intro n hn
  rw [codeUnits] at hn
  split at hn
  · rw [List.mem_singleton.mp hn]
    assumption
  · rcases List.mem_cons.mp hn with rfl | hn
    · omega
    · rw [List.mem_singleton.mp hn]
      omega

/-- An escaped character is scanned as its code units. -/
theorem scanUnits_escape (c : Char) (s : List Char) :
    scanUnits .plain (escape c ++ s) =
      (scanUnits .plain s).map fun r => (codeUnits c ++ r.1, r.2) := by
  rw [escape]
  rcases hshort : shortEscape c with _ | e
  · dsimp only
    split
    · rename_i hprintable
      have hquote : c ≠ '"' := by
        rintro rfl
        cases hshort
      have hbackslash : c ≠ '\\' := by
        rintro rfl
        cases hshort
      have hsmall : c.toNat < 0x10000 := Nat.lt_of_le_of_lt hprintable.2 (by decide)
      rw [List.singleton_append, scanUnits, if_neg hquote, if_neg hbackslash,
        if_neg (Char.not_lt.mpr hprintable.1), codeUnits, if_pos hsmall]
      rfl
    · exact scanUnits_unicodeEscapes (codeUnits_lt c) s
  · obtain ⟨hu, hback, hsmall⟩ := shortEscape_eq_some hshort
    dsimp only
    rw [List.cons_append, scanUnits, if_neg (by decide), if_pos rfl, List.singleton_append,
      scanUnits, if_neg hu, hback, codeUnits, if_pos hsmall]
    rfl

/-- The code units of a character are joined to it again. -/
theorem joinUnits_codeUnits (c : Char) (units : List ℕ) :
    joinUnits (codeUnits c ++ units) = (joinUnits units).map (c :: ·) := by
  have hvalid := toNat_valid c
  rw [codeUnits]
  split
  · rename_i hsmall
    rw [List.singleton_append, joinUnits.eq_def]
    dsimp only
    rw [if_neg (by omega), if_neg (by omega), Char.ofNat_toNat]
  · rename_i hlarge
    have hcode : 0x10000 + 0x400 * (0xd800 + (c.toNat - 0x10000) / 0x400 - 0xd800) +
        (0xdc00 + (c.toNat - 0x10000) % 0x400 - 0xdc00) = c.toNat := by omega
    rw [List.cons_append, List.singleton_append, joinUnits, if_pos (by omega), if_pos (by omega),
      hcode, Char.ofNat_toNat]

/-- **A string is read back.** -/
theorem scanString_escape (s : String) (rest : List Char) :
    scanString (s.toList.flatMap escape ++ '"' :: rest) = some (s, rest) := by
  have hunits : ∀ cs : List Char, scanUnits .plain (cs.flatMap escape ++ '"' :: rest) =
      some (cs.flatMap codeUnits, rest) := by
    intro cs
    induction cs with
    | nil => rfl
    | cons c cs ih =>
      rw [List.flatMap_cons, List.append_assoc, scanUnits_escape, ih]
      rfl
  have hjoin : ∀ cs : List Char, joinUnits (cs.flatMap codeUnits) = some cs := by
    intro cs
    induction cs with
    | nil => rfl
    | cons c cs ih =>
      rw [List.flatMap_cons, joinUnits_codeUnits, ih]
      rfl
  rw [scanString, hunits]
  simp only [Option.bind_eq_bind, Option.bind_some, hjoin, String.ofList_toList]

/-! ## Documents, read back -/

section

variable {F : Type} {floats : FloatText F} {rest : List Char}

/-- A digit is none of the other characters. -/
theorem ne_of_isDigit {c d : Char} (hc : c.isDigit = true) (hd : d.isDigit = false) : c ≠ d := by
  rintro rfl
  rw [hc] at hd
  cases hd

/-- A number starts with a digit, or with a sign and a digit. -/
def StartsNumber (s : List Char) : Prop :=
  ∃ c t, c.isDigit = true ∧ (s = c :: t ∨ s = '-' :: c :: t)

/-- A numeral starts like a number. -/
theorem startsNumber_toDigits (negative : Bool) (n : ℕ) (rest : List Char) :
    StartsNumber (signText negative ++ Nat.toDigits 10 n ++ rest) := by
  obtain ⟨c, ds, heq, hc, -, -⟩ := toDigits_cons n
  rw [heq]
  rcases negative with _ | _
  · exact ⟨c, ds ++ rest, hc, .inl rfl⟩
  · exact ⟨c, ds ++ rest, hc, .inr rfl⟩

/-- An integer's text starts like a number. -/
theorem startsNumber_intText (n : ℤ) (rest : List Char) : StartsNumber (intText n ++ rest) := by
  rw [intText_eq]
  exact startsNumber_toDigits _ _ _

/-- What starts like a number is no constant. -/
theorem scanConstant_of_startsNumber {s : List Char} (h : StartsNumber s) :
    scanConstant floats s = none := by
  obtain ⟨c, t, hc, hs⟩ := h
  have hI := ne_of_isDigit hc (by decide : 'I'.isDigit = false)
  rcases hs with rfl | rfl
  · have hn := ne_of_isDigit hc (by decide : 'n'.isDigit = false)
    have ht := ne_of_isDigit hc (by decide : 't'.isDigit = false)
    have hf := ne_of_isDigit hc (by decide : 'f'.isDigit = false)
    have hN := ne_of_isDigit hc (by decide : 'N'.isDigit = false)
    have hminus := ne_of_isDigit hc (by decide : '-'.isDigit = false)
    simp [scanConstant, constants, specialFloats, hn.symm, ht.symm, hf.symm, hN.symm, hI.symm,
      hminus.symm]
  · simp [scanConstant, constants, specialFloats, hI.symm]

/-- A special float is scanned by its name. -/
theorem scanConstant_special {name : String} (h : name ∈ specialFloats) (rest : List Char) :
    scanConstant floats (name.toList ++ rest) = some (.any (floats.read name.toList), rest) := by
  rcases List.mem_cons.mp h with rfl | h
  · rfl
  rcases List.mem_cons.mp h with rfl | h
  · rfl
  · rw [List.mem_singleton.mp h]
    rfl

/-- How the text of a document starts: with no space, and no closing bracket. -/
def StartsValue (c : Char) : Prop := isSpace c = false ∧ c ≠ ']' ∧ c ≠ '}'

/-- What starts like a number is no string, object or array. -/
theorem StartsNumber.startsValue {s : List Char} (h : StartsNumber s) :
    ∃ c t, s = c :: t ∧ StartsValue c ∧ c ≠ '"' ∧ c ≠ '{' ∧ c ≠ '[' := by
  obtain ⟨c, t, hc, rfl | rfl⟩ := h
  · refine ⟨c, t, rfl, ⟨?_, ne_of_isDigit hc (by decide), ne_of_isDigit hc (by decide)⟩,
      ne_of_isDigit hc (by decide), ne_of_isDigit hc (by decide), ne_of_isDigit hc (by decide)⟩
    have hspace := ne_of_isDigit hc (by decide : ' '.isDigit = false)
    have htab := ne_of_isDigit hc (by decide : '\t'.isDigit = false)
    have hline := ne_of_isDigit hc (by decide : '\n'.isDigit = false)
    have hreturn := ne_of_isDigit hc (by decide : '\r'.isDigit = false)
    simp [isSpace, hspace, htab, hline, hreturn]
  · exact ⟨'-', c :: t, rfl, ⟨by decide, by decide, by decide⟩, by decide, by decide, by decide⟩

/-- The text of a float starts like a number, or is a name. -/
theorem repr_cases (x : F) :
    (∃ name ∈ specialFloats, floats.repr x = name.toList) ∨
      ∃ (negative : Bool) (whole : ℕ) (fraction exponent : List Char),
        floats.repr x = signText negative ++ Nat.toDigits 10 whole ++ fraction ++ exponent ∧
          IsFraction fraction ∧ IsExponent exponent ∧ ¬ (fraction = [] ∧ exponent = []) :=
  floats.shape x

/-- A document's text starts like a value. -/
theorem text_startsValue (d : Doc F) : ∃ c t, text floats d = c :: t ∧ StartsValue c := by
  cases d with
  | null => exact ⟨'n', _, rfl, by decide, by decide, by decide⟩
  | bool b =>
    cases b with
    | false => exact ⟨'f', _, rfl, by decide, by decide, by decide⟩
    | true => exact ⟨'t', _, rfl, by decide, by decide, by decide⟩
  | int n =>
    obtain ⟨c, t, heq, hc, -⟩ := (startsNumber_intText n []).startsValue
    rw [List.append_nil] at heq
    exact ⟨c, t, by rw [text, heq], hc⟩
  | str s => exact ⟨'"', _, by rw [text, stringText], by decide, by decide, by decide⟩
  | list ds => exact ⟨'[', _, by rw [text], by decide, by decide, by decide⟩
  | object ms => exact ⟨'{', _, by rw [text], by decide, by decide, by decide⟩
  | any x =>
    rw [text]
    rcases @repr_cases F floats x with ⟨name, hname, heq⟩ |
      ⟨negative, whole, fraction, exponent, heq, -⟩
    · rw [heq]
      rcases List.mem_cons.mp hname with rfl | hname
      · exact ⟨'N', _, rfl, by decide, by decide, by decide⟩
      rcases List.mem_cons.mp hname with rfl | hname
      · exact ⟨'I', _, rfl, by decide, by decide, by decide⟩
      · rw [List.mem_singleton.mp hname]
        exact ⟨'-', _, rfl, by decide, by decide, by decide⟩
    · rw [heq, List.append_assoc]
      obtain ⟨c, t, hct, hc, -⟩ :=
        (startsNumber_toDigits negative whole (fraction ++ exponent)).startsValue
      exact ⟨c, t, hct, hc⟩

/-- There is no space to skip before another character. -/
theorem skipSpace_cons {c : Char} (hc : isSpace c = false) (s : List Char) :
    skipSpace (c :: s) = c :: s := by
  rw [skipSpace, List.dropWhile_cons, hc]
  rfl

/-- There is no space to skip before a document's text. -/
theorem skipSpace_text (d : Doc F) (rest : List Char) :
    skipSpace (text floats d ++ rest) = text floats d ++ rest := by
  obtain ⟨c, t, heq, hc, -⟩ := @text_startsValue F floats d
  rw [heq, List.cons_append]
  exact skipSpace_cons hc _

/-- Only strings, objects and arrays are scanned by their first character. -/
theorem scanOnce_other {fuel : ℕ} {c : Char} (hquote : c ≠ '"') (hbrace : c ≠ '{')
    (hbracket : c ≠ '[') (s : List Char) :
    scanOnce floats (fuel + 1) (c :: s) =
      (scanConstant floats (c :: s)).or (scanNumber floats (c :: s)) := by
  rw [scanOnce]
  · rintro s' hs
    exact hquote (List.cons.inj hs).1
  · rintro s' hs
    exact hbrace (List.cons.inj hs).1
  · rintro s' hs
    exact hbracket (List.cons.inj hs).1

/-- Distinct keys are assigned in their order. -/
theorem assigned_eq {ms : List (String × Doc F)} (h : (ms.map Prod.fst).Nodup) :
    assigned ms = .object ms := by
  have hfold : ∀ acc : List (String × Doc F), ((acc ++ ms).map Prod.fst).Nodup →
      ms.foldl put acc = acc ++ ms := by
    clear h
    induction ms with
    | nil => exact fun acc _ => (List.append_nil acc).symm
    | cons m ms ih =>
      intro acc hnd
      have hm : m.1 ∉ acc.map Prod.fst := by
        intro hmem
        rw [List.map_append, List.map_cons] at hnd
        exact (List.nodup_append.mp hnd).2.2 _ hmem _ List.mem_cons_self rfl
      rw [List.foldl_cons, put, if_neg hm, ih _ (by simpa using hnd), List.append_assoc,
        List.singleton_append]
  rw [assigned, hfold [] h, List.nil_append]

variable (floats) in
/-- With this much fuel, what was written is scanned back. -/
structure ReadsBack (fuel : ℕ) : Prop where
  once : ∀ (d : Doc F) (rest : List Char), d.DistinctKeys → Ends rest →
    (text floats d).length ≤ fuel →
    scanOnce floats fuel (text floats d ++ rest) = some (d, rest)
  members : ∀ (key : String) (d : Doc F) (ms : List (String × Doc F)) (rest : List Char),
    Doc.MembersDistinct ((key, d) :: ms) →
    (memberTexts floats ((key, d) :: ms)).length < fuel →
    scanMembers floats fuel (memberTexts floats ((key, d) :: ms) ++ '}' :: rest) =
      some ((key, d) :: ms, rest)
  elements : ∀ (d : Doc F) (ds : List (Doc F)) (rest : List Char), Doc.AllDistinct (d :: ds) →
    (elementTexts floats (d :: ds)).length < fuel →
    scanElements floats fuel (elementTexts floats (d :: ds) ++ ']' :: rest) = some (d :: ds, rest)

/-- A number or a name. -/
theorem scanOnce_number {fuel : ℕ} {s : List Char} {d : Doc F} (hs : StartsNumber s)
    (hscan : scanNumber floats s = some (d, rest)) :
    scanOnce floats (fuel + 1) s = some (d, rest) := by
  obtain ⟨c, t, rfl, -, hquote, hbrace, hbracket⟩ := hs.startsValue
  rw [scanOnce_other hquote hbrace hbracket, scanConstant_of_startsNumber hs, hscan]
  rfl

/-- A float is scanned back. -/
theorem scanOnce_float (fuel : ℕ) (x : F) (hrest : Ends rest) :
    scanOnce floats (fuel + 1) (floats.repr x ++ rest) = some (.any x, rest) := by
  have hread := floats.read_repr x
  rcases @repr_cases F floats x with ⟨name, hname, heq⟩ |
    ⟨negative, whole, fraction, exponent, heq, hfraction, hexponent, hfloat⟩
  · rw [heq] at hread ⊢
    have hscan := @scanConstant_special F floats name hname rest
    rw [hread] at hscan
    have hother : scanOnce floats (fuel + 1) (name.toList ++ rest) =
        (scanConstant floats (name.toList ++ rest)).or
          (scanNumber floats (name.toList ++ rest)) := by
      rcases List.mem_cons.mp hname with rfl | hname
      · rfl
      rcases List.mem_cons.mp hname with rfl | hname
      · rfl
      · rw [List.mem_singleton.mp hname]
        rfl
    rw [hother, hscan]
    rfl
  · rw [heq] at hread ⊢
    have hscan := @scanNumber_literal F floats rest negative whole fraction exponent hfraction
      hexponent hfloat hrest
    rw [hread] at hscan
    refine scanOnce_number ?_ hscan
    rw [List.append_assoc, List.append_assoc]
    exact startsNumber_toDigits _ _ _

/-- After a bracket with something in it the elements are scanned. -/
theorem scanOnce_bracket {fuel : ℕ} {c : Char} (hc : StartsValue c) (s : List Char) :
    scanOnce floats (fuel + 1) ('[' :: c :: s) =
      (scanElements floats fuel (c :: s)).map fun r => (.list r.1, r.2) := by
  rw [scanOnce, skipSpace_cons hc.1]
  split
  · rename_i hs
    exact absurd (List.cons.inj hs).1 hc.2.1
  · rfl

/-- After a brace with something in it the members are scanned. -/
theorem scanOnce_brace {fuel : ℕ} {c : Char} (hc : StartsValue c) (s : List Char) :
    scanOnce floats (fuel + 1) ('{' :: c :: s) =
      (scanMembers floats fuel (c :: s)).map fun r => (assigned r.1, r.2) := by
  rw [scanOnce, skipSpace_cons hc.1]
  split
  · rename_i hs
    exact absurd (List.cons.inj hs).1 hc.2.2
  · rfl

/-- The step for one document, from the same fuel for its members and elements. -/
theorem scanOnce_text_step {fuel : ℕ} (h : ReadsBack floats fuel) {d : Doc F}
    (hd : d.DistinctKeys) (hrest : Ends rest) (hfuel : (text floats d).length ≤ fuel + 1) :
    scanOnce floats (fuel + 1) (text floats d ++ rest) = some (d, rest) := by
  cases d with
  | null => rfl
  | bool b =>
    cases b with
    | false => rfl
    | true => rfl
  | int n =>
    rw [text]
    exact scanOnce_number (startsNumber_intText n rest) (scanNumber_intText n hrest)
  | str s =>
    rw [text, stringText, List.cons_append, List.append_assoc, scanOnce, List.singleton_append,
      scanString_escape]
    rfl
  | list ds =>
    rw [text] at hfuel ⊢
    rw [List.cons_append, List.append_assoc, List.singleton_append]
    rw [List.length_cons, List.length_append, List.length_singleton] at hfuel
    cases ds with
    | nil => rfl
    | cons d ds =>
      have hback := h.elements d ds rest hd (by omega)
      obtain ⟨c, t, heq, hc⟩ := @text_startsValue F floats d
      rw [elementTexts, heq, List.cons_append] at hback ⊢
      rw [List.cons_append] at hback ⊢
      rw [scanOnce_bracket hc, hback]
      rfl
  | object ms =>
    rw [text] at hfuel ⊢
    rw [List.cons_append, List.append_assoc, List.singleton_append]
    rw [List.length_cons, List.length_append, List.length_singleton] at hfuel
    cases ms with
    | nil => rfl
    | cons m ms =>
      obtain ⟨key, d⟩ := m
      have hback := h.members key d ms rest hd.2 (by omega)
      rw [memberTexts, stringText, List.cons_append, List.cons_append] at hback ⊢
      rw [scanOnce_brace ⟨rfl, by decide, by decide⟩, hback, ← assigned_eq hd.1]
      rfl
  | any x =>
    rw [text]
    exact scanOnce_float fuel x hrest

/-- The step for the elements of a list. -/
theorem scanElements_step {fuel : ℕ} (h : ReadsBack floats fuel) {d : Doc F} {ds : List (Doc F)}
    (hd : Doc.AllDistinct (d :: ds))
    (hfuel : (elementTexts floats (d :: ds)).length < fuel + 1) :
    scanElements floats (fuel + 1) (elementTexts floats (d :: ds) ++ ']' :: rest) =
      some (d :: ds, rest) := by
  rw [elementTexts, List.length_append] at hfuel
  rw [elementTexts, List.append_assoc, scanElements]
  cases ds with
  | nil =>
    rw [moreElements, List.nil_append, h.once d _ hd.1 (by simp [Ends]) (by omega)]
    rfl
  | cons d' ds =>
    rw [moreElements, List.length_cons] at hfuel
    have hback := h.elements d' ds rest hd.2 (by rw [elementTexts]; omega)
    rw [elementTexts] at hback
    rw [moreElements, List.cons_append, h.once d _ hd.1 (by simp [Ends]) (by omega)]
    dsimp only
    rw [skipSpace_cons rfl, List.append_assoc]
    change (scanElements floats fuel (skipSpace (text floats d' ++ _))).map _ = _
    rw [skipSpace_text, ← List.append_assoc, hback]
    rfl

/-- A member, and what follows it. -/
theorem scanMembers_member {fuel : ℕ} {key : String} {d : Doc F} {s s' s'' : List Char}
    (hkey : scanString s = some (key, ':' :: s'))
    (hd : scanOnce floats fuel (skipSpace s') = some (d, s'')) :
    (∀ s₀, s'' = '}' :: s₀ → scanMembers floats (fuel + 1) ('"' :: s) = some ([(key, d)], s₀)) ∧
      ∀ s₀, s'' = ',' :: s₀ → scanMembers floats (fuel + 1) ('"' :: s) =
        (scanMembers floats fuel (skipSpace s₀)).map fun r => ((key, d) :: r.1, r.2) := by
  rw [scanMembers, hkey]
  dsimp only
  rw [skipSpace_cons rfl]
  constructor
  · rintro s₀ rfl
    simp only [hd, skipSpace_cons (by decide : isSpace '}' = false)]
  · rintro s₀ rfl
    simp only [hd, skipSpace_cons (by decide : isSpace ',' = false)]

/-- The step for the members of an object. -/
theorem scanMembers_step {fuel : ℕ} (h : ReadsBack floats fuel) {key : String} {d : Doc F}
    {ms : List (String × Doc F)} (hd : Doc.MembersDistinct ((key, d) :: ms))
    (hfuel : (memberTexts floats ((key, d) :: ms)).length < fuel + 1) :
    scanMembers floats (fuel + 1) (memberTexts floats ((key, d) :: ms) ++ '}' :: rest) =
      some ((key, d) :: ms, rest) := by
  rw [memberTexts, List.length_append, List.length_cons, List.length_append] at hfuel
  have hkey := scanString_escape key
    (':' :: (text floats d ++ (moreMembers floats ms ++ '}' :: rest)))
  have hvalue : scanOnce floats fuel
      (skipSpace (text floats d ++ (moreMembers floats ms ++ '}' :: rest))) =
        some (d, moreMembers floats ms ++ '}' :: rest) := by
    rw [skipSpace_text]
    refine h.once d _ hd.1 ?_ (by omega)
    cases ms with
    | nil => simp [moreMembers, Ends]
    | cons m ms => simp [moreMembers, Ends]
  obtain ⟨hlast, hmore⟩ := scanMembers_member hkey hvalue
  rw [memberTexts, stringText]
  simp only [List.cons_append, List.append_assoc, List.nil_append]
  cases ms with
  | nil => exact hlast rest rfl
  | cons m ms =>
    obtain ⟨key', d'⟩ := m
    rw [moreMembers, List.length_cons] at hfuel
    have hback := h.members key' d' ms rest hd.2 (by rw [memberTexts]; omega)
    rw [memberTexts, stringText, List.cons_append, List.cons_append] at hback
    rw [moreMembers, List.cons_append] at hmore ⊢
    rw [hmore _ rfl, stringText, List.cons_append, List.cons_append, skipSpace_cons rfl, hback]
    rfl

/-- **The scanner reads back what was written**, by induction on the fuel. -/
theorem readsBack (fuel : ℕ) : ReadsBack floats fuel := by
  induction fuel with
  | zero =>
    refine ⟨fun d rest _ _ hfuel => ?_, fun _ _ _ _ _ hfuel => absurd hfuel (Nat.not_lt_zero _),
      fun _ _ _ _ hfuel => absurd hfuel (Nat.not_lt_zero _)⟩
    obtain ⟨c, t, heq, -⟩ := @text_startsValue F floats d
    rw [heq] at hfuel
    exact absurd hfuel (by simp)
  | succ fuel ih =>
    exact ⟨fun _ _ hd hrest hfuel => scanOnce_text_step ih hd hrest hfuel,
      fun _ _ _ _ hd hfuel => scanMembers_step ih hd hfuel,
      fun _ _ _ hd hfuel => scanElements_step ih hd hfuel⟩

/-- **What was written is scanned back**, whatever follows it. -/
theorem scanOnce_text {d : Doc F} (hd : d.DistinctKeys) (hrest : Ends rest) {fuel : ℕ}
    (hfuel : (text floats d).length ≤ fuel) :
    scanOnce floats fuel (text floats d ++ rest) = some (d, rest) :=
  (readsBack fuel).once d rest hd hrest hfuel

/-- **Round trip**: `json.loads` of a document's text is the document. -/
theorem loads_text {d : Doc F} (hd : d.DistinctKeys) : loads floats (text floats d) = some d := by
  have hskip := @skipSpace_text F floats d []
  have hscan := @scanOnce_text F floats [] d hd ends_nil ((text floats d).length + 1) (by omega)
  rw [List.append_nil] at hskip hscan
  rw [loads, hskip, hscan]
  rfl

/-- **A document is read back**, with its members sorted. -/
theorem loads_dumps {d : Doc F} (hd : d.DistinctKeys) :
    loads floats (dumps floats d) = some (d.image id) :=
  loads_text (d.distinctKeys_image id hd)

end

end JsonText

end Unlearning
