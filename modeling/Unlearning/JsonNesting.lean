import Mathlib.Data.List.TakeWhile
import Unlearning.JsonRoundTrip

/-!
# Where a reader of JSON is

A reader that only counts brackets and quotes follows the scanner. After the first `{` of a text
it is at `outside 0`; a text that `loads` accepts takes it to `closed` (`nest_of_loads`).

The text of a document takes it from `outside d` back there. From within a string the strings of
the text and what stands between them change places, and the reader ends in a string, if it is not
broken by then (`swapped_nest_text`). So a text that is glued onto any beginning is never accepted
(`loads_glued`).
-/

namespace Unlearning

namespace JsonText

/-- Where the reader is, after the first bracket: how many more are open. -/
inductive Nesting : Type where
  | outside (d : ℕ)
  | string (d : ℕ)
  /-- in a string, after a backslash -/
  | escaped (d : ℕ)
  | closed
  | broken

/-- A bracket closes. -/
def Nesting.below : ℕ → Nesting
  | 0 => .closed
  | d + 1 => .outside d

/-- The nesting after one more character. -/
def Nesting.next : Nesting → Char → Nesting
  | .outside d, c =>
    if c = '"' then .string d
    else if c = '{' ∨ c = '[' then .outside (d + 1)
    else if c = '}' ∨ c = ']' then below d
    else if c = '\\' then .broken
    else .outside d
  | .string d, c => if c = '"' then .outside d else if c = '\\' then .escaped d else .string d
  | .escaped d, _ => .string d
  | .closed, c => if isSpace c then .closed else .broken
  | .broken, _ => .broken

/-- The nesting after a text. -/
def nest (q : Nesting) (s : List Char) : Nesting := s.foldl Nesting.next q

@[simp] theorem nest_nil (q : Nesting) : nest q [] = q := rfl

@[simp] theorem nest_cons (q : Nesting) (c : Char) (s : List Char) :
    nest q (c :: s) = nest (q.next c) s := rfl

/-- The brackets of two texts in a row. -/
theorem nest_append (q : Nesting) (s t : List Char) : nest q (s ++ t) = nest (nest q s) t :=
  List.foldl_append

/-- From `s` on the reader comes from `q` to `q'`, with `t` to go. -/
def Reads (q : Nesting) (s t : List Char) (q' : Nesting) : Prop := ∃ c, s = c ++ t ∧ nest q c = q'

/-- Nothing is read. -/
theorem Reads.refl (q : Nesting) (s : List Char) : Reads q s s q := ⟨[], rfl, rfl⟩

/-- What is read in two stretches. -/
theorem Reads.trans {q q' q'' : Nesting} {s t u : List Char} (h : Reads q s t q')
    (h' : Reads q' t u q'') : Reads q s u q'' := by
  obtain ⟨c, rfl, rfl⟩ := h
  obtain ⟨c', rfl, rfl⟩ := h'
  exact ⟨c ++ c', (List.append_assoc c c' u).symm, nest_append _ _ _⟩

/-- A character, and then the rest. -/
theorem Reads.cons {q q' : Nesting} {c : Char} {s t : List Char} (h : Reads (q.next c) s t q') :
    Reads q (c :: s) t q' := by
  obtain ⟨l, rfl, hl⟩ := h
  exact ⟨c :: l, rfl, hl⟩

/-! ## Characters that do not matter -/

/-- The characters of numbers and names. -/
def isLiteral (c : Char) : Bool :=
  c.isDigit || (0x41 ≤ c.toNat && c.toNat ≤ 0x5a) || (0x61 ≤ c.toNat && c.toNat ≤ 0x7a) ||
    c = '-' || c = '+' || c = '.'

/-- A character of a literal is none of the others. -/
theorem ne_of_isLiteral {c d : Char} (hc : isLiteral c = true) (hd : isLiteral d = false) :
    c ≠ d := by
  rintro rfl
  rw [hc] at hd
  cases hd

/-- Digits are characters of literals. -/
theorem isLiteral_of_isDigit {c : Char} (h : c.isDigit = true) : isLiteral c = true := by
  simp [isLiteral, h]

/-- A character of a literal opens and closes nothing. -/
theorem next_of_isLiteral {c : Char} (h : isLiteral c = true) (d : ℕ) :
    (Nesting.outside d).next c = .outside d ∧ (Nesting.string d).next c = .string d := by
  have hquote := ne_of_isLiteral h (by decide : isLiteral '"' = false)
  have hbackslash := ne_of_isLiteral h (by decide : isLiteral '\\' = false)
  constructor
  · rw [Nesting.next, if_neg hquote, if_neg, if_neg, if_neg hbackslash]
    · exact not_or.mpr ⟨ne_of_isLiteral h (by decide), ne_of_isLiteral h (by decide)⟩
    · exact not_or.mpr ⟨ne_of_isLiteral h (by decide), ne_of_isLiteral h (by decide)⟩
  · rw [Nesting.next, if_neg hquote, if_neg hbackslash]

/-- A literal opens and closes nothing. -/
theorem nest_outside_of_isLiteral {s : List Char} (h : ∀ c ∈ s, isLiteral c = true) (d : ℕ) :
    nest (.outside d) s = .outside d := by
  induction s with
  | nil => rfl
  | cons c s ih =>
    obtain ⟨hc, hs⟩ := List.forall_mem_cons.mp h
    rw [nest_cons, (next_of_isLiteral hc d).1, ih hs]

/-- Nor does white space. -/
theorem reads_skipSpace (d : ℕ) (s : List Char) :
    Reads (.outside d) s (skipSpace s) (.outside d) := by
  induction s with
  | nil => exact .refl _ _
  | cons c s ih =>
    rw [skipSpace, List.dropWhile_cons]
    rcases hc : isSpace c with _ | _
    · exact .refl _ _
    · refine .cons ?_
      have hnext : (Nesting.outside d).next c = .outside d := by
        simp only [isSpace, Bool.or_eq_true, decide_eq_true_eq] at hc
        rcases hc with ((rfl | rfl) | rfl) | rfl
        all_goals rfl
      rw [hnext]
      exact ih

/-- Spaces after the end. -/
theorem nest_closed {s : List Char} (h : skipSpace s = []) : nest .closed s = .closed := by
  induction s with
  | nil => rfl
  | cons c s ih =>
    rw [skipSpace, List.dropWhile_cons] at h
    rcases hc : isSpace c with _ | _
    · rw [hc] at h
      cases h
    · rw [hc] at h
      rw [nest_cons, Nesting.next, if_pos hc]
      exact ih h

/-! ## The scanner -/

/-- What is matched is taken from the front, and made of such characters. -/
def Matched (s m t : List Char) : Prop := s = m ++ t ∧ ∀ c ∈ m, isLiteral c = true

/-- Nothing is matched. -/
theorem Matched.nil (s : List Char) : Matched s [] s :=
  ⟨rfl, fun _ h => absurd h List.not_mem_nil⟩

/-- One more character of a literal is matched. -/
theorem Matched.cons {c : Char} {s m t : List Char} (hc : isLiteral c = true) (h : Matched s m t) :
    Matched (c :: s) (c :: m) t :=
  ⟨congrArg (c :: ·) h.1, List.forall_mem_cons.mpr ⟨hc, h.2⟩⟩

/-- What is matched in two stretches. -/
theorem Matched.append {s m t m' u : List Char} (h : Matched s m t) (h' : Matched t m' u) :
    Matched s (m ++ m') u := by
  obtain ⟨rfl, hm⟩ := h
  obtain ⟨rfl, hm'⟩ := h'
  exact ⟨(List.append_assoc _ _ _).symm, List.forall_mem_append.mpr ⟨hm, hm'⟩⟩

/-- A match of literals leaves the nesting as it is. -/
theorem Matched.reads {s m t : List Char} (h : Matched s m t) (d : ℕ) :
    Reads (.outside d) s t (.outside d) :=
  ⟨m, h.1, nest_outside_of_isLiteral h.2 d⟩

/-- A run of digits. -/
theorem matched_digits (s : List Char) :
    Matched s (s.takeWhile Char.isDigit) (s.dropWhile Char.isDigit) :=
  ⟨List.takeWhile_append_dropWhile.symm, fun _ hc =>
    isLiteral_of_isDigit (List.mem_takeWhile_imp hc)⟩

/-- The whole part of a number. -/
theorem matched_whole {s m t : List Char} (h : matchWhole s = some (m, t)) : Matched s m t := by
  rw [matchWhole.eq_def] at h
  split at h
  · cases h
  · split at h
    · rename_i hc
      subst hc
      obtain ⟨rfl, rfl⟩ := Prod.mk.inj (Option.some.inj h)
      exact .cons rfl (.nil _)
    · split at h
      · rename_i hc
        obtain ⟨rfl, rfl⟩ := Prod.mk.inj (Option.some.inj h)
        exact .cons (isLiteral_of_isDigit hc) (matched_digits _)
      · cases h

/-- The whole part with its sign. -/
theorem matched_integer {s m t : List Char} (h : matchInteger s = some (m, t)) : Matched s m t := by
  rw [matchInteger.eq_def] at h
  split at h
  · obtain ⟨⟨m', t'⟩, hwhole, heq⟩ := Option.map_eq_some_iff.mp h
    obtain ⟨rfl, rfl⟩ := Prod.mk.inj heq
    exact .cons rfl (matched_whole hwhole)
  · exact matched_whole h

/-- The fraction of a number, if there is one. -/
theorem matched_fraction (s : List Char) : Matched s (matchFraction s).1 (matchFraction s).2 := by
  rw [matchFraction.eq_def]
  split
  · dsimp only
    split
    · exact .nil _
    · exact .cons rfl (matched_digits _)
  · exact .nil _

/-- The sign of an exponent, if there is one. -/
theorem matched_sign (s : List Char) : Matched s (matchSign s).1 (matchSign s).2 := by
  rw [matchSign.eq_def]
  split
  · exact .cons rfl (.nil _)
  · exact .cons rfl (.nil _)
  · exact .nil _

/-- The exponent of a number, if there is one. -/
theorem matched_exponent (s : List Char) : Matched s (matchExponent s).1 (matchExponent s).2 := by
  rw [matchExponent.eq_def]
  split
  · exact .nil _
  · dsimp only
    split
    · rename_i e t hmatch
      refine .cons ?_ ((matched_sign t).append (matched_digits _))
      rcases hmatch.1 with rfl | rfl
      · rfl
      · rfl
    · exact .nil _

section

variable {F : Type} {floats : FloatText F}

/-- A number leaves the nesting as it is. -/
theorem reads_number {s t : List Char} {v : Doc F} (h : scanNumber floats s = some (v, t)) (d : ℕ) :
    Reads (.outside d) s t (.outside d) := by
  rw [scanNumber] at h
  simp only [Option.bind_eq_bind, Option.bind_eq_some_iff] at h
  obtain ⟨⟨integer, s'⟩, hinteger, h⟩ := h
  have hmatched := ((matched_integer hinteger).append (matched_fraction s')).append
    (matched_exponent (matchFraction s').2)
  have ht : t = (matchExponent (matchFraction s').2).2 := by
    dsimp only at h
    split at h
    · exact (Prod.mk.inj (Option.some.inj h)).2.symm
    · exact (Prod.mk.inj (Option.some.inj h)).2.symm
  rw [ht]
  exact hmatched.reads d

/-- So does a constant. -/
theorem reads_constant {s t : List Char} {v : Doc F} (h : scanConstant floats s = some (v, t))
    (d : ℕ) : Reads (.outside d) s t (.outside d) := by
  obtain ⟨⟨name, v'⟩, hmem, hname⟩ := List.exists_of_findSome?_eq_some h
  dsimp only at hname
  split at hname
  · rename_i hstart
    obtain ⟨t', rfl⟩ := List.isPrefixOf_iff_prefix.mp hstart
    obtain ⟨-, rfl⟩ := Prod.mk.inj (Option.some.inj hname)
    have hmatched : Matched (name.toList ++ t') name.toList
        ((name.toList ++ t').drop name.length) := by
      refine ⟨?_, ?_⟩
      · rw [← String.length_toList, List.drop_left]
      · simp only [constants, specialFloats, List.map_cons, List.map_nil, List.cons_append,
          List.nil_append, List.mem_cons, Prod.mk.injEq, List.not_mem_nil, or_false] at hmem
        rcases hmem with ⟨rfl, -⟩ | ⟨rfl, -⟩ | ⟨rfl, -⟩ | ⟨rfl, -⟩ | ⟨rfl, -⟩ | ⟨rfl, -⟩
        all_goals exact List.all_eq_true.mp rfl
    exact hmatched.reads d
  · cases hname

/-- Where the reader is in a string. -/
def StringScan.nesting (d : ℕ) : StringScan → Nesting
  | .plain => .string d
  | .escaped => .escaped d
  | .hex _ _ => .string d

/-- Hexadecimal digits are characters of literals. -/
theorem isLiteral_of_hexDigit {c : Char} {v : ℕ} (h : hexDigit c = some v) :
    isLiteral c = true := by
  have hascii : ∀ n < 0x80, (hexDigit (Char.ofNat n)).isSome = true →
      isLiteral (Char.ofNat n) = true := by decide
  have hc : c.toNat < 0x80 := by
    rw [hexDigit] at h
    split at h
    · rename_i hrange
      exact Nat.lt_of_le_of_lt hrange.2 (by decide)
    split at h
    · rename_i hrange
      exact Nat.lt_of_le_of_lt hrange.2 (by decide)
    split at h
    · rename_i hrange
      exact Nat.lt_of_le_of_lt hrange.2 (by decide)
    · cases h
  have hliteral := hascii c.toNat hc
  rw [Char.ofNat_toNat, h] at hliteral
  exact hliteral rfl

/-- The units of a string end at its closing quote. -/
theorem reads_units {scan : StringScan} {s t : List Char} {units : List ℕ}
    (h : scanUnits scan s = some (units, t)) (d : ℕ) :
    Reads (scan.nesting d) s t (.outside d) := by
  induction s generalizing scan units with
  | nil =>
    rw [scanUnits] at h
    cases h
  | cons c s ih =>
    refine .cons ?_
    have hmap : ∀ {n : ℕ}, ((scanUnits .plain s).map fun r => (n :: r.1, r.2)) = some (units, t) →
        Reads (.string d) s t (.outside d) := by
      intro n hmap
      obtain ⟨⟨us, t'⟩, hrest, heq⟩ := Option.map_eq_some_iff.mp hmap
      obtain ⟨-, rfl⟩ := Prod.mk.inj heq
      exact @ih .plain us hrest
    cases scan with
    | plain =>
      rw [scanUnits] at h
      rw [StringScan.nesting, Nesting.next]
      split at h
      · rename_i hquote
        obtain ⟨-, rfl⟩ := Prod.mk.inj (Option.some.inj h)
        rw [if_pos hquote]
        exact .refl _ _
      · rename_i hquote
        rw [if_neg hquote]
        split at h
        · rename_i hbackslash
          rw [if_pos hbackslash]
          exact @ih .escaped units h
        · rename_i hbackslash
          rw [if_neg hbackslash]
          split at h
          · cases h
          · exact hmap h
    | escaped =>
      rw [scanUnits] at h
      rw [StringScan.nesting, Nesting.next]
      split at h
      · exact @ih (.hex 3 0) units h
      · split at h
        · cases h
        · exact hmap h
    | hex more n =>
      rw [scanUnits] at h
      rw [StringScan.nesting]
      split at h
      · cases h
      · rename_i v hv
        rw [(next_of_isLiteral (isLiteral_of_hexDigit hv) d).2]
        cases more with
        | zero => exact hmap h
        | succ more => exact @ih (.hex more _) units h

/-- A string that is read has been closed. -/
theorem reads_string {s t : List Char} {str : String} (h : scanString s = some (str, t)) (d : ℕ) :
    Reads (.string d) s t (.outside d) := by
  rw [scanString] at h
  simp only [Option.bind_eq_bind, Option.bind_eq_some_iff] at h
  obtain ⟨⟨units, t'⟩, hunits, chars, -, heq⟩ := h
  obtain ⟨-, rfl⟩ := Prod.mk.inj (Option.some.inj heq)
  exact @reads_units .plain s t' units hunits d

variable (floats) in
/-- With this much fuel, what is scanned leaves the reader where the value ends. -/
structure Nests (fuel : ℕ) : Prop where
  once : ∀ {s t v}, scanOnce floats fuel s = some (v, t) →
    ∀ d, Reads (.outside d) s t (.outside d)
  members : ∀ {s t ms}, scanMembers floats fuel s = some (ms, t) →
    ∀ d, Reads (.outside d) s t (.below d)
  elements : ∀ {s t ds}, scanElements floats fuel s = some (ds, t) →
    ∀ d, Reads (.outside d) s t (.below d)

/-- The step for one value, from the same fuel for its members and elements. -/
theorem Nests.once_step {fuel : ℕ} (h : Nests floats fuel) {s t : List Char} {v : Doc F}
    (hscan : scanOnce floats (fuel + 1) s = some (v, t)) (d : ℕ) :
    Reads (.outside d) s t (.outside d) := by
  rw [scanOnce.eq_def] at hscan
  dsimp only at hscan
  split at hscan
  · obtain ⟨⟨str, t'⟩, hstring, heq⟩ := Option.map_eq_some_iff.mp hscan
    obtain ⟨-, rfl⟩ := Prod.mk.inj heq
    exact .cons (reads_string hstring d)
  · rename_i s
    refine .cons ((reads_skipSpace (d + 1) s).trans ?_)
    split at hscan
    · rename_i hclose
      obtain ⟨-, rfl⟩ := Prod.mk.inj (Option.some.inj hscan)
      rw [hclose]
      exact .cons (.refl _ _)
    · obtain ⟨⟨ms, t'⟩, hmembers, heq⟩ := Option.map_eq_some_iff.mp hscan
      obtain ⟨-, rfl⟩ := Prod.mk.inj heq
      exact h.members hmembers (d + 1)
  · rename_i s
    refine .cons ((reads_skipSpace (d + 1) s).trans ?_)
    split at hscan
    · rename_i hclose
      obtain ⟨-, rfl⟩ := Prod.mk.inj (Option.some.inj hscan)
      rw [hclose]
      exact .cons (.refl _ _)
    · obtain ⟨⟨ds, t'⟩, helements, heq⟩ := Option.map_eq_some_iff.mp hscan
      obtain ⟨-, rfl⟩ := Prod.mk.inj heq
      exact h.elements helements (d + 1)
  · rcases Option.or_eq_some_iff.mp hscan with hconstant | ⟨-, hnumber⟩
    · exact reads_constant hconstant d
    · exact reads_number hnumber d

/-- What follows a value: its bracket, or a comma and more. -/
theorem reads_after {s t : List Char} {close : Char} {d : ℕ}
    (hclose : (Nesting.outside d).next close = .below d)
    (h : skipSpace s = close :: t ∨
      ∃ s', skipSpace s = ',' :: s' ∧ Reads (.outside d) (skipSpace s') t (.below d)) :
    Reads (.outside d) s t (.below d) := by
  refine (reads_skipSpace d s).trans ?_
  rcases h with h | ⟨s', h, hmore⟩
  · rw [h]
    refine .cons ?_
    rw [hclose]
    exact .refl _ _
  · rw [h]
    exact .cons ((reads_skipSpace d s').trans hmore)

/-- The step for the members of an object: they end below its bracket. -/
theorem Nests.members_step {fuel : ℕ} (h : Nests floats fuel) {s t : List Char}
    {ms : List (String × Doc F)} (hscan : scanMembers floats (fuel + 1) s = some (ms, t)) (d : ℕ) :
    Reads (.outside d) s t (.below d) := by
  rw [scanMembers.eq_def] at hscan
  dsimp only at hscan
  split at hscan
  · split at hscan
    · cases hscan
    rename_i hkey
    refine .cons ((reads_string hkey d).trans ((reads_skipSpace d _).trans ?_))
    split at hscan
    · rename_i hcolon
      rw [hcolon]
      split at hscan
      · cases hscan
      rename_i hvalue
      refine .cons ((reads_skipSpace d _).trans ((h.once hvalue d).trans ?_))
      refine @reads_after _ t '}' d rfl ?_
      split at hscan
      · rename_i hclose
        obtain ⟨-, rfl⟩ := Prod.mk.inj (Option.some.inj hscan)
        exact .inl hclose
      · rename_i hcomma
        obtain ⟨⟨ms', t'⟩, hmembers, heq⟩ := Option.map_eq_some_iff.mp hscan
        obtain ⟨-, rfl⟩ := Prod.mk.inj heq
        exact .inr ⟨_, hcomma, h.members hmembers d⟩
      · cases hscan
    · cases hscan
  · cases hscan

/-- The step for the elements of an array: they end below its bracket. -/
theorem Nests.elements_step {fuel : ℕ} (h : Nests floats fuel) {s t : List Char}
    {ds : List (Doc F)} (hscan : scanElements floats (fuel + 1) s = some (ds, t)) (d : ℕ) :
    Reads (.outside d) s t (.below d) := by
  rw [scanElements.eq_def] at hscan
  dsimp only at hscan
  split at hscan
  · cases hscan
  rename_i hvalue
  refine (h.once hvalue d).trans (@reads_after _ t ']' d rfl ?_)
  split at hscan
  · rename_i hclose
    obtain ⟨-, rfl⟩ := Prod.mk.inj (Option.some.inj hscan)
    exact .inl hclose
  · rename_i hcomma
    obtain ⟨⟨ds', t'⟩, helements, heq⟩ := Option.map_eq_some_iff.mp hscan
    obtain ⟨-, rfl⟩ := Prod.mk.inj heq
    exact .inr ⟨_, hcomma, h.elements helements d⟩
  · cases hscan

/-- **What the scanner reads is balanced**, by induction on the fuel. -/
theorem nests (fuel : ℕ) : Nests floats fuel := by
  induction fuel with
  | zero =>
    refine ⟨fun h => ?_, fun h => ?_, fun h => ?_⟩
    all_goals cases h
  | succ fuel ih => exact ⟨ih.once_step, ih.members_step, ih.elements_step⟩

/-- **A text that is accepted is closed**, and nothing follows it. -/
theorem nest_of_loads {s : List Char} {v : Doc F} (h : loads floats ('{' :: s) = some v) :
    nest (.outside 0) s = .closed := by
  rw [loads, skipSpace_cons rfl] at h
  split at h
  · cases h
  rename_i v' rest hscan
  split at h
  · rename_i hspace
    have hreads : Reads (.outside 0) s rest .closed := by
      rw [scanOnce] at hscan
      refine (reads_skipSpace 0 s).trans ?_
      split at hscan
      · rename_i hclose
        obtain ⟨-, rfl⟩ := Prod.mk.inj (Option.some.inj hscan)
        rw [hclose]
        exact .cons (.refl _ _)
      · obtain ⟨⟨ms, t'⟩, hmembers, heq⟩ := Option.map_eq_some_iff.mp hscan
        obtain ⟨-, rfl⟩ := Prod.mk.inj heq
        exact (nests _).members hmembers 0
    obtain ⟨c, rfl, hc⟩ := hreads
    rw [nest_append, hc]
    exact nest_closed hspace
  · cases h

/-! ## Texts -/

/-- A text, as a sequence of strings, of brackets and separators, and of the characters of numbers
and names. -/
inductive Tokens : List Char → Prop where
  | nil : Tokens []
  | char {c : Char} {s : List Char} (hc : isLiteral c = true ∨ c ∈ "[]{},:".toList)
      (hs : Tokens s) : Tokens (c :: s)
  | string (str : String) {s : List Char} (hs : Tokens s) : Tokens (stringText str ++ s)

/-- Two lists of tokens in a row. -/
theorem Tokens.append {s t : List Char} (hs : Tokens s) (ht : Tokens t) : Tokens (s ++ t) := by
  induction hs with
  | nil => exact ht
  | char hc _ ih => exact .char hc ih
  | string str _ ih =>
    rw [List.append_assoc]
    exact .string str ih

/-- A literal is a list of tokens. -/
theorem tokens_literal {s : List Char} (h : ∀ c ∈ s, isLiteral c = true) : Tokens s := by
  induction s with
  | nil => exact .nil
  | cons c s ih =>
    obtain ⟨hc, hs⟩ := List.forall_mem_cons.mp h
    exact .char (.inl hc) (ih hs)

/-- So is the text of a string. -/
theorem tokens_string (str : String) : Tokens (stringText str) := by
  have h := Tokens.string str .nil
  rwa [List.append_nil] at h

/-- A numeral is a literal. -/
theorem isLiteral_toDigits {n : ℕ} : ∀ c ∈ Nat.toDigits 10 n, isLiteral c = true := fun _ hc =>
  isLiteral_of_isDigit (Nat.isDigit_of_mem_toDigits (by decide) (by decide) hc)

/-- So is a sign. -/
theorem isLiteral_signText {negative : Bool} : ∀ c ∈ signText negative, isLiteral c = true := by
  cases negative with
  | false => exact fun _ h => absurd h List.not_mem_nil
  | true => exact List.all_eq_true.mp rfl

/-- So are the names of the special floats. -/
theorem isLiteral_special {name : String} (h : name ∈ specialFloats) :
    ∀ c ∈ name.toList, isLiteral c = true := by
  have hall : ∀ name ∈ specialFloats, name.toList.all isLiteral = true := by decide
  exact List.all_eq_true.mp (hall name h)

/-- The text of an integer is made of tokens. -/
theorem tokens_int (n : ℤ) : Tokens (intText n) := by
  rw [intText_eq]
  exact (tokens_literal isLiteral_signText).append (tokens_literal isLiteral_toDigits)

/-- The text of a float is made of tokens. -/
theorem tokens_float (x : F) : Tokens (floats.repr x) := by
  rcases @repr_cases F floats x with ⟨name, hname, heq⟩ |
    ⟨negative, whole, fraction, exponent, heq, hfraction, hexponent, -⟩
  · rw [heq]
    exact tokens_literal (isLiteral_special hname)
  · have hdigits : ∀ {digits : List Char}, (∀ c ∈ digits, c.isDigit = true) → Tokens digits :=
      fun h => tokens_literal fun c hc => isLiteral_of_isDigit (h c hc)
    have htail : Tokens fraction ∧ Tokens exponent := by
      constructor
      · rcases hfraction with rfl | ⟨digits, rfl, -, h⟩
        · exact .nil
        · exact .char (.inl rfl) (hdigits h)
      · rcases hexponent with rfl | ⟨sign, digits, rfl, hsign, -, h⟩
        · exact .nil
        · refine .char (.inl rfl) (Tokens.append ?_ (hdigits h))
          rcases hsign with rfl | rfl | rfl
          · exact .nil
          · exact .char (.inl rfl) .nil
          · exact .char (.inl rfl) .nil
    rw [heq]
    exact (((tokens_literal isLiteral_signText).append (tokens_literal isLiteral_toDigits)).append
      htail.1).append htail.2

mutual

/-- **A document's text is made of tokens**, by recursion on the document. -/
theorem tokens_text : ∀ d : Doc F, Tokens (text floats d)
  | .null => tokens_literal (List.all_eq_true.mp rfl)
  | .bool true => tokens_literal (List.all_eq_true.mp rfl)
  | .bool false => tokens_literal (List.all_eq_true.mp rfl)
  | .int n => by
    rw [text]
    exact tokens_int n
  | .str s => by
    rw [text]
    exact tokens_string s
  | .any x => by
    rw [text]
    exact tokens_float x
  | .list ds => by
    rw [text]
    exact .char (.inr (by decide)) ((tokens_elements ds).append (.char (.inr (by decide)) .nil))
  | .object ms => by
    rw [text]
    exact .char (.inr (by decide)) ((tokens_members ms).append (.char (.inr (by decide)) .nil))

/-- The elements of a list, the first of them without a comma. -/
theorem tokens_elements : ∀ ds : List (Doc F), Tokens (elementTexts floats ds)
  | [] => .nil
  | d :: ds => by
    rw [elementTexts]
    exact (tokens_text d).append (tokens_moreElements ds)

/-- The further elements of a list. -/
theorem tokens_moreElements : ∀ ds : List (Doc F), Tokens (moreElements floats ds)
  | [] => .nil
  | d :: ds => by
    rw [moreElements]
    exact .char (.inr (by decide)) ((tokens_text d).append (tokens_moreElements ds))

/-- The members of an object, the first of them without a comma. -/
theorem tokens_members : ∀ ms : List (String × Doc F), Tokens (memberTexts floats ms)
  | [] => .nil
  | (key, d) :: ms => by
    rw [memberTexts]
    exact .string key
      (.char (.inr (by decide)) ((tokens_text d).append (tokens_moreMembers ms)))

/-- The further members of an object. -/
theorem tokens_moreMembers : ∀ ms : List (String × Doc F), Tokens (moreMembers floats ms)
  | [] => .nil
  | (key, d) :: ms => by
    rw [moreMembers]
    exact .char (.inr (by decide)) (.string key
      (.char (.inr (by decide)) ((tokens_text d).append (tokens_moreMembers ms))))

end

/-! ### From within a string -/

/-- In a string, or broken. -/
def Swapped (q : Nesting) : Prop := (∃ d, q = .string d) ∨ q = .broken

/-- In no string. -/
def Loose (q : Nesting) : Prop := (∃ d, q = .outside d) ∨ q = .closed ∨ q = .broken

/-- Once broken, a text stays so. -/
theorem nest_broken (s : List Char) : nest .broken s = .broken := by
  induction s with
  | nil => rfl
  | cons c s ih => exact ih

/-- A character between strings, read as one of a string. -/
theorem Swapped.next {q : Nesting} (h : Swapped q) {c : Char}
    (hc : isLiteral c = true ∨ c ∈ "[]{},:".toList) : Swapped (q.next c) := by
  rcases h with ⟨d, rfl⟩ | rfl
  · refine .inl ⟨d, ?_⟩
    rcases hc with hc | hc
    · exact (next_of_isLiteral hc d).2
    · have hplain : "[]{},:".toList.all (fun c => c ≠ '"' && c ≠ '\\') = true := rfl
      have hne := List.all_eq_true.mp hplain c hc
      rw [Bool.and_eq_true, decide_eq_true_eq, decide_eq_true_eq] at hne
      rw [Nesting.next, if_neg hne.1, if_neg hne.2]
  · exact .inr rfl

/-- A quote ends a string. -/
theorem Swapped.next_quote {q : Nesting} (h : Swapped q) : Loose (q.next '"') := by
  rcases h with ⟨d, rfl⟩ | rfl
  · exact .inl ⟨d, rfl⟩
  · exact .inr (.inr rfl)

/-- A quote outside a string begins one. -/
theorem Loose.next_quote {q : Nesting} (h : Loose q) : Swapped (q.next '"') := by
  rcases h with ⟨d, rfl⟩ | rfl | rfl
  · exact .inl ⟨d, rfl⟩
  · exact .inr rfl
  · exact .inr rfl

/-- A character is escaped by a backslash, or stands for itself and is no quote. -/
theorem escape_cases (c : Char) :
    (escape c = [c] ∧ c ≠ '"' ∧ c ≠ '\\') ∨ ∃ s, escape c = '\\' :: s := by
  rw [escape]
  rcases hshort : shortEscape c with _ | e
  · dsimp only
    split
    · refine .inl ⟨rfl, ?_, ?_⟩
      · rintro rfl
        cases hshort
      · rintro rfl
        cases hshort
    · rw [codeUnits]
      split
      · exact .inr ⟨_, rfl⟩
      · exact .inr ⟨_, rfl⟩
  · exact .inr ⟨_, rfl⟩

/-- A character of a string, read as one between strings. -/
theorem Loose.nest_escape {q : Nesting} (h : Loose q) (c : Char) : Loose (nest q (escape c)) := by
  rcases escape_cases c with ⟨heq, hquote, hbackslash⟩ | ⟨s, heq⟩
  · rw [heq]
    rcases h with ⟨d, rfl⟩ | rfl | rfl
    · rw [nest_cons, nest_nil, Nesting.next, if_neg hquote]
      split
      · exact .inl ⟨d + 1, rfl⟩
      split
      · cases d with
        | zero => exact .inr (.inl rfl)
        | succ d => exact .inl ⟨d, rfl⟩
      · exact .inl ⟨d, rfl⟩
    · rw [nest_cons, nest_nil, Nesting.next]
      split
      · exact .inr (.inl rfl)
      · exact .inr (.inr rfl)
    · exact .inr (.inr rfl)
  · have hbroken : q.next '\\' = .broken := by
      rcases h with ⟨d, rfl⟩ | rfl | rfl
      all_goals rfl
    rw [heq, nest_cons, hbroken, nest_broken]
    exact .inr (.inr rfl)

/-- Begun within a string, a string's text ends within one. -/
theorem Swapped.nest_string {q : Nesting} (h : Swapped q) (str : String) :
    Swapped (nest q (stringText str)) := by
  have hcontent : ∀ (cs : List Char) {q : Nesting}, Loose q →
      Loose (nest q (cs.flatMap escape)) := by
    intro cs
    induction cs with
    | nil => exact id
    | cons c cs ih =>
      intro q hq
      rw [List.flatMap_cons, nest_append]
      exact ih (hq.nest_escape c)
  rw [stringText, nest_cons, nest_append]
  exact (hcontent str.toList h.next_quote).next_quote

/-- **From within a string** a text ends in one, or breaks. -/
theorem Swapped.nest_tokens {q : Nesting} (h : Swapped q) {s : List Char} (hs : Tokens s) :
    Swapped (nest q s) := by
  induction hs generalizing q with
  | nil => exact h
  | char hc _ ih => exact ih (h.next hc)
  | string str _ ih =>
    rw [nest_append]
    exact ih (h.nest_string str)

/-! ### Glued texts -/

/-- **A document's text is balanced**: it ends at the depth where it began. -/
theorem nest_text {d : Doc F} (hd : d.DistinctKeys) (n : ℕ) :
    nest (.outside n) (text floats d) = .outside n := by
  have hscan := @scanOnce_text F floats [] d hd ends_nil _ le_rfl
  obtain ⟨c, hc, hn⟩ := (nests _).once hscan n
  rw [List.append_nil, List.append_nil] at hc
  rw [hc]
  exact hn

/-- **A text that is glued onto something else** is not accepted. -/
theorem loads_glued {ms : List (String × Doc F)} (hms : (Doc.object ms).DistinctKeys)
    (s : List Char) : loads floats ('{' :: (s ++ text floats (.object ms))) = none := by
  rcases hloads : loads floats ('{' :: (s ++ text floats (.object ms))) with _ | v
  · rfl
  · exfalso
    have hnest := nest_of_loads hloads
    have htokens := @tokens_text F floats (.object ms)
    rw [nest_append] at hnest
    have hstring : ∀ d, nest (.string d) (text floats (.object ms)) ≠ .closed := by
      intro d h
      rcases (show Swapped (.string d) from .inl ⟨d, rfl⟩).nest_tokens htokens with ⟨d', h'⟩ | h'
      · rw [h] at h'
        cases h'
      · rw [h] at h'
        cases h'
    rcases hq : nest (.outside 0) s with d | d | d | _ | _
    · rw [hq, nest_text hms] at hnest
      cases hnest
    · rw [hq] at hnest
      exact hstring d hnest
    · -- the bracket is what is escaped
      rw [hq] at hnest
      apply hstring d
      rw [text, nest_cons] at hnest ⊢
      exact hnest
    · rw [hq, text, nest_cons, show Nesting.closed.next '{' = .broken from rfl,
        nest_broken] at hnest
      cases hnest
    · rw [hq, nest_broken] at hnest
      cases hnest

/-! ### Characters -/

/-- Only printable ASCII is written. -/
def IsPrintable (c : Char) : Prop := ' ' ≤ c ∧ c ≤ '~'

instance (c : Char) : Decidable (IsPrintable c) := inferInstanceAs (Decidable (_ ∧ _))

/-- Hexadecimal digits are printable. -/
theorem isPrintable_digitChar : ∀ n < 0x10, IsPrintable n.digitChar := by decide

/-- So is a `\u` escape. -/
theorem isPrintable_unicodeEscape (n : ℕ) : ∀ c ∈ unicodeEscape n, IsPrintable c := by
  intro c hc
  simp only [unicodeEscape, List.mem_cons, List.not_mem_nil, or_false] at hc
  rcases hc with rfl | rfl | rfl | rfl | rfl | rfl
  · decide
  · decide
  all_goals exact isPrintable_digitChar _ (Nat.mod_lt _ (by decide))

/-- Whatever the character, what is written for it is printable. -/
theorem isPrintable_escape (c : Char) : ∀ c' ∈ escape c, IsPrintable c' := by
  rw [escape]
  rcases hshort : shortEscape c with _ | e
  · dsimp only
    split
    · rename_i hc
      intro c' hc'
      rw [List.mem_singleton.mp hc']
      exact hc
    · intro c' hc'
      obtain ⟨n, -, hn⟩ := List.mem_flatMap.mp hc'
      exact isPrintable_unicodeEscape n c' hn
  · intro c' hc'
    rw [shortEscape.eq_def] at hshort
    rcases List.mem_cons.mp hc' with rfl | hc'
    · decide
    · rw [List.mem_singleton.mp hc']
      split at hshort
      all_goals cases hshort
      all_goals decide

/-- The characters of literals are printable. -/
theorem isPrintable_of_isLiteral {c : Char} (h : isLiteral c = true) : IsPrintable c := by
  have hcode : ∀ {n m : ℕ}, 0x20 ≤ n → m ≤ 0x7e → n ≤ c.toNat → c.toNat ≤ m → IsPrintable c :=
    fun hn hm hlow hhigh => ⟨hn.trans hlow, hhigh.trans hm⟩
  simp only [isLiteral, Bool.or_eq_true, Bool.and_eq_true, decide_eq_true_eq,
    Char.isDigit_iff_toNat] at h
  rcases h with ((((h | h) | h) | rfl) | rfl) | rfl
  · exact hcode (by decide) (by decide) h.1 h.2
  · exact hcode (by decide) (by decide) h.1 h.2
  · exact hcode (by decide) (by decide) h.1 h.2
  all_goals decide

/-- Tokens are printable. -/
theorem Tokens.isPrintable {s : List Char} (hs : Tokens s) : ∀ c ∈ s, IsPrintable c := by
  induction hs with
  | nil => exact fun _ h => absurd h List.not_mem_nil
  | char hc _ ih =>
    refine List.forall_mem_cons.mpr ⟨?_, ih⟩
    rcases hc with hc | hc
    · exact isPrintable_of_isLiteral hc
    · have hprintable : "[]{},:".toList.all (fun c => decide (IsPrintable c)) = true := rfl
      exact of_decide_eq_true (List.all_eq_true.mp hprintable _ hc)
  | string str _ ih =>
    refine List.forall_mem_append.mpr ⟨?_, ih⟩
    rw [stringText, List.forall_mem_cons, List.forall_mem_append]
    refine ⟨by decide, fun c hc => ?_, List.forall_mem_singleton.mpr (by decide)⟩
    obtain ⟨c', -, hc'⟩ := List.mem_flatMap.mp hc
    exact isPrintable_escape c' c hc'

end

end JsonText

end Unlearning
