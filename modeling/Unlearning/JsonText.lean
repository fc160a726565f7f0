import Mathlib.Data.Nat.Notation
import Unlearning.Doc

/-!
# The text of a JSON document

`dumps` is `json.dumps` with sorted keys, `(",", ":")` for separators and only ASCII; `loads` is
`json.loads`. Both are written as in the library: a document is scanned by its first character,
strings by code units that are joined to characters afterwards, numbers as far as they match.

A float is known by the text that its `repr` gives (`FloatText`). Limits on the depth of a document
and the length of an integer are left out. An escape of half a surrogate pair is refused, since no
`Char` stands for it; `dumps` writes none.
-/

namespace Unlearning

namespace JsonText

/-! ## Writing -/

/-- `ESCAPE_DCT`, without the `\u` escapes. -/
def shortEscape : Char → Option Char
  | '"' => some '"'
  | '\\' => some '\\'
  | '\n' => some 'n'
  | '\r' => some 'r'
  | '\t' => some 't'
  | '\x0c' => some 'f'
  | '\x08' => some 'b'
  | _ => none

/-- `"\\u{0:04x}".format(n)` -/
def unicodeEscape (n : ℕ) : List Char :=
  ['\\', 'u', (n / 0x1000 % 0x10).digitChar, (n / 0x100 % 0x10).digitChar,
    (n / 0x10 % 0x10).digitChar, (n % 0x10).digitChar]

/-- The UTF-16 code units of a character. -/
def codeUnits (c : Char) : List ℕ :=
  if c.toNat < 0x10000 then [c.toNat]
  else [0xd800 + (c.toNat - 0x10000) / 0x400, 0xdc00 + (c.toNat - 0x10000) % 0x400]

/-- `replace`, in `py_encode_basestring_ascii` -/
def escape (c : Char) : List Char :=
  match shortEscape c with
  | some e => ['\\', e]
  | none => if ' ' ≤ c ∧ c ≤ '~' then [c] else (codeUnits c).flatMap unicodeEscape

/-- `encode_basestring_ascii` -/
def stringText (s : String) : List Char := '"' :: (s.toList.flatMap escape ++ ['"'])

/-- `int.__repr__` -/
def intText (n : ℤ) : List Char :=
  if n < 0 then '-' :: Nat.toDigits 10 n.natAbs else Nat.toDigits 10 n.natAbs

/-! ## Numbers -/

/-- `0|[1-9]\d*` -/
def matchWhole : List Char → Option (List Char × List Char)
  | [] => none
  | c :: s =>
    if c = '0' then some (['0'], s)
    else if c.isDigit then some (c :: s.takeWhile Char.isDigit, s.dropWhile Char.isDigit)
    else none

/-- `-?(?:0|[1-9]\d*)` -/
def matchInteger : List Char → Option (List Char × List Char)
  | '-' :: s => (matchWhole s).map fun m => ('-' :: m.1, m.2)
  | s => matchWhole s

/-- `(\.\d+)?` -/
def matchFraction (s : List Char) : List Char × List Char :=
  match s with
  | '.' :: t =>
    let digits := t.takeWhile Char.isDigit
    if digits = [] then ([], s) else ('.' :: digits, t.dropWhile Char.isDigit)
  | _ => ([], s)

/-- `[-+]?` -/
def matchSign : List Char → List Char × List Char
  | '-' :: s => (['-'], s)
  | '+' :: s => (['+'], s)
  | s => ([], s)

/-- `([eE][-+]?\d+)?` -/
def matchExponent (s : List Char) : List Char × List Char :=
  match s with
  | [] => ([], s)
  | e :: t =>
    let digits := (matchSign t).2.takeWhile Char.isDigit
    if (e = 'e' ∨ e = 'E') ∧ digits ≠ [] then
      (e :: ((matchSign t).1 ++ digits), (matchSign t).2.dropWhile Char.isDigit)
    else ([], s)

/-- `int` of the text of an integer. -/
def intValue : List Char → ℤ
  | '-' :: s => -(Nat.ofDigitChars 10 s 0 : ℤ)
  | s => Nat.ofDigitChars 10 s 0

/-- A fraction, if there is one. -/
def IsFraction (s : List Char) : Prop :=
  s = [] ∨ ∃ digits, s = '.' :: digits ∧ digits ≠ [] ∧ ∀ c ∈ digits, c.isDigit = true

/-- An exponent as `repr` writes it, if there is one. -/
def IsExponent (s : List Char) : Prop :=
  s = [] ∨ ∃ sign digits, s = 'e' :: (sign ++ digits) ∧ (sign = [] ∨ sign = ['-'] ∨ sign = ['+']) ∧
    digits ≠ [] ∧ ∀ c ∈ digits, c.isDigit = true

/-- The names of the floats that are not finite. -/
def specialFloats : List String := ["NaN", "Infinity", "-Infinity"]

/-- A float as it is written: a name, or a literal with a fraction or an exponent. -/
def IsFloat (s : List Char) : Prop :=
  (∃ name ∈ specialFloats, s = name.toList) ∨
    ∃ (negative : Bool) (whole : ℕ) (fraction exponent : List Char),
      s = (if negative then ['-'] else []) ++ Nat.toDigits 10 whole ++ fraction ++ exponent ∧
        IsFraction fraction ∧ IsExponent exponent ∧ ¬ (fraction = [] ∧ exponent = [])

end JsonText

/-- The floats, by their texts: `float.__repr__`, and `float` of a text. -/
structure FloatText (F : Type) where
  repr : F → List Char
  read : List Char → F
  /-- `float(repr(x))` is `x` -/
  read_repr : ∀ x, read (repr x) = x
  shape : ∀ x, JsonText.IsFloat (repr x)

namespace JsonText

section

variable {F : Type} (floats : FloatText F)

mutual

/-- The text of a document, in its order. -/
def text : Doc F → List Char
  | .null => "null".toList
  | .bool b => if b then "true".toList else "false".toList
  | .int n => intText n
  | .str s => stringText s
  | .list ds => '[' :: (elementTexts ds ++ [']'])
  | .object ms => '{' :: (memberTexts ms ++ ['}'])
  | .any x => floats.repr x

/-- The elements of a list. -/
def elementTexts : List (Doc F) → List Char
  | [] => []
  | d :: ds => text d ++ moreElements ds

/-- The elements that follow a first one, each after a comma. -/
def moreElements : List (Doc F) → List Char
  | [] => []
  | d :: ds => ',' :: (text d ++ moreElements ds)

/-- The members of an object. -/
def memberTexts : List (String × Doc F) → List Char
  | [] => []
  | (key, d) :: ms => stringText key ++ ':' :: (text d ++ moreMembers ms)

/-- The members that follow a first one, each after a comma. -/
def moreMembers : List (String × Doc F) → List Char
  | [] => []
  | (key, d) :: ms => ',' :: (stringText key ++ ':' :: (text d ++ moreMembers ms))

end

/-- `json.dumps(doc, sort_keys=True, separators=(",", ":"))` -/
def dumps (doc : Doc F) : List Char := text floats (doc.image id)

/-! ## Reading -/

/-- `WHITESPACE` -/
def isSpace (c : Char) : Bool := c = ' ' || c = '\t' || c = '\n' || c = '\r'

/-- The text from its first character that is no white space on. -/
def skipSpace (s : List Char) : List Char := s.dropWhile isSpace

/-- `BACKSLASH` -/
def backslash : Char → Option Char
  | '"' => some '"'
  | '\\' => some '\\'
  | '/' => some '/'
  | 'b' => some '\x08'
  | 'f' => some '\x0c'
  | 'n' => some '\n'
  | 'r' => some '\r'
  | 't' => some '\t'
  | _ => none

/-- `[0-9A-Fa-f]` -/
def hexDigit (c : Char) : Option ℕ :=
  if '0' ≤ c ∧ c ≤ '9' then some (c.toNat - 48)
  else if 'a' ≤ c ∧ c ≤ 'f' then some (c.toNat - 87)
  else if 'A' ≤ c ∧ c ≤ 'F' then some (c.toNat - 55)
  else none

/-- Where the scan of a string is. -/
inductive StringScan : Type where
  | plain
  /-- after a backslash -/
  | escaped
  /-- in a `\u` escape: this many more digits after the next, and the value so far -/
  | hex (more n : ℕ)

/-- `scanstring`: the code units up to the quote, and what follows it. -/
def scanUnits : StringScan → List Char → Option (List ℕ × List Char)
  | _, [] => none
  | .plain, c :: s =>
    if c = '"' then some ([], s)
    else if c = '\\' then scanUnits .escaped s
    else if c < ' ' then none
    else (scanUnits .plain s).map fun r => (c.toNat :: r.1, r.2)
  | .escaped, c :: s =>
    if c = 'u' then scanUnits (.hex 3 0) s
    else match backslash c with
      | none => none
      | some e => (scanUnits .plain s).map fun r => (e.toNat :: r.1, r.2)
  | .hex more n, c :: s => match hexDigit c with
    | none => none
    | some v => match more with
      | 0 => (scanUnits .plain s).map fun r => ((0x10 * n + v) :: r.1, r.2)
      | more + 1 => scanUnits (.hex more (0x10 * n + v)) s

/-- The characters of code units; the two halves of a surrogate pair are one character. -/
def joinUnits : List ℕ → Option (List Char)
  | [] => some []
  | n :: us =>
    if 0xd800 ≤ n ∧ n < 0xdc00 then match us with
      | low :: us =>
        if 0xdc00 ≤ low ∧ low < 0xe000 then
          (joinUnits us).map (Char.ofNat (0x10000 + 0x400 * (n - 0xd800) + (low - 0xdc00)) :: ·)
        else none
      | [] => none
    else if 0xdc00 ≤ n ∧ n < 0xe000 then none
    else (joinUnits us).map (Char.ofNat n :: ·)

/-- A string, after its opening quote. -/
def scanString (s : List Char) : Option (String × List Char) := do
  let (units, rest) ← scanUnits .plain s
  let chars ← joinUnits units
  some (String.ofList chars, rest)

/-- The documents that are names. -/
def constants : List (String × Doc F) :=
  [("null", .null), ("true", .bool true), ("false", .bool false)] ++
    specialFloats.map fun name => (name, .any (floats.read name.toList))

/-- The name that the text starts with. -/
def scanConstant (s : List Char) : Option (Doc F × List Char) :=
  (constants floats).findSome? fun (name, d) =>
    if name.toList.isPrefixOf s then some (d, s.drop name.length) else none

/-- `match_number` -/
def scanNumber (s : List Char) : Option (Doc F × List Char) := do
  let (integer, s) ← matchInteger s
  let (fraction, s) := matchFraction s
  let (exponent, s) := matchExponent s
  if fraction = [] ∧ exponent = [] then some (.int (intValue integer), s)
  else some (.any (floats.read (integer ++ fraction ++ exponent)), s)

/-- `d[key] = value` -/
def put (ms : List (String × Doc F)) (m : String × Doc F) : List (String × Doc F) :=
  if m.1 ∈ ms.map Prod.fst then ms.map fun m' => if m'.1 = m.1 then (m'.1, m.2) else m'
  else ms ++ [m]

/-- The members as they are assigned, one after the other. -/
def assigned (ms : List (String × Doc F)) : Doc F := .object (ms.foldl put [])

mutual

/-- `scan_once`; every step takes fuel. -/
def scanOnce : ℕ → List Char → Option (Doc F × List Char)
  | 0, _ => none
  | fuel + 1, s => match s with
    | '"' :: s => (scanString s).map fun r => (.str r.1, r.2)
    | '{' :: s => match skipSpace s with
      | '}' :: s => some (.object [], s)
      | s => (scanMembers fuel s).map fun r => (assigned r.1, r.2)
    | '[' :: s => match skipSpace s with
      | ']' :: s => some (.list [], s)
      | s => (scanElements fuel s).map fun r => (.list r.1, r.2)
    | s => (scanConstant floats s).or (scanNumber floats s)

/-- `JSONObject`, from the first key on. -/
def scanMembers : ℕ → List Char → Option (List (String × Doc F) × List Char)
  | 0, _ => none
  | fuel + 1, s => match s with
    | '"' :: s => match scanString s with
      | none => none
      | some (key, s) => match skipSpace s with
        | ':' :: s => match scanOnce fuel (skipSpace s) with
          | none => none
          | some (d, s) => match skipSpace s with
            | '}' :: s => some ([(key, d)], s)
            | ',' :: s => (scanMembers fuel (skipSpace s)).map fun r => ((key, d) :: r.1, r.2)
            | _ => none
        | _ => none
    | _ => none

/-- `JSONArray`, from the first element on. -/
def scanElements : ℕ → List Char → Option (List (Doc F) × List Char)
  | 0, _ => none
  | fuel + 1, s => match scanOnce fuel s with
    | none => none
    | some (d, s) => match skipSpace s with
      | ']' :: s => some ([d], s)
      | ',' :: s => (scanElements fuel (skipSpace s)).map fun r => (d :: r.1, r.2)
      | _ => none

end

/-- `json.loads` -/
def loads (s : List Char) : Option (Doc F) :=
  match scanOnce floats (s.length + 1) (skipSpace s) with
  | none => none
  | some (d, rest) => if skipSpace rest = [] then some d else none

end

end JsonText

end Unlearning
