import Mathlib.Data.Nat.Digits.Defs
import Unlearning.Bytes
import Unlearning.MatrixAdapters

/-!
# The point ids of a Qdrant server (`integrations/qdrant_adapter.py`, `QdrantSdkClient`)

A Qdrant server keeps its points by number. `_point_id` takes the number that an external id
spells, and of an id that is not made of digits the `hash`, which Python seeds anew in every
process. Upsert, delete and lookup compute it each for itself.

* `StableId`: all three use one number for the id, in whichever processes they run. It is so for the
  texts of digits and for no others.
* `DistinctPoints` and `KeepsOther`: two ids have two points, and the delete of one leaves the point
  of the other. Of decimal ids it is so for those of two numerals (`OtherNumeral`): `"1"` and `"01"`
  are one.

The tables of the interpreter, the hash of a process and the client of the server are parameters.
-/

namespace Unlearning

/-! ## Numerals -/

section Numerals

variable {b : ℕ}

/-- Zeros in front of a numeral add nothing. -/
theorem ofDigits_dropZeros (l : List ℕ) :
    Nat.ofDigits b (l.dropWhile (· = 0)).reverse = Nat.ofDigits b l.reverse := by
  induction l with
  | nil => rfl
  | cons d l ih =>
    by_cases hd : d = 0
    · subst hd
      rw [List.dropWhile_cons_of_pos (by decide), ih, Nat.ofDigits_reverse_zero_cons]
    · rw [List.dropWhile_cons_of_neg (by simpa using hd)]

/-- A numeral is read back from its value, up to zeros in front. -/
theorem reverse_digits_ofDigits (hb : 1 < b) {l : List ℕ} (hl : ∀ d ∈ l, d < b) :
    (b.digits (Nat.ofDigits b l.reverse)).reverse = l.dropWhile (· = 0) := by
  have hlast : ∀ h : (l.dropWhile (· = 0)).reverse ≠ [],
      (l.dropWhile (· = 0)).reverse.getLast h ≠ 0 := by
    intro h
    have hne : l.dropWhile (· = 0) ≠ [] := fun hnil => h (by rw [hnil, List.reverse_nil])
    rw [List.getLast_reverse]
    simpa using List.head_dropWhile_not (fun d : ℕ => decide (d = 0)) hne
  rw [← ofDigits_dropZeros, Nat.digits_ofDigits b hb _ ?_ hlast, List.reverse_reverse]
  intro d hd
  exact hl d ((List.dropWhile_suffix _).subset (List.mem_reverse.mp hd))

theorem ofDigits_reverse_inj (hb : 1 < b) {l l' : List ℕ} (hl : ∀ d ∈ l, d < b)
    (hl' : ∀ d ∈ l', d < b) :
    Nat.ofDigits b l.reverse = Nat.ofDigits b l'.reverse ↔
      l.dropWhile (· = 0) = l'.dropWhile (· = 0) := by
  constructor
  · intro heq
    rw [← reverse_digits_ofDigits hb hl, ← reverse_digits_ofDigits hb hl', heq]
  · intro heq
    rw [← ofDigits_dropZeros l, ← ofDigits_dropZeros l', heq]

end Numerals

/-- The items of a `mapM` that does not raise. -/
theorem getElem?_of_mapM_ok {α β ε : Type} {f : α → Except ε β} {l : List α} {r : List β}
    (h : l.mapM f = .ok r) {i : ℕ} {a : α} (ha : l[i]? = some a) :
    ∃ b, r[i]? = some b ∧ f a = .ok b := by
  induction l generalizing r i with
  | nil => cases ha
  | cons x l ih =>
    rw [List.mapM_cons] at h
    obtain ⟨y, hx, h⟩ := except_bind_eq_ok h
    obtain ⟨ys, hrest, h⟩ := except_bind_eq_ok h
    obtain rfl : y :: ys = r := Except.ok.inj h
    cases i with
    | zero =>
      obtain rfl : x = a := Option.some.inj ha
      exact ⟨y, rfl, hx⟩
    | succ i => exact ih hrest ha

/-! ## The interpreter -/

/-- What may go wrong in a call of the client. -/
inductive PointError : Type where
  /-- `ValueError` of `int`: more digits than the interpreter takes -/
  | exceedsLimit (digits : ℕ) : PointError
  /-- `ValueError` of `int`: no number in base ten -/
  | invalidLiteral (s : String) : PointError
  /-- fewer vectors or payloads than ids -/
  | indexError : PointError
  /-- `next(iter(…))` of no vectors -/
  | stopIteration : PointError
  /-- what `qdrant-client` raises -/
  | client (message : String) : PointError

/-- The Unicode tables of an interpreter, and its `sys.get_int_max_str_digits()`, `0` for no
limit. -/
structure Interpreter where
  /-- `c.isdigit()` -/
  isDigit : Char → Bool
  /-- the value of `c`, for the decimal digits of all scripts -/
  decimal : Char → Option ℕ
  maxStrDigits : ℕ
  decimal_lt : ∀ c d, decimal c = some d → d < 10
  isDigit_of_decimal : ∀ c d, decimal c = some d → isDigit c = true

namespace Interpreter

/-- An interpreter that knows the digits of ASCII. -/
def ascii : Interpreter where
  isDigit := Char.isDigit
  decimal c := if c.isDigit then some (c.toNat - 48) else none
  maxStrDigits := 4300
  decimal_lt c d h := by
    split at h
    · rename_i hc
      obtain rfl : c.toNat - 48 = d := Option.some.inj h
      have hrange : 48 ≤ c.toNat ∧ c.toNat ≤ 57 := Char.isDigit_iff_toNat.mp hc
      omega
    · cases h
  isDigit_of_decimal c d h := by
    split at h
    · assumption
    · cases h

variable (py : Interpreter)

/-- `s.isdigit()` -/
def isdigit (s : String) : Bool := !s.toList.isEmpty && s.toList.all py.isDigit

/-- The decimal digits that `int(s)` reads before it stops, zeros in front included. -/
def digits (s : String) : List ℕ :=
  (s.toList.takeWhile fun c => (py.decimal c).isSome).filterMap py.decimal

/-- The limit allows as many digits as `s` has. -/
def Fits (s : String) : Prop := py.maxStrDigits = 0 ∨ (py.digits s).length ≤ py.maxStrDigits

instance (s : String) : Decidable (py.Fits s) := inferInstanceAs (Decidable (_ ∨ _))

/-- `int(s)` of a text with `s.isdigit()`: no sign, blank or underscore stands in it, but there may
be digits that are not decimal, such as superscripts. -/
def int (s : String) : Except PointError ℕ :=
  if ¬ py.Fits s then .error (.exceedsLimit (py.digits s).length)
  else if (py.digits s).length < s.toList.length then .error (.invalidLiteral s)
  else .ok (Nat.ofDigits 10 (py.digits s).reverse)

/-- `s.isdecimal()` -/
def isdecimal (s : String) : Bool :=
  !s.toList.isEmpty && s.toList.all fun c => (py.decimal c).isSome

/-- The numeral that is written: the digits from the first that is not zero. -/
def numeral (s : String) : List ℕ := (py.digits s).dropWhile (· = 0)

/-- **Two numerals**, or one that is too long for a number. -/
def OtherNumeral (s t : String) : Prop := py.Fits s → py.Fits t → py.numeral s ≠ py.numeral t

instance (s t : String) : Decidable (py.OtherNumeral s t) := inferInstanceAs (Decidable (_ → _ → _))

variable {py}

theorem digits_lt {s : String} : ∀ d ∈ py.digits s, d < 10 := by
  intro d hd
  obtain ⟨c, -, hc⟩ := List.mem_filterMap.mp hd
  exact py.decimal_lt c d hc

theorem isdigit_of_isdecimal {s : String} (h : py.isdecimal s = true) : py.isdigit s = true := by
  rw [isdecimal, Bool.and_eq_true, List.all_eq_true] at h
  rw [isdigit, Bool.and_eq_true, List.all_eq_true]
  refine ⟨h.1, fun c hc => ?_⟩
  obtain ⟨d, hd⟩ := Option.isSome_iff_exists.mp (h.2 c hc)
  exact py.isDigit_of_decimal c d hd

/-- All of a decimal text is read. -/
theorem length_digits {s : String} (h : py.isdecimal s = true) :
    (py.digits s).length = s.toList.length := by
  rw [isdecimal, Bool.and_eq_true, List.all_eq_true] at h
  rw [digits, List.takeWhile_eq_self_iff.mpr h.2]
  exact List.filterMap_length_eq_length.mpr h.2

/-- **What `int` makes of a decimal text.** -/
theorem int_of_isdecimal {s : String} (h : py.isdecimal s = true) :
    py.int s =
      if py.Fits s then .ok (Nat.ofDigits 10 (py.digits s).reverse)
      else .error (.exceedsLimit (py.digits s).length) := by
  have hall : ¬ (py.digits s).length < s.toList.length := by
    rw [length_digits h]
    exact lt_irrefl _
  rw [int, ite_not, if_neg hall]

end Interpreter

/-! ## The client -/

/-- A point to be written: `A` are the values of a payload. -/
structure PointStruct (A : Type) where
  id : ℕ
  vector : Row
  payload : Dict String A

/-- The `vector` of a record that was asked for with its vectors. -/
inductive RecordVector : Type where
  | none : RecordVector
  | plain (v : Row) : RecordVector
  | named (vs : List (String × Row)) : RecordVector

/-- `qdrant_client.QdrantClient`, over the states `σ` of its server, and what is documented of the
requests that return: points are kept by their id. -/
structure QdrantClient (σ A : Type) where
  /-- the points of a collection -/
  points : σ → String → ℕ → Option RecordVector
  upsert : String → List (PointStruct A) → σ → Except PointError Unit × σ
  delete : String → List ℕ → σ → Except PointError Unit × σ
  retrieve : String → List ℕ → σ → Except PointError (List RecordVector)
  points_upsert : ∀ {collection ps st st'}, upsert collection ps st = (.ok (), st') →
    ∀ p ∈ ps, (points st' collection p.id).isSome = true
  points_delete : ∀ {collection ids st st'}, delete collection ids st = (.ok (), st') →
    ∀ n, points st' collection n = if n ∈ ids then none else points st collection n
  retrieve_one : ∀ {collection n st rs}, retrieve collection [n] st = .ok rs →
    rs = (points st collection n).toList

/-- A client whose server is a table, and that does not raise. -/
def QdrantClient.table (A : Type) : QdrantClient (String → ℕ → Option RecordVector) A where
  points st := st
  upsert collection ps st := (.ok (), fun c n =>
    if c = collection then
      ((ps.reverse.find? fun p => p.id = n).map fun p => RecordVector.plain p.vector).or (st c n)
    else st c n)
  delete collection ids st :=
    (.ok (), fun c n => if c = collection ∧ n ∈ ids then none else st c n)
  retrieve collection ids st := .ok (ids.filterMap (st collection))
  points_upsert := by
    rintro collection ps st _ ⟨⟩ p hp
    rcases hfind : ps.reverse.find? (fun p' => p'.id = p.id) with _ | p'
    · simpa using List.find?_eq_none.mp hfind p (List.mem_reverse.mpr hp)
    · simp [hfind]
  points_delete := by
    rintro collection ids st _ ⟨⟩ n
    simp
  retrieve_one := by
    rintro collection n st _ ⟨⟩
    rcases h : st collection n with _ | r <;> simp [h]

namespace QdrantSdkClient

variable {σ A : Type} (client : QdrantClient σ A) (py : Interpreter) (hash : String → ℤ)

/-- `_point_id` -/
def pointId (s : String) : Except PointError ℕ :=
  if py.isdigit s = true then py.int s else .ok ((hash s).natAbs % (2 ^ 63 - 1))

/-- `l[i]` -/
def item {α : Type} (l : List α) (i : ℕ) : Except PointError α :=
  (l[i]?).elim (.error .indexError) .ok

/-- `dict(payloads[i])`, if there are payloads. -/
def payloadAt (payloads : Option (List (Dict String A))) (i : ℕ) :
    Except PointError (Dict String A) :=
  match payloads with
  | none => .ok ∅
  | some dicts => item dicts i

/-- A turn of the loop of `upsert_points`. -/
def pointStruct (vectors : FloatMatrix) (payloads : Option (List (Dict String A))) (pid : String)
    (i : ℕ) : Except PointError (PointStruct A) := do
  let payload ← payloadAt payloads i
  let id ← pointId py hash pid
  let vector ← item vectors.rows i
  return ⟨id, vector, payload⟩

/-- The loop of `upsert_points`. -/
def pointStructs (ids : List String) (vectors : FloatMatrix)
    (payloads : Option (List (Dict String A))) : Except PointError (List (PointStruct A)) :=
  ids.zipIdx.mapM fun x => pointStruct py hash vectors payloads x.1 x.2

/-- `upsert_points` -/
def upsertPoints (collection : String) (ids : List String) (vectors : FloatMatrix)
    (payloads : Option (List (Dict String A))) (st : σ) : Except PointError Unit × σ :=
  match pointStructs py hash ids vectors payloads with
  | .error e => (.error e, st)
  | .ok points => client.upsert collection points st

/-- The ids of a `PointIdsList`. -/
def pointIds (ids : List String) : Except PointError (List ℕ) := ids.mapM (pointId py hash)

/-- `delete_points` -/
def deletePoints (collection : String) (ids : List String) (st : σ) : Except PointError Unit × σ :=
  match pointIds py hash ids with
  | .error e => (.error e, st)
  | .ok points => client.delete collection points st

/-- The end of `get_point_vector`: of named vectors the first. -/
def vectorOf : List RecordVector → Except PointError (Option Row)
  | [] => .ok none
  | .none :: _ => .ok none
  | .plain v :: _ => .ok (some v)
  | .named [] :: _ => .error .stopIteration
  | .named (v :: _) :: _ => .ok (some v.2)

/-- `get_point_vector` -/
def getPointVector (collection pointId : String) (st : σ) : Except PointError (Option Row) := do
  let id ← QdrantSdkClient.pointId py hash pointId
  let pts ← client.retrieve collection [id] st
  vectorOf pts

/-! ### The ids that they use -/

/-- An upsert writes a point of this id for `s`. -/
def UpsertedAs (A : Type) (s : String) (n : ℕ) : Prop :=
  ∃ (ids : List String) (vectors : FloatMatrix) (payloads : Option (List (Dict String A)))
    (points : List (PointStruct A)) (i : ℕ) (p : PointStruct A),
    pointStructs py hash ids vectors payloads = .ok points ∧ ids[i]? = some s ∧
      points[i]? = some p ∧ p.id = n

/-- A delete asks for this id to be deleted for `s`. -/
def DeletedAs (s : String) (n : ℕ) : Prop :=
  ∃ (ids : List String) (points : List ℕ) (i : ℕ),
    pointIds py hash ids = .ok points ∧ ids[i]? = some s ∧ points[i]? = some n

/-- A lookup of `s` asks for this id. -/
def LookedUpAs (s : String) (n : ℕ) : Prop := pointId py hash s = .ok n

/-- **One id in all processes**, for upsert, delete and lookup. -/
def StableId (A : Type) (s : String) : Prop :=
  ∀ (write read : String → ℤ) (n : ℕ),
    (UpsertedAs py write A s n ↔ DeletedAs py read s n) ∧
      (UpsertedAs py write A s n ↔ LookedUpAs py read s n)

/-- **Two points for two ids**, in any processes. -/
def DistinctPoints (s t : String) : Prop :=
  ∀ (one other : String → ℤ) (n : ℕ), pointId py one s = .ok n → pointId py other t ≠ .ok n

/-- **The delete of `s` leaves the point of `t`**, in any processes. -/
def KeepsOther (A : Type) (s t : String) : Prop :=
  ∀ (σ : Type) (client : QdrantClient σ A) (write read : String → ℤ) (collection : String)
    (st st' : σ) (n : ℕ) (r : RecordVector), pointId py write t = .ok n →
    client.points st collection n = some r →
    deletePoints client py read collection [s] st = (.ok (), st') →
      client.points st' collection n = some r

variable {py hash} {s t : String}

theorem pointId_of_not_isdigit (h : py.isdigit s = false) :
    pointId py hash s = .ok ((hash s).natAbs % (2 ^ 63 - 1)) := by
  rw [pointId, if_neg (by simp [h])]

/-- The id of a text of digits is not made of the hash. -/
theorem pointId_of_isdigit (h : py.isdigit s = true) : pointId py hash s = py.int s := if_pos h

theorem pointId_of_isdecimal (h : py.isdecimal s = true) :
    pointId py hash s =
      if py.Fits s then .ok (Nat.ofDigits 10 (py.digits s).reverse)
      else .error (.exceedsLimit (py.digits s).length) := by
  rw [pointId_of_isdigit (Interpreter.isdigit_of_isdecimal h), Interpreter.int_of_isdecimal h]

theorem pointId_of_pointStruct {vectors : FloatMatrix} {payloads : Option (List (Dict String A))}
    {i : ℕ} {p : PointStruct A} (h : pointStruct py hash vectors payloads s i = .ok p) :
    pointId py hash s = .ok p.id := by
  rw [pointStruct] at h
  obtain ⟨payload, -, h⟩ := except_bind_eq_ok h
  obtain ⟨id, hid, h⟩ := except_bind_eq_ok h
  obtain ⟨vector, -, h⟩ := except_bind_eq_ok h
  obtain rfl : (⟨id, vector, payload⟩ : PointStruct A) = p := Except.ok.inj h
  exact hid

/-- The point of an id stands where the id stood. -/
theorem getElem?_of_pointStructs {ids : List String} {vectors : FloatMatrix}
    {payloads : Option (List (Dict String A))} {points : List (PointStruct A)} {i : ℕ}
    (h : pointStructs py hash ids vectors payloads = .ok points) (hs : ids[i]? = some s) :
    ∃ p, points[i]? = some p ∧ pointId py hash s = .ok p.id := by
  have hitem : ids.zipIdx[i]? = some (s, i) := by
    rw [List.getElem?_zipIdx, hs, Option.map_some, Nat.zero_add]
  obtain ⟨p, hp, hstruct⟩ := getElem?_of_mapM_ok h hitem
  exact ⟨p, hp, pointId_of_pointStruct hstruct⟩

theorem upsertedAs_iff {n : ℕ} : UpsertedAs py hash A s n ↔ pointId py hash s = .ok n := by
  constructor
  · rintro ⟨ids, vectors, payloads, points, i, p, hpoints, hs, hp, rfl⟩
    obtain ⟨p', hp', hid⟩ := getElem?_of_pointStructs hpoints hs
    obtain rfl : p = p' := Option.some.inj (hp.symm.trans hp')
    exact hid
  · intro hid
    refine ⟨[s], ⟨0, [[]], by simp⟩, none, [⟨n, [], ∅⟩], 0, ⟨n, [], ∅⟩, ?_, rfl, rfl, rfl⟩
    simp only [pointStructs, pointStruct, List.zipIdx_cons, List.zipIdx_nil, List.mapM_cons, hid,
      List.mapM_nil]
    rfl

theorem pointIds_singleton : pointIds py hash [s] = (pointId py hash s).map fun n => [n] := by
  rw [pointIds, List.mapM_cons]
  rcases pointId py hash s with e | n
  · rfl
  · rfl

theorem deletedAs_iff {n : ℕ} : DeletedAs py hash s n ↔ pointId py hash s = .ok n := by
  constructor
  · rintro ⟨ids, points, i, hpoints, hs, hn⟩
    obtain ⟨n', hn', hid⟩ := getElem?_of_mapM_ok hpoints hs
    obtain rfl : n = n' := Option.some.inj (hn.symm.trans hn')
    exact hid
  · intro hid
    refine ⟨[s], [n], 0, ?_, rfl, rfl⟩
    rw [pointIds_singleton, hid]
    rfl

/-- Both requests ask for the id that `_point_id` makes in their process. -/
theorem stableId_iff_forall :
    StableId py A s ↔ ∀ write read : String → ℤ, ∀ n,
      pointId py write s = .ok n ↔ pointId py read s = .ok n := by
  simp only [StableId, upsertedAs_iff, deletedAs_iff, LookedUpAs, and_self]

/-- **Texts of digits have one id, and no others have.** -/
theorem stableId_iff : StableId py A s ↔ py.isdigit s = true := by
  rw [stableId_iff_forall]
  constructor
  · intro hall
    by_contra hno
    have hno : py.isdigit s = false := by simpa using hno
    -- hash seeds that make `0` and `1` of the text
    have hzero := (hall (fun _ => 0) (fun _ => 1) 0).mp (pointId_of_not_isdigit hno)
    rw [pointId_of_not_isdigit hno] at hzero
    exact absurd (Except.ok.inj hzero) (by decide)
  · intro hdigits write read n
    rw [pointId_of_isdigit hdigits, pointId_of_isdigit hdigits]

/-- **When two decimal ids share a point id.** -/
theorem shared_iff (hs : py.isdecimal s = true) (ht : py.isdecimal t = true) :
    (∃ one other : String → ℤ, ∃ n, pointId py one s = .ok n ∧ pointId py other t = .ok n) ↔
      ¬ py.OtherNumeral s t := by
  rw [Interpreter.OtherNumeral]
  push Not
  constructor
  · rintro ⟨one, other, n, hone, hother⟩
    rw [pointId_of_isdecimal hs] at hone
    rw [pointId_of_isdecimal ht] at hother
    split at hone
    · rename_i hfits
      split at hother
      · rename_i hfits'
        refine ⟨hfits, hfits', (ofDigits_reverse_inj (by decide) Interpreter.digits_lt
          Interpreter.digits_lt).mp ?_⟩
        exact Except.ok.inj (hone.trans hother.symm)
      · cases hother
    · cases hone
  · rintro ⟨hfits, hfits', hnumeral⟩
    refine ⟨fun _ => 0, fun _ => 0, _, (pointId_of_isdecimal hs).trans (if_pos hfits), ?_⟩
    rw [pointId_of_isdecimal ht, if_pos hfits']
    exact congrArg _ ((ofDigits_reverse_inj (by decide) Interpreter.digits_lt
      Interpreter.digits_lt).mpr hnumeral).symm

theorem distinctPoints_iff (hs : py.isdecimal s = true) (ht : py.isdecimal t = true) :
    DistinctPoints py s t ↔ py.OtherNumeral s t := by
  rw [← not_iff_not, ← shared_iff hs ht, DistinctPoints]
  push Not
  exact Iff.rfl

/-- A delete that returns takes the point of its id away, and no other. -/
theorem points_deletePoints {σ : Type} {client : QdrantClient σ A} {collection : String}
    {st st' : σ} (h : deletePoints client py hash collection [s] st = (.ok (), st')) :
    ∃ m, pointId py hash s = .ok m ∧ ∀ n, client.points st' collection n =
      if n = m then none else client.points st collection n := by
  rw [deletePoints, pointIds_singleton] at h
  rcases hid : pointId py hash s with e | m
  · rw [hid] at h
    cases h
  · rw [hid] at h
    refine ⟨m, rfl, fun n => ?_⟩
    have hdelete : client.delete collection [m] st = (.ok (), st') := h
    simpa only [List.mem_singleton] using client.points_delete hdelete n

theorem keepsOther_iff (hs : py.isdecimal s = true) (ht : py.isdecimal t = true) :
    KeepsOther py A s t ↔ py.OtherNumeral s t := by
  rw [← distinctPoints_iff hs ht]
  constructor
  · -- a table with the point of `t` alone
    intro hkeeps one other n hone hother
    have hkept := hkeeps _ (QdrantClient.table A) other one "" (fun _ _ => some (.plain []))
      _ n (.plain []) hother rfl (by
        rw [deletePoints, pointIds_singleton, hone]
        rfl)
    exact absurd hkept (by simp [QdrantClient.table])
  · intro hdistinct σ client write read collection st st' n r hwrite hpoint hdelete
    obtain ⟨m, hread, hpoints⟩ := points_deletePoints hdelete
    rw [hpoints, if_neg, hpoint]
    rintro rfl
    exact hdistinct read write n hread hwrite

/-! ### What a stable id is for -/

section Digits

variable {σ : Type} {client : QdrantClient σ A} {collection : String} {st st' : σ}

/-- **Written in one process, found in another.** -/
theorem upsertPoints_found (hdigits : py.isdigit s = true) {ids : List String}
    {vectors : FloatMatrix} {payloads : Option (List (Dict String A))} (hs : s ∈ ids)
    (h : upsertPoints client py hash collection ids vectors payloads st = (.ok (), st'))
    (read : String → ℤ) :
    ∃ n, LookedUpAs py read s n ∧ (client.points st' collection n).isSome = true := by
  rw [upsertPoints] at h
  rcases hpoints : pointStructs py hash ids vectors payloads with e | points
  · rw [hpoints] at h
    cases h
  · rw [hpoints] at h
    obtain ⟨i, hi, hget⟩ := List.getElem_of_mem hs
    have hitem : ids[i]? = some s := by rw [List.getElem?_eq_getElem hi, hget]
    obtain ⟨p, hp, -⟩ := getElem?_of_pointStructs hpoints hitem
    have hwrite : UpsertedAs py hash A s p.id :=
      ⟨ids, vectors, payloads, points, i, p, hpoints, hitem, hp, rfl⟩
    exact ⟨p.id, (stableId_iff.mpr hdigits hash read p.id).2.mp hwrite,
      client.points_upsert h p (List.mem_of_getElem? hp)⟩

/-- **Deleted in one process, gone for another.** -/
theorem getPointVector_of_deleted (hdigits : py.isdigit s = true)
    (h : deletePoints client py hash collection [s] st = (.ok (), st')) {read : String → ℤ}
    {v : Option Row} (hget : getPointVector client py read collection s st' = .ok v) :
    v = none := by
  obtain ⟨m, hid, hpoints⟩ := points_deletePoints h
  rw [pointId_of_isdigit hdigits] at hid
  rw [getPointVector, pointId_of_isdigit hdigits] at hget
  obtain ⟨n, hn, hlookup⟩ := except_bind_eq_ok hget
  obtain rfl : m = n := Except.ok.inj (hid.symm.trans hn)
  obtain ⟨pts, hpts, hvector⟩ := except_bind_eq_ok hlookup
  have hnone : pts = [] := by
    rw [client.retrieve_one hpts, hpoints, if_pos rfl, Option.toList_none]
  rw [hnone] at hvector
  exact (Except.ok.inj hvector).symm

end Digits

end QdrantSdkClient

open QdrantSdkClient in
/-- **Point ids are stable for texts of digits, and distinct for distinct numerals**, and only for
those. -/
theorem pointId_iff (A : Type) (py : Interpreter) :
    (∀ s, StableId py A s ↔ py.isdigit s = true) ∧
      ∀ s t, py.isdecimal s = true → py.isdecimal t = true → s ≠ t →
        (DistinctPoints py s t ↔ py.OtherNumeral s t) ∧
          (KeepsOther py A s t ↔ py.OtherNumeral s t) :=
  ⟨fun _ => stableId_iff, fun _ _ hs ht _ => ⟨distinctPoints_iff hs ht, keepsOther_iff hs ht⟩⟩

open QdrantSdkClient in
theorem pointId_iff_seven :
    StableId .ascii String "7" ∧ DistinctPoints .ascii "7" "70" ∧
      KeepsOther .ascii String "7" "70" :=
  have hiff := pointId_iff String .ascii
  have hpair := hiff.2 "7" "70" (by decide) (by decide) (by decide)
  ⟨(hiff.1 "7").mpr (by decide), hpair.1.mpr (by decide), hpair.2.mpr (by decide)⟩

open QdrantSdkClient in
/-- An id of letters has one point id where its hash is `0` and another where it is `1`; and the ids
`1` and `01` are one point, which the delete of either takes away. -/
theorem pointId_unstable :
    ¬ StableId .ascii String "ann" ∧
      Interpreter.ascii.isdecimal "1" = true ∧ Interpreter.ascii.isdecimal "01" = true ∧
        "1" ≠ "01" ∧ ¬ DistinctPoints .ascii "1" "01" ∧ ¬ KeepsOther .ascii String "1" "01" := by
  have hone : Interpreter.ascii.isdecimal "1" = true := by decide
  have hzero : Interpreter.ascii.isdecimal "01" = true := by decide
  refine ⟨fun hstable => ?_, hone, hzero, by decide, fun hdistinct => ?_, fun hkeeps => ?_⟩
  · exact absurd (stableId_iff.mp hstable) (by decide)
  · exact absurd ((distinctPoints_iff hone hzero).mp hdistinct) (by decide)
  · exact absurd ((keepsOther_iff hone hzero).mp hkeeps) (by decide)

end Unlearning
