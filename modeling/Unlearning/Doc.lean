import Mathlib.Data.Int.Notation
import Mathlib.Data.List.Nodup
import Mathlib.Data.String.Basic

/-!
# JSON documents

A `Doc` is what `json.dumps` takes: null, booleans, integers, strings, lists, objects with
string keys, and values of a type `A` of which only their image under a round trip is known.
`Doc.image` is the document that `json.loads` gives back of `json.dumps(doc,
sort_keys=True)`: the same tree with sorted members.

A record is written as an object with distinct keys and read back member by member.
`get_members_image` is the rule for that: a member of the object is found in the image,
with its own image. The readers `readStr`, `readInt`, … check the type of a member.
-/

namespace Unlearning

/-- A JSON document. -/
inductive Doc (A : Type) : Type where
  | null : Doc A
  | bool (b : Bool) : Doc A
  | int (n : ℤ) : Doc A
  | str (s : String) : Doc A
  | list (ds : List (Doc A)) : Doc A
  | object (ms : List (String × Doc A)) : Doc A
  /-- a value from elsewhere -/
  | any (a : A) : Doc A

/-- Why a document is not read. -/
inductive ReadError : Type where
  /-- `KeyError` -/
  | missing (key : String) : ReadError
  /-- a member of a type that is not written for it -/
  | illTyped : ReadError
  deriving DecidableEq

namespace Doc

variable {A : Type}

/-- `sort_keys=True` -/
def sortMembers (ms : List (String × Doc A)) : List (String × Doc A) :=
  ms.mergeSort fun a b => a.1 ≤ b.1

mutual

/-- `json.loads(json.dumps(doc, sort_keys=True))` -/
def image (loads : A → A) : Doc A → Doc A
  | .null => .null
  | .bool b => .bool b
  | .int n => .int n
  | .str s => .str s
  | .list ds => .list (images loads ds)
  | .object ms => .object (sortMembers (memberImages loads ms))
  | .any a => .any (loads a)

/-- `image` of the elements of a list. -/
def images (loads : A → A) : List (Doc A) → List (Doc A)
  | [] => []
  | d :: ds => image loads d :: images loads ds

/-- `image` of the values of an object. -/
def memberImages (loads : A → A) : List (String × Doc A) → List (String × Doc A)
  | [] => []
  | (key, d) :: ms => (key, image loads d) :: memberImages loads ms

end

mutual

/-- Whether `json.dumps` takes the document. -/
def dumpable (dumps : A → Bool) : Doc A → Bool
  | .list ds => dumpables dumps ds
  | .object ms => dumpableMembers dumps ms
  | .any a => dumps a
  | .null => true
  | .bool _ => true
  | .int _ => true
  | .str _ => true

/-- `dumpable` of all elements of a list. -/
def dumpables (dumps : A → Bool) : List (Doc A) → Bool
  | [] => true
  | d :: ds => dumpable dumps d && dumpables dumps ds

/-- `dumpable` of all values of an object. -/
def dumpableMembers (dumps : A → Bool) : List (String × Doc A) → Bool
  | [] => true
  | (_, d) :: ms => dumpable dumps d && dumpableMembers dumps ms

end

theorem images_eq_map (loads : A → A) (ds : List (Doc A)) :
    images loads ds = ds.map (image loads) := by
  induction ds with
  | nil => rfl
  | cons d ds ih => rw [images, ih, List.map_cons]

theorem memberImages_eq_map (loads : A → A) (ms : List (String × Doc A)) :
    memberImages loads ms = ms.map fun m => (m.1, image loads m.2) := by
  induction ms with
  | nil => rfl
  | cons m ms ih => rw [memberImages, ih, List.map_cons]

theorem dumpables_eq_all (dumps : A → Bool) (ds : List (Doc A)) :
    dumpables dumps ds = ds.all (dumpable dumps) := by
  induction ds with
  | nil => rfl
  | cons d ds ih => rw [dumpables, ih, List.all_cons]

theorem dumpableMembers_eq_all (dumps : A → Bool) (ms : List (String × Doc A)) :
    dumpableMembers dumps ms = ms.all fun m => dumpable dumps m.2 := by
  induction ms with
  | nil => rfl
  | cons m ms ih => rw [dumpableMembers, ih, List.all_cons]

/-! ## Distinct keys -/

mutual

/-- In every object the keys are distinct, as they are in a dictionary. -/
def DistinctKeys : Doc A → Prop
  | .list ds => AllDistinct ds
  | .object ms => (ms.map Prod.fst).Nodup ∧ MembersDistinct ms
  | .null => True
  | .bool _ => True
  | .int _ => True
  | .str _ => True
  | .any _ => True

/-- `DistinctKeys` of all elements of a list. -/
def AllDistinct : List (Doc A) → Prop
  | [] => True
  | d :: ds => DistinctKeys d ∧ AllDistinct ds

/-- `DistinctKeys` of all values of an object. -/
def MembersDistinct : List (String × Doc A) → Prop
  | [] => True
  | (_, d) :: ms => DistinctKeys d ∧ MembersDistinct ms

end

theorem allDistinct_iff {ds : List (Doc A)} : AllDistinct ds ↔ ∀ d ∈ ds, d.DistinctKeys := by
  induction ds with
  | nil => exact iff_of_true trivial nofun
  | cons d ds ih => rw [AllDistinct, ih, List.forall_mem_cons]

theorem membersDistinct_iff {ms : List (String × Doc A)} :
    MembersDistinct ms ↔ ∀ m ∈ ms, m.2.DistinctKeys := by
  induction ms with
  | nil => exact iff_of_true trivial nofun
  | cons m ms ih => rw [MembersDistinct, ih, List.forall_mem_cons]

/-! ## Members -/

/-- The members of an object. -/
def members : Doc A → Except ReadError (List (String × Doc A))
  | .object ms => .ok ms
  | _ => .error .illTyped

/-- `data.get(key)`: the last member of a name counts. -/
def get (ms : List (String × Doc A)) (key : String) : Option (Doc A) := ms.reverse.lookup key

/-- `data[key]` -/
def require (ms : List (String × Doc A)) (key : String) : Except ReadError (Doc A) :=
  match get ms key with
  | some d => .ok d
  | none => .error (.missing key)

theorem lookup_of_mem {l : List (String × Doc A)} (hnd : (l.map Prod.fst).Nodup) {key : String}
    {d : Doc A} (h : (key, d) ∈ l) : l.lookup key = some d := by
  induction l with
  | nil => cases h
  | cons m l ih =>
    obtain ⟨hm, hl⟩ := List.nodup_cons.mp hnd
    rcases List.mem_cons.mp h with rfl | h
    · exact List.lookup_cons_self
    · have hne : key ≠ m.1 := by
        rintro rfl
        exact hm (List.mem_map.mpr ⟨(m.1, d), h, rfl⟩)
      rw [List.lookup_cons, beq_eq_false_iff_ne.mpr hne]
      exact ih hl h

theorem get_of_mem {ms : List (String × Doc A)} (hnd : (ms.map Prod.fst).Nodup) {key : String}
    {d : Doc A} (h : (key, d) ∈ ms) : get ms key = some d := by
  refine lookup_of_mem ?_ (List.mem_reverse.mpr h)
  rw [List.map_reverse]
  exact List.nodup_reverse.mpr hnd

/-- The members of an object's image. -/
def imageMembers (loads : A → A) (ms : List (String × Doc A)) : List (String × Doc A) :=
  sortMembers (memberImages loads ms)

@[simp] theorem members_image (loads : A → A) (ms : List (String × Doc A)) :
    members (image loads (.object ms)) = .ok (imageMembers loads ms) := by
  rw [image]
  rfl

theorem imageMembers_perm (loads : A → A) (ms : List (String × Doc A)) :
    (imageMembers loads ms).Perm (ms.map fun m => (m.1, image loads m.2)) := by
  rw [imageMembers, memberImages_eq_map]
  exact List.mergeSort_perm _ _

/-- Sorting and reading keep the keys distinct. -/
theorem nodup_keys_imageMembers {loads : A → A} {ms : List (String × Doc A)}
    (h : (ms.map Prod.fst).Nodup) : ((imageMembers loads ms).map Prod.fst).Nodup := by
  rw [((imageMembers_perm loads ms).map Prod.fst).nodup_iff, List.map_map]
  exact h

/-- **Reading a record back**: a member of an object with distinct keys is found in the
image of the object. -/
theorem get_imageMembers {loads : A → A} {ms : List (String × Doc A)}
    (hnd : (ms.map Prod.fst).Nodup) {key : String} {d : Doc A} (h : (key, d) ∈ ms) :
    get (imageMembers loads ms) key = some (image loads d) := by
  exact get_of_mem (nodup_keys_imageMembers hnd)
    ((imageMembers_perm loads ms).mem_iff.mpr (List.mem_map.mpr ⟨(key, d), h, rfl⟩))

theorem mem_of_get {ms : List (String × Doc A)} {key : String} {d : Doc A}
    (h : get ms key = some d) : (key, d) ∈ ms := by
  obtain ⟨before, after, heq, -⟩ := List.lookup_eq_some_iff.mp h
  rw [← List.mem_reverse, heq]
  exact List.mem_append_right before List.mem_cons_self

theorem get_eq_none_iff {ms : List (String × Doc A)} {key : String} :
    get ms key = none ↔ key ∉ ms.map Prod.fst := by
  rw [get, List.lookup_eq_none_iff]
  constructor
  · rintro h hkey
    obtain ⟨m, hm, rfl⟩ := List.mem_map.mp hkey
    exact absurd (h m (List.mem_reverse.mpr hm)) (by simp)
  · intro h m hm
    rw [bne_iff_ne]
    rintro rfl
    exact h (List.mem_map_of_mem (List.mem_reverse.mp hm))

theorem get_imageMembers_eq_none (loads : A → A) {ms : List (String × Doc A)} {key : String} :
    get (imageMembers loads ms) key = none ↔ get ms key = none := by
  rw [get_eq_none_iff, get_eq_none_iff, ((imageMembers_perm loads ms).map Prod.fst).mem_iff,
    List.map_map]
  exact Iff.rfl

mutual

theorem distinctKeys_image (loads : A → A) :
    ∀ d : Doc A, d.DistinctKeys → (d.image loads).DistinctKeys
  | .null, _ => trivial
  | .bool _, _ => trivial
  | .int _, _ => trivial
  | .str _, _ => trivial
  | .any _, _ => trivial
  | .list ds, h => by
    rw [image, images_eq_map, DistinctKeys, allDistinct_iff, List.forall_mem_map]
    exact distinctKeys_images loads ds h
  | .object ms, h => by
    refine ⟨nodup_keys_imageMembers h.1, ?_⟩
    rw [membersDistinct_iff]
    intro m hm
    obtain ⟨m', hm', rfl⟩ := List.mem_map.mp ((imageMembers_perm loads ms).mem_iff.mp hm)
    exact distinctKeys_memberImages loads ms h.2 m' hm'

theorem distinctKeys_images (loads : A → A) :
    ∀ ds : List (Doc A), AllDistinct ds → ∀ d ∈ ds, (d.image loads).DistinctKeys
  | [], _ => nofun
  | d :: ds, h => List.forall_mem_cons.mpr
    ⟨distinctKeys_image loads d h.1, distinctKeys_images loads ds h.2⟩

theorem distinctKeys_memberImages (loads : A → A) :
    ∀ ms : List (String × Doc A), MembersDistinct ms → ∀ m ∈ ms, (m.2.image loads).DistinctKeys
  | [], _ => nofun
  | (_, d) :: ms, h => List.forall_mem_cons.mpr
    ⟨distinctKeys_image loads d h.1, distinctKeys_memberImages loads ms h.2⟩

end

/-! ## Readers -/

/-- `None` as null. -/
def optionDoc {β : Type} (write : β → Doc A) : Option β → Doc A
  | none => .null
  | some b => write b

/-- A text. -/
def readStr : Doc A → Except ReadError String
  | .str s => .ok s
  | _ => .error .illTyped

/-- An integer. -/
def readInt : Doc A → Except ReadError ℤ
  | .int n => .ok n
  | _ => .error .illTyped

/-- A truth value. -/
def readBool : Doc A → Except ReadError Bool
  | .bool b => .ok b
  | _ => .error .illTyped

/-- A list of documents. -/
def readList : Doc A → Except ReadError (List (Doc A))
  | .list ds => .ok ds
  | _ => .error .illTyped

/-- A value from elsewhere. -/
def readAny : Doc A → Except ReadError A
  | .any a => .ok a
  | _ => .error .illTyped

/-- `None` for null. -/
def orNone {β : Type} (read : Doc A → Except ReadError β) : Doc A → Except ReadError (Option β)
  | .null => .ok none
  | d => (read d).map some

/-- A list of strings. -/
def readStrings (doc : Doc A) : Except ReadError (List String) := readList doc >>= List.mapM readStr

/-- A member that has a default. -/
def getD {β : Type} (ms : List (String × Doc A)) (key : String)
    (read : Doc A → Except ReadError β) (default : β) : Except ReadError β :=
  match get ms key with
  | some d => read d
  | none => .ok default

/-- A member that must be there, read back. -/
theorem require_imageMembers {β : Type} {loads : A → A} {ms : List (String × Doc A)}
    (hnd : (ms.map Prod.fst).Nodup) {key : String} (d : Doc A) (h : (key, d) ∈ ms)
    {read : Doc A → Except ReadError β} {b : β} (hread : read (image loads d) = .ok b) :
    (require (imageMembers loads ms) key >>= read) = .ok b := by
  rw [require, get_imageMembers hnd h]
  exact hread

/-- A member with a default, read back. -/
theorem getD_imageMembers {β : Type} {loads : A → A} {ms : List (String × Doc A)}
    (hnd : (ms.map Prod.fst).Nodup) {key : String} (d : Doc A) (h : (key, d) ∈ ms)
    {read : Doc A → Except ReadError β} {b : β} (hread : read (image loads d) = .ok b)
    (default : β) : getD (imageMembers loads ms) key read default = .ok b := by
  rw [getD, get_imageMembers hnd h]
  exact hread

/-- A list of records, each of which is read back. -/
theorem mapM_map_image {β : Type} {loads : A → A} (write : β → Doc A) (f : β → β)
    {read : Doc A → Except ReadError β} {bs : List β}
    (h : ∀ b ∈ bs, read (image loads (write b)) = .ok (f b)) :
    ((bs.map write).map (image loads)).mapM read = .ok (bs.map f) := by
  induction bs with
  | nil => rfl
  | cons b bs ih =>
    rw [List.map_cons, List.map_cons, List.mapM_cons, h b List.mem_cons_self,
      ih fun b' hb' => h b' (List.mem_cons_of_mem b hb')]
    rfl

theorem orNone_readStr_image (loads : A → A) (s : Option String) :
    orNone readStr (image loads (optionDoc .str s)) = .ok s := by
  cases s with
  | none => rfl
  | some s => rfl

theorem readStrings_image (loads : A → A) (strings : List String) :
    readStrings (image loads (.list (strings.map .str))) = .ok strings := by
  have hread : ((strings.map Doc.str).map (image loads)).mapM readStr = .ok (strings.map id) :=
    mapM_map_image Doc.str id fun s _ => rfl
  rw [image, images_eq_map]
  rw [List.map_id] at hread
  exact hread

end Doc

end Unlearning
