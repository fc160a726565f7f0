import Unlearning.Collections
import Unlearning.HnswlibAdapter

/-!
# Registration and ingest (`api/main.py`)

`POST /v1/ids/register` and `POST /v1/vectors/ingest` check the lengths, and then register the ids
one by one. What raises in the middle of the loop, or after it, leaves the ids before it registered.

* `Maps` and `Refuses`: an id that is mapped already, and one that `register` raises for; any other
  is new;
* `registerAll_same_iff`: the loop leaves the mappings as they were exactly if it comes to no new
  id (`NothingNew`), however it ends;
* `IdCall.unchanged_iff`: the rejected requests that change nothing.

The metrics of `ingest_vectors` are left out.
-/

namespace Unlearning

open PyText

/-- `RegisterIdsRequest` -/
structure RegisterIdsRequest where
  collection : String
  ids : List String
  labels : Option (List ℤ)
  collection_ne : collection ≠ ""
  ids_ne : ids ≠ []

/-- `IngestVectorsRequest`; the components are the `float32` that NumPy makes of them. -/
structure IngestVectorsRequest where
  collection : String
  ids : List String
  vectors : List Row
  labels : Option (List ℤ)
  replaceIndex : Bool
  checkpoint : Bool
  collection_ne : collection ≠ ""
  ids_ne : ids ≠ []
  vectors_ne : vectors ≠ []

/-- The dictionary `register_ids` returns. -/
structure RegisterIdsResponse where
  collection : String
  mapping : Dict String ℤ

/-- The dictionary `ingest_vectors` returns. -/
structure IngestVectorsResponse where
  collection : String
  count : ℕ
  dim : ℕ
  mapping : Dict String ℤ
  indexLoaded : Bool
  checkpointed : Bool

/-- How a handler ends if it does not return: an `HTTPException`, or another exception. -/
inductive HandlerExit : Type where
  | http (status : ℕ) (detail : String)
  | uncaught

/-- A 4xx answer. -/
def HandlerExit.IsClientError : HandlerExit → Prop
  | http status _ => 400 ≤ status ∧ status < 500
  | uncaught => False

/-- What the two handlers read and write. -/
structure ApiState where
  registry : Registry
  world : NativeWorld
  /-- `id_registry.json`, if it can be loaded -/
  registryFile : Option Registry.Payload

/-! ## The handlers -/

/-- The ids of a body, with the labels asked for. -/
def askedLabels (ids : List String) : Option (List ℤ) → List (String × Option ℤ)
  | none => ids.map fun eid => (eid, none)
  | some labels => (ids.zip labels).map fun p => (p.1, some p.2)

/-- The loop of both handlers. -/
def registerAll (printable : Char → Bool) (collection : String) :
    List (String × Option ℤ) → Dict String ℤ → Registry →
      Except RegistryError (Dict String ℤ) × Registry
  | [], mapping, reg => (.ok mapping, reg)
  | (eid, label) :: rest, mapping, reg =>
    match reg.register printable collection eid label with
    | (.error e, reg) => (.error e, reg)
    | (.ok label, reg) => registerAll printable collection rest (mapping.insert eid label) reg

/-- `id_registry.save`. Its `OSError` is logged; it leaves what it leaves of the file. -/
def ApiState.saveRegistry (writeFails : Option (Option Registry.Payload)) (st : ApiState) :
    ApiState :=
  { st with registryFile := writeFails.getD (some st.registry.save) }

/-- The labels are as many as the ids, or there are none. -/
def labelsFit (ids : List String) (labels : Option (List ℤ)) : Bool :=
  labels.all fun labels => labels.length = ids.length

/-- `register_ids` -/
def registerIds (printable : Char → Bool) (writeFails : Option (Option Registry.Payload))
    (body : RegisterIdsRequest) (st : ApiState) :
    Except HandlerExit RegisterIdsResponse × ApiState :=
  if !labelsFit body.ids body.labels then
    (.error (.http 400 "ids and labels length mismatch"), st)
  else
    match registerAll printable body.collection (askedLabels body.ids body.labels) ∅
        st.registry with
    | (.error e, reg) => (.error (.http 400 (e.text printable)), { st with registry := reg })
    | (.ok mapping, reg) =>
      (.ok ⟨body.collection, mapping⟩, { st with registry := reg }.saveRegistry writeFails)

/-- `np.asarray(body.vectors).shape[1]`; rows of different lengths are no array. -/
def commonWidth (vectors : List Row) : Option ℕ :=
  let d := (vectors.head?.map List.length).getD 0
  if vectors.all fun row => row.length = d then some d else none

/-- `np.array([mapping[str(i)] for i in body.ids], dtype=np.int64)` -/
def labelsArray (ids : List String) (mapping : Dict String ℤ) : Option (List ℤ) :=
  let labels := ids.map fun eid => (mapping.lookup eid).getD 0
  if labels.all fun lab => -2 ^ 63 ≤ lab && lab < 2 ^ 63 then some labels else none

/-- `dense[int(lab)] = row` for every row; a negative label counts from the end. -/
def fillDense : List (ℤ × Row) → List Row → Option (List Row)
  | [], dense => some dense
  | (lab, row) :: rest, dense =>
    let i := if lab < 0 then lab + dense.length else lab
    if 0 ≤ i ∧ i < dense.length then fillDense rest (dense.set i.toNat row) else none

/-- The matrix with a row for every label up to the greatest. -/
def denseRows (d : ℕ) (labels : List ℤ) (vecs : List Row) : Option (List Row) :=
  let size := (labels.max?.getD (-1)) + 1
  if size < 0 then none
  else fillDense (labels.zip vecs) (List.replicate size.toNat (List.replicate d 0))

/-- The matrix that replaces the index: the rows by label, if the labels are `0 … n - 1`. -/
def replacingRows (d : ℕ) (labels : List ℤ) (vecs : List Row) : Option (List Row) :=
  let n := vecs.length
  let isRange := (labels.all fun lab => 0 ≤ lab && lab < n) &&
    (List.range n).all fun i => (i : ℤ) ∈ labels
  if (labels.max?.getD (-1)) + 1 ≠ n || !isRange then denseRows d labels vecs
  else some (((labels.zip vecs).mergeSort fun a b => a.1 ≤ b.1).map Prod.snd)

section Ingest

variable (H : Sha256) (D : Type) [FloatArith D] (retries : ℕ) (printable : Char → Bool)
  (writeFails : Option (Option Registry.Payload))

/-- `load_index` and the ring, on the default index. -/
def NativeWorld.loadRing (d : ℕ) (rows : List Row) (w : NativeWorld) :
    Except NativeError Unit × NativeWorld :=
  let (result, live) := w.store.live.loadRing (w.envs 0).native d rows
  (result, w.tick { w.store with live := live })

/-- `get_engine().save_initial_checkpoint()` -/
def NativeWorld.saveCheckpoint (w : NativeWorld) : Except PyError Unit × NativeWorld :=
  match (saveInitialCheckpoint retries).finish (machine H D) 0 w.envs w.store with
  | some (result, s, envs) => (result, ⟨s, envs⟩)
  -- not reached: between calls the lock is free
  | none => (.error (.runtimeError "blocked"), w)

/-- The end of `ingest_vectors`, with the matrix to load. -/
def ingestRows (body : IngestVectorsRequest) (d : ℕ) (mapping : Dict String ℤ) (rows : List Row)
    (st : ApiState) : Except HandlerExit IngestVectorsResponse × ApiState :=
  match st.world.loadRing d rows with
  | (.error _, w) => (.error .uncaught, { st with world := w })
  | (.ok (), w) =>
    match if body.checkpoint then w.saveCheckpoint H D retries else (.ok (), w) with
    | (.error _, w) => (.error .uncaught, { st with world := w })
    | (.ok (), w) =>
      (.ok ⟨body.collection, body.vectors.length, d, mapping, w.store.live.isLoaded,
        body.checkpoint⟩, { st with world := w }.saveRegistry writeFails)

/-- `ingest_vectors` -/
def ingestVectors (body : IngestVectorsRequest) (st : ApiState) :
    Except HandlerExit IngestVectorsResponse × ApiState :=
  if body.ids.length ≠ body.vectors.length then
    (.error (.http 400 "ids and vectors length mismatch"), st)
  else if !labelsFit body.ids body.labels then
    (.error (.http 400 "ids and labels length mismatch"), st)
  else match commonWidth body.vectors with
  | none => (.error .uncaught, st)
  | some d =>
    match registerAll printable body.collection (askedLabels body.ids body.labels) ∅
        st.registry with
    | (.error e, reg) => (.error (.http 400 (e.text printable)), { st with registry := reg })
    | (.ok mapping, reg) =>
      let st := { st with registry := reg }
      match labelsArray body.ids mapping with
      | none => (.error .uncaught, st)
      | some labels =>
        if !body.replaceIndex && st.world.store.live.isLoaded then
          (.error (.http 409 ("append to non-empty native index not supported; " ++
            "use replace_index=true or adapters")), st)
        else
          match if body.replaceIndex then replacingRows d labels body.vectors
            else denseRows d labels body.vectors with
          | none => (.error .uncaught, st)
          | some rows => ingestRows H D retries writeFails body d mapping rows st

end Ingest

/-- A request to one of the two endpoints. -/
inductive IdCall : Type where
  | registerIds (body : RegisterIdsRequest) : IdCall
  | ingestVectors (body : IngestVectorsRequest) : IdCall

namespace IdCall

/-- The collection of the body. -/
def collection : IdCall → String
  | registerIds body => body.collection
  | ingestVectors body => body.collection

/-- The ids to register, with the labels asked for. -/
def asked : IdCall → List (String × Option ℤ)
  | registerIds body => askedLabels body.ids body.labels
  | ingestVectors body => askedLabels body.ids body.labels

/-- The lengths that are checked first agree. -/
def LengthsAgree : IdCall → Prop
  | registerIds body => labelsFit body.ids body.labels = true
  | ingestVectors body => body.ids.length = body.vectors.length ∧
      labelsFit body.ids body.labels = true

/-- What the call raises, if it does, and the state it leaves. -/
def answer (H : Sha256) (D : Type) [FloatArith D] (retries : ℕ) (printable : Char → Bool)
    (writeFails : Option (Option Registry.Payload)) (st : ApiState) :
    IdCall → Option HandlerExit × ApiState
  | registerIds body => match Unlearning.registerIds printable writeFails body st with
    | (.error e, st) => (some e, st)
    | (.ok _, st) => (none, st)
  | ingestVectors body =>
    match Unlearning.ingestVectors H D retries printable writeFails body st with
    | (.error e, st) => (some e, st)
    | (.ok _, st) => (none, st)

end IdCall

/-! ## The loop -/

namespace Registry

/-- The counter of a collection. -/
def counter (reg : Registry) (coll : String) : ℤ := (reg.nextLabel.lookup coll).getD 0

/-- The same mappings on both sides, and the same counters. -/
structure SameMappings (reg reg' : Registry) : Prop where
  label : ∀ c e, reg'.label? c e = reg.label? c e
  external : ∀ c l, reg'.external? c l = reg.external? c l
  counter : ∀ c, reg'.counter c = reg.counter c

/-- The id is mapped already, and not to another label than the one asked for. -/
def Maps (reg : Registry) (coll ext : String) (label : Option ℤ) : Prop :=
  coll ≠ "" ∧ ext ≠ "" ∧ ∃ existing, reg.label? coll ext = some existing ∧
    (label = none ∨ label = some existing)

/-- `register` raises: the id is blank or mapped to another label, or its label is in use. -/
def Refuses (reg : Registry) (coll ext : String) (label : Option ℤ) : Prop :=
  coll = "" ∨ ext = "" ∨
    (∃ existing, reg.label? coll ext = some existing ∧
      ¬ (label = none ∨ label = some existing)) ∨
    reg.label? coll ext = none ∧ ∃ l owner, label = some l ∧ reg.external? coll l = some owner

/-- In the order of the batch, every id up to the first that is refused is mapped already. -/
def NothingNew (reg : Registry) (coll : String) : List (String × Option ℤ) → Prop
  | [] => True
  | (eid, label) :: rest => reg.Refuses coll (strip eid) label ∨
      reg.Maps coll (strip eid) label ∧ reg.NothingNew coll rest

variable {printable : Char → Bool} {reg reg' reg'' : Registry}

@[simp]
theorem counter_ensureCollection (coll c : String) :
    (reg.ensureCollection coll).counter c = reg.counter c := by
  show ((reg.nextLabel.setDefault coll 0).lookup c).getD 0 = _
  rw [Dict.setDefault, counter]
  by_cases hk : coll ∈ reg.nextLabel
  · rw [if_pos hk]
  · rw [if_neg hk]
    by_cases hc : c = coll
    · rw [hc, AList.lookup_insert, AList.lookup_eq_none.mpr hk]
      rfl
    · rw [AList.lookup_insert_ne hc]

theorem SameMappings.refl (reg : Registry) : SameMappings reg reg :=
  ⟨fun _ _ => rfl, fun _ _ => rfl, fun _ => rfl⟩

/-- A collection that is new, and empty, maps nothing. -/
theorem sameMappings_ensureCollection (reg : Registry) (coll : String) :
    SameMappings reg (reg.ensureCollection coll) :=
  ⟨label?_ensureCollection coll, external?_ensureCollection coll, counter_ensureCollection coll⟩

theorem SameMappings.symm (h : SameMappings reg reg') : SameMappings reg' reg :=
  ⟨fun c e => (h.label c e).symm, fun c l => (h.external c l).symm, fun c => (h.counter c).symm⟩

theorem SameMappings.trans (h : SameMappings reg reg') (h' : SameMappings reg' reg'') :
    SameMappings reg reg'' :=
  ⟨fun c e => (h'.label c e).trans (h.label c e),
    fun c l => (h'.external c l).trans (h.external c l),
    fun c => (h'.counter c).trans (h.counter c)⟩

theorem nothingNew_congr (h : SameMappings reg reg') (coll : String)
    (pairs : List (String × Option ℤ)) :
    reg'.NothingNew coll pairs ↔ reg.NothingNew coll pairs := by
  induction pairs with
  | nil => exact Iff.rfl
  | cons pair rest ih =>
    rw [NothingNew, NothingNew, ih, Refuses, Refuses, Maps, Maps, h.label]
    simp only [h.external]

/-- `register` keeps what is mapped. -/
theorem register_keeps {coll eid c e : String} {label : Option ℤ} {l : ℤ}
    (h : reg.label? c e = some l) :
    (reg.register printable coll eid label).2.label? c e = some l := by
  have hregistering := @registering printable reg coll eid label
  revert hregistering
  rcases reg.register printable coll eid label with ⟨result, reg'⟩
  rintro (⟨message, hblank⟩ | ⟨-, existing, hmapped, -⟩ | ⟨-, existing, message, -, -⟩ |
    ⟨-, label, next, hnew, -⟩ | ⟨-, label, owner, message, -, -, -⟩)
  · exact h
  · exact (label?_ensureCollection _ _ _).trans h
  · exact (label?_ensureCollection _ _ _).trans h
  · have hne : ¬ (c = strip coll ∧ e = strip eid) := by
      rintro ⟨rfl, rfl⟩
      rw [hnew] at h
      cases h
    rw [label?_assign, if_neg hne, label?_ensureCollection]
    exact h
  · exact (label?_ensureCollection _ _ _).trans h

end Registry

open Registry

variable {printable : Char → Bool} {coll : String}

/-- The loop keeps what is mapped. -/
theorem registerAll_keeps {c e : String} {l : ℤ} (pairs : List (String × Option ℤ))
    (mapping : Dict String ℤ) {reg : Registry} (h : reg.label? c e = some l) :
    (registerAll printable coll pairs mapping reg).2.label? c e = some l := by
  induction pairs generalizing mapping reg with
  | nil => exact h
  | cons pair rest ih =>
    have hkept := @register_keeps printable reg coll pair.1 c e pair.2 l h
    rw [registerAll]
    revert hkept
    rcases reg.register printable coll pair.1 pair.2 with ⟨e' | label, reg'⟩
    · exact id
    · exact ih _

/-- **The loop leaves the mappings as they were** exactly if it comes to no new id. -/
theorem registerAll_same_iff (pairs : List (String × Option ℤ)) (mapping : Dict String ℤ)
    (reg : Registry) :
    SameMappings reg (registerAll printable coll pairs mapping reg).2 ↔
      reg.NothingNew (strip coll) pairs := by
  induction pairs generalizing mapping reg with
  | nil => exact iff_of_true (.refl reg) trivial
  | cons pair rest ih =>
    obtain ⟨eid, label⟩ := pair
    have hregistering := @registering printable reg coll eid label
    have hsame := sameMappings_ensureCollection reg (strip coll)
    rw [registerAll, NothingNew]
    revert hregistering
    rcases reg.register printable coll eid label with ⟨result, reg'⟩
    rintro (⟨message, hblank⟩ | ⟨⟨hc, he⟩, existing, hmapped, hlabel⟩ |
      ⟨-, existing, message, hmapped, hlabel⟩ | ⟨⟨hc, he⟩, l, next, hnew, hlabel⟩ |
      ⟨-, l, owner, message, hnew, hlabel, howner⟩)
    · refine iff_of_true (.refl reg) (.inl ?_)
      rcases hblank with hc | he
      · exact .inl hc
      · exact .inr (.inl he)
    · -- an id that is mapped already: the rest decides
      have hnot : ¬ reg.Refuses (strip coll) (strip eid) label := by
        rintro (h | h | ⟨existing', h, hother⟩ | ⟨h, -⟩)
        · exact hc h
        · exact he h
        · obtain rfl := Option.some.inj (hmapped.symm.trans h)
          exact hother hlabel
        · rw [hmapped] at h
          cases h
      rw [or_iff_right hnot, and_iff_right ⟨hc, he, existing, hmapped, hlabel⟩,
        ← nothingNew_congr hsame, ← ih (mapping.insert eid existing)]
      constructor
      · exact fun h => hsame.symm.trans h
      · exact fun h => hsame.trans h
    · exact iff_of_true hsame (.inl (.inr (.inr (.inl ⟨existing, hmapped, hlabel⟩))))
    · -- a new id stays, whatever comes after it
      refine iff_of_false ?_ ?_
      · intro h
        have hassigned : ((reg.ensureCollection (strip coll)).assign (strip coll) (strip eid) l
            next).label? (strip coll) (strip eid) = some l := by
          rw [label?_assign, if_pos ⟨rfl, rfl⟩]
        have hkept := @registerAll_keeps printable coll _ _ _ rest (mapping.insert eid l) _
          hassigned
        rw [h.label, hnew] at hkept
        cases hkept
      · rintro ((h | h | ⟨existing, h, -⟩ | ⟨-, l', owner, hasked, howner⟩) |
          ⟨⟨-, -, existing, h, -⟩, -⟩)
        · exact hc h
        · exact he h
        · rw [hnew] at h
          cases h
        · rcases hlabel with rfl | ⟨rfl, hfree⟩
          · cases hasked
          · obtain rfl := Option.some.inj hasked
            rw [hfree] at howner
            cases howner
        · rw [hnew] at h
          cases h
    · exact iff_of_true hsame (.inl (.inr (.inr (.inr ⟨hnew, l, owner, hlabel, howner⟩))))

/-! ## Rejected requests -/

namespace IdCall

variable {H : Sha256} {D : Type} [FloatArith D] {retries : ℕ}
  {writeFails : Option (Option Payload)} {st st' : ApiState} {e : HandlerExit}

/-- Loading answers no 4xx. -/
theorem ingestRows_uncaught {body : IngestVectorsRequest} {d : ℕ} {mapping : Dict String ℤ}
    {rows : List Row}
    (h : (ingestRows H D retries writeFails body d mapping rows st).1 = .error e) :
    e = .uncaught := by
  rw [ingestRows] at h
  split at h
  · exact (Except.error.inj h).symm
  · split at h
    · exact (Except.error.inj h).symm
    · cases h

theorem registerIds_rejected {body : RegisterIdsRequest}
    (h : Unlearning.registerIds printable writeFails body st = (.error e, st')) :
    ¬ (registerIds body).LengthsAgree ∧ st' = st ∨
      (registerIds body).LengthsAgree ∧ st'.registry =
        (registerAll printable body.collection (registerIds body).asked ∅ st.registry).2 := by
  rw [Unlearning.registerIds] at h
  split at h
  · rename_i hfit
    obtain ⟨-, rfl⟩ := Prod.mk.inj h
    exact .inl ⟨by simpa [LengthsAgree] using hfit, rfl⟩
  · rename_i hfit
    refine .inr ⟨by simpa [LengthsAgree] using hfit, ?_⟩
    split at h
    · rename_i hloop
      obtain ⟨-, rfl⟩ := Prod.mk.inj h
      rw [asked, hloop]
    · cases (Prod.mk.inj h).1

theorem ingestVectors_rejected {body : IngestVectorsRequest}
    (h : Unlearning.ingestVectors H D retries printable writeFails body st = (.error e, st'))
    (he : e.IsClientError) :
    ¬ (ingestVectors body).LengthsAgree ∧ st' = st ∨
      (ingestVectors body).LengthsAgree ∧ st'.registry =
        (registerAll printable body.collection (ingestVectors body).asked ∅ st.registry).2 := by
  have huncaught : ∀ st'', (Except.error HandlerExit.uncaught, st'') ≠
      ((.error e, st') : Except HandlerExit IngestVectorsResponse × ApiState) := by
    rintro st'' heq
    obtain rfl := Except.error.inj (Prod.mk.inj heq).1
    exact he
  rw [Unlearning.ingestVectors] at h
  split at h
  · rename_i hlength
    obtain ⟨-, rfl⟩ := Prod.mk.inj h
    exact .inl ⟨fun hagree => hlength hagree.1, rfl⟩
  rename_i hlength
  split at h
  · rename_i hfit
    obtain ⟨-, rfl⟩ := Prod.mk.inj h
    refine .inl ⟨fun hagree => ?_, rfl⟩
    rw [hagree.2] at hfit
    cases hfit
  rename_i hfit
  split at h
  · exact absurd h (huncaught st)
  refine .inr ⟨⟨not_not.mp hlength, by simpa using hfit⟩, ?_⟩
  rw [asked]
  split at h
  · rename_i hloop
    obtain ⟨-, rfl⟩ := Prod.mk.inj h
    rw [hloop]
  rename_i mapping reg hloop
  rw [hloop]
  dsimp only at h
  split at h
  · exact absurd h (huncaught _)
  split at h
  · -- the index is not empty, and the ids are registered
    obtain ⟨-, rfl⟩ := Prod.mk.inj h
    rfl
  split at h
  · exact absurd h (huncaught _)
  · obtain rfl := ingestRows_uncaught (congrArg Prod.fst h)
    exact he.elim

/-- **What a rejected request registers**: nothing if the lengths do not agree, and else all that
the loop comes to. -/
theorem answer_rejected {c : IdCall}
    (h : c.answer H D retries printable writeFails st = (some e, st')) (he : e.IsClientError) :
    ¬ c.LengthsAgree ∧ st' = st ∨
      c.LengthsAgree ∧
        st'.registry = (registerAll printable c.collection c.asked ∅ st.registry).2 := by
  rcases c with body | body
  · rw [answer] at h
    split at h
    · rename_i hraised
      obtain ⟨he', rfl⟩ := Prod.mk.inj h
      obtain rfl := Option.some.inj he'
      exact registerIds_rejected hraised
    · cases (Prod.mk.inj h).1
  · rw [answer] at h
    split at h
    · rename_i hraised
      obtain ⟨he', rfl⟩ := Prod.mk.inj h
      obtain rfl := Option.some.inj he'
      exact ingestVectors_rejected hraised he
    · cases (Prod.mk.inj h).1

/-- **A rejected request leaves the mappings as they were** exactly if its lengths do not agree,
or its ids were mapped already up to the first that is refused. -/
theorem unchanged_iff {c : IdCall}
    (h : c.answer H D retries printable writeFails st = (some e, st')) (he : e.IsClientError) :
    SameMappings st.registry st'.registry ↔
      ¬ c.LengthsAgree ∨ st.registry.NothingNew (strip c.collection) c.asked := by
  rcases answer_rejected h he with ⟨hlengths, rfl⟩ | ⟨hlengths, hreg⟩
  · exact iff_of_true (.refl _) (.inl hlengths)
  · rw [hreg, registerAll_same_iff, or_iff_right (not_not_intro hlengths)]

/-! ### Two rejected batches -/

section Batches

/-- A server with three rows, and nothing registered. -/
def newApi : ApiState := ⟨Registry.empty, NativeConfig.threeRows, none⟩

/-- `{"collection": "docs", "ids": ["a", "b"], "labels": …}` -/
def twoIds (labels : List ℤ) : RegisterIdsRequest :=
  ⟨"docs", ["a", "b"], some labels, by decide, by decide⟩

/-- After `a` and `b` have been registered. -/
def bothRegistered : ApiState :=
  ((registerIds (twoIds [0, 1])).answer .hashlib Float 0 (fun _ => true) none newApi).2

/-- The first id is refused. -/
theorem unchanged_iff_otherLabel :
    ∃ e st', (registerIds (twoIds [1, 2])).answer .hashlib Float 0 (fun _ => true) none bothRegistered =
        (some e, st') ∧
      SameMappings bothRegistered.registry st'.registry := by
  have hanswer : ∃ st', (registerIds (twoIds [1, 2])).answer .hashlib Float 0 (fun _ => true) none
      bothRegistered = (some (.http 400 (PyText.repr (fun _ => true)
        "id 'a' already mapped to 0, not 1")), st') := ⟨_, rfl⟩
  obtain ⟨st', hanswer⟩ := hanswer
  have hsame := (unchanged_iff hanswer ⟨by decide, by decide⟩).mpr
    (.inr (.inl (.inr (.inr (.inl ⟨0, rfl, by decide⟩)))))
  exact ⟨_, st', hanswer, hsame⟩

/-- Both ids ask for the same label: `b` is refused, and `a` stays. -/
theorem refused_batch_registers :
    ∃ e st', (registerIds (twoIds [0, 0])).answer .hashlib Float 0 (fun _ => true) none newApi =
        (some e, st') ∧ e.IsClientError ∧ st'.registry.label? "docs" "a" = some 0 ∧
      ¬ SameMappings newApi.registry st'.registry := by
  refine ⟨_, _, rfl, ⟨by decide, by decide⟩, rfl, fun h => ?_⟩
  have hlabel := h.label "docs" "a"
  cases hlabel

end Batches

end IdCall

end Unlearning
