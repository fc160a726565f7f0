import Unlearning.Doc
import Unlearning.Registry

/-!
# The delete-intent outbox (`integrations/outbox.py`)

An envelope is one JSON file `{envelope_id}.json` in one of the folders `pending`, `done`
and `failed`. `dispatch_pending` reads the pending envelopes once and then handles each of
them with the callback's answer, from what it read.

An operation is the list of its file operations, so that what is on the disk between two of
them can be spoken of. `Round` is what a call does for one envelope; `Located` says where
the one file of an envelope is.
-/

namespace Unlearning

namespace Outbox

open Doc

/-! ## Envelopes -/

/-- `OutboxEnvelope` -/
structure OutboxEnvelope where
  envelopeId : String
  requestId : String
  collection : String
  externalIds : List String
  reason : Option String
  maxM : ℤ
  attempts : ℤ
  createdUnixNs : ℤ
  lastError : String
  deriving DecidableEq

namespace OutboxEnvelope

/-- The members of `to_dict`. -/
def items (env : OutboxEnvelope) : List (String × Doc Empty) :=
  [("envelope_id", .str env.envelopeId), ("request_id", .str env.requestId),
    ("collection", .str env.collection), ("external_ids", .list (env.externalIds.map .str)),
    ("reason", optionDoc .str env.reason), ("max_m", .int env.maxM),
    ("attempts", .int env.attempts), ("created_unix_ns", .int env.createdUnixNs),
    ("last_error", .str env.lastError)]

/-- `to_dict` -/
def toDict (env : OutboxEnvelope) : Doc Empty := .object env.items

/-- `from_dict` -/
def fromDict (doc : Doc Empty) : Except ReadError OutboxEnvelope := do
  let data ← members doc
  let envelopeId ← require data "envelope_id" >>= readStr
  let requestId ← require data "request_id" >>= readStr
  let collection ← require data "collection" >>= readStr
  let externalIds ← require data "external_ids" >>= readStrings
  let reason ← getD data "reason" (orNone readStr) none
  let maxM ← getD data "max_m" readInt 16
  let attempts ← getD data "attempts" readInt 0
  let created ← getD data "created_unix_ns" readInt 0
  let lastError ← getD data "last_error" readStr ""
  return ⟨envelopeId, requestId, collection, externalIds, reason, maxM, attempts, created,
    lastError⟩

/-- What a file holds after `json.dumps(env.to_dict(), sort_keys=True)` was written to it. -/
def text (env : OutboxEnvelope) : Doc Empty := image id env.toDict

/-- **The round trip of an envelope.** -/
theorem fromDict_text (env : OutboxEnvelope) : fromDict env.text = .ok env := by
  have hnd : (env.items.map Prod.fst).Nodup := by simp [items]
  have hstr : ∀ key s, (key, Doc.str s) ∈ env.items →
      (require (imageMembers id env.items) key >>= readStr) = .ok s := fun key s h =>
    require_imageMembers hnd (.str s) h (by rfl)
  have hint : ∀ key n default, (key, Doc.int n) ∈ env.items →
      getD (imageMembers id env.items) key readInt default = .ok n := fun key n default h =>
    getD_imageMembers hnd (.int n) h (by rfl) default
  have hid := hstr "envelope_id" env.envelopeId (by simp [items])
  have hrequest := hstr "request_id" env.requestId (by simp [items])
  have hcollection := hstr "collection" env.collection (by simp [items])
  have hids : (require (imageMembers id env.items) "external_ids" >>= readStrings) =
      .ok env.externalIds :=
    require_imageMembers hnd (.list (env.externalIds.map .str)) (by simp [items])
      (readStrings_image id env.externalIds)
  have hreason : getD (imageMembers id env.items) "reason" (orNone readStr) none =
      .ok env.reason :=
    getD_imageMembers hnd (optionDoc .str env.reason) (by simp [items])
      (orNone_readStr_image id env.reason) _
  have hmax := hint "max_m" env.maxM 16 (by simp [items])
  have hattempts := hint "attempts" env.attempts 0 (by simp [items])
  have hcreated := hint "created_unix_ns" env.createdUnixNs 0 (by simp [items])
  have herror : getD (imageMembers id env.items) "last_error" readStr "" = .ok env.lastError :=
    getD_imageMembers hnd (.str env.lastError) (by simp [items]) (by rfl) _
  rw [text, toDict, fromDict, members_image]
  change (require (imageMembers id env.items) "envelope_id" >>= readStr) >>= _ = _
  rw [hid]
  change (require (imageMembers id env.items) "request_id" >>= readStr) >>= _ = _
  rw [hrequest]
  change (require (imageMembers id env.items) "collection" >>= readStr) >>= _ = _
  rw [hcollection]
  change (require (imageMembers id env.items) "external_ids" >>= readStrings) >>= _ = _
  rw [hids]
  simp only [bind, Except.bind, hreason, hmax, hattempts, hcreated, herror]
  rfl

/-- The fields that say what is to be erased. -/
def SameIntent (env env₀ : OutboxEnvelope) : Prop :=
  env.requestId = env₀.requestId ∧ env.collection = env₀.collection ∧
    env.externalIds = env₀.externalIds ∧ env.reason = env₀.reason ∧ env.maxM = env₀.maxM

end OutboxEnvelope

/-! ## Files -/

/-- The folders of the outbox. -/
inductive FolderName : Type where
  | pending
  | done
  | failed
  deriving DecidableEq

/-- The files `{envelope_id}.json` of one folder, by the id. -/
abbrev Folder := Dict String (Doc Empty)

/-- What is under `root/outbox`. -/
abbrev Files := FolderName → Folder

/-- The folders of a new outbox. -/
def noFiles : Files := fun _ => ∅

/-- One operation on the files. -/
inductive FileOp : Type where
  /-- `path.write_text(...)` -/
  | write (folder : FolderName) (envelopeId : String) (doc : Doc Empty)
  /-- `shutil.move(src, dst)`, which replaces a file that is there -/
  | move (src dst : FolderName) (envelopeId : String)

/-- The file that an operation is for. -/
def FileOp.envelopeId : FileOp → String
  | .write _ envelopeId _ => envelopeId
  | .move _ _ envelopeId => envelopeId

/-- What an operation leaves of the files; a move of a file that is not there does nothing. -/
def perform (files : Files) : FileOp → Files
  | .write folder envelopeId doc =>
    Function.update files folder ((files folder).insert envelopeId doc)
  | .move src dst envelopeId =>
    match (files src).lookup envelopeId with
    | none => files
    | some doc =>
      let removed := Function.update files src ((files src).erase envelopeId)
      Function.update removed dst ((removed dst).insert envelopeId doc)

/-- What operations leave, one after the other. -/
def performAll (files : Files) (ops : List FileOp) : Files := ops.foldl perform files

/-- The files before each of the operations and after the last. -/
def moments (files : Files) : List FileOp → List Files
  | [] => [files]
  | op :: ops => files :: moments (perform files op) ops

/-! ## `FileOutbox` -/

/-- The arguments of `enqueue`, with the id and the time that it is given. -/
structure Intent where
  envelopeId : String
  collection : String
  externalIds : List String
  requestId : String
  reason : Option String
  maxM : ℤ
  createdUnixNs : ℤ

/-- The envelope that `enqueue` returns. -/
def newEnvelope (intent : Intent) : OutboxEnvelope where
  envelopeId := intent.envelopeId
  requestId := intent.requestId
  collection := intent.collection
  externalIds := intent.externalIds
  reason := intent.reason
  maxM := intent.maxM
  attempts := 0
  createdUnixNs := intent.createdUnixNs
  lastError := ""

/-- `enqueue` -/
def enqueue (intent : Intent) : List FileOp :=
  [.write .pending intent.envelopeId (newEnvelope intent).text]

/-- The order of `sorted(self.pending.glob("*.json"))`. -/
def pathLe (a b : Sigma fun _ : String => Doc Empty) : Bool := a.1 ++ ".json" ≤ b.1 ++ ".json"

/-- `list_pending` -/
def listPending (files : Files) : Except ReadError (List OutboxEnvelope) :=
  ((files .pending).entries.mergeSort pathLe).mapM fun file => OutboxEnvelope.fromDict file.2

/-- `mark_done` -/
def markDone (files : Files) (env : OutboxEnvelope) : List FileOp :=
  if env.envelopeId ∈ files .pending then [.move .pending .done env.envelopeId] else []

/-- `env.attempts += 1; env.last_error = error` -/
def OutboxEnvelope.failedWith (env : OutboxEnvelope) (error : String) : OutboxEnvelope :=
  { env with attempts := env.attempts + 1, lastError := error }

/-- `mark_failed` -/
def markFailed (files : Files) (env : OutboxEnvelope) (error : String) : List FileOp :=
  if env.envelopeId ∈ files .pending then
    [.write .pending env.envelopeId (env.failedWith error).text,
      .move .pending .failed env.envelopeId]
  else []

/-- `requeue_failed` -/
def requeueFailed (files : Files) (envelopeId : String) : List FileOp :=
  if envelopeId ∈ files .failed then [.move .failed .pending envelopeId] else []

/-! ## `OutboxDispatcher` -/

/-- What Python does with a value of a result dictionary. -/
structure Values (V : Type) where
  /-- `bool(value)` -/
  truthy : V → Bool
  /-- `str(value)` -/
  str : V → String
  /-- `str(result)` -/
  strDict : Dict String V → String

/-- What the callback comes to for one envelope. -/
inductive Outcome (V : Type) : Type where
  | returned (result : Dict String V)
  /-- an `Exception`, by its text -/
  | raised (text : String)

section Dispatch

variable {V : Type} (python : Values V) (maxAttempts : ℤ)

/-- `bool(result.get("success", result.get("quorum_met", True)))` -/
def isOk (result : Dict String V) : Bool :=
  match result.lookup "success" with
  | some v => python.truthy v
  | none =>
    match result.lookup "quorum_met" with
    | some v => python.truthy v
    | none => true

/-- `str(result.get("message", result))` -/
def message (result : Dict String V) : String :=
  match result.lookup "message" with
  | some v => python.str v
  | none => python.strDict result

/-- What `dispatch_pending` has counted so far. -/
structure Counts where
  done : ℕ
  failed : ℕ
  errors : List String

/-- What happened, and the file operations it made. -/
inductive Note : Type where
  | enqueued (env : OutboxEnvelope)
  | dispatched (envelopeId : String) (success : Bool)
  | requeued (envelopeId : String)
  deriving DecidableEq

/-- One envelope of `dispatch_pending`: what is noted of it, and what is done to its file. -/
structure Round where
  note : Note
  ops : List FileOp

/-- A dispatch that did not succeed: the last one allowed, or one to try again. -/
def handleFailure (files : Files) (env : OutboxEnvelope) (error : String) (counts : Counts) :
    List FileOp × Counts :=
  if maxAttempts ≤ env.attempts + 1 then
    (markFailed files env error, { counts with failed := counts.failed + 1 })
  else
    ([.write .pending env.envelopeId (env.failedWith error).text],
      { counts with errors := counts.errors ++ [error] })

/-- The body of the loop. -/
def dispatchOne (files : Files) (env : OutboxEnvelope) (counts : Counts) :
    Outcome V → Round × Counts
  | .returned result =>
    if isOk python result then
      (⟨.dispatched env.envelopeId true, markDone files env⟩,
        { counts with done := counts.done + 1 })
    else
      let failure := handleFailure maxAttempts files env (message python result) counts
      (⟨.dispatched env.envelopeId false, failure.1⟩, failure.2)
  | .raised text =>
    let failure := handleFailure maxAttempts files env text counts
    (⟨.dispatched env.envelopeId false, failure.1⟩, failure.2)

/-- The loop over the envelopes that were read. -/
def dispatchLoop (callback : OutboxEnvelope → Outcome V) :
    List OutboxEnvelope → Files → Counts → List Round × Counts
  | [], _, counts => ([], counts)
  | env :: envs, files, counts =>
    let one := dispatchOne python maxAttempts files env counts (callback env)
    let rest := dispatchLoop callback envs (performAll files one.1.ops) one.2
    (one.1 :: rest.1, rest.2)

/-- `envs[:limit]` -/
def upTo {α : Type} (limit : ℤ) (envs : List α) : List α :=
  if 0 ≤ limit then envs.take limit.toNat else envs.take (envs.length - limit.natAbs)

/-- The files after some rounds. -/
def after (files : Files) (rounds : List Round) : Files :=
  rounds.foldl (fun files round => performAll files round.ops) files

/-- What `dispatch_pending` returns. -/
structure Report where
  counts : Counts
  pendingLeft : ℕ

/-- `dispatch_pending` -/
def dispatchPending (callback : OutboxEnvelope → Outcome V) (limit : ℤ) (files : Files) :
    List Round × Except ReadError Report :=
  match listPending files with
  | .error e => ([], .error e)
  | .ok envs =>
    let loop := dispatchLoop python maxAttempts callback (upTo limit envs) files ⟨0, 0, []⟩
    (loop.1, (listPending (after files loop.1)).map fun left => ⟨loop.2, left.length⟩)

/-- A call of the outbox or its dispatcher. -/
inductive Call (V : Type) : Type where
  | enqueue (intent : Intent)
  | dispatchPending (limit : ℤ) (callback : OutboxEnvelope → Outcome V)
  | requeueFailed (envelopeId : String)

/-- The rounds of a call. -/
def Call.rounds (files : Files) : Call V → List Round
  | .enqueue intent => [⟨.enqueued (newEnvelope intent), Outbox.enqueue intent⟩]
  | .dispatchPending limit callback =>
    (Outbox.dispatchPending python maxAttempts callback limit files).1
  | .requeueFailed envelopeId =>
    match Outbox.requeueFailed files envelopeId with
    | [] => []
    | ops => [⟨.requeued envelopeId, ops⟩]

/-- The rounds of a list of calls. -/
def rounds : Files → List (Call V) → List Round
  | _, [] => []
  | files, call :: calls =>
    let now := call.rounds python maxAttempts files
    now ++ rounds (after files now) calls

/-- The ids that a list of calls gives out. -/
def givenIds (calls : List (Call V)) : List String :=
  calls.filterMap fun
    | .enqueue intent => some intent.envelopeId
    | _ => none

end Dispatch

/-! ## Where an envelope is -/

/-- The one file of an envelope. -/
structure Located (files : Files) (folder : FolderName) (env : OutboxEnvelope) : Prop where
  held : (files folder).lookup env.envelopeId = some env.text
  alone : ∀ other, other ≠ folder → (files other).lookup env.envelopeId = none

theorem OutboxEnvelope.text_injective {env env' : OutboxEnvelope} (h : env.text = env'.text) :
    env = env' := by
  have hread := env.fromDict_text
  rw [h, env'.fromDict_text] at hread
  exact (Except.ok.inj hread).symm

theorem lookup_perform_ne {files : Files} {op : FileOp} {envelopeId : String}
    (hne : envelopeId ≠ op.envelopeId) (folder : FolderName) :
    (perform files op folder).lookup envelopeId = (files folder).lookup envelopeId := by
  have hupdate : ∀ (files : Files) (name : FolderName) (changed : Folder),
      changed.lookup envelopeId = (files name).lookup envelopeId →
      (Function.update files name changed folder).lookup envelopeId =
        (files folder).lookup envelopeId := by
    intro files name changed hsame
    by_cases h : folder = name
    · subst h
      rw [Function.update_self, hsame]
    · rw [Function.update_of_ne h]
  rcases op with ⟨name, other, doc⟩ | ⟨src, dst, other⟩
  · exact hupdate files name _ (AList.lookup_insert_ne hne)
  · have hne : envelopeId ≠ other := hne
    rw [perform]
    rcases (files src).lookup other with _ | doc
    · rfl
    · dsimp only
      rw [hupdate _ dst _ (AList.lookup_insert_ne hne)]
      exact hupdate files src _ (AList.lookup_erase_ne hne)

section Located

variable {files : Files} {folder : FolderName} {env env' : OutboxEnvelope}

theorem Located.perform_other (h : Located files folder env) {op : FileOp}
    (hne : env.envelopeId ≠ op.envelopeId) : Located (perform files op) folder env where
  held := by rw [lookup_perform_ne hne, h.held]
  alone other hother := by rw [lookup_perform_ne hne, h.alone other hother]

/-- A pending file that is written, new or not. -/
theorem located_write (hnone : ∀ other, other ≠ .pending →
      (files other).lookup env.envelopeId = none) :
    Located (perform files (.write .pending env.envelopeId env.text)) .pending env where
  held := by rw [perform, Function.update_self, AList.lookup_insert]
  alone other hother := by rw [perform, Function.update_of_ne hother, hnone other hother]

theorem Located.write (h : Located files .pending env)
    (hid : env'.envelopeId = env.envelopeId) :
    Located (perform files (.write .pending env.envelopeId env'.text)) .pending env' := by
  rw [← hid]
  apply located_write
  rw [hid]
  exact h.alone

theorem Located.move (h : Located files folder env) {dst : FolderName} (hdst : dst ≠ folder) :
    Located (perform files (.move folder dst env.envelopeId)) dst env := by
  have hperform : perform files (.move folder dst env.envelopeId) =
      Function.update (Function.update files folder ((files folder).erase env.envelopeId)) dst
        ((files dst).insert env.envelopeId env.text) := by
    rw [perform, h.held]
    dsimp only
    rw [Function.update_of_ne hdst]
  rw [hperform]
  constructor
  · rw [Function.update_self, AList.lookup_insert]
  · intro other hother
    rw [Function.update_of_ne hother]
    by_cases hfolder : other = folder
    · subst hfolder
      rw [Function.update_self, AList.lookup_erase]
    · rw [Function.update_of_ne hfolder, h.alone other hfolder]

/-- An envelope has one file. -/
theorem Located.unique (h : Located files folder env) {folder' : FolderName}
    {doc : Doc Empty} (hdoc : (files folder').lookup env.envelopeId = some doc) :
    folder' = folder ∧ doc = env.text := by
  by_cases heq : folder' = folder
  · subst heq
    rw [h.held] at hdoc
    exact ⟨rfl, (Option.some.inj hdoc).symm⟩
  · rw [h.alone folder' heq] at hdoc
    cases hdoc

end Located

end Outbox

end Unlearning
