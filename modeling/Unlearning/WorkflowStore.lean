import Unlearning.Doc
import Unlearning.Registry
import Unlearning.Workflow

/-!
# The workflow store (`integrations/workflow.py`, `ErasureWorkflowStore`)

A workflow is saved as one JSON file whose name is its request id with every character that
is not alphanumeric, `-` or `_` replaced by `_`. Here the record has all its fields, the
timestamps too, and goes through `to_dict`, the JSON text and `from_dict`.

`step.artifact` and `receipt` are dictionaries of values from elsewhere: a type `A`, with
what `json.dumps` takes of it and what `json.loads` makes of that. `alnum` is
`str.isalnum` of one character. `refusal` is the file system's: the text of the `OSError` that a
name raises (`File name too long`), or none. Both `write_text` and `is_file` raise it.

* `fromDict_toDict`: the round trip of one record;
* `Lawful`: the store is a map from the request ids in use to workflows;
* `lawful_iff`: it is one exactly if their file names are different, the file system takes each of
  them, and JSON gives the values back.
-/

namespace Unlearning

namespace WorkflowStore

open Workflow (StepStatus WorkflowStatus Json)
open Doc

/-! ## The record -/

/-- The text of a status. -/
def statusText : StepStatus → String
  | .pending => "pending"
  | .running => "running"
  | .done => "done"
  | .failed => "failed"
  | .skipped => "skipped"

/-- A status that was written; texts that are no status are not checked by the source and
are not values of the type. -/
def statusOfText (text : String) : Except ReadError StepStatus :=
  if text = "pending" then .ok .pending
  else if text = "running" then .ok .running
  else if text = "done" then .ok .done
  else if text = "failed" then .ok .failed
  else if text = "skipped" then .ok .skipped
  else .error .illTyped

/-- The text of a status. -/
def workflowStatusText : WorkflowStatus → String
  | .opened => "open"
  | .inProgress => "in_progress"
  | .complete => "complete"
  | .blocked => "blocked"

/-- The status of a text. -/
def workflowStatusOfText (text : String) : Except ReadError WorkflowStatus :=
  if text = "open" then .ok .opened
  else if text = "in_progress" then .ok .inProgress
  else if text = "complete" then .ok .complete
  else if text = "blocked" then .ok .blocked
  else .error .illTyped

/-- `ErasureStep` -/
structure ErasureStep (A : Type) where
  name : String
  status : StepStatus
  detail : String
  artifact : Option A
  updatedUnixNs : ℤ

/-- `ErasureStep(name=name)` -/
def ErasureStep.new {A : Type} (name : String) : ErasureStep A := ⟨name, .pending, "", none, 0⟩

/-- `[ErasureStep(name=n) for n in STEP_ORDER]` -/
def defaultSteps (A : Type) : List (ErasureStep A) :=
  Workflow.stepOrder.map fun name => .new name.text

/-- `ErasureWorkflow`; `__post_init__` gives it steps. -/
structure ErasureWorkflow (A : Type) where
  requestId : String
  collection : String
  externalIds : List String
  reason : Option String
  status : WorkflowStatus
  createdUnixNs : ℤ
  updatedUnixNs : ℤ
  steps : List (ErasureStep A)
  receipt : Option A
  errors : List String
  requireReplica : Bool
  requireCryptoShred : Bool
  requireDocumentStore : Bool
  requireBackupAck : Bool
  steps_ne_nil : steps ≠ []

section Codec

variable {A : Type}

/-- The members of `to_dict`. -/
def ErasureStep.items (step : ErasureStep A) : List (String × Doc A) :=
  [("name", .str step.name), ("status", .str (statusText step.status)),
    ("detail", .str step.detail),
    ("artifact", optionDoc .any step.artifact), ("updated_unix_ns", .int step.updatedUnixNs)]

/-- `ErasureStep.to_dict` -/
def ErasureStep.toDict (step : ErasureStep A) : Doc A := .object step.items

/-- The status of a document. -/
def readStatus (doc : Doc A) : Except ReadError StepStatus := readStr doc >>= statusOfText

/-- `ErasureStep.from_dict` -/
def ErasureStep.fromDict (doc : Doc A) : Except ReadError (ErasureStep A) := do
  let data ← members doc
  let name ← require data "name" >>= readStr
  let status ← getD data "status" readStatus .pending
  let detail ← getD data "detail" readStr ""
  let artifact ← getD data "artifact" (orNone readAny) none
  let updated ← getD data "updated_unix_ns" readInt 0
  return ⟨name, status, detail, artifact, updated⟩

/-- The members of `to_dict`. -/
def ErasureWorkflow.items (wf : ErasureWorkflow A) : List (String × Doc A) :=
  [("request_id", .str wf.requestId), ("collection", .str wf.collection),
    ("external_ids", .list (wf.externalIds.map .str)), ("reason", optionDoc .str wf.reason),
    ("status", .str (workflowStatusText wf.status)), ("created_unix_ns", .int wf.createdUnixNs),
    ("updated_unix_ns", .int wf.updatedUnixNs),
    ("steps", .list (wf.steps.map ErasureStep.toDict)), ("receipt", optionDoc .any wf.receipt),
    ("errors", .list (wf.errors.map .str)), ("require_replica", .bool wf.requireReplica),
    ("require_crypto_shred", .bool wf.requireCryptoShred),
    ("require_document_store", .bool wf.requireDocumentStore),
    ("require_backup_ack", .bool wf.requireBackupAck)]

/-- `ErasureWorkflow.to_dict` -/
def ErasureWorkflow.toDict (wf : ErasureWorkflow A) : Doc A := .object wf.items

/-- `steps or [ErasureStep(name=n) for n in STEP_ORDER]` -/
def stepsOr : List (ErasureStep A) → List (ErasureStep A)
  | [] => defaultSteps A
  | step :: steps => step :: steps

/-- `_steps_or` never gives an empty list. -/
theorem stepsOr_ne_nil (steps : List (ErasureStep A)) : stepsOr steps ≠ [] := by
  cases steps with
  | nil => exact List.cons_ne_nil _ _
  | cons step steps => exact List.cons_ne_nil _ _

/-- The status of a document. -/
def readWorkflowStatus (doc : Doc A) : Except ReadError WorkflowStatus :=
  readStr doc >>= workflowStatusOfText

/-- A list of steps. -/
def readSteps (doc : Doc A) : Except ReadError (List (ErasureStep A)) :=
  readList doc >>= List.mapM ErasureStep.fromDict

/-- `ErasureWorkflow.from_dict` -/
def ErasureWorkflow.fromDict (doc : Doc A) : Except ReadError (ErasureWorkflow A) := do
  let data ← members doc
  let requestId ← require data "request_id" >>= readStr
  let collection ← require data "collection" >>= readStr
  let externalIds ← getD data "external_ids" readStrings []
  let reason ← getD data "reason" (orNone readStr) none
  let status ← getD data "status" readWorkflowStatus .opened
  let created ← getD data "created_unix_ns" readInt 0
  let updated ← getD data "updated_unix_ns" readInt 0
  let steps ← getD data "steps" readSteps []
  let receipt ← getD data "receipt" (orNone readAny) none
  let errors ← getD data "errors" readStrings []
  let replica ← getD data "require_replica" readBool false
  let shred ← getD data "require_crypto_shred" readBool false
  let store ← getD data "require_document_store" readBool false
  let backup ← getD data "require_backup_ack" readBool false
  return ⟨requestId, collection, externalIds, reason, status, created, updated, stepsOr steps,
    receipt, errors, replica, shred, store, backup, stepsOr_ne_nil steps⟩

/-! ## The store -/

/-- The files of `root/workflows`: what each holds, by name. -/
abbrev Store (A : Type) := Dict String (Doc A)

/-- `path_for`: the name of the file. -/
def pathFor (alnum : Char → Bool) (requestId : String) : String :=
  String.ofList (requestId.toList.map fun c => if alnum c || c = '-' || c = '_' then c else '_') ++
    ".json"

/-- What `load` raises. -/
inductive LoadError : Type where
  /-- `FileNotFoundError` -/
  | notFound (text : String) : LoadError
  /-- `OSError`, of a name that the file system does not take -/
  | osError (text : String) : LoadError
  | read (e : ReadError) : LoadError
  deriving DecidableEq

/-- What `save` raises; both leave the files as they are. -/
inductive SaveError : Type where
  /-- `TypeError`: `json.dumps` does not take a value. -/
  | notDumpable : SaveError
  /-- `OSError`, of a name that the file system does not take -/
  | osError (text : String) : SaveError
  deriving DecidableEq

/-- `save` at `time_ns()`. The text is there before the file is opened. -/
def save (json : Json A) (alnum : Char → Bool) (refusal : String → Option String) (now : ℤ)
    (wf : ErasureWorkflow A) (store : Store A) : Except SaveError (Store A) :=
  let wf := { wf with updatedUnixNs := now }
  if dumpable json.dumps wf.toDict then
    match refusal (pathFor alnum wf.requestId) with
    | some text => .error (.osError text)
    | none => .ok (store.insert (pathFor alnum wf.requestId) (image json.loads wf.toDict))
  else .error .notDumpable

/-- `load`. `is_file` answers `False` for a file that is not there, and passes on what else
`stat` raises. -/
def load (alnum : Char → Bool) (refusal : String → Option String) (requestId : String)
    (store : Store A) : Except LoadError (ErasureWorkflow A) :=
  match refusal (pathFor alnum requestId) with
  | some text => .error (.osError text)
  | none =>
    match store.lookup (pathFor alnum requestId) with
    | none => .error (.notFound ("workflow not found: " ++ requestId))
    | some doc => (ErasureWorkflow.fromDict doc).mapError .read

end Codec

/-! ## The round trip of a record -/

section RoundTrip

variable {A : Type}

/-- A step's status is read back from its text. -/
theorem statusOfText_statusText (status : StepStatus) :
    statusOfText (statusText status) = .ok status := by
  cases status <;> rfl

/-- A workflow's status is read back from its text. -/
theorem workflowStatusOfText_text (status : WorkflowStatus) :
    workflowStatusOfText (workflowStatusText status) = .ok status := by
  cases status <;> rfl

/-- What JSON makes of a step. -/
def ErasureStep.mapAny (loads : A → A) (step : ErasureStep A) : ErasureStep A :=
  { step with artifact := step.artifact.map loads }

/-- What JSON makes of a workflow. -/
def ErasureWorkflow.mapAny (loads : A → A) (wf : ErasureWorkflow A) : ErasureWorkflow A :=
  { wf with
    steps := wf.steps.map (ErasureStep.mapAny loads)
    receipt := wf.receipt.map loads
    steps_ne_nil := by simpa using wf.steps_ne_nil }

/-- An optional value is read back as what json makes of it. -/
theorem orNone_readAny_image (loads : A → A) (a : Option A) :
    orNone readAny (image loads (optionDoc .any a)) = .ok (a.map loads) := by
  cases a with
  | none => rfl
  | some a => rfl

/-- A step is read back as what json makes of its artifact. -/
theorem step_roundTrip (loads : A → A) (step : ErasureStep A) :
    ErasureStep.fromDict (image loads step.toDict) = .ok (step.mapAny loads) := by
  have hnd : (step.items.map Prod.fst).Nodup := by simp [ErasureStep.items]
  have hname : (require (imageMembers loads step.items) "name" >>= readStr) = .ok step.name :=
    require_imageMembers hnd (.str step.name) (by simp [ErasureStep.items]) (by rfl)
  have hstatus : getD (imageMembers loads step.items) "status" readStatus .pending =
      .ok step.status :=
    getD_imageMembers hnd (.str (statusText step.status)) (by simp [ErasureStep.items])
      (statusOfText_statusText step.status) _
  have hdetail : getD (imageMembers loads step.items) "detail" readStr "" = .ok step.detail :=
    getD_imageMembers hnd (.str step.detail) (by simp [ErasureStep.items]) (by rfl) _
  have hartifact : getD (imageMembers loads step.items) "artifact" (orNone readAny) none =
      .ok (step.artifact.map loads) :=
    getD_imageMembers hnd (optionDoc .any step.artifact) (by simp [ErasureStep.items])
      (orNone_readAny_image loads step.artifact) _
  have hupdated : getD (imageMembers loads step.items) "updated_unix_ns" readInt 0 =
      .ok step.updatedUnixNs :=
    getD_imageMembers hnd (.int step.updatedUnixNs) (by simp [ErasureStep.items]) (by rfl) _
  rw [ErasureStep.fromDict, ErasureStep.toDict, members_image]
  change (require (imageMembers loads step.items) "name" >>= readStr) >>= _ = _
  rw [hname]
  simp only [bind, Except.bind, hstatus, hdetail, hartifact, hupdated]
  rfl

/-- **The round trip of a workflow.** -/
theorem fromDict_toDict (loads : A → A) (wf : ErasureWorkflow A) :
    ErasureWorkflow.fromDict (image loads wf.toDict) = .ok (wf.mapAny loads) := by
  have hnd : (wf.items.map Prod.fst).Nodup := by simp [ErasureWorkflow.items]
  have hid : (require (imageMembers loads wf.items) "request_id" >>= readStr) = .ok wf.requestId :=
    require_imageMembers hnd (.str wf.requestId) (by simp [ErasureWorkflow.items]) (by rfl)
  have hcollection : (require (imageMembers loads wf.items) "collection" >>= readStr) =
      .ok wf.collection :=
    require_imageMembers hnd (.str wf.collection) (by simp [ErasureWorkflow.items]) (by rfl)
  have hids : getD (imageMembers loads wf.items) "external_ids" readStrings [] =
      .ok wf.externalIds :=
    getD_imageMembers hnd (.list (wf.externalIds.map .str)) (by simp [ErasureWorkflow.items])
      (readStrings_image loads wf.externalIds) _
  have hreason : getD (imageMembers loads wf.items) "reason" (orNone readStr) none =
      .ok wf.reason :=
    getD_imageMembers hnd (optionDoc .str wf.reason) (by simp [ErasureWorkflow.items])
      (orNone_readStr_image loads wf.reason) _
  have hstatus : getD (imageMembers loads wf.items) "status" readWorkflowStatus .opened =
      .ok wf.status :=
    getD_imageMembers hnd (.str (workflowStatusText wf.status)) (by simp [ErasureWorkflow.items])
      (workflowStatusOfText_text wf.status) _
  have hcreated : getD (imageMembers loads wf.items) "created_unix_ns" readInt 0 =
      .ok wf.createdUnixNs :=
    getD_imageMembers hnd (.int wf.createdUnixNs) (by simp [ErasureWorkflow.items]) (by rfl) _
  have hupdated : getD (imageMembers loads wf.items) "updated_unix_ns" readInt 0 =
      .ok wf.updatedUnixNs :=
    getD_imageMembers hnd (.int wf.updatedUnixNs) (by simp [ErasureWorkflow.items]) (by rfl) _
  have hsteps : getD (imageMembers loads wf.items) "steps" readSteps [] =
      .ok (wf.steps.map (ErasureStep.mapAny loads)) := by
    refine getD_imageMembers hnd (.list (wf.steps.map ErasureStep.toDict))
      (by simp [ErasureWorkflow.items]) ?_ _
    rw [image, images_eq_map]
    exact mapM_map_image _ _ fun step _ => step_roundTrip loads step
  have hreceipt : getD (imageMembers loads wf.items) "receipt" (orNone readAny) none =
      .ok (wf.receipt.map loads) :=
    getD_imageMembers hnd (optionDoc .any wf.receipt) (by simp [ErasureWorkflow.items])
      (orNone_readAny_image loads wf.receipt) _
  have herrors : getD (imageMembers loads wf.items) "errors" readStrings [] = .ok wf.errors :=
    getD_imageMembers hnd (.list (wf.errors.map .str)) (by simp [ErasureWorkflow.items])
      (readStrings_image loads wf.errors) _
  have hflag : ∀ key b, (key, Doc.bool b) ∈ wf.items →
      getD (imageMembers loads wf.items) key readBool false = .ok b := fun key b h =>
    getD_imageMembers hnd (.bool b) h (by rfl) _
  have hreplica := hflag "require_replica" wf.requireReplica (by simp [ErasureWorkflow.items])
  have hshred := hflag "require_crypto_shred" wf.requireCryptoShred
    (by simp [ErasureWorkflow.items])
  have hstore := hflag "require_document_store" wf.requireDocumentStore
    (by simp [ErasureWorkflow.items])
  have hbackup := hflag "require_backup_ack" wf.requireBackupAck (by simp [ErasureWorkflow.items])
  -- a saved workflow has steps, so the default is not taken
  have hor : stepsOr (wf.steps.map (ErasureStep.mapAny loads)) =
      wf.steps.map (ErasureStep.mapAny loads) := by
    rcases hsteps : wf.steps with _ | ⟨step, steps⟩
    · exact absurd hsteps wf.steps_ne_nil
    · rfl
  rw [ErasureWorkflow.fromDict, ErasureWorkflow.toDict, members_image]
  change (require (imageMembers loads wf.items) "request_id" >>= readStr) >>= _ = _
  rw [hid]
  change (require (imageMembers loads wf.items) "collection" >>= readStr) >>= _ = _
  rw [hcollection]
  simp only [bind, Except.bind, hids, hreason, hstatus, hcreated, hupdated, hsteps, hreceipt,
    herrors, hreplica, hshred, hstore, hbackup, pure, Except.pure, hor]
  rfl

/-- The values from elsewhere that a workflow holds. -/
def ErasureWorkflow.values (wf : ErasureWorkflow A) : List A :=
  wf.steps.filterMap ErasureStep.artifact ++ wf.receipt.toList

/-- An optional value can be dumped exactly if it is none or json takes it. -/
theorem dumpable_optionDoc_any (dumps : A → Bool) (a : Option A) :
    dumpable dumps (optionDoc .any a) = a.toList.all dumps := by
  cases a with
  | none => rfl
  | some a => simp [optionDoc, dumpable]

/-- Strings can be dumped. -/
theorem dumpables_strings (dumps : A → Bool) (strings : List String) :
    dumpables dumps (strings.map .str) = true := by
  rw [dumpables_eq_all, List.all_map]
  simp [dumpable]

/-- A step can be dumped exactly if its artifact can. -/
theorem dumpable_step (dumps : A → Bool) (step : ErasureStep A) :
    dumpable dumps step.toDict = step.artifact.toList.all dumps := by
  rw [ErasureStep.toDict, dumpable, dumpableMembers_eq_all]
  simp [ErasureStep.items, dumpable, dumpable_optionDoc_any]

/-- Only values from elsewhere can keep a workflow from being saved. -/
theorem dumpable_toDict (dumps : A → Bool) (wf : ErasureWorkflow A) :
    dumpable dumps wf.toDict = wf.values.all dumps := by
  have hreason : dumpable dumps (optionDoc .str wf.reason) = true := by
    cases wf.reason <;> rfl
  have hsteps : dumpables dumps (wf.steps.map ErasureStep.toDict) =
      (wf.steps.filterMap ErasureStep.artifact).all dumps := by
    rw [dumpables_eq_all, List.all_map]
    induction wf.steps with
    | nil => rfl
    | cons step steps ih =>
      rw [List.all_cons, ih, Function.comp_apply, dumpable_step]
      cases hart : step.artifact <;> simp [hart]
  rw [ErasureWorkflow.toDict, dumpable, dumpableMembers_eq_all]
  simp only [ErasureWorkflow.items, List.all_cons, List.all_nil, dumpable, dumpable_optionDoc_any,
    dumpables_strings, hreason, hsteps, Bool.true_and, Bool.and_true, ErasureWorkflow.values,
    List.all_append]

/-- A workflow whose values survive json survives it. -/
theorem mapAny_of_values {loads : A → A} {wf : ErasureWorkflow A}
    (h : ∀ a ∈ wf.values, loads a = a) : wf.mapAny loads = wf := by
  have hsteps : wf.steps.map (ErasureStep.mapAny loads) = wf.steps := by
    refine List.map_congr_left (g := id) ?_ |>.trans (List.map_id _)
    intro step hstep
    have hart : step.artifact.map loads = step.artifact := by
      rcases hart : step.artifact with _ | a
      · rfl
      · have hmem : a ∈ wf.values :=
          List.mem_append_left _ (List.mem_filterMap.mpr ⟨step, hstep, hart⟩)
        rw [Option.map_some, h a hmem]
    rw [ErasureStep.mapAny, hart]
    rfl
  have hreceipt : wf.receipt.map loads = wf.receipt := by
    rcases hrec : wf.receipt with _ | a
    · rfl
    · have hmem : a ∈ wf.values := List.mem_append_right _ (by simp [hrec])
      rw [Option.map_some, h a hmem]
  simp only [ErasureWorkflow.mapAny, hsteps, hreceipt]

end RoundTrip

/-! ## The store as a map -/

section Map

variable {A : Type} (json : Json A) (alnum : Char → Bool) (refusal : String → Option String)

/-- A sequence of saves, each at its time; one that raises leaves the files alone. -/
def saveAll (saves : List (ℤ × ErasureWorkflow A)) (store : Store A) : Store A :=
  saves.foldl (fun store s => (save json alnum refusal s.1 s.2 store).toOption.getD store) store

/-- The file system takes the name of a request id's file. -/
def Takes (requestId : String) : Prop := refusal (pathFor alnum requestId) = none

instance (requestId : String) : Decidable (Takes alnum refusal requestId) :=
  inferInstanceAs (Decidable (_ = _))

/-- A save that does not raise. -/
def Goes (wf : ErasureWorkflow A) : Prop :=
  wf.values.all json.dumps = true ∧ Takes alnum refusal wf.requestId

instance (wf : ErasureWorkflow A) : Decidable (Goes json alnum refusal wf) :=
  inferInstanceAs (Decidable (_ ∧ _))

/-- The last save of a request id that did not raise. -/
def lastSaved (requestId : String) (saves : List (ℤ × ErasureWorkflow A)) :
    Option (ℤ × ErasureWorkflow A) :=
  (saves.filter fun s => s.2.requestId = requestId ∧ Goes json alnum refusal s.2).getLast?

/-- The saves are of these request ids, with these values from elsewhere. -/
def Within (ids : Set String) (values : Set A) (saves : List (ℤ × ErasureWorkflow A)) : Prop :=
  ∀ s ∈ saves, s.2.requestId ∈ ids ∧ ∀ a ∈ s.2.values, a ∈ values

/-- **The store is a map** from the request ids in use to workflows. -/
structure Lawful (ids : Set String) (values : Set A) : Prop where
  missing : ∀ saves, Within ids values saves → ∀ r ∈ ids,
    lastSaved json alnum refusal r saves = none →
    load alnum refusal r (saveAll json alnum refusal saves ∅) =
      .error (.notFound ("workflow not found: " ++ r))
  found : ∀ saves, Within ids values saves → ∀ r ∈ ids, ∀ now wf,
    lastSaved json alnum refusal r saves = some (now, wf) →
    load alnum refusal r (saveAll json alnum refusal saves ∅) = .ok { wf with updatedUnixNs := now }
  others : ∀ saves now wf, Within ids values (saves ++ [(now, wf)]) → ∀ r ∈ ids,
    r ≠ wf.requestId →
    load alnum refusal r (saveAll json alnum refusal (saves ++ [(now, wf)]) ∅) =
      load alnum refusal r (saveAll json alnum refusal saves ∅)

variable {json alnum refusal}

/-- What a save writes. -/
theorem save_eq (now : ℤ) (wf : ErasureWorkflow A) (store : Store A) :
    (save json alnum refusal now wf store).toOption.getD store =
      if Goes json alnum refusal wf then
        store.insert (pathFor alnum wf.requestId)
          (image json.loads { wf with updatedUnixNs := now }.toDict)
      else store := by
  have hvalues : dumpable json.dumps { wf with updatedUnixNs := now }.toDict =
      wf.values.all json.dumps := dumpable_toDict json.dumps _
  simp only [save, hvalues]
  by_cases hdump : wf.values.all json.dumps = true
  · rw [if_pos hdump]
    cases hname : refusal (pathFor alnum wf.requestId) with
    | none =>
      rw [if_pos ⟨hdump, hname⟩]
      rfl
    | some text =>
      have hno : ¬ Goes json alnum refusal wf := fun hgoes => by
        cases hname.symm.trans hgoes.2
      rw [if_neg hno]
      rfl
  · rw [if_neg hdump, if_neg fun hgoes : Goes json alnum refusal wf => hdump hgoes.1]
    rfl

/-- The last save of a history. -/
theorem saveAll_concat (saves : List (ℤ × ErasureWorkflow A)) (now : ℤ) (wf : ErasureWorkflow A)
    (store : Store A) :
    saveAll json alnum refusal (saves ++ [(now, wf)]) store =
      (save json alnum refusal now wf (saveAll json alnum refusal saves store)).toOption.getD
        (saveAll json alnum refusal saves store) := by
  rw [saveAll, List.foldl_append]
  rfl

/-- The last save under an id is the newest that went through. -/
theorem lastSaved_concat (r : String) (saves : List (ℤ × ErasureWorkflow A)) (now : ℤ)
    (wf : ErasureWorkflow A) :
    lastSaved json alnum refusal r (saves ++ [(now, wf)]) =
      if wf.requestId = r ∧ Goes json alnum refusal wf then some (now, wf)
      else lastSaved json alnum refusal r saves := by
  rw [lastSaved, List.filter_append]
  by_cases h : wf.requestId = r ∧ Goes json alnum refusal wf
  · rw [if_pos h, List.filter_cons_of_pos (by simpa using h)]
    simp
  · rw [if_neg h, List.filter_cons_of_neg (by simpa using h)]
    simp [lastSaved]

/-- **The files** after a sequence of saves, where no two request ids share a name. -/
theorem lookup_saveAll (json : Json A) (refusal : String → Option String) {ids : Set String}
    (hinj : Set.InjOn (pathFor alnum) ids) (saves : List (ℤ × ErasureWorkflow A))
    (hids : ∀ s ∈ saves, s.2.requestId ∈ ids) {r : String} (hr : r ∈ ids) :
    (saveAll json alnum refusal saves ∅).lookup (pathFor alnum r) =
      (lastSaved json alnum refusal r saves).map fun s =>
        image json.loads { s.2 with updatedUnixNs := s.1 }.toDict := by
  induction saves using List.reverseRecOn with
  | nil => rfl
  | append_singleton saves s ih =>
    obtain ⟨now, wf⟩ := s
    have hwf : wf.requestId ∈ ids := hids (now, wf) (by simp)
    have hbefore := ih fun s hs => hids s (List.mem_append_left _ hs)
    rw [saveAll_concat, save_eq, lastSaved_concat]
    by_cases hgoes : Goes json alnum refusal wf
    · rw [if_pos hgoes]
      by_cases heq : wf.requestId = r
      · rw [if_pos ⟨heq, hgoes⟩, ← heq, AList.lookup_insert]
        rfl
      · rw [if_neg fun h => heq h.1,
          AList.lookup_insert_ne fun hpath => heq (hinj hwf hr hpath.symm), hbefore]
    · rw [if_neg hgoes, if_neg fun h => hgoes h.2]
      exact hbefore

/-- On a name that the file system takes, `load` reads the file of that name. -/
theorem load_of_takes {r : String} (hname : Takes alnum refusal r) (store : Store A) :
    load alnum refusal r store =
      match store.lookup (pathFor alnum r) with
      | none => .error (.notFound ("workflow not found: " ++ r))
      | some doc => (ErasureWorkflow.fromDict doc).mapError .read := by
  rw [load, show refusal (pathFor alnum r) = none from hname]

/-- A file that holds a workflow's image loads as the workflow, its values through json. -/
theorem load_of_lookup {r : String} (hname : Takes alnum refusal r) {store : Store A}
    {wf : ErasureWorkflow A}
    (h : store.lookup (pathFor alnum r) = some (image json.loads wf.toDict)) :
    load alnum refusal r store = .ok (wf.mapAny json.loads) := by
  rw [load_of_takes hname, h]
  simp only [fromDict_toDict]
  rfl

/-- What was saved last is loaded under every id with the same file name. -/
theorem load_save {r : String} (wf : ErasureWorkflow A)
    (hpath : pathFor alnum r = pathFor alnum wf.requestId) (hgoes : Goes json alnum refusal wf)
    (now : ℤ) (store : Store A) :
    load alnum refusal r ((save json alnum refusal now wf store).toOption.getD store) =
      .ok ({ wf with updatedUnixNs := now }.mapAny json.loads) := by
  have hname : Takes alnum refusal r := (congrArg refusal hpath).trans hgoes.2
  rw [save_eq, if_pos hgoes]
  refine load_of_lookup hname ?_
  rw [hpath]
  exact AList.lookup_insert store

/-- A workflow with nothing done yet. -/
def blank (requestId : String) (receipt : Option A) : ErasureWorkflow A where
  requestId := requestId
  collection := "default"
  externalIds := []
  reason := none
  status := .opened
  createdUnixNs := 0
  updatedUnixNs := 0
  steps := defaultSteps A
  receipt := receipt
  errors := []
  requireReplica := false
  requireCryptoShred := false
  requireDocumentStore := false
  requireBackupAck := false
  steps_ne_nil := List.cons_ne_nil _ _

/-- The only value of a blank workflow is its receipt. -/
theorem values_blank (requestId : String) (receipt : Option A) :
    (blank requestId receipt).values = receipt.toList := by
  simp [blank, ErasureWorkflow.values, defaultSteps, Workflow.stepOrder, ErasureStep.new]

/-- A blank workflow is saved if its receipt can be dumped. -/
theorem goes_blank {r : String} (hname : Takes alnum refusal r) {receipt : Option A}
    (hdump : receipt.toList.all json.dumps = true) :
    Goes json alnum refusal (blank r receipt) :=
  ⟨(congrArg (List.all · json.dumps) (values_blank r receipt)).trans hdump, hname⟩

/-- What a blank ticket saved under one id is, read back under another of the same file. -/
theorem load_blank {r r' : String} (hpath : pathFor alnum r' = pathFor alnum r)
    (hname : Takes alnum refusal r) (receipt : Option A)
    (hdump : receipt.toList.all json.dumps = true) :
    load alnum refusal r' (saveAll json alnum refusal [(0, blank r receipt)] ∅) =
      .ok (blank r (receipt.map json.loads)) := by
  have hload := load_save (blank r receipt) hpath (goes_blank hname hdump) 0 ∅
  exact hload

/-! ### When it is a map -/

section Conditions

variable {ids : Set String} {values : Set A}

/-- One save of a blank workflow. -/
theorem within_blank {r : String} (hr : r ∈ ids) {receipt : Option A}
    (ha : ∀ a ∈ receipt, a ∈ values) : Within ids values [(0, blank r receipt)] := by
  intro s hs
  obtain rfl := List.mem_singleton.mp hs
  refine ⟨hr, fun a hmem => ha a ?_⟩
  rwa [values_blank, Option.mem_toList] at hmem

/-- Where nothing was saved, no other error than `FileNotFoundError` is raised. -/
theorem Lawful.takes (h : Lawful json alnum refusal ids values) :
    ∀ r ∈ ids, Takes alnum refusal r := by
  intro r hr
  have hmissing := h.missing [] (fun s hs => absurd hs List.not_mem_nil) r hr rfl
  rcases hname : refusal (pathFor alnum r) with _ | text
  · exact hname
  · rw [load, hname] at hmissing
    cases hmissing

/-- A second id with the same file name would find the workflow of the first. -/
theorem Lawful.injOn (h : Lawful json alnum refusal ids values) :
    Set.InjOn (pathFor alnum) ids := by
  intro r hr r' hr' hpath
  by_contra hne
  have hwithin : Within ids values [(0, blank r none)] := within_blank hr fun a ha => by cases ha
  have hnone : lastSaved json alnum refusal r' [(0, blank r (none : Option A))] = none := by
    have hother : ¬ ((blank r (none : Option A)).requestId = r' ∧
        Goes json alnum refusal (blank r none)) := fun h => hne h.1
    have hlast := @lastSaved_concat _ json alnum refusal r' [] 0 (blank r (none : Option A))
    rwa [if_neg hother] at hlast
  have hmissing := h.missing _ hwithin r' hr' hnone
  rw [load_blank hpath.symm (h.takes r hr) none rfl] at hmissing
  cases hmissing

/-- A value is saved as the receipt of a blank workflow, and read back. -/
theorem Lawful.plain (h : Lawful json alnum refusal ids values) (hids : ids.Nonempty) :
    ∀ a ∈ values, json.dumps a = true → json.loads a = a := by
  obtain ⟨r, hr⟩ := hids
  intro a ha hdump
  have hwithin : Within ids values [(0, blank r (some a))] :=
    within_blank hr fun b hb => Option.mem_some.mp hb ▸ ha
  have hall : (some a).toList.all json.dumps = true := by simp [hdump]
  have hlast : lastSaved json alnum refusal r [(0, blank r (some a))] =
      some (0, blank r (some a)) := by
    have hconcat := @lastSaved_concat _ json alnum refusal r [] 0 (blank r (some a))
    rwa [if_pos ⟨rfl, goes_blank (h.takes r hr) hall⟩] at hconcat
  have hfound := h.found _ hwithin r hr 0 (blank r (some a)) hlast
  rw [load_blank rfl (h.takes r hr) (some a) hall] at hfound
  have hreceipt := congrArg ErasureWorkflow.receipt (Except.ok.inj hfound)
  exact Option.some.inj hreceipt

/-- All three laws are about one file, whose content the last save decides. -/
theorem lawful_of_plain (hinj : Set.InjOn (pathFor alnum) ids)
    (hnames : ∀ r ∈ ids, Takes alnum refusal r)
    (hplain : ids.Nonempty → ∀ a ∈ values, json.dumps a = true → json.loads a = a) :
    Lawful json alnum refusal ids values := by
  have hlookup : ∀ saves, Within ids values saves → ∀ r ∈ ids, _ := fun saves hw r hr =>
    lookup_saveAll json refusal hinj saves (fun s hs => (hw s hs).1) hr
  refine ⟨?_, ?_, ?_⟩
  · intro saves hwithin r hr hnone
    rw [load_of_takes (hnames r hr), hlookup saves hwithin r hr, hnone]
    rfl
  · intro saves hwithin r hr now wf hlast
    have hload := hlookup saves hwithin r hr
    rw [hlast] at hload
    rw [load_of_lookup (hnames r hr) hload]
    obtain ⟨hmem, hok⟩ := List.mem_filter.mp (List.mem_of_getLast? hlast)
    obtain ⟨-, hgoes⟩ := of_decide_eq_true hok
    have hsame : ∀ a ∈ wf.values, json.loads a = a := fun a ha =>
      hplain ⟨r, hr⟩ a ((hwithin _ hmem).2 a ha) (List.all_eq_true.mp hgoes.1 a ha)
    have hmap : { wf with updatedUnixNs := now }.mapAny json.loads =
        { wf with updatedUnixNs := now } := mapAny_of_values hsame
    rw [hmap]
  · intro saves now wf hwithin r hr hne
    have hbefore : Within ids values saves := fun s hs => hwithin s (List.mem_append_left _ hs)
    have hlast : lastSaved json alnum refusal r (saves ++ [(now, wf)]) =
        lastSaved json alnum refusal r saves := by
      rw [lastSaved_concat, if_neg fun h => hne h.1.symm]
    rw [load_of_takes (hnames r hr), load_of_takes (hnames r hr), hlookup _ hwithin r hr,
      hlookup _ hbefore r hr, hlast]

end Conditions

/-- **The store is a map exactly if** no two request ids in use get the same file name, the file
system takes each of these names, and JSON gives back the values in use. -/
theorem lawful_iff (json : Json A) (alnum : Char → Bool) (refusal : String → Option String)
    (ids : Set String) (values : Set A) :
    Lawful json alnum refusal ids values ↔
      Set.InjOn (pathFor alnum) ids ∧
        (∀ r ∈ ids, refusal (pathFor alnum r) = none) ∧
        (ids.Nonempty → ∀ a ∈ values, json.dumps a = true → json.loads a = a) := by
  constructor
  · intro h
    exact ⟨h.injOn, h.takes, h.plain⟩
  · rintro ⟨hinj, hnames, hplain⟩
    exact lawful_of_plain hinj hnames hplain

/-- JSON values that come back as they are. -/
def unitJson : Json Unit := ⟨fun _ => true, id⟩

/-- A file system that takes names of up to 255 characters. -/
def refuseLong (name : String) : Option String :=
  if name.length ≤ 255 then none else some "[Errno 36] File name too long"

/-- A ticket `"a/b"` is saved, then a ticket `"a_b"`. Both are in `a_b.json`, and what is
loaded as `"a/b"` is the ticket `"a_b"`. -/
theorem tickets_share_a_file :
    load Char.isAlphanum refuseLong "a/b" (saveAll unitJson Char.isAlphanum refuseLong
        [(1, blank "a/b" none), (2, blank "a_b" none)] ∅) =
      .ok { blank "a_b" none with updatedUnixNs := 2 } ∧
    load Char.isAlphanum refuseLong "a/b"
        (saveAll unitJson Char.isAlphanum refuseLong [(2, blank "a_b" none)] ∅) =
      .ok { blank "a_b" none with updatedUnixNs := 2 } := by
  have hpath : pathFor Char.isAlphanum "a/b" = pathFor Char.isAlphanum "a_b" := by decide +kernel
  have hname : Takes Char.isAlphanum refuseLong "a_b" := by decide +kernel
  have hgoes : Goes unitJson Char.isAlphanum refuseLong (blank "a_b" none) := goes_blank hname rfl
  have hsaved : ∀ store : Store Unit, load Char.isAlphanum refuseLong "a/b"
      ((save unitJson Char.isAlphanum refuseLong 2 (blank "a_b" none) store).toOption.getD store) =
      .ok { blank "a_b" none with updatedUnixNs := 2 } :=
    load_save (blank "a_b" none) hpath hgoes 2
  exact ⟨hsaved _, hsaved _⟩

end Map

end WorkflowStore

end Unlearning
