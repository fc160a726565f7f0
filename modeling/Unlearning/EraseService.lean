import Unlearning.Registry
import Unlearning.Residual
import Unlearning.Sha256

/-!
# The erasure service (`integrations/erase_service.py`)

`ErasureService.delete` resolves ids, erases and verifies their labels one by
one, compacts at most once, runs residual proofs and derives the status of the
receipt from counters and the texts of the errors.

What the service calls is a parameter: a `Backend` and a persistence engine are
functions on a state `σ` of which nothing is known, so every call may return or
raise anything and may change `σ`. An exception of theirs is its text, which is
all the service keeps of it. `Ambient` is what a call reads from the
interpreter: the environment, the clock, files.

`Visit` is a history variable: what the calls made for one id returned. Metrics
and debug logging have no effect on the result and are left out.
-/

namespace Unlearning

open PyText FloatArith PyFloat

/-! ## What the service talks to -/

/-- `BackendEraseResult`, as far as it is read. -/
structure BackendEraseResult where
  success : Bool
  bytesWiped : ℤ
  message : Option String

/-- `HardDeleteBackend`; the optional methods and attributes may be missing. -/
structure Backend (σ D : Type) where
  hardDeleteLabel : String → ℤ → ℤ → σ → Except String BackendEraseResult × σ
  verifyZeroed : String → ℤ → σ → Except String Bool × σ
  getVector : Option (ℤ → σ → Except String (List D) × σ)
  compact : Option (σ → Except String ℤ × σ)
  /-- `_vectors.shape[0]` -/
  vectorRows : Option (σ → Except String ℕ)
  /-- `_heal_mirror` -/
  healMirror : Bool

/-- What `hard_delete_and_heal` returns, as far as it is read. -/
structure DurableResult where
  success : Bool
  bytesWiped : ℤ
  message : Option String
  transactionId : Option ℤ

/-- A persistence engine; it may lack the method. -/
structure Durable (σ : Type) where
  hardDeleteAndHeal : Option (ℤ → ℤ → σ → Except String DurableResult × σ)

/-- `residual_proof`: `"off"`, `"sample"` or `"full"`. -/
inductive ProofMode : Type where
  | off
  | sample
  | full
  deriving DecidableEq

/-- `ErasureReceipt.status`; `partially` is `"partial"`. -/
inductive ReceiptStatus : Type where
  | complete
  | partially
  | failed
  deriving DecidableEq

/-- The text of a status. -/
def ReceiptStatus.text : ReceiptStatus → String
  | complete => "complete"
  | partially => "partial"
  | failed => "failed"

/-- `ResidualProofSummary` -/
structure ResidualProofSummary (D : Type) where
  mode : ProofMode
  passed : Option Bool
  checked : ℕ
  failed : ℕ
  proofs : List (ResidualProof D)
  details : String

/-- `ErasureReceipt` -/
structure ErasureReceipt (D : Type) where
  requestId : String
  collection : String
  externalIds : List String
  labels : List ℤ
  success : Bool
  reason : Option String
  timestampUnixNs : ℤ
  bytesWipedTotal : ℤ
  backendMessages : List String
  transactionIds : List ℤ
  signature : String
  errors : List String
  receiptVersion : ℕ
  status : ReceiptStatus
  compacted : Bool
  residualProof : ResidualProofSummary D

/-- What `receipt_log.append` may raise; an `OSError` is swallowed. -/
inductive LogFailure : Type where
  | osError : LogFailure
  | other (text : String) : LogFailure

/-- The fields of `ErasureService` that a call does not change. -/
structure Service (σ D : Type) where
  backend : Backend σ D
  persistence : Option (Durable σ)
  dropMappings : Bool
  defaultCompact : CompactMode
  defaultResidualProof : Option ProofMode
  receiptLog : Option (ErasureReceipt D → σ → Option LogFailure × σ)
  signingKey : List UInt8

/-- What a call of the service changes. -/
structure ServiceState (σ D : Type) [PyFloat D] where
  registry : Registry
  outside : σ
  policy : CompactCoalescePolicy D

/-- What a call reads from the interpreter. -/
structure Ambient (σ D : Type) where
  environ : Environ
  printable : Char → Bool
  uuid4 : String
  timeNs : ℤ
  /-- `time.monotonic()` in `note_deletes` and in `decide` -/
  noteTime : D
  decideTime : D
  /-- `str(Path(path))` -/
  pathText : String → String
  file : String → σ → Option (Except String (List UInt8))

/-- The arguments of `delete`. -/
structure DeleteCall where
  collection : String
  ids : List String
  reason : Option String
  requestId : Option String
  maxM : ℤ
  idempotent : Bool
  compact : Option CompactArg
  residualProof : Option ProofMode
  checkpointPath : Option String

/-- What `delete` raises. -/
inductive ServiceError : Type where
  | registry (e : RegistryError) : ServiceError
  | valueError (message : String) : ServiceError
  /-- an exception of the backend, the checkpoint file or the receipt log -/
  | outside (text : String) : ServiceError

/-- What the calls made for one id returned. -/
structure Visit where
  ext : String
  /-- `resolve` -/
  label : Option ℤ
  /-- the `success` of the erase -/
  erase : Option (Except String Bool)
  /-- `verify_zeroed` -/
  verify : Option (Except String Bool)

/-- The id was resolved, its erase reported success and `verify_zeroed` returned
`True`. -/
def Visit.verified : Visit → Bool
  | ⟨_, some _, some (.ok true), some (.ok true)⟩ => true
  | _ => false

/-- The ids of a batch: stripped, blank ones left out. -/
def batchIds (ids : List String) : List String := (ids.map strip).filter fun ext => ext ≠ ""

/-- `ext_ids` -/
def DeleteCall.extIds (call : DeleteCall) : List String := batchIds call.ids

namespace Service

variable {σ D : Type} [PyFloat D]

/-- `backend_supports_compact` -/
def supportsCompact (svc : Service σ D) : Bool := svc.backend.compact.isSome

/-- `supports_heal` -/
def supportsHeal (svc : Service σ D) : Bool := svc.backend.healMirror || svc.persistence.isSome

/-! ## Modes -/

/-- `idx_size`, from the registry and the batch. -/
def registrySize (reg : Registry) (collection : String) (count : ℕ) : ℕ :=
  match reg.labels collection with
  | .ok labels => max (max count 1) (labels.length + count)
  | .error _ => max count 1

/-- The `idx_size` of the adaptive strategy. -/
def indexSize (svc : Service σ D) (st : ServiceState σ D) (collection : String) (count : ℕ) : ℕ :=
  let size := registrySize st.registry collection count
  match svc.backend.vectorRows with
  | none => size
  | some rows => match rows st.outside with
    | .ok n => max size n
    | .error _ => size

/-- `compact_arg` after the adaptive strategy, and the message it leaves. -/
def adaptCompact (svc : Service σ D) (amb : Ambient σ D) (call : DeleteCall)
    (st : ServiceState σ D) : CompactArg × List String :=
  let count := call.extIds.length
  let adapted : CompactArg × StrategyRecommendation D :=
    applyStrategyToDeleteKwargs amb.environ count (svc.indexSize st call.collection count)
      svc.supportsCompact svc.supportsHeal call.compact
  let message := "strategy:" ++ adapted.2.action.text ++ "(" ++ adapted.2.reason ++ ")"
  match call.compact with
  | none => (adapted.1, [message])
  | some arg => if arg.isAuto then (adapted.1, [message]) else (arg, [])

/-- The effective compact mode. -/
def compactMode (svc : Service σ D) (amb : Ambient σ D) (call : DeleteCall)
    (st : ServiceState σ D) : Except String CompactMode :=
  normalizeCompact amb.printable (svc.adaptCompact amb call st).1

/-- `_env_residual_proof_mode` -/
def envResidualProofMode (environ : Environ) : ProofMode :=
  let raw := environ.word "HEALER_RESIDUAL_PROOF" "sample"
  if raw ∈ ["off", "0", "false", "no"] then .off
  else if raw ∈ ["full", "all"] then .full
  else .sample

/-- The effective proof mode. -/
def proofMode (svc : Service σ D) (amb : Ambient σ D) (call : DeleteCall) : ProofMode :=
  match call.residualProof with
  | some mode => mode
  | none => svc.defaultResidualProof.getD (envResidualProofMode amb.environ)

/-! ## The ids, one by one -/

/-- The local variables of the loop, and what it changes. -/
structure Batch (σ D : Type) where
  registry : Registry
  outside : σ
  labels : List ℤ
  messages : List String
  errors : List String
  txIds : List ℤ
  bytesTotal : ℤ
  erasedExt : List String
  originals : Dict ℤ (List D)
  visits : List Visit

/-- The row of a label before it is erased, for the proofs. -/
def snapshot (svc : Service σ D) (mode : ProofMode) (label : ℤ) (b : Batch σ D) : Batch σ D :=
  match mode, svc.backend.getVector with
  | .off, _ => b
  | _, none => b
  | _, some getVector => match getVector label b.outside with
    | (.ok vec, o) => { b with outside := o, originals := b.originals.insert label vec }
    | (.error _, o) => { b with outside := o }

/-- The erase of a label: through the persistence engine if it can. -/
def eraseLabel (svc : Service σ D) (call : DeleteCall) (label : ℤ) (o : σ) :
    Except String (BackendEraseResult × Option ℤ) × σ :=
  match svc.persistence.bind Durable.hardDeleteAndHeal with
  | some hardDeleteAndHeal => match hardDeleteAndHeal label call.maxM o with
    | (.ok r, o) => (.ok (⟨r.success, r.bytesWiped, r.message⟩, r.transactionId), o)
    | (.error e, o) => (.error e, o)
  | none => match svc.backend.hardDeleteLabel call.collection label call.maxM o with
    | (.ok r, o) => (.ok (r, none), o)
    | (.error e, o) => (.error e, o)

/-- The counters of a verified erase. -/
def count (ext : String) (label : ℤ) (br : BackendEraseResult) (b : Batch σ D) : Batch σ D :=
  { b with
    bytesTotal := b.bytesTotal + br.bytesWiped
    labels := b.labels ++ [label]
    erasedExt := b.erasedExt ++ [ext]
    messages := b.messages ++ (br.message.filter fun m => m ≠ "").toList
    visits := b.visits ++ [⟨ext, some label, some (.ok true), some (.ok true)⟩] }

/-- The end of the loop body: the mapping goes. -/
def dropMapping (svc : Service σ D) (amb : Ambient σ D) (call : DeleteCall) (ext : String)
    (b : Batch σ D) : Batch σ D :=
  if svc.dropMappings then
    match b.registry.drop amb.printable call.collection ext with
    | (.ok _, reg) => { b with registry := reg }
    | (.error e, reg) =>
      { b with registry := reg, errors := b.errors ++ [ext ++ ": " ++ e.text amb.printable] }
  else b

/-- After an erase that reported success. -/
def verifyErased (svc : Service σ D) (amb : Ambient σ D) (call : DeleteCall) (ext : String)
    (label : ℤ) (br : BackendEraseResult) (b : Batch σ D) : Batch σ D :=
  match svc.backend.verifyZeroed call.collection label b.outside with
  | (.error e, o) =>
    { b with
      outside := o
      errors := b.errors ++ [ext ++ ": " ++ e]
      visits := b.visits ++ [⟨ext, some label, some (.ok true), some (.error e)⟩] }
  | (.ok false, o) =>
    { b with
      outside := o
      errors := b.errors ++
        ["post-condition failed: label " ++ toString label ++ " not fully zeroed"]
      visits := b.visits ++ [⟨ext, some label, some (.ok true), some (.ok false)⟩] }
  | (.ok true, o) =>
    dropMapping svc amb call ext (count ext label br { b with outside := o })

/-- The loop body for an id that resolves to `label`. -/
def eraseResolved (svc : Service σ D) (amb : Ambient σ D) (call : DeleteCall) (ext : String)
    (label : ℤ) (b : Batch σ D) : Batch σ D :=
  let b := snapshot svc (svc.proofMode amb call) label b
  match svc.eraseLabel call label b.outside with
  | (.error e, o) =>
    { b with
      outside := o
      errors := b.errors ++ [ext ++ ": " ++ e]
      visits := b.visits ++ [⟨ext, some label, some (.error e), none⟩] }
  | (.ok (br, tx), o) =>
    let b := { b with outside := o, txIds := b.txIds ++ tx.toList }
    if br.success then verifyErased svc amb call ext label br b
    else
      { b with
        errors := b.errors ++ ["erase failed for " ++ ext ++ " (label=" ++ toString label ++
          "): " ++ br.message.getD "None"]
        visits := b.visits ++ [⟨ext, some label, some (.ok false), none⟩] }

/-- The loop body. -/
def eraseId (svc : Service σ D) (amb : Ambient σ D) (call : DeleteCall) (ext : String)
    (b : Batch σ D) : Option RegistryError × Batch σ D :=
  match b.registry.resolve amb.printable call.collection ext with
  | .ok resolved => (none, eraseResolved svc amb call ext resolved.label b)
  | .error (.idMapping message) =>
    if call.idempotent then
      (none, { b with
        errors := b.errors ++
          ["skip " ++ ext ++ ": " ++ (RegistryError.idMapping message).text amb.printable]
        visits := b.visits ++ [⟨ext, none, none, none⟩] })
    else (some (.idMapping message), b)
  | .error e => (some e, b)

/-- The loop; what it raises leaves `delete`. -/
def eraseAll (svc : Service σ D) (amb : Ambient σ D) (call : DeleteCall) :
    List String → Batch σ D → Option RegistryError × Batch σ D
  | [], b => (none, b)
  | ext :: rest, b => match eraseId svc amb call ext b with
    | (some e, b) => (some e, b)
    | (none, b) => eraseAll svc amb call rest b

/-! ## Compaction -/

/-- Whether to compact, and what is said of it. -/
structure CompactChoice where
  shouldCompact : Bool
  reason : String
  /-- the reason of a deferral -/
  deferred : Option String

/-- Whether to compact after a batch that erased something. -/
def chooseCompact (mode : CompactMode) (supports : Bool) (policy : CompactCoalescePolicy D)
    (now : D) : CompactChoice :=
  match mode with
  | .never => ⟨false, "never", none⟩
  | .always => ⟨true, "always", none⟩
  | .auto =>
    if supports then
      match policy.mode with
      | .never => ⟨false, "policy_never", none⟩
      | .coalesce =>
        let decision := policy.decide false now
        ⟨decision.shouldCompact, decision.reason,
          if decision.shouldCompact then none else some decision.reason⟩
      | .always => ⟨true, "auto_always", none⟩
    else ⟨false, "no_compact_backend", none⟩

/-- What the compaction of a batch did. -/
structure Compaction (σ D : Type) [PyFloat D] where
  outside : σ
  policy : CompactCoalescePolicy D
  compacted : Bool
  deferred : Bool
  messages : List String
  errors : List String

/-- `backend.compact()`, where a compaction was decided. -/
def compactNow (svc : Service σ D) (reason : String) (o : σ) (policy : CompactCoalescePolicy D) :
    Compaction σ D :=
  match svc.backend.compact with
  | none => ⟨o, policy, false, false, [], ["compact requested but backend has no compact() method"]⟩
  | some compact => match compact o with
    | (.ok live, o) => ⟨o, policy.markCompacted, true, false,
        ["compact:live=" ++ toString live ++ ";reason=" ++ reason], []⟩
    | (.error e, o) => ⟨o, policy, false, false, [], ["compact failed: " ++ e]⟩

/-- The compaction after a batch. -/
def runCompaction (svc : Service σ D) (amb : Ambient σ D) (mode : CompactMode) (labels : List ℤ)
    (o : σ) (policy : CompactCoalescePolicy D) : Compaction σ D :=
  if labels = [] then ⟨o, policy, false, false, [], []⟩
  else
    let policy :=
      if svc.supportsCompact then policy.noteDeletes labels.length amb.noteTime else policy
    let choice := chooseCompact mode svc.supportsCompact policy amb.decideTime
    if choice.shouldCompact then svc.compactNow choice.reason o policy
    else
      ⟨o, policy, false, choice.deferred.isSome,
        (choice.deferred.map fun reason => "compact:deferred(" ++ reason ++ ")").toList, []⟩

/-! ## Residual proofs -/

/-- `[0.0] if live_ok else [1.0]`, where the row cannot be read back. -/
def verifiedRow (svc : Service σ D) (collection : String) (label : ℤ) (o : σ) :
    Except String (List D) × σ :=
  match svc.backend.verifyZeroed collection label o with
  | (.ok liveOk, o) => (.ok [if liveOk then ofInt 0 else ofInt 1], o)
  | (.error e, o) => (.error e, o)

/-- The row of a label after the erase. -/
def liveRow (svc : Service σ D) (collection : String) (label : ℤ) (o : σ) :
    Except String (List D) × σ :=
  match svc.backend.getVector with
  | none => svc.verifiedRow collection label o
  | some getVector => match getVector label o with
    | (.ok vec, o) => (.ok vec, o)
    | (.error _, o) => svc.verifiedRow collection label o

/-- The proof for one label. -/
def proveOne (svc : Service σ D) (amb : Ambient σ D) (call : DeleteCall)
    (originals : Dict ℤ (List D)) (label : ℤ) (ext : String) (o : σ) :
    Except String (ResidualProof D) × σ :=
  match svc.liveRow call.collection label o with
  | (.error e, o) => (.error e, o)
  | (.ok live, o) =>
    (proveVectorErased ext live (originals.lookup label)
      (call.checkpointPath.map fun path => ⟨amb.pathText path, amb.file path o⟩), o)

/-- The proofs for the labels that were erased, one after the other. -/
def proveAll (svc : Service σ D) (amb : Ambient σ D) (call : DeleteCall)
    (originals : Dict ℤ (List D)) :
    List (ℤ × String) → σ → Except String (List (ResidualProof D)) × σ
  | [], o => (.ok [], o)
  | (label, ext) :: rest, o => match proveOne svc amb call originals label ext o with
    | (.error e, o) => (.error e, o)
    | (.ok proof, o) => match proveAll svc amb call originals rest o with
      | (.error e, o) => (.error e, o)
      | (.ok proofs, o) => (.ok (proof :: proofs), o)

/-- The labels that are proved: all, or first, middle and last of a large sample. -/
def sampled (mode : ProofMode) (erased : List (ℤ × String)) : List (ℤ × String) :=
  if mode = .sample ∧ 3 < erased.length then
    [0, erased.length / 2, erased.length - 1].filterMap fun i => erased[i]?
  else erased

/-- The summary of the proofs that ran. -/
def summarize (mode : ProofMode) (proofs : List (ResidualProof D)) : ResidualProofSummary D :=
  let failed := (proofs.filter fun proof => !proof.passed).length
  { mode := mode
    passed := some (failed = 0)
    checked := proofs.length
    failed := failed
    proofs := proofs
    details :=
      if proofs = [] then "no proofs run"
      else "checked=" ++ toString proofs.length ++ " failed=" ++ toString failed }

/-- `_run_residual_proofs` -/
def runResidualProofs (svc : Service σ D) (amb : Ambient σ D) (call : DeleteCall)
    (mode : ProofMode) (b : Batch σ D) (o : σ) : Except String (ResidualProofSummary D) × σ :=
  if mode = .off ∨ b.labels = [] then
    (.ok ⟨mode, none, 0, 0, [], if mode = .off then "skipped" else "no labels erased"⟩, o)
  else
    match proveAll svc amb call b.originals (sampled mode (b.labels.zip b.erasedExt)) o with
    | (.error e, o) => (.error e, o)
    | (.ok proofs, o) => (.ok (summarize mode proofs), o)

/-! ## Status and receipt -/

/-- `_derive_status` -/
def deriveStatus (requested erased : ℕ) (errors : List String) (mode : ProofMode)
    (proofPassed : Option Bool) (deferredCompact : Bool) : ReceiptStatus :=
  let compactFailed := errors.any fun e =>
    startsWith e "compact failed" || contains e "compact requested but backend"
  let proofFailed := mode ≠ .off ∧ 0 < erased ∧ proofPassed ≠ some true
  let eraseFailed := errors.any fun e =>
    !startsWith e "skip " && !startsWith e "residual_proof" && !startsWith e "compact" &&
      !contains e "compact requested but backend"
  let onlySkips := !errors.isEmpty && errors.all fun e => startsWith e "skip "
  let allRequestedErased := erased = requested ∧ !eraseFailed
  if requested = 0 then .complete
  else if erased = 0 then (if onlySkips then .partially else .failed)
  else if allRequestedErased ∧ !compactFailed ∧ ¬ proofFailed ∧ errors = [] then .complete
  else if allRequestedErased ∧ !compactFailed ∧ ¬ proofFailed ∧ deferredCompact ∧ !onlySkips ∧
      errors.all (fun e => startsWith e "skip ") then .complete
  else .partially

/-- The strategy hint of the receipt. -/
def strategyHint (svc : Service σ D) (amb : Ambient σ D) (call : DeleteCall) (reg : Registry)
    (o : σ) (labels : List ℤ) (compacted : Bool) : List String :=
  if labels = [] then []
  else
    let size := registrySize reg call.collection labels.length
    let hint (size : ℕ) : List String :=
      let r : StrategyRecommendation D := recommendDeleteStrategy amb.environ labels.length
        (max size labels.length) svc.supportsCompact svc.supportsHeal
      if r.preferFullRebuild && !compacted then
        ["strategy_hint:" ++ r.action.text ++ "(" ++ r.reason ++ ")"]
      else []
    match svc.backend.vectorRows with
    | none => hint size
    | some rows => match rows o with
      | .ok n => hint (max size n)
      -- the whole hint is dropped
      | .error _ => []

/-- The text that `_sign` signs. -/
def signedPayload (receipt : ErasureReceipt D) : String :=
  toString receipt.receiptVersion ++ "|" ++ receipt.requestId ++ "|" ++ receipt.collection ++ "|" ++
    ",".intercalate receipt.externalIds ++ "|" ++ toString receipt.timestampUnixNs ++ "|" ++
    toString receipt.bytesWipedTotal ++ "|" ++ ofBool receipt.success ++ "|" ++
    receipt.status.text ++ "|" ++ (if receipt.compacted then "1" else "0")

/-- `_sign` -/
def sign (svc : Service σ D) (receipt : ErasureReceipt D) : String :=
  Sha2.hex (Sha2.hmacSha256 svc.signingKey (signedPayload receipt).toUTF8.toList)

/-- `request_id or str(uuid.uuid4())` -/
def requestId (amb : Ambient σ D) (call : DeleteCall) : String :=
  match call.requestId with
  | none => amb.uuid4
  | some req => if req = "" then amb.uuid4 else req

/-- What a call of `delete` returned or raised, and what it left. -/
structure Deletion (σ D : Type) [PyFloat D] where
  result : Except ServiceError (ErasureReceipt D)
  state : ServiceState σ D
  visits : List Visit

/-- The errors of a batch. -/
def allErrors (mode : ProofMode) (b : Batch σ D) (c : Compaction σ D)
    (summary : ResidualProofSummary D) : List String :=
  b.errors ++ c.errors ++
    (if mode ≠ .off ∧ summary.passed = some false then
      ["residual_proof failed: " ++ summary.details] else [])

/-- The receipt of a batch, before it is signed. -/
def draft (svc : Service σ D) (amb : Ambient σ D) (call : DeleteCall) (b : Batch σ D)
    (c : Compaction σ D) (summary : ResidualProofSummary D) (o : σ) : ErasureReceipt D :=
  let mode := svc.proofMode amb call
  let errors := allErrors mode b c summary
  let status :=
    deriveStatus call.extIds.length b.labels.length errors mode summary.passed c.deferred
  { requestId := requestId amb call
    collection := call.collection
    externalIds := call.extIds
    labels := b.labels
    success := status = .complete
    reason := call.reason
    timestampUnixNs := amb.timeNs
    bytesWipedTotal := b.bytesTotal
    backendMessages := b.messages ++ c.messages ++
      svc.strategyHint amb call b.registry o b.labels c.compacted
    transactionIds := b.txIds
    signature := ""
    errors := errors
    receiptVersion := 2
    status := status
    compacted := c.compacted
    residualProof := summary }

/-- The log append; only an `OSError` is swallowed. -/
def logReceipt (svc : Service σ D) (receipt : ErasureReceipt D) (o : σ) :
    Except ServiceError (ErasureReceipt D) × σ :=
  match svc.receiptLog with
  | none => (.ok receipt, o)
  | some append => match append receipt o with
    | (some (.other text), o) => (.error (.outside text), o)
    | (_, o) => (.ok receipt, o)

/-- `delete` after the loop. -/
def conclude (svc : Service σ D) (amb : Ambient σ D) (call : DeleteCall) (mode : CompactMode)
    (policy : CompactCoalescePolicy D) (b : Batch σ D) : Deletion σ D :=
  let c := svc.runCompaction amb mode b.labels b.outside policy
  match svc.runResidualProofs amb call (svc.proofMode amb call) b c.outside with
  | (.error e, o) => ⟨.error (.outside e), ⟨b.registry, o, c.policy⟩, b.visits⟩
  | (.ok summary, o) =>
    let receipt := svc.draft amb call b c summary o
    let logged := svc.logReceipt { receipt with signature := svc.sign receipt } o
    ⟨logged.1, ⟨b.registry, logged.2, c.policy⟩, b.visits⟩

/-- The loop's variables at its start. -/
def Batch.start (st : ServiceState σ D) (messages : List String) : Batch σ D :=
  ⟨st.registry, st.outside, [], messages, [], [], 0, [], ∅, []⟩

/-- `delete` -/
def delete (svc : Service σ D) (amb : Ambient σ D) (call : DeleteCall) (st : ServiceState σ D) :
    Deletion σ D :=
  match svc.compactMode amb call st with
  | .error message => ⟨.error (.valueError message), st, []⟩
  | .ok mode =>
    match eraseAll svc amb call call.extIds (Batch.start st (svc.adaptCompact amb call st).2) with
    | (some e, b) => ⟨.error (.registry e), ⟨b.registry, b.outside, st.policy⟩, b.visits⟩
    | (none, b) => svc.conclude amb call mode st.policy b

end Service

end Unlearning
