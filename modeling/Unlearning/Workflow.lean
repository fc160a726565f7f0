import Mathlib.Data.Int.Notation
import Mathlib.Data.List.Basic
import Mathlib.Logic.Function.Basic

/-!
# Erasure workflows (`integrations/workflow.py`)

A workflow is a ticket with six steps, saved after every `advance`. The erase
service and the four hooks are whatever they are: each call of `advance` meets an
`Advance`, which says what they return or raise. An exception that is not an
`Exception` (say, `KeyboardInterrupt`) goes through every handler and nothing is
saved; the same happens when a hook returns something `json.dumps` refuses.

* the bottom layer is the runner, stage by stage, with the hooks it calls;
* `Keeps` says what every stage keeps: steps that are done stay as they are and
  their hooks are not called;
* `Sound` is the invariant of saved workflows.

Timestamps are left out: nothing reads them.
-/

namespace Unlearning

namespace Workflow

/-- The names of the steps. -/
inductive StepName : Type where
  | liveHardDelete
  | residualProof
  | replicaFanout
  | cryptoShred
  | documentStore
  | backupPolicy
  deriving DecidableEq

/-- `STEP_ORDER` -/
def stepOrder : List StepName :=
  [.liveHardDelete, .residualProof, .replicaFanout, .cryptoShred, .documentStore, .backupPolicy]

/-- The text of a name. -/
def StepName.text : StepName → String
  | liveHardDelete => "live_hard_delete"
  | residualProof => "residual_proof"
  | replicaFanout => "replica_fanout"
  | cryptoShred => "crypto_shred"
  | documentStore => "document_store"
  | backupPolicy => "backup_policy"

/-- `StepStatus` -/
inductive StepStatus : Type where
  | pending
  | running
  | done
  | failed
  | skipped
  deriving DecidableEq

/-- `WorkflowStatus`; `opened` is `"open"`. -/
inductive WorkflowStatus : Type where
  | opened
  | inProgress
  | complete
  | blocked
  deriving DecidableEq

/-- What the runner reads of `receipt.residual_proof`: a missing key is `none`, and
so is a `passed` that is neither `True` nor `False`. -/
structure ProofDict where
  mode : Option String
  passed : Option Bool
  details : Option String
  deriving DecidableEq

/-- What the runner reads of a receipt. -/
structure Receipt where
  success : Bool
  status : String
  compacted : Bool
  labels : List ℤ
  bytesWipedTotal : ℤ
  errors : List String
  residualProof : Option ProofDict
  deriving DecidableEq

/-- `step.artifact`; `A` is what hooks return. -/
inductive Artifact (A : Type) : Type where
  | live (success : Bool) (labels : List ℤ) (bytesWipedTotal : ℤ) : Artifact A
  | proof (proof : ProofDict) : Artifact A
  | hook (result : A) : Artifact A

/-- `ErasureStep`, its name aside. -/
structure ErasureStep (A : Type) where
  status : StepStatus
  detail : String
  artifact : Option (Artifact A)

/-- `ErasureWorkflow`. `steps` holds one step for each name, in `stepOrder`. -/
structure ErasureWorkflow (A : Type) where
  requestId : String
  collection : String
  externalIds : List String
  reason : Option String
  status : WorkflowStatus
  steps : StepName → ErasureStep A
  receipt : Option Receipt
  errors : List String
  requireReplica : Bool
  requireCryptoShred : Bool
  requireDocumentStore : Bool
  requireBackupAck : Bool

/-- What a call of foreign code comes to. -/
inductive Outcome (α : Type) : Type where
  | returns (a : α) : Outcome α
  /-- an `Exception`, with its text -/
  | raises (text : String) : Outcome α
  /-- an exception that no handler here catches -/
  | escapes : Outcome α

/-- What one call of `advance` meets. -/
structure Advance (A : Type) where
  delete : Outcome Receipt
  /-- for each optional step: no hook, or what its hook does -/
  hook : StepName → Option (Outcome A)
  skipOptional : Bool

/-- `json` on what hooks return: whether `dumps` takes it, and what `loads` makes of it. -/
structure Json (A : Type) where
  dumps : A → Bool
  loads : A → A

/-- The workflow in memory, and the steps whose code was called so far. -/
structure Work (A : Type) where
  wf : ErasureWorkflow A
  invoked : List StepName

/-- A stage of `advance`. An exception that escapes leaves the list of calls made. -/
abbrev Stage (A : Type) := Work A → Except (List StepName) (Work A)

section Runner

variable {A : Type}

/-- One step is replaced. -/
def ErasureWorkflow.setStep (wf : ErasureWorkflow A) (name : StepName) (step : ErasureStep A) :
    ErasureWorkflow A :=
  { wf with steps := Function.update wf.steps name step }

/-- `wf.errors.append(…)` -/
def ErasureWorkflow.addError (wf : ErasureWorkflow A) (text : String) : ErasureWorkflow A :=
  { wf with errors := wf.errors ++ [text] }

/-- Which optional steps the policy requires. -/
def ErasureWorkflow.requires (wf : ErasureWorkflow A) : StepName → Bool
  | .replicaFanout => wf.requireReplica
  | .cryptoShred => wf.requireCryptoShred
  | .documentStore => wf.requireDocumentStore
  | .backupPolicy => wf.requireBackupAck
  | .liveHardDelete => false
  | .residualProof => false

/-- `create` -/
def create (requestId collection : String) (ids : List String) (reason : Option String)
    (requireReplica requireCryptoShred requireDocumentStore requireBackupAck : Bool) :
    ErasureWorkflow A where
  requestId := requestId
  collection := collection
  externalIds := ids
  reason := reason
  status := .opened
  steps _ := ⟨.pending, "", none⟩
  receipt := none
  errors := []
  requireReplica := requireReplica
  requireCryptoShred := requireCryptoShred
  requireDocumentStore := requireDocumentStore
  requireBackupAck := requireBackupAck

/-- A Python truth value, as an f-string shows it. -/
def boolText (b : Bool) : String := if b then "True" else "False"

/-- What `_run_live_delete` records of a receipt. -/
def recordReceipt (r : Receipt) (wf : ErasureWorkflow A) : ErasureWorkflow A :=
  let wf := { wf with receipt := some r }
  if r.success then
    wf.setStep .liveHardDelete
      { status := .done
        detail := "status=" ++ r.status ++ " compacted=" ++ boolText r.compacted
        artifact := some (.live r.success r.labels r.bytesWipedTotal) }
  else
    let joined := "; ".intercalate r.errors
    let detail := if joined = "" then r.status else joined
    (wf.setStep .liveHardDelete
      { wf.steps .liveHardDelete with status := .failed, detail := detail }).addError
        ("live_hard_delete: " ++ detail)

/-- A step that failed with an exception. -/
def recordFailure (name : StepName) (text : String) (wf : ErasureWorkflow A) : ErasureWorkflow A :=
  (wf.setStep name { wf.steps name with status := .failed, detail := text }).addError
    (name.text ++ ": " ++ text)

/-- `_run_live_delete` -/
def runLiveDelete (delete : Outcome Receipt) : Stage A := fun w =>
  if (w.wf.steps .liveHardDelete).status = .done then .ok w
  else
    let invoked := w.invoked ++ [.liveHardDelete]
    match delete with
    | .returns r => .ok ⟨recordReceipt r w.wf, invoked⟩
    | .raises text => .ok ⟨recordFailure .liveHardDelete text w.wf, invoked⟩
    | .escapes => .error invoked

/-- `_mirror_residual_from_receipt` -/
def mirrorResidualFromReceipt : Stage A := fun w =>
  let step := w.wf.steps .residualProof
  if step.status = .done then .ok w
  else
    let proof := (w.wf.receipt.bind Receipt.residualProof).getD ⟨none, none, none⟩
    let set (step : ErasureStep A) := w.wf.setStep .residualProof step
    let wf :=
      if proof.mode.getD "off" = "off" then
        set { step with status := .skipped, detail := "residual proof disabled" }
      else match proof.passed with
        | some true =>
          set ⟨.done, proof.details.getD "passed", some (.proof proof)⟩
        | some false =>
          let detail := proof.details.getD "failed"
          (set ⟨.failed, detail, some (.proof proof)⟩).addError ("residual_proof: " ++ detail)
        | none => set { step with status := .skipped, detail := "no residual proof data" }
    .ok { w with wf := wf }

/-- `_run_optional` -/
def runOptional (name : StepName) (required : Bool) (hook : Option (Outcome A))
    (skipOptional : Bool) : Stage A := fun w =>
  let step := w.wf.steps name
  if step.status = .done then .ok w
  else if !required then
    let step := { step with status := .skipped, detail := "not required by policy" }
    .ok { w with wf := w.wf.setStep name step }
  else match hook with
    | none =>
      let wf := w.wf.setStep name
        { step with
          status := if !skipOptional then .failed else .pending
          detail := "required but no hook configured" }
      .ok { w with wf :=
        if !skipOptional then wf.addError (name.text ++ ": no hook configured") else wf }
    | some outcome =>
      let invoked := w.invoked ++ [name]
      match outcome with
      | .returns result => .ok ⟨w.wf.setStep name ⟨.done, "ok", some (.hook result)⟩, invoked⟩
      | .raises text => .ok ⟨recordFailure name text w.wf, invoked⟩
      | .escapes => .error invoked

/-- The loop of `_compute_status`, once the live delete is done. -/
def checkSteps (wf : ErasureWorkflow A) : List StepName → WorkflowStatus
  | [] => .complete
  | name :: rest =>
    let status := (wf.steps name).status
    if name = .liveHardDelete then checkSteps wf rest
    else if name = .residualProof then
      if status = .failed then .blocked else checkSteps wf rest
    else if wf.requires name ∧ ¬ (status = .done ∨ status = .skipped) then
      if status = .failed then .blocked else .inProgress
    else if wf.requires name ∧ status = .failed then .blocked
    else checkSteps wf rest

/-- `_compute_status` -/
def computeStatus (wf : ErasureWorkflow A) : WorkflowStatus :=
  let live := (wf.steps .liveHardDelete).status
  if live ≠ .done then (if live = .failed then .blocked else .inProgress)
  else checkSteps wf stepOrder

/-- The stages of `advance`, in order. -/
def stages (call : Advance A) : Stage A := fun w => do
  let w ← runLiveDelete call.delete w
  let w ← mirrorResidualFromReceipt w
  let w ← runOptional .replicaFanout w.wf.requireReplica (call.hook .replicaFanout)
    call.skipOptional w
  let w ← runOptional .cryptoShred w.wf.requireCryptoShred (call.hook .cryptoShred)
    call.skipOptional w
  let w ← runOptional .documentStore w.wf.requireDocumentStore (call.hook .documentStore)
    call.skipOptional w
  runOptional .backupPolicy w.wf.requireBackupAck (call.hook .backupPolicy) call.skipOptional w

/-- Whether `json.dumps` takes the workflow: all but what hooks returned it always takes. -/
def dumps (json : Json A) (wf : ErasureWorkflow A) : Bool :=
  stepOrder.all fun name => match (wf.steps name).artifact with
    | some (.hook result) => json.dumps result
    | _ => true

/-- What JSON makes of an artifact. -/
def Artifact.reload (json : Json A) : Artifact A → Artifact A
  | hook result => hook (json.loads result)
  | live success labels bytesWipedTotal => live success labels bytesWipedTotal
  | proof p => proof p

/-- `from_dict` of what was dumped. -/
def reload (json : Json A) (wf : ErasureWorkflow A) : ErasureWorkflow A :=
  { wf with steps := fun name =>
      { wf.steps name with artifact := (wf.steps name).artifact.map (Artifact.reload json) } }

/-- `advance`, on the workflow that is saved: the one saved then, and the steps whose
code was called. -/
def advance (json : Json A) (saved : ErasureWorkflow A) (call : Advance A) :
    ErasureWorkflow A × List StepName :=
  if saved.status = .complete then (saved, [])
  else match stages call ⟨{ saved with status := .inProgress }, []⟩ with
    | .error invoked => (saved, invoked)
    | .ok w =>
      let wf := { w.wf with status := computeStatus w.wf }
      if dumps json wf then (reload json wf, w.invoked) else (saved, w.invoked)

/-- A run of `advance` calls: the workflow saved in the end, and all steps whose code
was called. -/
def advanceAll (json : Json A) (saved : ErasureWorkflow A) :
    List (Advance A) → ErasureWorkflow A × List StepName
  | [] => (saved, [])
  | call :: calls =>
    let first := advance json saved call
    let rest := advanceAll json first.1 calls
    (rest.1, first.2 ++ rest.2)

end Runner

/-! ## What a stage keeps -/

section Stages

variable {A : Type} {w w' w'' : Work A}

/-- **What every stage keeps**: the policy, the steps that are done, the receipt once
the live delete is done; and the code of a step that is done is not called. -/
structure Keeps (w w' : Work A) : Prop where
  requires : ∀ name, w'.wf.requires name = w.wf.requires name
  done : ∀ name, (w.wf.steps name).status = .done → w'.wf.steps name = w.wf.steps name
  receipt : (w.wf.steps .liveHardDelete).status = .done → w'.wf.receipt = w.wf.receipt
  invoked : ∀ name ∈ w'.invoked, name ∈ w.invoked ∨ (w.wf.steps name).status ≠ .done

/-- The part of the invariant that is about the steps: a live delete that is done has
its receipt, and a required step is never skipped. -/
structure SoundSteps (wf : ErasureWorkflow A) : Prop where
  live : (wf.steps .liveHardDelete).status = .done →
    ∃ r, wf.receipt = some r ∧ r.success = true
  required : ∀ name, wf.requires name = true → (wf.steps name).status ≠ .skipped

/-- What a stage may do from `w`, also when an exception escapes it. -/
def Safe (w : Work A) : Except (List StepName) (Work A) → Prop
  | .error invoked => ∀ name ∈ invoked, name ∈ w.invoked ∨ (w.wf.steps name).status ≠ .done
  | .ok w' => Keeps w w' ∧ (SoundSteps w.wf → SoundSteps w'.wf)

/-- A stage that does nothing keeps what is settled. -/
theorem Keeps.refl (w : Work A) : Keeps w w where
  requires _ := rfl
  done _ _ := rfl
  receipt _ := rfl
  invoked _ h := Or.inl h

/-- A step that was open and is kept so was open before. -/
theorem Keeps.not_done (h : Keeps w w') {name : StepName} (hn : (w'.wf.steps name).status ≠ .done) :
    (w.wf.steps name).status ≠ .done := by
  intro hdone
  rw [h.done name hdone] at hn
  exact hn hdone

/-- Two stages in a row. -/
theorem Keeps.trans (h : Keeps w w') (h' : Keeps w' w'') : Keeps w w'' where
  requires name := (h'.requires name).trans (h.requires name)
  done name hdone := by
    have heq := h.done name hdone
    rw [h'.done name (by rwa [heq]), heq]
  receipt hdone := by
    rw [h'.receipt (by rwa [h.done _ hdone]), h.receipt hdone]
  invoked name hmem := by
    rcases h'.invoked name hmem with hold | hnot
    · exact h.invoked name hold
    · exact Or.inr (h.not_done hnot)

/-- Two safe stages in a row are safe. -/
theorem Safe.bind {r : Except (List StepName) (Work A)} {next : Stage A} (hr : Safe w r)
    (hnext : ∀ w', Safe w' (next w')) : Safe w (r >>= next) := by
  rcases r with invoked | w'
  · exact hr
  · obtain ⟨hkeep, hsound⟩ := hr
    have hafter := hnext w'
    change Safe w (next w')
    rcases hw : next w' with invoked | w''
    · rw [hw] at hafter
      intro name hmem
      rcases hafter name hmem with hold | hnot
      · exact hkeep.invoked name hold
      · exact Or.inr (hkeep.not_done hnot)
    · rw [hw] at hafter
      exact ⟨hkeep.trans hafter.1, fun h => hafter.2 (hsound h)⟩

/-- Writing a step changes no requirement. -/
@[simp] theorem requires_setStep (wf : ErasureWorkflow A) (name n : StepName)
    (step : ErasureStep A) : (wf.setStep name step).requires n = wf.requires n := by
  cases n <;> rfl

/-- Noting an error changes no requirement. -/
@[simp] theorem requires_addError (wf : ErasureWorkflow A) (text : String) (n : StepName) :
    (wf.addError text).requires n = wf.requires n := by
  cases n <;> rfl

/-- Writing a step writes that one. -/
@[simp] theorem steps_setStep (wf : ErasureWorkflow A) (name : StepName) (step : ErasureStep A) :
    (wf.setStep name step).steps = Function.update wf.steps name step := rfl

/-- Noting an error writes no step. -/
@[simp] theorem steps_addError (wf : ErasureWorkflow A) (text : String) :
    (wf.addError text).steps = wf.steps := rfl

/-- Writing a step leaves the receipt. -/
@[simp] theorem receipt_setStep (wf : ErasureWorkflow A) (name : StepName) (step : ErasureStep A) :
    (wf.setStep name step).receipt = wf.receipt := rfl

/-- Noting an error leaves the receipt. -/
@[simp] theorem receipt_addError (wf : ErasureWorkflow A) (text : String) :
    (wf.addError text).receipt = wf.receipt := rfl

/-- A change of one step that is not done. -/
structure Touches (name : StepName) (step : ErasureStep A) (w w' : Work A) : Prop where
  not_done : (w.wf.steps name).status ≠ .done
  steps : w'.wf.steps = Function.update w.wf.steps name step
  requires : ∀ n, w'.wf.requires n = w.wf.requires n
  invoked : ∀ n ∈ w'.invoked, n ∈ w.invoked ∨ n = name

/-- A stage that writes one open step keeps what is settled. -/
theorem Touches.keeps {name : StepName} {step : ErasureStep A} (h : Touches name step w w')
    (hrec : w'.wf.receipt = w.wf.receipt ∨ name = .liveHardDelete) : Keeps w w' where
  requires := h.requires
  done n hn := by
    have hne : n ≠ name := by
      rintro rfl
      exact h.not_done hn
    rw [h.steps, Function.update_of_ne hne]
  receipt hlive := by
    rcases hrec with heq | rfl
    · exact heq
    · exact absurd hlive h.not_done
  invoked n hn := by
    rcases h.invoked n hn with hold | rfl
    · exact Or.inl hold
    · exact Or.inr h.not_done

/-- A stage that writes one step keeps the steps sound if what it writes is. -/
theorem Touches.soundSteps {name : StepName} {step : ErasureStep A} (h : Touches name step w w')
    (hlive : name = .liveHardDelete → step.status = .done →
      ∃ r, w'.wf.receipt = some r ∧ r.success = true)
    (hrec : name ≠ .liveHardDelete → w'.wf.receipt = w.wf.receipt)
    (hskip : w.wf.requires name = true → step.status ≠ .skipped)
    (hw : SoundSteps w.wf) : SoundSteps w'.wf where
  live hdone := by
    rw [h.steps] at hdone
    by_cases hname : name = .liveHardDelete
    · subst hname
      rw [Function.update_self] at hdone
      exact hlive rfl hdone
    · rw [Function.update_of_ne (Ne.symm hname)] at hdone
      rw [hrec hname]
      exact hw.live hdone
  required n hn := by
    rw [h.requires] at hn
    rw [h.steps]
    by_cases hname : n = name
    · subst hname
      rw [Function.update_self]
      exact hskip hn
    · rw [Function.update_of_ne hname]
      exact hw.required n hn

/-- A change of one optional step or of the residual step. -/
theorem Touches.safe {name : StepName} {step : ErasureStep A} (h : Touches name step w w')
    (hname : name ≠ .liveHardDelete) (hrec : w'.wf.receipt = w.wf.receipt)
    (hskip : w.wf.requires name = true → step.status ≠ .skipped) : Safe w (.ok w') :=
  ⟨h.keeps (Or.inl hrec), h.soundSteps (fun heq => absurd heq hname) (fun _ => hrec) hskip⟩

/-- A change of the live step: done only with a successful receipt. -/
theorem Touches.safe_live {step : ErasureStep A} (h : Touches .liveHardDelete step w w')
    (hlive : step.status = .done → ∃ r, w'.wf.receipt = some r ∧ r.success = true) :
    Safe w (.ok w') := by
  refine ⟨h.keeps (Or.inr rfl), h.soundSteps (fun _ => hlive) (fun hne => absurd rfl hne) ?_⟩
  intro hreq
  cases hreq

/-- What a stage adds to the invoked hooks is its own. -/
theorem mem_append_invoked {name : StepName} {l : List StepName} :
    ∀ n ∈ l ++ [name], n ∈ l ∨ n = name := by
  intro n hn
  simpa using hn

/-- The live delete is safe, whatever the service does. -/
theorem safe_runLiveDelete (delete : Outcome Receipt) (w : Work A) :
    Safe w (runLiveDelete delete w) := by
  rw [runLiveDelete]
  split
  · exact ⟨.refl w, id⟩
  · rename_i hnot
    cases delete with
    | returns r =>
      dsimp only
      rw [recordReceipt]
      dsimp only
      split
      · rename_i hsucc
        exact Touches.safe_live ⟨hnot, rfl, fun n => by cases n <;> rfl, mem_append_invoked⟩
          fun _ => ⟨r, rfl, hsucc⟩
      · exact Touches.safe_live ⟨hnot, rfl, fun n => by cases n <;> rfl, mem_append_invoked⟩
          fun hdone => by cases hdone
    | raises text =>
      exact Touches.safe_live ⟨hnot, rfl, fun n => by cases n <;> rfl, mem_append_invoked⟩
        fun hdone => by cases hdone
    | escapes =>
      intro n hn
      rcases mem_append_invoked n hn with hold | rfl
      · exact Or.inl hold
      · exact Or.inr hnot

/-- Mirroring the residual proof is safe. -/
theorem safe_mirrorResidualFromReceipt (w : Work A) : Safe w (mirrorResidualFromReceipt w) := by
  have hfree : w.wf.requires .residualProof ≠ true := by simp [ErasureWorkflow.requires]
  rw [mirrorResidualFromReceipt]
  dsimp only
  split
  · exact ⟨.refl w, id⟩
  · rename_i hnot
    have htouch : ∀ (step : ErasureStep A) (wf : ErasureWorkflow A),
        wf.steps = Function.update w.wf.steps .residualProof step →
        (∀ n, wf.requires n = w.wf.requires n) → wf.receipt = w.wf.receipt →
        Safe w (.ok { w with wf := wf }) := by
      intro step wf hsteps hreq hrec
      exact Touches.safe ⟨hnot, hsteps, hreq, fun n hn => Or.inl hn⟩ (by decide) hrec
        fun h => absurd h hfree
    split
    · exact htouch _ _ rfl (by simp) rfl
    · split
      · exact htouch _ _ rfl (by simp) rfl
      · exact htouch _ _ rfl (by simp) rfl
      · exact htouch _ _ rfl (by simp) rfl

/-- Every optional step, whatever its policy, hook and flag. -/
theorem safe_runOptional {name : StepName} (hname : name ≠ .liveHardDelete) {required : Bool}
    {w : Work A} (hreq : w.wf.requires name = required) (hook : Option (Outcome A))
    (skipOptional : Bool) : Safe w (runOptional name required hook skipOptional w) := by
  simp only [runOptional]
  split
  · exact ⟨.refl w, id⟩
  · rename_i hnot
    split
    · rename_i hfree
      refine Touches.safe ⟨hnot, rfl, by simp, fun n hn => Or.inl hn⟩ hname rfl ?_
      intro h
      simp [← hreq, h] at hfree
    · rcases hook with _ | result | text | _
      · -- the step fails or stays pending: it is not skipped
        cases skipOptional with
        | true =>
          exact Touches.safe ⟨hnot, rfl, by simp, fun n hn => Or.inl hn⟩ hname rfl (by simp)
        | false =>
          exact Touches.safe ⟨hnot, rfl, by simp, fun n hn => Or.inl hn⟩ hname rfl (by simp)
      · exact Touches.safe ⟨hnot, rfl, by simp, mem_append_invoked⟩ hname rfl (by simp)
      · exact Touches.safe ⟨hnot, rfl, by simp [recordFailure], mem_append_invoked⟩ hname rfl
          (by simp)
      · intro n hn
        rcases mem_append_invoked n hn with hold | rfl
        · exact Or.inl hold
        · exact Or.inr hnot

/-- **All stages of an advance.** -/
theorem safe_stages (call : Advance A) (w : Work A) : Safe w (stages call w) := by
  refine (safe_runLiveDelete call.delete w).bind fun w₁ => ?_
  refine (safe_mirrorResidualFromReceipt w₁).bind fun w₂ => ?_
  refine (safe_runOptional (by decide) rfl _ _).bind fun w₃ => ?_
  refine (safe_runOptional (by decide) rfl _ _).bind fun w₄ => ?_
  refine (safe_runOptional (by decide) rfl _ _).bind fun w₅ => ?_
  exact safe_runOptional (by decide) rfl _ _

end Stages

/-! ## Saved workflows -/

section Saved

variable {A : Type} {json : Json A} {saved : ErasureWorkflow A}

/-- **The invariant of saved workflows.** -/
structure Sound (wf : ErasureWorkflow A) : Prop where
  steps : SoundSteps wf
  complete : wf.status = .complete → computeStatus wf = .complete

/-- What it takes for the loop to run to its end. -/
theorem checkSteps_complete {wf : ErasureWorkflow A} {names : List StepName}
    (h : checkSteps wf names = .complete) :
    ∀ name ∈ names, name ≠ .liveHardDelete →
      (name = .residualProof → (wf.steps name).status ≠ .failed) ∧
      (name ≠ .residualProof → wf.requires name = true →
        (wf.steps name).status = .done ∨ (wf.steps name).status = .skipped) := by
  induction names with
  | nil => simp
  | cons n rest ih =>
    rw [checkSteps] at h
    intro name hname hlive
    rcases List.mem_cons.mp hname with rfl | hrest
    · rw [if_neg hlive] at h
      split at h
      · rename_i hres
        split at h
        · cases h
        · rename_i hok
          exact ⟨fun _ => hok, fun hne => absurd hres hne⟩
      · rename_i hres
        split at h
        · split at h <;> cases h
        · rename_i hok
          refine ⟨fun heq => absurd heq hres, fun _ hreq => ?_⟩
          by_contra hno
          exact hok ⟨hreq, hno⟩
    · -- the name is further on: the loop went past this one
      refine ih ?_ name hrest hlive
      split at h
      · exact h
      · split at h
        · split at h
          · cases h
          · exact h
        · split at h
          · split at h <;> cases h
          · split at h
            · cases h
            · exact h

/-- The status is a function of the statuses of the steps and the policy. -/
theorem computeStatus_congr {wf wf' : ErasureWorkflow A}
    (hsteps : ∀ name, (wf'.steps name).status = (wf.steps name).status)
    (hreq : ∀ name, wf'.requires name = wf.requires name) :
    computeStatus wf' = computeStatus wf := by
  have hcheck : ∀ names, checkSteps wf' names = checkSteps wf names := by
    intro names
    induction names with
    | nil => rfl
    | cons name rest ih => simp only [checkSteps, hsteps, hreq, ih]
  simp only [computeStatus, hsteps, hcheck]

/-- The workflow that is saved after the stages went through. -/
theorem sound_reload {wf : ErasureWorkflow A} (h : SoundSteps wf) :
    Sound (reload json { wf with status := computeStatus wf }) where
  steps :=
    { live := h.live
      required := fun name hreq => h.required name (by cases name <;> exact hreq) }
  complete hstatus := by
    have hsame : computeStatus (reload json { wf with status := computeStatus wf }) =
        computeStatus wf := computeStatus_congr (fun _ => rfl) fun name => by cases name <;> rfl
    rw [hsame]
    exact hstatus

/-- **One advance.** The invariant and the policy are kept, steps that are done stay
done, and their code is not called. -/
theorem advance_spec (json : Json A) (call : Advance A) (h : Sound saved) :
    Sound (advance json saved call).1 ∧
      (∀ name, (advance json saved call).1.requires name = saved.requires name) ∧
      ∀ name, (saved.steps name).status = .done →
        ((advance json saved call).1.steps name).status = .done ∧
          name ∉ (advance json saved call).2 := by
  rw [advance]
  split
  · exact ⟨h, fun _ => rfl, fun name hdone => ⟨hdone, by simp⟩⟩
  · have hsafe := safe_stages call ⟨{ saved with status := .inProgress }, []⟩
    have hstart : SoundSteps { saved with status := .inProgress } :=
      { live := h.steps.live
        required := fun name hreq => h.steps.required name (by cases name <;> exact hreq) }
    rcases hrun : stages call ⟨{ saved with status := .inProgress }, []⟩ with invoked | w
    · rw [hrun] at hsafe
      refine ⟨h, fun _ => rfl, fun name hdone => ⟨hdone, fun hmem => ?_⟩⟩
      rcases hsafe name hmem with hold | hnot
      · cases hold
      · exact hnot hdone
    · rw [hrun] at hsafe
      obtain ⟨hkeep, hsound⟩ := hsafe
      have hnew : ∀ name, (saved.steps name).status = .done → name ∉ w.invoked := by
        intro name hdone hmem
        rcases hkeep.invoked name hmem with hold | hnot
        · cases hold
        · exact hnot hdone
      dsimp only
      split
      · refine ⟨sound_reload (hsound hstart), fun name => ?_, fun name hdone => ?_⟩
        · have heq := hkeep.requires name
          cases name <;> exact heq
        · have heq := hkeep.done name hdone
          refine ⟨?_, hnew name hdone⟩
          change (w.wf.steps name).status = .done
          rw [heq]
          exact hdone
      · exact ⟨h, fun _ => rfl, fun name hdone => ⟨hdone, hnew name hdone⟩⟩

/-- **A whole run**, by induction on its calls. -/
theorem advanceAll_spec (json : Json A) (calls : List (Advance A)) (h : Sound saved) :
    Sound (advanceAll json saved calls).1 ∧
      (∀ name, (advanceAll json saved calls).1.requires name = saved.requires name) ∧
      ∀ name, (saved.steps name).status = .done →
        ((advanceAll json saved calls).1.steps name).status = .done ∧
          name ∉ (advanceAll json saved calls).2 := by
  induction calls generalizing saved with
  | nil => exact ⟨h, fun _ => rfl, fun name hdone => ⟨hdone, by simp [advanceAll]⟩⟩
  | cons call calls ih =>
    obtain ⟨hsound, hreq, hdone⟩ := advance_spec json call h
    obtain ⟨hsound', hreq', hdone'⟩ := ih hsound
    refine ⟨hsound', fun name => (hreq' name).trans (hreq name), fun name hname => ?_⟩
    obtain ⟨hfirst, hnot⟩ := hdone name hname
    obtain ⟨hrest, hnot'⟩ := hdone' name hfirst
    refine ⟨hrest, ?_⟩
    simpa [advanceAll] using ⟨hnot, hnot'⟩

/-- A new workflow is sound: nothing is done yet. -/
theorem sound_create (requestId collection : String) (ids : List String) (reason : Option String)
    (replica shred store backup : Bool) :
    Sound (create requestId collection ids reason replica shred store backup :
      ErasureWorkflow A) where
  steps :=
    { live := fun hdone => by cases hdone
      required := fun name _ hskip => by cases hskip }
  complete hstatus := by cases hstatus

/-- What `complete` says of a saved workflow. -/
theorem Sound.of_complete {wf : ErasureWorkflow A} (h : Sound wf) (hc : wf.status = .complete) :
    (wf.steps .liveHardDelete).status = .done ∧
      (∃ r, wf.receipt = some r ∧ r.success = true) ∧
      (∀ name, wf.requires name = true → (wf.steps name).status = .done) ∧
      (wf.steps .residualProof).status ≠ .failed := by
  have hstatus := h.complete hc
  rw [computeStatus] at hstatus
  have hlive : (wf.steps .liveHardDelete).status = .done := by
    by_contra hnot
    rw [if_pos hnot] at hstatus
    split at hstatus <;> cases hstatus
  rw [if_neg (not_not.mpr hlive)] at hstatus
  have hall := checkSteps_complete hstatus
  refine ⟨hlive, h.steps.live hlive, fun name hreq => ?_, ?_⟩
  · have hmem : name ∈ stepOrder := by cases name <;> decide
    have hnl : name ≠ .liveHardDelete := by
      rintro rfl
      cases hreq
    have hnr : name ≠ .residualProof := by
      rintro rfl
      cases hreq
    rcases (hall name hmem hnl).2 hnr hreq with hdone | hskip
    · exact hdone
    · exact absurd hskip (h.steps.required name hreq)
  · exact (hall .residualProof (by decide) (by decide)).1 rfl

/-- **A complete workflow is really complete.** For every policy, after every run of
advances on a created workflow, whatever the erase service and the hooks do: if the
saved status is `complete` then the live delete is done with a stored receipt of a
success, every step the policy requires is done, the residual proof is not failed, and
no further advance changes anything or calls anything; and in every state of a run, a
step that is done stays done through every further run, and its code is never called
again. -/
theorem complete_really_complete (json : Json A) (requestId collection : String)
    (ids : List String) (reason : Option String) (replica shred store backup : Bool)
    (calls : List (Advance A)) :
    let created : ErasureWorkflow A :=
      create requestId collection ids reason replica shred store backup
    let wf := (advanceAll json created calls).1
    (wf.status = .complete →
      (wf.steps .liveHardDelete).status = .done ∧
      (∃ r, wf.receipt = some r ∧ r.success = true) ∧
      (∀ name, created.requires name = true → (wf.steps name).status = .done) ∧
      (wf.steps .residualProof).status ≠ .failed ∧
      ∀ more, advanceAll json wf more = (wf, [])) ∧
    ∀ name, (wf.steps name).status = .done → ∀ more,
      ((advanceAll json wf more).1.steps name).status = .done ∧
        name ∉ (advanceAll json wf more).2 := by
  intro created wf
  obtain ⟨hsound, hpolicy, -⟩ := advanceAll_spec json calls
    (sound_create (A := A) requestId collection ids reason replica shred store backup)
  refine ⟨fun hc => ?_, fun name hdone more => (advanceAll_spec json more hsound).2.2 name hdone⟩
  obtain ⟨hlive, hreceipt, hreq, hres⟩ := hsound.of_complete hc
  refine ⟨hlive, hreceipt, fun name h => hreq name ((hpolicy name).trans h), hres, fun more => ?_⟩
  induction more with
  | nil => rfl
  | cons call more ih =>
    have hstay : advance json wf call = (wf, []) := if_pos hc
    simp only [advanceAll, hstay, ih, List.append_nil]

/-! ### What is recorded was returned -/

/-- The receipt is one that the service returned in one of the calls, and an optional step is done
where its hook returned. -/
structure Returned (calls : List (Advance A)) (wf : ErasureWorkflow A) : Prop where
  receipt : ∀ r, wf.receipt = some r → ∃ call ∈ calls, call.delete = .returns r
  hook : ∀ name, name ≠ .liveHardDelete → name ≠ .residualProof →
    (wf.steps name).status = .done → ∃ call ∈ calls, ∃ result, call.hook name = some (.returns result)

variable {calls : List (Advance A)} {w : Work A}

/-- What a stage that ends leaves of it. -/
def Records (calls : List (Advance A)) (w : Work A) : Except (List StepName) (Work A) → Prop
  | .error _ => True
  | .ok w' => Returned calls w.wf → Returned calls w'.wf

/-- Two recording stages in a row. -/
theorem Records.bind {r : Except (List StepName) (Work A)} {next : Stage A}
    (hr : Records calls w r) (hnext : ∀ w', Records calls w' (next w')) :
    Records calls w (r >>= next) := by
  rcases r with invoked | w'
  · trivial
  · have hafter := hnext w'
    change Records calls w (next w')
    rcases hw : next w' with invoked | w''
    · trivial
    · rw [hw] at hafter
      exact fun h => hafter (hr h)

/-- A change of one step, which is not done or was returned. -/
theorem Returned.update {wf wf' : ErasureWorkflow A} {name : StepName} {step : ErasureStep A}
    (h : Returned calls wf) (hsteps : wf'.steps = Function.update wf.steps name step)
    (hreceipt : ∀ r, wf'.receipt = some r → wf.receipt = some r ∨
      ∃ call ∈ calls, call.delete = .returns r)
    (hstep : name ≠ .liveHardDelete → name ≠ .residualProof → step.status = .done →
      ∃ call ∈ calls, ∃ result, call.hook name = some (.returns result)) : Returned calls wf' where
  receipt r hr := (hreceipt r hr).elim (h.receipt r) id
  hook n hlive hres hdone := by
    rw [hsteps] at hdone
    by_cases hn : n = name
    · subst hn
      rw [Function.update_self] at hdone
      exact hstep hlive hres hdone
    · rw [Function.update_of_ne hn] at hdone
      exact h.hook n hlive hres hdone

/-- The receipt that the live delete stores is one that the service returned in this call. -/
theorem records_runLiveDelete {call : Advance A} (hcall : call ∈ calls) (w : Work A) :
    Records calls w (runLiveDelete call.delete w) := by
  rw [runLiveDelete]
  split
  · exact id
  · rcases hdelete : call.delete with r | text | _
    · intro h
      have hreceipt : ∀ r', some r = some r' → w.wf.receipt = some r' ∨
          ∃ call ∈ calls, call.delete = .returns r' := by
        rintro r' ⟨⟩
        exact Or.inr ⟨call, hcall, hdelete⟩
      rw [recordReceipt]
      dsimp only
      split
      · exact h.update rfl hreceipt fun hlive => absurd rfl hlive
      · exact h.update rfl hreceipt fun hlive => absurd rfl hlive
    · exact fun h => h.update rfl (fun r => Or.inl) fun hlive => absurd rfl hlive
    · trivial

/-- Mirroring the residual proof stores no receipt and runs no hook. -/
theorem records_mirrorResidualFromReceipt (w : Work A) :
    Records calls w (mirrorResidualFromReceipt w) := by
  rw [mirrorResidualFromReceipt]
  dsimp only
  split
  · exact id
  · intro h
    have hset : ∀ (step : ErasureStep A) (wf : ErasureWorkflow A),
        wf.steps = Function.update w.wf.steps .residualProof step → wf.receipt = w.wf.receipt →
        Returned calls wf := by
      intro step wf hsteps hreceipt
      exact h.update hsteps (fun r hr => Or.inl (hreceipt ▸ hr)) fun _ hres => absurd rfl hres
    dsimp only
    split
    · exact hset _ _ rfl rfl
    · split
      · exact hset _ _ rfl rfl
      · exact hset _ _ rfl rfl
      · exact hset _ _ rfl rfl

/-- An optional step is done only where its hook returned in this call. -/
theorem records_runOptional {call : Advance A} (hcall : call ∈ calls) (name : StepName)
    (required skipOptional : Bool) (w : Work A) :
    Records calls w (runOptional name required (call.hook name) skipOptional w) := by
  simp only [runOptional]
  split
  · exact id
  · split
    · exact fun h => h.update rfl (fun r => Or.inl) fun _ _ hdone => by cases hdone
    · rcases hhook : call.hook name with _ | result | text | _
      · cases skipOptional with
        | true => exact fun h => h.update rfl (fun r => Or.inl) fun _ _ hdone => by cases hdone
        | false => exact fun h => h.update rfl (fun r => Or.inl) fun _ _ hdone => by cases hdone
      · exact fun h => h.update rfl (fun r => Or.inl) fun _ _ _ => ⟨call, hcall, result, hhook⟩
      · exact fun h => h.update rfl (fun r => Or.inl) fun _ _ hdone => by cases hdone
      · trivial

/-- All stages of an `advance`. -/
theorem records_stages {call : Advance A} (hcall : call ∈ calls) (w : Work A) :
    Records calls w (stages call w) := by
  refine (records_runLiveDelete hcall w).bind fun w₁ => ?_
  refine (records_mirrorResidualFromReceipt w₁).bind fun w₂ => ?_
  refine (records_runOptional hcall _ _ _ w₂).bind fun w₃ => ?_
  refine (records_runOptional hcall _ _ _ w₃).bind fun w₄ => ?_
  refine (records_runOptional hcall _ _ _ w₄).bind fun w₅ => ?_
  exact records_runOptional hcall _ _ _ w₅

/-- The step of `Returned`: one `advance`, saved or not. -/
theorem Returned.advance (json : Json A) {call : Advance A} (hcall : call ∈ calls)
    (h : Returned calls saved) : Returned calls (advance json saved call).1 := by
  rw [Workflow.advance]
  split
  · exact h
  · have hrecords := records_stages hcall ⟨{ saved with status := .inProgress }, []⟩
    revert hrecords
    rcases stages call ⟨{ saved with status := .inProgress }, []⟩ with invoked | w
    · exact fun _ => h
    · intro hrecords
      dsimp only
      split
      · have hw : Returned calls w.wf := hrecords ⟨h.receipt, h.hook⟩
        exact ⟨hw.receipt, hw.hook⟩
      · exact h

/-- **What a run records was returned in it**: the receipt by the erase service, and what makes an
optional step done by its hook. -/
theorem returned_advanceAll (json : Json A) {run : List (Advance A)} (hrun : run ⊆ calls)
    (h : Returned calls saved) : Returned calls (advanceAll json saved run).1 := by
  induction run generalizing saved with
  | nil => exact h
  | cons call run ih =>
    obtain ⟨hcall, hrest⟩ := List.cons_subset.mp hrun
    exact ih hrest (h.advance json hcall)

/-- A new workflow has no receipt and no step that is done. -/
theorem returned_create (requestId collection : String) (ids : List String)
    (reason : Option String) (replica shred store backup : Bool) :
    Returned calls (create requestId collection ids reason replica shred store backup) where
  receipt r hr := by cases hr
  hook name _ _ hdone := by cases hdone

/-- A policy that requires the replica step: its hook raises at first, the second
advance completes the ticket. -/
def replicaRetried : List (Advance Unit) :=
  let receipt : Receipt := ⟨true, "complete", true, [3], 16, [], none⟩
  [⟨.returns receipt, fun _ => some (.raises "unreachable"), false⟩,
    ⟨.escapes, fun _ => some (.returns ()), false⟩]

theorem complete_really_complete_replicaRetried :
    let wf := (advanceAll ⟨fun _ => true, id⟩
      (create "r" "users" ["alice"] none true false false false) replicaRetried).1
    wf.status = .complete ∧ (wf.steps .replicaFanout).status = .done ∧
      ∃ r, wf.receipt = some r ∧ r.success = true := by
  have hc := (complete_really_complete ⟨fun _ : Unit => true, id⟩ "r" "users" ["alice"] none
    true false false false replicaRetried).1 (by decide)
  exact ⟨by decide, hc.2.2.1 .replicaFanout (by decide), hc.2.1⟩

end Saved

end Workflow

end Unlearning
