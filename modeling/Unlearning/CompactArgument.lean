import Unlearning.Receipts

/-!
# What the `compact` argument decides

`ErasureService` documents `default_compact` as the policy of a `delete` that is
called without `compact`, and `always`, `never` and booleans as overrides. The
argument goes through an adaptive strategy first, which replaces a missing
argument, `"auto"` and `True`.

`Service.decision` is what one call decides: whether it called `compact()`, whether
it deferred the compaction and whether it recorded an error. The loop over the ids
does not look at the argument (`eraseAll_compact`, `eraseAll_messages`), so two
calls that differ in it only differ in the mode that reaches `runCompaction`, and
the modes are compared there.
-/

namespace Unlearning

open FloatArith PyFloat

/-- What a call of `delete` decides about compaction. -/
structure CompactionDecision where
  /-- `backend.compact()` was called -/
  called : Bool
  deferred : Bool
  errorRecorded : Bool
  deriving DecidableEq

namespace Service

variable {σ D : Type}

/-! ## The loop does not look at the argument -/

/-- The loop of a delete does not look at its `compact` argument. -/
theorem eraseAll_compact (svc : Service σ D) (amb : Ambient σ D) (call : DeleteCall)
    (compact : Option CompactArg) (ids : List String) (b : Batch σ D) :
    eraseAll svc amb { call with compact := compact } ids b = eraseAll svc amb call ids b := by
  induction ids generalizing b with
  | nil => rfl
  | cons ext rest ih =>
    have hid : eraseId svc amb { call with compact := compact } ext b =
        eraseId svc amb call ext b :=
      rfl
    simp only [eraseAll, hid, ih]

section Messages

variable (svc : Service σ D) (amb : Ambient σ D) (call : DeleteCall)

/-- The residual snapshot neither reads nor writes the batch's messages. -/
theorem snapshot_messages (mode : ProofMode) (label : ℤ) (b : Batch σ D) (ms : List String) :
    snapshot svc mode label { b with messages := ms } =
      { snapshot svc mode label b with messages := ms } := by
  unfold snapshot
  rcases mode with _ | _ | _ <;> rcases svc.backend.getVector with _ | getVector <;> try rfl
  all_goals
    simp only
    rcases getVector label b.outside with ⟨e | vec, o⟩ <;> rfl

/-- Dropping a mapping neither reads nor writes the batch's messages. -/
theorem dropMapping_messages (ext : String) (b : Batch σ D) (ms : List String) :
    dropMapping svc amb call ext { b with messages := ms } =
      { dropMapping svc amb call ext b with messages := ms } := by
  unfold dropMapping
  cases svc.dropMappings
  · rfl
  · simp only [if_true]
    rcases b.registry.drop amb.printable call.collection ext with ⟨e | u, reg⟩ <;> rfl

/-- What an id's erasure does depends on the messages only in the messages. -/
theorem eraseResolved_messages (ext : String) (label : ℤ) (b : Batch σ D) (ms : List String) :
    ∃ ms', eraseResolved svc amb call ext label { b with messages := ms } =
      { eraseResolved svc amb call ext label b with messages := ms' } := by
  unfold eraseResolved
  simp only [snapshot_messages]
  generalize snapshot svc (svc.proofMode amb call) label b = b
  rcases svc.eraseLabel call label b.outside with ⟨e | ⟨br, tx⟩, o⟩
  · exact ⟨ms, rfl⟩
  · rcases hsucc : br.success
    · exact ⟨ms, by simp [hsucc]⟩
    · simp only [hsucc, if_true, verifyErased]
      rcases svc.backend.verifyZeroed call.collection label o with ⟨e | _ | _, o'⟩
      · exact ⟨ms, rfl⟩
      · exact ⟨ms, rfl⟩
      · exact ⟨ms ++ (br.message.filter fun m => m ≠ "").toList, by
          simp only [← dropMapping_messages, count]⟩

/-- What a visit does depends on the messages only in the messages. -/
theorem eraseId_messages (ext : String) (b : Batch σ D) (ms : List String) :
    ∃ ms', eraseId svc amb call ext { b with messages := ms } =
      ((eraseId svc amb call ext b).1,
        { (eraseId svc amb call ext b).2 with messages := ms' }) := by
  unfold eraseId
  simp only
  rcases b.registry.resolve amb.printable call.collection ext with e | resolved
  · rcases e with message | message | key
    · simp only
      cases call.idempotent
      · exact ⟨ms, rfl⟩
      · exact ⟨ms, rfl⟩
    · exact ⟨ms, rfl⟩
    · exact ⟨ms, rfl⟩
  · obtain ⟨ms', h⟩ := eraseResolved_messages svc amb call ext resolved.label b ms
    refine ⟨ms', ?_⟩
    simp only
    rw [h]

/-- What the loop does depends on the messages only in the messages. -/
theorem eraseAll_messages (ids : List String) (b : Batch σ D) (ms : List String) :
    ∃ ms', eraseAll svc amb call ids { b with messages := ms } =
      ((eraseAll svc amb call ids b).1,
        { (eraseAll svc amb call ids b).2 with messages := ms' }) := by
  induction ids generalizing b ms with
  | nil => exact ⟨ms, rfl⟩
  | cons ext rest ih =>
    obtain ⟨ms', h⟩ := eraseId_messages svc amb call ext b ms
    simp only [eraseAll, h]
    rcases eraseId svc amb call ext b with ⟨_ | e, b'⟩
    · exact ih b' ms'
    · exact ⟨ms', rfl⟩

end Messages

/-! ## The decision of a call -/

variable [PyFloat D]

/-- The decision behind a compaction. A backend that can compact leaves an error only
where its `compact()` was called and raised. -/
def Compaction.decision (supports : Bool) (c : Compaction σ D) : CompactionDecision where
  called := c.compacted || (supports && !c.errors.isEmpty)
  deferred := c.deferred
  errorRecorded := !c.errors.isEmpty

/-- The compaction of a call of `delete`; `none` where the call raises before it. -/
def compaction (svc : Service σ D) (amb : Ambient σ D) (call : DeleteCall)
    (st : ServiceState σ D) : Option (Compaction σ D) :=
  match svc.compactMode amb call st with
  | .error _ => none
  | .ok mode =>
    match eraseAll svc amb call call.extIds (Batch.start st (svc.adaptCompact amb call st).2) with
    | (some _, _) => none
    | (none, b) => some (svc.runCompaction amb mode b.labels b.outside st.policy)

/-- The decision of a call of `delete`. -/
def decision (svc : Service σ D) (amb : Ambient σ D) (call : DeleteCall)
    (st : ServiceState σ D) : Option CompactionDecision :=
  (svc.compaction amb call st).map (Compaction.decision svc.supportsCompact)

/-- A call that raises before its compaction leaves the policy alone; otherwise the
compaction is what its policy and its receipt tell. -/
theorem delete_compaction (svc : Service σ D) (amb : Ambient σ D) (call : DeleteCall)
    (st : ServiceState σ D) :
    (svc.compaction amb call st = none →
      (svc.delete amb call st).state.policy = st.policy ∧
        ∃ e, (svc.delete amb call st).result = .error e) ∧
    ∀ c, svc.compaction amb call st = some c →
      (svc.delete amb call st).state.policy = c.policy ∧
        ∀ receipt, (svc.delete amb call st).result = .ok receipt →
          receipt.compacted = c.compacted ∧ ∀ e ∈ c.errors, e ∈ receipt.errors := by
  unfold compaction delete
  rcases svc.compactMode amb call st with message | mode
  · simp
  · rcases eraseAll svc amb call call.extIds
      (Batch.start st (svc.adaptCompact amb call st).2) with ⟨_ | e, b⟩
    · refine ⟨fun hnone => (by cases hnone), ?_⟩
      rintro c ⟨⟩
      simp only [conclude]
      rcases svc.runResidualProofs amb call (svc.proofMode amb call) b _ with ⟨e | summary, o⟩
      · exact ⟨rfl, fun receipt hreceipt => (by cases hreceipt)⟩
      · refine ⟨rfl, ?_⟩
        intro receipt hreceipt
        have heq := logReceipt_ok hreceipt
        subst heq
        refine ⟨rfl, ?_⟩
        intro e he
        simp [draft, allErrors, he]
    · simp

/-! ## The mode of a call -/

/-- `HEALER_ADAPTIVE_COMPACT` -/
def adaptiveEnv (environ : Environ) : Bool :=
  environ.word "HEALER_ADAPTIVE_COMPACT" "1" ∈ ["1", "true", "yes", "on", ""]

/-- The `compact` argument that the strategy hands on, without its report. -/
theorem applyStrategyToDeleteKwargs_fst (environ : Environ) (deleteCount indexSize : ℕ)
    (supportsCompact supportsHeal : Bool) (compact : Option CompactArg) :
    (applyStrategyToDeleteKwargs environ deleteCount indexSize supportsCompact supportsHeal
      compact : CompactArg × StrategyRecommendation D).1 =
    if adaptiveEnv environ && (compact.getD (.mode .auto)).isAuto then
      .mode (compactModeForRecommendation (recommendDeleteStrategy environ deleteCount indexSize
        supportsCompact supportsHeal : StrategyRecommendation D))
    else compact.getD (.mode .auto) := by
  have hfold : decide
      (environ.word "HEALER_ADAPTIVE_COMPACT" "1" ∈ ["1", "true", "yes", "on", ""]) =
      adaptiveEnv environ := rfl
  simp only [applyStrategyToDeleteKwargs, hfold]
  generalize adaptiveEnv environ = adaptive
  rcases compact with _ | arg
  · cases adaptive
    · rfl
    · rfl
  · cases harg : arg.isAuto
    · simp [harg]
    · cases adaptive
      · simp [harg]
      · simp [harg]

/-- The fraction of the index that the batch deletes is past one of the two thresholds
of a rebuild. -/
def elevated (svc : Service σ D) (call : DeleteCall) (st : ServiceState σ D) : Bool :=
  let count := call.extIds.length
  let frac : D := deleteFraction count (svc.indexSize st call.collection count)
  atLeast frac criticalFrac || atLeast frac highFrac

/-- The mode that the adaptive strategy puts in the place of a missing argument. -/
def adaptiveMode (svc : Service σ D) (amb : Ambient σ D) (call : DeleteCall)
    (st : ServiceState σ D) : CompactMode :=
  if adaptiveEnv amb.environ then
    let count := call.extIds.length
    let recommended : StrategyRecommendation D := recommendDeleteStrategy amb.environ count
      (svc.indexSize st call.collection count) svc.supportsCompact svc.supportsHeal
    compactModeForRecommendation recommended
  else .auto

section Modes

variable (svc : Service σ D) (amb : Ambient σ D) (call : DeleteCall) (st : ServiceState σ D)

/-- Without an argument the mode is the one of the environment. -/
theorem compactMode_none :
    svc.compactMode amb { call with compact := none } st = .ok (svc.adaptiveMode amb call st) := by
  simp only [compactMode, adaptCompact, applyStrategyToDeleteKwargs_fst, adaptiveMode]
  cases adaptiveEnv amb.environ
  · rfl
  · rfl

/-- `"auto"` is what no argument is. -/
theorem compactMode_auto :
    svc.compactMode amb { call with compact := some (.mode .auto) } st =
      .ok (svc.adaptiveMode amb call st) := by
  simp only [compactMode, adaptCompact, applyStrategyToDeleteKwargs_fst, adaptiveMode]
  cases adaptiveEnv amb.environ
  · rfl
  · rfl

/-- `True` is what the environment makes of it. -/
theorem compactMode_true :
    svc.compactMode amb { call with compact := some (.flag true) } st =
      .ok (if adaptiveEnv amb.environ then svc.adaptiveMode amb call st else .always) := by
  simp only [compactMode, adaptCompact, applyStrategyToDeleteKwargs_fst, adaptiveMode]
  cases adaptiveEnv amb.environ
  · rfl
  · rfl

/-- `"always"` asks nobody. -/
theorem compactMode_always :
    svc.compactMode amb { call with compact := some (.mode .always) } st = .ok .always := rfl

/-- `"never"` asks nobody. -/
theorem compactMode_never :
    svc.compactMode amb { call with compact := some (.mode .never) } st = .ok .never := rfl

/-- `False` is `"never"`. -/
theorem compactMode_false :
    svc.compactMode amb { call with compact := some (.flag false) } st = .ok .never := rfl

variable {svc amb call st}

/-- On a backend that cannot compact the strategy never asks for a compaction. -/
theorem adaptiveMode_of_not_supports (hs : svc.supportsCompact = false) :
    svc.adaptiveMode amb call st ≠ .always := by
  unfold adaptiveMode
  split
  · simp only [recommendDeleteStrategy, hs, Bool.not_false, if_true]
    split
    · simp [compactModeForRecommendation]
    · split <;> simp [compactModeForRecommendation]
  · simp

/-- On a backend that can compact it asks for one exactly past the thresholds. -/
theorem adaptiveMode_of_supports (hs : svc.supportsCompact = true) (hne : call.extIds ≠ []) :
    svc.adaptiveMode amb call st =
      if adaptiveEnv amb.environ && svc.elevated call st then .always else .auto := by
  have hcount : call.extIds.length ≠ 0 := fun h => hne (List.eq_nil_of_length_eq_zero h)
  unfold adaptiveMode elevated
  rcases adaptiveEnv amb.environ
  · simp
  · simp only [recommendDeleteStrategy, hs, hcount, if_true, if_false, Bool.not_true, Bool.true_and,
      Bool.false_eq_true]
    rcases hcrit : atLeast (deleteFraction call.extIds.length
        (svc.indexSize st call.collection call.extIds.length) : D) criticalFrac
    · rcases hhigh : atLeast (deleteFraction call.extIds.length
          (svc.indexSize st call.collection call.extIds.length) : D) highFrac
      · simp only [Bool.false_eq_true, if_false, Bool.or_false]
        split
        · simp [compactModeForRecommendation, hhigh]
        · simp [compactModeForRecommendation, hhigh]
      · simp [compactModeForRecommendation]
    · simp [compactModeForRecommendation]

end Modes

/-! ## Two modes on one batch -/

/-- The policy, after a batch of `n` deletes, compacts in mode `auto`. -/
def policyCompacts (amb : Ambient σ D) (policy : CompactCoalescePolicy D) (n : ℕ) : Bool :=
  match policy.mode with
  | .always => true
  | .never => false
  | .coalesce => ((policy.noteDeletes n amb.noteTime).decide false amb.decideTime).shouldCompact

section Batches

variable (svc : Service σ D) (amb : Ambient σ D) {labels : List ℤ} (o : σ)
  (policy : CompactCoalescePolicy D)

/-- Noting deletes leaves the mode of the policy. -/
theorem noteDeletes_mode (n : ℕ) (now : D) :
    (policy.noteDeletes n now).mode = policy.mode := by
  unfold CompactCoalescePolicy.noteDeletes
  split <;> rfl

/-- A compaction that is called for is called where the backend has one, and never deferred. -/
theorem compactNow_decision (reason : String) :
    ((svc.compactNow reason o policy).decision svc.supportsCompact).called = svc.supportsCompact ∧
      ((svc.compactNow reason o policy).decision svc.supportsCompact).deferred = false ∧
      (svc.supportsCompact = false →
        ((svc.compactNow reason o policy).decision svc.supportsCompact).errorRecorded = true) := by
  unfold compactNow supportsCompact
  rcases svc.backend.compact with _ | compact
  · simp [Compaction.decision]
  · simp only [Option.isSome_some]
    rcases compact o with ⟨e | live, o'⟩ <;> simp [Compaction.decision]

/-- A backend that can compact is called. -/
theorem compactNow_called (hs : svc.supportsCompact = true) (reason : String)
    {c : CompactionDecision} (hc : c.called = false) :
    (svc.compactNow reason o policy).decision true ≠ c := by
  rintro rfl
  have hcalled := (compactNow_decision svc o policy reason).1
  rw [hs, hc] at hcalled
  cases hcalled

/-- The reason that is given for a compaction is no part of the decision. -/
theorem compactNow_reason (reason reason' : String) :
    (svc.compactNow reason o policy).decision svc.supportsCompact =
      (svc.compactNow reason' o policy).decision svc.supportsCompact := by
  unfold compactNow supportsCompact
  rcases svc.backend.compact with _ | compact
  · rfl
  · simp only [Option.isSome_some]
    rcases compact o with ⟨e | live, o'⟩ <;> rfl

/-- With nothing erased every mode does the same. -/
theorem runCompaction_nil (mode mode' : CompactMode) :
    svc.runCompaction amb mode [] o policy = svc.runCompaction amb mode' [] o policy := rfl

/-- Under `"never"` nothing is called and nothing deferred. -/
theorem decision_never (hne : labels ≠ []) :
    (svc.runCompaction amb .never labels o policy).decision svc.supportsCompact =
      ⟨false, false, false⟩ := by
  simp [runCompaction, hne, chooseCompact, Compaction.decision]

/-- **`always` against `auto`**: they agree when the policy compacts anyway. -/
theorem decision_always_eq_auto (hne : labels ≠ []) :
    (svc.runCompaction amb .always labels o policy).decision svc.supportsCompact =
        (svc.runCompaction amb .auto labels o policy).decision svc.supportsCompact ↔
      svc.supportsCompact = true ∧ policyCompacts amb policy labels.length = true := by
  have hmode := noteDeletes_mode policy labels.length amb.noteTime
  cases hs : svc.supportsCompact
  · have hcalled := compactNow_decision svc o policy "always"
    rw [hs] at hcalled
    have herr := hcalled.2.2 rfl
    simp only [runCompaction, hne, if_false, hs, Bool.false_eq_true, chooseCompact, if_true]
    constructor
    · intro h
      rw [h] at herr
      cases herr
    · rintro ⟨⟨⟩, -⟩
  · simp only [runCompaction, hne, if_false, hs, if_true, chooseCompact, hmode, policyCompacts,
      true_and]
    rcases policy.mode
    · simp only [if_true, iff_true]
      rw [← hs]
      exact compactNow_reason _ _ _ _ _
    · simp only [Bool.false_eq_true, if_false, iff_false]
      exact compactNow_called svc o _ hs _ rfl
    · simp only
      cases hdec : ((policy.noteDeletes labels.length amb.noteTime).decide false
          amb.decideTime).shouldCompact
      · -- the policy defers, and `always` does not
        simp only [Bool.false_eq_true, if_false, iff_false]
        exact compactNow_called svc o _ hs _ rfl
      · simp only [if_true, iff_true]
        rw [← hs]
        exact compactNow_reason _ _ _ _ _

/-- **`never` against `auto`**: they agree when the backend cannot compact or the policy
is `never`. -/
theorem decision_never_eq_auto (hne : labels ≠ []) :
    (svc.runCompaction amb .never labels o policy).decision svc.supportsCompact =
        (svc.runCompaction amb .auto labels o policy).decision svc.supportsCompact ↔
      svc.supportsCompact = false ∨ policy.mode = .never := by
  have hmode := noteDeletes_mode policy labels.length amb.noteTime
  rw [decision_never _ _ _ _ hne]
  cases hs : svc.supportsCompact
  · simp [runCompaction, hne, hs, chooseCompact, Compaction.decision]
  · simp only [runCompaction, hne, if_false, hs, if_true, chooseCompact, hmode, Bool.true_eq_false,
      false_or]
    rcases policy.mode
    · simp only [if_true, reduceCtorEq, iff_false]
      exact (compactNow_called svc o _ hs _ rfl).symm
    · simp [Compaction.decision]
    · simp only [reduceCtorEq, iff_false]
      cases hdec : ((policy.noteDeletes labels.length amb.noteTime).decide false
          amb.decideTime).shouldCompact
      · -- a deferred compaction is not one that is never made
        simp [Compaction.decision]
      · simp only [if_true]
        exact (compactNow_called svc o _ hs _ rfl).symm

/-- As soon as something was erased, `"never"` and `"always"` differ. -/
theorem decision_never_ne_always (hne : labels ≠ []) :
    (svc.runCompaction amb .never labels o policy).decision svc.supportsCompact ≠
      (svc.runCompaction amb .always labels o policy).decision svc.supportsCompact := by
  rw [decision_never _ _ _ _ hne]
  simp only [runCompaction, hne, if_false, chooseCompact, if_true]
  obtain ⟨hcalled, -, herr⟩ := compactNow_decision svc o
    (if svc.supportsCompact then policy.noteDeletes labels.length amb.noteTime else policy) "always"
  intro h
  rw [← h] at hcalled herr
  cases herr hcalled.symm

end Batches

/-! ## The argument -/

/-- How many labels the loop of a call erases, if it does not raise. -/
def erasedCount (svc : Service σ D) (amb : Ambient σ D) (call : DeleteCall)
    (st : ServiceState σ D) : ℕ :=
  match eraseAll svc amb call call.extIds (Batch.start st []) with
  | (some _, _) => 0
  | (none, b) => b.labels.length

/-- The decision of a call whose effective mode is `mode`. -/
def decisionIn (svc : Service σ D) (amb : Ambient σ D) (call : DeleteCall)
    (st : ServiceState σ D) (mode : CompactMode) : Option CompactionDecision :=
  match eraseAll svc amb call call.extIds (Batch.start st []) with
  | (some _, _) => none
  | (none, b) =>
    some ((svc.runCompaction amb mode b.labels b.outside st.policy).decision svc.supportsCompact)

/-- Where a call without `compact` decides as one with the default. -/
def DefaultHonoured (svc : Service σ D) (amb : Ambient σ D) (call : DeleteCall)
    (st : ServiceState σ D) : Prop :=
  match svc.defaultCompact with
  | .auto => True
  | .always => svc.erasedCount amb call st = 0 ∨ svc.supportsCompact = true ∧
      ((adaptiveEnv amb.environ && svc.elevated call st) = true ∨
        policyCompacts amb st.policy (svc.erasedCount amb call st) = true)
  | .never => svc.erasedCount amb call st = 0 ∨ svc.supportsCompact = false ∨
      (adaptiveEnv amb.environ && svc.elevated call st) = false ∧ st.policy.mode = .never

/-- Where `compact=True` decides as `"always"`. -/
def TrueHonoured (svc : Service σ D) (amb : Ambient σ D) (call : DeleteCall)
    (st : ServiceState σ D) : Prop :=
  adaptiveEnv amb.environ = false ∨ svc.erasedCount amb call st = 0 ∨
    svc.supportsCompact = true ∧ (svc.elevated call st = true ∨
      policyCompacts amb st.policy (svc.erasedCount amb call st) = true)

section Arguments

variable (svc : Service σ D) (amb : Ambient σ D) (call : DeleteCall) (st : ServiceState σ D)

/-- The decision of a call is that of the mode its argument comes to. -/
theorem decision_of_mode {compact : Option CompactArg} {mode : CompactMode}
    (h : svc.compactMode amb { call with compact := compact } st = .ok mode) :
    svc.decision amb { call with compact := compact } st = svc.decisionIn amb call st mode := by
  have hext : DeleteCall.extIds { call with compact := compact } = call.extIds := rfl
  obtain ⟨ms, hms⟩ := eraseAll_messages svc amb call call.extIds (Batch.start st [])
    (svc.adaptCompact amb { call with compact := compact } st).2
  have hstart : { Batch.start st [] with
      messages := (svc.adaptCompact amb { call with compact := compact } st).2 } =
      Batch.start st (svc.adaptCompact amb { call with compact := compact } st).2 := rfl
  rw [hstart] at hms
  simp only [decision, compaction, h, hext, eraseAll_compact, hms, decisionIn]
  rcases eraseAll svc amb call call.extIds (Batch.start st []) with ⟨_ | e, b⟩
  · rfl
  · rfl

variable {svc amb call st}

/-- A call that erases nothing decides the same under every mode. -/
theorem decisionIn_of_erasedCount (h : svc.erasedCount amb call st = 0) (mode mode' : CompactMode) :
    svc.decisionIn amb call st mode = svc.decisionIn amb call st mode' := by
  revert h
  unfold erasedCount decisionIn
  rcases eraseAll svc amb call call.extIds (Batch.start st []) with ⟨_ | e, b⟩
  · intro h
    have hnil : b.labels = [] := List.eq_nil_of_length_eq_zero h
    simp only [hnil, runCompaction_nil svc amb b.outside st.policy mode mode']
  · exact fun _ => rfl

/-- A call that erases something reaches its compaction with these labels. -/
theorem exists_of_erasedCount (h : svc.erasedCount amb call st ≠ 0) :
    ∃ labels o, labels ≠ [] ∧ labels.length = svc.erasedCount amb call st ∧
      ∀ mode, svc.decisionIn amb call st mode =
        some ((svc.runCompaction amb mode labels o st.policy).decision svc.supportsCompact) := by
  revert h
  unfold decisionIn erasedCount
  rcases eraseAll svc amb call call.extIds (Batch.start st []) with ⟨_ | e, b⟩
  · intro h
    refine ⟨b.labels, b.outside, ?_, rfl, fun mode => rfl⟩
    intro hnil
    simp [hnil] at h
  · intro h
    exact absurd rfl h

/-- Nothing is erased without ids. -/
theorem extIds_of_erasedCount (h : svc.erasedCount amb call st ≠ 0) : call.extIds ≠ [] := by
  intro hnil
  simp [erasedCount, hnil, eraseAll, Batch.start] at h

variable (svc amb call st)

/-- The adaptive mode decides as `always`. -/
theorem adaptive_eq_always_iff :
    svc.decisionIn amb call st (svc.adaptiveMode amb call st) =
        svc.decisionIn amb call st .always ↔
      svc.erasedCount amb call st = 0 ∨ svc.supportsCompact = true ∧
        ((adaptiveEnv amb.environ && svc.elevated call st) = true ∨
          policyCompacts amb st.policy (svc.erasedCount amb call st) = true) := by
  rcases eq_or_ne (svc.erasedCount amb call st) 0 with hzero | hpos
  · simp [hzero, decisionIn_of_erasedCount hzero (svc.adaptiveMode amb call st) .always]
  · obtain ⟨labels, o, hne, hlen, hdec⟩ := exists_of_erasedCount hpos
    rw [hdec, hdec, Option.some.injEq, ← hlen]
    have hlen0 : labels.length ≠ 0 := by omega
    have halways := decision_always_eq_auto svc amb o st.policy hne
    cases hs : svc.supportsCompact
    · rw [hs] at halways
      simp only [hlen0, Bool.false_eq_true, false_and, or_false, iff_false]
      rcases hmode : svc.adaptiveMode amb call st
      · intro h
        exact absurd (halways.1 h.symm).1 Bool.false_ne_true
      · exact absurd hmode (adaptiveMode_of_not_supports hs)
      · have hnever := decision_never_ne_always svc amb o st.policy hne
        rw [hs] at hnever
        exact hnever
    · rw [hs] at halways
      rw [adaptiveMode_of_supports hs (extIds_of_erasedCount hpos)]
      cases adaptiveEnv amb.environ && svc.elevated call st
      · simp only [Bool.false_eq_true, if_false, hlen0, false_or, true_and]
        rw [eq_comm, halways]
        simp
      · simp

/-- The adaptive mode decides as `never`. -/
theorem adaptive_eq_never_iff :
    svc.decisionIn amb call st (svc.adaptiveMode amb call st) =
        svc.decisionIn amb call st .never ↔
      svc.erasedCount amb call st = 0 ∨ svc.supportsCompact = false ∨
        (adaptiveEnv amb.environ && svc.elevated call st) = false ∧ st.policy.mode = .never := by
  rcases eq_or_ne (svc.erasedCount amb call st) 0 with hzero | hpos
  · simp [hzero, decisionIn_of_erasedCount hzero (svc.adaptiveMode amb call st) .never]
  · obtain ⟨labels, o, hne, hlen, hdec⟩ := exists_of_erasedCount hpos
    rw [hdec, hdec, Option.some.injEq, eq_comm]
    have hnever := decision_never_eq_auto svc amb o st.policy hne
    cases hs : svc.supportsCompact
    · rw [hs] at hnever
      simp only [hpos, true_or, or_true, iff_true]
      rcases hmode : svc.adaptiveMode amb call st
      · exact hnever.2 (Or.inl rfl)
      · exact absurd hmode (adaptiveMode_of_not_supports hs)
      · rfl
    · rw [hs] at hnever
      rw [adaptiveMode_of_supports hs (extIds_of_erasedCount hpos)]
      cases adaptiveEnv amb.environ && svc.elevated call st
      · simp only [Bool.false_eq_true, if_false, hpos, false_or, true_and, Bool.true_eq_false]
        rw [hnever]
        simp
      · have hne' := decision_never_ne_always svc amb o st.policy hne
        rw [hs] at hne'
        simp [hpos, hne']

end Arguments

/-- **The `compact` argument**: a call without it follows `default_compact`, and `True`
means `"always"`, exactly where the adaptive strategy happens to arrive at the same
decision; `False` always means `"never"`. -/
theorem compact_argument_iff (svc : Service σ D) (amb : Ambient σ D) (call : DeleteCall)
    (st : ServiceState σ D) :
    (svc.decision amb { call with compact := none } st =
        svc.decision amb { call with compact := some (.mode svc.defaultCompact) } st ↔
      svc.DefaultHonoured amb call st) ∧
    (svc.decision amb { call with compact := some (.flag true) } st =
        svc.decision amb { call with compact := some (.mode .always) } st ↔
      svc.TrueHonoured amb call st) ∧
    svc.decision amb { call with compact := some (.flag false) } st =
      svc.decision amb { call with compact := some (.mode .never) } st := by
  have hnever := decision_of_mode svc amb call st (compactMode_never svc amb call st)
  have halways := decision_of_mode svc amb call st (compactMode_always svc amb call st)
  refine ⟨?_, ?_, ?_⟩
  · rw [decision_of_mode svc amb call st (compactMode_none svc amb call st)]
    unfold DefaultHonoured
    rcases svc.defaultCompact
    · simp [decision_of_mode svc amb call st (compactMode_auto svc amb call st)]
    · rw [halways]
      exact adaptive_eq_always_iff svc amb call st
    · rw [hnever]
      exact adaptive_eq_never_iff svc amb call st
  · rw [decision_of_mode svc amb call st (compactMode_true svc amb call st), halways]
    unfold TrueHonoured
    cases henv : adaptiveEnv amb.environ
    · simp
    · have h := adaptive_eq_always_iff svc amb call st
      rw [henv, Bool.true_and] at h
      simp [h]
  · rw [hnever, decision_of_mode svc amb call st (compactMode_false svc amb call st)]

/-- A service with `default_compact="never"` over an index of a hundred rows. -/
def neverByDefault : Service (List ℤ) ℚ :=
  { listService fun _ => [] with
    backend := { listBackend fun _ => [] with vectorRows := some fun _ => .ok 100 }
    defaultCompact := .never }

/-- Two ids under a coalescing policy with nothing pending. -/
def coalescingUsers : ServiceState (List ℤ) ℚ :=
  { twoUsers with policy := { twoUsers.policy with mode := .coalesce } }

/-- A call without `compact` defers a compaction that the default `"never"` would not
wait for, and so does `compact=True`, which should compact at once. -/
theorem compact_argument_ignored :
    neverByDefault.decision plainAmbient
        { plainCall "users" ["ann"] with compact := none } coalescingUsers =
      some ⟨false, true, false⟩ ∧
    neverByDefault.decision plainAmbient
        { plainCall "users" ["ann"] with compact := some (.mode neverByDefault.defaultCompact) }
        coalescingUsers = some ⟨false, false, false⟩ ∧
    neverByDefault.decision plainAmbient
        { plainCall "users" ["ann"] with compact := some (.flag true) } coalescingUsers =
      some ⟨false, true, false⟩ ∧
    neverByDefault.decision plainAmbient
        { plainCall "users" ["ann"] with compact := some (.mode .always) } coalescingUsers =
      some ⟨true, false, false⟩ := by
  decide +kernel

end Service

end Unlearning
