import Unlearning.OutboxRounds
import Unlearning.PyText

/-!
# The replica hook over the outbox (`integrations/outbox.py`, `make_outbox_replica_hook`)

The hook enqueues an envelope and, where it has a dispatcher, calls `dispatch_pending(limit=1)`.
That handles the pending envelope whose file name comes first, which need not be the new one;
and a dispatch that fails with attempts left is counted under `errors`, not under `failed`, so
the hook returns.

* `dispatchPending_one`: what a dispatch with limit 1 does;
* `hook_delivers_iff`: the exact condition under which a hook that returns has delivered.
-/

namespace Unlearning

namespace Outbox

/-! ## The hook -/

/-- What a hook raises. -/
inductive HookError : Type where
  | read (e : ReadError)
  | runtimeError (text : String)

/-- What the hook returns. -/
structure HookResult where
  envelopeId : String
  requestId : String
  dispatch : Option Report

/-- `str(disp)` -/
def Report.str (printable : Char → Bool) (report : Report) : String :=
  "\x7b'done': " ++ toString report.counts.done ++ ", 'failed': " ++
    toString report.counts.failed ++ ", 'errors': [" ++
    ", ".intercalate (report.counts.errors.map (PyText.repr printable)) ++
    "], 'pending_left': " ++ toString report.pendingLeft ++ "\x7d"

section Hook

variable {V : Type} (python : Values V) (printable : Char → Bool)

/-- The arguments of the hook, with the id and the time that `enqueue` draws. -/
structure HookCall where
  collection : String
  ids : List String
  requestId : String
  envelopeId : String
  createdUnixNs : ℤ

/-- `enqueue(collection=collection, external_ids=ids, request_id=request_id)` -/
def HookCall.intent (call : HookCall) : Intent where
  envelopeId := call.envelopeId
  collection := call.collection
  externalIds := call.ids
  requestId := call.requestId
  reason := none
  maxM := 16
  createdUnixNs := call.createdUnixNs

/-- The envelope of the request. -/
def HookCall.envelope (call : HookCall) : OutboxEnvelope := newEnvelope call.intent

/-- The files once it is enqueued. -/
def HookCall.enqueued (call : HookCall) (files : Files) : Files :=
  performAll files (enqueue call.intent)

/-- The hook of `make_outbox_replica_hook(outbox, dispatch_now=dispatcher)`: what it comes to,
and the files afterwards. The dispatcher has a `max_attempts` and a callback. -/
def outboxReplicaHook (dispatchNow : Option (ℤ × (OutboxEnvelope → Outcome V)))
    (call : HookCall) (files : Files) : Except HookError HookResult × Files :=
  match dispatchNow with
  | none => (.ok ⟨call.envelopeId, call.requestId, none⟩, call.enqueued files)
  | some (maxAttempts, callback) =>
    let (rounds, disp) := dispatchPending python maxAttempts callback 1 (call.enqueued files)
    let files := after (call.enqueued files) rounds
    match disp with
    | .error e => (.error (.read e), files)
    | .ok disp =>
      if disp.counts.failed ≠ 0 then
        (.error (.runtimeError ("outbox dispatch failed: " ++ disp.str printable)), files)
      else (.ok ⟨call.envelopeId, call.requestId, some disp⟩, files)

/-- **The hook succeeds only on delivery**: where it returns, the envelope of the request is in
`done`. -/
def Delivers (maxAttempts : ℤ) (callback : OutboxEnvelope → Outcome V) (call : HookCall)
    (files : Files) : Prop :=
  ∀ result files', outboxReplicaHook python printable (some (maxAttempts, callback)) call files =
    (.ok result, files') → (files' .done).lookup call.envelopeId = some call.envelope.text

end Hook

/-- The pending envelope whose file comes first. -/
def IsFirst (files : Files) (env : OutboxEnvelope) : Prop :=
  (files .pending).lookup env.envelopeId = some env.text ∧
    ∀ other ∈ files .pending, env.envelopeId ++ ".json" ≤ other ++ ".json"

/-- The callback has dispatched the envelope. -/
def Succeeds {V : Type} (python : Values V) : Outcome V → Prop
  | .returned result => isOk python result = true
  | .raised _ => False

/-! ## Tidy files -/

section Tidy

variable {files : Files}

theorem Tidy.perform (h : Tidy files) {op : FileOp}
    (hop : ∀ folder envelopeId doc, op = .write folder envelopeId doc →
      ∃ env : OutboxEnvelope, env.envelopeId = envelopeId ∧ env.text = doc) :
    Tidy (perform files op) := by
  intro folder envelopeId doc hdoc
  by_cases hid : envelopeId = op.envelopeId
  · subst hid
    rcases op with ⟨name, other, doc'⟩ | ⟨src, dst, other⟩
    · by_cases hfolder : folder = name
      · subst hfolder
        rw [Outbox.perform, Function.update_self] at hdoc
        obtain rfl := Option.some.inj ((AList.lookup_insert _).symm.trans hdoc)
        exact hop _ _ _ rfl
      · rw [Outbox.perform, Function.update_of_ne hfolder] at hdoc
        exact h folder _ doc hdoc
    · rw [Outbox.perform] at hdoc
      rcases hsrc : (files src).lookup other with _ | moved
      · rw [hsrc] at hdoc
        exact h folder _ doc hdoc
      · rw [hsrc] at hdoc
        dsimp only at hdoc
        by_cases hdst : folder = dst
        · subst hdst
          rw [Function.update_self] at hdoc
          obtain rfl := Option.some.inj ((AList.lookup_insert _).symm.trans hdoc)
          exact h src _ _ hsrc
        · rw [Function.update_of_ne hdst] at hdoc
          by_cases heq : folder = src
          · subst heq
            rw [Function.update_self] at hdoc
            cases (AList.lookup_erase _ _).symm.trans hdoc
          · rw [Function.update_of_ne heq] at hdoc
            exact h folder _ doc hdoc
  · rw [lookup_perform_ne hid] at hdoc
    exact h folder envelopeId doc hdoc

/-- A round leaves tidy files. -/
theorem Tidy.next {maxAttempts : ℤ} {notes : List Note} {round : Round} (h : Tidy files)
    (hround : Admissible maxAttempts ⟨files, notes⟩ round) :
    Tidy (performAll files round.ops) := by
  have hmove : ∀ {files : Files} (src dst : FolderName) (envelopeId : String), Tidy files →
      Tidy (Outbox.perform files (.move src dst envelopeId)) := fun src dst envelopeId h =>
    h.perform nofun
  have hwrite : ∀ {files : Files} (env : OutboxEnvelope), Tidy files →
      Tidy (Outbox.perform files (.write .pending env.envelopeId env.text)) := by
    intro files env h
    apply h.perform
    rintro _ _ _ ⟨⟩
    exact ⟨env, rfl, rfl⟩
  rcases hround with ⟨intent, -⟩ | ⟨env, -⟩ | ⟨env, error, -, -⟩ | ⟨env, error, -, -⟩ |
    ⟨envelopeId, -⟩
  · exact hwrite (newEnvelope intent) h
  · exact hmove _ _ _ h
  · exact hwrite (env.failedWith error) h
  · exact hmove _ _ _ (hwrite (env.failedWith error) h)
  · exact hmove _ _ _ h

theorem Tidy.enqueue (h : Tidy files) (intent : Intent) :
    Tidy (performAll files (Outbox.enqueue intent)) := by
  have hunknown : ¬ Known [] intent.envelopeId := by
    rintro ⟨env, ⟨⟩, -⟩
  exact h.next (@Admissible.enqueued 0 ⟨files, []⟩ intent hunknown)

end Tidy

/-! ## A dispatch with limit 1 -/

section Dispatch

variable {V : Type} {python : Values V} {maxAttempts : ℤ} {files : Files}
  {callback : OutboxEnvelope → Outcome V} {first : OutboxEnvelope}

theorem IsFirst.unique {other : OutboxEnvelope} (h : IsFirst files other)
    (hfirst : IsFirst files first) : other = first := by
  have hle := h.2 first.envelopeId (mem_of_held hfirst.1)
  have hge := hfirst.2 other.envelopeId (mem_of_held h.1)
  have hid := (String.append_left_inj ".json").mp (hle.antisymm hge)
  have hheld := h.1
  rw [hid, hfirst.1] at hheld
  exact (OutboxEnvelope.text_injective (Option.some.inj hheld)).symm

/-- A statement about the first is one about it. -/
theorem IsFirst.forall_iff {P : OutboxEnvelope → Prop} (hfirst : IsFirst files first) :
    (∀ other, IsFirst files other → P other) ↔ P first := by
  constructor
  · exact fun h => h first hfirst
  · intro h other hother
    rw [hother.unique hfirst]
    exact h

/-- The head of `list_pending`. -/
theorem isFirst_head (h : Tidy files) {env : OutboxEnvelope} {rest : List OutboxEnvelope}
    (hsorted : (env :: rest).Pairwise
      (fun a b => a.envelopeId ++ ".json" ≤ b.envelopeId ++ ".json"))
    (hmem : ∀ env', env' ∈ env :: rest ↔
      (files .pending).lookup env'.envelopeId = some env'.text) : IsFirst files env := by
  refine ⟨(hmem env).mp List.mem_cons_self, ?_⟩
  intro other hother
  obtain ⟨doc, hdoc⟩ := Option.isSome_iff_exists.mp (AList.lookup_isSome.mpr hother)
  obtain ⟨env', rfl, rfl⟩ := h .pending other doc hdoc
  rcases List.mem_cons.mp ((hmem env').mpr hdoc) with rfl | hrest
  · exact le_refl _
  · exact (List.pairwise_cons.mp hsorted).1 env' hrest

/-- What is pending has a first. -/
theorem exists_isFirst (h : Tidy files) {env : OutboxEnvelope}
    (hpending : (files .pending).lookup env.envelopeId = some env.text) :
    ∃ first, IsFirst files first := by
  obtain ⟨envs, -, -, hsorted, hmem⟩ := h.listPending
  rcases envs with _ | ⟨first, rest⟩
  · cases (hmem env).mpr hpending
  · exact ⟨first, isFirst_head h hsorted hmem⟩

/-- **With limit 1** only the first is handled. -/
theorem dispatchPending_one (h : Tidy files) (hfirst : IsFirst files first) :
    ∃ left, dispatchPending python maxAttempts callback 1 files =
      ([(dispatchOne python maxAttempts files first ⟨0, 0, []⟩ (callback first)).1],
        .ok ⟨(dispatchOne python maxAttempts files first ⟨0, 0, []⟩ (callback first)).2,
          left⟩) := by
  obtain ⟨envs, hread, -, hsorted, hmem⟩ := h.listPending
  have hlist : ∃ rest, envs = first :: rest := by
    rcases envs with _ | ⟨env, rest⟩
    · cases (hmem first).mpr hfirst.1
    · have henv : IsFirst files env := isFirst_head h hsorted hmem
      rw [henv.unique hfirst]
      exact ⟨rest, rfl⟩
  obtain ⟨rest, rfl⟩ := hlist
  let one := dispatchOne python maxAttempts files first ⟨0, 0, []⟩ (callback first)
  have hround : Admissible maxAttempts ⟨files, []⟩ one.1 :=
    dispatchOne_admissible python hfirst.1 _ _
  have htidy : Tidy (performAll files one.1.ops) := h.next hround
  obtain ⟨left, hleft, -⟩ := htidy.listPending
  refine ⟨left.length, ?_⟩
  rw [dispatchPending, hread]
  have hone : upTo 1 (first :: rest) = [first] := rfl
  simp only [hone, dispatchLoop, after, List.foldl_cons, List.foldl_nil]
  rw [hleft]
  rfl

/-- **What a dispatch comes to**: delivered, given up, or to be tried again. -/
theorem dispatchOne_cases (hheld : (files .pending).lookup first.envelopeId = some first.text)
    (outcome : Outcome V) {one : Round × Counts}
    (hone : one = dispatchOne python maxAttempts files first ⟨0, 0, []⟩ outcome) :
    (Succeeds python outcome ∧ one.2.failed = 0 ∧
      one.1.ops = [.move .pending .done first.envelopeId]) ∨
    (¬ Succeeds python outcome ∧ maxAttempts ≤ first.attempts + 1 ∧ one.2.failed = 1) ∨
    (¬ Succeeds python outcome ∧ ¬ maxAttempts ≤ first.attempts + 1 ∧ one.2.failed = 0 ∧
      ∃ error, one.1.ops = [.write .pending first.envelopeId (first.failedWith error).text]) := by
  have hfailure : ∀ error, one.1.ops = (handleFailure maxAttempts files first error ⟨0, 0, []⟩).1 →
      one.2 = (handleFailure maxAttempts files first error ⟨0, 0, []⟩).2 →
      (maxAttempts ≤ first.attempts + 1 ∧ one.2.failed = 1) ∨
      (¬ maxAttempts ≤ first.attempts + 1 ∧ one.2.failed = 0 ∧
        ∃ error, one.1.ops = [.write .pending first.envelopeId (first.failedWith error).text]) := by
    intro error hops hcounts
    rw [handleFailure] at hops hcounts
    split at hops
    · rw [if_pos ‹_›] at hcounts
      exact .inl ⟨‹_›, by rw [hcounts]⟩
    · rw [if_neg ‹_›] at hcounts
      exact .inr ⟨‹_›, by rw [hcounts], error, hops⟩
  rcases outcome with result | text
  · by_cases hok : isOk python result = true
    · rw [dispatchOne, if_pos hok, markDone, if_pos (mem_of_held hheld)] at hone
      subst hone
      exact .inl ⟨hok, rfl, rfl⟩
    · rw [dispatchOne, if_neg hok] at hone
      subst hone
      rcases hfailure _ rfl rfl with ⟨hlast, hcount⟩ | ⟨hlast, hcount, hops⟩
      · exact .inr (.inl ⟨hok, hlast, hcount⟩)
      · exact .inr (.inr ⟨hok, hlast, hcount, hops⟩)
  · rw [dispatchOne] at hone
    subst hone
    rcases hfailure _ rfl rfl with ⟨hlast, hcount⟩ | ⟨hlast, hcount, hops⟩
    · exact .inr (.inl ⟨id, hlast, hcount⟩)
    · exact .inr (.inr ⟨id, hlast, hcount, hops⟩)

end Dispatch

/-! ## Delivery -/

section Delivery

variable {V : Type} (python : Values V) (printable : Char → Bool) {files : Files}

/-- What the hook does, by what comes of the first pending envelope. -/
theorem hook_eq (maxAttempts : ℤ) (callback : OutboxEnvelope → Outcome V) {call : HookCall}
    {first : OutboxEnvelope} (htidy : Tidy (call.enqueued files))
    (hfirst : IsFirst (call.enqueued files) first) {one : Round × Counts}
    (hone : one = dispatchOne python maxAttempts (call.enqueued files) first ⟨0, 0, []⟩
      (callback first)) :
    ∃ left, outboxReplicaHook python printable (some (maxAttempts, callback)) call files =
      (if one.2.failed ≠ 0 then
        .error (.runtimeError ("outbox dispatch failed: " ++ Report.str printable ⟨one.2, left⟩))
      else .ok ⟨call.envelopeId, call.requestId, some ⟨one.2, left⟩⟩,
        performAll (call.enqueued files) one.1.ops) := by
  obtain ⟨left, hdispatch⟩ := @dispatchPending_one _ python maxAttempts _ callback _ htidy hfirst
  refine ⟨left, ?_⟩
  rw [outboxReplicaHook]
  dsimp only
  rw [hdispatch, ← hone]
  dsimp only
  rw [after, List.foldl_cons, List.foldl_nil]
  split <;> rfl

/-- Another envelope is moved to `done`, and this one does not get there. -/
theorem Located.done_move {env : OutboxEnvelope} {id : String}
    (h : Located files .pending env) (hne : env.envelopeId ≠ id) :
    (performAll files [.move .pending .done id] .done).lookup env.envelopeId = none := by
  have hother := @lookup_perform_ne files (.move .pending .done id) env.envelopeId hne .done
  exact hother.trans (h.alone .done (by simp))

/-- A file in `pending` is written anew, and nothing comes to `done`. -/
theorem Located.done_write {env : OutboxEnvelope} (h : Located files .pending env) (id : String)
    (text : Doc Empty) :
    (performAll files [.write .pending id text] .done).lookup env.envelopeId = none := by
  rw [performAll, List.foldl_cons, List.foldl_nil, perform, Function.update_of_ne (by simp)]
  exact h.alone .done (by simp)

/-- **A hook that returns has delivered** exactly if the first pending envelope, the new one
among them, is the new one where it is dispatched, and has its last attempt where it is not. -/
theorem hook_delivers_iff (maxAttempts : ℤ) (callback : OutboxEnvelope → Outcome V)
    (call : HookCall) (hfiles : Tidy files)
    (hfresh : ∀ folder, (files folder).lookup call.envelopeId = none) :
    Delivers python printable maxAttempts callback call files ↔
      ∀ first, IsFirst (call.enqueued files) first →
        (Succeeds python (callback first) ∧ first = call.envelope) ∨
        (¬ Succeeds python (callback first) ∧ maxAttempts ≤ first.attempts + 1) := by
  have hnone : ∀ folder, folder ≠ .pending →
      (files folder).lookup call.envelope.envelopeId = none := fun folder _ => hfresh folder
  have hlocated : Located (call.enqueued files) .pending call.envelope := located_write hnone
  have htidy : Tidy (call.enqueued files) := hfiles.enqueue call.intent
  obtain ⟨first, hfirst⟩ := exists_isFirst htidy hlocated.held
  obtain ⟨left, hhook⟩ := hook_eq python printable maxAttempts callback htidy hfirst rfl
  rw [hfirst.forall_iff, Delivers, hhook]
  rcases dispatchOne_cases hfirst.1 (callback first) rfl with ⟨hok, hcount, hops⟩ |
    ⟨hnot, hlast, hcount⟩ | ⟨hnot, hlast, hcount, error, hops⟩
  · -- dispatched: `done` has the first envelope, and not the new one if that is another
    rw [hcount, hops, if_neg (by simp)]
    by_cases heq : first = call.envelope
    · refine iff_of_true ?_ (.inl ⟨hok, heq⟩)
      rintro result files' ⟨⟩
      rw [heq]
      exact (hlocated.move (by simp)).held
    · refine iff_of_false ?_ ?_
      · intro h
        have hdone := h _ _ rfl
        have hne : call.envelopeId ≠ first.envelopeId := by
          intro hid
          have hheld := hfirst.1
          rw [← hid] at hheld
          exact heq (OutboxEnvelope.text_injective
            (Option.some.inj (hheld.symm.trans hlocated.held)))
        cases hdone.symm.trans (hlocated.done_move hne)
      · rintro (⟨-, hnew⟩ | ⟨hnot, -⟩)
        · exact heq hnew
        · exact hnot hok
  · -- given up: the hook raises
    rw [hcount, if_pos Nat.one_ne_zero]
    exact iff_of_true nofun (.inr ⟨hnot, hlast⟩)
  · -- to be tried again: the hook returns, and nothing has come to `done`
    rw [hcount, hops, if_neg (by simp)]
    refine iff_of_false ?_ ?_
    · intro h
      have hdone := h _ _ rfl
      cases hdone.symm.trans (hlocated.done_write first.envelopeId (first.failedWith error).text)
    · rintro (⟨hok, -⟩ | ⟨-, hmax⟩)
      · exact hnot hok
      · exact hlast hmax

end Delivery

/-! ## An outbox with an older envelope -/

section Older

/-- An envelope that waits to be dispatched. -/
def olderIntent : Intent := ⟨"a-1", "docs", ["x"], "req-0", none, 16, 0⟩

/-- The files with it. -/
def olderFiles : Files := performAll noFiles (enqueue olderIntent)

/-- A call of the hook for another request. -/
def newCall : HookCall := ⟨"docs", ["y"], "req-1", "b-1", 1⟩

theorem tidy_noFiles : Tidy noFiles := fun _ envelopeId _ h => by
  cases (AList.lookup_empty envelopeId).symm.trans h

theorem tidy_older : Tidy olderFiles := tidy_noFiles.enqueue olderIntent

theorem isFirst_older : IsFirst (newCall.enqueued olderFiles) (newEnvelope olderIntent) := by
  refine ⟨rfl, ?_⟩
  intro other hother
  have hkeys : other ∈ ["b-1", "a-1"] := hother
  simp only [List.mem_cons, List.not_mem_nil, or_false] at hkeys
  rcases hkeys with rfl | rfl <;> decide

/-- Without an older envelope the new one comes first. -/
theorem isFirst_new : IsFirst (newCall.enqueued noFiles) newCall.envelope := by
  refine ⟨rfl, ?_⟩
  intro other hother
  have hkeys : other ∈ ["b-1"] := hother
  rw [List.mem_singleton.mp hkeys]
  exact le_refl _

/-- The hook returns, and the new envelope is in `done`. -/
theorem hook_delivers_iff_newCall : ∃ result files',
    outboxReplicaHook boolValues (fun _ => true) (some (5, fun _ => .returned ∅)) newCall noFiles =
        (.ok result, files') ∧
      (files' .done).lookup "b-1" = some newCall.envelope.text := by
  have hfresh : ∀ folder, (noFiles folder).lookup newCall.envelopeId = none := by
    rintro (_ | _ | _) <;> rfl
  have hdelivers := (hook_delivers_iff boolValues (fun _ => true) 5 (fun _ => .returned ∅) newCall
    tidy_noFiles hfresh).mpr fun first hfirst => .inl ⟨rfl, hfirst.unique isFirst_new⟩
  obtain ⟨left, hhook⟩ := hook_eq boolValues (fun _ => true) 5 (fun _ => .returned ∅)
    (tidy_noFiles.enqueue newCall.intent) isFirst_new rfl
  exact ⟨_, _, hhook, hdelivers _ _ hhook⟩

/-- The older envelope is delivered in the place of the new one; and where the replica is down,
nothing is. -/
theorem hook_returns_undelivered :
    (∃ result files', outboxReplicaHook boolValues (fun _ => true)
        (some (5, fun _ => .returned ∅)) newCall olderFiles = (.ok result, files') ∧
      (files' .pending).lookup "b-1" = some newCall.envelope.text ∧
      (files' .done).lookup "b-1" = none) ∧
    (∃ result files', outboxReplicaHook boolValues (fun _ => true)
        (some (5, fun _ => .raised "down")) newCall noFiles = (.ok result, files') ∧
      (files' .done).lookup "b-1" = none) ∧
    ¬ Delivers boolValues (fun _ => true) 5 (fun _ => .returned ∅) newCall olderFiles := by
  have htidy : Tidy (newCall.enqueued olderFiles) := tidy_older.enqueue newCall.intent
  obtain ⟨left, hhook⟩ := hook_eq boolValues (fun _ => true) 5 (fun _ => .returned ∅) htidy
    isFirst_older rfl
  refine ⟨⟨_, _, hhook, rfl, rfl⟩, ?_, ?_⟩
  · obtain ⟨left, hhook⟩ := hook_eq boolValues (fun _ => true) 5 (fun _ => .raised "down")
      (tidy_noFiles.enqueue newCall.intent) isFirst_new rfl
    exact ⟨_, _, hhook, rfl⟩
  · intro h
    cases h _ _ hhook

end Older

end Outbox

end Unlearning
