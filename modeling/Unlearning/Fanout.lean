import Mathlib.Data.List.Nodup
import Mathlib.Data.List.Perm.Subperm
import Unlearning.Registry
import Unlearning.Trace

/-!
# Replica fan-out (`integrations/replica_fanout.py`)

A coordinator sends one delete intent to every replica id, each in a thread of its own, and
counts the acknowledgements that report success. A worker answers a request id that it has
applied before without applying anything.

The threads run interleaved, in steps that other threads cannot see into: the look at `_seen`,
the call of `apply_fn`, and the addition to `_seen`. Publishes of any coordinators over the
same workers may also overlap. `applied` lists the calls of `apply_fn` that returned success.

* `Memory.Backed`: the worker has applied an intent of this request id;
* `Sound`: an acknowledgement of success is of a backed worker;
* `quorum_wiped`: a quorum of them is a quorum of wiped replicas if the replica ids lead to
  distinct workers and a request id stands for one intent.
-/

namespace Unlearning

namespace Fanout

/-- `DeleteIntent` -/
structure DeleteIntent where
  requestId : String
  collection : String
  externalIds : List String
  reason : Option String
  maxM : ℤ
  timestampUnixNs : ℤ
  deriving DecidableEq

/-- `ReplicaAck` -/
structure ReplicaAck where
  replicaId : String
  requestId : String
  success : Bool
  message : String
  deriving DecidableEq

/-- What a call of `apply_fn` comes to. -/
inductive Applied : Type where
  | returned (ok : Bool) (message : String)
  /-- an `Exception`, by its text -/
  | raised (text : String)

section Workers

variable {W : Type} [DecidableEq W]

/-- What the workers `W` remember, and what they have done. -/
structure Memory (W : Type) where
  /-- `_seen` of each worker -/
  seen : List (W × String)
  /-- the calls of `apply_fn` that returned success -/
  applied : List (W × DeleteIntent)
  deriving DecidableEq

/-- Where a thread is in `send`. -/
inductive Phase (W : Type) : Type where
  /-- not started -/
  | sent
  /-- in `apply_fn` -/
  | applying (worker : W)
  /-- before `_seen.add` -/
  | marking (worker : W) (message : String)
  | acked (ack : ReplicaAck)
  deriving DecidableEq

/-- The thread of one replica id. -/
structure Task (W : Type) where
  replicaId : String
  phase : Phase W
  deriving DecidableEq

/-- The acknowledgement of a worker with this name. -/
def ackOf (name : W → String) (worker : W) (intent : DeleteIntent) (success : Bool)
    (message : String) : ReplicaAck :=
  ⟨name worker, intent.requestId, success, message⟩

/-- One step of `InProcessTransport.send` and `ReplicaWorker.handle`; `result` is what
`apply_fn` comes to, where it is called. -/
def Task.step (name : W → String) (workers : Dict String W) (intent : DeleteIntent)
    (result : Applied) (mem : Memory W) (task : Task W) : Memory W × Phase W :=
  match task.phase with
  | .sent =>
    match workers.lookup task.replicaId with
    | none =>
      (mem, .acked ⟨task.replicaId, intent.requestId, false, "unknown replica " ++ task.replicaId⟩)
    | some worker =>
      if (worker, intent.requestId) ∈ mem.seen then
        (mem, .acked (ackOf name worker intent true "idempotent_replay"))
      else (mem, .applying worker)
  | .applying worker =>
    match result with
    | .returned true message =>
      ({ mem with applied := mem.applied ++ [(worker, intent)] }, .marking worker message)
    | .returned false message => (mem, .acked (ackOf name worker intent false message))
    | .raised text => (mem, .acked (ackOf name worker intent false text))
  | .marking worker message =>
    ({ mem with seen := (worker, intent.requestId) :: mem.seen },
      .acked (ackOf name worker intent true message))
  | .acked ack => (mem, .acked ack)

/-- `ReplicaFanoutCoordinator` over an `InProcessTransport`. -/
structure Coordinator (W : Type) where
  replicaIds : List String
  workers : Dict String W
  quorum : ℤ
  replicaIds_ne_nil : replicaIds ≠ []

/-- `ReplicaFanoutCoordinator(replica_ids, transport, quorum=quorum)` -/
def Coordinator.new (replicaIds : List String) (workers : Dict String W) (quorum : Option ℤ) :
    Except String (Coordinator W) :=
  if h : replicaIds ≠ [] then
    .ok ⟨replicaIds, workers, quorum.getD (max 1 (replicaIds.length / 2 + 1)), h⟩
  else .error "replica_ids must be non-empty"

/-- The arguments of `publish`, with the id and the time that it may take. -/
structure PublishArgs where
  collection : String
  externalIds : List String
  reason : Option String
  maxM : ℤ
  requestId : Option String
  uuid : String
  timestampUnixNs : ℤ

/-- The intent of a `publish`: `request_id or str(uuid.uuid4())`. -/
def PublishArgs.intent (args : PublishArgs) : DeleteIntent where
  requestId :=
    match args.requestId with
    | none => args.uuid
    | some requestId => if requestId = "" then args.uuid else requestId
  collection := args.collection
  externalIds := args.externalIds
  reason := args.reason
  maxM := args.maxM
  timestampUnixNs := args.timestampUnixNs

/-- A `publish` that was called. -/
structure Publish (W : Type) where
  coordinator : Coordinator W
  intent : DeleteIntent
  tasks : List (Task W)

/-- The threads of a new `publish`. -/
def Publish.new (coordinator : Coordinator W) (args : PublishArgs) : Publish W :=
  ⟨coordinator, args.intent, coordinator.replicaIds.map fun replicaId => ⟨replicaId, .sent⟩⟩

/-- `FanoutResult.successes` -/
def successes (acks : List ReplicaAck) : ℕ := acks.countP ReplicaAck.success

/-- `FanoutResult` -/
structure FanoutResult where
  requestId : String
  quorum : ℤ
  acks : List ReplicaAck
  quorumMet : Bool

/-- What `publish` returns of the acknowledgements, in the order in which they came. -/
def Publish.result (p : Publish W) (acks : List ReplicaAck) : FanoutResult :=
  ⟨p.intent.requestId, p.coordinator.quorum, acks, p.coordinator.quorum ≤ successes acks⟩

/-- All threads have ended, with these acknowledgements in some order. -/
def Publish.Ended (p : Publish W) (acks : List ReplicaAck) : Prop :=
  (p.tasks.map Task.phase).Perm (acks.map .acked)

/-! ## Runs -/

/-- The workers, and the publishes over them. -/
structure World (W : Type) where
  mem : Memory W
  publishes : List (Publish W)

/-- Workers that have seen nothing. -/
def World.new : World W := ⟨⟨[], []⟩, []⟩

/-- A `publish`, or a thread that goes on. -/
inductive Action (W : Type) : Type where
  | publish (coordinator : Coordinator W) (args : PublishArgs)
  /-- a step of thread `j` of publish `i` -/
  | advance (i j : ℕ) (result : Applied)

/-- What an action leaves of the world; there may be no such thread. -/
def World.perform (name : W → String) (w : World W) : Action W → Option (World W)
  | .publish coordinator args =>
    some { w with publishes := w.publishes ++ [.new coordinator args] }
  | .advance i j result =>
    match w.publishes[i]? with
    | none => none
    | some p =>
      match p.tasks[j]? with
      | none => none
      | some task =>
        let next := task.step name p.coordinator.workers p.intent result w.mem
        some ⟨next.1,
          w.publishes.set i { p with tasks := p.tasks.set j { task with phase := next.2 } }⟩

/-- The workers take a step. -/
def Step (name : W → String) (w : World W) (action : Action W) (w' : World W) : Prop :=
  w.perform name action = some w'

end Workers

/-! ## An acknowledgement of success -/

section Sound

variable {W : Type}

/-- The worker has applied an intent of this request id. -/
def Memory.Backed (mem : Memory W) (worker : W) (requestId : String) : Prop :=
  ∃ intent, (worker, intent) ∈ mem.applied ∧ intent.requestId = requestId

/-- More applications do not take an acknowledgement back. -/
theorem Memory.Backed.mono {mem mem' : Memory W} {worker : W} {requestId : String}
    (h : mem.Backed worker requestId) (hsub : mem.applied ⊆ mem'.applied) :
    mem'.Backed worker requestId := by
  obtain ⟨intent, hmem, hid⟩ := h
  exact ⟨intent, hsub hmem, hid⟩

/-- What `_seen` holds was applied. -/
def Memory.Sound (mem : Memory W) : Prop :=
  ∀ worker requestId, (worker, requestId) ∈ mem.seen → mem.Backed worker requestId

/-- What holds of a thread by where it is. -/
def Task.Sound (workers : Dict String W) (intent : DeleteIntent) (mem : Memory W)
    (task : Task W) : Prop :=
  match task.phase with
  | .sent => True
  | .applying worker => workers.lookup task.replicaId = some worker
  | .marking worker _ =>
    workers.lookup task.replicaId = some worker ∧ mem.Backed worker intent.requestId
  | .acked ack => ack.success = true →
    ∃ worker, workers.lookup task.replicaId = some worker ∧ mem.Backed worker intent.requestId

/-- A task stays sound when other tasks apply their intents. -/
theorem Task.Sound.mono {workers : Dict String W} {intent : DeleteIntent} {mem mem' : Memory W}
    {task : Task W} (h : task.Sound workers intent mem) (hsub : mem.applied ⊆ mem'.applied) :
    task.Sound workers intent mem' := by
  revert h
  unfold Task.Sound
  rcases task.phase with _ | worker | ⟨worker, message⟩ | ack
  · exact id
  · exact id
  · rintro ⟨hworker, hbacked⟩
    exact ⟨hworker, hbacked.mono hsub⟩
  · intro h hsuccess
    obtain ⟨worker, hworker, hbacked⟩ := h hsuccess
    exact ⟨worker, hworker, hbacked.mono hsub⟩

/-- What one step of a thread keeps. -/
structure StepSound (workers : Dict String W) (intent : DeleteIntent) (mem : Memory W)
    (task : Task W) (next : Memory W × Phase W) : Prop where
  memory : next.1.Sound
  sub : mem.applied ⊆ next.1.applied
  new : ∀ worker intent', (worker, intent') ∈ next.1.applied →
    (worker, intent') ∈ mem.applied ∨ intent' = intent
  task : ({ task with phase := next.2 } : Task W).Sound workers intent next.1

/-- A step that leaves the memory as it is. -/
theorem StepSound.silent {workers : Dict String W} {intent : DeleteIntent} {mem : Memory W}
    {task : Task W} {phase : Phase W} (hmem : mem.Sound)
    (htask : ({ task with phase := phase } : Task W).Sound workers intent mem) :
    StepSound workers intent mem task (mem, phase) :=
  ⟨hmem, List.Subset.refl _, fun _ _ h => .inl h, htask⟩

/-- The invariant of the workers and the publishes. -/
structure World.Sound (w : World W) : Prop where
  mem : w.mem.Sound
  applied : ∀ worker intent, (worker, intent) ∈ w.mem.applied →
    ∃ p ∈ w.publishes, p.intent = intent
  ids : ∀ p ∈ w.publishes, p.tasks.map Task.replicaId = p.coordinator.replicaIds
  tasks : ∀ p ∈ w.publishes, ∀ task ∈ p.tasks,
    task.Sound p.coordinator.workers p.intent w.mem

/-- Nothing has been applied at the start. -/
theorem sound_new : (World.new : World W).Sound where
  mem worker requestId h := by cases h
  applied worker intent h := by cases h
  ids p h := by cases h
  tasks p h := by cases h

/-- A new publish has no task that claims anything. -/
theorem World.Sound.publish {w : World W} (h : w.Sound) (coordinator : Coordinator W)
    (args : PublishArgs) :
    World.Sound { w with publishes := w.publishes ++ [.new coordinator args] } where
  mem := h.mem
  applied worker intent happlied := by
    obtain ⟨p, hp, hintent⟩ := h.applied worker intent happlied
    exact ⟨p, List.mem_append_left _ hp, hintent⟩
  ids p hp := by
    rcases List.mem_append.mp hp with hbefore | hnow
    · exact h.ids p hbefore
    · rw [List.mem_singleton.mp hnow]
      simp [Publish.new, Function.comp_def]
  tasks p hp task htask := by
    rcases List.mem_append.mp hp with hbefore | hnow
    · exact h.tasks p hbefore task htask
    · rw [List.mem_singleton.mp hnow] at htask
      obtain ⟨replicaId, -, rfl⟩ := List.mem_map.mp htask
      trivial

variable [DecidableEq W] {name : W → String}

/-- **A step of a thread.** -/
theorem Task.step_sound {workers : Dict String W} {intent : DeleteIntent} {mem : Memory W}
    {task : Task W} (hmem : mem.Sound) (htask : task.Sound workers intent mem)
    (result : Applied) :
    StepSound workers intent mem task (task.step name workers intent result mem) := by
  revert htask
  unfold Task.step Task.Sound
  rcases task.phase with _ | worker | ⟨worker, message⟩ | ack
  · intro _
    dsimp only
    rcases hlookup : workers.lookup task.replicaId with _ | worker
    · -- an unknown replica is answered without success
      exact .silent hmem fun hsuccess => by cases hsuccess
    · dsimp only
      split
      · -- a replay: `_seen` vouches for the worker
        exact .silent hmem fun _ => ⟨worker, hlookup, hmem worker _ ‹_›⟩
      · exact .silent hmem hlookup
  · intro hlookup
    dsimp only at hlookup ⊢
    rcases result with ⟨_ | _, message⟩ | text
    · exact .silent hmem fun hsuccess => by cases hsuccess
    · have hsub : mem.applied ⊆ mem.applied ++ [(worker, intent)] := List.subset_append_left _ _
      refine ⟨?_, hsub, ?_, ?_⟩
      · intro worker' requestId hseen
        exact (hmem worker' requestId hseen).mono hsub
      · intro worker' intent' happlied
        rcases List.mem_append.mp happlied with hbefore | hnow
        · exact .inl hbefore
        · exact .inr (congrArg Prod.snd (List.mem_singleton.mp hnow))
      · exact ⟨hlookup, intent, List.mem_append_right _ (List.mem_singleton_self _), rfl⟩
    · exact .silent hmem fun hsuccess => by cases hsuccess
  · -- `_seen` grows by what is already in `applied`
    rintro ⟨hlookup, hbacked⟩
    refine ⟨?_, List.Subset.refl _, fun _ _ h => .inl h, fun _ => ⟨worker, hlookup, hbacked⟩⟩
    intro worker' requestId hseen
    rcases List.mem_cons.mp hseen with heq | hbefore
    · obtain ⟨rfl, rfl⟩ := Prod.mk.inj heq
      exact hbacked
    · exact hmem worker' requestId hbefore
  · intro hack
    exact .silent hmem hack

/-- The case of `sound_step` that counts: one task takes its next step. -/
theorem World.Sound.advance {w : World W} (h : w.Sound) {i j : ℕ} {p : Publish W}
    (hp : w.publishes[i]? = some p) {task : Task W} (htask : p.tasks[j]? = some task)
    (result : Applied) :
    let next := task.step name p.coordinator.workers p.intent result w.mem
    World.Sound ⟨next.1,
      w.publishes.set i { p with tasks := p.tasks.set j { task with phase := next.2 } }⟩ := by
  intro next
  have hpmem : p ∈ w.publishes := List.mem_of_getElem? hp
  have hstep : StepSound p.coordinator.workers p.intent w.mem task next :=
    Task.step_sound h.mem (h.tasks p hpmem task (List.mem_of_getElem? htask)) result
  have hlen : i < w.publishes.length := (List.getElem?_eq_some_iff.mp hp).1
  constructor
  · exact hstep.memory
  · intro worker intent happlied
    rcases hstep.new worker intent happlied with hbefore | rfl
    · obtain ⟨p', hp', hintent⟩ := h.applied worker intent hbefore
      obtain ⟨k, hk⟩ := List.getElem?_of_mem hp'
      by_cases heq : i = k
      · subst heq
        obtain rfl := Option.some.inj (hp.symm.trans hk)
        exact ⟨_, List.mem_set hlen _, hintent⟩
      · rw [← List.getElem?_set_ne heq] at hk
        exact ⟨p', List.mem_of_getElem? hk, hintent⟩
    · exact ⟨_, List.mem_set hlen _, rfl⟩
  · -- a step changes the phase of its thread, not its replica id
    intro p' hp'
    rcases List.mem_or_eq_of_mem_set hp' with hbefore | rfl
    · exact h.ids p' hbefore
    · have hj : j < (p.tasks.map Task.replicaId).length := by
        simpa using (List.getElem?_eq_some_iff.mp htask).1
      have hsame : (p.tasks.map Task.replicaId)[j] = task.replicaId := by
        simpa using congrArg Task.replicaId (List.getElem?_eq_some_iff.mp htask).2
      rw [← h.ids p hpmem, List.map_set]
      dsimp only
      rw [← hsame]
      exact List.set_getElem_self hj
  · -- the other threads rely on `applied`, which only grows
    intro p' hp' task' htask'
    rcases List.mem_or_eq_of_mem_set hp' with hbefore | rfl
    · exact (h.tasks p' hbefore task' htask').mono hstep.sub
    · rcases List.mem_or_eq_of_mem_set htask' with hbefore | rfl
      · exact (h.tasks p hpmem task' hbefore).mono hstep.sub
      · exact hstep.task

/-- The step of `World.Sound`. -/
theorem sound_step {w w' : World W} {action : Action W} (h : w.Sound)
    (hstep : Step name w action w') : w'.Sound := by
  rcases action with ⟨coordinator, args⟩ | ⟨i, j, result⟩
  · obtain rfl := Option.some.inj hstep
    exact h.publish coordinator args
  · simp only [Step, World.perform] at hstep
    revert hstep
    rcases hp : w.publishes[i]? with _ | p
    · intro hstep
      cases hstep
    · dsimp only
      rcases htask : p.tasks[j]? with _ | task
      · intro hstep
        cases hstep
      · intro hstep
        obtain rfl := Option.some.inj hstep
        exact h.advance hp htask result

/-- **Every run keeps the invariant.** -/
theorem sound_trace {w : World W} {actions : List (Action W)}
    (h : Trace (Step name) World.new actions w) : w.Sound :=
  h.invariant (fun _ _ _ hw hstep => sound_step hw hstep) sound_new

/-! ### What is applied was returned -/

variable {w w' : World W}

/-- Thread `j` of publish `i` is in `apply_fn` of the worker, with this intent. -/
def World.Applying (w : World W) (i j : ℕ) (worker : W) (intent : DeleteIntent) : Prop :=
  ∃ p ∈ w.publishes[i]?, ∃ task ∈ p.tasks[j]?, task.phase = .applying worker ∧ p.intent = intent

/-- A step adds the call that it ends with success. -/
theorem applied_step {action : Action W} (hstep : Step name w action w') {worker : W}
    {intent : DeleteIntent} (happlied : (worker, intent) ∈ w'.mem.applied) :
    (worker, intent) ∈ w.mem.applied ∨
      ∃ i j message, action = .advance i j (.returned true message) ∧
        w.Applying i j worker intent := by
  rw [Step, World.perform.eq_def] at hstep
  rcases action with ⟨coordinator, args⟩ | ⟨i, j, result⟩
  · obtain rfl := Option.some.inj hstep
    exact Or.inl happlied
  · dsimp only at hstep
    rcases hp : w.publishes[i]? with _ | p
    · rw [hp] at hstep
      cases hstep
    rw [hp] at hstep
    dsimp only at hstep
    rcases htask : p.tasks[j]? with _ | task
    · rw [htask] at hstep
      cases hstep
    rw [htask] at hstep
    obtain rfl := Option.some.inj hstep
    dsimp only at happlied
    unfold Task.step at happlied
    rcases hphase : task.phase with _ | applying | ⟨marking, text⟩ | ack
    · rw [hphase] at happlied
      dsimp only at happlied
      split at happlied
      · exact Or.inl happlied
      · split at happlied
        · exact Or.inl happlied
        · exact Or.inl happlied
    · rw [hphase] at happlied
      rcases result with ⟨_ | _, message⟩ | text
      · exact Or.inl happlied
      · rcases List.mem_append.mp happlied with hbefore | hnow
        · exact Or.inl hbefore
        · obtain ⟨rfl, rfl⟩ := Prod.mk.inj (List.mem_singleton.mp hnow)
          exact Or.inr ⟨i, j, message, rfl, p, hp, task, htask, hphase, rfl⟩
      · exact Or.inl happlied
    · rw [hphase] at happlied
      exact Or.inl happlied
    · rw [hphase] at happlied
      exact Or.inl happlied

/-- **What is applied was returned**: each entry of `applied` is a call of `apply_fn` that an action
of the run ends with success. -/
theorem applied_returned {actions : List (Action W)} (h : Trace (Step name) World.new actions w)
    {worker : W} {intent : DeleteIntent} (happlied : (worker, intent) ∈ w.mem.applied) :
    ∃ before i j message after u, actions = before ++ .advance i j (.returned true message) :: after ∧
      Trace (Step name) World.new before u ∧ u.Applying i j worker intent := by
  suffices hall : ∀ s, Trace (Step name) s actions w → (worker, intent) ∈ s.mem.applied ∨
      ∃ before i j message after u,
        actions = before ++ .advance i j (.returned true message) :: after ∧
          Trace (Step name) s before u ∧ u.Applying i j worker intent by
    rcases hall _ h with hnew | hreturned
    · cases hnew
    · exact hreturned
  clear h
  intro s htrace
  induction htrace with
  | nil s => exact Or.inl happlied
  | @cons s t w action actions hstep _ ih =>
    rcases ih happlied with hearlier | ⟨before, i, j, message, after, u, rfl, hbefore, hu⟩
    · rcases applied_step hstep hearlier with hbefore | ⟨i, j, message, rfl, hs⟩
      · exact Or.inl hbefore
      · exact Or.inr ⟨[], i, j, message, actions, s, rfl, .nil s, hs⟩
    · exact Or.inr ⟨action :: before, i, j, message, after, u, rfl, .cons hstep hbefore, hu⟩

end Sound

/-! ## Quorum -/

section Quorum

variable {W : Type}

/-- The default quorum is a majority of the replica ids, so any two of them meet. -/
theorem Coordinator.new_majority {replicaIds : List String} {workers : Dict String W}
    {coordinator : Coordinator W}
    (h : Coordinator.new replicaIds workers none = .ok coordinator) :
    1 ≤ coordinator.quorum ∧ coordinator.quorum ≤ coordinator.replicaIds.length ∧
      (coordinator.replicaIds.length : ℤ) < 2 * coordinator.quorum := by
  rw [Coordinator.new] at h
  split at h
  · rename_i hne
    obtain rfl := Except.ok.inj h
    have hpos : 0 < replicaIds.length := List.length_pos_iff.mpr hne
    simp only [Option.getD_none]
    omega
  · cases h

/-- At least `quorum` distinct workers have applied this collection and these ids. -/
def WipedBy (mem : Memory W) (quorum : ℤ) (intent : DeleteIntent) : Prop :=
  ∃ workers : List W, workers.Nodup ∧ quorum ≤ workers.length ∧
    ∀ worker ∈ workers, ∃ intent', (worker, intent') ∈ mem.applied ∧
      intent'.collection = intent.collection ∧ intent'.externalIds = intent.externalIds

/-- The replica ids that lead to a worker lead to different ones. -/
def Coordinator.Distinct (coordinator : Coordinator W) : Prop :=
  (coordinator.replicaIds.filterMap fun id => coordinator.workers.lookup id).Nodup

/-- No publish has the request id of this one for another collection or other ids. -/
def World.Unreused (w : World W) (intent : DeleteIntent) : Prop :=
  ∀ p ∈ w.publishes, p.intent.requestId = intent.requestId →
    p.intent.collection = intent.collection ∧ p.intent.externalIds = intent.externalIds

/-- The thread has ended with a success. -/
def Phase.succeeded : Phase W → Bool
  | .acked ack => ack.success
  | _ => false

/-- The acknowledgements of success are as many as the tasks that ended with one. -/
theorem Publish.Ended.successes_eq {p : Publish W} {acks : List ReplicaAck} (h : p.Ended acks) :
    successes acks = (p.tasks.filter fun task => task.phase.succeeded).length := by
  have hcount : (acks.map (Phase.acked (W := W))).countP Phase.succeeded = successes acks := by
    rw [List.countP_map]
    rfl
  rw [← hcount, ← h.countP_eq, List.countP_map, List.countP_eq_length_filter]
  rfl

/-- The workers behind the acknowledgements of success. -/
def Publish.backers (p : Publish W) : List W :=
  (p.tasks.filter fun task => task.phase.succeeded).filterMap fun task =>
    p.coordinator.workers.lookup task.replicaId

/-- A task that ended with success belongs to a worker that has applied the intent. -/
theorem World.Sound.succeeded {w : World W} (h : w.Sound) {p : Publish W}
    (hp : p ∈ w.publishes) {task : Task W}
    (htask : task ∈ p.tasks.filter fun task => task.phase.succeeded) :
    ∃ worker, p.coordinator.workers.lookup task.replicaId = some worker ∧
      w.mem.Backed worker p.intent.requestId := by
  obtain ⟨hmem, hsucceeded⟩ := List.mem_filter.mp htask
  have hsound := h.tasks p hp task hmem
  revert hsound hsucceeded
  unfold Task.Sound Phase.succeeded
  rcases task.phase with _ | worker | ⟨worker, message⟩ | ack
  · intro hsucceeded
    cases hsucceeded
  · intro hsucceeded
    cases hsucceeded
  · intro hsucceeded
    cases hsucceeded
  · intro hsuccess hack
    exact hack hsuccess

/-- Each success has its worker. -/
theorem World.Sound.length_backers {w : World W} (h : w.Sound) {p : Publish W}
    (hp : p ∈ w.publishes) {acks : List ReplicaAck} (hended : p.Ended acks) :
    p.backers.length = successes acks := by
  rw [hended.successes_eq, Publish.backers, List.length_filterMap_eq_countP,
    List.countP_eq_length]
  intro task htask
  obtain ⟨worker, hworker, -⟩ := h.succeeded hp htask
  rw [hworker]
  rfl

/-- With a worker for each replica id, no worker is counted twice. -/
theorem World.Sound.nodup_backers {w : World W} (h : w.Sound) {p : Publish W}
    (hp : p ∈ w.publishes) (hdistinct : p.coordinator.Distinct) : p.backers.Nodup := by
  rw [Coordinator.Distinct, ← h.ids p hp, List.filterMap_map] at hdistinct
  exact hdistinct.sublist (List.filter_sublist.filterMap _)

/-- Whoever is counted has applied the intent. -/
theorem World.Sound.backed {w : World W} (h : w.Sound) {p : Publish W} (hp : p ∈ w.publishes)
    {worker : W} (hworker : worker ∈ p.backers) : w.mem.Backed worker p.intent.requestId := by
  obtain ⟨task, htask, hlookup⟩ := List.mem_filterMap.mp hworker
  obtain ⟨worker', hlookup', hbacked⟩ := h.succeeded hp htask
  rw [hlookup'] at hlookup
  obtain rfl := Option.some.inj hlookup
  exact hbacked

variable [DecidableEq W] {name : W → String}

/-- **Quorum.** Where the replica ids lead to distinct workers and the request id stands for
one intent, a quorum of acknowledgements is a quorum of wiped replicas. -/
theorem quorum_wiped {w : World W} {actions : List (Action W)}
    (h : Trace (Step name) World.new actions w) {p : Publish W} (hp : p ∈ w.publishes)
    (hdistinct : p.coordinator.Distinct) (hunreused : w.Unreused p.intent)
    {acks : List ReplicaAck} (hended : p.Ended acks)
    (hmet : (p.result acks).quorumMet = true) :
    WipedBy w.mem p.coordinator.quorum p.intent := by
  have hsound := sound_trace h
  have hquorum : p.coordinator.quorum ≤ successes acks := of_decide_eq_true hmet
  refine ⟨p.backers, hsound.nodup_backers hp hdistinct, ?_, ?_⟩
  · rw [hsound.length_backers hp hended]
    exact hquorum
  · intro worker hworker
    -- what the worker applied was published under the same request id
    obtain ⟨intent, happlied, hid⟩ := hsound.backed hp hworker
    obtain ⟨p', hp', rfl⟩ := hsound.applied worker intent happlied
    exact ⟨p'.intent, happlied, hunreused p' hp' hid⟩

end Quorum

/-! ## Runs without a quorum of wiped replicas -/

section Misled

/-- A run in which a publish reports its quorum, and so many workers have not applied it. -/
def Misled {W : Type} [DecidableEq W] (name : W → String) (actions : List (Action W)) : Prop :=
  ∃ w, Trace (Step name) World.new actions w ∧ ∃ p ∈ w.publishes, ∃ acks,
    p.Ended acks ∧ (p.result acks).quorumMet = true ∧
      ¬ WipedBy w.mem p.coordinator.quorum p.intent

/-- One worker `a`. -/
def oneWorker : Dict String Unit := AList.insert "a" () ∅

/-- The one worker, under its id twice. -/
def repeatedReplica : Coordinator Unit := ⟨["a", "a"], oneWorker, 2, by simp⟩

/-- One replica id, one worker, a quorum of one. -/
def oneReplica : Coordinator Unit := ⟨["a"], oneWorker, 1, by simp⟩

/-- `publish("users", [externalId], request_id="req-1")` -/
def publishOne (externalId : String) : PublishArgs :=
  ⟨"users", [externalId], none, 16, some "req-1", "", 0⟩

/-- The steps of the one thread of publish `i`. -/
def threeSteps (i j : ℕ) : List (Action Unit) :=
  [.advance i j (.returned true "ok"), .advance i j (.returned true "ok"),
    .advance i j (.returned true "ok")]

/-- One publish to the repeated id: the second thread is answered by the first one's work. -/
def repeatedRun : List (Action Unit) :=
  .publish repeatedReplica (publishOne "u1") ::
    (threeSteps 0 0 ++ [.advance 0 1 (.raised "")])

/-- A publish of one id, then of another id under the same request id. -/
def reusedRun : List (Action Unit) :=
  .publish oneReplica (publishOne "u1") :: (threeSteps 0 0 ++
    [.publish oneReplica (publishOne "u2"), .advance 1 0 (.raised "")])

/-- The worker has applied the intent. -/
def okAck : ReplicaAck := ⟨"a", "req-1", true, "ok"⟩

/-- The worker has seen the request id. -/
def replayAck : ReplicaAck := ⟨"a", "req-1", true, "idempotent_replay"⟩

/-- A repeated replica id and a reused request id each make up a quorum. -/
theorem quorum_misled :
    Misled (fun _ : Unit => "a") repeatedRun ∧ Misled (fun _ : Unit => "a") reusedRun := by
  constructor
  · refine ⟨⟨⟨[((), "req-1")], [((), (publishOne "u1").intent)]⟩,
      [⟨repeatedReplica, (publishOne "u1").intent,
        [⟨"a", .acked okAck⟩, ⟨"a", .acked replayAck⟩]⟩]⟩,
      Trace.of_foldlM rfl, _, List.mem_singleton_self _, [okAck, replayAck], .refl _, rfl, ?_⟩
    -- there is one worker, and two acknowledgements of it
    rintro ⟨workers, hnd, hquorum, -⟩
    have hle : workers.length ≤ 1 := by
      have hsub : workers ⊆ [()] := fun worker _ => List.mem_singleton.mpr rfl
      exact (List.subperm_of_subset hnd hsub).length_le
    have hquorum : (2 : ℤ) ≤ workers.length := hquorum
    omega
  · refine ⟨⟨⟨[((), "req-1")], [((), (publishOne "u1").intent)]⟩,
      [⟨oneReplica, (publishOne "u1").intent, [⟨"a", .acked okAck⟩]⟩,
        ⟨oneReplica, (publishOne "u2").intent, [⟨"a", .acked replayAck⟩]⟩]⟩,
      Trace.of_foldlM rfl, _, List.mem_cons_of_mem _ (List.mem_singleton_self _), [replayAck],
      .refl _, rfl, ?_⟩
    -- the worker has applied the first intent only
    rintro ⟨workers, -, hquorum, happlied⟩
    have hquorum : (1 : ℤ) ≤ workers.length := hquorum
    have hmem : ∃ worker, worker ∈ workers := by
      apply List.exists_mem_of_length_pos
      omega
    obtain ⟨worker, hworker⟩ := hmem
    obtain ⟨intent, hintent, -, hids⟩ := happlied worker hworker
    obtain ⟨-, rfl⟩ := Prod.mk.inj (List.mem_singleton.mp hintent)
    exact absurd hids (by decide)

/-- Two workers, of which the second raises. -/
def twoReplicas : Coordinator Bool :=
  ⟨["a", "b"], (AList.insert "a" true ∅).insert "b" false, 1, by simp⟩

/-- The names of two workers. -/
def replicaName (worker : Bool) : String := if worker then "a" else "b"

/-- One worker applies the intent, the other one is down. -/
def twoRun : List (Action Bool) :=
  [.publish twoReplicas (publishOne "u1"), .advance 0 0 (.returned true "ok"),
    .advance 0 1 (.raised "down"), .advance 0 1 (.raised "down"),
    .advance 0 0 (.returned true "ok"), .advance 0 0 (.returned true "ok")]

/-- The second worker has not. -/
def downAck : ReplicaAck := ⟨"b", "req-1", false, "down"⟩

/-- The publish after `twoRun`. -/
def twoPublish : Publish Bool :=
  ⟨twoReplicas, (publishOne "u1").intent, [⟨"a", .acked okAck⟩, ⟨"b", .acked downAck⟩]⟩

/-- What the workers remember after `twoRun`. -/
def twoMemory : Memory Bool := ⟨[(true, "req-1")], [(true, (publishOne "u1").intent)]⟩

theorem quorum_wiped_two : WipedBy twoMemory 1 (publishOne "u1").intent := by
  have htrace : Trace (Step replicaName) World.new twoRun ⟨twoMemory, [twoPublish]⟩ :=
    Trace.of_foldlM rfl
  have hdistinct : twoPublish.coordinator.Distinct := by
    rw [Coordinator.Distinct]
    decide
  have hunreused : World.Unreused ⟨twoMemory, [twoPublish]⟩ twoPublish.intent := by
    intro p hp _
    rw [List.mem_singleton.mp hp]
    exact ⟨rfl, rfl⟩
  have hended : twoPublish.Ended [okAck, downAck] := .refl _
  exact quorum_wiped htrace (List.mem_singleton_self _) hdistinct hunreused hended rfl

end Misled

end Fanout

end Unlearning
