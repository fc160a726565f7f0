import Unlearning.Fanout

/-!
# Concurrent calls of one worker (`integrations/replica_fanout.py`, `ReplicaWorker.handle`)

`handle` looks the request id up and records it in two critical sections, with `apply_fn` in
between. A call whose lookup comes while another call of the same request id is past its own
lookup, and has not ended, finds nothing and applies the intent once more.

`Alone` says that no lookup comes at such a moment. `Mode` is what a run of such steps makes of
a request id: not applied, or in one call's hands, or recorded; `applied_once` is what follows
for the calls of `apply_fn` and for the calls that start late.
-/

namespace Unlearning

namespace Fanout

/-! ## The calls -/

/-- One step of `handle`, as a transport that has the worker calls it. -/
def handleStep (replicaId : String) (intent : DeleteIntent) (result : Applied)
    (mem : Memory Unit) (phase : Phase Unit) : Memory Unit × Phase Unit :=
  Task.step (fun _ => replicaId) (AList.insert replicaId () ∅) intent result mem
    ⟨replicaId, phase⟩

section Step

variable {replicaId : String} {intent : DeleteIntent} {mem : Memory Unit}

/-- What a replay is answered. -/
def replayOf (replicaId requestId : String) : ReplicaAck :=
  ⟨replicaId, requestId, true, "idempotent_replay"⟩

theorem handleStep_seen (result : Applied) (h : ((), intent.requestId) ∈ mem.seen) :
    handleStep replicaId intent result mem .sent =
      (mem, .acked (replayOf replicaId intent.requestId)) := by
  simp only [handleStep, Task.step, AList.lookup_insert, if_pos h]
  rfl

theorem handleStep_new (result : Applied) (h : ((), intent.requestId) ∉ mem.seen) :
    handleStep replicaId intent result mem .sent = (mem, .applying ()) := by
  simp only [handleStep, Task.step, AList.lookup_insert, if_neg h]

theorem handleStep_applying (result : Applied) :
    (∃ message, handleStep replicaId intent result mem (.applying ()) =
      ({ mem with applied := mem.applied ++ [((), intent)] }, .marking () message)) ∨
    ∃ ack, handleStep replicaId intent result mem (.applying ()) = (mem, .acked ack) := by
  rcases result with ⟨_ | _, message⟩ | text
  · exact .inr ⟨_, rfl⟩
  · exact .inl ⟨message, rfl⟩
  · exact .inr ⟨_, rfl⟩

theorem handleStep_applied (result : Applied) (phase : Phase Unit) :
    mem.applied <+: (handleStep replicaId intent result mem phase).1.applied := by
  rcases phase with _ | ⟨⟩ | ⟨⟨⟩, message⟩ | ack
  · by_cases hseen : ((), intent.requestId) ∈ mem.seen
    · exact (handleStep_seen result hseen).symm ▸ List.prefix_rfl
    · exact (handleStep_new result hseen).symm ▸ List.prefix_rfl
  · rcases @handleStep_applying replicaId intent mem result with ⟨message, heq⟩ | ⟨ack, heq⟩
    · exact heq.symm ▸ List.prefix_append _ _
    · exact heq.symm ▸ List.prefix_rfl
  · exact List.prefix_rfl
  · exact List.prefix_rfl

/-- A step of a call is no matter for other request ids. -/
theorem handleStep_other (result : Applied) (phase : Phase Unit) {requestId : String}
    (hne : intent.requestId ≠ requestId) :
    (((), requestId) ∈ (handleStep replicaId intent result mem phase).1.seen ↔
      ((), requestId) ∈ mem.seen) ∧
    (handleStep replicaId intent result mem phase).1.applied.countP
        (fun applied => applied.2.requestId = requestId) =
      mem.applied.countP fun applied => applied.2.requestId = requestId := by
  rcases phase with _ | ⟨⟩ | ⟨⟨⟩, message⟩ | ack
  · by_cases hseen : ((), intent.requestId) ∈ mem.seen
    · rw [handleStep_seen result hseen]
      exact ⟨Iff.rfl, rfl⟩
    · rw [handleStep_new result hseen]
      exact ⟨Iff.rfl, rfl⟩
  · rcases @handleStep_applying replicaId intent mem result with ⟨message, heq⟩ | ⟨ack, heq⟩
    · rw [heq]
      refine ⟨Iff.rfl, ?_⟩
      rw [List.countP_append, List.countP_singleton, if_neg (by simpa using hne), Nat.add_zero]
    · rw [heq]
      exact ⟨Iff.rfl, rfl⟩
  · refine ⟨?_, rfl⟩
    have hpair : ((), requestId) ≠ ((), intent.requestId) := fun h =>
      hne (congrArg Prod.snd h).symm
    exact List.mem_cons.trans (or_iff_right hpair)
  · exact ⟨Iff.rfl, rfl⟩

end Step

/-- A call of `handle`. -/
structure Handling where
  intent : DeleteIntent
  phase : Phase Unit

/-- A worker, and the calls of its `handle`. -/
structure Worker where
  mem : Memory Unit
  calls : List Handling

namespace Worker

/-- A new worker. -/
def new : Worker := ⟨⟨[], []⟩, []⟩

/-- A call of `handle`, or one that goes on. -/
inductive Action : Type where
  | start (intent : DeleteIntent)
  /-- a step of call `i` -/
  | advance (i : ℕ) (result : Applied)

/-- What an action leaves of the worker. -/
def perform (replicaId : String) (w : Worker) : Action → Option Worker
  | .start intent => some { w with calls := w.calls ++ [⟨intent, .sent⟩] }
  | .advance i result =>
    w.calls[i]?.map fun call =>
      let next := handleStep replicaId call.intent result w.mem call.phase
      ⟨next.1, w.calls.set i { call with phase := next.2 }⟩

/-- One step of a run. -/
def Step (replicaId : String) (w : Worker) (action : Action) (w' : Worker) : Prop :=
  w.perform replicaId action = some w'

/-- How often `apply_fn` has returned success for a request id. -/
def successes (w : Worker) (requestId : String) : ℕ :=
  w.mem.applied.countP fun applied => applied.2.requestId = requestId

end Worker

/-- Past the lookup that found nothing, and before the end of the call. -/
def Phase.InFlight : Phase Unit → Prop
  | .applying _ => True
  | .marking _ _ => True
  | _ => False

/-- The call is one of the request id, and in flight. -/
def Handling.Holds (requestId : String) (call : Handling) : Prop :=
  call.intent.requestId = requestId ∧ call.phase.InFlight

namespace Worker

/-- **No lookup beside a call in flight**: the condition on a step. -/
def Alone (requestId : String) (w : Worker) : Action → Prop
  | .start _ => True
  | .advance i _ => ∀ call, w.calls[i]? = some call → call.intent.requestId = requestId →
      call.phase = .sent → ∀ other ∈ w.calls, ¬ other.Holds requestId

/-- What is promised of a request id in a state that a run has reached: it was applied at most
once, and a call that started after that has not applied it, nor will. -/
structure Once (replicaId requestId : String) (actions : List Action) (w : Worker) : Prop where
  successes : w.successes requestId ≤ 1
  late : ∀ before intent after w₁, actions = before ++ .start intent :: after →
    intent.requestId = requestId → Trace (Step replicaId) new before w₁ →
    1 ≤ w₁.successes requestId → ∀ call, w.calls[w₁.calls.length]? = some call →
      call.phase = .sent ∨ call.phase = .acked (replayOf replicaId requestId)

/-! ## What becomes of a request id -/

/-- No call but those at an index holds the request id. -/
def Quiet (requestId : String) (w : Worker) (except : Option ℕ) : Prop :=
  ∀ j call, w.calls[j]? = some call → some j ≠ except → ¬ call.Holds requestId

/-- **Where a request id is.** -/
inductive Mode (requestId : String) (w : Worker) : Prop where
  | untouched (hzero : w.successes requestId = 0) (hseen : ((), requestId) ∉ w.mem.seen)
      (hquiet : w.Quiet requestId none)
  | applying (i : ℕ) (call : Handling) (hcall : w.calls[i]? = some call)
      (hid : call.intent.requestId = requestId) (hphase : call.phase = .applying ())
      (hzero : w.successes requestId = 0) (hseen : ((), requestId) ∉ w.mem.seen)
      (hquiet : w.Quiet requestId (some i))
  | marking (i : ℕ) (call : Handling) (message : String) (hcall : w.calls[i]? = some call)
      (hid : call.intent.requestId = requestId) (hphase : call.phase = .marking () message)
      (hone : w.successes requestId = 1) (hseen : ((), requestId) ∉ w.mem.seen)
      (hquiet : w.Quiet requestId (some i))
  | recorded (hone : w.successes requestId = 1) (hseen : ((), requestId) ∈ w.mem.seen)
      (hquiet : w.Quiet requestId none)

section Modes

variable {replicaId requestId : String} {w w' : Worker}

theorem quiet_append {except : Option ℕ} (h : w.Quiet requestId except) (intent : DeleteIntent) :
    Quiet requestId { w with calls := w.calls ++ [⟨intent, .sent⟩] } except := by
  intro j call hcall hj
  rw [List.getElem?_append] at hcall
  split at hcall
  · exact h j call hcall hj
  · rw [List.getElem?_singleton] at hcall
    split at hcall
    · obtain rfl := Option.some.inj hcall
      exact fun hholds => hholds.2
    · cases hcall

/-- One call has changed: what is left to show of it and of the others. -/
theorem quiet_set {mem : Memory Unit} {i : ℕ} {new : Handling} {except : Option ℕ}
    (hothers : w.Quiet requestId (some i))
    (hnew : some i ≠ except → ¬ new.Holds requestId) :
    Quiet requestId ⟨mem, w.calls.set i new⟩ except := by
  intro j call hcall hj
  by_cases heq : i = j
  · subst heq
    rw [List.getElem?_set_self'] at hcall
    obtain ⟨_, _, rfl⟩ := Option.map_eq_some_iff.mp hcall
    exact hnew hj
  · rw [List.getElem?_set_ne heq] at hcall
    exact hothers j call hcall fun h => heq (Option.some.inj h).symm

theorem Quiet.weaken {except : Option ℕ} (h : w.Quiet requestId none) :
    w.Quiet requestId except :=
  fun j call hcall _ => h j call hcall nofun

/-- A change that the request id does not take part in. -/
theorem Mode.transport (h : Mode requestId w)
    (hcount : w'.successes requestId = w.successes requestId)
    (hseen' : ((), requestId) ∈ w'.mem.seen ↔ ((), requestId) ∈ w.mem.seen)
    (hquiet' : ∀ except, w.Quiet requestId except → w'.Quiet requestId except)
    (hsame : ∀ (j : ℕ) (other : Handling), w.calls[j]? = some other →
      other.intent.requestId = requestId → w'.calls[j]? = some other) : Mode requestId w' := by
  rcases h with ⟨hzero, hseen, hquiet⟩ | ⟨j, other, hother, hid, hphase, hzero, hseen, hquiet⟩ |
    ⟨j, other, message, hother, hid, hphase, hone, hseen, hquiet⟩ | ⟨hone, hseen, hquiet⟩
  · exact .untouched (hcount.trans hzero) (mt hseen'.mp hseen) (hquiet' _ hquiet)
  · exact .applying j other (hsame j other hother hid) hid hphase (hcount.trans hzero)
      (mt hseen'.mp hseen) (hquiet' _ hquiet)
  · exact .marking j other message (hsame j other hother hid) hid hphase (hcount.trans hone)
      (mt hseen'.mp hseen) (hquiet' _ hquiet)
  · exact .recorded (hcount.trans hone) (hseen'.mpr hseen) (hquiet' _ hquiet)

/-- A step of a call of another request id. -/
theorem Mode.other (h : Mode requestId w) {i : ℕ} {call : Handling}
    (hcall : w.calls[i]? = some call) (hne : call.intent.requestId ≠ requestId)
    {mem : Memory Unit} {phase : Phase Unit}
    (hseen' : ((), requestId) ∈ mem.seen ↔ ((), requestId) ∈ w.mem.seen)
    (hcount : successes ⟨mem, w.calls.set i { call with phase := phase }⟩ requestId =
      w.successes requestId) :
    Mode requestId ⟨mem, w.calls.set i { call with phase := phase }⟩ := by
  refine h.transport hcount hseen' ?_ ?_
  · intro except hquiet j other hother hj hholds
    by_cases heq : i = j
    · subst heq
      rw [List.getElem?_set_self'] at hother
      obtain ⟨_, _, rfl⟩ := Option.map_eq_some_iff.mp hother
      exact hne hholds.1
    · rw [List.getElem?_set_ne heq] at hother
      exact hquiet j other hother hj hholds
  · intro j other hother hid
    have hij : i ≠ j := by
      rintro rfl
      obtain rfl := Option.some.inj (hcall.symm.trans hother)
      exact hne hid
    rw [List.getElem?_set_ne hij, hother]

/-- The mode where no call is in flight. -/
theorem Mode.of_quiet (h : Mode requestId w) (hnone : w.Quiet requestId none) :
    (w.successes requestId = 0 ∧ ((), requestId) ∉ w.mem.seen) ∨
      (w.successes requestId = 1 ∧ ((), requestId) ∈ w.mem.seen) := by
  rcases h with ⟨hzero, hseen, -⟩ | ⟨j, other, hother, hid, hphase, -, -, -⟩ |
    ⟨j, other, message, hother, hid, hphase, -, -, -⟩ | ⟨hone, hseen, -⟩
  · exact .inl ⟨hzero, hseen⟩
  · exact absurd ⟨hid, by rw [hphase]; trivial⟩ (hnone j other hother nofun)
  · exact absurd ⟨hid, by rw [hphase]; trivial⟩ (hnone j other hother nofun)
  · exact .inr ⟨hone, hseen⟩

/-- A call in flight is the one that the mode is about. -/
theorem Mode.of_holds (h : Mode requestId w) {i : ℕ} {call : Handling}
    (hcall : w.calls[i]? = some call) (hholds : call.Holds requestId) :
    w.Quiet requestId (some i) ∧ ((), requestId) ∉ w.mem.seen ∧
      ((call.phase = .applying () ∧ w.successes requestId = 0) ∨
        ∃ message, call.phase = .marking () message ∧ w.successes requestId = 1) := by
  have hindex : ∀ {j}, w.Quiet requestId (some j) → i = j := by
    intro j hquiet
    by_contra hne
    exact hquiet i call hcall (fun h => hne (Option.some.inj h)) hholds
  rcases h with ⟨-, -, hquiet⟩ | ⟨j, other, hother, -, hphase, hzero, hseen, hquiet⟩ |
    ⟨j, other, message, hother, -, hphase, hone, hseen, hquiet⟩ | ⟨-, -, hquiet⟩
  · exact absurd hholds (hquiet i call hcall nofun)
  · obtain rfl := hindex hquiet
    obtain rfl := Option.some.inj (hcall.symm.trans hother)
    exact ⟨hquiet, hseen, .inl ⟨hphase, hzero⟩⟩
  · obtain rfl := hindex hquiet
    obtain rfl := Option.some.inj (hcall.symm.trans hother)
    exact ⟨hquiet, hseen, .inr ⟨message, hphase, hone⟩⟩
  · exact absurd hholds (hquiet i call hcall nofun)

/-- A step of a call of the request id. -/
theorem Mode.own (h : Mode requestId w) {i : ℕ} {call : Handling}
    (hcall : w.calls[i]? = some call) (hid : call.intent.requestId = requestId)
    (result : Applied) (halone : w.Alone requestId (.advance i result)) :
    let next := handleStep replicaId call.intent result w.mem call.phase
    Mode requestId ⟨next.1, w.calls.set i { call with phase := next.2 }⟩ := by
  intro next
  have hlt : i < w.calls.length := (List.getElem?_eq_some_iff.mp hcall).1
  have hself : (w.calls.set i { call with phase := next.2 })[i]? =
      some { call with phase := next.2 } := List.getElem?_set_self hlt
  rcases call with ⟨intent, phase⟩
  dsimp only at hid
  subst hid
  rcases phase with _ | ⟨⟩ | ⟨⟨⟩, message⟩ | ack
  · have hnone : w.Quiet intent.requestId none := fun j other hother _ =>
      halone _ hcall rfl rfl other (List.mem_of_getElem? hother)
    rcases h.of_quiet hnone with ⟨hzero, hseen⟩ | ⟨hone, hseen⟩
    · have hnext : next = (w.mem, .applying ()) := handleStep_new result hseen
      rw [hnext] at hself ⊢
      exact .applying i _ hself rfl rfl hzero hseen (quiet_set hnone.weaken (absurd rfl))
    · have hnext : next = (w.mem, .acked (replayOf replicaId intent.requestId)) :=
        handleStep_seen result hseen
      rw [hnext]
      exact .recorded hone hseen (quiet_set hnone.weaken fun _ hholds => hholds.2)
  · obtain ⟨hquiet, hseen, ⟨-, hzero⟩ | ⟨message, hphase, -⟩⟩ := h.of_holds hcall ⟨rfl, trivial⟩
    · rcases @handleStep_applying replicaId intent w.mem result with ⟨message, hnext⟩ |
        ⟨ack, hnext⟩
      · -- applied, and not yet recorded
        have hnext : next = _ := hnext
        rw [hnext] at hself ⊢
        refine .marking i _ message hself rfl rfl ?_ hseen (quiet_set hquiet (absurd rfl))
        have hcount : w.mem.applied.countP
            (fun applied => applied.2.requestId = intent.requestId) = 0 := hzero
        rw [successes, List.countP_append, hcount, List.countP_singleton, if_pos (by simp)]
      · have hnext : next = _ := hnext
        rw [hnext]
        exact .untouched hzero hseen (quiet_set hquiet fun _ hholds => hholds.2)
    · cases hphase
  · obtain ⟨hquiet, -, ⟨hphase, -⟩ | ⟨message, -, hone⟩⟩ := h.of_holds hcall ⟨rfl, trivial⟩
    · cases hphase
    · exact .recorded hone List.mem_cons_self (quiet_set hquiet fun _ hholds => hholds.2)
  · -- the call has ended
    have hsame : w.calls.set i ⟨intent, .acked ack⟩ = w.calls := by
      obtain ⟨hlt, heq⟩ := List.getElem?_eq_some_iff.mp hcall
      rw [← heq, List.set_getElem_self hlt]
    have hnext : next = (w.mem, .acked ack) := rfl
    rw [hnext]
    dsimp only
    rw [hsame]
    exact h

/-- **A step keeps the mode.** -/
theorem Mode.step (h : Mode requestId w) {action : Action}
    (hstep : Guarded (Alone requestId) (Step replicaId) w action w') : Mode requestId w' := by
  obtain ⟨halone, hstep⟩ := hstep
  rcases action with intent | ⟨i, result⟩
  · obtain rfl := Option.some.inj hstep
    refine h.transport rfl Iff.rfl (fun _ hquiet => quiet_append hquiet intent) ?_
    intro j other hother _
    rw [List.getElem?_append_left (List.getElem?_eq_some_iff.mp hother).1, hother]
  · obtain ⟨call, hcall, rfl⟩ := Option.map_eq_some_iff.mp hstep
    by_cases hid : call.intent.requestId = requestId
    · exact h.own hcall hid result halone
    · obtain ⟨hseen, hcount⟩ :=
        @handleStep_other replicaId call.intent w.mem result call.phase requestId hid
      exact h.other hcall hid hseen hcount

/-- What has been applied stays applied. -/
theorem successes_step {action : Action} (hstep : Step replicaId w action w') :
    w.successes requestId ≤ w'.successes requestId := by
  rcases action with intent | ⟨i, result⟩
  · obtain rfl := Option.some.inj hstep
    exact le_refl _
  · obtain ⟨call, -, rfl⟩ := Option.map_eq_some_iff.mp hstep
    exact (handleStep_applied result call.phase).sublist.countP_le

/-! ## Calls that start late -/

/-- Call `k` has started after the request id was applied. -/
structure Late (replicaId requestId : String) (k : ℕ) (w : Worker) : Prop where
  mode : Mode requestId w
  applied : 1 ≤ w.successes requestId
  call : ∃ call, w.calls[k]? = some call ∧ call.intent.requestId = requestId ∧
    (call.phase = .sent ∨ call.phase = .acked (replayOf replicaId requestId))

/-- Where nobody holds a request id that was applied, it is recorded. -/
theorem Mode.seen (h : Mode requestId w) (happlied : 1 ≤ w.successes requestId)
    (hquiet : ∀ other ∈ w.calls, ¬ other.Holds requestId) : ((), requestId) ∈ w.mem.seen := by
  rcases h with ⟨hzero, -, -⟩ | ⟨j, other, -, -, -, hzero, -, -⟩ |
    ⟨j, other, message, hother, hid, hphase, -, -, -⟩ | ⟨-, hseen, -⟩
  · omega
  · omega
  · exact absurd ⟨hid, by rw [hphase]; trivial⟩ (hquiet other (List.mem_of_getElem? hother))
  · exact hseen

theorem Late.step {k : ℕ} (h : Late replicaId requestId k w) {action : Action}
    (hstep : Guarded (Alone requestId) (Step replicaId) w action w') :
    Late replicaId requestId k w' := by
  refine ⟨h.mode.step hstep, h.applied.trans (successes_step hstep.2), ?_⟩
  obtain ⟨halone, hstep⟩ := hstep
  obtain ⟨call, hcall, hid, hphase⟩ := h.call
  rcases action with intent | ⟨i, result⟩
  · obtain rfl := Option.some.inj hstep
    refine ⟨call, ?_, hid, hphase⟩
    rw [List.getElem?_append_left (List.getElem?_eq_some_iff.mp hcall).1, hcall]
  · obtain ⟨other, hother, rfl⟩ := Option.map_eq_some_iff.mp hstep
    by_cases heq : i = k
    · subst heq
      obtain rfl := Option.some.inj (hcall.symm.trans hother)
      refine ⟨_, List.getElem?_set_self (List.getElem?_eq_some_iff.mp hcall).1, hid, ?_⟩
      rcases hphase with hphase | hphase
      · -- the lookup comes when nobody is in flight, and finds the record
        have hseen := h.mode.seen h.applied (halone call hcall hid hphase)
        rw [← hid] at hseen ⊢
        rw [hphase, handleStep_seen result hseen]
        exact .inr rfl
      · rw [hphase]
        exact .inr rfl
    · refine ⟨call, ?_, hid, hphase⟩
      dsimp only
      rw [List.getElem?_set_ne heq, hcall]

theorem mode_new : Mode requestId new := .untouched rfl List.not_mem_nil nofun

/-- **A request id is applied at most once,** and calls that start after that are answered
without it, in every run in which no lookup comes beside a call in flight. -/
theorem applied_once (replicaId requestId : String) {actions : List Action} {w : Worker}
    (h : Trace (Guarded (Alone requestId) (Step replicaId)) new actions w) :
    Once replicaId requestId actions w := by
  constructor
  · have hmode : Mode requestId w :=
      h.invariant (fun _ _ _ hmode hstep => hmode.step hstep) mode_new
    rcases hmode with ⟨hzero, -, -⟩ | ⟨j, other, -, -, -, hzero, -, -⟩ |
      ⟨j, other, message, -, -, -, hone, -, -⟩ | ⟨hone, -, -⟩
    · rw [hzero]
      exact Nat.zero_le 1
    · rw [hzero]
      exact Nat.zero_le 1
    · exact hone.le
    · exact hone.le
  · rintro before intent after w₁ rfl hid hbefore happlied call hcall
    obtain ⟨w₁', hbegin, hrest⟩ := h.split
    obtain rfl := hbefore.unique (hbegin.mono fun _ _ _ hstep => hstep.2)
      fun _ _ _ _ h h' => Option.some.inj (h.symm.trans h')
    rcases hrest with _ | ⟨hstart, hafter⟩
    have hmode : Mode requestId w₁ :=
      hbegin.invariant (fun _ _ _ hmode hstep => hmode.step hstep) mode_new
    have hnext := hmode.step hstart
    obtain rfl := Option.some.inj hstart.2
    have hlate : Late replicaId requestId w₁.calls.length
        { w₁ with calls := w₁.calls ++ [⟨intent, .sent⟩] } :=
      ⟨hnext, happlied, ⟨intent, .sent⟩, List.getElem?_concat_length, hid, .inl rfl⟩
    obtain ⟨call', hcall', -, hphase⟩ :=
      (hafter.invariant (fun _ _ _ hlate hstep => hlate.step hstep) hlate).call
    obtain rfl := Option.some.inj (hcall.symm.trans hcall')
    exact hphase

end Modes

/-! ## Calls one after the other, and calls that overlap -/

section Duplicates

/-- An intent that is sent twice. -/
def duplicate : DeleteIntent := ⟨"same", "c", ["x"], none, 16, 0⟩

/-- `apply_fn` returns `(True, "ok")`. -/
def appliedOk : Applied := .returned true "ok"

/-- A call, and then another. -/
def oneByOne : List Action :=
  [.start duplicate, .advance 0 appliedOk, .advance 0 appliedOk, .advance 0 appliedOk,
    .start duplicate, .advance 1 appliedOk]

/-- The worker after that. -/
def workerOneByOne : Worker :=
  ⟨⟨[((), "same")], [((), duplicate)]⟩,
    [⟨duplicate, .acked ⟨"r1", "same", true, "ok"⟩⟩,
      ⟨duplicate, .acked (replayOf "r1" "same")⟩]⟩

theorem applied_once_oneByOne : Once "r1" "same" oneByOne workerOneByOne := by
  have hending : ∀ (w : Worker) i call result, w.calls[i]? = some call → call.phase ≠ .sent →
      w.Alone "same" (.advance i result) := by
    intro w i call result hcall hphase other hother _ hsent
    obtain rfl := Option.some.inj (hcall.symm.trans hother)
    exact absurd hsent hphase
  have hlookup : ∀ (w : Worker) i result, (∀ other ∈ w.calls, ¬ other.Holds "same") →
      w.Alone "same" (.advance i result) := fun w i result hquiet _ _ _ _ => hquiet
  have htrace : Trace (Guarded (Alone "same") (Step "r1")) new oneByOne workerOneByOne := by
    refine .cons ⟨trivial, rfl⟩ (.cons ⟨hlookup _ _ _ ?_, rfl⟩ (.cons ⟨hending _ _ _ _ rfl ?_, rfl⟩
      (.cons ⟨hending _ _ _ _ rfl ?_, rfl⟩ (.cons ⟨trivial, rfl⟩
        (.cons ⟨hlookup _ _ _ ?_, rfl⟩ (.nil _))))))
    · simp [Handling.Holds, Phase.InFlight, new]
    · nofun
    · nofun
    · have hquiet : ∀ other ∈ [⟨duplicate, .acked ⟨"r1", "same", true, "ok"⟩⟩,
          ⟨duplicate, .sent⟩], ¬ Handling.Holds "same" other := by
        simp [Handling.Holds, Phase.InFlight]
      exact hquiet
  exact applied_once "r1" "same" htrace

/-- Two calls whose lookups both come before the applications. -/
def overlapping : List Action :=
  [.start duplicate, .start duplicate, .advance 0 appliedOk, .advance 1 appliedOk,
    .advance 0 appliedOk, .advance 1 appliedOk]

/-- A call that starts between the application and the record. -/
def betweenSections : List Action :=
  [.start duplicate, .advance 0 appliedOk, .advance 0 appliedOk, .start duplicate,
    .advance 1 appliedOk]

theorem overlapping_applied_twice :
    (∃ w, Trace (Step "r1") new overlapping w ∧ w.successes "same" = 2 ∧
      ¬ Once "r1" "same" overlapping w) ∧
    ∃ w, Trace (Step "r1") new betweenSections w ∧ ¬ Once "r1" "same" betweenSections w := by
  refine ⟨⟨_, Trace.of_foldlM rfl, rfl, ?_⟩, _, Trace.of_foldlM rfl, ?_⟩
  · intro h
    exact absurd h.successes (by decide)
  · intro h
    have hbefore : Trace (Step "r1") new
        [.start duplicate, .advance 0 appliedOk, .advance 0 appliedOk]
        ⟨⟨[], [((), duplicate)]⟩, [⟨duplicate, .marking () "ok"⟩]⟩ := Trace.of_foldlM rfl
    have hlate := h.late _ duplicate [.advance 1 appliedOk] _ rfl rfl hbefore (by decide) _ rfl
    rcases hlate with hlate | hlate
    · cases hlate
    · cases hlate

end Duplicates

end Worker

end Fanout

end Unlearning
