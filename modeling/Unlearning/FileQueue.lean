import Unlearning.Custody
import Unlearning.OutboxRounds
import Unlearning.Trace

/-!
# The file queue (`integrations/queue_transports.py`, `FileQueueTransport`)

A message is a file that is moved from `pending` to `processing` by who takes it, and to `done`
by who acknowledges it. Producers and consumers are threads of any number of processes over one
directory; a step is one file operation of one of them. `write_text` opens the file before it
writes it, a consumer lists the folder once and then reads and moves the files one by one, and a
file that is not there any more raises.

A consumer whose call raises loses what it had moved: nothing is ever moved back. `held` says who
answers for a message that has left `pending`: a thread in its call, or the log, where it was
returned or lost.
-/

namespace Unlearning

namespace FileQueue

open Doc

/-! ## Messages -/

/-- `QueueMessage` -/
structure QueueMessage where
  messageId : String
  body : List (String × Doc Empty)
  /-- the name of the file in `processing`; `none` is the empty text -/
  receiptHandle : Option String
  enqueuedUnixNs : ℤ

namespace QueueMessage

/-- `asdict(msg)` -/
def items (msg : QueueMessage) : List (String × Doc Empty) :=
  [("message_id", .str msg.messageId), ("body", .object msg.body),
    ("receipt_handle", .str (msg.receiptHandle.getD "")),
    ("enqueued_unix_ns", .int msg.enqueuedUnixNs)]

/-- What a file holds after `json.dumps(asdict(msg), indent=2, sort_keys=True)` was written. -/
def text (msg : QueueMessage) : Doc Empty := image id (.object msg.items)

/-- The message that `dequeue` makes of a file. -/
def ofText (doc : Doc Empty) : Except ReadError QueueMessage := do
  let data ← members doc
  let messageId ← require data "message_id" >>= readStr
  let body ← require data "body" >>= members
  let enqueued ← getD data "enqueued_unix_ns" readInt 0
  return ⟨messageId, body, none, enqueued⟩

/-- The message as it is read back, from the file of this name. -/
def taken (msg : QueueMessage) (handle : Option String) : QueueMessage :=
  { msg with body := imageMembers id msg.body, receiptHandle := handle }

/-- A message is read back from its file, its receipt handle aside. -/
theorem ofText_text (msg : QueueMessage) : ofText msg.text = .ok (msg.taken none) := by
  have hnd : (msg.items.map Prod.fst).Nodup := by simp [items]
  have hid : (require (imageMembers id msg.items) "message_id" >>= readStr) = .ok msg.messageId :=
    require_imageMembers hnd (.str msg.messageId) (by simp [items]) (by rfl)
  have hbody : (require (imageMembers id msg.items) "body" >>= members) =
      .ok (imageMembers id msg.body) :=
    require_imageMembers hnd (.object msg.body) (by simp [items]) (members_image id msg.body)
  have htime : getD (imageMembers id msg.items) "enqueued_unix_ns" readInt 0 =
      .ok msg.enqueuedUnixNs :=
    getD_imageMembers hnd (.int msg.enqueuedUnixNs) (by simp [items]) (by rfl) 0
  rw [text, ofText, members_image]
  change (require (imageMembers id msg.items) "message_id" >>= readStr) >>= _ = _
  rw [hid]
  change (require (imageMembers id msg.items) "body" >>= members) >>= _ = _
  rw [hbody]
  simp only [bind, Except.bind, htime]
  rfl

end QueueMessage

/-! ## Files -/

/-- `pending`, `processing` and `done`. -/
inductive QueueFolder : Type where
  | pending
  | processing
  | done
  deriving DecidableEq

/-- A file `{message_id}.json`; `none` is opened and not written yet, which is no JSON. -/
abbrev QueueFile := Option (Doc Empty)

/-- What is under `root/queue`. -/
abbrev QueueFiles := QueueFolder → Dict String QueueFile

/-- The folders of a new queue. -/
def noFiles : QueueFiles := fun _ => ∅

/-- A file is written to a folder. -/
def put (files : QueueFiles) (folder : QueueFolder) (name : String) (file : QueueFile) :
    QueueFiles :=
  Function.update files folder ((files folder).insert name file)

/-- `src.replace(dest)`; `none` if there is no such file. -/
def move (files : QueueFiles) (src dst : QueueFolder) (name : String) : Option QueueFiles :=
  ((files src).lookup name).map fun file =>
    put (Function.update files src ((files src).erase name)) dst name file

/-- The order of `sorted(self.pending.glob("*.json"))`. -/
def nameLe (a b : String) : Bool := a ++ ".json" ≤ b ++ ".json"

/-- `sorted(self.pending.glob("*.json"))[:max_messages]` -/
def pendingNames (files : QueueFiles) (maxMessages : ℤ) : List String :=
  Outbox.upTo maxMessages ((files .pending).keys.mergeSort nameLe)

/-! ## Threads -/

/-- What a call of the queue raises. -/
inductive QueueError : Type where
  | fileNotFound
  | jsonDecode
  | badMessage (e : ReadError)

/-- A call of the transport; `enqueue` with the id and the time that it draws. -/
inductive QueueCall : Type where
  | enqueue (messageId : String) (body : List (String × Doc Empty)) (now : ℤ)
  | dequeue (maxMessages : ℤ)
  | ack (message : QueueMessage)

/-- Where a thread is. -/
inductive QueueThread : Type where
  | idle
  /-- `write_text` has opened the file -/
  | writing (msg : QueueMessage)
  /-- before the next of the paths -/
  | taking (todo : List String) (out : List QueueMessage)
  /-- the file is read, and not moved yet -/
  | opened (name : String) (msg : QueueMessage) (todo : List String) (out : List QueueMessage)
  /-- `is_file` has answered -/
  | acking (name : String)

/-- What a thread does: it starts a call, or goes on with the one it is in. -/
inductive QueueStep : Type where
  | start (call : QueueCall)
  | next

/-- What the callers see. A call of `dequeue` that raises drops what it had moved. -/
inductive QueueEvent : Type where
  | enqueued (msg : QueueMessage)
  | returned (out : List QueueMessage)
  | raised (e : QueueError) (dropped : List QueueMessage)

namespace QueueThread

/-- A call starts with its first file operation. -/
def begin (files : QueueFiles) : QueueCall → Option (QueueThread × QueueFiles)
  | .enqueue messageId body now =>
    -- `uuid4` draws an id that no file has
    if messageId ∉ files .pending ∧ messageId ∉ files .processing ∧ messageId ∉ files .done then
      some (.writing ⟨messageId, body, none, now⟩, put files .pending messageId none)
    else none
  | .dequeue maxMessages => some (.taking (pendingNames files maxMessages) [], files)
  | .ack message =>
    match message.receiptHandle with
    | none => some (.idle, files)
    | some name => some (if name ∈ files .processing then .acking name else .idle, files)

/-- The next file operation of a call. -/
def resume (files : QueueFiles) : QueueThread → Option (QueueThread × QueueFiles × List QueueEvent)
  | .idle => none
  | .writing msg => some (.idle, put files .pending msg.messageId (some msg.text), [.enqueued msg])
  | .taking [] out => some (.idle, files, [.returned out])
  | .taking (name :: todo) out =>
    match (files .pending).lookup name with
    | none => some (.idle, files, [.raised .fileNotFound out])
    | some none => some (.idle, files, [.raised .jsonDecode out])
    | some (some doc) =>
      match QueueMessage.ofText doc with
      | .ok msg => some (.opened name msg todo out, files, [])
      | .error e => some (.idle, files, [.raised (.badMessage e) out])
  | .opened name msg todo out =>
    match move files .pending .processing name with
    | some files' =>
      some (.taking todo (out ++ [{ msg with receiptHandle := some name }]), files', [])
    | none => some (.idle, files, [.raised .fileNotFound out])
  | .acking name =>
    match move files .processing .done name with
    | some files' => some (.idle, files', [])
    | none => some (.idle, files, [.raised .fileNotFound []])

/-- One step of a thread. -/
def step (files : QueueFiles) (l : QueueThread) : QueueStep →
    Option (QueueThread × QueueFiles × List QueueEvent)
  | .start call => match l with
    | .idle => (begin files call).map fun r => (r.1, r.2, [])
    | _ => none
  | .next => l.resume files

/-- What the call has moved so far. -/
def out : QueueThread → List QueueMessage
  | .taking _ out => out
  | .opened _ _ _ out => out
  | _ => []

end QueueThread

/-! ## The system -/

/-- The directory, the threads that use it, and what their calls came to. -/
structure QueueSystem (T : Type) where
  files : QueueFiles
  threads : T → QueueThread
  log : List QueueEvent

/-- The messages that a call has given out, to its caller or to nobody. -/
def QueueEvent.given : QueueEvent → List QueueMessage
  | .enqueued _ => []
  | .returned out => out
  | .raised _ dropped => dropped

namespace QueueSystem

variable {T : Type} [DecidableEq T]

/-- A new queue. -/
def initial : QueueSystem T := ⟨noFiles, fun _ => .idle, []⟩

/-- One step of one thread. -/
def perform (s : QueueSystem T) (a : T × QueueStep) : Option (QueueSystem T) :=
  ((s.threads a.1).step s.files a.2).map fun r =>
    ⟨r.2.1, Function.update s.threads a.1 r.1, s.log ++ r.2.2⟩

/-- The step relation of the system. -/
def Step (s : QueueSystem T) (a : T × QueueStep) (s' : QueueSystem T) : Prop :=
  s.perform a = some s'

omit [DecidableEq T] in
/-- Who answers for which messages: a thread for what its call has moved, the log for what was
given out. -/
def held (s : QueueSystem T) : Option T → List QueueMessage
  | some t => (s.threads t).out
  | none => s.log.flatMap QueueEvent.given

end QueueSystem

/-! ## What a step does -/

namespace QueueSystem

variable {T : Type} [DecidableEq T] {s s' : QueueSystem T}

/-- **What a step of a thread can do.** -/
inductive Moves (s : QueueSystem T) (t : T) : QueueSystem T → Prop where
  /-- the folder is listed, a file is read, or is looked for -/
  | looked (l : QueueThread) (hout : l.out = (s.threads t).out)
      (hnot : ∀ msg, l ≠ .writing msg)
      (hread : ∀ name msg todo out, l = .opened name msg todo out →
        ∃ doc, (s.files .pending).lookup name = some (some doc) ∧
          QueueMessage.ofText doc = .ok msg) :
      Moves s t ⟨s.files, Function.update s.threads t l, s.log⟩
  /-- `write_text` opens the file -/
  | opened (msg : QueueMessage) (hidle : s.threads t = .idle) (hhandle : msg.receiptHandle = none)
      (hnew : ∀ folder, msg.messageId ∉ s.files folder) :
      Moves s t ⟨put s.files .pending msg.messageId none,
        Function.update s.threads t (.writing msg), s.log⟩
  /-- `enqueue` is done -/
  | wrote (msg : QueueMessage) (hwriting : s.threads t = .writing msg) :
      Moves s t ⟨put s.files .pending msg.messageId (some msg.text),
        Function.update s.threads t .idle, s.log ++ [.enqueued msg]⟩
  /-- a consumer moves a file that it has read -/
  | took (name : String) (msg : QueueMessage) (todo : List String) (out : List QueueMessage)
      (files' : QueueFiles) (hopened : s.threads t = .opened name msg todo out)
      (hmove : move s.files .pending .processing name = some files') :
      Moves s t ⟨files', Function.update s.threads t
        (.taking todo (out ++ [{ msg with receiptHandle := some name }])), s.log⟩
  /-- a call of `dequeue` or `ack` ends -/
  | ended (e : QueueEvent) (hgiven : e.given = (s.threads t).out)
      (hnot : ∀ msg, e ≠ .enqueued msg) :
      Moves s t ⟨s.files, Function.update s.threads t .idle, s.log ++ [e]⟩
  /-- a message is acknowledged -/
  | acked (name : String) (files' : QueueFiles) (hacking : s.threads t = .acking name)
      (hmove : move s.files .processing .done name = some files') :
      Moves s t ⟨files', Function.update s.threads t .idle, s.log⟩

/-- A call that begins moves its own thread. -/
theorem moves_of_begin {t : T} {call : QueueCall} {r : QueueThread × QueueFiles}
    (hidle : s.threads t = .idle) (h : QueueThread.begin s.files call = some r) :
    Moves s t ⟨r.2, Function.update s.threads t r.1, s.log⟩ := by
  cases call with
  | enqueue messageId body now =>
    simp only [QueueThread.begin] at h
    split at h
    · rename_i hnew
      obtain rfl := Option.some.inj h
      refine .opened ⟨messageId, body, none, now⟩ hidle rfl fun folder => ?_
      cases folder with
      | pending => exact hnew.1
      | processing => exact hnew.2.1
      | done => exact hnew.2.2
    · cases h
  | dequeue maxMessages =>
    obtain rfl := Option.some.inj h
    exact .looked _ (by rw [hidle]; rfl) (by simp) (by simp)
  | ack message =>
    simp only [QueueThread.begin] at h
    split at h
    · obtain rfl := Option.some.inj h
      exact .looked _ (by rw [hidle]) (by simp) (by simp)
    · obtain rfl := Option.some.inj h
      refine .looked _ ?_ ?_ ?_
      · rw [hidle]
        split <;> rfl
      · intro msg
        split <;> simp
      · intro name msg todo out
        split <;> simp

/-- A call that goes on moves its own thread. -/
theorem moves_of_resume {t : T} {r : QueueThread × QueueFiles × List QueueEvent}
    (h : (s.threads t).resume s.files = some r) :
    Moves s t ⟨r.2.1, Function.update s.threads t r.1, s.log ++ r.2.2⟩ := by
  rcases hl : s.threads t with _ | msg | ⟨_ | ⟨name, todo⟩, out⟩ | ⟨name, msg, todo, out⟩ | name
  · rw [hl] at h
    cases h
  · rw [hl] at h
    obtain rfl := Option.some.inj h
    exact .wrote msg hl
  · rw [hl] at h
    obtain rfl := Option.some.inj h
    exact .ended (.returned out) (by rw [hl]; rfl) (by simp)
  · have hended : ∀ e, Moves s t ⟨s.files, Function.update s.threads t .idle,
        s.log ++ [.raised e out]⟩ := fun e =>
      .ended (.raised e out) (by rw [hl]; rfl) (by simp)
    rw [hl] at h
    simp only [QueueThread.resume] at h
    split at h
    · obtain rfl := Option.some.inj h
      exact hended _
    · obtain rfl := Option.some.inj h
      exact hended _
    · rename_i doc hdoc
      split at h
      · rename_i msg hmsg
        obtain rfl := Option.some.inj h
        simp only [List.append_nil]
        refine .looked _ (by rw [hl]; rfl) (by simp) ?_
        rintro _ _ _ _ ⟨⟩
        exact ⟨doc, hdoc, hmsg⟩
      · obtain rfl := Option.some.inj h
        exact hended _
  · rw [hl] at h
    simp only [QueueThread.resume] at h
    split at h
    · rename_i files' hmove
      obtain rfl := Option.some.inj h
      simp only [List.append_nil]
      exact .took name msg todo out files' hl hmove
    · obtain rfl := Option.some.inj h
      exact .ended (.raised .fileNotFound out) (by rw [hl]; rfl) (by simp)
  · rw [hl] at h
    simp only [QueueThread.resume] at h
    split at h
    · rename_i files' hmove
      obtain rfl := Option.some.inj h
      simp only [List.append_nil]
      exact .acked name files' hl hmove
    · obtain rfl := Option.some.inj h
      exact .ended (.raised .fileNotFound []) (by rw [hl]; rfl) (by simp)

/-- A step is the move of one thread. -/
theorem moves_of_step {a : T × QueueStep} (h : Step s a s') : Moves s a.1 s' := by
  obtain ⟨t, act⟩ := a
  rw [Step, perform, Option.map_eq_some_iff] at h
  obtain ⟨r, hr, rfl⟩ := h
  cases act with
  | start call =>
    simp only [QueueThread.step] at hr
    split at hr
    · rename_i hidle
      obtain ⟨b, hb, rfl⟩ := Option.map_eq_some_iff.mp hr
      simp only [List.append_nil]
      exact moves_of_begin hidle hb
    · cases hr
  | next => exact moves_of_resume hr

/-! ## The invariant -/

/-- The ids of what is held. -/
def heldIds (s : QueueSystem T) (x : Option T) : List String :=
  (s.held x).map QueueMessage.messageId

/-- **The invariant of a queue.** -/
structure Sound (s : QueueSystem T) : Prop where
  /-- a file is in one folder -/
  alone : ∀ {name f f' x x'}, (s.files f).lookup name = some x →
    (s.files f').lookup name = some x' → f = f'
  /-- an enqueued message has its file -/
  stored : ∀ msg, .enqueued msg ∈ s.log →
    ∃ f, (s.files f).lookup msg.messageId = some (some msg.text)
  /-- and a file that is written is the one of an enqueued message -/
  written : ∀ {f name doc}, (s.files f).lookup name = some (some doc) →
    ∃ msg, .enqueued msg ∈ s.log ∧ msg.messageId = name ∧ doc = msg.text
  /-- who is about to write has opened the file -/
  writer : ∀ t msg, s.threads t = .writing msg →
    msg.receiptHandle = none ∧ (s.files .pending).lookup msg.messageId = some none
  /-- alone -/
  oneWriter : ∀ t t' msg msg', s.threads t = .writing msg → s.threads t' = .writing msg' →
    msg.messageId = msg'.messageId → t = t'
  /-- a file that was read is an enqueued message -/
  reader : ∀ t name msg todo out, s.threads t = .opened name msg todo out →
    ∃ m, .enqueued m ∈ s.log ∧ m.messageId = name ∧ msg = m.taken none
  /-- what is held was enqueued and has left `pending` -/
  moved : ∀ x, ∀ r ∈ s.held x, ∃ m, .enqueued m ∈ s.log ∧ r = m.taken (some m.messageId) ∧
    (s.files .pending).lookup m.messageId = none
  /-- held once -/
  once : HeldOnce s.heldIds
  /-- whatever has left `pending` is held -/
  answered : ∀ f name x, f ≠ .pending → (s.files f).lookup name = some x → ∃ y, name ∈ s.heldIds y

omit [DecidableEq T] in
/-- An empty queue is sound. -/
theorem sound_initial : Sound (initial : QueueSystem T) where
  alone h := by cases h
  stored _ h := by cases h
  written h := by cases h
  writer _ _ h := by cases h
  oneWriter _ _ _ _ h := by cases h
  reader _ _ _ _ _ h := by cases h
  moved x r h := by
    cases x <;> cases h
  once := by
    have hnil : (initial : QueueSystem T).heldIds = fun _ => [] := by
      funext x
      cases x <;> rfl
    rw [hnil]
    exact .empty
  answered _ _ _ _ h := by cases h

section Files

variable {files files' : QueueFiles} {f src dst : QueueFolder} {name : String} {x : QueueFile}

/-- A file that is written, seen in any folder. -/
theorem lookup_put (g : QueueFolder) (other : String) :
    (put files f name x g).lookup other =
      if g = f ∧ other = name then some x else (files g).lookup other := by
  rw [put]
  by_cases hg : g = f
  · subst hg
    rw [Function.update_self]
    by_cases hname : other = name
    · subst hname
      rw [AList.lookup_insert, if_pos ⟨rfl, rfl⟩]
    · rw [AList.lookup_insert_ne hname, if_neg fun h => hname h.2]
  · rw [Function.update_of_ne hg, if_neg fun h => hg h.1]

/-- **A move**: the file is at the new place and not at the old one, the others are where
they were. -/
theorem lookup_move (hne : src ≠ dst) (h : move files src dst name = some files') :
    ∃ x, (files src).lookup name = some x ∧ ∀ g other, (files' g).lookup other =
      if other = name then if g = dst then some x else if g = src then none
        else (files g).lookup name
      else (files g).lookup other := by
  obtain ⟨x, hx, rfl⟩ := Option.map_eq_some_iff.mp h
  refine ⟨x, hx, fun g other => ?_⟩
  rw [lookup_put]
  by_cases hname : other = name
  · subst hname
    rw [if_pos rfl]
    by_cases hg : g = dst
    · rw [if_pos ⟨hg, rfl⟩, if_pos hg]
    · rw [if_neg fun h => hg h.1, if_neg hg]
      by_cases hsrc : g = src
      · subst hsrc
        rw [Function.update_self, AList.lookup_erase, if_pos rfl]
      · rw [Function.update_of_ne hsrc, if_neg hsrc]
  · rw [if_neg fun h => hname h.2, if_neg hname]
    by_cases hsrc : g = src
    · subst hsrc
      rw [Function.update_self, AList.lookup_erase_ne hname]
    · rw [Function.update_of_ne hsrc]

end Files

section Step

variable {t : T} {files' : QueueFiles}

/-- Where a thread is after a step of one of them. -/
theorem of_update {u : T} {l l' : QueueThread} (h : Function.update s.threads t l u = l') :
    u = t ∧ l = l' ∨ u ≠ t ∧ s.threads u = l' := by
  by_cases hu : u = t
  · subst hu
    rw [Function.update_self] at h
    exact Or.inl ⟨rfl, h⟩
  · rw [Function.update_of_ne hu] at h
    exact Or.inr ⟨hu, h⟩

/-- What is held after a step of one thread. -/
theorem held_step (l : QueueThread) (log' : List QueueEvent) :
    held ⟨files', Function.update s.threads t l, log'⟩ =
      Function.update (Function.update s.held (some t) l.out) none
        (log'.flatMap QueueEvent.given) := by
  funext x
  rcases x with _ | u
  · rw [Function.update_self]
    rfl
  · rw [Function.update_of_ne (by simp)]
    by_cases hu : u = t
    · subst hu
      rw [Function.update_self]
      exact congrArg QueueThread.out (Function.update_self u l s.threads)
    · rw [Function.update_of_ne (by simpa using hu)]
      exact congrArg QueueThread.out (Function.update_of_ne hu l s.threads)

/-- A thread that takes and gives nothing changes no holder. -/
theorem held_quiet {l : QueueThread} (hout : l.out = (s.threads t).out) {log' : List QueueEvent}
    (hlog : log'.flatMap QueueEvent.given = s.log.flatMap QueueEvent.given) :
    held ⟨files', Function.update s.threads t l, log'⟩ = s.held := by
  rw [held_step, hout, hlog]
  have ht : (s.threads t).out = s.held (some t) := rfl
  have hlog : s.log.flatMap QueueEvent.given = s.held none := rfl
  rw [ht, hlog, Function.update_eq_self, Function.update_eq_self]

/-- A step after which the same is held, of files that have not moved. -/
theorem heldIds_quiet {l : QueueThread} (hout : l.out = (s.threads t).out)
    {log' : List QueueEvent}
    (hlog : log'.flatMap QueueEvent.given = s.log.flatMap QueueEvent.given) :
    heldIds ⟨files', Function.update s.threads t l, log'⟩ = s.heldIds := by
  funext x
  exact congrArg (List.map QueueMessage.messageId) (congrFun (held_quiet hout hlog) x)

/-- A step that only looks. -/
theorem Sound.looked (h : s.Sound) {l : QueueThread} (hout : l.out = (s.threads t).out)
    (hnot : ∀ msg, l ≠ .writing msg)
    (hread : ∀ name msg todo out, l = .opened name msg todo out → ∃ doc,
      (s.files .pending).lookup name = some (some doc) ∧ QueueMessage.ofText doc = .ok msg) :
    Sound ⟨s.files, Function.update s.threads t l, s.log⟩ where
  alone := h.alone
  stored := h.stored
  written := h.written
  writer u msg hu := by
    rcases of_update hu with ⟨-, hl⟩ | ⟨-, hu⟩
    · exact absurd hl (hnot msg)
    · exact h.writer u msg hu
  oneWriter u u' msg msg' hu hu' heq := by
    rcases of_update hu with ⟨-, hl⟩ | ⟨-, hu⟩
    · exact absurd hl (hnot msg)
    · rcases of_update hu' with ⟨-, hl⟩ | ⟨-, hu'⟩
      · exact absurd hl (hnot msg')
      · exact h.oneWriter u u' msg msg' hu hu' heq
  reader u name msg todo out hu := by
    rcases of_update hu with ⟨-, hl⟩ | ⟨-, hu⟩
    · obtain ⟨doc, hdoc, hmsg⟩ := hread name msg todo out hl
      obtain ⟨m, hm, hid, rfl⟩ := h.written hdoc
      rw [m.ofText_text] at hmsg
      exact ⟨m, hm, hid, (Except.ok.inj hmsg).symm⟩
    · exact h.reader u name msg todo out hu
  moved x r hr := by
    rw [held_quiet hout rfl] at hr
    exact h.moved x r hr
  once := by
    rw [heldIds_quiet hout rfl]
    exact h.once
  answered f name x hf hx := by
    rw [heldIds_quiet hout rfl]
    exact h.answered f name x hf hx

omit [DecidableEq T] in
/-- A drawn id is the name of a file. -/
theorem Sound.lookup_isSome (h : s.Sound) {msg : QueueMessage}
    (hmsg : .enqueued msg ∈ s.log ∨ s.threads t = .writing msg) :
    ∃ f, msg.messageId ∈ s.files f := by
  rcases hmsg with hlog | hwriting
  · obtain ⟨f, hf⟩ := h.stored msg hlog
    exact ⟨f, AList.lookup_isSome.mp (by rw [hf]; rfl)⟩
  · exact ⟨.pending, AList.lookup_isSome.mp (by rw [(h.writer t msg hwriting).2]; rfl)⟩

/-- A step that creates the file of a new message. -/
theorem Sound.opened (h : s.Sound) {msg : QueueMessage} (hidle : s.threads t = .idle)
    (hhandle : msg.receiptHandle = none) (hnew : ∀ folder, msg.messageId ∉ s.files folder) :
    Sound ⟨put s.files .pending msg.messageId none, Function.update s.threads t (.writing msg),
      s.log⟩ := by
  have hout : (QueueThread.writing msg).out = (s.threads t).out := by
    rw [hidle]
    rfl
  have hnone : ∀ f, (s.files f).lookup msg.messageId = none := fun f =>
    AList.lookup_eq_none.mpr (hnew f)
  -- the ids that were drawn before are not this one
  have hold : ∀ m, (.enqueued m ∈ s.log ∨ ∃ u, s.threads u = .writing m) →
      m.messageId ≠ msg.messageId := by
    intro m hm heq
    have hfile : ∃ f, m.messageId ∈ s.files f := by
      rcases hm with hm | ⟨u, hm⟩
      · exact h.lookup_isSome (t := t) (Or.inl hm)
      · exact h.lookup_isSome (Or.inr hm)
    obtain ⟨f, hf⟩ := hfile
    exact hnew f (heq ▸ hf)
  have hsame : ∀ {f name}, name ≠ msg.messageId →
      (put s.files .pending msg.messageId none f).lookup name = (s.files f).lookup name := by
    intro f name hname
    rw [lookup_put, if_neg fun hc => hname hc.2]
  refine ⟨?_, ?_, ?_, ?_, ?_, ?_, ?_, ?_, ?_⟩
  · intro name f f' x x' hx hx'
    by_cases hname : name = msg.messageId
    · subst hname
      rw [lookup_put] at hx hx'
      split at hx
      · rename_i hf
        split at hx'
        · rename_i hf'
          exact hf.1.trans hf'.1.symm
        · rw [hnone] at hx'
          cases hx'
      · rw [hnone] at hx
        cases hx
    · rw [hsame hname] at hx hx'
      exact h.alone hx hx'
  · intro m hm
    obtain ⟨f, hf⟩ := h.stored m hm
    exact ⟨f, by rw [hsame (hold m (Or.inl hm)), hf]⟩
  · intro f name doc hdoc
    rw [lookup_put] at hdoc
    split at hdoc
    · cases hdoc
    · exact h.written hdoc
  · intro u m hu
    rcases of_update hu with ⟨-, hm⟩ | ⟨-, hu⟩
    · obtain rfl := QueueThread.writing.inj hm
      exact ⟨hhandle, by rw [lookup_put, if_pos ⟨rfl, rfl⟩]⟩
    · obtain ⟨hhandle, hfile⟩ := h.writer u m hu
      exact ⟨hhandle, by rw [hsame (hold m (Or.inr ⟨u, hu⟩)), hfile]⟩
  · -- two writers of one id are both this thread, or both others
    intro u u' m m' hu hu' heq
    rcases of_update hu with ⟨rfl, hm⟩ | ⟨-, hu⟩
    · obtain rfl := QueueThread.writing.inj hm
      rcases of_update hu' with ⟨rfl, -⟩ | ⟨-, hu'⟩
      · rfl
      · exact absurd heq.symm (hold m' (Or.inr ⟨u', hu'⟩))
    · rcases of_update hu' with ⟨-, hm'⟩ | ⟨-, hu'⟩
      · obtain rfl := QueueThread.writing.inj hm'
        exact absurd heq (hold m (Or.inr ⟨u, hu⟩))
      · exact h.oneWriter u u' m m' hu hu' heq
  · intro u name msg' todo out hu
    rcases of_update hu with ⟨-, hl⟩ | ⟨-, hu⟩
    · cases hl
    · exact h.reader u name msg' todo out hu
  · intro x r hr
    rw [held_quiet hout rfl] at hr
    obtain ⟨m, hm, hr, hgone⟩ := h.moved x r hr
    exact ⟨m, hm, hr, by rw [hsame (hold m (Or.inl hm)), hgone]⟩
  · rw [heldIds_quiet hout rfl]
    exact h.once
  · intro f name x hf hx
    rw [heldIds_quiet hout rfl]
    rw [lookup_put, if_neg fun hc => hf hc.1] at hx
    exact h.answered f name x hf hx

omit [DecidableEq T] in
/-- The id that is being written is not the one of an enqueued message. -/
theorem Sound.writing_ne (h : s.Sound) {msg m : QueueMessage}
    (hwriting : s.threads t = .writing msg) (hm : .enqueued m ∈ s.log) :
    m.messageId ≠ msg.messageId := by
  intro heq
  obtain ⟨f, hf⟩ := h.stored m hm
  have htorn := (h.writer t msg hwriting).2
  rw [heq] at hf
  obtain rfl := h.alone hf htorn
  rw [htorn] at hf
  cases hf

/-- The step that fills the file. -/
theorem Sound.wrote (h : s.Sound) {msg : QueueMessage} (hwriting : s.threads t = .writing msg) :
    Sound ⟨put s.files .pending msg.messageId (some msg.text), Function.update s.threads t .idle,
      s.log ++ [.enqueued msg]⟩ := by
  have hout : QueueThread.idle.out = (s.threads t).out := by
    rw [hwriting]
    rfl
  have hlog : (s.log ++ [QueueEvent.enqueued msg]).flatMap QueueEvent.given =
      s.log.flatMap QueueEvent.given := by
    simp [QueueEvent.given]
  have htorn := (h.writer t msg hwriting).2
  have hsame : ∀ {f name}, name ≠ msg.messageId →
      (put s.files .pending msg.messageId (some msg.text) f).lookup name =
        (s.files f).lookup name := by
    intro f name hname
    rw [lookup_put, if_neg fun hc => hname hc.2]
  have hplace : ∀ {f name x}, (put s.files .pending msg.messageId (some msg.text) f).lookup name =
      some x → ∃ x', (s.files f).lookup name = some x' := by
    intro f name x hx
    rw [lookup_put] at hx
    split at hx
    · rename_i hc
      obtain ⟨rfl, rfl⟩ := hc
      exact ⟨none, htorn⟩
    · exact ⟨x, hx⟩
  refine ⟨?_, ?_, ?_, ?_, ?_, ?_, ?_, ?_, ?_⟩
  · intro name f f' x x' hx hx'
    obtain ⟨y, hy⟩ := hplace hx
    obtain ⟨y', hy'⟩ := hplace hx'
    exact h.alone hy hy'
  · intro m hm
    rcases List.mem_append.mp hm with hm | hm
    · obtain ⟨f, hf⟩ := h.stored m hm
      exact ⟨f, by rw [hsame (h.writing_ne hwriting hm), hf]⟩
    · obtain rfl := QueueEvent.enqueued.inj (List.mem_singleton.mp hm)
      exact ⟨.pending, by rw [lookup_put, if_pos ⟨rfl, rfl⟩]⟩
  · intro f name doc hdoc
    rw [lookup_put] at hdoc
    split at hdoc
    · rename_i hc
      exact ⟨msg, by simp, hc.2.symm, (Option.some.inj (Option.some.inj hdoc)).symm⟩
    · obtain ⟨m, hm, hid, hdoc⟩ := h.written hdoc
      exact ⟨m, List.mem_append_left _ hm, hid, hdoc⟩
  · intro u m hu
    obtain ⟨hne, hm⟩ := (of_update hu).resolve_left fun hl => by cases hl.2
    obtain ⟨hhandle, hfile⟩ := h.writer u m hm
    exact ⟨hhandle, by rw [hsame fun heq => hne (h.oneWriter u t m msg hm hwriting heq), hfile]⟩
  · intro u u' m m' hu hu' heq
    obtain ⟨-, hm⟩ := (of_update hu).resolve_left fun hl => by cases hl.2
    obtain ⟨-, hm'⟩ := (of_update hu').resolve_left fun hl => by cases hl.2
    exact h.oneWriter u u' m m' hm hm' heq
  · intro u name msg' todo out hu
    obtain ⟨-, hl⟩ := (of_update hu).resolve_left fun hl => by cases hl.2
    obtain ⟨m, hm, hid, hmsg⟩ := h.reader u name msg' todo out hl
    exact ⟨m, List.mem_append_left _ hm, hid, hmsg⟩
  · intro x r hr
    rw [held_quiet hout hlog] at hr
    obtain ⟨m, hm, hr, hgone⟩ := h.moved x r hr
    exact ⟨m, List.mem_append_left _ hm, hr, by rw [hsame (h.writing_ne hwriting hm), hgone]⟩
  · rw [heldIds_quiet hout hlog]
    exact h.once
  · intro f name x hf hx
    rw [heldIds_quiet hout hlog]
    rw [lookup_put, if_neg fun hc => hf hc.1] at hx
    exact h.answered f name x hf hx

/-- What an owner of messages answers for, by their ids. -/
theorem map_update (held : Option T → List QueueMessage) (x : Option T) (l : List QueueMessage) :
    (fun y => (Function.update held x l y).map QueueMessage.messageId) =
      Function.update (fun y => (held y).map QueueMessage.messageId) x
        (l.map QueueMessage.messageId) :=
  funext fun y => Function.apply_update (fun _ => List.map QueueMessage.messageId) held x l y

omit [DecidableEq T] in
/-- **A file that is moved on** is the one of an enqueued message, whoever moves it. -/
theorem Sound.moveOn (h : s.Sound) {src dst : QueueFolder} (hne : src ≠ dst) (hdst : dst ≠ .pending)
    {m : QueueMessage} (hm : .enqueued m ∈ s.log)
    (hmove : move s.files src dst m.messageId = some files') :
    (s.files src).lookup m.messageId = some (some m.text) ∧
      (∀ f other x, (files' f).lookup other = some x →
        ∃ f', (s.files f').lookup other = some x ∧ (other ≠ m.messageId → f' = f)) ∧
      (∀ f other x, (s.files f).lookup other = some x → ∃ f', (files' f').lookup other = some x) ∧
      (∀ other, (s.files .pending).lookup other = none → (files' .pending).lookup other = none) ∧
      (∀ other, other ≠ m.messageId → ∀ f, (files' f).lookup other = (s.files f).lookup other) ∧
      ∀ f x, (files' f).lookup m.messageId = some x → f = dst := by
  obtain ⟨x, hx, hafter⟩ := lookup_move hne hmove
  obtain ⟨f, hf⟩ := h.stored m hm
  obtain rfl := h.alone hx hf
  obtain rfl : x = some m.text := Option.some.inj (hx.symm.trans hf)
  have hplace : ∀ g y, (files' g).lookup m.messageId = some y → g = dst ∧ y = some m.text := by
    intro g y hy
    rw [hafter, if_pos rfl] at hy
    split at hy
    · rename_i hg
      exact ⟨hg, (Option.some.inj hy).symm⟩
    · split at hy
      · cases hy
      · rename_i hsrc
        exact absurd (h.alone hy hx) hsrc
  have hother : ∀ other, other ≠ m.messageId → ∀ g,
      (files' g).lookup other = (s.files g).lookup other := fun other hne g => by
    rw [hafter, if_neg hne]
  refine ⟨hx, fun g other y hy => ?_, fun g other y hy => ?_, fun other hnone => ?_, hother,
    fun g y hy => (hplace g y hy).1⟩
  · by_cases hname : other = m.messageId
    · subst hname
      obtain ⟨-, rfl⟩ := hplace g y hy
      exact ⟨_, hx, fun hne => absurd rfl hne⟩
    · exact ⟨g, by rw [← hother other hname, hy], fun _ => rfl⟩
  · by_cases hname : other = m.messageId
    · subst hname
      obtain rfl := h.alone hx hy
      obtain rfl : some m.text = y := Option.some.inj (hx.symm.trans hy)
      exact ⟨dst, by rw [hafter, if_pos rfl, if_pos rfl]⟩
    · exact ⟨g, by rw [hother other hname, hy]⟩
  · by_cases hname : other = m.messageId
    · subst hname
      rw [hafter, if_pos rfl, if_neg (Ne.symm hdst)]
      split
      · rfl
      · exact hnone
    · rw [hother other hname, hnone]

/-- What a step keeps that moves a file and leaves a thread that neither writes nor has read. -/
theorem Sound.keeps (h : s.Sound) {src dst : QueueFolder} (hne : src ≠ dst) (hdst : dst ≠ .pending)
    {m : QueueMessage} (hm : .enqueued m ∈ s.log)
    (hmove : move s.files src dst m.messageId = some files') {l : QueueThread}
    (hwriting : ∀ msg, l ≠ .writing msg)
    (hopened : ∀ name msg todo out, l ≠ .opened name msg todo out)
    (hmoved : ∀ x, ∀ r ∈ held ⟨files', Function.update s.threads t l, s.log⟩ x,
      ∃ m, .enqueued m ∈ s.log ∧ r = m.taken (some m.messageId) ∧
        (files' .pending).lookup m.messageId = none)
    (honce : HeldOnce (heldIds ⟨files', Function.update s.threads t l, s.log⟩))
    (hanswered : ∀ f name x, f ≠ .pending → (files' f).lookup name = some x →
      ∃ y, name ∈ heldIds ⟨files', Function.update s.threads t l, s.log⟩ y) :
    Sound ⟨files', Function.update s.threads t l, s.log⟩ := by
  obtain ⟨hx, hback, hforth, -, hother, hplace⟩ := h.moveOn hne hdst hm hmove
  have hwriter : ∀ u msg, Function.update s.threads t l u = .writing msg →
      s.threads u = .writing msg := fun u msg hu =>
    ((of_update hu).resolve_left fun hl => hwriting msg hl.2).2
  refine ⟨?_, ?_, ?_, ?_, ?_, ?_, hmoved, honce, hanswered⟩
  · intro name f f' x x' hx hx'
    by_cases hname : name = m.messageId
    · subst hname
      exact (hplace f x hx).trans (hplace f' x' hx').symm
    · rw [hother name hname] at hx hx'
      exact h.alone hx hx'
  · intro m' hm'
    obtain ⟨f, hf⟩ := h.stored m' hm'
    exact hforth f _ _ hf
  · intro f name doc hdoc
    obtain ⟨f', hf', -⟩ := hback f name _ hdoc
    exact h.written hf'
  · intro u msg hu
    obtain ⟨hhandle, hfile⟩ := h.writer u msg (hwriter u msg hu)
    have hname : msg.messageId ≠ m.messageId := (h.writing_ne (hwriter u msg hu) hm).symm
    exact ⟨hhandle, by rw [hother _ hname, hfile]⟩
  · exact fun u u' msg msg' hu hu' => h.oneWriter u u' msg msg' (hwriter u msg hu)
      (hwriter u' msg' hu')
  · intro u name msg todo out hu
    exact h.reader u name msg todo out
      ((of_update hu).resolve_left fun hl => hopened name msg todo out hl.2).2

/-- The step that moves a message to `processing`: it has one holder before and after. -/
theorem Sound.took (h : s.Sound) {name : String} {msg : QueueMessage} {todo : List String}
    {out : List QueueMessage} (hopened : s.threads t = .opened name msg todo out)
    (hmove : move s.files .pending .processing name = some files') :
    Sound ⟨files', Function.update s.threads t
      (.taking todo (out ++ [{ msg with receiptHandle := some name }])), s.log⟩ := by
  obtain ⟨m, hm, rfl, rfl⟩ := h.reader t name msg todo out hopened
  have hne : QueueFolder.pending ≠ .processing := by decide
  obtain ⟨hx, -, -, hgone, hother, hplace⟩ := h.moveOn hne (by decide) hm hmove
  have hheld : held ⟨files', Function.update s.threads t
      (.taking todo (out ++ [m.taken (some m.messageId)])), s.log⟩ =
      Function.update s.held (some t) (s.held (some t) ++ [m.taken (some m.messageId)]) := by
    have hout : s.held (some t) = out := congrArg QueueThread.out hopened
    have hlog : s.log.flatMap QueueEvent.given = s.held none := rfl
    rw [held_step, hout, hlog]
    funext x
    rcases x with _ | u
    · rw [Function.update_self, Function.update_of_ne (by simp)]
    · rw [Function.update_of_ne (by simp)]
      rfl
  have hids : heldIds ⟨files', Function.update s.threads t
      (.taking todo (out ++ [m.taken (some m.messageId)])), s.log⟩ =
      Function.update s.heldIds (some t) (s.heldIds (some t) ++ [m.messageId]) := by
    refine (congrArg (fun held x => List.map QueueMessage.messageId (held x)) hheld).trans ?_
    rw [map_update, List.map_append]
    rfl
  -- what is held has left `pending`, and this message has not
  have hfresh : ∀ y, m.messageId ∉ s.heldIds y := by
    intro y hy
    obtain ⟨r, hr, heq⟩ := List.mem_map.mp hy
    obtain ⟨m', -, rfl, hnone⟩ := h.moved y r hr
    have hid : m'.messageId = m.messageId := heq
    rw [hid, hx] at hnone
    cases hnone
  have htaken : ({ m.taken none with receiptHandle := some m.messageId } : QueueMessage) =
      m.taken (some m.messageId) := rfl
  rw [htaken]
  refine h.keeps hne (by decide) hm hmove (by simp) (by simp) ?_ ?_ ?_
  · intro x r hr
    rw [hheld] at hr
    have hself : (files' .pending).lookup m.messageId = none := by
      cases hlook : (files' .pending).lookup m.messageId with
      | none => rfl
      | some y => exact absurd (hplace .pending y hlook) hne
    have hold : ∀ y, ∀ r ∈ s.held y, ∃ m, .enqueued m ∈ s.log ∧ r = m.taken (some m.messageId) ∧
        (files' .pending).lookup m.messageId = none := by
      intro y r hr
      obtain ⟨m', hm', hr, hnone⟩ := h.moved y r hr
      exact ⟨m', hm', hr, hgone _ hnone⟩
    by_cases hx : x = some t
    · subst hx
      rw [Function.update_self] at hr
      rcases List.mem_append.mp hr with hr | hr
      · exact hold _ r hr
      · exact ⟨m, hm, List.mem_singleton.mp hr, hself⟩
    · rw [Function.update_of_ne hx] at hr
      exact hold x r hr
  · rw [hids]
    exact h.once.gain (some t) hfresh
  · intro f name x hf hx
    rw [hids]
    by_cases hname : name = m.messageId
    · subst hname
      exact ⟨some t, by simp⟩
    · rw [hother name hname] at hx
      obtain ⟨y, hy⟩ := h.answered f name x hf hx
      refine ⟨y, ?_⟩
      by_cases hyt : y = some t
      · subst hyt
        rw [Function.update_self]
        exact List.mem_append_left _ hy
      · rw [Function.update_of_ne hyt]
        exact hy

/-- The step that moves a message to `done`. -/
theorem Sound.acked (h : s.Sound) {name : String} (hacking : s.threads t = .acking name)
    (hmove : move s.files .processing .done name = some files') :
    Sound ⟨files', Function.update s.threads t .idle, s.log⟩ := by
  have hne : QueueFolder.processing ≠ .done := by decide
  have hout : QueueThread.idle.out = (s.threads t).out := by
    rw [hacking]
    rfl
  -- a file in `processing` is held, hence enqueued
  obtain ⟨x, hx, -⟩ := lookup_move hne hmove
  obtain ⟨y, hy⟩ := h.answered .processing name x (by decide) hx
  obtain ⟨r, hr, rfl⟩ := List.mem_map.mp hy
  obtain ⟨m, hm, rfl, -⟩ := h.moved y r hr
  have hid : (m.taken (some m.messageId)).messageId = m.messageId := rfl
  rw [hid] at hx hmove
  obtain ⟨-, hback, -, hgone, -, hplace⟩ := h.moveOn hne (by decide) hm hmove
  refine h.keeps hne (by decide) hm hmove (by simp) (by simp) ?_ ?_ ?_
  · intro x r hr
    rw [held_quiet hout rfl] at hr
    obtain ⟨m', hm', hr, hnone⟩ := h.moved x r hr
    exact ⟨m', hm', hr, hgone _ hnone⟩
  · rw [heldIds_quiet hout rfl]
    exact h.once
  · intro f other z hf hz
    rw [heldIds_quiet hout rfl]
    obtain ⟨f', hf', hsame⟩ := hback f other z hz
    by_cases hname : other = m.messageId
    · exact ⟨y, hname ▸ hy⟩
    · exact h.answered f' other z (hsame hname ▸ hf) hf'

/-- The step that returns what was taken. -/
theorem Sound.ended (h : s.Sound) {e : QueueEvent} (hgiven : e.given = (s.threads t).out)
    (hnot : ∀ msg, e ≠ .enqueued msg) :
    Sound ⟨s.files, Function.update s.threads t .idle, s.log ++ [e]⟩ := by
  have hheld : held ⟨s.files, Function.update s.threads t .idle, s.log ++ [e]⟩ =
      Function.update (Function.update s.held (some t) []) none
        (s.held none ++ s.held (some t)) := by
    rw [held_step, List.flatMap_append, List.flatMap_singleton, hgiven]
    rfl
  have hids : heldIds ⟨s.files, Function.update s.threads t .idle, s.log ++ [e]⟩ =
      Function.update (Function.update s.heldIds (some t) []) none
        (s.heldIds none ++ s.heldIds (some t)) := by
    refine (congrArg (fun held x => List.map QueueMessage.messageId (held x)) hheld).trans ?_
    rw [map_update, map_update, List.map_append]
    rfl
  have hlog : ∀ m, .enqueued m ∈ s.log ++ [e] → .enqueued m ∈ s.log := by
    intro m hm
    rcases List.mem_append.mp hm with hm | hm
    · exact hm
    · exact absurd (List.mem_singleton.mp hm).symm (hnot m)
  have hthread : ∀ u l, l ≠ QueueThread.idle → Function.update s.threads t .idle u = l →
      s.threads u = l := fun u l hl hu =>
    ((of_update hu).resolve_left fun hc => hl hc.2.symm).2
  refine ⟨h.alone, fun m hm => h.stored m (hlog m hm), ?_, ?_, ?_, ?_, ?_, ?_, ?_⟩
  · intro f name doc hdoc
    obtain ⟨m, hm, hid, hdoc⟩ := h.written hdoc
    exact ⟨m, List.mem_append_left _ hm, hid, hdoc⟩
  · exact fun u msg hu => h.writer u msg (hthread u _ (by simp) hu)
  · exact fun u u' msg msg' hu hu' => h.oneWriter u u' msg msg' (hthread u _ (by simp) hu)
      (hthread u' _ (by simp) hu')
  · intro u name msg todo out hu
    obtain ⟨m, hm, hid, hmsg⟩ := h.reader u name msg todo out (hthread u _ (by simp) hu)
    exact ⟨m, List.mem_append_left _ hm, hid, hmsg⟩
  · have hold : ∀ y, ∀ r ∈ s.held y, ∃ m, .enqueued m ∈ s.log ++ [e] ∧
        r = m.taken (some m.messageId) ∧ (s.files .pending).lookup m.messageId = none := by
      intro y r hr
      obtain ⟨m, hm, hr, hnone⟩ := h.moved y r hr
      exact ⟨m, List.mem_append_left _ hm, hr, hnone⟩
    intro x r hr
    rw [hheld] at hr
    rcases x with _ | u
    · rw [Function.update_self] at hr
      rcases List.mem_append.mp hr with hr | hr
      · exact hold _ r hr
      · exact hold _ r hr
    · rw [Function.update_of_ne (by simp)] at hr
      by_cases hu : u = t
      · subst hu
        rw [Function.update_self] at hr
        cases hr
      · rw [Function.update_of_ne (by simpa using hu)] at hr
        exact hold _ r hr
  · rw [hids]
    exact h.once.handOver (by simp)
  · intro f name x hf hx
    rw [hids]
    obtain ⟨y, hy⟩ := h.answered f name x hf hx
    by_cases hlocal : y = none ∨ y = some t
    · refine ⟨none, ?_⟩
      rw [Function.update_self]
      rcases hlocal with rfl | rfl
      · exact List.mem_append_left _ hy
      · exact List.mem_append_right _ hy
    · obtain ⟨hnone, hsome⟩ := not_or.mp hlocal
      exact ⟨y, by rwa [Function.update_of_ne hnone, Function.update_of_ne hsome]⟩

/-- **One step.** -/
theorem Sound.next (h : s.Sound) {a : T × QueueStep} (hstep : Step s a s') : s'.Sound := by
  cases moves_of_step hstep with
  | looked l hout hnot hread => exact h.looked hout hnot hread
  | opened msg hidle hhandle hnew => exact h.opened hidle hhandle hnew
  | wrote msg hwriting => exact h.wrote hwriting
  | took name msg todo out files' hopened hmove => exact h.took hopened hmove
  | ended e hgiven hnot => exact h.ended hgiven hnot
  | acked name files' hacking hmove => exact h.acked hacking hmove

end Step

/-! ## Runs -/

/-- **Every run is sound.** -/
theorem sound_of_trace {as : List (T × QueueStep)} (h : Trace Step s as s') (hs : s.Sound) :
    s'.Sound :=
  h.invariant (fun _ _ _ hinv hstep => hinv.next hstep) hs

omit [DecidableEq T] in
/-- What was given out by one call was given out by no other. -/
theorem given_apart (h : s.Sound) {e e' : QueueEvent} (he : e ∈ s.log) (he' : e' ∈ s.log)
    (hne : e ≠ e') : ∀ r ∈ e.given, ∀ r' ∈ e'.given, r.messageId ≠ r'.messageId := by
  have hnodup : (s.log.flatMap fun e => e.given.map QueueMessage.messageId).Nodup := by
    have hall := h.once.nodup none
    rwa [heldIds, held, List.map_flatMap] at hall
  have hsymm : Std.Symm (Function.onFun List.Disjoint fun e : QueueEvent =>
      e.given.map QueueMessage.messageId) := ⟨fun _ _ hd => List.disjoint_symm hd⟩
  intro r hr r' hr' heq
  refine (List.nodup_flatMap.mp hnodup).2.forall he he' hne (List.mem_map_of_mem hr) ?_
  rw [heq]
  exact List.mem_map_of_mem hr'

/-! ## A consumer alone -/

section Alone

variable {t : T}

/-- A thread that can go on makes a step. -/
theorem step_of_resume {l : QueueThread} (hl : s.threads t = l) {r}
    (h : l.resume s.files = some r) :
    Step s (t, .next) ⟨r.2.1, Function.update s.threads t r.1, s.log ++ r.2.2⟩ := by
  rw [Step, perform]
  simp only [hl, QueueThread.step, h, Option.map_some]

/-- An idle thread can begin to dequeue. -/
theorem step_dequeue (hidle : s.threads t = .idle) (maxMessages : ℤ) :
    Step s (t, .start (.dequeue maxMessages)) ⟨s.files,
      Function.update s.threads t (.taking (pendingNames s.files maxMessages) []), s.log⟩ := by
  rw [Step, perform]
  simp [hidle, QueueThread.step, QueueThread.begin]

/-- A written file is read. -/
theorem step_read {todo : List String} {out : List QueueMessage} {msg : QueueMessage}
    (hl : s.threads t = .taking (msg.messageId :: todo) out)
    (hfile : (s.files .pending).lookup msg.messageId = some (some msg.text)) :
    Step s (t, .next) ⟨s.files,
      Function.update s.threads t (.opened msg.messageId (msg.taken none) todo out), s.log⟩ := by
  have h := step_of_resume hl (r := (.opened msg.messageId (msg.taken none) todo out, s.files, []))
    (by simp only [QueueThread.resume, hfile, msg.ofText_text])
  rwa [List.append_nil] at h

/-- And moved. -/
theorem step_take {name : String} {msg : QueueMessage} {todo : List String}
    {out : List QueueMessage} (hl : s.threads t = .opened name msg todo out) {files' : QueueFiles}
    (hmove : move s.files .pending .processing name = some files') :
    Step s (t, .next) ⟨files', Function.update s.threads t
      (.taking todo (out ++ [{ msg with receiptHandle := some name }])), s.log⟩ := by
  have h := step_of_resume hl
    (r := (.taking todo (out ++ [{ msg with receiptHandle := some name }]), files', []))
    (by simp only [QueueThread.resume, hmove])
  rwa [List.append_nil] at h

/-- The file is written. -/
def isWritten (files : QueueFiles) (name : String) : Bool :=
  ((files .pending).lookup name).join.isSome

/-- The files after these were moved to `processing`. -/
def MovedAll (files files' : QueueFiles) (names : List String) : Prop :=
  ∀ f name, (files' f).lookup name =
    if name ∈ names then if f = .processing then (files .pending).lookup name else none
    else (files f).lookup name

/-- How the call ends after the files that it could read. -/
def ending (all : Bool) (out : List QueueMessage) : QueueEvent :=
  if all then .returned out else .raised .jsonDecode out

/-- What is taken depends on the elements only. -/
theorem takeWhile_congr {α : Type} {p q : α → Bool} {l : List α} (h : ∀ a ∈ l, p a = q a) :
    l.takeWhile p = l.takeWhile q := by
  induction l with
  | nil => rfl
  | cons a l ih =>
    rw [List.takeWhile_cons, List.takeWhile_cons, h a List.mem_cons_self,
      ih fun b hb => h b (List.mem_cons_of_mem a hb)]

/-- The loop of `dequeue` while nobody else moves. -/
theorem take_alone (todo : List String) : ∀ {s : QueueSystem T} {out : List QueueMessage}, s.Sound →
    s.threads t = .taking todo out → todo.Nodup →
    (∀ name ∈ todo, ∃ x, (s.files .pending).lookup name = some x) →
    let readable := todo.takeWhile (isWritten s.files)
    ∃ k s' new, Trace Step s (List.replicate k (t, .next)) s' ∧
      s'.threads = Function.update s.threads t .idle ∧
      s'.log = s.log ++ [ending (readable = todo) (out ++ new)] ∧
      new.map QueueMessage.messageId = readable ∧ MovedAll s.files s'.files readable := by
  induction todo with
  | nil =>
    intro s out _ hl _ _
    exact ⟨1, _, [], .single (step_of_resume hl (r := (.idle, s.files, [.returned out])) rfl), rfl,
      by simp [ending], rfl, fun f name => by simp⟩
  | cons name todo ih =>
    intro s out hs hl hnd hpending
    obtain ⟨hname, hndrest⟩ := List.nodup_cons.mp hnd
    obtain ⟨x, hx⟩ := hpending name List.mem_cons_self
    rcases x with _ | doc
    · -- a half-written file ends the call
      have hnot : isWritten s.files name = false := by simp [isWritten, hx]
      rw [List.takeWhile_cons_of_neg (by simp [hnot])]
      exact ⟨1, _, [], .single (step_of_resume hl (r := (.idle, s.files, [.raised .jsonDecode out]))
        (by simp only [QueueThread.resume, hx])), rfl, by simp [ending], rfl, fun f name => by simp⟩
    · have hwritten : isWritten s.files name = true := by simp [isWritten, hx]
      obtain ⟨msg, hmsg, rfl, rfl⟩ := hs.written hx
      have hread := step_read hl hx
      obtain ⟨files', hmove⟩ : ∃ files', move s.files .pending .processing msg.messageId =
          some files' := by
        rw [move, hx]
        exact ⟨_, rfl⟩
      have htake := step_take (s := ⟨s.files, Function.update s.threads t
        (.opened msg.messageId (msg.taken none) todo out), s.log⟩)
        (Function.update_self t _ s.threads) hmove
      obtain ⟨y, hy, hafter⟩ := lookup_move (by decide) hmove
      have hother : ∀ other ∈ todo, ∀ f, (files' f).lookup other = (s.files f).lookup other := by
        intro other hmem f
        rw [hafter, if_neg]
        rintro rfl
        exact hname hmem
      have hsame : todo.takeWhile (isWritten files') = todo.takeWhile (isWritten s.files) :=
        takeWhile_congr fun other hmem => by rw [isWritten, isWritten, hother other hmem]
      obtain ⟨k, s', new, htrace, hthreads, hlog, hnew, hmoved⟩ :=
        ih ((hs.next hread).next htake) (Function.update_self _ _ _) hndrest fun other hmem => by
          obtain ⟨z, hz⟩ := hpending other (List.mem_cons_of_mem _ hmem)
          exact ⟨z, by rw [hother other hmem, hz]⟩
      simp only at hthreads hlog hnew hmoved
      rw [hsame] at hlog hnew hmoved
      rw [List.takeWhile_cons_of_pos hwritten]
      refine ⟨k + 2, s', msg.taken (some msg.messageId) :: new, .cons hread (.cons htake htrace),
        ?_, ?_, ?_, ?_⟩
      · rw [hthreads, Function.update_idem, Function.update_idem]
      · rw [hlog]
        simp [QueueMessage.taken]
      · rw [List.map_cons, hnew]
        rfl
      · intro f name
        rw [hmoved]
        by_cases hself : name = msg.messageId
        · subst hself
          have hnot : msg.messageId ∉ todo.takeWhile (isWritten s.files) := fun hmem =>
            hname (List.takeWhile_subset _ hmem)
          rw [if_neg hnot, if_pos List.mem_cons_self, hafter, if_pos rfl, hy]
          cases f with
          | done =>
            cases hdone : (s.files .done).lookup msg.messageId with
            | none => rfl
            | some z => exact absurd (hs.alone hdone hy) (by decide)
          | _ => rfl
        · have hkeep : ∀ g, (files' g).lookup name = (s.files g).lookup name := fun g => by
            rw [hafter, if_neg hself]
          simp only [hkeep, List.mem_cons, hself, false_or]

/-! ### And not alone -/

/-- The order of `sorted` is that of the file names. -/
theorem nameLe_iff {a b : String} : nameLe a b = true ↔ a ++ ".json" ≤ b ++ ".json" :=
  decide_eq_true_iff

/-- Without the least name, the others are listed as before. -/
theorem mergeSort_erase {names : List String} {name : String} {rest : List String}
    (h : names.mergeSort nameLe = name :: rest) : (names.erase name).mergeSort nameLe = rest := by
  have htrans : ∀ a b c, nameLe a b = true → nameLe b c = true → nameLe a c = true := by
    intro a b c hab hbc
    exact nameLe_iff.mpr (le_trans (nameLe_iff.mp hab) (nameLe_iff.mp hbc))
  have htotal : ∀ a b, (nameLe a b || nameLe b a) = true := by
    intro a b
    rw [Bool.or_eq_true, nameLe_iff, nameLe_iff]
    exact le_total _ _
  have hsorted := List.pairwise_mergeSort htrans htotal names
  rw [h] at hsorted
  have hperm : ((names.erase name).mergeSort nameLe).Perm rest := by
    refine (List.mergeSort_perm _ _).trans ?_
    have hall := (List.mergeSort_perm names nameLe).erase name
    rw [h, List.erase_cons_head] at hall
    exact hall.symm
  refine hperm.eq_of_pairwise (fun a b _ _ hab hba => ?_)
    (List.pairwise_mergeSort htrans htotal _) hsorted.of_cons
  exact (String.append_left_inj ".json").mp (le_antisymm (nameLe_iff.mp hab) (nameLe_iff.mp hba))

/-- A file that is read and moved on, by two steps. -/
theorem trace_take (hs : s.Sound) {name : String} {todo : List String} {out : List QueueMessage}
    (hl : s.threads t = .taking (name :: todo) out) (hwritten : isWritten s.files name = true) :
    ∃ files' r, move s.files .pending .processing name = some files' ∧ r.messageId = name ∧
      Trace Step s [(t, .next), (t, .next)]
        ⟨files', Function.update s.threads t (.taking todo (out ++ [r])), s.log⟩ := by
  obtain ⟨doc, hdoc⟩ : ∃ doc, (s.files .pending).lookup name = some (some doc) := by
    obtain ⟨doc, hdoc⟩ := Option.isSome_iff_exists.mp hwritten
    exact ⟨doc, Option.join_eq_some_iff.mp hdoc⟩
  obtain ⟨msg, -, rfl, rfl⟩ := hs.written hdoc
  obtain ⟨files', hmove⟩ : ∃ files', move s.files .pending .processing msg.messageId =
      some files' := by
    rw [move, hdoc]
    exact ⟨_, rfl⟩
  have htake := step_take (s := ⟨s.files, Function.update s.threads t
    (.opened msg.messageId (msg.taken none) todo out), s.log⟩)
    (Function.update_self t _ s.threads) hmove
  refine ⟨files', msg.taken (some msg.messageId), hmove, rfl, .cons (step_read hl hdoc) ?_⟩
  rw [Function.update_idem] at htake
  exact .single htake

/-- **Two consumers can lose a message**: one takes the first of two, the other the second, and
the call of the first raises. -/
theorem competing (hs : s.Sound) {u : T} (htu : t ≠ u) (ht : s.threads t = .idle)
    (hu : s.threads u = .idle) {a b : String} (hnames : pendingNames s.files 2 = [a, b])
    (ha : isWritten s.files a = true) (hb : isWritten s.files b = true) :
    ∃ as s' dropped, Trace Step s as s' ∧ .raised .fileNotFound dropped ∈ s'.log ∧
      dropped.map QueueMessage.messageId = [a] := by
  obtain ⟨rest, hrest⟩ : ∃ rest, (s.files .pending).keys.mergeSort nameLe = a :: b :: rest := by
    obtain ⟨rest, hrest⟩ : [a, b] <+: (s.files .pending).keys.mergeSort nameLe := by
      rw [← hnames]
      exact List.take_prefix _ _
    exact ⟨rest, hrest.symm⟩
  have hne : a ≠ b := by
    have hnd := (List.mergeSort_perm (s.files .pending).keys nameLe).nodup_iff.mpr
      (s.files .pending).nodupKeys
    rw [hrest] at hnd
    rintro rfl
    simp at hnd
  -- the first consumer takes `a`
  have hstart := step_dequeue ht 2
  rw [hnames] at hstart
  have hs₁ := hs.next hstart
  obtain ⟨files₁, r, hmove, hr, htrace₁⟩ := trace_take hs₁ (Function.update_self t _ s.threads) ha
  have hs₂ := sound_of_trace htrace₁ hs₁
  rw [Function.update_idem, List.nil_append] at htrace₁ hs₂
  obtain ⟨x, -, hafter⟩ := lookup_move (by decide) hmove
  have hb₁ : isWritten files₁ b = true := by
    rw [isWritten, hafter, if_neg (Ne.symm hne)]
    exact hb
  -- the second lists what is left, and takes `b`
  have hu₂ : Function.update s.threads t (.taking [b] [r]) u = .idle := by
    rw [Function.update_of_ne (Ne.symm htu), hu]
  have hnames₂ : pendingNames files₁ 1 = [b] := by
    have herased : files₁ .pending = (s.files .pending).erase a := by
      obtain ⟨-, -, rfl⟩ := Option.map_eq_some_iff.mp hmove
      rw [put, Function.update_of_ne (by decide), Function.update_self]
    rw [pendingNames, herased, AList.keys_erase, mergeSort_erase hrest]
    rfl
  have hstart₂ := step_dequeue (s := ⟨files₁, Function.update s.threads t (.taking [b] [r]), s.log⟩)
    hu₂ 1
  rw [hnames₂] at hstart₂
  have hs₃ := hs₂.next hstart₂
  obtain ⟨files₂, r₂, hmove₂, -, htrace₂⟩ := trace_take hs₃ (Function.update_self u _ _) hb₁
  obtain ⟨y, -, hafter₂⟩ := lookup_move (by decide) hmove₂
  -- the first finds `b` gone
  have hgone : (files₂ .pending).lookup b = none := by
    rw [hafter₂, if_pos rfl]
    rfl
  have hl : Function.update (Function.update (Function.update s.threads t (.taking [b] [r])) u
      (.taking [b] [])) u (.taking [] ([] ++ [r₂])) t = .taking [b] [r] := by
    rw [Function.update_of_ne htu, Function.update_of_ne htu, Function.update_self]
  exact ⟨_, _, [r], .cons hstart (htrace₁.append (.cons hstart₂ (htrace₂.append (.single
    (step_of_resume hl (r := (.idle, files₂, [.raised .fileNotFound [r]]))
      (by simp only [QueueThread.resume, hgone])))))), by simp, by rw [List.map_singleton, hr]⟩

end Alone

/-! ## What is promised -/

/-- **The file queue delivers at most once and forgets nothing.** Producers and consumers, threads
of any number of processes, enqueue, take and acknowledge in any interleaving of their file
operations; a crash is a thread that stops. In every state an enqueued message is in one file of
one folder, as it was enqueued. If it has left `pending`, one call answers for it and no other,
once: a thread that has not returned yet, or one in the log. What was returned to a consumer, or
is about to be, is a message that was enqueued. What a raising call had moved is returned to
nobody. -/
theorem delivers_at_most_once {as : List (T × QueueStep)}
    (h : Trace Step (initial : QueueSystem T) as s) :
    (∀ msg, .enqueued msg ∈ s.log → ∃ f, (s.files f).lookup msg.messageId = some (some msg.text) ∧
      ∀ f', f' ≠ f → (s.files f').lookup msg.messageId = none) ∧
    (∀ msg, .enqueued msg ∈ s.log → (s.files .pending).lookup msg.messageId = none →
      ∃ x, msg.messageId ∈ s.heldIds x) ∧
    HeldOnce s.heldIds ∧
    (∀ x, ∀ r ∈ s.held x, ∃ msg, .enqueued msg ∈ s.log ∧ r = msg.taken (some msg.messageId) ∧
      (s.files .pending).lookup msg.messageId = none) ∧
    ∀ e dropped, .raised e dropped ∈ s.log → ∀ r ∈ dropped,
      ∀ out, .returned out ∈ s.log → ∀ r' ∈ out, r'.messageId ≠ r.messageId := by
  have hs := sound_of_trace h sound_initial
  refine ⟨fun msg hmsg => ?_, fun msg hmsg hgone => ?_, hs.once, hs.moved, ?_⟩
  · obtain ⟨f, hf⟩ := hs.stored msg hmsg
    refine ⟨f, hf, fun f' hne => ?_⟩
    cases hlook : (s.files f').lookup msg.messageId with
    | none => rfl
    | some x => exact absurd (hs.alone hlook hf) hne
  · obtain ⟨f, hf⟩ := hs.stored msg hmsg
    refine hs.answered f _ _ ?_ hf
    rintro rfl
    rw [hgone] at hf
    cases hf
  · intro e dropped hdropped r hr out hout r' hr'
    exact given_apart hs hout hdropped (by simp) r' hr' r hr

/-- The messages `b` and `a` are enqueued, by one producer. -/
def twoEnqueued : List (ℕ × QueueStep) :=
  [(0, .start (.enqueue "b" [] 0)), (0, .next), (0, .start (.enqueue "a" [] 0)), (0, .next)]

theorem twoEnqueued_pending : ∃ s : QueueSystem ℕ, Trace Step initial twoEnqueued s ∧
    (∀ t, s.threads t = .idle) ∧ pendingNames s.files 2 = ["a", "b"] ∧
    isWritten s.files "a" = true ∧ isWritten s.files "b" = true := by
  obtain ⟨s, hs⟩ : ∃ s, twoEnqueued.foldlM perform (initial : QueueSystem ℕ) = some s := ⟨_, rfl⟩
  refine ⟨s, Trace.of_foldlM hs, ?_⟩
  obtain rfl := Option.some.inj (hs.symm.trans (show _ = some _ from rfl))
  refine ⟨?_, ?_, rfl, rfl⟩
  · intro t
    rcases t with _ | t <;> rfl
  · have hsorted : (["a", "b"].mergeSort nameLe) = ["a", "b"] :=
      List.mergeSort_of_pairwise (by decide +kernel)
    exact congrArg (Outbox.upTo 2) hsorted

/-- The first consumer loses `a`. -/
theorem delivers_at_most_once_competing : ∃ (s : QueueSystem ℕ) (dropped : List QueueMessage),
    .raised .fileNotFound dropped ∈ s.log ∧ dropped.map QueueMessage.messageId = ["a"] ∧
      HeldOnce s.heldIds ∧ ∀ r ∈ dropped, ∀ out, .returned out ∈ s.log →
        ∀ r' ∈ out, r'.messageId ≠ r.messageId := by
  obtain ⟨s₀, htrace, hidle, hnames, ha, hb⟩ := twoEnqueued_pending
  obtain ⟨as, s, dropped, hrun, hlost, hids⟩ := competing (sound_of_trace htrace sound_initial)
    (by decide : (1 : ℕ) ≠ 2) (hidle 1) (hidle 2) hnames ha hb
  have hfacts := delivers_at_most_once (htrace.append hrun)
  exact ⟨s, dropped, hlost, hids, hfacts.2.2.1, hfacts.2.2.2.2 _ _ hlost⟩

/-- **A consumer alone, and not alone.** From every state that a run reaches, a `dequeue` that
nobody interleaves takes the first of the pending files in the order of their names, up to the
first that is half written: it returns their messages, or raises there and drops them; the rest
of the queue is as it was. With a second consumer in between it can raise in another way, and
lose the first message for good. -/
theorem dequeue_alone_and_not {as : List (T × QueueStep)}
    (h : Trace Step (initial : QueueSystem T) as s) {t : T} (hidle : s.threads t = .idle) :
    (∀ maxMessages, let window := pendingNames s.files maxMessages
      let readable := window.takeWhile (isWritten s.files)
      ∃ k s' out,
        Trace Step s ((t, .start (.dequeue maxMessages)) :: List.replicate k (t, .next)) s' ∧
        s'.threads = s.threads ∧ s'.log = s.log ++ [ending (readable = window) out] ∧
        out.map QueueMessage.messageId = readable ∧ MovedAll s.files s'.files readable) ∧
    ∀ u, t ≠ u → s.threads u = .idle → ∀ a b, pendingNames s.files 2 = [a, b] →
      isWritten s.files a = true → isWritten s.files b = true →
      ∃ as' s' dropped, Trace Step s as' s' ∧ .raised .fileNotFound dropped ∈ s'.log ∧
        dropped.map QueueMessage.messageId = [a] := by
  have hs := sound_of_trace h sound_initial
  refine ⟨fun maxMessages => ?_, fun u htu hu a b hnames ha hb =>
    competing hs htu hidle hu hnames ha hb⟩
  have hstart := step_dequeue hidle maxMessages
  have hnd : (pendingNames s.files maxMessages).Nodup :=
    (Outbox.upTo_sublist _ _).nodup ((List.mergeSort_perm _ _).nodup_iff.mpr
      (s.files .pending).nodupKeys)
  have hpending : ∀ name ∈ pendingNames s.files maxMessages,
      ∃ x, (s.files .pending).lookup name = some x := by
    intro name hname
    have hkey := (List.mergeSort_perm _ _).mem_iff.mp ((Outbox.upTo_sublist _ _).subset hname)
    exact Option.isSome_iff_exists.mp (AList.lookup_isSome.mpr hkey)
  obtain ⟨k, s', out, htrace, hthreads, hlog, hout, hmoved⟩ :=
    take_alone _ (hs.next hstart) (Function.update_self t _ s.threads) hnd hpending
  refine ⟨k, s', out, .cons hstart htrace, ?_, hlog, hout, hmoved⟩
  rw [hthreads, Function.update_idem, ← hidle, Function.update_eq_self]

/-- Alone, a consumer of two gets `a` and `b`. -/
theorem dequeue_alone_and_not_twoEnqueued :
    ∃ (s s' : QueueSystem ℕ) (k : ℕ) (out : List QueueMessage),
    Trace Step s ((1, .start (.dequeue 2)) :: List.replicate k (1, .next)) s' ∧
      .returned out ∈ s'.log ∧ out.map QueueMessage.messageId = ["a", "b"] := by
  obtain ⟨s, htrace, hidle, hnames, ha, hb⟩ := twoEnqueued_pending
  obtain ⟨k, s', out, hrun, -, hlog, hout, -⟩ := (dequeue_alone_and_not htrace (hidle 1)).1 2
  have hall : ["a", "b"].takeWhile (isWritten s.files) = ["a", "b"] := by
    rw [List.takeWhile_cons_of_pos ha, List.takeWhile_cons_of_pos hb, List.takeWhile_nil]
  rw [hnames, hall] at hout hlog
  refine ⟨s, s', k, out, hrun, ?_, hout⟩
  rw [hlog]
  simp [ending]

end QueueSystem

end FileQueue

end Unlearning
