import Unlearning.DeleteOnce
import Unlearning.Fanout
import Unlearning.JsonRoundTrip

/-!
# Fan-out over HTTP (`HttpReplicaTransport`, `/v1/internal/replica/delete`)

Here a replica is another process. The transport posts the intent as JSON to the URL of the
replica, whose handler reads it and runs `ErasureService.delete`. There is no `_seen`: what
makes a second delivery harmless is the registry of the replica, which has lost the ids.

A request or its reply may be lost, the client may give up while the replica still works on
the request or before it has begun, and what `send` does not catch leaves `publish`. A replica
handles one request after another (the handler does not await anything), and may be changed by
anything else between two of them.

* `fromJson_toJson`: the replica reads the intent that was posted;
* `Sound`: a reply is the answer of one execution, an acknowledgement of success was a reply.
-/

namespace Unlearning

namespace HttpFanout

open PyText Doc JsonText Fanout

/-! ## Intents as JSON -/

/-- What Python makes of a value that came as JSON. -/
structure Builtins (F : Type) where
  /-- `str(value)` -/
  str : Doc F → String
  /-- `int(value)` -/
  int : Doc F → Except ReadError ℤ
  /-- `bool(value)` -/
  bool : Doc F → Bool
  str_str : ∀ s, str (.str s) = s
  int_int : ∀ n, int (.int n) = .ok n
  bool_bool : ∀ b, bool (.bool b) = b

section Json

variable {F : Type} (floats : FloatText F) (python : Builtins F)

/-- The members of the JSON body of an intent. -/
def intentItems (intent : DeleteIntent) : List (String × Doc F) :=
  [("request_id", .str intent.requestId), ("collection", .str intent.collection),
    ("external_ids", .list (intent.externalIds.map .str)),
    ("reason", optionDoc .str intent.reason), ("max_m", .int intent.maxM),
    ("timestamp_unix_ns", .int intent.timestampUnixNs)]

/-- `to_json` -/
def toJson (intent : DeleteIntent) : List Char := text floats (.object (intentItems intent))

/-- `list(value)` -/
def asList : Doc F → Except ReadError (List (Doc F))
  | .list ds => .ok ds
  | .str s => .ok (s.toList.map fun c => .str (String.singleton c))
  | .object ms => .ok (ms.map fun m => .str m.1)
  | _ => .error .illTyped

/-- `data.get("reason")`; a reason that is neither text nor null is kept by its text. -/
def asReason (ms : List (String × Doc F)) : Option String :=
  match get ms "reason" with
  | none => none
  | some .null => none
  | some d => some (python.str d)

/-- `from_json`; the time is `time.time_ns()`. -/
def fromJson (timeNs : ℤ) (raw : List Char) : Except ReadError DeleteIntent :=
  match loads floats raw with
  | none => .error .illTyped
  | some data => do
    let ms ← members data
    let requestId ← require ms "request_id"
    let collection ← require ms "collection"
    let externalIds ← require ms "external_ids" >>= asList
    let maxM ← getD ms "max_m" python.int 16
    let timestamp ← getD ms "timestamp_unix_ns" python.int timeNs
    return ⟨python.str requestId, python.str collection, externalIds.map python.str,
      asReason python ms, maxM, timestamp⟩

theorem distinctKeys_intent (intent : DeleteIntent) :
    (Doc.object (intentItems intent) : Doc F).DistinctKeys := by
  have hreason : (optionDoc Doc.str intent.reason : Doc F).DistinctKeys := by
    rcases intent.reason with _ | reason
    · trivial
    · trivial
  refine ⟨by simp [intentItems], ?_⟩
  rw [membersDistinct_iff]
  intro m hm
  simp only [intentItems, List.mem_cons, List.not_mem_nil, or_false] at hm
  rcases hm with rfl | rfl | rfl | rfl | rfl | rfl
  · trivial
  · trivial
  · exact allDistinct_iff.mpr (List.forall_mem_map.mpr fun _ _ => trivial)
  · exact hreason
  · trivial
  · trivial

/-- **The round trip of an intent.** -/
theorem fromJson_toJson (timeNs : ℤ) (intent : DeleteIntent) :
    fromJson floats python timeNs (toJson floats intent) = .ok intent := by
  have hnd : ((intentItems intent : List (String × Doc F)).map Prod.fst).Nodup := by
    simp [intentItems]
  have hget : ∀ key (d : Doc F), (key, d) ∈ intentItems intent →
      get (intentItems intent) key = some d := fun _ _ h => get_of_mem hnd h
  have hid := hget "request_id" (.str intent.requestId) (by simp [intentItems])
  have hcoll := hget "collection" (.str intent.collection) (by simp [intentItems])
  have hids := hget "external_ids" (.list (intent.externalIds.map .str)) (by simp [intentItems])
  have hmax := hget "max_m" (.int intent.maxM) (by simp [intentItems])
  have htime := hget "timestamp_unix_ns" (.int intent.timestampUnixNs) (by simp [intentItems])
  have hreason : asReason python (intentItems intent) = intent.reason := by
    rw [asReason, hget "reason" (optionDoc .str intent.reason) (by simp [intentItems])]
    rcases intent.reason with _ | reason
    · rfl
    · exact congrArg some (python.str_str reason)
  have hback : (intent.externalIds.map (Doc.str (A := F))).map python.str = intent.externalIds := by
    rw [List.map_map]
    exact (List.map_congr_left fun s _ => python.str_str s).trans (List.map_id _)
  rw [fromJson, toJson, loads_text (distinctKeys_intent intent)]
  simp only [members, require, hid, hcoll, hids, getD, hmax, htime, asList, python.int_int,
    python.str_str, hreason, hback, bind, Except.bind]
  rfl

end Json

/-! ## The replica -/

/-- The call of `delete` that an intent asks for. -/
def callOf (intent : DeleteIntent) : DeleteCall where
  collection := intent.collection
  ids := intent.externalIds
  reason := intent.reason
  requestId := some intent.requestId
  maxM := intent.maxM
  idempotent := true
  compact := none
  residualProof := none
  checkpointPath := none

/-- The replicas, and what leads to them. -/
structure Cluster (U σ D F : Type) where
  service : U → Service σ D
  /-- `default_index().is_loaded` -/
  loaded : U → σ → Bool
  /-- whose handler answers a POST to this URL -/
  reach : String → Option U
  floats : FloatText F
  python : Builtins F
  /-- the reason phrase of a status code -/
  phrase : ℕ → String

section Replica

variable {U σ D F : Type} [PyFloat D]

/-- The intent in a request body: a body that is no object is refused by FastAPI, one that
`from_json` does not read by the handler. -/
def readIntent (cluster : Cluster U σ D F) (timeNs : ℤ) (body : List Char) :
    Except ℕ DeleteIntent :=
  match loads cluster.floats body with
  | some (.object ms) =>
    match fromJson cluster.floats cluster.python timeNs (text cluster.floats (.object ms)) with
    | .ok intent => .ok intent
    | .error _ => .error 400
  | _ => .error 422

/-- What `replica_delete_intent` runs, or the status code that it answers. -/
def replicaDeleteIntent (cluster : Cluster U σ D F) (peer : U) (amb : Ambient σ D)
    (body : List Char) (st : ServiceState σ D) : Except ℕ (DeleteIntent × Service.Deletion σ D) :=
  match readIntent cluster amb.timeNs body with
  | .error code => .error code
  | .ok intent =>
    if cluster.loaded peer st.outside then
      .ok (intent, (cluster.service peer).delete amb (callOf intent) st)
    else .error 409

/-- The dictionary that `replica_delete_intent` returns. -/
def answer (amb : Ambient σ D) (intent : DeleteIntent) (d : Service.Deletion σ D) : Doc F :=
  match d.result with
  | .ok receipt =>
    .object [("success", .bool receipt.success),
      ("message", .str (if receipt.errors = [] then "ok" else "; ".intercalate receipt.errors)),
      ("request_id", .str intent.requestId), ("bytes_wiped_total", .int receipt.bytesWipedTotal),
      ("status", .str receipt.status.text)]
  | .error e =>
    .object [("success", .bool false), ("message", .str (e.text amb.printable)),
      ("request_id", .str intent.requestId)]

/-! ## The coordinator -/

/-- A POST; its reply is a document, or the status code of an error. -/
structure Connection (F : Type) where
  /-- the publish and the thread that sent it -/
  owner : ℕ × ℕ
  url : String
  body : List Char
  reply : Option (Except ℕ (Doc F))

/-- Where a thread is in `send`. -/
inductive Phase : Type where
  /-- not started -/
  | sent
  /-- in `urlopen` -/
  | waiting
  | acked (ack : ReplicaAck)
  /-- `send` raised -/
  | raised (text : String)
  deriving DecidableEq

/-- The thread of one replica id, and the number of the POST that it sent. -/
structure Task where
  connection : Option ℕ
  phase : Phase
  deriving DecidableEq

/-- A `publish` that was called; its `workers` are the `endpoints` of the transport. -/
structure HttpPublish where
  coordinator : Coordinator String
  path : String
  intent : DeleteIntent

/-- The URL of a replica id, if it has an endpoint: `base.rstrip("/") + self.path`. -/
def HttpPublish.url (p : HttpPublish) (replicaId : String) : Option String :=
  match p.coordinator.workers.lookup replicaId with
  | none => none
  | some base =>
    if base = "" then none
    else some (String.ofList (base.toList.rdropWhile fun c => c = '/') ++ p.path)

/-- An acknowledgement in the name of a replica. -/
def HttpPublish.ack (p : HttpPublish) (replicaId : String) (success : Bool) (message : String) :
    ReplicaAck :=
  ⟨replicaId, p.intent.requestId, success, message⟩

/-- What `send` makes of a reply. -/
def HttpPublish.read (cluster : Cluster U σ D F) (p : HttpPublish) (replicaId : String) :
    Except ℕ (Doc F) → Phase
  | .error code => .acked (p.ack replicaId false
      ("HTTP Error " ++ toString code ++ ": " ++ cluster.phrase code))
  | .ok body =>
    match members body with
    | .error _ => .raised "AttributeError"
    | .ok ms => .acked (p.ack replicaId (cluster.python.bool ((get ms "success").getD .null))
        (cluster.python.str ((get ms "message").getD (.str ""))))

/-- What happens next to a thread. -/
inductive Turn : Type where
  | send
  /-- the reply comes -/
  | receive
  /-- a `URLError`, `TimeoutError` or `ValueError` -/
  | fail (text : String)
  /-- another exception -/
  | raise (text : String)

/-- One step of a thread, and the POST that it sends. -/
def HttpPublish.step (cluster : Cluster U σ D F) (p : HttpPublish)
    (connections : List (Connection F)) (owner : ℕ × ℕ) (replicaId : String) (task : Task) :
    Turn → Option (Task × Option (Connection F))
  | .send =>
    if task.phase = .sent then
      match p.url replicaId with
      | none =>
        some (⟨none, .acked (p.ack replicaId false "unknown replica endpoint")⟩, none)
      | some url =>
        some (⟨some connections.length, .waiting⟩,
          some ⟨owner, url, toJson cluster.floats p.intent, none⟩)
    else none
  | .receive =>
    if task.phase = .waiting then
      match (task.connection.bind fun n => connections[n]?).bind Connection.reply with
      | none => none
      | some reply => some (⟨task.connection, p.read cluster replicaId reply⟩, none)
    else none
  | .fail text =>
    if task.phase = .waiting then
      some (⟨task.connection, .acked (p.ack replicaId false text)⟩, none)
    else none
  | .raise text =>
    if task.phase = .waiting then some (⟨task.connection, .raised text⟩, none) else none

/-! ## Runs -/

/-- A call of `delete` by the handler. -/
structure Execution (U σ D : Type) [PyFloat D] where
  /-- the number of the POST, and who sent it -/
  connection : ℕ
  owner : ℕ × ℕ
  peer : U
  intent : DeleteIntent
  ambient : Ambient σ D
  before : ServiceState σ D
  deletion : Service.Deletion σ D

/-- The replicas, the requests on their way, and the publishes with their threads. -/
structure World (U σ D F : Type) [PyFloat D] where
  peers : U → ServiceState σ D
  connections : List (Connection F)
  publishes : List HttpPublish
  /-- the threads, by their publish and their place in its `replica_ids` -/
  tasks : ℕ × ℕ → Task
  /-- what the replicas have run -/
  executions : List (Execution U σ D)

/-- No publish was called. -/
def World.new (peers : U → ServiceState σ D) : World U σ D F :=
  ⟨peers, [], [], fun _ => ⟨none, .sent⟩, []⟩

/-- What may happen next: at a publisher, on the way, or at a replica. -/
inductive Action (U σ D : Type) [PyFloat D] : Type where
  | publish (coordinator : Coordinator String) (path : String) (args : PublishArgs)
  | advance (owner : ℕ × ℕ) (turn : Turn)
  /-- a POST is handled -/
  | handle (connection : ℕ) (amb : Ambient σ D)
  /-- anything else that a replica does, a restart for one -/
  | other (peer : U) (st : ServiceState σ D)

variable [DecidableEq U]

/-- What an action leaves of the world; it may be impossible. -/
def World.perform (cluster : Cluster U σ D F) (w : World U σ D F) :
    Action U σ D → Option (World U σ D F)
  | .publish coordinator path args =>
    some { w with publishes := w.publishes ++ [⟨coordinator, path, args.intent⟩] }
  | .advance owner turn =>
    match w.publishes[owner.1]? with
    | none => none
    | some p =>
      match p.coordinator.replicaIds[owner.2]? with
      | none => none
      | some replicaId =>
        match p.step cluster w.connections owner replicaId (w.tasks owner) turn with
        | none => none
        | some (task, posted) =>
          some { w with
            connections := w.connections ++ posted.toList
            tasks := Function.update w.tasks owner task }
  | .handle n amb =>
    match w.connections[n]? with
    | none => none
    | some conn =>
      match conn.reply, cluster.reach conn.url with
      | none, some peer =>
        match replicaDeleteIntent cluster peer amb conn.body (w.peers peer) with
        | .error code =>
          some { w with
            connections := w.connections.set n { conn with reply := some (.error code) } }
        | .ok (intent, d) =>
          some { w with
            peers := Function.update w.peers peer d.state
            connections :=
              w.connections.set n { conn with reply := some (.ok (answer amb intent d)) }
            executions :=
              w.executions ++ [⟨n, conn.owner, peer, intent, amb, w.peers peer, d⟩] }
      | _, _ => none
  | .other peer st => some { w with peers := Function.update w.peers peer st }

/-- The system takes a step. -/
def Step (cluster : Cluster U σ D F) (w : World U σ D F) (action : Action U σ D)
    (w' : World U σ D F) : Prop :=
  w.perform cluster action = some w'

/-! ## A reply is the answer of one execution -/

/-- A reply that `send` takes for a success. -/
def Succeeds (cluster : Cluster U σ D F) (body : Doc F) : Prop :=
  ∃ ms, members body = .ok ms ∧ cluster.python.bool ((get ms "success").getD .null) = true

variable {cluster : Cluster U σ D F} {w w' : World U σ D F}

omit [DecidableEq U] in
theorem succeeds_answer {amb : Ambient σ D} {intent : DeleteIntent} {d : Service.Deletion σ D}
    (h : Succeeds cluster (answer amb intent d)) : d.succeeded = true := by
  obtain ⟨ms, hms, hbool⟩ := h
  have hread : ∀ success, (ms.map Prod.fst).Nodup → ("success", .bool success) ∈ ms →
      success = true := by
    intro success hnd hmem
    rw [get_of_mem hnd hmem] at hbool
    exact (cluster.python.bool_bool success).symm.trans hbool
  rw [Service.Deletion.succeeded]
  rw [answer] at hms
  rcases hresult : d.result with error | receipt
  · rw [hresult] at hms
    have heq := Except.ok.inj hms
    cases hread false (by rw [← heq]; simp) (by rw [← heq]; exact List.mem_cons_self)
  · rw [hresult] at hms
    have heq := Except.ok.inj hms
    exact hread receipt.success (by rw [← heq]; simp) (by rw [← heq]; exact List.mem_cons_self)

omit [PyFloat D] [DecidableEq U] in
/-- The replica reads the intent that was posted. -/
theorem readIntent_toJson (cluster : Cluster U σ D F) (timeNs : ℤ) (intent : DeleteIntent) :
    readIntent cluster timeNs (toJson cluster.floats intent) = .ok intent := by
  have hread := fromJson_toJson cluster.floats cluster.python timeNs intent
  rw [readIntent, toJson, loads_text (distinctKeys_intent intent)]
  rw [toJson] at hread
  dsimp only
  rw [hread]

/-- The POST of an execution has its reply; it asked this peer for this intent. -/
def Execution.Asked (cluster : Cluster U σ D F) (connections : List (Connection F))
    (e : Execution U σ D) : Prop :=
  ∃ conn, connections[e.connection]? = some conn ∧ conn.reply.isSome = true ∧
    conn.owner = e.owner ∧ cluster.reach conn.url = some e.peer ∧
    readIntent cluster e.ambient.timeNs conn.body = .ok e.intent

/-- What was run, and from where. -/
def Execution.Ran (cluster : Cluster U σ D F) (e : Execution U σ D) : Prop :=
  e.deletion = (cluster.service e.peer).delete e.ambient (callOf e.intent) e.before

/-- The invariant of the threads, the POSTs and the executions. -/
structure World.Sound (cluster : Cluster U σ D F) (w : World U σ D F) : Prop where
  /-- a POST carries the intent of its thread to the endpoint of its replica id -/
  posted : ∀ n conn, w.connections[n]? = some conn →
    (w.tasks conn.owner).connection = some n ∧ ∃ p replicaId,
      w.publishes[conn.owner.1]? = some p ∧
      p.coordinator.replicaIds[conn.owner.2]? = some replicaId ∧
      p.url replicaId = some conn.url ∧ conn.body = toJson cluster.floats p.intent
  unsent : ∀ owner, (w.tasks owner).phase = .sent → (w.tasks owner).connection = none
  owned : ∀ owner n, (w.tasks owner).connection = some n →
    ∃ conn, w.connections[n]? = some conn ∧ conn.owner = owner
  acked : ∀ owner ack, (w.tasks owner).phase = .acked ack → ack.success = true →
    ∃ n conn body, (w.tasks owner).connection = some n ∧ w.connections[n]? = some conn ∧
      conn.reply = some (.ok body) ∧ Succeeds cluster body
  replied : ∀ n conn body, w.connections[n]? = some conn → conn.reply = some (.ok body) →
    ∃ e ∈ w.executions, e.connection = n ∧ body = answer e.ambient e.intent e.deletion
  executed : ∀ e ∈ w.executions, e.Asked cluster w.connections ∧ e.Ran cluster
  nodup : (w.executions.map Execution.connection).Nodup

omit [DecidableEq U] in
theorem sound_new (cluster : Cluster U σ D F) (peers : U → ServiceState σ D) :
    (World.new peers : World U σ D F).Sound cluster where
  posted _ _ h := by cases h
  unsent _ _ := rfl
  owned _ _ h := by cases h
  acked _ _ h := by cases h
  replied _ _ _ h := by cases h
  executed _ h := by cases h
  nodup := .nil

omit [DecidableEq U] in
theorem World.Sound.publish (h : w.Sound cluster) (p : HttpPublish) :
    World.Sound cluster { w with publishes := w.publishes ++ [p] } :=
  { h with
    posted := fun n conn hconn => by
      obtain ⟨htask, q, replicaId, hq, hrest⟩ := h.posted n conn hconn
      have hlt := (List.getElem?_eq_some_iff.mp hq).1
      exact ⟨htask, q, replicaId, (List.getElem?_append_left hlt).trans hq, hrest⟩ }

/-- What a step of a thread can do: it goes on with the POST that it has, or it sends one. -/
inductive Advances (cluster : Cluster U σ D F) (p : HttpPublish)
    (connections : List (Connection F)) (owner : ℕ × ℕ) (replicaId : String) (task : Task) :
    Task → Option (Connection F) → Prop where
  | goesOn {phase : Phase} (hphase : phase ≠ .sent)
      (hack : ∀ ack, phase = .acked ack → ack.success = true →
        ∃ n conn body, task.connection = some n ∧ connections[n]? = some conn ∧
          conn.reply = some (.ok body) ∧ Succeeds cluster body) :
      Advances cluster p connections owner replicaId task ⟨task.connection, phase⟩ none
  | posts {url : String} (hsent : task.phase = .sent) (hurl : p.url replicaId = some url) :
      Advances cluster p connections owner replicaId task ⟨some connections.length, .waiting⟩
        (some ⟨owner, url, toJson cluster.floats p.intent, none⟩)

/-- A step of a thread is one of `HttpPublish.step`. -/
theorem advance_of_perform {owner : ℕ × ℕ} {turn : Turn}
    (h : w.perform cluster (.advance owner turn) = some w') :
    ∃ p replicaId task posted, w.publishes[owner.1]? = some p ∧
      p.coordinator.replicaIds[owner.2]? = some replicaId ∧
      p.step cluster w.connections owner replicaId (w.tasks owner) turn = some (task, posted) ∧
      w' = { w with
        connections := w.connections ++ posted.toList
        tasks := Function.update w.tasks owner task } := by
  simp only [World.perform] at h
  rcases hp : w.publishes[owner.1]? with _ | p
  · rw [hp] at h
    cases h
  rw [hp] at h
  dsimp only at h
  rcases hreplica : p.coordinator.replicaIds[owner.2]? with _ | replicaId
  · rw [hreplica] at h
    cases h
  rw [hreplica] at h
  dsimp only at h
  rcases hturn : p.step cluster w.connections owner replicaId (w.tasks owner) turn with
    _ | ⟨task, posted⟩
  · rw [hturn] at h
    cases h
  rw [hturn] at h
  exact ⟨p, replicaId, task, posted, rfl, hreplica, hturn, (Option.some.inj h).symm⟩

omit [PyFloat D] [DecidableEq U] in
theorem advances_of_step {p : HttpPublish} {connections : List (Connection F)} {owner : ℕ × ℕ}
    {replicaId : String} {task task' : Task} {turn : Turn} {posted : Option (Connection F)}
    (hunsent : task.phase = .sent → task.connection = none)
    (h : p.step cluster connections owner replicaId task turn = some (task', posted)) :
    Advances cluster p connections owner replicaId task task' posted := by
  rcases turn with _ | _ | text | text
  · rw [HttpPublish.step] at h
    split at h
    · rename_i hsent
      rcases hurl : p.url replicaId with _ | url
      · rw [hurl] at h
        obtain ⟨rfl, rfl⟩ := Prod.mk.inj (Option.some.inj h)
        rw [← hunsent hsent]
        refine .goesOn (by simp) fun ack hack hsuccess => ?_
        rw [← Phase.acked.inj hack] at hsuccess
        cases hsuccess
      · rw [hurl] at h
        obtain ⟨rfl, rfl⟩ := Prod.mk.inj (Option.some.inj h)
        exact .posts hsent hurl
    · cases h
  · rw [HttpPublish.step] at h
    split at h
    · rcases hreply : (task.connection.bind fun n => connections[n]?).bind Connection.reply with
        _ | reply
      · rw [hreply] at h
        cases h
      · rw [hreply] at h
        obtain ⟨rfl, rfl⟩ := Prod.mk.inj (Option.some.inj h)
        obtain ⟨conn, hconn, hsome⟩ := Option.bind_eq_some_iff.mp hreply
        obtain ⟨n, hn, hget⟩ := Option.bind_eq_some_iff.mp hconn
        rcases reply with code | body
        · refine .goesOn (by simp [HttpPublish.read]) fun ack hack hsuccess => ?_
          rw [← Phase.acked.inj hack] at hsuccess
          cases hsuccess
        · rw [HttpPublish.read]
          rcases hms : members body with error | ms
          · exact .goesOn (by simp) fun ack hack => by cases hack
          · refine .goesOn (by simp) fun ack hack hsuccess => ?_
            rw [← Phase.acked.inj hack] at hsuccess
            exact ⟨n, conn, body, hn, hget, hsome, ms, hms, hsuccess⟩
    · cases h
  · rw [HttpPublish.step] at h
    split at h
    · obtain ⟨rfl, rfl⟩ := Prod.mk.inj (Option.some.inj h)
      refine .goesOn (by simp) fun ack hack hsuccess => ?_
      rw [← Phase.acked.inj hack] at hsuccess
      cases hsuccess
    · cases h
  · rw [HttpPublish.step] at h
    split at h
    · obtain ⟨rfl, rfl⟩ := Prod.mk.inj (Option.some.inj h)
      exact .goesOn (by simp) fun ack hack => by cases hack
    · cases h

omit [DecidableEq U] in
/-- A thread goes on with the POST that it has. -/
theorem World.Sound.goesOn (h : w.Sound cluster) {owner : ℕ × ℕ} {phase : Phase}
    (hphase : phase ≠ .sent)
    (hack : ∀ ack, phase = .acked ack → ack.success = true →
      ∃ n conn body, (w.tasks owner).connection = some n ∧ w.connections[n]? = some conn ∧
        conn.reply = some (.ok body) ∧ Succeeds cluster body) :
    World.Sound cluster
      { w with tasks := Function.update w.tasks owner ⟨(w.tasks owner).connection, phase⟩ } := by
  have hsame : ∀ other, (Function.update w.tasks owner ⟨(w.tasks owner).connection, phase⟩
      other).connection = (w.tasks other).connection := by
    intro other
    by_cases heq : other = owner
    · rw [heq, Function.update_self]
    · rw [Function.update_of_ne heq]
  refine ⟨?_, ?_, ?_, ?_, h.replied, h.executed, h.nodup⟩
  · intro n conn hconn
    obtain ⟨htask, hrest⟩ := h.posted n conn hconn
    exact ⟨(hsame _).trans htask, hrest⟩
  · intro other hother
    dsimp only at hother ⊢
    by_cases heq : other = owner
    · rw [heq, Function.update_self] at hother
      exact absurd hother hphase
    · rw [Function.update_of_ne heq] at hother ⊢
      exact h.unsent other hother
  · intro other n hn
    exact h.owned other n ((hsame other).symm.trans hn)
  · intro other ack hother hsuccess
    dsimp only at hother ⊢
    by_cases heq : other = owner
    · rw [heq, Function.update_self] at hother ⊢
      exact hack ack hother hsuccess
    · rw [Function.update_of_ne heq] at hother ⊢
      exact h.acked other ack hother hsuccess

omit [DecidableEq U] in
/-- A thread that has sent nothing sends its POST. -/
theorem World.Sound.posts (h : w.Sound cluster) {p : HttpPublish} {owner : ℕ × ℕ}
    {replicaId url : String} (hp : w.publishes[owner.1]? = some p)
    (hreplica : p.coordinator.replicaIds[owner.2]? = some replicaId)
    (hsent : (w.tasks owner).phase = .sent) (hurl : p.url replicaId = some url) :
    World.Sound cluster { w with
      connections := w.connections ++ [⟨owner, url, toJson cluster.floats p.intent, none⟩]
      tasks := Function.update w.tasks owner ⟨some w.connections.length, .waiting⟩ } := by
  have hkept : ∀ {n : ℕ} {conn : Connection F}, w.connections[n]? = some conn → ∀ more,
      (w.connections ++ more)[n]? = some conn := by
    intro n conn hconn more
    exact (List.getElem?_append_left (List.getElem?_eq_some_iff.mp hconn).1).trans hconn
  have hcases : ∀ {n : ℕ} {last conn : Connection F},
      (w.connections ++ [last])[n]? = some conn →
      w.connections[n]? = some conn ∨ n = w.connections.length ∧ conn = last := by
    intro n last conn hconn
    rw [List.getElem?_append] at hconn
    split at hconn
    · exact .inl hconn
    · have hlt := (List.getElem?_eq_some_iff.mp hconn).1
      rw [List.length_singleton] at hlt
      obtain rfl : n = w.connections.length := by omega
      rw [Nat.sub_self] at hconn
      exact .inr ⟨rfl, (Option.some.inj hconn).symm⟩
  have hother : ∀ {other : ℕ × ℕ} {n : ℕ}, (w.tasks other).connection = some n →
      other ≠ owner := by
    rintro other n hn rfl
    rw [h.unsent other hsent] at hn
    cases hn
  refine ⟨?_, ?_, ?_, ?_, ?_, ?_, h.nodup⟩
  · intro n conn hconn
    dsimp only
    rcases hcases hconn with hbefore | ⟨rfl, rfl⟩
    · obtain ⟨htask, hrest⟩ := h.posted n conn hbefore
      rw [Function.update_of_ne (hother htask)]
      exact ⟨htask, hrest⟩
    · rw [Function.update_self]
      exact ⟨rfl, p, replicaId, hp, hreplica, hurl, rfl⟩
  · intro other hphase
    dsimp only at hphase ⊢
    by_cases heq : other = owner
    · rw [heq, Function.update_self] at hphase
      cases hphase
    · rw [Function.update_of_ne heq] at hphase ⊢
      exact h.unsent other hphase
  · intro other n hn
    dsimp only at hn ⊢
    by_cases heq : other = owner
    · subst heq
      rw [Function.update_self] at hn
      obtain rfl := Option.some.inj hn
      exact ⟨_, List.getElem?_concat_length, rfl⟩
    · rw [Function.update_of_ne heq] at hn
      obtain ⟨conn, hconn, howner⟩ := h.owned other n hn
      exact ⟨conn, hkept hconn _, howner⟩
  · intro other ack hphase hsuccess
    dsimp only at hphase ⊢
    by_cases heq : other = owner
    · rw [heq, Function.update_self] at hphase
      cases hphase
    · rw [Function.update_of_ne heq] at hphase ⊢
      obtain ⟨n, conn, body, hn, hconn, hrest⟩ := h.acked other ack hphase hsuccess
      exact ⟨n, conn, body, hn, hkept hconn _, hrest⟩
  · intro n conn body hconn hreply
    rcases hcases hconn with hbefore | ⟨rfl, rfl⟩
    · exact h.replied n conn body hbefore hreply
    · cases hreply
  · intro e he
    obtain ⟨⟨conn, hconn, hrest⟩, hran⟩ := h.executed e he
    exact ⟨⟨conn, hkept hconn _, hrest⟩, hran⟩

/-- A POST that was sent, and whether it was handled since. -/
structure Connection.Extends (conn conn' : Connection F) : Prop where
  owner : conn'.owner = conn.owner
  url : conn'.url = conn.url
  body : conn'.body = conn.body
  reply : ∀ reply, conn.reply = some reply → conn'.reply = some reply

/-- A POST that nobody had handled is refused with a status code, or handled by `delete`. -/
inductive Handles (cluster : Cluster U σ D F) (w : World U σ D F) (n : ℕ)
    (conn : Connection F) : World U σ D F → Prop where
  | refuses (code : ℕ) : Handles cluster w n conn
      { w with connections := w.connections.set n { conn with reply := some (.error code) } }
  | executes (e : Execution U σ D) (hconnection : e.connection = n) (howner : e.owner = conn.owner)
      (hpeer : cluster.reach conn.url = some e.peer)
      (hintent : readIntent cluster e.ambient.timeNs conn.body = .ok e.intent)
      (hbefore : e.before = w.peers e.peer) (hran : e.Ran cluster) : Handles cluster w n conn
      { w with
        peers := Function.update w.peers e.peer e.deletion.state
        connections := w.connections.set n
          { conn with reply := some (.ok (answer e.ambient e.intent e.deletion)) }
        executions := w.executions ++ [e] }

theorem handles_of_perform {n : ℕ} {amb : Ambient σ D}
    (h : w.perform cluster (.handle n amb) = some w') :
    ∃ conn, w.connections[n]? = some conn ∧ conn.reply = none ∧ Handles cluster w n conn w' := by
  simp only [World.perform] at h
  rcases hconn : w.connections[n]? with _ | conn
  · rw [hconn] at h
    cases h
  rw [hconn] at h
  dsimp only at h
  refine ⟨conn, rfl, ?_⟩
  rcases hreply : conn.reply with _ | reply
  · rw [hreply] at h
    rcases hpeer : cluster.reach conn.url with _ | peer
    · rw [hpeer] at h
      cases h
    · rw [hpeer] at h
      dsimp only at h
      rw [replicaDeleteIntent] at h
      refine ⟨rfl, ?_⟩
      rcases hintent : readIntent cluster amb.timeNs conn.body with code | intent
      · rw [hintent] at h
        obtain rfl := Option.some.inj h
        exact .refuses code
      · rw [hintent] at h
        dsimp only at h
        split at h
        · rename_i heq
          split at heq
          · cases heq
          · obtain rfl := Except.error.inj heq
            obtain rfl := Option.some.inj h
            exact .refuses 409
        · rename_i heq
          split at heq
          · obtain ⟨rfl, hran⟩ := Prod.mk.inj (Except.ok.inj heq)
            obtain rfl := Option.some.inj h
            exact .executes ⟨n, conn.owner, peer, intent, amb, w.peers peer, _⟩ rfl rfl hpeer
              hintent rfl hran.symm
          · cases heq
  · rw [hreply] at h
    cases h

omit [PyFloat D] [DecidableEq U] in
/-- Each POST before is one after, and each one after was one before. -/
theorem set_reply {connections : List (Connection F)} {n : ℕ} {conn : Connection F}
    (hn : connections[n]? = some conn) (hnew : conn.reply = none) (reply : Except ℕ (Doc F)) :
    (∀ (m : ℕ) (conn₀ : Connection F), connections[m]? = some conn₀ →
      ∃ conn', (connections.set n { conn with reply := some reply })[m]? = some conn' ∧
        conn₀.Extends conn') ∧
    ∀ (m : ℕ) (conn' : Connection F),
      (connections.set n { conn with reply := some reply })[m]? = some conn' →
        connections[m]? = some conn' ∨ m = n ∧ conn' = { conn with reply := some reply } := by
  have hlt := (List.getElem?_eq_some_iff.mp hn).1
  refine ⟨fun m conn₀ hm => ?_, fun m conn' hm => ?_⟩
  · by_cases heq : n = m
    · subst heq
      obtain rfl := Option.some.inj (hn.symm.trans hm)
      refine ⟨_, List.getElem?_set_self hlt, rfl, rfl, rfl, fun reply hreply => ?_⟩
      rw [hnew] at hreply
      cases hreply
    · rw [List.getElem?_set_ne heq]
      exact ⟨conn₀, hm, rfl, rfl, rfl, fun _ => id⟩
  · by_cases heq : n = m
    · subst heq
      rw [List.getElem?_set_self hlt] at hm
      exact .inr ⟨rfl, (Option.some.inj hm).symm⟩
    · rw [List.getElem?_set_ne heq] at hm
      exact .inl hm

omit [DecidableEq U] in
theorem Execution.Asked.set {connections : List (Connection F)} {e : Execution U σ D}
    (h : e.Asked cluster connections) {n : ℕ} {conn : Connection F}
    (hn : connections[n]? = some conn) (hnew : conn.reply = none) (reply : Except ℕ (Doc F)) :
    e.Asked cluster (connections.set n { conn with reply := some reply }) := by
  obtain ⟨conn₀, hconn, hreply, howner, hpeer, hintent⟩ := h
  obtain ⟨conn', hconn', hextends⟩ := (set_reply hn hnew reply).1 _ conn₀ hconn
  obtain ⟨reply₀, hreply₀⟩ := Option.isSome_iff_exists.mp hreply
  refine ⟨conn', hconn', ?_, hextends.owner.trans howner, hextends.url ▸ hpeer,
    hextends.body ▸ hintent⟩
  rw [hextends.reply reply₀ hreply₀]
  rfl

omit [DecidableEq U] in
/-- A POST gets its reply; an answer is that of an execution. -/
theorem World.Sound.reply (h : w.Sound cluster) {n : ℕ} {conn : Connection F}
    (hn : w.connections[n]? = some conn) (hnew : conn.reply = none) {reply : Except ℕ (Doc F)}
    {executions : List (Execution U σ D)} (hsub : w.executions ⊆ executions)
    (hnodup : (executions.map Execution.connection).Nodup)
    (hexecuted : ∀ e ∈ executions,
      e.Asked cluster (w.connections.set n { conn with reply := some reply }) ∧ e.Ran cluster)
    (hanswered : ∀ body, reply = .ok body → ∃ e ∈ executions, e.connection = n ∧
      body = answer e.ambient e.intent e.deletion)
    (peers : U → ServiceState σ D) :
    World.Sound cluster { w with
      peers := peers
      connections := w.connections.set n { conn with reply := some reply }
      executions := executions } := by
  refine ⟨?_, h.unsent, ?_, ?_, ?_, hexecuted, hnodup⟩
  · intro m conn' hm
    rcases (set_reply hn hnew reply).2 m conn' hm with hbefore | ⟨rfl, rfl⟩
    · exact h.posted m conn' hbefore
    · exact h.posted m conn hn
  · intro owner m hm
    obtain ⟨conn₀, hconn₀, howner⟩ := h.owned owner m hm
    obtain ⟨conn', hconn', hextends⟩ := (set_reply hn hnew reply).1 m conn₀ hconn₀
    exact ⟨conn', hconn', hextends.owner.trans howner⟩
  · intro owner ack hphase hsuccess
    obtain ⟨m, conn₀, body, hm, hconn₀, hreply, hsucceeds⟩ := h.acked owner ack hphase hsuccess
    obtain ⟨conn', hconn', hextends⟩ := (set_reply hn hnew reply).1 m conn₀ hconn₀
    exact ⟨m, conn', body, hm, hconn', hextends.reply _ hreply, hsucceeds⟩
  · intro m conn' body hm hreply
    rcases (set_reply hn hnew reply).2 m conn' hm with hbefore | ⟨rfl, rfl⟩
    · obtain ⟨e, he, hrest⟩ := h.replied m conn' body hbefore hreply
      exact ⟨e, hsub he, hrest⟩
    · exact hanswered body (Option.some.inj hreply)

/-- **A POST is handled.** -/
theorem World.Sound.handle (h : w.Sound cluster) {n : ℕ} {conn : Connection F}
    (hn : w.connections[n]? = some conn) (hnew : conn.reply = none)
    (hhandles : Handles cluster w n conn w') : w'.Sound cluster := by
  rcases hhandles with code | ⟨e, rfl, howner, hpeer, hintent, -, hran⟩
  · exact h.reply hn hnew (List.Subset.refl _) h.nodup
      (fun e he => (h.executed e he).imp_left fun hasked => hasked.set hn hnew _)
      (fun body hbody => by cases hbody) w.peers
  · refine h.reply hn hnew (List.subset_append_left _ _) ?_ ?_ ?_ _
    · -- the POST had no reply, so that nobody has executed it
      rw [List.map_append, List.nodup_append]
      refine ⟨h.nodup, List.nodup_singleton _, ?_⟩
      intro a ha b hb heq
      obtain ⟨e', he', rfl⟩ := List.mem_map.mp ha
      rw [List.mem_singleton.mp hb] at heq
      obtain ⟨⟨conn₀, hconn₀, hreply, -⟩, -⟩ := h.executed e' he'
      rw [heq, hn] at hconn₀
      rw [← Option.some.inj hconn₀, hnew] at hreply
      cases hreply
    · intro e' he'
      rcases List.mem_append.mp he' with hbefore | hnow
      · exact (h.executed e' hbefore).imp_left fun hasked => hasked.set hn hnew _
      · rw [List.mem_singleton.mp hnow]
        exact ⟨⟨_, List.getElem?_set_self (List.getElem?_eq_some_iff.mp hn).1, rfl, howner.symm,
          hpeer, hintent⟩, hran⟩
    · intro body hbody
      exact ⟨e, List.mem_append_right _ (List.mem_singleton_self e), rfl,
        (Except.ok.inj hbody).symm⟩

theorem sound_step {action : Action U σ D} (h : w.Sound cluster)
    (hstep : Step cluster w action w') : w'.Sound cluster := by
  rcases action with ⟨coordinator, path, args⟩ | ⟨owner, turn⟩ | ⟨n, amb⟩ | ⟨peer, st⟩
  · obtain rfl := Option.some.inj hstep
    exact h.publish _
  · obtain ⟨p, replicaId, task, posted, hp, hreplica, hturn, rfl⟩ := advance_of_perform hstep
    rcases advances_of_step (h.unsent owner) hturn with ⟨hphase, hack⟩ | ⟨hsent, hurl⟩
    · rw [Option.toList_none, List.append_nil]
      exact h.goesOn hphase hack
    · exact h.posts hp hreplica hsent hurl
  · obtain ⟨conn, hconn, hnew, hhandles⟩ := handles_of_perform hstep
    exact h.handle hconn hnew hhandles
  · obtain rfl := Option.some.inj hstep
    exact ⟨h.posted, h.unsent, h.owned, h.acked, h.replied, h.executed, h.nodup⟩

/-- **Every run keeps the invariant.** -/
theorem sound_trace {peers : U → ServiceState σ D} {actions : List (Action U σ D)}
    (h : Trace (Step cluster) (World.new peers) actions w) : w.Sound cluster :=
  h.invariant (fun _ _ _ hw hstep => sound_step hw hstep) (sound_new cluster peers)

end Replica

end HttpFanout

end Unlearning
