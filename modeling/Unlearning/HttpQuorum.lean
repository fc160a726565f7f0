import Mathlib.Data.List.Dedup
import Unlearning.HttpFanout
import Unlearning.ReceiptLog

/-!
# Quorums over HTTP

What an acknowledgement of success over HTTP stands for, and what it costs.

* `quorum_executed`: a quorum of acknowledgements is as many such calls, whatever was lost,
  late or repeated on the way; no request id need be unique for it;
* `successes_spent`: as the mapping is gone, a replica answers success once. A publish that is
  repeated because replies were lost may not reach its quorum any more, although the ids are
  wiped.
-/

namespace Unlearning

namespace HttpFanout

open PyText Fanout

section Replica

variable {U σ D F : Type} [PyFloat D] [DecidableEq U] {cluster : Cluster U σ D F}
  {w w' : World U σ D F}

/-! ## What a success says -/

/-- Every id of the intent was mapped, its erase reported success and `verify_zeroed` returned
`True`; the ids are not mapped any more. -/
structure Execution.Wiped (cluster : Cluster U σ D F) (e : Execution U σ D) : Prop where
  visited : e.deletion.visits.map Visit.ext = (callOf e.intent).extIds
  verified : ∀ v ∈ e.deletion.visits, v.verified = true ∧
    v.label = e.before.registry.label? (strip e.intent.collection) v.ext
  dropped : (cluster.service e.peer).dropMappings = true → ∀ ext ∈ (callOf e.intent).extIds,
    e.deletion.state.registry.label? (strip e.intent.collection) ext = none

omit [DecidableEq U] in
theorem Execution.Ran.wiped {e : Execution U σ D} (h : e.Ran cluster)
    (hsucceeded : e.deletion.succeeded = true) : e.Wiped cluster := by
  rw [h] at hsucceeded
  obtain ⟨hvisited, hverified, hdropped⟩ := Service.delete_succeeded hsucceeded
  rw [← h] at hvisited hverified hdropped
  exact ⟨hvisited, hverified, hdropped⟩

omit [DecidableEq U] in
/-- What was wiped was mapped. -/
theorem Execution.Ran.mapped {e : Execution U σ D} (h : e.Ran cluster)
    (hsucceeded : e.deletion.succeeded = true) {ext : String}
    (hext : ext ∈ (callOf e.intent).extIds) :
    e.before.registry.label? (strip e.intent.collection) ext ≠ none := by
  rw [h] at hsucceeded
  exact Service.mapped_of_succeeded hsucceeded hext

/-- The replicas behind the endpoints of a publish. -/
def HttpPublish.sites (cluster : Cluster U σ D F) (p : HttpPublish) : List U :=
  p.coordinator.replicaIds.filterMap fun replicaId => (p.url replicaId).bind cluster.reach

omit [PyFloat D] [DecidableEq U] in
theorem HttpPublish.mem_sites {p : HttpPublish} {j : ℕ} {replicaId : String} {peer : U}
    (hreplica : p.coordinator.replicaIds[j]? = some replicaId)
    (hpeer : (p.url replicaId).bind cluster.reach = some peer) : peer ∈ p.sites cluster :=
  List.mem_filterMap.mpr ⟨replicaId, List.mem_of_getElem? hreplica, hpeer⟩

/-- What `publish` returns of the acknowledgements, in the order in which they came. -/
def HttpPublish.result (p : HttpPublish) (acks : List ReplicaAck) : FanoutResult :=
  ⟨p.intent.requestId, p.coordinator.quorum, acks, p.coordinator.quorum ≤ successes acks⟩

/-- All threads of a publish have ended, with these acknowledgements in some order. -/
def World.Ended (w : World U σ D F) (i : ℕ) (p : HttpPublish) (acks : List ReplicaAck) : Prop :=
  ((List.range p.coordinator.replicaIds.length).map fun j => (w.tasks (i, j)).phase).Perm
    (acks.map .acked)

/-- What was run for a publish, and returned success. -/
def World.wipes (w : World U σ D F) (i : ℕ) : List (Execution U σ D) :=
  w.executions.filter fun e => e.deletion.succeeded && decide (e.owner.1 = i)

omit [DecidableEq U] in
/-- An execution is of the intent of its publish, at the endpoint of its replica id. -/
theorem World.Sound.execution (h : w.Sound cluster) {e : Execution U σ D}
    (he : e ∈ w.executions) :
    (w.tasks e.owner).connection = some e.connection ∧ ∃ p replicaId,
      w.publishes[e.owner.1]? = some p ∧ p.coordinator.replicaIds[e.owner.2]? = some replicaId ∧
      (p.url replicaId).bind cluster.reach = some e.peer ∧ e.intent = p.intent := by
  obtain ⟨⟨conn, hconn, -, howner, hpeer, hintent⟩, -⟩ := h.executed e he
  obtain ⟨htask, p, replicaId, hp, hreplica, hurl, hbody⟩ := h.posted _ conn hconn
  rw [howner] at htask hp hreplica
  rw [hbody, readIntent_toJson] at hintent
  exact ⟨htask, p, replicaId, hp, hreplica, by rw [hurl]; exact hpeer,
    (Except.ok.inj hintent).symm⟩

omit [DecidableEq U] in
/-- A thread has one execution at most. -/
theorem World.Sound.owner_inj (h : w.Sound cluster) {e e' : Execution U σ D}
    (he : e ∈ w.executions) (he' : e' ∈ w.executions) (howner : e.owner = e'.owner) : e = e' := by
  have hsame := (h.execution he).1
  rw [howner, (h.execution he').1] at hsame
  exact List.inj_on_of_nodup_map h.nodup he he' (Option.some.inj hsame).symm

omit [DecidableEq U] in
/-- An acknowledgement of success is of an execution of its thread. -/
theorem World.Sound.executed_of_acked (h : w.Sound cluster) {owner : ℕ × ℕ} {ack : ReplicaAck}
    (hphase : (w.tasks owner).phase = .acked ack) (hsuccess : ack.success = true) :
    ∃ e ∈ w.executions, e.owner = owner ∧ e.deletion.succeeded = true := by
  obtain ⟨n, conn, body, hn, hconn, hreply, hsucceeds⟩ := h.acked owner ack hphase hsuccess
  obtain ⟨e, he, rfl, rfl⟩ := h.replied n conn body hconn hreply
  obtain ⟨⟨conn₁, hconn₁, -, howner₁, -⟩, -⟩ := h.executed e he
  obtain ⟨conn₂, hconn₂, howner₂⟩ := h.owned owner _ hn
  obtain rfl := Option.some.inj (hconn₁.symm.trans hconn₂)
  exact ⟨e, he, howner₁.symm.trans howner₂, succeeds_answer hsucceeds⟩

/-- The thread has ended with a success. -/
def Phase.succeeded : Phase → Bool
  | .acked ack => ack.success
  | _ => false

omit [DecidableEq U] in
theorem successes_eq {i : ℕ} {p : HttpPublish} {acks : List ReplicaAck}
    (h : w.Ended i p acks) :
    successes acks = ((List.range p.coordinator.replicaIds.length).filter
      fun j => (w.tasks (i, j)).phase.succeeded).length := by
  have hcount : (acks.map Phase.acked).countP Phase.succeeded = successes acks := by
    rw [List.countP_map]
    rfl
  rw [← hcount, ← h.countP_eq, List.countP_map, List.countP_eq_length_filter]
  rfl

omit [DecidableEq U] in
/-- Each success has its execution. -/
theorem World.Sound.successes_le (h : w.Sound cluster) {i : ℕ} {p : HttpPublish}
    {acks : List ReplicaAck} (hended : w.Ended i p acks) :
    successes acks ≤ (w.wipes i).length := by
  have hlen : ((w.wipes i).map fun e => e.owner.2).length = (w.wipes i).length :=
    List.length_map _
  rw [successes_eq hended, ← hlen]
  refine (List.Nodup.subperm (List.nodup_range.filter _) fun j hj => ?_).length_le
  have hsucceeded := (List.mem_filter.mp hj).2
  rcases hphase : (w.tasks (i, j)).phase with _ | _ | ack | text
  · rw [hphase] at hsucceeded
    cases hsucceeded
  · rw [hphase] at hsucceeded
    cases hsucceeded
  · rw [hphase] at hsucceeded
    obtain ⟨e, he, howner, hsuccess⟩ := h.executed_of_acked hphase hsucceeded
    refine List.mem_map.mpr ⟨e, List.mem_filter.mpr ⟨he, ?_⟩, by rw [howner]⟩
    rw [hsuccess, howner]
    simp
  · rw [hphase] at hsucceeded
    cases hsucceeded

omit [DecidableEq U] in
theorem World.Sound.mem_wipes (h : w.Sound cluster) {i : ℕ} {p : HttpPublish}
    (hp : w.publishes[i]? = some p) {e : Execution U σ D} (he : e ∈ w.wipes i) :
    e ∈ w.executions ∧ e.owner.1 = i ∧ e.intent = p.intent ∧ e.Wiped cluster ∧
      ∃ replicaId, p.coordinator.replicaIds[e.owner.2]? = some replicaId ∧
        (p.url replicaId).bind cluster.reach = some e.peer := by
  obtain ⟨hmem, hcond⟩ := List.mem_filter.mp he
  obtain ⟨hsucceeded, howner⟩ : e.deletion.succeeded = true ∧ e.owner.1 = i := by
    simpa using hcond
  obtain ⟨-, p', replicaId, hp', hreplica, hpeer, hintent⟩ := h.execution hmem
  rw [howner] at hp'
  obtain rfl := Option.some.inj (hp.symm.trans hp')
  exact ⟨hmem, howner, hintent, (h.executed e hmem).2.wiped hsucceeded, replicaId, hreplica, hpeer⟩

omit [DecidableEq U] in
/-- Different endpoints are different replicas. -/
theorem World.Sound.nodup_peers (h : w.Sound cluster) {i : ℕ} {p : HttpPublish}
    (hp : w.publishes[i]? = some p) (hsites : (p.sites cluster).Nodup) :
    ((w.wipes i).map Execution.peer).Nodup := by
  have hpairs := List.pairwise_iff_getElem.mp (List.pairwise_filterMap.mp hsites)
  refine List.Nodup.map_on (fun e he e' he' hpeer => ?_)
    ((List.Nodup.of_map _ h.nodup).filter _)
  obtain ⟨hmem, howner, -, -, a, ha, hreach⟩ := h.mem_wipes hp he
  obtain ⟨hmem', howner', -, -, b, hb, hreach'⟩ := h.mem_wipes hp he'
  obtain ⟨hlt, rfl⟩ := List.getElem?_eq_some_iff.mp ha
  obtain ⟨hlt', rfl⟩ := List.getElem?_eq_some_iff.mp hb
  refine h.owner_inj hmem hmem' (Prod.ext (howner.trans howner'.symm) ?_)
  rcases lt_trichotomy e.owner.2 e'.owner.2 with hless | heq | hmore
  · exact absurd hpeer (hpairs _ _ hlt hlt' hless _ hreach _ hreach')
  · exact heq
  · exact absurd hpeer.symm (hpairs _ _ hlt' hlt hmore _ hreach' _ hreach)

/-- **What a quorum of acknowledgements stands for**: that many calls of `delete` at endpoints
of the publish, each of which verified every id of the intent; at as many replicas, where the
endpoints are different ones. -/
theorem quorum_executed {peers : U → ServiceState σ D} {actions : List (Action U σ D)}
    (h : Trace (Step cluster) (World.new peers) actions w) {i : ℕ} {p : HttpPublish}
    (hp : w.publishes[i]? = some p) {acks : List ReplicaAck} (hended : w.Ended i p acks) :
    ((p.result acks).quorumMet = true → p.coordinator.quorum ≤ (w.wipes i).length) ∧
      (∀ e ∈ w.wipes i, e.intent = p.intent ∧ e.peer ∈ p.sites cluster ∧ e.Ran cluster ∧
        e.Wiped cluster) ∧
      ((p.sites cluster).Nodup → ((w.wipes i).map Execution.peer).Nodup) := by
  have hsound := sound_trace h
  refine ⟨fun hmet => ?_, fun e he => ?_, hsound.nodup_peers hp⟩
  · have hquorum : p.coordinator.quorum ≤ successes acks := of_decide_eq_true hmet
    exact hquorum.trans (Int.ofNat_le.mpr (hsound.successes_le hended))
  · obtain ⟨hmem, -, hintent, hwiped, replicaId, hreplica, hpeer⟩ := hsound.mem_wipes hp he
    exact ⟨hintent, p.mem_sites hreplica hpeer, (hsound.executed e hmem).2, hwiped⟩

end Replica

/-! ### Two replicas -/

/-- What becomes of the values that occur here. -/
def plainBuiltins : Builtins Unit where
  str
    | .str s => s
    | _ => ""
  int
    | .int n => .ok n
    | _ => .error .illTyped
  bool
    | .bool b => b
    | _ => false
  str_str _ := rfl
  int_int _ := rfl
  bool_bool _ := rfl

/-- Two replicas with the same two users. -/
def twoServers : Cluster Bool (List ℤ) ℚ Unit where
  service _ := Service.listService fun _ => []
  loaded _ _ := true
  reach url :=
    if url = "http://a:8000/v1/internal/replica/delete" then some true
    else if url = "http://b:8000/v1/internal/replica/delete" then some false
    else none
  floats := AppendOnlyReceiptLog.LogFile.onlyNaN
  python := plainBuiltins
  phrase _ := ""

theorem bothReplicas_ne : ["a", "b"] ≠ [] := List.cons_ne_nil _ _

/-- Both have to answer. -/
def bothServers : Coordinator String :=
  ⟨["a", "b"], AList.insert "a" "http://a:8000/" (AList.insert "b" "http://b:8000" ∅), 2,
    bothReplicas_ne⟩

/-- Both replicas are to delete `"ann"`. -/
def publishAnn : Action Bool (List ℤ) ℚ :=
  .publish bothServers "/v1/internal/replica/delete"
    ⟨"users", ["ann"], none, 16, some "req-1", "", 0⟩

/-- Both replicas answer. -/
def answeredRun : List (Action Bool (List ℤ) ℚ) :=
  [publishAnn, .advance (0, 0) .send, .advance (0, 1) .send, .handle 0 Service.plainAmbient,
    .handle 1 Service.plainAmbient, .advance (0, 0) .receive, .advance (0, 1) .receive]

/-- The state that a run of the two replicas leads to. -/
def outcome (actions : List (Action Bool (List ℤ) ℚ)) : Option (World Bool (List ℤ) ℚ Unit) :=
  actions.foldlM (World.perform twoServers) (World.new fun _ => Service.twoUsers)

/-- The world after `answeredRun`. -/
def answered : World Bool (List ℤ) ℚ Unit := (outcome answeredRun).get (by decide +kernel)

/-- The publish of `answeredRun`. -/
def answeredPublish : HttpPublish := answered.publishes[0]?.get (by decide +kernel)

/-- The acknowledgements of both replicas. -/
def okAcks : List ReplicaAck := [⟨"a", "req-1", true, "ok"⟩, ⟨"b", "req-1", true, "ok"⟩]

/-- A quorum of two, and two calls of `delete` behind it. -/
theorem quorum_executed_answered :
    ∃ p acks, answered.publishes[0]? = some p ∧ answered.Ended 0 p acks ∧
      (p.result acks).quorumMet = true ∧ p.coordinator.quorum ≤ (answered.wipes 0).length ∧
      ((answered.wipes 0).map Execution.peer).Nodup ∧
      ∀ e ∈ answered.wipes 0, e.Wiped twoServers := by
  have hrun : Trace (Step twoServers) (World.new fun _ => Service.twoUsers) answeredRun answered :=
    Trace.of_foldlM (Option.some_get _).symm
  have hp : answered.publishes[0]? = some answeredPublish := (Option.some_get _).symm
  obtain ⟨hphases, hmet, hsites⟩ :
      ((List.range answeredPublish.coordinator.replicaIds.length).map fun j =>
        (answered.tasks (0, j)).phase) = okAcks.map .acked ∧
        (answeredPublish.result okAcks).quorumMet = true ∧
        (answeredPublish.sites twoServers).Nodup := by
    decide +kernel
  have hended : answered.Ended 0 answeredPublish okAcks := by
    rw [World.Ended, hphases]
  obtain ⟨hcount, hwipes, hpeers⟩ := quorum_executed hrun hp hended
  exact ⟨answeredPublish, okAcks, hp, hended, hmet, hcount hmet, hpeers hsites,
    fun e he => (hwipes e he).2.2.2⟩

section Replica

variable {U σ D F : Type} [PyFloat D] [DecidableEq U] {cluster : Cluster U σ D F}
  {w w' : World U σ D F}

/-! ## A replica answers success once -/

/-- The intent names an id of a collection. -/
def names (coll ext : String) (intent : DeleteIntent) : Bool :=
  decide (strip intent.collection = coll ∧ ext ∈ (callOf intent).extIds)

/-- The execution has wiped the id. -/
def Execution.wipes (coll ext : String) (e : Execution U σ D) : Bool :=
  e.deletion.succeeded && names coll ext e.intent

omit [DecidableEq U] in
theorem Execution.of_wipes {coll ext : String} {e : Execution U σ D}
    (h : e.wipes coll ext = true) :
    e.deletion.succeeded = true ∧ strip e.intent.collection = coll ∧
      ext ∈ (callOf e.intent).extIds := by
  obtain ⟨hsucceeded, hnames⟩ := Bool.and_eq_true_iff.mp h
  exact ⟨hsucceeded, of_decide_eq_true hnames⟩

/-- What a replica does beside the handler does not map the id again. -/
def KeepsUnmapped (coll ext : String) (w : World U σ D F) : Action U σ D → Prop
  | .other peer st => (w.peers peer).registry.label? coll ext = none →
    st.registry.label? coll ext = none
  | _ => True

/-- A replica that has wiped the id has lost its mapping, and has wiped it once. -/
structure World.WipedOnce (coll ext : String) (w : World U σ D F) : Prop where
  gone : ∀ e ∈ w.executions, e.wipes coll ext = true →
    (w.peers e.peer).registry.label? coll ext = none
  once : ((w.executions.filter (Execution.wipes coll ext)).map Execution.peer).Nodup

omit [DecidableEq U] in
theorem wipedOnce_new (coll ext : String) (peers : U → ServiceState σ D) :
    (World.new peers : World U σ D F).WipedOnce coll ext where
  gone _ h := by cases h
  once := .nil

/-- One more call of `delete`. -/
theorem World.WipedOnce.execute {coll ext : String}
    (hdrop : ∀ peer, (cluster.service peer).dropMappings = true) (h : w.WipedOnce coll ext)
    {e : Execution U σ D} (hbefore : e.before = w.peers e.peer) (hran : e.Ran cluster)
    (connections : List (Connection F)) :
    World.WipedOnce coll ext { w with
      peers := Function.update w.peers e.peer e.deletion.state
      connections := connections
      executions := w.executions ++ [e] } := by
  -- what this call leaves of the id
  have hleft : (w.peers e.peer).registry.label? coll ext = none ∨ e.wipes coll ext = true →
      e.deletion.state.registry.label? coll ext = none := by
    rintro (hnone | hwipes)
    · rw [hran, hbefore]
      exact Service.label?_delete hnone
    · obtain ⟨hsucceeded, rfl, hext⟩ := e.of_wipes hwipes
      exact (hran.wiped hsucceeded).dropped (hdrop e.peer) ext hext
  refine ⟨fun e' he' hwipes => ?_, ?_⟩
  · dsimp only
    by_cases heq : e'.peer = e.peer
    · rw [heq, Function.update_self]
      rcases List.mem_append.mp he' with hold | hnow
      · exact hleft (.inl (heq ▸ h.gone e' hold hwipes))
      · rw [List.mem_singleton.mp hnow] at hwipes
        exact hleft (.inr hwipes)
    · rw [Function.update_of_ne heq]
      rcases List.mem_append.mp he' with hold | hnow
      · exact h.gone e' hold hwipes
      · exact absurd (congrArg Execution.peer (List.mem_singleton.mp hnow)) heq
  · dsimp only
    rw [List.filter_append, List.map_append]
    by_cases hwipes : e.wipes coll ext = true
    · rw [List.filter_cons_of_pos hwipes, List.nodup_append]
      refine ⟨h.once, List.nodup_singleton _, ?_⟩
      intro a ha b hb heq
      obtain ⟨e', he', rfl⟩ := List.mem_map.mp ha
      obtain ⟨hold, hwipes'⟩ := List.mem_filter.mp he'
      have hpeer : e'.peer = e.peer := heq.trans (List.mem_singleton.mp hb)
      -- the id was still mapped, but the replica had lost it
      obtain ⟨hsucceeded, rfl, hext⟩ := e.of_wipes hwipes
      refine hran.mapped hsucceeded hext ?_
      rw [hbefore, ← hpeer]
      exact h.gone e' hold hwipes'
    · rw [List.filter_cons_of_neg hwipes]
      simpa using h.once

theorem World.WipedOnce.step {coll ext : String} {action : Action U σ D}
    (hdrop : ∀ peer, (cluster.service peer).dropMappings = true) (h : w.WipedOnce coll ext)
    (hstep : Guarded (KeepsUnmapped coll ext) (Step cluster) w action w') :
    w'.WipedOnce coll ext := by
  obtain ⟨hkeeps, hstep⟩ := hstep
  rcases action with ⟨coordinator, path, args⟩ | ⟨owner, turn⟩ | ⟨n, amb⟩ | ⟨peer, st⟩
  · obtain rfl := Option.some.inj hstep
    exact ⟨h.gone, h.once⟩
  · obtain ⟨p, replicaId, task, posted, -, -, -, rfl⟩ := advance_of_perform hstep
    exact ⟨h.gone, h.once⟩
  · obtain ⟨conn, -, -, hhandles⟩ := handles_of_perform hstep
    rcases hhandles with code | ⟨e, -, -, -, -, hbefore, hran⟩
    · exact ⟨h.gone, h.once⟩
    exact h.execute hdrop hbefore hran _
  · obtain rfl := Option.some.inj hstep
    refine ⟨fun e he hwipes => ?_, h.once⟩
    dsimp only
    by_cases heq : e.peer = peer
    · subst heq
      rw [Function.update_self]
      exact hkeeps (h.gone e he hwipes)
    · rw [Function.update_of_ne heq]
      exact h.gone e he hwipes

/-- What was run for other publishes, and has wiped the id at a replica of this one. -/
def World.elsewhere (cluster : Cluster U σ D F) (w : World U σ D F) (coll ext : String) (i : ℕ)
    (p : HttpPublish) : List (Execution U σ D) :=
  w.executions.filter fun e =>
    e.wipes coll ext && decide (e.owner.1 ≠ i ∧ e.peer ∈ p.sites cluster)

/-- **Redelivery is refused.** Where no id is mapped again, a replica that has wiped an id for
another publish, whether its reply came through or not, is no success for this one. -/
theorem successes_spent {coll ext : String} {peers : U → ServiceState σ D}
    {actions : List (Action U σ D)}
    (hdrop : ∀ peer, (cluster.service peer).dropMappings = true)
    (h : Trace (Guarded (KeepsUnmapped coll ext) (Step cluster)) (World.new peers) actions w)
    {i : ℕ} {p : HttpPublish} (hp : w.publishes[i]? = some p)
    (hnames : names coll ext p.intent = true) {acks : List ReplicaAck}
    (hended : w.Ended i p acks) :
    successes acks + (w.elsewhere cluster coll ext i p).length ≤
      (p.sites cluster).dedup.length := by
  have hsound : w.Sound cluster := sound_trace (h.mono fun _ _ _ hstep => hstep.2)
  have honce : w.WipedOnce coll ext :=
    h.invariant (fun _ _ _ hw hstep => hw.step hdrop hstep) (wipedOnce_new coll ext peers)
  let here (e : Execution U σ D) : Bool :=
    e.wipes coll ext && decide (e.peer ∈ p.sites cluster)
  let own (e : Execution U σ D) : Bool := decide (e.owner.1 = i)
  -- at each of the replicas, the id was wiped once
  have hall : w.executions.countP here ≤ (p.sites cluster).dedup.length := by
    have hnodup : ((w.executions.filter here).map Execution.peer).Nodup :=
      honce.once.sublist ((List.monotone_filter_right _ fun e he =>
        (Bool.and_eq_true_iff.mp he).1).map _)
    rw [List.countP_eq_length_filter, ← List.length_map Execution.peer]
    refine (List.Nodup.subperm hnodup fun u hu => ?_).length_le
    obtain ⟨e, he, rfl⟩ := List.mem_map.mp hu
    exact List.mem_dedup.mpr
      (of_decide_eq_true (Bool.and_eq_true_iff.mp (List.mem_filter.mp he).2).2)
  -- for this publish, or for another one
  have hown : (w.wipes i).length ≤ w.executions.countP fun e => here e && own e := by
    rw [World.wipes, ← List.countP_eq_length_filter]
    refine List.countP_mono_left fun e he hcond => ?_
    obtain ⟨-, howner, hintent, -, replicaId, hreplica, hpeer⟩ :=
      hsound.mem_wipes hp (List.mem_filter.mpr ⟨he, hcond⟩)
    have hsite : e.peer ∈ p.sites cluster := p.mem_sites hreplica hpeer
    simp [here, own, Execution.wipes, hintent, hnames, hsite, howner,
      (Bool.and_eq_true_iff.mp hcond).1]
  have hother : (w.elsewhere cluster coll ext i p).length ≤
      w.executions.countP fun e => here e && !own e := by
    rw [World.elsewhere, ← List.countP_eq_length_filter]
    refine List.countP_mono_left fun e _ hcond => ?_
    obtain ⟨hwipes, howner, hsite⟩ : e.wipes coll ext = true ∧ e.owner.1 ≠ i ∧
        e.peer ∈ p.sites cluster := by
      simpa using hcond
    simp [here, own, hwipes, hsite, howner]
  have hsplit := List.countP_eq_countP_filter_add w.executions here own
  rw [List.countP_filter, List.countP_filter] at hsplit
  have hle := hsound.successes_le hended
  omega

end Replica

/-- Both replies come too late, and the publish is repeated. -/
def repeatedRun : List (Action Bool (List ℤ) ℚ) :=
  [publishAnn, .advance (0, 0) .send, .advance (0, 1) .send, .advance (0, 0) (.fail "timed out"),
    .handle 0 Service.plainAmbient, .handle 1 Service.plainAmbient,
    .advance (0, 1) (.fail "timed out"), publishAnn, .advance (1, 0) .send, .advance (1, 1) .send,
    .handle 2 Service.plainAmbient, .handle 3 Service.plainAmbient, .advance (1, 0) .receive,
    .advance (1, 1) .receive]

/-- The world after `repeatedRun`. -/
def repeated : World Bool (List ℤ) ℚ Unit := (outcome repeatedRun).get (by decide +kernel)

/-- The second publish of `repeatedRun`. -/
def repeatedPublish : HttpPublish := repeated.publishes[1]?.get (by decide +kernel)

/-- What each replica answers to the repeated publish. -/
def skipAck (replicaId : String) : ReplicaAck :=
  ⟨replicaId, "req-1", false, "skip ann: \"unknown id 'ann' in collection 'users'\""⟩

/-- Both replicas have wiped the id, and the repeated publish has no success. -/
theorem successes_spent_repeated :
    ∃ p acks, repeated.publishes[1]? = some p ∧ repeated.Ended 1 p acks ∧
      (repeated.elsewhere twoServers "users" "ann" 1 p).length = 2 ∧ successes acks = 0 := by
  have hrun : Trace (Step twoServers) (World.new fun _ => Service.twoUsers) repeatedRun repeated :=
    Trace.of_foldlM (Option.some_get _).symm
  have hguarded : Trace (Guarded (KeepsUnmapped "users" "ann") (Step twoServers))
      (World.new fun _ => Service.twoUsers) repeatedRun repeated :=
    hrun.guarded (by simp [repeatedRun, KeepsUnmapped, publishAnn])
  have hp : repeated.publishes[1]? = some repeatedPublish := (Option.some_get _).symm
  obtain ⟨hphases, hnames, hspent, hsites⟩ :
      ((List.range repeatedPublish.coordinator.replicaIds.length).map fun j =>
        (repeated.tasks (1, j)).phase) = [skipAck "a", skipAck "b"].map .acked ∧
        names "users" "ann" repeatedPublish.intent = true ∧
        (repeated.elsewhere twoServers "users" "ann" 1 repeatedPublish).length = 2 ∧
        (repeatedPublish.sites twoServers).dedup.length = 2 := by
    decide +kernel
  have hended : repeated.Ended 1 repeatedPublish [skipAck "a", skipAck "b"] := by
    rw [World.Ended, hphases]
  have hle := successes_spent (fun _ => rfl) hguarded hp hnames hended
  exact ⟨repeatedPublish, _, hp, hended, hspent, by omega⟩

end HttpFanout

end Unlearning
