import Unlearning.DeleteOnce
import Unlearning.IdEndpoints
import Unlearning.RegistryFile
import Unlearning.Trace

/-!
# The registry of the API across restarts (`api/main.py`)

The mappings of ids are in the memory of the process. `id_registry.json` is written by
`register_ids` and `ingest_vectors` when they answer, by `enterprise_delete` when its receipt
is there, and at the end of `lifespan`; the deletes of workflows, of the replica endpoint and of
the outbox do not write it. The next process starts from the file.

A write of the file may be refused, which leaves the old one, and it may be cut short, by an error
or by a crash: `write_text` truncates the file first, so what is there then is no JSON, and the
next `lifespan` raises before it serves. A process may crash at any point. What a delete that
raises is answered with is left out. What the index is when a process starts is arbitrary, and so
is what the endpoints leave of it that do not touch the mappings.

* `Durable`: a property of registries that holds in the file, and in memory while the process runs;
* `Durable.run`: such a property survives every run whose requests keep it;
* `acknowledged_survives`: what an answer promised is there in every later process.
-/

namespace Unlearning

namespace ApiRestarts

open PyText Registry

section Api

variable {D : Type} [PyFloat D]

/-- The process and its files. While it is down, what is said of its memory means nothing. -/
structure Site (D : Type) [PyFloat D] where
  api : ApiState
  policy : CompactCoalescePolicy D
  up : Bool
  /-- `id_registry.json` was cut short: it is there, and is no JSON. -/
  torn : Bool

/-- What comes of `write_text`. -/
inductive Written : Type where
  | whole
  /-- the file is not opened -/
  | refused
  /-- the file is truncated, and not all of the text follows -/
  | cut

/-- What is asked of the API, as far as it can reach the mappings or the index. -/
inductive Request (D : Type) [PyFloat D] : Type where
  | registerIds (body : RegisterIdsRequest)
  | ingestVectors (body : IngestVectorsRequest)
  /-- `POST /v1/collections/{path}/delete`, and the call that its body makes -/
  | enterpriseDelete (amb : Ambient NativeWorld D) (path : String) (call : DeleteCall)
  /-- a delete of a workflow, the replica endpoint or the outbox -/
  | internalDelete (amb : Ambient NativeWorld D) (call : DeleteCall)
  /-- `POST /delete`, a search or a compaction, and the index and the policy that it leaves -/
  | indexOnly (world : NativeWorld) (policy : CompactCoalescePolicy D)

/-- What happens to the process. -/
inductive Action (D : Type) [PyFloat D] : Type where
  /-- `written`: what comes of writing the file, where the request writes it -/
  | request (request : Request D) (written : Written)
  /-- the end of `lifespan` -/
  | shutdown (written : Written)
  | crash
  /-- the start of `lifespan`, with the index that `bootstrap` leaves -/
  | start (world : NativeWorld) (policy : CompactCoalescePolicy D)

section Serve

variable (H : Sha256) (cfg : NativeConfig D) (printable : Char → Bool)

/-- What can be loaded after the write of a text over an old file. -/
def Written.leaves (written : Written) (old : Option Payload) (text : Payload) : Option Payload :=
  match written with
  | whole => some text
  | refused => old
  | cut => none

/-- Whether the file is cut short after the write. -/
def Written.tears (written : Written) (torn : Bool) : Bool :=
  match written with
  | whole => false
  | refused => torn
  | cut => true

/-- What a write that fails leaves of the file. -/
def writeFails (written : Written) (st : ApiState) : Option (Option Payload) :=
  match written with
  | .whole => none
  | .refused => some st.registryFile
  | .cut => some none

/-- The erasure service, on what the process holds. -/
def Site.service (s : Site D) : ServiceState NativeWorld D :=
  ⟨s.api.registry, s.api.world, s.policy⟩

/-- After a call of `ErasureService.delete`. -/
def Site.deleted (d : Service.Deletion NativeWorld D) (s : Site D) : Site D :=
  { s with
    api := { s.api with registry := d.state.registry, world := d.state.outside }
    policy := d.state.policy }

/-- `id_registry.save`, with what comes of it. -/
def Site.saveRegistry (written : Written) (s : Site D) : Site D :=
  { s with
    api := s.api.saveRegistry (writeFails written s.api)
    torn := written.tears s.torn }

/-- What is answered to a request, where that is no error. -/
inductive Answer (D : Type) [PyFloat D] : Type where
  | mapping (mapping : Dict String ℤ)
  | receipt (receipt : ErasureReceipt D)

/-- A request to the process. -/
def Site.serve (written : Written) (s : Site D) : Request D → Option (Answer D) × Site D
  | .registerIds body =>
    match Unlearning.registerIds printable (writeFails written s.api) body s.api with
    | (.error _, api) => (none, { s with api := api })
    | (.ok response, api) =>
      (some (.mapping response.mapping), { s with api := api, torn := written.tears s.torn })
  | .ingestVectors body =>
    match Unlearning.ingestVectors H D cfg.retries printable (writeFails written s.api) body
        s.api with
    | (.error _, api) => (none, { s with api := api })
    | (.ok response, api) =>
      (some (.mapping response.mapping), { s with api := api, torn := written.tears s.torn })
  | .enterpriseDelete amb path call =>
    if call.collection ≠ path then (none, s)
    else if !s.api.world.store.live.isLoaded then (none, s)
    else
      let d := (cfg.service H).delete amb call s.service
      match d.result with
      | .error _ => (none, s.deleted d)
      | .ok receipt => (some (.receipt receipt), (s.deleted d).saveRegistry written)
  | .internalDelete amb call =>
    let d := (cfg.service H).delete amb call s.service
    (none, s.deleted d)
  | .indexOnly world policy => (none, { s with api := { s.api with world := world }, policy })

/-- `id_registry`, and `id_registry.load(reg_path)` if there is the file. -/
def startRegistry (file : Option Payload) : Registry := (file.map Registry.load).getD .empty

/-- One action. A start on a file that is no JSON raises: the process does not come up. -/
def Site.perform (s : Site D) : Action D → Option (Site D)
  | .request request written =>
    if s.up then some (s.serve H cfg printable written request).2 else none
  | .shutdown written => if s.up then some { s.saveRegistry written with up := false } else none
  | .crash => some { s with up := false }
  | .start world policy =>
    if s.up then none
    else if s.torn then some s
    else some ⟨⟨startRegistry s.api.registryFile, world, s.api.registryFile⟩, policy, true, false⟩

/-- One step of a run. -/
def Step (s : Site D) (action : Action D) (s' : Site D) : Prop :=
  s.perform H cfg printable action = some s'

end Serve

variable {H : Sha256} {cfg : NativeConfig D} {printable : Char → Bool} {s s' : Site D}

/-- The label of an id in memory. -/
def Site.label? (s : Site D) (c e : String) : Option ℤ := s.api.registry.label? c e

/-! ## What a request does to the file -/

/-- The file is written where the answer is no error, as far as the write comes. -/
def Writes {α : Type} (written : Written) (st : ApiState)
    (r : Except HandlerExit α × ApiState) : Prop :=
  r.2.registryFile =
    if r.1.toBool then written.leaves st.registryFile r.2.registry.save else st.registryFile

/-- `POST …/ids/register` writes the registry file last, and only when it answers. -/
theorem registerIds_writes (written : Written) (body : RegisterIdsRequest) (st : ApiState) :
    Writes written st (Unlearning.registerIds printable (writeFails written st) body st) := by
  rw [Unlearning.registerIds]
  split
  · rfl
  · split
    · rfl
    · rcases written with _ | _ | _ <;> rfl

/-- What an ingest does after its mapping: the file is written last, once the rows are in. -/
theorem ingestRows_writes {retries : ℕ} (written : Written) (body : IngestVectorsRequest) (d : ℕ)
    (mapping : Dict String ℤ) (rows : List Row) {st st' : ApiState}
    (h : st'.registryFile = st.registryFile) :
    Writes written st
      (ingestRows H D retries (writeFails written st) body d mapping rows st') := by
  rw [ingestRows]
  split
  · exact h
  · split
    · exact h
    · rcases written with _ | _ | _ <;> rfl

/-- `POST …/vectors/ingest` writes the registry file last, and only when it answers. -/
theorem ingestVectors_writes {retries : ℕ} (written : Written) (body : IngestVectorsRequest)
    (st : ApiState) :
    Writes written st
      (Unlearning.ingestVectors H D retries printable (writeFails written st) body st) := by
  rw [Unlearning.ingestVectors]
  split
  · rfl
  split
  · rfl
  split
  · rfl
  split
  · rfl
  dsimp only
  split
  · rfl
  split
  · rfl
  split
  · rfl
  · exact ingestRows_writes written body _ _ _ rfl

/-- What can be loaded from the file after a request, and whether it is cut short. -/
structure Filed (written : Written) (s : Site D) (r : Option (Answer D) × Site D) : Prop where
  file : r.2.api.registryFile =
    if r.1.isSome then written.leaves s.api.registryFile r.2.api.registry.save
    else s.api.registryFile
  torn : r.2.torn = if r.1.isSome then written.tears s.torn else s.torn

/-- **The file** is written exactly when the request is answered. -/
theorem serve_file (written : Written) (s : Site D) (request : Request D) :
    Filed written s (s.serve H cfg printable written request) := by
  rcases request with body | body | ⟨amb, path, call⟩ | ⟨amb, call⟩ | ⟨world, policy⟩
  · have h := @registerIds_writes printable written body s.api
    rw [Site.serve]
    revert h
    rcases Unlearning.registerIds printable (writeFails written s.api) body s.api with
      ⟨e | response, api⟩
    · exact fun h => ⟨h, rfl⟩
    · exact fun h => ⟨h, rfl⟩
  · have h := @ingestVectors_writes D _ H printable cfg.retries written body s.api
    rw [Site.serve]
    revert h
    rcases Unlearning.ingestVectors H D cfg.retries printable (writeFails written s.api) body
      s.api with ⟨e | response, api⟩
    · exact fun h => ⟨h, rfl⟩
    · exact fun h => ⟨h, rfl⟩
  · rw [Site.serve]
    split
    · exact ⟨rfl, rfl⟩
    split
    · exact ⟨rfl, rfl⟩
    rcases (cfg.service H).delete amb call s.service with ⟨e | receipt, state, visits⟩
    · exact ⟨rfl, rfl⟩
    · rcases written with _ | _ | _ <;> exact ⟨rfl, rfl⟩
  · exact ⟨rfl, rfl⟩
  · exact ⟨rfl, rfl⟩

/-- A request leaves the process up. -/
theorem serve_up (written : Written) (s : Site D) (request : Request D) :
    (s.serve H cfg printable written request).2.up = s.up := by
  rcases request with body | body | ⟨amb, path, call⟩ | ⟨amb, call⟩ | ⟨world, policy⟩
  · rw [Site.serve]
    split <;> rfl
  · rw [Site.serve]
    split <;> rfl
  · rw [Site.serve]
    split
    · rfl
    split
    · rfl
    dsimp only
    split <;> rfl
  · rfl
  · rfl

/-! ## What a request does to the registry -/

/-- What is left of the registry by the request: by the loop over its ids, or by its delete. -/
inductive Effect (H : Sha256) (cfg : NativeConfig D) (printable : Char → Bool) (s : Site D) :
    Request D → Registry → Prop where
  | none (request : Request D) : Effect H cfg printable s request s.api.registry
  | registered (body : RegisterIdsRequest) :
      Effect H cfg printable s (.registerIds body)
        (registerAll printable body.collection (askedLabels body.ids body.labels) ∅
          s.api.registry).2
  | ingested (body : IngestVectorsRequest) :
      Effect H cfg printable s (.ingestVectors body)
        (registerAll printable body.collection (askedLabels body.ids body.labels) ∅
          s.api.registry).2
  | deleted (amb : Ambient NativeWorld D) (call : DeleteCall)
      (hloaded : s.api.world.store.live.isLoaded = true) :
      Effect H cfg printable s (.enterpriseDelete amb call.collection call)
        ((cfg.service H).delete amb call s.service).state.registry
  | deletedInternally (amb : Ambient NativeWorld D) (call : DeleteCall) :
      Effect H cfg printable s (.internalDelete amb call)
        ((cfg.service H).delete amb call s.service).state.registry

/-- A handler leaves the registry alone or as the loop does; it answers with what the loop
returned. -/
structure Registers {α : Type} (printable : Char → Bool) (collection : String)
    (asked : List (String × Option ℤ)) (mapping : α → Dict String ℤ) (st : ApiState)
    (r : Except HandlerExit α × ApiState) : Prop where
  left : r.2.registry = st.registry ∨
    r.2.registry = (registerAll printable collection asked ∅ st.registry).2
  answered : ∀ a, r.1 = .ok a →
    registerAll printable collection asked ∅ st.registry = (.ok (mapping a), r.2.registry)

/-- A register is the loop of `registerAll` over the ids and labels that were asked for. -/
theorem registers_registerIds (wf : Option (Option Payload)) (body : RegisterIdsRequest)
    (st : ApiState) :
    Registers printable body.collection (askedLabels body.ids body.labels)
      RegisterIdsResponse.mapping st (Unlearning.registerIds printable wf body st) := by
  rw [Unlearning.registerIds]
  split
  · exact ⟨.inl rfl, by rintro _ ⟨⟩⟩
  rcases hloop : registerAll printable body.collection (askedLabels body.ids body.labels) ∅
    st.registry with ⟨e | mapping, reg⟩
  · exact ⟨.inr (by rw [hloop]), by rintro _ ⟨⟩⟩
  · refine ⟨.inr (by rw [hloop]; rfl), ?_⟩
    rintro _ ⟨⟩
    exact hloop

/-- The registry of an ingest is the one its loop left, whatever becomes of the rows. -/
theorem registers_ingestRows {retries : ℕ} {wf : Option (Option Payload)}
    {body : IngestVectorsRequest} (d : ℕ) {mapping : Dict String ℤ} {reg : Registry}
    (rows : List Row) {st : ApiState}
    (hloop : registerAll printable body.collection (askedLabels body.ids body.labels) ∅
      st.registry = (.ok mapping, reg)) :
    Registers printable body.collection (askedLabels body.ids body.labels)
      IngestVectorsResponse.mapping st
      (ingestRows H D retries wf body d mapping rows { st with registry := reg }) := by
  rw [ingestRows]
  split
  · exact ⟨.inr (by rw [hloop]), by rintro _ ⟨⟩⟩
  split
  · exact ⟨.inr (by rw [hloop]), by rintro _ ⟨⟩⟩
  · refine ⟨.inr (by rw [hloop]; rfl), ?_⟩
    rintro _ ⟨⟩
    exact hloop

/-- An ingest is the loop of `registerAll`, or a refusal that leaves the registry as it was. -/
theorem registers_ingestVectors {retries : ℕ} (wf : Option (Option Payload))
    (body : IngestVectorsRequest) (st : ApiState) :
    Registers printable body.collection (askedLabels body.ids body.labels)
      IngestVectorsResponse.mapping st
      (Unlearning.ingestVectors H D retries printable wf body st) := by
  rw [Unlearning.ingestVectors]
  split
  · exact ⟨.inl rfl, by rintro _ ⟨⟩⟩
  split
  · exact ⟨.inl rfl, by rintro _ ⟨⟩⟩
  split
  · exact ⟨.inl rfl, by rintro _ ⟨⟩⟩
  rename_i d _
  rcases hloop : registerAll printable body.collection (askedLabels body.ids body.labels) ∅
    st.registry with ⟨e | mapping, reg⟩
  · exact ⟨.inr (by rw [hloop]), by rintro _ ⟨⟩⟩
  dsimp only
  split
  · exact ⟨.inr (by rw [hloop]), by rintro _ ⟨⟩⟩
  split
  · exact ⟨.inr (by rw [hloop]), by rintro _ ⟨⟩⟩
  split
  · exact ⟨.inr (by rw [hloop]), by rintro _ ⟨⟩⟩
  · exact registers_ingestRows d _ hloop

/-- Each request has its effect on the registry, whatever becomes of the file. -/
theorem serve_effect (written : Written) (s : Site D) (request : Request D) :
    Effect H cfg printable s request (s.serve H cfg printable written request).2.api.registry := by
  rcases request with body | body | ⟨amb, path, call⟩ | ⟨amb, call⟩ | ⟨world, policy⟩
  · have h := @registers_registerIds printable (writeFails written s.api) body s.api
    rw [Site.serve]
    revert h
    rcases Unlearning.registerIds printable (writeFails written s.api) body s.api with
      ⟨e | response, api⟩
    · exact fun h => h.left.elim (fun h => h ▸ .none _) fun h => h ▸ .registered body
    · exact fun h => h.left.elim (fun h => h ▸ .none _) fun h => h ▸ .registered body
  · have h := @registers_ingestVectors D _ H printable cfg.retries (writeFails written s.api) body
      s.api
    rw [Site.serve]
    revert h
    rcases Unlearning.ingestVectors H D cfg.retries printable (writeFails written s.api) body
      s.api with ⟨e | response, api⟩
    · exact fun h => h.left.elim (fun h => h ▸ .none _) fun h => h ▸ .ingested body
    · exact fun h => h.left.elim (fun h => h ▸ .none _) fun h => h ▸ .ingested body
  · rw [Site.serve]
    split
    · exact .none _
    rename_i hpath
    obtain rfl := not_not.mp hpath
    split
    · exact .none _
    rename_i hloaded
    have hloaded : s.api.world.store.live.isLoaded = true := by simpa using hloaded
    dsimp only
    split
    · exact .deleted amb call hloaded
    · exact .deleted amb call hloaded
  · exact .deletedInternally amb call
  · exact .none _

/-! ### The loop over the ids -/

section Loop

variable {coll : String} {reg : Registry}

/-- Registering pair after pair keeps the registry consistent, and the counters only grow. -/
theorem kept_registerAll (pairs : List (String × Option ℤ)) (mapping : Dict String ℤ)
    (h : reg.Kept) :
    (registerAll printable coll pairs mapping reg).2.Kept ∧
      CountersLe reg (registerAll printable coll pairs mapping reg).2 := by
  induction pairs generalizing mapping reg with
  | nil => exact ⟨h, .of_eq fun _ => rfl⟩
  | cons pair rest ih =>
    obtain ⟨eid, label⟩ := pair
    have hone := @kept_register printable reg h coll eid label
    rw [registerAll]
    revert hone
    rcases reg.register printable coll eid label with ⟨e | label, reg'⟩
    · exact id
    · rintro ⟨hkept, hle⟩
      exact (ih _ hkept).imp_right hle.trans

/-- `register` maps the one id, if it is new. -/
theorem register_new {eid c e : String} {label : Option ℤ} (h : reg.label? c e = none)
    (hne : ¬ (c = strip coll ∧ e = strip eid)) :
    (reg.register printable coll eid label).2.label? c e = none := by
  have hregistering := @registering printable reg coll eid label
  revert hregistering
  rcases reg.register printable coll eid label with ⟨result, reg'⟩
  rintro (⟨message, -⟩ | ⟨-, existing, -, -⟩ | ⟨-, existing, message, -, -⟩ |
    ⟨-, label, next, -, -⟩ | ⟨-, label, owner, message, -, -, -⟩)
  · exact h
  · exact (label?_ensureCollection _ _ _).trans h
  · exact (label?_ensureCollection _ _ _).trans h
  · rw [label?_assign, if_neg hne]
    exact (label?_ensureCollection _ _ _).trans h
  · exact (label?_ensureCollection _ _ _).trans h

/-- An id that is not among the pairs stays unmapped. -/
theorem registerAll_new {c e : String} (pairs : List (String × Option ℤ))
    (mapping : Dict String ℤ) (h : reg.label? c e = none)
    (hne : c = strip coll → e ∉ pairs.map fun pair => strip pair.1) :
    (registerAll printable coll pairs mapping reg).2.label? c e = none := by
  induction pairs generalizing mapping reg with
  | nil => exact h
  | cons pair rest ih =>
    obtain ⟨eid, label⟩ := pair
    have hone := @register_new printable coll reg eid c e label h fun ⟨hc, he⟩ =>
      hne hc (he ▸ List.mem_cons_self)
    rw [registerAll]
    revert hone
    rcases reg.register printable coll eid label with ⟨e' | label, reg'⟩
    · exact id
    · exact fun hone => ih _ hone fun hc hmem => hne hc (List.mem_cons_of_mem _ hmem)

/-- What `register` returns is the label of the id. -/
theorem register_label {eid : String} {label : Option ℤ} {l : ℤ} {reg' : Registry}
    (h : reg.register printable coll eid label = (.ok l, reg')) :
    reg'.label? (strip coll) (strip eid) = some l := by
  have hregistering := @registering printable reg coll eid label
  rw [h] at hregistering
  rcases hregistering with _ | ⟨_, _, hmapped, _⟩ | _ | ⟨_, _, next, _, _⟩ | _
  · exact (label?_ensureCollection _ _ _).trans hmapped
  · rw [label?_assign, if_pos ⟨rfl, rfl⟩]

/-- **What the loop returns** is in the registry. -/
theorem registerAll_mapping {pairs : List (String × Option ℤ)} {mapping mapping' : Dict String ℤ}
    {reg' : Registry} (h : registerAll printable coll pairs mapping reg = (.ok mapping', reg'))
    (hmapping : ∀ eid l, mapping.lookup eid = some l →
      reg.label? (strip coll) (strip eid) = some l) :
    ∀ eid l, mapping'.lookup eid = some l → reg'.label? (strip coll) (strip eid) = some l := by
  induction pairs generalizing mapping reg with
  | nil =>
    obtain ⟨hmapping', rfl⟩ := Prod.mk.inj h
    obtain rfl := Except.ok.inj hmapping'
    exact hmapping
  | cons pair rest ih =>
    obtain ⟨eid, label⟩ := pair
    rw [registerAll] at h
    rcases hone : reg.register printable coll eid label with ⟨e | label', reg₁⟩
    · rw [hone] at h
      cases (Prod.mk.inj h).1
    · rw [hone] at h
      refine ih h fun eid' l hl => ?_
      by_cases heq : eid' = eid
      · rw [heq, AList.lookup_insert] at hl
        rw [heq, ← hl]
        exact register_label hone
      · rw [AList.lookup_insert_ne heq] at hl
        have hkept := @register_keeps printable reg coll eid _ _ label _ (hmapping eid' l hl)
        rwa [hone] at hkept

end Loop

/-! ### A delete -/

section Delete

variable {σ : Type} {svc : Service σ D} {amb : Ambient σ D} {call : DeleteCall}

omit [PyFloat D] in
/-- The loop of a delete keeps the registry consistent and its counters. -/
theorem kept_eraseAll (ids : List String) (hids : ∀ ext ∈ ids, strip ext = ext ∧ ext ≠ "")
    {b : Service.Batch σ D} (h : b.registry.Kept) :
    (Service.eraseAll svc amb call ids b).2.registry.Kept ∧
      CountersLe b.registry (Service.eraseAll svc amb call ids b).2.registry := by
  induction ids generalizing b with
  | nil => exact ⟨h, .of_eq fun _ => rfl⟩
  | cons ext rest ih =>
    obtain ⟨hs, hne⟩ := hids ext List.mem_cons_self
    have hrest := fun ext' hext' => hids ext' (List.mem_cons_of_mem ext hext')
    rw [Service.eraseAll]
    rcases Service.eraseId_cases hs hne b with ⟨e, heq, -⟩ | ⟨b', heq, hturn⟩
    · rw [heq]
      exact ⟨h, .of_eq fun _ => rfl⟩
    · rw [heq]
      have hone : b'.registry.Kept ∧ CountersLe b.registry b'.registry := by
        rcases hturn with hskip | hfail | ⟨label, herase⟩
        · rw [hskip.registry]
          exact ⟨h, .of_eq fun _ => rfl⟩
        · rw [hfail.registry]
          exact ⟨h, .of_eq fun _ => rfl⟩
        · rw [herase.registry]
          split
          · exact kept_drop h _ _
          · exact ⟨h, .of_eq fun _ => rfl⟩
      exact (ih hrest hone.1).imp_right hone.2.trans

/-- A delete keeps the registry consistent and its counters, also where it raises. -/
theorem kept_delete {st : ServiceState σ D} (h : st.registry.Kept) :
    (svc.delete amb call st).state.registry.Kept ∧
      CountersLe st.registry (svc.delete amb call st).state.registry := by
  rw [Service.delete]
  rcases svc.compactMode amb call st with message | mode
  · exact ⟨h, .of_eq fun _ => rfl⟩
  · have hloop := @kept_eraseAll D σ svc amb call call.extIds call.extIds_normal
      (Service.Batch.start st (svc.adaptCompact amb call st).2) h
    dsimp only
    rcases heq : Service.eraseAll svc amb call call.extIds
      (Service.Batch.start st (svc.adaptCompact amb call st).2) with ⟨_ | e, b⟩
    · rw [heq] at hloop
      rw [(Service.conclude_frame mode st.policy b).2]
      exact hloop
    · rw [heq] at hloop
      exact hloop

/-- An id that is not verified keeps its mapping. -/
theorem label?_unverified (hdrop : svc.dropMappings = true) {st : ServiceState σ D}
    {c e : String} {l : ℤ} (h : st.registry.label? c e = some l)
    (hspared : ∀ v ∈ (svc.delete amb call st).visits, v.verified = true →
      ¬ (c = strip call.collection ∧ v.ext = e)) :
    (svc.delete amb call st).state.registry.label? c e = some l := by
  obtain ⟨visited, b, hprogress, hvisits, hreg⟩ := Service.delete_progress svc amb call st
  rw [hvisits] at hspared
  rw [hreg, (hprogress.registry hdrop).label?, if_neg, h]
  rintro ⟨hc, he⟩
  obtain ⟨v, hv, rfl⟩ := List.mem_map.mp he
  obtain ⟨hv, hverified⟩ := List.mem_filter.mp hv
  exact hspared v hv hverified ⟨hc, rfl⟩

end Delete

/-! ## What survives -/

/-- **A durable property of registries**: it holds of the registry in memory while the process
runs, and of the one that the next process starts with, if one can start. -/
structure Durable (P : Registry → Prop) (s : Site D) : Prop where
  running : s.up = true → s.api.registry.Kept ∧ P s.api.registry
  next : s.torn = false →
    (startRegistry s.api.registryFile).Kept ∧ P (startRegistry s.api.registryFile)

/-- The property rests on what the dictionaries map. -/
def Stable (P : Registry → Prop) : Prop := ∀ reg reg', Same reg' reg → P reg → P reg'

/-- The request keeps the property. -/
def Keeps (H : Sha256) (cfg : NativeConfig D) (printable : Char → Bool) (P : Registry → Prop)
    (s : Site D) : Action D → Prop
  | .request request written =>
    s.api.registry.Kept → P s.api.registry →
      P (s.serve H cfg printable written request).2.api.registry
  | _ => True

variable {P : Registry → Prop}

/-- Every effect of a request keeps the registry consistent, and the counters only grow. -/
theorem Effect.kept {request : Request D} {reg : Registry}
    (heffect : Effect H cfg printable s request reg) (h : s.api.registry.Kept) :
    reg.Kept ∧ CountersLe s.api.registry reg := by
  rcases heffect with _ | body | body | ⟨amb, call, _⟩ | ⟨amb, call⟩
  · exact ⟨h, .of_eq fun _ => rfl⟩
  · exact kept_registerAll _ _ h
  · exact kept_registerAll _ _ h
  · exact kept_delete h
  · exact kept_delete h

/-- The step of `Kept`: one request, with any outcome of its write. -/
theorem kept_serve (written : Written) (request : Request D) (h : s.api.registry.Kept) :
    (s.serve H cfg printable written request).2.api.registry.Kept ∧
      CountersLe s.api.registry (s.serve H cfg printable written request).2.api.registry :=
  (serve_effect written s request).kept h

/-- A property is kept if whatever a request leaves of the registry has it. -/
theorem keeps_of_effect {action : Action D}
    (h : ∀ request written reg, action = .request request written → s.api.registry.Kept →
      P s.api.registry → Effect H cfg printable s request reg → P reg) :
    Keeps H cfg printable P s action := by
  rcases action with ⟨request, written⟩ | written | _ | ⟨world, policy⟩
  · intro hkept hp
    exact h request written _ rfl hkept hp (serve_effect written s request)
  · trivial
  · trivial
  · trivial

/-- The next process starts with what was saved. -/
theorem next_saved (hstable : Stable P) {reg : Registry} (hkept : reg.Kept) (h : P reg) :
    (startRegistry (some reg.save)).Kept ∧ P (startRegistry (some reg.save)) :=
  ⟨(same_load_save hkept).kept hkept, hstable _ _ (same_load_save hkept) h⟩

/-- What the next process starts with, after a write. -/
theorem next_leaves (hstable : Stable P) (written : Written) {torn : Bool} {old : Option Payload}
    (hold : torn = false → (startRegistry old).Kept ∧ P (startRegistry old)) {reg : Registry}
    (hkept : reg.Kept) (h : P reg) (htorn : written.tears torn = false) :
    (startRegistry (written.leaves old reg.save)).Kept ∧
      P (startRegistry (written.leaves old reg.save)) := by
  cases written with
  | whole => exact next_saved hstable hkept h
  | refused => exact hold htorn
  | cut => cases htorn

/-- A write that is refused or cut short cannot bring an older registry back. -/
theorem Durable.save (hstable : Stable P) (h : Durable P s) (hup : s.up = true)
    (written : Written) : Durable P (s.saveRegistry written) := by
  obtain ⟨hkept, hp⟩ := h.running hup
  refine ⟨h.running, fun htorn => ?_⟩
  have hnext := next_leaves hstable written h.next hkept hp htorn
  rcases written with _ | _ | _
  · exact hnext
  · exact hnext
  · exact hnext

/-- The step of `Durable`: a request, a crash or a start. -/
theorem Durable.step (hstable : Stable P) {action : Action D} (h : Durable P s)
    (hkeeps : Keeps H cfg printable P s action) (hstep : Step H cfg printable s action s') :
    Durable P s' := by
  rw [Step, Site.perform.eq_def] at hstep
  rcases action with ⟨request, written⟩ | written | _ | ⟨world, policy⟩
  · dsimp only at hstep
    split at hstep
    · rename_i hup
      obtain rfl := Option.some.inj hstep
      obtain ⟨hkept, hp⟩ := h.running hup
      obtain ⟨hkept', -⟩ := @kept_serve D _ H cfg printable s written request hkept
      refine ⟨fun _ => ⟨hkept', hkeeps hkept hp⟩, ?_⟩
      rw [(serve_file written s request).file, (serve_file written s request).torn]
      split
      · exact next_leaves hstable written h.next hkept' (hkeeps hkept hp)
      · exact h.next
    · cases hstep
  · dsimp only at hstep
    split at hstep
    · rename_i hup
      obtain rfl := Option.some.inj hstep
      exact ⟨by rintro ⟨⟩, (h.save hstable hup written).next⟩
    · cases hstep
  · obtain rfl := Option.some.inj hstep
    exact ⟨by rintro ⟨⟩, h.next⟩
  · dsimp only at hstep
    split at hstep
    · cases hstep
    · split at hstep
      · obtain rfl := Option.some.inj hstep
        exact h
      · rename_i htorn
        obtain rfl := Option.some.inj hstep
        have hnext := h.next (Bool.eq_false_iff.mpr htorn)
        exact ⟨fun _ => hnext, fun _ => hnext⟩

/-- What is durable stays so in a run whose every step keeps it in memory. -/
theorem Durable.run (hstable : Stable P) {actions : List (Action D)} (h : Durable P s)
    (hrun : Trace (Guarded (Keeps H cfg printable P) (Step H cfg printable)) s actions s') :
    Durable P s' :=
  hrun.invariant (fun _ _ _ hs ⟨hkeeps, hstep⟩ => hs.step hstable hkeeps hstep) h

/-! ## What was acknowledged -/

/-- Before the first start. -/
def Site.new (world : NativeWorld) (policy : CompactCoalescePolicy D) : Site D :=
  ⟨⟨.empty, world, none⟩, policy, false, false⟩

/-- No delete verifies the erasure of the id. -/
def Spares (H : Sha256) (cfg : NativeConfig D) (c e : String) (s : Site D) : Action D → Prop
  | .request (.enterpriseDelete amb path call) _ =>
    path = call.collection → s.api.world.store.live.isLoaded = true →
      ∀ v ∈ ((cfg.service H).delete amb call s.service).visits, v.verified = true →
        ¬ (c = strip call.collection ∧ v.ext = e)
  | .request (.internalDelete amb call) _ =>
    ∀ v ∈ ((cfg.service H).delete amb call s.service).visits, v.verified = true →
      ¬ (c = strip call.collection ∧ v.ext = e)
  | _ => True

/-- The id is not registered. -/
def Action.Omits (c e : String) : Action D → Prop
  | .request (.registerIds body) _ =>
    c = strip body.collection →
      e ∉ (askedLabels body.ids body.labels).map fun pair => strip pair.1
  | .request (.ingestVectors body) _ =>
    c = strip body.collection →
      e ∉ (askedLabels body.ids body.labels).map fun pair => strip pair.1
  | _ => True

/-- A label stays as long as no delete verifies the id and nothing registers it anew. -/
theorem keeps_mapped (hdrop : cfg.dropMappings = true) {c e : String} {l : ℤ} {action : Action D}
    (hspares : Spares H cfg c e s action) :
    Keeps H cfg printable (fun reg => reg.label? c e = some l) s action := by
  refine keeps_of_effect fun request written reg haction _ h heffect => ?_
  subst haction
  rcases heffect with _ | body | body | ⟨amb, call, hloaded⟩ | ⟨amb, call⟩
  · exact h
  · exact registerAll_keeps _ _ h
  · exact registerAll_keeps _ _ h
  · exact label?_unverified hdrop h (hspares rfl hloaded)
  · exact label?_unverified hdrop h hspares

/-- An unmapped id stays so as long as nothing registers it. -/
theorem keeps_unmapped {c e : String} {action : Action D} (homits : action.Omits c e) :
    Keeps H cfg printable (fun reg => reg.label? c e = none) s action := by
  refine keeps_of_effect fun request written reg haction _ h heffect => ?_
  subst haction
  rcases heffect with _ | body | body | ⟨amb, call, hloaded⟩ | ⟨amb, call⟩
  · exact h
  · exact registerAll_new _ _ h homits
  · exact registerAll_new _ _ h homits
  · exact Service.label?_delete h
  · exact Service.label?_delete h

/-- What the answer says holds of the registry that it leaves. -/
def Answer.Holds (request : Request D) (reg : Registry) (answer : Answer D) : Prop :=
  match request, answer with
  | .registerIds body, .mapping m => ∀ eid l, m.lookup eid = some l →
    reg.label? (strip body.collection) (strip eid) = some l
  | .ingestVectors body, .mapping m => ∀ eid l, m.lookup eid = some l →
    reg.label? (strip body.collection) (strip eid) = some l
  | .enterpriseDelete _ _ call, .receipt r => r.success = true →
    ∀ ext ∈ call.extIds, reg.label? (strip call.collection) ext = none
  | _, _ => False

/-- What the answer tells the caller holds of the registry that the request left. -/
theorem answer_holds (hdrop : cfg.dropMappings = true) {written : Written} {request : Request D}
    {answer : Answer D} (h : s.serve H cfg printable written request = (some answer, s')) :
    answer.Holds request s'.api.registry := by
  rcases request with body | body | ⟨amb, path, call⟩ | ⟨amb, call⟩ | ⟨world, policy⟩
  · have hregisters := @registers_registerIds printable (writeFails written s.api) body s.api
    rw [Site.serve] at h
    revert h hregisters
    rcases Unlearning.registerIds printable (writeFails written s.api) body s.api with
      ⟨e | response, api⟩
    · rintro ⟨⟩
    · rintro ⟨⟩ hregisters
      exact registerAll_mapping (hregisters.answered response rfl) (by rintro _ _ ⟨⟩)
  · have hregisters := @registers_ingestVectors D _ H printable cfg.retries
      (writeFails written s.api) body s.api
    rw [Site.serve] at h
    revert h hregisters
    rcases Unlearning.ingestVectors H D cfg.retries printable (writeFails written s.api) body
      s.api with ⟨e | response, api⟩
    · rintro ⟨⟩
    · rintro ⟨⟩ hregisters
      exact registerAll_mapping (hregisters.answered response rfl) (by rintro _ _ ⟨⟩)
  · rw [Site.serve] at h
    split at h
    · cases h
    split at h
    · cases h
    have hsucceeded := @Service.delete_succeeded _ _ _ (cfg.service H) amb call s.service
    dsimp only at h
    revert h hsucceeded
    rcases (cfg.service H).delete amb call s.service with ⟨e | receipt, state, visits⟩
    · rintro ⟨⟩
    · rintro ⟨⟩ hsucceeded hsuccess
      exact (hsucceeded hsuccess).2.2 hdrop
  · cases h
  · cases h

/-- On a machine without a registry file there is nothing to lose. -/
theorem durable_new (world : NativeWorld) (policy : CompactCoalescePolicy D) :
    Durable (fun _ => True) (Site.new world policy) :=
  ⟨by rintro ⟨⟩, fun _ => ⟨kept_empty, trivial⟩⟩

/-- The trivial property, for the consistency that `Durable` carries along. -/
theorem keeps_true (s : Site D) (action : Action D) :
    Keeps H cfg printable (fun _ => True) s action :=
  keeps_of_effect fun _ _ _ _ _ _ _ => trivial

/-- Right after the file was written. -/
theorem durable_written (hstable : Stable P) (hkept : s.api.registry.Kept)
    (hfile : s.api.registryFile = some s.api.registry.save) (h : P s.api.registry) :
    Durable P s :=
  ⟨fun _ => ⟨hkept, h⟩, fun _ => hfile ▸ next_saved hstable hkept h⟩

/-- A lookup is the same in two registries that save alike. -/
theorem stable_label (c e : String) (label : Option ℤ) :
    Stable fun reg => reg.label? c e = label := fun _ _ hsame h => (hsame.label c e).trans h

/-- A bound on the counters is the same in two registries that save alike. -/
theorem stable_countersLe (reg : Registry) : Stable (CountersLe reg) := fun _ _ hsame h =>
  h.trans (.of_eq hsame.nextLabel)

/-- No request lowers a counter. -/
theorem keeps_countersLe (reg : Registry) (action : Action D) :
    Keeps H cfg printable (CountersLe reg) s action :=
  keeps_of_effect fun _ _ _ _ hkept h heffect => h.trans (heffect.kept hkept).2

/-- **What is acknowledged survives.** Whatever requests, crashes, restarts and failed writes, cut
short ones too, come after a request that was answered and whose write of the file came through,
in every process that then runs: an id that was mapped has its label still, unless a delete has
verified its erasure in the meantime; an id that was not mapped, or was erased, is not mapped
unless it was registered; and a label that is allocated is above all labels that were mapped. -/
theorem acknowledged_survives (hdrop : cfg.dropMappings = true) {world : NativeWorld}
    {policy : CompactCoalescePolicy D} {before after : List (Action D)} {s₀ : Site D}
    {request : Request D} {answer : Answer D}
    (hbefore : Trace (Step H cfg printable) (Site.new world policy) before s₀)
    (hup : s₀.up = true) (hanswer : s₀.serve H cfg printable .whole request = (some answer, s))
    (hafter : Trace (Step H cfg printable) s after s') (hrunning : s'.up = true) :
    answer.Holds request s.api.registry ∧
      (∀ c e l, s.label? c e = some l →
        Trace (Guarded (Spares H cfg c e) (Step H cfg printable)) s after s' →
        s'.label? c e = some l) ∧
      (∀ c e, s.label? c e = none → (∀ action ∈ after, action.Omits c e) →
        s'.label? c e = none) ∧
      (∀ c e l, s.label? (strip c) e = some l → ∀ eid l' reg',
        s'.api.registry.register printable c eid none = (.ok l', reg') →
        s'.label? (strip c) (strip eid) = none → l < l') := by
  have hkept₀ : s₀.api.registry.Kept :=
    (((durable_new world policy).run (fun _ _ _ _ => trivial)
      (hbefore.guarded fun action _ s => keeps_true s action)).running hup).1
  have hkept := @kept_serve D _ H cfg printable s₀ .whole request hkept₀
  have hfile := (@serve_file D _ H cfg printable .whole s₀ request).file
  rw [hanswer] at hkept hfile
  refine ⟨answer_holds hdrop hanswer, fun c e l hl hspares => ?_, fun c e hnone homits => ?_,
    fun c e l hl eid l' reg' hreg hnew => ?_⟩
  · have hdurable := durable_written (stable_label c e (some l)) hkept.1 hfile hl
    exact ((hdurable.run (stable_label c e _) (hspares.mono fun s action s' hstep =>
      ⟨keeps_mapped hdrop hstep.1, hstep.2⟩)).running hrunning).2
  · have hdurable := durable_written (stable_label c e none) hkept.1 hfile hnone
    exact ((hdurable.run (stable_label c e _) (hafter.guarded fun action haction s =>
      keeps_unmapped (homits action haction))).running hrunning).2
  · have hdurable := durable_written (stable_countersLe s.api.registry) hkept.1 hfile
      (.of_eq fun _ => rfl)
    have hle := ((hdurable.run (stable_countersLe _) (hafter.guarded fun action _ s =>
      keeps_countersLe _ action)).running hrunning).2
    obtain ⟨n, hn, hlt⟩ := hkept.1.counter_gt hl
    obtain ⟨n', hn', hle'⟩ := hle _ n hn
    rw [register_none_ok hreg hnew, ensureCollection]
    dsimp only
    rw [Dict.lookup_setDefault_of_lookup hn', Option.getD_some]
    omega

end Api

/-! ## A crash after a registration -/

theorem docs_ne : "docs" ≠ "" := by decide

/-- `{"collection": "docs", "ids": [eid]}` -/
def registerOne (eid : String) : Request ℚ :=
  .registerIds ⟨"docs", [eid], none, docs_ne, List.cons_ne_nil _ _⟩

/-- The process comes up, with the index of three rows. -/
def startThree : Action ℚ := .start NativeConfig.threeRows Service.twoUsers.policy

/-- The first process. -/
def started : Site ℚ :=
  ⟨⟨startRegistry none, NativeConfig.threeRows, none⟩, Service.twoUsers.policy, true, false⟩

/-- The site after a registration. -/
def registered (s : Site ℚ) (written : Written) (eid : String) : Site ℚ :=
  (s.serve .hashlib NativeConfig.sidecar (fun _ => true) written (registerOne eid)).2

/-- A process on the file that is there. -/
def restart (s : Site ℚ) : Site ℚ :=
  ⟨⟨startRegistry s.api.registryFile, NativeConfig.threeRows, s.api.registryFile⟩,
    Service.twoUsers.policy, true, false⟩

/-- A second id is registered and not written, and the process crashes. In the next one a third id
cuts the file short, and the end of `lifespan` writes it anew. -/
def afterRegistered : List (Action ℚ) :=
  [.request (registerOne "b") .refused, .crash, startThree, .request (registerOne "c") .cut,
    .shutdown .whole, startThree]

/-- The second process, with the file cut short. -/
def cutShort : Site ℚ :=
  registered (restart (registered (registered started .whole " a ") .refused "b")) .cut "c"

/-- The third process. -/
def restarted : Site ℚ := restart (cutShort.saveRegistry .whole)

/-- The id that was registered keeps its label, and no other one gets it. -/
theorem acknowledged_survives_crash :
    restarted.label? "docs" "a" = some 0 ∧
      ∀ eid l' reg', restarted.api.registry.register (fun _ => true) "docs" eid none =
        (.ok l', reg') → restarted.label? "docs" (strip eid) = none → 0 < l' := by
  have hbefore : Trace (Step .hashlib NativeConfig.sidecar fun _ => true)
      (Site.new NativeConfig.threeRows Service.twoUsers.policy) [startThree] started := .single rfl
  have hcut : cutShort.up = true := serve_up ..
  have hshutdown : Step .hashlib NativeConfig.sidecar (fun _ => true) cutShort (.shutdown .whole)
      { cutShort.saveRegistry .whole with up := false } := if_pos hcut
  have hafter : Trace (Step .hashlib NativeConfig.sidecar fun _ => true)
      (registered started .whole " a ") afterRegistered restarted :=
    .cons rfl (.cons rfl (.cons rfl (.cons rfl (.cons hshutdown (.single rfl)))))
  have hanswer : (started.serve .hashlib NativeConfig.sidecar (fun _ => true) .whole
      (registerOne " a ")).1.isSome = true := rfl
  obtain ⟨answer, hanswer⟩ := Option.isSome_iff_exists.mp hanswer
  obtain ⟨-, hmapped, -, hfresh⟩ := acknowledged_survives rfl hbefore rfl
    (Prod.ext hanswer rfl) hafter rfl
  have hlabel : (registered started .whole " a ").label? "docs" "a" = some 0 := by decide +kernel
  have hspares : ∀ action ∈ afterRegistered, ∀ s,
      Spares .hashlib NativeConfig.sidecar "docs" "a" s action := by
    simp [afterRegistered, Spares, registerOne, startThree]
  exact ⟨hmapped "docs" "a" 0 hlabel (hafter.guarded hspares), hfresh "docs" "a" 0 hlabel⟩

end ApiRestarts

end Unlearning
