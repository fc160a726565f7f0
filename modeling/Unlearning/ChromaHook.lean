import Unlearning.DeleteOnce
import Unlearning.Trace

/-!
# The Chroma wrapper (`integrations/chroma_hook.py`)

`ChromaHardDeleteCollection` writes to a vector backend and to a Chroma collection, and deletes
by id in two steps: the hard erase of the batch, then Chroma's own delete. With `fail_closed`
the second step needs a receipt of success.

Chroma is a parameter, and so are the backend, its `add` and everything else that the erase
service talks to; each call may return or raise. The rows, documents and metadata that `add`
passes on are of a type `P`; the keyword arguments of Chroma's methods are left out.

* `Attempt`: what one `delete` by id did;
* `Final`: Chroma is not asked unless every id of the batch was verified, and an id that a call
  has verified is refused in every later one;
* `Residue`: what Chroma then still holds under the id;
* `chroma_delete_final`: both, in every run.
-/

namespace Unlearning

namespace ChromaHook

open PyText

/-- A Chroma collection. -/
structure Chroma (X P : Type) where
  add : List String → P → X → Except String Unit × X
  delete : List String → X → Except String Unit × X
  /-- `delete(where=...)` -/
  deleteWhere : X → Except String Unit × X

/-- `ChromaHardDeleteCollection` -/
structure Wrapper (σ D X P : Type) [PyFloat D] where
  collection : Chroma X P
  erase : Service σ D
  /-- the `add` of the backend of the erase service, on the registry and the backend -/
  backendAdd : Option (List String → P → String → ServiceState σ D →
    Except String Unit × ServiceState σ D)
  name : String
  failClosed : Bool

section Calls

variable {σ D X P : Type} [PyFloat D]

/-- What one `delete` by id did. -/
structure Attempt (σ D : Type) [PyFloat D] where
  ids : List String
  deletion : Service.Deletion σ D
  /-- whether Chroma's `delete` was called -/
  asked : Bool
  /-- the exception of the call -/
  raised : Option String

/-- The service, Chroma, and the deletes attempted so far. -/
structure World (σ D X : Type) [PyFloat D] where
  service : ServiceState σ D
  chroma : X
  attempts : List (Attempt σ D)

/-- `register`, id by id. -/
def registerIds (printable : Char → Bool) (name : String) :
    List String → Registry → Except String Unit × Registry
  | [], reg => (.ok (), reg)
  | ext :: rest, reg =>
    match reg.register printable name ext none with
    | (.error e, reg) => (.error (e.text printable), reg)
    | (.ok _, reg) => registerIds printable name rest reg

/-- The first half of `add`; without embeddings, or a backend to write them to, only the ids
are registered. -/
def Wrapper.register (wr : Wrapper σ D X P) (printable : Char → Bool) (ids : List String)
    (embeddings : Option P) (st : ServiceState σ D) : Except String Unit × ServiceState σ D :=
  match embeddings, wr.backendAdd with
  | some rows, some backendAdd => backendAdd ids rows wr.name st
  | _, _ =>
    let registered := registerIds printable wr.name ids st.registry
    (registered.1, { st with registry := registered.2 })

/-- `add` -/
def Wrapper.add (wr : Wrapper σ D X P) (printable : Char → Bool) (ids : List String)
    (embeddings : Option P) (rows : P) (w : World σ D X) : Except String Unit × World σ D X :=
  match wr.register printable ids embeddings w.service with
  | (.error e, st) => (.error e, { w with service := st })
  | (.ok _, st) =>
    let added := wr.collection.add ids rows w.chroma
    (added.1, { w with service := st, chroma := added.2 })

/-- The arguments of `delete` beside the ids. -/
structure DeleteArgs where
  reason : Option String
  requestId : Option String
  maxM : ℤ
  compact : Option CompactArg
  residualProof : Option ProofMode

/-- The call of the erase service. -/
def Wrapper.call (wr : Wrapper σ D X P) (ids : List String) (args : DeleteArgs) : DeleteCall where
  collection := wr.name
  ids := ids
  reason := args.reason
  requestId := args.requestId
  maxM := args.maxM
  idempotent := true
  compact := args.compact
  residualProof := args.residualProof
  checkpointPath := none

/-- The refusal of `fail_closed`; the text of the errors is that of their `repr`. -/
def refusal (errors : List String → String) (receipt : ErasureReceipt D) : String :=
  "hard erase failed; refusing Chroma soft-delete to avoid residual vectors: status=" ++
    receipt.status.text ++ " errors=" ++ errors receipt.errors

/-- `delete` with ids -/
def Wrapper.deleteIds (wr : Wrapper σ D X P) (errors : List String → String) (amb : Ambient σ D)
    (ids : List String) (args : DeleteArgs) (w : World σ D X) : World σ D X :=
  let d := wr.erase.delete amb (wr.call ids args) w.service
  match d.result with
  | .error e =>
    ⟨d.state, w.chroma, w.attempts ++ [⟨ids, d, false, some (e.text amb.printable)⟩]⟩
  | .ok receipt =>
    if !receipt.success && wr.failClosed then
      ⟨d.state, w.chroma, w.attempts ++ [⟨ids, d, false, some (refusal errors receipt)⟩]⟩
    else
      let deleted := wr.collection.delete ids w.chroma
      ⟨d.state, deleted.2, w.attempts ++ [⟨ids, d, true,
        match deleted.1 with
        | .ok _ => none
        | .error e => some e⟩]⟩

/-- `delete`; without ids the filter goes to Chroma as it is. -/
def Wrapper.delete (wr : Wrapper σ D X P) (errors : List String → String) (amb : Ambient σ D)
    (ids : List String) (args : DeleteArgs) (w : World σ D X) : World σ D X :=
  if ids = [] then { w with chroma := (wr.collection.deleteWhere w.chroma).2 }
  else wr.deleteIds errors amb ids args w

/-! ## Runs -/

/-- A call of the wrapper, with what it is given. -/
inductive Call (σ D P : Type) [PyFloat D] : Type where
  | add (printable : Char → Bool) (ids : List String) (embeddings : Option P) (rows : P)
  | delete (amb : Ambient σ D) (ids : List String) (args : DeleteArgs)
  /-- anything else that happens to the registry and the backend -/
  | other (st : ServiceState σ D)

/-- What a call leaves of the world. -/
def Wrapper.perform (wr : Wrapper σ D X P) (errors : List String → String) (w : World σ D X) :
    Call σ D P → World σ D X
  | .add printable ids embeddings rows => (wr.add printable ids embeddings rows w).2
  | .delete amb ids args => wr.delete errors amb ids args w
  | .other st => { w with service := st }

/-- One step of a run. -/
def Step (wr : Wrapper σ D X P) (errors : List String → String) (w : World σ D X)
    (call : Call σ D P) (w' : World σ D X) : Prop :=
  wr.perform errors w call = w'

/-- The id of the collection is not mapped. -/
def Unmapped (wr : Wrapper σ D X P) (ext : String) (w : World σ D X) : Prop :=
  w.service.registry.label? (strip wr.name) ext = none

/-- Chroma is asked only where every id of the batch was verified and its mapping dropped. -/
def Attempt.Closed (wr : Wrapper σ D X P) (a : Attempt σ D) : Prop :=
  a.asked = true → a.deletion.visits.map Visit.ext = batchIds a.ids ∧
    (∀ v ∈ a.deletion.visits, v.verified = true) ∧
    (wr.erase.dropMappings = true → ∀ ext ∈ batchIds a.ids,
      a.deletion.state.registry.label? (strip wr.name) ext = none)

/-- The call has erased the id and verified it. -/
def Attempt.Verifies (a : Attempt σ D) (ext : String) : Prop :=
  ∃ v ∈ a.deletion.visits, v.ext = ext ∧ v.verified = true

/-- An attempted delete has verified the erasure of the id. -/
def World.Verified (ext : String) (w : World σ D X) : Prop :=
  ∃ a ∈ w.attempts, a.Verifies ext

/-- An id that was verified is not mapped again. -/
def KeepsUnmapped (wr : Wrapper σ D X P) (errors : List String → String) (ext : String)
    (w : World σ D X) (call : Call σ D P) : Prop :=
  w.Verified ext → Unmapped wr ext w → Unmapped wr ext (wr.perform errors w call)

/-- Chroma was not asked, and the call raised. -/
def Attempt.Refused (a : Attempt σ D) : Prop := a.asked = false ∧ a.raised.isSome = true

variable {wr : Wrapper σ D X P} {errors : List String → String} {w w' : World σ D X}

/-- **One `delete` by id**, where it fails closed. -/
theorem deleteIds_cases (hclosed : wr.failClosed = true) (amb : Ambient σ D) (ids : List String)
    (args : DeleteArgs) (w : World σ D X) :
    let d := wr.erase.delete amb (wr.call ids args) w.service
    ∃ asked raised, wr.deleteIds errors amb ids args w =
        ⟨d.state, if asked then (wr.collection.delete ids w.chroma).2 else w.chroma,
          w.attempts ++ [⟨ids, d, asked, raised⟩]⟩ ∧
      (asked = true → d.succeeded = true) ∧ (d.succeeded = false → raised.isSome = true) := by
  intro d
  rw [Wrapper.deleteIds]
  rcases hresult : d.result with e | receipt
  · exact ⟨false, some (e.text amb.printable), rfl, by simp, fun _ => rfl⟩
  · have hsucceeded : d.succeeded = receipt.success := by
      rw [Service.Deletion.succeeded, hresult]
    dsimp only
    rcases hsuccess : receipt.success with _ | _
    · rw [hclosed]
      exact ⟨false, some (refusal errors receipt), rfl, by simp, fun _ => rfl⟩
    · refine ⟨true, _, rfl, fun _ => hsucceeded.trans hsuccess, fun h => ?_⟩
      rw [hsucceeded, hsuccess] at h
      cases h

/-- A batch with an id that is not mapped does not reach Chroma. -/
theorem refused_of_unmapped (hclosed : wr.failClosed = true) {ext : String}
    (h : Unmapped wr ext w) (amb : Ambient σ D) {ids : List String} (args : DeleteArgs)
    (hext : ext ∈ batchIds ids) :
    ∃ raised : String, wr.deleteIds errors amb ids args w =
      ⟨(wr.erase.delete amb (wr.call ids args) w.service).state, w.chroma, w.attempts ++
        [⟨ids, wr.erase.delete amb (wr.call ids args) w.service, false, some raised⟩]⟩ := by
  obtain ⟨asked, raised, heq, hasked, hraised⟩ := deleteIds_cases hclosed amb ids args w
  have hfailed : (wr.erase.delete amb (wr.call ids args) w.service).succeeded = false :=
    Service.not_succeeded_of_unmapped hext h
  rcases asked with _ | _
  · obtain ⟨text, rfl⟩ := Option.isSome_iff_exists.mp (hraised hfailed)
    exact ⟨text, heq⟩
  · rw [hasked rfl] at hfailed
    cases hfailed

/-- The invariant of the attempts of a run. -/
structure Final (wr : Wrapper σ D X P) (ext : String) (w : World σ D X) : Prop where
  closed : ∀ a ∈ w.attempts, a.Closed wr
  refused : w.attempts.Pairwise fun a a' =>
    a.Verifies ext → ext ∈ batchIds a'.ids → a'.Refused
  unmapped : w.Verified ext → Unmapped wr ext w

/-- A delete cannot reach Chroma with an id that an earlier one has verified. -/
theorem Final.deleteIds (hclosed : wr.failClosed = true) (hdrop : wr.erase.dropMappings = true)
    {ext : String} (h : Final wr ext w) (amb : Ambient σ D) (ids : List String)
    (args : DeleteArgs) : Final wr ext (wr.deleteIds errors amb ids args w) := by
  obtain ⟨asked, raised, heq, hasked, -⟩ := deleteIds_cases hclosed amb ids args w
  rw [heq]
  refine ⟨fun a ha => ?_,
    List.pairwise_append.mpr ⟨h.refused, List.pairwise_singleton _ _, ?_⟩, ?_⟩
  · rcases List.mem_append.mp ha with hbefore | hnow
    · exact h.closed a hbefore
    · rw [List.mem_singleton.mp hnow]
      intro h
      obtain ⟨hvisited, hverified, hdropped⟩ := Service.delete_succeeded (hasked h)
      exact ⟨hvisited, fun v hv => (hverified v hv).1, hdropped⟩
  · intro a ha a' ha' hverifies hext
    rw [List.mem_singleton.mp ha'] at hext ⊢
    -- the id was unmapped before the call
    have hrefused := @refused_of_unmapped _ _ _ _ _ wr errors w hclosed ext
      (h.unmapped ⟨a, ha, hverifies⟩) amb ids args hext
    rw [heq] at hrefused
    obtain ⟨text, hrefused⟩ := hrefused
    have hlast := List.append_cancel_left (congrArg World.attempts hrefused)
    obtain ⟨-, -, rfl, rfl⟩ := (Attempt.mk.injEq ..).mp (List.cons.inj hlast).1
    exact ⟨rfl, rfl⟩
  · rintro ⟨a, ha, hverifies⟩
    rcases List.mem_append.mp ha with hbefore | hnow
    · exact Service.label?_delete (h.unmapped ⟨a, hbefore, hverifies⟩)
    · rw [List.mem_singleton.mp hnow] at hverifies
      obtain ⟨v, hv, rfl, hverified⟩ := hverifies
      exact Service.label?_of_verified hdrop hv hverified

/-- An add attempts no delete. -/
theorem add_attempts (printable : Char → Bool) (ids : List String) (embeddings : Option P)
    (rows : P) (w : World σ D X) :
    (wr.add printable ids embeddings rows w).2.attempts = w.attempts := by
  rw [Wrapper.add]
  split <;> rfl

/-- A step that makes no attempt. -/
theorem Final.kept {ext : String} (h : Final wr ext w) (hattempts : w'.attempts = w.attempts)
    (hkeeps : w.Verified ext → Unmapped wr ext w → Unmapped wr ext w') : Final wr ext w' where
  closed := hattempts ▸ h.closed
  refused := hattempts ▸ h.refused
  unmapped hverified := by
    rw [World.Verified, hattempts] at hverified
    exact hkeeps hverified (h.unmapped hverified)

/-- The step of `Final`: an add, a delete by id or a filtered one. -/
theorem Final.step (hclosed : wr.failClosed = true) (hdrop : wr.erase.dropMappings = true)
    {ext : String} {call : Call σ D P} (h : Final wr ext w)
    (hkeeps : KeepsUnmapped wr errors ext w call) :
    Final wr ext (wr.perform errors w call) := by
  rcases call with ⟨printable, ids, embeddings, rows⟩ | ⟨amb, ids, args⟩ | st
  · exact h.kept (add_attempts printable ids embeddings rows w) hkeeps
  · rw [Wrapper.perform, Wrapper.delete]
    by_cases hids : ids = []
    · rw [if_pos hids]
      exact h.kept rfl fun _ => id
    · rw [if_neg hids]
      exact h.deleteIds hclosed hdrop amb ids args
  · exact h.kept rfl hkeeps

/-- Once verified, an id is never again in a batch that reaches Chroma. -/
theorem Final.run (hclosed : wr.failClosed = true) (hdrop : wr.erase.dropMappings = true)
    {ext : String} {calls : List (Call σ D P)}
    (h : Trace (Guarded (KeepsUnmapped wr errors ext) (Step wr errors)) w calls w')
    (hfinal : Final wr ext w) : Final wr ext w' :=
  h.invariant (fun _ _ _ hw ⟨hkeeps, hstep⟩ => hstep ▸ hw.step hclosed hdrop hkeeps) hfinal

/-! ## What Chroma is left with -/

/-- What Chroma holds under an id, an `add` leaves alone, and a `delete` of other ids too. -/
structure Chroma.Keeps (chroma : Chroma X P) (held : X → Prop) (id : String) : Prop where
  add : ∀ ids rows x, held x → held (chroma.add ids rows x).2
  delete : ∀ ids x, id ∉ ids → held x → held (chroma.delete ids x).2

/-- The call is no filter-only delete. -/
def Call.ById : Call σ D P → Prop
  | .delete _ ids _ => ids ≠ []
  | _ => True

/-- The residue of an id that is erased and not registered anew. -/
structure Residue (wr : Wrapper σ D X P) (ext : String) (held : X → Prop) (w : World σ D X) :
    Prop where
  verified : w.Verified ext
  unmapped : Unmapped wr ext w
  held : held w.chroma

/-- The step of `Residue`: what Chroma holds under the id stays, since no call for it gets through.
-/
theorem Residue.step (hclosed : wr.failClosed = true) {ext id : String} {held : X → Prop}
    (hid : strip id = ext) (hne : ext ≠ "") (hlaw : wr.collection.Keeps held id)
    {call : Call σ D P} (h : Residue wr ext held w) (hbyId : call.ById)
    (hkeeps : KeepsUnmapped wr errors ext w call) :
    Residue wr ext held (wr.perform errors w call) := by
  have hunmapped := hkeeps h.verified h.unmapped
  rcases call with ⟨printable, ids, embeddings, rows⟩ | ⟨amb, ids, args⟩ | st
  · refine ⟨?_, hunmapped, ?_⟩
    · rw [World.Verified, Wrapper.perform, add_attempts]
      exact h.verified
    · rw [Wrapper.perform, Wrapper.add]
      split
      · exact h.held
      · exact hlaw.add ids rows w.chroma h.held
  · obtain ⟨a, ha, hverifies⟩ := h.verified
    rw [Wrapper.perform, Wrapper.delete, if_neg hbyId] at hunmapped ⊢
    by_cases hmem : id ∈ ids
    · -- the batch has the id, and is refused
      have hext : ext ∈ batchIds ids :=
        List.mem_filter.mpr ⟨List.mem_map.mpr ⟨id, hmem, hid⟩, decide_eq_true hne⟩
      obtain ⟨text, heq⟩ := @refused_of_unmapped _ _ _ _ _ wr errors w hclosed ext h.unmapped
        amb ids args hext
      rw [heq] at hunmapped ⊢
      exact ⟨⟨a, List.mem_append_left _ ha, hverifies⟩, hunmapped, h.held⟩
    · obtain ⟨asked, raised, heq, -, -⟩ := deleteIds_cases hclosed amb ids args w
      rw [heq] at hunmapped ⊢
      refine ⟨⟨a, List.mem_append_left _ ha, hverifies⟩, hunmapped, ?_⟩
      rcases asked with _ | _
      · exact h.held
      · exact hlaw.delete ids w.chroma hmem h.held
  · exact ⟨h.verified, hunmapped, h.held⟩

/-- What a raising Chroma delete left behind is there after every further call. -/
theorem Residue.run (hclosed : wr.failClosed = true) {ext id : String} {held : X → Prop}
    (hid : strip id = ext) (hne : ext ≠ "") (hlaw : wr.collection.Keeps held id)
    {calls : List (Call σ D P)}
    (h : Trace (Guarded (KeepsUnmapped wr errors ext) (Step wr errors)) w calls w')
    (hbyId : ∀ call ∈ calls, call.ById) (hresidue : Residue wr ext held w) :
    Residue wr ext held w' := by
  induction h with
  | nil w => exact hresidue
  | cons hstep _ ih =>
    obtain ⟨hkeeps, rfl⟩ := hstep
    exact ih (fun call hcall => hbyId call (List.mem_cons_of_mem _ hcall))
      (hresidue.step hclosed hid hne hlaw (hbyId _ List.mem_cons_self) hkeeps)

end Calls

/-! ## A delete of Chroma that raises -/

/-- A list of ids; the next `delete` raises where the flag is set. -/
def listChroma : Chroma (Bool × List String) Unit where
  add ids _ x := (.ok (), x.1, x.2 ++ ids)
  delete ids x :=
    if x.1 then (.error "database is locked", false, x.2)
    else (.ok (), false, x.2.filter fun id => id ∉ ids)
  deleteWhere x := (.ok (), x)

/-- The wrapper over a list of erased labels and a list of Chroma ids. -/
def listWrapper : Wrapper (List ℤ) ℚ (Bool × List String) Unit where
  collection := listChroma
  erase := Service.listService fun _ => []
  backendAdd := none
  name := "users"
  failClosed := true

/-- No id is registered, and Chroma does not raise. -/
def noUsers : World (List ℤ) ℚ (Bool × List String) :=
  ⟨{ Service.twoUsers with registry := .empty }, (true, []), []⟩

/-- The world after some calls. -/
def after (calls : List (Call (List ℤ) ℚ Unit)) : World (List ℤ) ℚ (Bool × List String) :=
  calls.foldl (listWrapper.perform fun _ => "[...]") noUsers

end ChromaHook

end Unlearning
