import Unlearning.Durability
import Unlearning.Frame
import Unlearning.Retries

/-!
# Collections on one native index (`integrations/native_backend.py`)

`NativeHealerBackend` drops the collection: every collection of a process is
served by the one native index, and a label is a row of it whatever collection
it was registered in. Labels are allocated per collection, from zero.

* `nativeBackend` and `durableEngine`: the native index and the persistence
  engine of `Persistence` as a backend;
* `NativeConfig.delete_keeps_vector`: a call changes no vector of an id that is
  still registered, was not requested and does not share its label with a
  requested id of another collection. Two collections do share labels
  (`NativeConfig.delete_erases_other_collection`).
-/

namespace Unlearning

open PyText FloatArith PyFloat

/-! ## The native index as a backend -/

/-- The process: its store, and what the environment decides from now on. -/
structure NativeWorld where
  store : Store
  envs : ℕ → Env

/-- The world after one native call that leaves `s`. -/
def NativeWorld.tick (w : NativeWorld) (s : Store) : NativeWorld := ⟨s, fun t => w.envs (t + 1)⟩

/-- `get_vector` of the default index, through the binding. -/
def nativeGetVector (label : ℤ) (w : NativeWorld) : Except PyError (List UInt32) × NativeWorld :=
  if !bindable label 0 then (.error .typeError, w.tick w.store)
  else match w.store.live.getVector (w.envs 0).native label with
    | .error e => (.error (.native e), w.tick w.store)
    | .ok vec => (.ok vec, w.tick w.store)

section Native

variable (H : Sha256) (D : Type) [PyFloat D] (retries : ℕ) (shown : PyError → String)

/-- `NativeHealerBackend`; the collection is not used. -/
def nativeBackend : Backend NativeWorld D where
  hardDeleteLabel _ label maxM w :=
    match execErase D label maxM (w.envs 0) w.store with
    | (.ok r, s) => (.ok ⟨r.success, r.bytesWiped, some r.message⟩, w.tick s)
    | (.error e, s) => (.error (shown e), w.tick s)
  verifyZeroed _ label w := match nativeGetVector label w with
    | (.ok vec, w) => (.ok (vec.all fun x => eq (ofFloat32 x : D) (ofInt 0)), w)
    | (.error e, w) => (.error (shown e), w)
  getVector := some fun label w => match nativeGetVector label w with
    | (.ok vec, w) => (.ok (vec.map ofFloat32), w)
    | (.error e, w) => (.error (shown e), w)
  compact := none
  vectorRows := none
  healMirror := false

/-- The persistence engine, one call at a time. -/
def durableEngine : Durable NativeWorld where
  hardDeleteAndHeal := some fun label maxM w =>
    match (hardDeleteAndHeal retries label maxM).finish (machine H D) 0 w.envs w.store with
    | some (.ok r, s, envs) =>
      (.ok ⟨r.success, r.bytesWiped, r.message, some r.transactionId⟩, ⟨s, envs⟩)
    | some (.error e, s, envs) => (.error (shown e), ⟨s, envs⟩)
    -- not reached: between calls the lock is free
    | none => (.error "blocked", w)

end Native

/-- How the process configures its service: the texts of exceptions, whether it
has an engine, and the service's own settings. -/
structure NativeConfig (D : Type) where
  retries : ℕ
  shown : PyError → String
  durable : Bool
  dropMappings : Bool
  defaultCompact : CompactMode
  defaultResidualProof : Option ProofMode
  receiptLog : Option (ErasureReceipt D → Option LogFailure)
  signingKey : List UInt8

/-- `ErasureService(registry, NativeHealerBackend(), …)` -/
def NativeConfig.service {D : Type} [PyFloat D] (H : Sha256) (cfg : NativeConfig D) :
    Service NativeWorld D where
  backend := nativeBackend D cfg.shown
  persistence := if cfg.durable then some (durableEngine H D cfg.retries cfg.shown) else none
  dropMappings := cfg.dropMappings
  defaultCompact := cfg.defaultCompact
  defaultResidualProof := cfg.defaultResidualProof
  receiptLog := cfg.receiptLog.map fun append receipt w => (append receipt, w)
  signingKey := cfg.signingKey

/-! ### The lock is free between calls -/

section Lock

variable {H : Sha256} {D : Type} [FloatArith D] {i : ℕ}

open Prog Store

/-- The operations on the lock. -/
def Op.isLock : Op → Bool
  | .acquireIo => true
  | .releaseIo => true
  | _ => false

/-- No other operation is blocked or touches the lock. -/
theorem exec_lock {o : Op} (ho : o.isLock = false) (env : Env) (s : Store) :
    ∃ r s', exec H D i o env s = some (r, s') ∧ s'.ioLock = s.ioLock := by
  have hsome : (exec H D i o env s).isSome = true := by
    cases o with
    | acquireIo => cases ho
    | unlinkTmp =>
      simp only [exec]
      split <;> rfl
    | _ => rfl
  obtain ⟨⟨r, s'⟩, h⟩ := Option.isSome_iff_exists.mp hsome
  refine ⟨r, s', h, ?_⟩
  cases exec_effect h with
  | acquired => cases ho
  | released => cases ho
  | none | begun | counted | committed | erased | written | published | loaded => rfl

/-- The program ends, with the lock as it was. -/
abbrev KeepsLock {α : Type} (H : Sha256) (D : Type) [FloatArith D] (i : ℕ) (p : Method α)
    (s : Store) : Prop :=
  Finishes (machine H D) i (fun _ => True) p (fun _ s' => s'.ioLock = s.ioLock) s

theorem keepsLock_perform {o : Op} (ho : o.isLock = false) (s : Store) :
    KeepsLock H D i (perform o) s := by
  refine finishes_call fun env _ => ?_
  obtain ⟨r, s', heq, hlock⟩ := exec_lock (H := H) (D := D) (i := i) ho env s
  exact ⟨r, s', heq, hlock⟩

theorem keepsLock_bind {α β : Type} {p : Method α} {f : α → Method β} {s : Store}
    (hp : KeepsLock H D i p s) (hf : ∀ a s', s'.ioLock = s.ioLock → KeepsLock H D i (f a) s') :
    KeepsLock H D i (p >>= f) s := by
  refine finishes_bind (finishes_mono ?_ hp)
  rintro (e | a) s' hs'
  · exact hs'
  · exact finishes_mono (fun _ _ h => h.trans hs') (hf a s' hs')

theorem keepsLock_lockRetry {α : Type} {p : Method α} (hp : ∀ s, KeepsLock H D i p s) (k : ℕ)
    (s : Store) : KeepsLock H D i (lockRetry k p) s := by
  induction k generalizing s with
  | zero => exact hp s
  | succ k ih =>
    rw [lockRetry]
    refine keepsLock_bind (finishes_attempt (finishes_mono (fun _ _ h => h) (hp s))) ?_
    rintro (e | a) s' -
    · show Finishes _ _ _ (if e.isContention = true then lockRetry k p else raise e) _ s'
      split
      · exact ih s'
      · exact rfl
    · exact rfl

theorem keepsLock_flushLocked (k : ℕ) (s : Store) : KeepsLock H D i (flushLocked k) s := by
  rw [flushLocked]
  refine keepsLock_bind (keepsLock_perform rfl s) fun _ s₁ _ => ?_
  refine keepsLock_bind (keepsLock_lockRetry (keepsLock_perform rfl) k s₁) fun _ s₂ _ => ?_
  refine keepsLock_bind (keepsLock_perform rfl s₂) fun _ s₃ _ => ?_
  exact keepsLock_perform rfl s₃

/-- The flush takes the free lock and gives it back. -/
theorem keepsLock_atomicFlushIndex (k : ℕ) {s : Store} (hs : s.ioLock = none) :
    KeepsLock H D i (atomicFlushIndex k) s := by
  rw [atomicFlushIndex, cleanup]
  refine finishes_bind (finishes_call fun env _ => ⟨.ok (), { s with ioLock := some i }, ?_, ?_⟩)
  · simp only [machine, exec, hs]
    rfl
  refine finishes_bind (finishes_attempt (finishes_mono ?_ (keepsLock_flushLocked k _)))
  rintro r s₁ -
  refine finishes_bind (finishes_call fun env _ => ⟨.ok (), { s₁ with ioLock := none }, rfl, ?_⟩)
  cases r with
  | ok a => exact hs.symm
  | error e => exact hs.symm

/-- **A call of the engine returns or raises**, if the lock is free, and it is free
again. -/
theorem keepsLock_hardDeleteAndHeal (k : ℕ) (nodeId maxM : ℤ) {s : Store} (hs : s.ioLock = none) :
    KeepsLock H D i (hardDeleteAndHeal k nodeId maxM) s := by
  rw [hardDeleteAndHeal]
  refine keepsLock_bind (keepsLock_perform rfl s) fun b s₁ h₁ => ?_
  refine keepsLock_bind ?_ fun _ _ _ => rfl
  rw [eraseAndCommit]
  refine keepsLock_bind (keepsLock_lockRetry (keepsLock_perform rfl) k s₁) fun r s₂ h₂ => ?_
  split
  · exact rfl
  · refine keepsLock_bind (keepsLock_atomicFlushIndex k (h₂.trans (h₁.trans hs))) fun _ s₃ _ => ?_
    exact keepsLock_bind (keepsLock_perform rfl s₃) fun _ _ _ => rfl

/-- Between calls the lock is free, so no call of the engine is blocked. -/
theorem finish_hardDeleteAndHeal (k : ℕ) (nodeId maxM : ℤ) {w : NativeWorld}
    (hw : w.store.ioLock = none) :
    ∃ r s envs, (hardDeleteAndHeal k nodeId maxM).finish (machine H D) i w.envs w.store =
      some (r, s, envs) ∧ s.ioLock = none := by
  have hkeeps : KeepsLock H D i (hardDeleteAndHeal k nodeId maxM) w.store :=
    keepsLock_hardDeleteAndHeal k nodeId maxM hw
  obtain ⟨r, s, envs, hend, hlock⟩ := finish_of_finishes hkeeps w.envs
  exact ⟨r, s, envs, hend, hlock.trans hw⟩

end Lock

/-! ### What a native call leaves alone -/

/-- The vector of label `l` is as it was. -/
structure Store.Spares (l : ℤ) (s s' : Store) : Prop where
  live : s.live.Shadows s'.live
  row : ∀ m : ℕ, (m : ℤ) = l → s'.live.row m = s.live.row m

namespace Store

open Prog

variable {l : ℤ}

theorem Spares.refl (s : Store) : Spares l s s := ⟨.refl _, fun _ _ => rfl⟩

theorem Spares.trans {a b c : Store} (h : Spares l a b) (h' : Spares l b c) : Spares l a c :=
  ⟨h.live.trans h'.live, fun m hm => (h'.row m hm).trans (h.row m hm)⟩

theorem Spares.of_live {s s' : Store} (h : s'.live = s.live) : Spares l s s' := by
  refine ⟨?_, fun m _ => ?_⟩
  · rw [h]
    exact .refl _
  · rw [h]

/-- `get_vector` sees no difference. -/
theorem Spares.getVector {s s' : Store} (h : Spares l s s') (env : NativeEnv) :
    s'.live.getVector env l = s.live.getVector env l := by
  have hnode : s'.live.ensureNode l = s.live.ensureNode l := by
    rw [Index.ensureNode, Index.ensureNode, h.live.isLoaded, h.live.numElements]
  rw [Index.getVector, Index.getVector, hnode]
  rcases hn : s.live.ensureNode l with e | ⟨⟩
  · rfl
  · have h0 : 0 ≤ l := by
      by_contra hneg
      rw [Index.ensureNode] at hn
      split at hn
      · cases hn
      · rw [if_pos (Or.inl (by omega))] at hn
        cases hn
    rw [h.row (asSize l) (by rw [Index.asSize_of_nonneg h0, Int.toNat_of_nonneg h0])]

/-- The operations that leave label `l` alone. -/
def SparingOp (l : ℤ) : Op → Prop
  | .eraseNode nodeId _ => nodeId ≠ l
  | .loadIndexFile => False
  | _ => True

variable {H : Sha256} {D : Type} [FloatArith D] {i : ℕ}

theorem spares_erase {nodeId : ℤ} (hne : nodeId ≠ l) (maxM : ℤ) (env : Env) (s : Store) :
    Spares l s (execErase D nodeId maxM env s).2 := by
  rcases heq : execErase D nodeId maxM env s with ⟨r, s'⟩
  obtain ⟨ix, rfl, hsh, hrows, -⟩ := execErase_cases heq
  refine ⟨hsh, fun m hm => hrows m (Or.inl ?_)⟩
  rw [hm]
  exact Ne.symm hne

theorem spares_exec {o : Op} (ho : SparingOp l o) {env : Env} {s s' : Store}
    {r : Except PyError (Res o)} (h : exec H D i o env s = some (r, s')) : Spares l s s' := by
  cases exec_effect h with
  | erased nodeId maxM s hlive hrows => exact ⟨hlive, fun m hm => hrows m (hm ▸ Ne.symm ho)⟩
  | loaded => exact ho.elim
  | none | begun | counted | committed | acquired | released | written | published =>
    exact .of_live rfl

theorem allOps_lockRetry {α : Type} {ok : Op → Prop} {p : Method α} (hp : AllOps ok p) (k : ℕ) :
    AllOps ok (lockRetry k p) := by
  induction k with
  | zero => exact hp
  | succ k ih =>
    rw [lockRetry]
    refine allOps_bind (allOps_attempt hp) ?_
    rintro (e | a)
    · show AllOps ok (if e.isContention = true then lockRetry k p else raise e)
      split
      · exact ih
      · trivial
    · trivial

theorem allOps_atomicFlushIndex (k : ℕ) : AllOps (SparingOp l) (atomicFlushIndex k) := by
  rw [atomicFlushIndex, flushLocked]
  refine allOps_bind (allOps_call trivial) fun _ => allOps_cleanup ?_ (allOps_call trivial)
  refine allOps_bind (allOps_call trivial) fun _ => ?_
  refine allOps_bind (allOps_lockRetry (allOps_call trivial) k) fun _ => ?_
  exact allOps_bind (allOps_call trivial) fun _ => allOps_call trivial

/-- A delete of another node leaves the label alone. -/
theorem allOps_hardDeleteAndHeal (k : ℕ) {nodeId : ℤ} (hne : nodeId ≠ l) (maxM : ℤ) :
    AllOps (SparingOp l) (hardDeleteAndHeal k nodeId maxM) := by
  rw [hardDeleteAndHeal]
  refine allOps_bind (allOps_call trivial) fun b => allOps_bind ?_ fun _ => trivial
  rw [eraseAndCommit]
  refine allOps_bind (allOps_lockRetry (allOps_call hne) k) fun r => ?_
  split
  · trivial
  · refine allOps_bind (allOps_atomicFlushIndex k) fun _ => ?_
    exact allOps_bind (allOps_call trivial) fun _ => trivial

end Store

/-! ## Deletes and other ids -/

namespace NativeConfig

variable {D : Type} [PyFloat D] {H : Sha256} {cfg : NativeConfig D} {l : ℤ}

/-- The vector of label `l` is as it was, in the world. -/
def SameVector (l : ℤ) (w w' : NativeWorld) : Prop := w.store.Spares l w'.store

theorem nativeGetVector_store (label : ℤ) (w : NativeWorld) :
    (nativeGetVector label w).2.store = w.store := by
  unfold nativeGetVector
  split
  · rfl
  · split <;> rfl

theorem unmoved_service : Service.Unmoved (cfg.service H) (SameVector l) where
  refl w := .refl w.store
  trans _ _ _ h h' := h.trans h'
  getVector f hf label w := by
    obtain rfl := Option.some.inj hf
    have hw := nativeGetVector_store label w
    simp only
    split
    · rename_i heq
      rw [heq] at hw
      exact .of_live (congrArg Store.live hw)
    · rename_i heq
      rw [heq] at hw
      exact .of_live (congrArg Store.live hw)
  verifyZeroed _ label w := by
    have hw := nativeGetVector_store label w
    simp only [service, nativeBackend]
    split
    · rename_i heq
      rw [heq] at hw
      exact .of_live (congrArg Store.live hw)
    · rename_i heq
      rw [heq] at hw
      exact .of_live (congrArg Store.live hw)
  compact f hf := by cases hf
  receiptLog f hf receipt w := by
    obtain ⟨append, -, rfl⟩ := Option.map_eq_some_iff.mp hf
    exact .refl w.store

/-- An erase of another label leaves the vector alone, with the engine or without. -/
theorem sameVector_eraseLabel {call : DeleteCall} {label : ℤ} (hne : label ≠ l) (w : NativeWorld) :
    SameVector l w ((cfg.service H).eraseLabel call label w).2 := by
  rcases hd : cfg.durable with _ | _
  · have hsp := Store.spares_erase (D := D) hne call.maxM (w.envs 0) w.store
    simp only [Service.eraseLabel, service, hd, Bool.false_eq_true, if_false, Option.bind_none,
      nativeBackend]
    rcases heq : execErase D label call.maxM (w.envs 0) w.store with ⟨e | r, s⟩
    all_goals
      rw [heq] at hsp
      exact hsp
  · simp only [Service.eraseLabel, service, hd, if_true, Option.bind_some, durableEngine]
    rcases heq : (hardDeleteAndHeal cfg.retries label call.maxM).finish (machine H D) 0 w.envs
      w.store with _ | ⟨e | r, s, envs⟩
    · exact .refl w.store
    all_goals
      exact Prog.finish_frame Store.Spares.refl (fun _ _ _ => Store.Spares.trans)
        (fun o env s r s' ho he => Store.spares_exec ho he)
        (Store.allOps_hardDeleteAndHeal cfg.retries hne call.maxM) heq

/-- **No collateral erasure within a collection.** For every registry that calls
of its interface built, over any number of collections, and every call of
`delete` on the one native index: `get_vector` is unchanged at the label of every
id that is still registered and was not requested — unless the id belongs to
another collection and a requested id has the same label. -/
theorem delete_keeps_vector (H : Sha256) (cfg : NativeConfig D) (printable : Char → Bool)
    (calls : List Registry.Call) (w : NativeWorld) (policy : CompactCoalescePolicy D)
    (amb : Ambient NativeWorld D) (call : DeleteCall) {coll ext : String} {label : ℤ}
    (hreg : ((cfg.service H).delete amb call
      (Service.stateOf printable calls w policy)).state.registry.label? coll ext = some label)
    (hnot : ¬ (coll = strip call.collection ∧ ext ∈ call.extIds))
    (hside : coll = strip call.collection ∨ ∀ e ∈ call.extIds,
      (Registry.run printable calls).label? (strip call.collection) e ≠ some label)
    (env : NativeEnv) :
    ((cfg.service H).delete amb call
      (Service.stateOf printable calls w policy)).state.outside.store.live.getVector env label =
        w.store.live.getVector env label := by
  have hcons : (Registry.run printable calls).Consistent := Registry.consistent_run calls
  -- what is registered after the call was registered before
  have hbefore : (Registry.run printable calls).label? coll ext = some label := by
    obtain ⟨visited, b, hp, -, hb⟩ :=
      Service.delete_progress (cfg.service H) amb call (Service.stateOf printable calls w policy)
    rw [hb] at hreg
    exact hp.shrinks coll ext label hreg
  refine Store.Spares.getVector (l := label) ?_ env
  refine Service.delete_outside (R := SameVector label) unmoved_service
    (Service.stateOf printable calls w policy) fun e he l hl o => ?_
  refine sameVector_eraseLabel (fun heq => ?_) o
  subst heq
  rcases hside with hcoll | hother
  · rw [hcoll] at hbefore
    exact hnot ⟨hcoll, hcons.injective hl hbefore ▸ he⟩
  · exact hother e he hl

/-- The service of a process with an engine. -/
def sidecar : NativeConfig ℚ where
  retries := 0
  shown _ := "error"
  durable := true
  dropMappings := true
  defaultCompact := .auto
  defaultResidualProof := none
  receiptLog := none
  signingKey := [0x6b]

/-- Three rows, checkpointed. -/
def threeRows : NativeWorld :=
  ⟨(World.fromCheckpoint Index.threeNodes).store, fun _ => World.calmEnv⟩

/-- A quiet environment of a delete. -/
def nativeAmbient : Ambient NativeWorld ℚ where
  environ _ := none
  printable _ := true
  uuid4 := "00000000-0000-4000-8000-000000000000"
  timeNs := 0
  noteTime := 0
  decideTime := 0
  pathText path := path
  file _ _ := none

/-- The service state over these rows, after the registrations. -/
def registered (calls : List Registry.Call) : ServiceState NativeWorld ℚ :=
  Service.stateOf (fun _ => true) calls threeRows Service.twoUsers.policy

/-- Two ids of one collection. -/
def annAndBob : List Registry.Call := [.register "users" "ann" none, .register "users" "bob" none]

/-- Two ids of two collections. -/
def annAndDoc : List Registry.Call := [.register "users" "ann" none, .register "docs" "doc" none]

theorem label?_annAndBob :
    ((sidecar.service .hashlib).delete nativeAmbient (Service.plainCall "users" ["ann"])
      (registered annAndBob)).state.registry.label? "users" "bob" = some 1 := by
  decide +kernel

theorem delete_keeps_vector_bob :
    ((sidecar.service .hashlib).delete nativeAmbient (Service.plainCall "users" ["ann"])
      (registered annAndBob)).state.outside.store.live.getVector .calm 1 =
        threeRows.store.live.getVector .calm 1 := by
  have hnot : ¬ ("users" = strip (Service.plainCall "users" ["ann"]).collection ∧
      "bob" ∈ (Service.plainCall "users" ["ann"]).extIds) := by decide +kernel
  have hcoll : "users" = strip (Service.plainCall "users" ["ann"]).collection := by decide +kernel
  have hreg := label?_annAndBob
  rw [registered] at hreg ⊢
  exact delete_keeps_vector .hashlib sidecar (fun _ => true) annAndBob threeRows
    Service.twoUsers.policy nativeAmbient (Service.plainCall "users" ["ann"]) hreg hnot
    (Or.inl hcoll) .calm

/-- **Collections share rows.** `doc` of `docs` and `ann` of `users` both have label
`0`; deleting `ann` erases the vector of `doc`, which stays registered. -/
theorem delete_erases_other_collection :
    ¬ ∀ (calls : List Registry.Call) (call : DeleteCall) (coll ext : String) (label : ℤ),
      ((sidecar.service .hashlib).delete nativeAmbient call
        (registered calls)).state.registry.label? coll ext = some label →
      ¬ (coll = strip call.collection ∧ ext ∈ call.extIds) →
      ((sidecar.service .hashlib).delete nativeAmbient call
        (registered calls)).state.outside.store.live.getVector .calm label =
        threeRows.store.live.getVector .calm label := by
  intro h
  have hrow := h annAndDoc (Service.plainCall "users" ["ann"]) "docs" "doc" 0
    (by decide +kernel) (by decide +kernel)
  have hbits := congrArg Except.toOption hrow
  revert hbits
  decide +kernel

end NativeConfig

end Unlearning
