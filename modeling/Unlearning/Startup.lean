import Unlearning.Durability

/-!
# When a restart comes up (`api/persistence.py`, `bootstrap`)

`hard_delete_and_heal` logs its BEGIN before the native side has seen the
arguments, and `recover_uncommitted` re-raises what a replay raises. So a BEGIN
that the native side refuses stays in the log and is refused again at every
start. This module runs `bootstrap` to its end, without contention or I/O
failures, and shows when it returns:

* `returns_saveInitialCheckpoint`: the checkpoint of an ingest is what the action
  `ingest` of the world says;
* `returns_bootstrap` / `raises_bootstrap`: it returns if every pending BEGIN fits
  the index and the binding and there are transaction ids left for the replays,
  and raises otherwise;
* `World.bootReturns_of_requests`: so, in every state of every run, a restart
  comes up exactly when the uncommitted BEGINs fit — in particular when every
  request so far was one that the native side accepts or the log refuses.
-/

namespace Unlearning

open Prog Store

/-- No contention and no I/O failure. -/
def Calm (env : Env) : Prop := (∀ site, env.native.acquires site = true) ∧ env.ioFails = false

/-- The arguments of a BEGIN that `erase_node` accepts on an index of `N` nodes. -/
def Fits (N : ℕ) (r : BeginDeleteRecord) : Prop :=
  r.targetNodeId < N ∧ r.targetNodeId < 2 ^ 63 ∧ r.maxM < 2 ^ 31

instance (N : ℕ) (r : BeginDeleteRecord) : Decidable (Fits N r) :=
  inferInstanceAs (Decidable (_ ∧ _ ∧ _))

/-- The fields of a BEGIN that was logged. -/
def Logged (n m : ℕ) : Prop := n < 256 ^ 8 ∧ m < 256 ^ 4 ∧ 1 ≤ m

section Finish

variable {H : Sha256} {D : Type} [FloatArith D]

/-- The program ends by returning, in `Q`. -/
abbrev Returns {α : Type} (H : Sha256) (D : Type) [FloatArith D] (p : Method α)
    (Q : α → Store → Prop) (s : Store) : Prop :=
  Finishes (machine H D) 0 Calm p (fun r s => ∃ a, r = .ok a ∧ Q a s) s

/-- The program ends by raising. -/
abbrev Raises {α : Type} (H : Sha256) (D : Type) [FloatArith D] (p : Method α) (s : Store) : Prop :=
  Finishes (machine H D) 0 Calm p (fun r _ => ∃ e, r = .error e) s

/-- A return, then a return. -/
theorem returns_bind {α β : Type} {p : Method α} {f : α → Method β} {Q : α → Store → Prop}
    {Q' : β → Store → Prop} {s : Store} (hp : Returns H D p Q s)
    (hf : ∀ a s, Q a s → Returns H D (f a) Q' s) : Returns H D (p >>= f) Q' s := by
  refine finishes_bind (finishes_mono ?_ hp)
  rintro r s' ⟨a, rfl, hQ⟩
  exact hf a s' hQ

/-- A return, then a raise. -/
theorem raises_bind {α β : Type} {p : Method α} {f : α → Method β} {Q : α → Store → Prop} {s : Store}
    (hp : Returns H D p Q s) (hf : ∀ a s, Q a s → Raises H D (f a) s) : Raises H D (p >>= f) s := by
  refine finishes_bind (finishes_mono ?_ hp)
  rintro r s' ⟨a, rfl, hQ⟩
  exact hf a s' hQ

/-- A raise ends the rest. -/
theorem raises_bind_left {α β : Type} {p : Method α} {f : α → Method β} {s : Store}
    (hp : Raises H D p s) : Raises H D (p >>= f) s := by
  refine finishes_bind (finishes_mono ?_ hp)
  rintro r s' ⟨e, rfl⟩
  exact ⟨e, rfl⟩

/-- An operation whose outcome does not depend on a calm environment. -/
theorem returns_perform {o : Op} {Q : Res o → Store → Prop} {s : Store}
    (h : ∀ env, Calm env → ∃ a s', exec H D 0 o env s = some (.ok a, s') ∧ Q a s') :
    Returns H D (perform o) Q s := by
  refine finishes_call fun env henv => ?_
  obtain ⟨a, s', he, hQ⟩ := h env henv
  exact ⟨.ok a, s', he, a, rfl, hQ⟩

/-- A method that returns needs no retry. -/
theorem returns_lockRetry {α : Type} {p : Method α} {Q : α → Store → Prop} {s : Store}
    (hp : Returns H D p Q s) (k : ℕ) : Returns H D (lockRetry k p) Q s := by
  cases k with
  | zero => exact hp
  | succ k =>
    rw [lockRetry]
    refine finishes_bind (finishes_attempt (finishes_mono ?_ hp))
    rintro r s' ⟨a, rfl, hQ⟩
    exact ⟨a, rfl, hQ⟩

/-- Only contention is retried. -/
theorem raises_lockRetry {α : Type} {p : Method α} {s : Store}
    (hp : Finishes (machine H D) 0 Calm p
      (fun r _ => ∃ e : PyError, r = .error e ∧ e.isContention = false) s) (k : ℕ) :
    Raises H D (lockRetry k p) s := by
  cases k with
  | zero =>
    refine finishes_mono ?_ hp
    rintro r s' ⟨e, rfl, -⟩
    exact ⟨e, rfl⟩
  | succ k =>
    rw [lockRetry]
    refine finishes_bind (finishes_attempt (finishes_mono ?_ hp))
    rintro r s' ⟨e, rfl, hc⟩
    show Finishes _ _ _ (if e.isContention = true then lockRetry k p else raise e) _ s'
    rw [if_neg (by simp [hc])]
    exact ⟨e, rfl⟩

/-! ## The flush -/

/-- A process that can replay deletes on an index of `N` nodes. -/
structure Ready (N : ℕ) (s : Store) : Prop where
  live : s.live.isLoaded = true
  nodes : s.live.numElements = N
  lock : s.ioLock = none
  nonneg : 0 ≤ s.log.txCounter

/-- The store after a flush. -/
def flushed (s : Store) : Store :=
  { s with bin := .snapshot s.live.owned, tmp := .absent }

/-- With an index loaded the flush returns, its file replaced. -/
theorem returns_flushLocked (retries : ℕ) {s : Store} (hl : s.live.isLoaded = true) :
    Returns H D (flushLocked retries) (fun _ s' => s' = flushed s) s := by
  rw [flushLocked]
  refine returns_bind (Q := fun _ s' => s' = { s with tmp := .absent }) ?_ ?_
  · exact returns_perform fun env henv =>
      ⟨(), { s with tmp := .absent }, by simp only [exec, henv.2]; rfl, rfl⟩
  rintro ⟨⟩ s₁ rfl
  refine returns_bind (Q := fun _ s' => s' = { s with tmp := .snapshot s.live.owned }) ?_ ?_
  · refine returns_lockRetry (returns_perform fun env henv =>
      ⟨(), { s with tmp := .snapshot s.live.owned }, ?_, rfl⟩) retries
    rw [exec, execSave, Index.saveToFile, if_neg (by simp [hl])]
    simp only [henv.2]
    rfl
  rintro ⟨⟩ s₂ rfl
  refine returns_bind (Q := fun _ s' => s' = { s with tmp := .snapshot s.live.owned }) ?_ ?_
  · exact returns_perform fun env henv =>
      ⟨(), { s with tmp := .snapshot s.live.owned }, by simp only [exec, execFsync, henv.2]; rfl, rfl⟩
  rintro ⟨⟩ s₃ rfl
  exact returns_perform fun env henv =>
    ⟨(), flushed s, by simp only [exec, execReplace, henv.2]; rfl, rfl⟩

/-- With the lock free it is taken and given back around the flush. -/
theorem returns_atomicFlushIndex (retries : ℕ) {s : Store} (hl : s.live.isLoaded = true)
    (hlock : s.ioLock = none) :
    Returns H D (atomicFlushIndex retries) (fun _ s' => s' = flushed s) s := by
  rw [atomicFlushIndex]
  refine returns_bind (Q := fun _ s' => s' = { s with ioLock := some 0 }) ?_ ?_
  · exact returns_perform fun env henv =>
      ⟨(), { s with ioLock := some 0 }, by simp only [exec, hlock]; rfl, rfl⟩
  rintro ⟨⟩ s₁ rfl
  rw [cleanup]
  refine returns_bind (Q := fun r s' => r = .ok () ∧ s' = flushed { s with ioLock := some 0 }) ?_ ?_
  · refine finishes_attempt (finishes_mono ?_ (returns_flushLocked retries hl))
    rintro r s' ⟨a, rfl, hs'⟩
    exact ⟨.ok a, rfl, rfl, hs'⟩
  rintro r s₂ ⟨rfl, rfl⟩
  refine returns_bind (Q := fun _ s' => s' = flushed s) ?_ ?_
  · refine returns_perform fun env henv => ⟨(), flushed s, ?_, rfl⟩
    rw [exec, flushed, flushed, ← hlock]
  rintro ⟨⟩ s₃ rfl
  exact ⟨(), rfl, rfl⟩

/-- **An ingest, step by step.** After `load_index` of a matrix,
`save_initial_checkpoint` returns in the store that the action `ingest` jumps to. -/
theorem returns_saveInitialCheckpoint (retries : ℕ) {ix : Index} (hix : ix.isLoaded = true)
    {s : Store} (hlock : s.ioLock = none) :
    Returns H D (saveInitialCheckpoint retries)
      (fun _ s' => World.loaded ix s = { s' with asked := [] }) { s with live := ix } := by
  rw [saveInitialCheckpoint]
  refine returns_bind (Q := fun loaded s' => loaded = true ∧ s' = { s with live := ix }) ?_ ?_
  · exact returns_perform fun env _ => ⟨ix.isLoaded, { s with live := ix }, rfl, hix, rfl⟩
  rintro loaded s₁ ⟨rfl, rfl⟩
  rw [if_pos rfl]
  refine finishes_mono ?_ (returns_atomicFlushIndex retries hix hlock)
  rintro r s' ⟨a, rfl, rfl⟩
  exact ⟨a, rfl, rfl⟩

/-! ## One replay -/

/-- What fits the parameters of the native call. -/
theorem bindable_iff {n m : ℕ} : bindable n m = true ↔ n < 2 ^ 63 ∧ m < 2 ^ 31 := by
  rw [bindable, decide_eq_true_iff]
  constructor
  · rintro ⟨-, hn, -, hm⟩
    exact ⟨by exact_mod_cast hn, by exact_mod_cast hm⟩
  · rintro ⟨hn, hm⟩
    exact ⟨by omega, by exact_mod_cast hn, by omega, by exact_mod_cast hm⟩

/-- The native side accepts what fits. -/
theorem returns_erase {s : Store} {n m : ℕ} (hl : s.live.isLoaded = true)
    (hn : n < s.live.numElements) (hn63 : n < 2 ^ 63) (hm : m < 2 ^ 31) (hm1 : 1 ≤ m) :
    Returns H D (perform (.eraseNode n m)) (fun res s' => res.success = true ∧
      ∃ ix, s' = { s with live := ix } ∧ s.live.Shadows ix) s := by
  refine returns_perform fun env henv => ?_
  have her : Index.Erasable s.live env.native n m :=
    ⟨hl, Int.natCast_nonneg n, by rwa [Index.asSize_natCast], by omega, henv.1 _, henv.1 _, henv.1 _⟩
  rcases Index.eraseNode_cases (D := D) s.live env.native n m with
    ⟨-, res, hsucc, heq⟩ | ⟨hno, -⟩ | ⟨hno, -⟩
  · refine ⟨res, { s with live := _ }, ?_, hsucc, _, rfl, (Index.eraseNode_rows heq).1⟩
    rw [exec, execErase, if_neg (by simp [bindable_iff.mpr ⟨hn63, hm⟩]), heq]
  · exact absurd her hno
  · exact absurd her hno

/-- The native side refuses what does not fit, and not for contention. -/
theorem raises_erase {s : Store} {r : BeginDeleteRecord} {N : ℕ} (hl : s.live.isLoaded = true)
    (hN : s.live.numElements = N) (hbad : ¬ Fits N r) :
    Finishes (machine H D) 0 Calm (perform (.eraseNode r.targetNodeId r.maxM))
      (fun r _ => ∃ e : PyError, r = .error e ∧ e.isContention = false) s := by
  refine finishes_call fun env henv => ?_
  by_cases hb : bindable r.targetNodeId r.maxM = true
  · have hN' : N ≤ r.targetNodeId := by
      by_contra hlt
      exact hbad ⟨by omega, (bindable_iff.mp hb).1, (bindable_iff.mp hb).2⟩
    obtain ⟨e, hnode, hkind⟩ : ∃ e, s.live.ensureNode r.targetNodeId = .error e ∧
        e.kind = .outOfRange := by
      rw [Index.ensureNode, if_neg (by simp [hl]),
        if_pos (Or.inr (by rw [Index.asSize_natCast, hN]; exact hN'))]
      exact ⟨_, rfl, rfl⟩
    refine ⟨.error (.native e), s, ?_, .native e, rfl, by simp [PyError.isContention, hkind]⟩
    show some (execErase D r.targetNodeId r.maxM env s) = _
    rw [execErase, if_neg (by simp [hb]), Index.eraseNode, Index.overwriteVector, hnode]
  · refine ⟨.error .typeError, s, ?_, .typeError, rfl, rfl⟩
    show some (execErase D r.targetNodeId r.maxM env s) = _
    rw [execErase, if_pos (by simpa using hb)]

/-- What a replay needs of the BEGIN it replays. -/
structure Replayable (r : BeginDeleteRecord) (s : Store) : Prop where
  fields : Logged r.targetNodeId r.maxM
  id : (r.transactionId : ℤ) ≤ s.log.txCounter

/-- The BEGIN of a replay is appended, if there is a transaction id for it. -/
theorem returns_begin {N : ℕ} {s : Store} (hs : Ready N s) (hroom : s.log.txCounter + 1 < 256 ^ 8)
    {r : BeginDeleteRecord} (hr : Logged r.targetNodeId r.maxM) :
    Returns H D (perform (.appendBeginDelete r.targetNodeId r.maxM)) (fun b s' =>
      (b.transactionId : ℤ) = s.log.txCounter + 1 ∧ Ready N s' ∧
        s'.log.txCounter = s.log.txCounter + 1) s := by
  refine returns_perform fun env henv => ?_
  have hclock : env.clock.toNat < 256 ^ 8 := env.clock.toNat_lt
  obtain ⟨b, hb⟩ := Log.appendBeginDelete_of_fits (H := H) hr.2.2 hclock hr.1 hr.2.1
    hs.nonneg hroom
  rcases Log.appendBeginDelete_cases (H := H) r.targetNodeId r.maxM env.clock.toNat s.log with
    ⟨b', htx, -, -, -, -, -, -, heq⟩ | ⟨e, c, -, -, heq⟩
  · refine ⟨b', s.addRecord (.begin b') (s.log.txCounter + 1), ?_, htx, ?_, rfl⟩
    · rw [exec, execBegin, heq]
      simp only [henv.2]
      rfl
    · have := hs.nonneg
      exact ⟨hs.live, hs.nodes, hs.lock, by simp only [addRecord]; omega⟩
  · rw [heq] at hb
    cases hb

/-- Without a transaction id left the BEGIN raises. -/
theorem raises_begin {s : Store} (hfull : 256 ^ 8 ≤ s.log.txCounter + 1) (nodeId maxM : ℤ) :
    Raises H D (perform (.appendBeginDelete nodeId maxM)) s := by
  refine finishes_call fun env _ => ?_
  rcases execBegin_cases (H := H) nodeId maxM env s with
    ⟨b, htx, hlt, -⟩ | ⟨e, c, -, -, heq⟩
  · rw [← htx] at hfull
    exact absurd (by exact_mod_cast hfull) (Nat.not_le_of_lt hlt)
  · exact ⟨.error e, { s with log := ⟨s.log.records, c⟩ }, congrArg some heq, e, rfl⟩

/-- A transaction id of eight bytes can be committed. -/
theorem returns_commit {s : Store} {tx : ℕ} (htx : tx < 256 ^ 8) :
    Returns H D (perform (.appendCommit tx))
      (fun _ s' => ∃ c, s' = s.addRecord (.commit c) s.log.txCounter) s := by
  refine returns_perform fun env henv => ?_
  have hclock : env.clock.toNat < 256 ^ 8 := env.clock.toNat_lt
  obtain ⟨c, hc⟩ := Log.appendCommit_of_fits (H := H) hclock htx
  rcases Log.appendCommit_cases (H := H) tx env.clock.toNat s.log with ⟨c', -, heq⟩ | ⟨e, heq⟩
  · refine ⟨c', s.addRecord (.commit c') s.log.txCounter, ?_, c', rfl⟩
    rw [exec, execCommit, heq]
    simp only [henv.2]
    rfl
  · rw [heq] at hc
    cases hc

/-- A COMMIT leaves the store ready. -/
theorem Ready.addCommit {N : ℕ} {s : Store} (h : Ready N s) (c : CommitRecord) :
    Ready N (s.addRecord (.commit c) s.log.txCounter) :=
  ⟨h.live, h.nodes, h.lock, h.nonneg⟩

/-- Erase, flush and commit of a BEGIN that fits. -/
theorem returns_eraseAndCommit (retries : ℕ) {N : ℕ} {s : Store} (hs : Ready N s)
    {r : BeginDeleteRecord} (hm : 1 ≤ r.maxM) (hfit : Fits N r) {tx : ℕ} (htx : tx < 256 ^ 8) :
    Returns H D (eraseAndCommit retries r.targetNodeId r.maxM tx)
      (fun _ s' => Ready N s' ∧ s'.log.txCounter = s.log.txCounter) s := by
  rw [eraseAndCommit]
  refine returns_bind (returns_lockRetry (returns_erase (H := H) (D := D) hs.live
    (by rw [hs.nodes]; exact hfit.1) hfit.2.1 hfit.2.2 hm) retries) ?_
  rintro res s₁ ⟨hsucc, ix, rfl, hsh⟩
  rw [if_neg (by simp [hsucc])]
  have hl : ix.isLoaded = true := hsh.isLoaded.trans hs.live
  have hready : Ready N (flushed { s with live := ix }) :=
    ⟨hl, hsh.numElements.trans hs.nodes, hs.lock, hs.nonneg⟩
  refine returns_bind (returns_atomicFlushIndex retries hl hs.lock) ?_
  rintro ⟨⟩ s₂ rfl
  refine returns_bind (returns_commit (H := H) (D := D) htx) ?_
  rintro - s₃ ⟨c, rfl⟩
  exact ⟨res, rfl, hready.addCommit c, rfl⟩

/-- **A replay of a BEGIN that fits returns**, and takes one transaction id. -/
theorem returns_replayOne (retries : ℕ) {N : ℕ} {s : Store} (hs : Ready N s)
    (hroom : s.log.txCounter + 1 < 256 ^ 8) {r : BeginDeleteRecord} (hr : Replayable r s)
    (hfit : Fits N r) :
    Returns H D (replayOne retries r)
      (fun _ s' => Ready N s' ∧ s'.log.txCounter = s.log.txCounter + 1) s := by
  rw [replayOne]
  refine returns_bind (returns_begin (H := H) (D := D) hs hroom hr.fields) ?_
  rintro b s₁ ⟨htx, h₁, hc₁⟩
  refine returns_bind (returns_eraseAndCommit retries h₁ hr.fields.2.2 hfit (by omega)) ?_
  rintro res s₂ ⟨h₂, hc₂⟩
  split
  · have hid := hr.id
    refine returns_bind (returns_commit (H := H) (D := D) (by omega)) ?_
    rintro - s₃ ⟨c, rfl⟩
    exact ⟨_, rfl, h₂.addCommit c, hc₂.trans hc₁⟩
  · exact ⟨_, rfl, h₂, hc₂.trans hc₁⟩

/-- **A replay of a BEGIN that does not fit raises.** -/
theorem raises_replayOne (retries : ℕ) {N : ℕ} {s : Store} (hs : Ready N s)
    {r : BeginDeleteRecord} (hr : Replayable r s)
    (hbad : ¬ (s.log.txCounter + 1 < 256 ^ 8 ∧ Fits N r)) : Raises H D (replayOne retries r) s := by
  rw [replayOne]
  by_cases hroom : s.log.txCounter + 1 < 256 ^ 8
  · have hfit : ¬ Fits N r := fun hfit => hbad ⟨hroom, hfit⟩
    refine raises_bind (returns_begin (H := H) (D := D) hs hroom hr.fields) ?_
    rintro b s₁ ⟨-, h₁, -⟩
    refine raises_bind_left ?_
    rw [eraseAndCommit]
    exact raises_bind_left (raises_lockRetry (raises_erase h₁.live h₁.nodes hfit) retries)
  · exact raises_bind_left (raises_begin (not_lt.mp hroom) _ _)

/-! ## The loop, and `bootstrap` -/

/-- A record stays replayable as the counter grows. -/
theorem Replayable.mono {r : BeginDeleteRecord} {s s' : Store} (h : Replayable r s)
    (hc : s.log.txCounter ≤ s'.log.txCounter) : Replayable r s' := ⟨h.fields, h.id.trans hc⟩

/-- The pending BEGINs fit an index of `N` nodes, and there is a transaction id
after `c` for each of them. -/
def AllFit (N : ℕ) (c : ℤ) (pending : List BeginDeleteRecord) : Prop :=
  (∀ r ∈ pending, Fits N r) ∧ (pending = [] ∨ c + pending.length < 256 ^ 8)

/-- The first record fits, and the others after it. -/
theorem allFit_cons {N : ℕ} {c : ℤ} {r : BeginDeleteRecord} {rest : List BeginDeleteRecord} :
    AllFit N c (r :: rest) ↔ (c + 1 < 256 ^ 8 ∧ Fits N r) ∧ AllFit N (c + 1) rest := by
  rw [AllFit, AllFit, List.forall_mem_cons, List.length_cons]
  push_cast
  cases rest with
  | nil => simp [and_comm]
  | cons r' rest =>
    rw [List.length_cons]
    push_cast
    constructor
    · rintro ⟨⟨hr, hrest⟩, hroom | hroom⟩
      · cases hroom
      · exact ⟨⟨by omega, hr⟩, hrest, Or.inr (by omega)⟩
    · rintro ⟨⟨hc, hr⟩, hrest, hroom | hroom⟩
      · cases hroom
      · exact ⟨⟨hr, hrest⟩, Or.inr (by omega)⟩

/-- **The replays return**, by induction on the pending records. -/
theorem returns_replayAll (retries : ℕ) {N : ℕ} {rest : List BeginDeleteRecord} {s : Store}
    (hs : Ready N s) (hr : ∀ r ∈ rest, Replayable r s) (hfit : AllFit N s.log.txCounter rest) :
    Returns H D (replayAll retries rest) (fun _ _ => True) s := by
  induction rest generalizing s with
  | nil => exact ⟨[], rfl, trivial⟩
  | cons r rest ih =>
    rw [replayAll]
    obtain ⟨⟨hroom, hfit₀⟩, hrest⟩ := allFit_cons.mp hfit
    refine returns_bind (returns_replayOne retries hs hroom (hr r List.mem_cons_self) hfit₀) ?_
    rintro res s₁ ⟨h₁, hc⟩
    refine returns_bind (ih h₁ (fun r' hr' => (hr r' (List.mem_cons_of_mem r hr')).mono (by omega))
      (by rwa [hc])) ?_
    rintro results s₂ -
    exact ⟨_, rfl, trivial⟩

/-- The loop raises at the first BEGIN that does not fit. -/
theorem raises_replayAll (retries : ℕ) {N : ℕ} {rest : List BeginDeleteRecord} {s : Store}
    (hs : Ready N s) (hr : ∀ r ∈ rest, Replayable r s) (hbad : ¬ AllFit N s.log.txCounter rest) :
    Raises H D (replayAll retries rest) s := by
  induction rest generalizing s with
  | nil => exact absurd ⟨fun r hr => (by cases hr), Or.inl rfl⟩ hbad
  | cons r rest ih =>
    rw [replayAll]
    by_cases hfit : s.log.txCounter + 1 < 256 ^ 8 ∧ Fits N r
    · refine raises_bind (returns_replayOne retries hs hfit.1 (hr r List.mem_cons_self) hfit.2) ?_
      rintro res s₁ ⟨h₁, hc⟩
      refine raises_bind_left (ih h₁
        (fun r' hr' => (hr r' (List.mem_cons_of_mem r hr')).mono (by omega)) ?_)
      rw [hc]
      exact fun hrest => hbad (allFit_cons.mpr ⟨hfit, hrest⟩)
    · exact raises_bind_left (raises_replayOne retries hs (hr r List.mem_cons_self) hfit)

/-- A store from which a new process boots. -/
structure Bootable (N : ℕ) (s : Store) : Prop where
  bin : ∃ b, s.bin = .snapshot b ∧ b.isLoaded = true ∧ b.numElements = N
  lock : s.ioLock = none
  nonneg : 0 ≤ s.log.txCounter
  pending : ∀ r ∈ uncommittedDeletes s.log.records, Replayable r s

/-- On a bootable store the snapshot loads. -/
theorem returns_loadIndexIfPresent {N : ℕ} {s : Store} (hs : Bootable N s) :
    Returns H D loadIndexIfPresent (fun _ s' => s'.log = s.log ∧ Ready N s') s := by
  obtain ⟨b, hb, hl, hN⟩ := hs.bin
  rw [loadIndexIfPresent]
  refine returns_bind (Q := fun present s' => present = true ∧ s' = s) ?_ ?_
  · exact returns_perform fun env henv => ⟨true, s, by simp only [exec, hb], rfl, rfl⟩
  rintro present s₁ ⟨rfl, rfl⟩
  rw [if_pos rfl]
  refine returns_bind (Q := fun _ s' => s' = { s₁ with live := b }) ?_ ?_
  · exact returns_perform fun env henv =>
      ⟨(), { s₁ with live := b }, by rw [exec, execLoad_snapshot hb], rfl⟩
  rintro ⟨⟩ s₂ rfl
  exact ⟨true, rfl, rfl, hl, hN, hs.lock, hs.nonneg⟩

/-- The pending deletes are read off the log. -/
theorem returns_pending (s : Store) :
    Returns H D (perform .uncommittedDeletes)
      (fun pending s' => pending = uncommittedDeletes s.log.records ∧ s' = s) s :=
  returns_perform fun _ _ => ⟨_, s, rfl, rfl, rfl⟩

/-- A loaded index says so. -/
theorem returns_isLoaded {s : Store} (hl : s.live.isLoaded = true) :
    Returns H D (perform .isLoaded) (fun loaded s' => loaded = true ∧ s' = s) s :=
  returns_perform fun _ _ => ⟨true, s, by rw [exec, hl], rfl, rfl⟩

/-- **`bootstrap` returns** if every pending BEGIN fits. -/
theorem returns_bootstrap (retries : ℕ) {N : ℕ} {s : Store} (hs : Bootable N s)
    (hfit : AllFit N s.log.txCounter (uncommittedDeletes s.log.records)) :
    Returns H D (bootstrap retries) (fun _ _ => True) s := by
  rw [bootstrap]
  refine returns_bind (returns_loadIndexIfPresent hs) ?_
  rintro loaded s₁ ⟨hlog, h₁⟩
  refine returns_bind (Q := fun _ _ => True) ?_ fun _ _ _ => ⟨_, rfl, trivial⟩
  rw [recoverUncommitted]
  refine returns_bind (returns_pending s₁) ?_
  rintro pending s₂ ⟨rfl, rfl⟩
  split
  · exact ⟨_, rfl, trivial⟩
  · refine returns_bind (returns_isLoaded h₁.live) ?_
    rintro loaded s₃ ⟨rfl, rfl⟩
    rw [if_pos rfl, hlog]
    exact returns_replayAll retries h₁
      (fun r hr => (hs.pending r hr).mono (by rw [hlog]))
      (by rwa [hlog])

/-- **`bootstrap` raises** if one pending BEGIN does not fit. -/
theorem raises_bootstrap (retries : ℕ) {N : ℕ} {s : Store} (hs : Bootable N s)
    (hbad : ¬ AllFit N s.log.txCounter (uncommittedDeletes s.log.records)) :
    Raises H D (bootstrap retries) s := by
  rw [bootstrap]
  refine raises_bind (returns_loadIndexIfPresent hs) ?_
  rintro loaded s₁ ⟨hlog, h₁⟩
  refine raises_bind_left ?_
  rw [recoverUncommitted]
  refine raises_bind (returns_pending s₁) ?_
  rintro pending s₂ ⟨rfl, rfl⟩
  rw [if_neg ?_]
  · refine raises_bind (returns_isLoaded h₁.live) ?_
    rintro loaded s₃ ⟨rfl, rfl⟩
    rw [if_pos rfl, hlog]
    exact raises_replayAll retries h₁ (fun r hr => (hs.pending r hr).mono (by rw [hlog]))
      (by rwa [hlog])
  · rw [hlog]
    intro hnil
    refine hbad ⟨fun r hr => ?_, Or.inl hnil⟩
    rw [hnil] at hr
    cases hr

end Finish

/-! ## Every run -/

namespace World

variable {H : Sha256} {D : Type} [FloatArith D] {retries : ℕ}

/-- A new process on the files of `w` comes up: if nothing fails from now on, its
`bootstrap` returns. -/
def BootReturns (H : Sha256) (D : Type) [FloatArith D] (retries : ℕ) (w : World) : Prop :=
  ∀ envs : ℕ → Env, (∀ t, Calm (envs t)) → ∃ n rep,
    (run H D retries ([.crash, .restart] ++ ((List.range n).map envs).map .boot) w).phase =
      .booting (.ret rep)

/-- The operations of a `bootstrap` are those of its program, alone. -/
theorem run_boots (envs : List Env) (p : Method BootReport) (s : Store) :
    run H D retries (envs.map .boot) ⟨s, .booting p⟩ =
      ⟨(alone (machine H D) 0 envs (p, s)).2, .booting (alone (machine H D) 0 envs (p, s)).1⟩ := by
  induction envs generalizing p s with
  | nil => rfl
  | cons env rest ih =>
    have hstep : step H D retries (.boot env) ⟨s, .booting p⟩ =
        ⟨((p.step (machine H D) 0 env s).getD (p, s)).2,
          .booting ((p.step (machine H D) 0 env s).getD (p, s)).1⟩ := by
      simp only [step]
      rcases p.step (machine H D) 0 env s with _ | ⟨p', s'⟩ <;> rfl
    calc run H D retries ((env :: rest).map .boot) ⟨s, .booting p⟩
        = run H D retries (rest.map .boot) (step H D retries (.boot env) ⟨s, .booting p⟩) := rfl
      _ = _ := by rw [hstep, ih]; rfl

/-- The store a restart of `w` boots from. -/
def reborn (s : Store) : Store := { lost s with log := s.log.reopen }

/-- A crash, a restart and the steps of `bootstrap` are `bootstrap` alone on the store reborn. -/
theorem run_restart (envs : List Env) (w : World) :
    (run H D retries ([.crash, .restart] ++ envs.map .boot) w).phase =
      .booting (alone (machine H D) 0 envs (bootstrap retries, reborn w.store)).1 := by
  have happ : run H D retries ([.crash, .restart] ++ envs.map .boot) w =
      run H D retries (envs.map .boot) ⟨reborn w.store, .booting (bootstrap retries)⟩ :=
    List.foldl_append
  rw [happ, run_boots]

/-- **Booting**, from a store that has its checkpoint. -/
theorem bootReturns_iff {N : ℕ} {w : World} (hb : Bootable N (reborn w.store)) :
    BootReturns H D retries w ↔
      AllFit N w.store.log.reopen.txCounter (uncommittedDeletes w.store.log.records) := by
  constructor
  · intro hret
    by_contra hbad
    -- the restart raises, whatever the calm environment
    have hcalm : ∀ _ : ℕ, Calm calmEnv := fun _ => ⟨fun _ => rfl, rfl⟩
    obtain ⟨n, rep, hphase⟩ := hret _ hcalm
    rw [run_restart] at hphase
    have hend : alone (machine H D) 0 ((List.range n).map fun _ => calmEnv)
        (bootstrap retries, reborn w.store) = (ofExcept (.ok rep), _) :=
      Prod.ext (Phase.booting.inj hphase) rfl
    obtain ⟨e, he⟩ := finishes_sound (raises_bootstrap (H := H) (D := D) retries hb hbad)
      (fun env henv => by
        obtain ⟨t, -, rfl⟩ := List.mem_map.mp henv
        exact hcalm t) hend
    cases he
  · intro hfit envs hcalm
    obtain ⟨n, r, s', hend, rep, rfl, -⟩ :=
      finishes_adequate (returns_bootstrap (H := H) (D := D) retries hb hfit) envs hcalm
    refine ⟨n, rep, ?_⟩
    rw [run_restart, hend]
    rfl

/-! ### How far the transaction ids get -/

/-- The counter and the log after `k` actions. -/
def Counted (k : ℕ) (s : Store) : Prop := s.log.txCounter ≤ k ∧ s.log.records.length ≤ k

/-- One more action, one more id and one more record at most. -/
theorem Counted.succ {k : ℕ} {s s' : Store} (h : Counted k s)
    (hc : s'.log.txCounter ≤ s.log.txCounter + 1)
    (hr : s'.log.records.length ≤ s.log.records.length + 1) : Counted (k + 1) s' := by
  obtain ⟨hk, hl⟩ := h
  exact ⟨by push_cast; omega, by omega⟩

/-- The highest id in the log is below any bound on all of them. -/
theorem foldl_max_tx_le {records : List Record} {m c : ℤ} (hm : m ≤ c)
    (h : ∀ r ∈ records, (r.transactionId : ℤ) ≤ c) :
    records.foldl (fun maxId r => max maxId (r.transactionId : ℤ)) m ≤ c := by
  induction records generalizing m with
  | nil => exact hm
  | cons a rest ih =>
    exact ih (max_le hm (h a List.mem_cons_self)) fun r hr => h r (List.mem_cons_of_mem a hr)

/-- Reopening the log never raises the counter. -/
theorem reopen_txCounter_le {P : Plan} {s : Store} (h : s.Inv P) :
    s.log.reopen.txCounter ≤ s.log.txCounter := foldl_max_tx_le h.nonneg h.ids

/-- The step of `Counted`. -/
theorem counted_step {P : Plan} {w : World} (h : Inv H D P w) {k : ℕ} (hk : Counted k w.store)
    (a : Action) : Counted (k + 1) (step H D retries a w).store := by
  have hsame : Counted (k + 1) w.store := hk.succ (by omega) (by omega)
  have hmoves := moves_step H D retries a w
  generalize step H D retries a w = w' at hmoves ⊢
  cases hmoves with
  | restart s => exact ⟨(reopen_txCounter_le h.store).trans hsame.1, hsame.2⟩
  | boot hstep => exact hk.succ (step_log hstep).2.1 (step_log hstep).2.2
  | advance hthread hstep => exact hk.succ (step_log hstep).2.1 (step_log hstep).2.2
  | stay => exact hsame
  | crash => exact hsame
  | serve => exact hsame
  | request => exact hsame
  | ingest => exact hsame

/-- The run of `Counted`. -/
theorem counted_run {P : Plan} {actions : List Action} {w : World} (h : Inv H D P w)
    (ha : AllAllowed H D P retries actions w) {k : ℕ} (hk : Counted k w.store) :
    Counted (k + actions.length) (run H D retries actions w).store := by
  induction actions generalizing w k with
  | nil => exact hk
  | cons a rest ih =>
    have hrest := ih (inv_step h ha.1) ha.2 (counted_step h hk a)
    rw [List.length_cons, Nat.add_comm rest.length, ← Nat.add_assoc]
    exact hrest

/-! ### Which requests are safe -/

/-- What the HTTP model lets through. The checkpoint is not replaced. -/
def Admitted : Action → Prop
  | .request nodeId maxM => 0 ≤ nodeId ∧ 1 ≤ maxM
  | .ingest _ => False
  | _ => True

/-- A request whose arguments the native side accepts on `N` nodes, or the log
refuses. -/
def Acceptable (N : ℕ) : Action → Prop
  | .request nodeId maxM =>
    (nodeId < N ∧ nodeId < 2 ^ 63 ∧ maxM < 2 ^ 31) ∨ 2 ^ 64 ≤ nodeId ∨ 2 ^ 32 ≤ maxM
  | _ => True

/-- The plan of a run whose logged requests satisfy `ok`. -/
def bootPlan (N : ℕ) (ok : ℕ → ℕ → Prop) : Plan := ⟨some N, fun n m => Logged n m ∧ ok n m, none⟩

/-- Actions that the plan admits are allowed in a run. -/
theorem allAllowed_bootPlan {N : ℕ} {ok : ℕ → ℕ → Prop} {actions : List Action}
    (hact : ∀ a ∈ actions, Admitted a)
    (hok : ∀ (n m : ℕ), Action.request n m ∈ actions → n < 256 ^ 8 → m < 256 ^ 4 → ok n m)
    (w : World) : AllAllowed H D (bootPlan N ok) retries actions w := by
  refine allAllowed_of_forall (fun a ha w => ?_) w
  have hadm := hact a ha
  cases a with
  | request nodeId maxM =>
    rintro n m rfl rfl hn hm hm1
    exact ⟨⟨hn, hm, hm1⟩, hok n m ha hn hm⟩
  | ingest ix => exact hadm.elim
  | crash => trivial
  | restart => trivial
  | boot env => trivial
  | serve => trivial
  | advance i env => trivial

/-- A new process on the files of a run has its checkpoint. -/
theorem bootable_reborn {N : ℕ} {ok : ℕ → ℕ → Prop} {w : World} (h : Inv H D (bootPlan N ok) w) :
    Bootable N (reborn w.store) where
  bin := by
    obtain ⟨⟨b, hb, hN⟩, -⟩ := h.store.fixed N rfl
    exact ⟨b, hb, h.store.loaded b hb, hN⟩
  lock := rfl
  nonneg := (inv_reopen h.store).nonneg
  pending r hr := by
    have hmem := (of_mem_uncommittedDeletes hr).1
    exact ⟨(h.store.admitted r hmem).1, (inv_reopen h.store).ids _ (mem_begins.mp hmem)⟩

/-- **Which runs leave the next start unharmed.** In every state of every run of
requests, crashes and restarts from a checkpoint, a new process comes up exactly
when the uncommitted BEGINs fit the index, the binding and the transaction ids
left. So it does after every run, of less than `2 ^ 63` steps, of requests that
the native side accepts or the log refuses. -/
theorem bootReturns_of_requests {ix : Index} (hix : ix.isLoaded = true) {actions : List Action}
    (hact : ∀ a ∈ actions, Admitted a) :
    (BootReturns H D retries (run H D retries actions (fromCheckpoint ix)) ↔
      AllFit ix.numElements
        (run H D retries actions (fromCheckpoint ix)).store.log.reopen.txCounter
        (uncommittedDeletes (run H D retries actions (fromCheckpoint ix)).store.log.records)) ∧
    (actions.length < 2 ^ 63 → (∀ a ∈ actions, Acceptable ix.numElements a) →
      BootReturns H D retries (run H D retries actions (fromCheckpoint ix))) := by
  have hstart : ∀ ok, Inv H D (bootPlan ix.numElements ok) (fromCheckpoint ix) := fun ok =>
    inv_fromCheckpoint hix (fun N hN => (Option.some.inj hN).symm) rfl
  refine ⟨?_, fun hlen hacc => ?_⟩
  · have hall : AllAllowed H D (bootPlan ix.numElements fun _ _ => True) retries actions
        (fromCheckpoint ix) :=
      allAllowed_bootPlan hact (fun _ _ _ _ _ => trivial) (fromCheckpoint ix)
    exact bootReturns_iff (bootable_reborn (inv_run (hstart _) hall))
  · have hall : AllAllowed H D (bootPlan ix.numElements fun n m =>
        n < ix.numElements ∧ n < 2 ^ 63 ∧ m < 2 ^ 31) retries actions (fromCheckpoint ix) := by
      refine allAllowed_bootPlan hact (fun n m hmem hn hm => ?_) (fromCheckpoint ix)
      rcases hacc _ hmem with ⟨hlt, hn63, hm31⟩ | hbig | hbig
      · exact ⟨by exact_mod_cast hlt, by exact_mod_cast hn63, by exact_mod_cast hm31⟩
      · omega
      · omega
    have hinv := inv_run (hstart _) hall
    have hcount := counted_run (hstart _) hall (k := 0) ⟨le_rfl, le_rfl⟩
    refine (bootReturns_iff (bootable_reborn hinv)).mpr ⟨fun r hr => ?_, Or.inr ?_⟩
    · exact (hinv.store.admitted r (of_mem_uncommittedDeletes hr).1).2
    · have hc := (reopen_txCounter_le hinv.store).trans hcount.1
      have hp := (length_uncommittedDeletes_le _).trans hcount.2
      omega

/-- The delete of `Durability` that crashed before its flush. -/
theorem bootReturns_crashedDelete :
    BootReturns .hashlib Float 0
      (run .hashlib Float 0 crashedDelete (fromCheckpoint Index.threeNodes)) :=
  (bootReturns_of_requests (by decide)
    (by simp [crashedDelete, Admitted])).2 (by decide)
    (by simp [crashedDelete, Acceptable, Index.threeNodes])

/-- A delete of node `3`, which an index of three nodes does not have: its BEGIN
is logged before `erase_node` raises. -/
def rejectedDelete : List Action := [.request 3 16, .advance 0 calmEnv, .advance 0 calmEnv]

/-- **A rejected delete poisons the next start.** -/
theorem rejectedDelete_blocks_bootstrap :
    ¬ ∀ actions : List Action, (∀ a ∈ actions, Admitted a) →
      BootReturns .hashlib Float 0 (run .hashlib Float 0 actions
        (fromCheckpoint Index.threeNodes)) := by
  intro h
  have hadm : ∀ a ∈ rejectedDelete, Admitted a := by simp [rejectedDelete, Admitted]
  have hinv : Inv .hashlib Float (bootPlan 3 fun _ _ => True)
      (run .hashlib Float 0 rejectedDelete (fromCheckpoint Index.threeNodes)) :=
    inv_run (inv_fromCheckpoint (by decide) (fun N hN => (Option.some.inj hN).symm) rfl)
      (allAllowed_bootPlan hadm (fun _ _ _ _ _ => trivial) _)
  have hfit := (bootReturns_iff (bootable_reborn hinv)).mp (h rejectedDelete hadm)
  exact absurd hfit.1 (by decide)

end World

end Unlearning
