import Unlearning.StoreInv

/-!
# The engine's methods keep the invariant

Rely/guarantee preconditions for the methods of `PersistenceEngine`, from the
operations up: `atomic_flush_index` under the lock, the erase-flush-commit part
that deletes and replays share, `hard_delete_and_heal`, and `bootstrap`. What
the caller knows and the rest of the system leaves alone is carried by a frame.

`World.inv_run` is the result: every run keeps the invariant, whatever the
interleaving and wherever the crashes fall.
-/

namespace Unlearning

open Prog Store

/-! ## Outcomes of the operations -/

section Outcomes

variable {H : Sha256} {D : Type} [FloatArith D]

/-- A BEGIN is appended with the next transaction id, or the call raises, at most an id spent. -/
theorem execBegin_cases (nodeId maxM : ℤ) (env : Env) (s : Store) :
    (∃ r : BeginDeleteRecord, (r.transactionId : ℤ) = s.log.txCounter + 1 ∧
        r.transactionId < 256 ^ 8 ∧ (r.targetNodeId : ℤ) = nodeId ∧ (r.maxM : ℤ) = maxM ∧
        r.targetNodeId < 256 ^ 8 ∧ r.maxM < 256 ^ 4 ∧ 1 ≤ r.maxM ∧
        execBegin H nodeId maxM env s =
          (.ok r, s.addRecord (.begin r) (s.log.txCounter + 1))) ∨
      ∃ e c, s.log.txCounter ≤ c ∧ c ≤ s.log.txCounter + 1 ∧
        execBegin H nodeId maxM env s = (.error e, { s with log := ⟨s.log.records, c⟩ }) := by
  rcases Log.appendBeginDelete_cases (H := H) nodeId maxM env.clock.toNat s.log with
    ⟨r, htx, htw, hnode, hm, hnw, hmw, hm1, heq⟩ | ⟨e, c, hlo, hhi, heq⟩
  · by_cases hio : env.ioFails = true
    · refine Or.inr ⟨.osError, s.log.txCounter + 1, by omega, le_rfl, ?_⟩
      simp only [execBegin, heq]
      rw [if_pos hio]
    · refine Or.inl ⟨r, htx, htw, hnode, hm, hnw, hmw, hm1, ?_⟩
      simp only [execBegin, heq]
      rw [if_neg hio]
      rfl
  · exact Or.inr ⟨.wal e, c, hlo, hhi, by simp only [execBegin, heq]⟩

/-- A COMMIT is appended, or the call raises and the store is as it was. -/
theorem execCommit_cases (tx : ℤ) (env : Env) (s : Store) :
    (∃ c : CommitRecord, (c.transactionId : ℤ) = tx ∧
        execCommit H tx env s = (.ok c, s.addRecord (.commit c) s.log.txCounter)) ∨
      ∃ e, execCommit H tx env s = (.error e, s) := by
  rcases Log.appendCommit_cases (H := H) tx env.clock.toNat s.log with ⟨c, hc, heq⟩ | ⟨e, heq⟩
  · by_cases hio : env.ioFails = true
    · refine Or.inr ⟨.osError, ?_⟩
      rw [execCommit, heq]
      exact if_pos hio
    · refine Or.inl ⟨c, hc, ?_⟩
      rw [execCommit, heq]
      exact if_neg hio
  · exact Or.inr ⟨.wal e, by rw [execCommit, heq]⟩

/-- An erase changes the live index, and only the row of its target. -/
theorem execErase_cases {nodeId maxM : ℤ} {env : Env} {s s' : Store}
    {r : Except PyError ErasureResult} (h : execErase D nodeId maxM env s = (r, s')) :
    ∃ ix, s' = { s with live := ix } ∧ s.live.Shadows ix ∧
      (∀ m : ℕ, (m : ℤ) ≠ nodeId ∨ s.live.RowZero m → ix.row m = s.live.row m) ∧
      ∀ res, r = .ok res → res.success = true ∧ ∃ n : ℕ, nodeId = n ∧ LiveZero s' n := by
  rw [execErase] at h
  split at h
  · obtain ⟨rfl, rfl⟩ := Prod.mk.inj h
    exact ⟨s.live, rfl, .refl _, fun _ _ => rfl, fun res hres => by cases hres⟩
  · rcases heq : s.live.eraseNode D env.native nodeId maxM with ⟨e | res, ix⟩
    all_goals
      obtain ⟨hsh, hne, hzero, hok⟩ := Index.eraseNode_rows heq
      have hrows : ∀ m : ℕ, (m : ℤ) ≠ nodeId ∨ s.live.RowZero m → ix.row m = s.live.row m := by
        intro m hm
        by_cases hmn : (m : ℤ) = nodeId
        · exact hzero m hmn (hm.resolve_left fun hne => hne hmn)
        · exact hne m hmn
    · simp only [heq] at h
      obtain ⟨rfl, rfl⟩ := Prod.mk.inj h
      exact ⟨ix, rfl, hsh, hrows, fun res hres => by cases hres⟩
    · simp only [heq] at h
      obtain ⟨rfl, rfl⟩ := Prod.mk.inj h
      refine ⟨ix, rfl, hsh, hrows, fun res' hres => ?_⟩
      obtain rfl := Except.ok.inj hres
      obtain ⟨hsucc, hl, n, hn, -, hz⟩ := hok res rfl
      exact ⟨hsucc, n, hn, hsh.isLoaded.trans hl, hz⟩

/-- A save writes the temporary file whole, or raises. -/
theorem execSave_cases (env : Env) (s : Store) :
    (s.live.isLoaded = true ∧ execSave env s = (.ok (), { s with tmp := .snapshot s.live.owned })) ∨
      ∃ e t, execSave env s = (.error e, { s with tmp := t }) := by
  rw [execSave, Index.saveToFile]
  by_cases hl : s.live.isLoaded = true
  · rw [if_neg (by simp [hl])]
    by_cases hio : env.ioFails = true
    · exact Or.inr ⟨_, .torn, if_pos hio⟩
    · exact Or.inl ⟨hl, if_neg hio⟩
  · rw [if_pos (by simpa using hl)]
    exact Or.inr ⟨_, s.tmp, rfl⟩

/-- An fsync changes nothing that the store can see. -/
theorem execFsync_cases (env : Env) (s : Store) : ∃ r, execFsync env s = (r, s) := by
  unfold execFsync
  split
  · exact ⟨_, rfl⟩
  · split <;> exact ⟨_, rfl⟩

/-- A replace renames the temporary file, or raises with both files as they were. -/
theorem execReplace_cases (env : Env) (s : Store) :
    execReplace env s = (.ok (), { s with bin := s.tmp, tmp := .absent }) ∨
      ∃ e, execReplace env s = (.error e, s) := by
  unfold execReplace
  split
  · exact Or.inr ⟨_, rfl⟩
  · split
    · exact Or.inr ⟨_, rfl⟩
    · exact Or.inl rfl

/-- A whole snapshot loads. -/
theorem execLoad_snapshot {s : Store} {b : Index} (hb : s.bin = .snapshot b) :
    execLoad s = (.ok (), { s with live := b }) := by
  unfold execLoad
  split
  · rename_i h
    cases h.symm.trans hb
  · rename_i h
    cases h.symm.trans hb
  · rename_i ix h
    rw [IndexFile.snapshot.inj (h.symm.trans hb)]

/-- **What an operation can do to the store**: what is said below about every
operation is read off this list. -/
inductive Effect : Op → Store → Store → Prop where
  | none (o : Op) (s : Store) : Effect o s s
  | begun (nodeId maxM : ℤ) (s : Store) (r : BeginDeleteRecord) :
      Effect (.appendBeginDelete nodeId maxM) s (s.addRecord (.begin r) (s.log.txCounter + 1))
  | counted (nodeId maxM : ℤ) (s : Store) {c : ℤ} (hc : c ≤ s.log.txCounter + 1) :
      Effect (.appendBeginDelete nodeId maxM) s { s with log := ⟨s.log.records, c⟩ }
  | committed (tx : ℤ) (s : Store) (c : CommitRecord) :
      Effect (.appendCommit tx) s (s.addRecord (.commit c) s.log.txCounter)
  | erased (nodeId maxM : ℤ) (s : Store) {ix : Index} (hlive : s.live.Shadows ix)
      (hrows : ∀ m : ℕ, (m : ℤ) ≠ nodeId → ix.row m = s.live.row m) :
      Effect (.eraseNode nodeId maxM) s { s with live := ix }
  | acquired (i : ℕ) (s : Store) : Effect .acquireIo s { s with ioLock := some i }
  | released (s : Store) : Effect .releaseIo s { s with ioLock := Option.none }
  | written (o : Op) (s : Store) (t : IndexFile) : Effect o s { s with tmp := t }
  | published (s : Store) : Effect .replaceIndex s { s with bin := s.tmp, tmp := .absent }
  | loaded (s : Store) {ix : Index} (hbin : s.bin = .snapshot ix) :
      Effect .loadIndexFile s { s with live := ix }

/-- **Each operation has its effect**, whatever the environment does. -/
theorem exec_effect {i : ℕ} {o : Op} {env : Env} {s s' : Store} {r : Except PyError (Res o)}
    (h : exec H D i o env s = some (r, s')) : Effect o s s' := by
  cases o with
  | appendBeginDelete nodeId maxM =>
    have h := Option.some.inj h
    rcases execBegin_cases (H := H) nodeId maxM env s with
      ⟨b, -, -, -, -, -, -, -, heq⟩ | ⟨e, c, -, hhi, heq⟩
    · rw [heq] at h
      obtain ⟨-, rfl⟩ := Prod.mk.inj h
      exact .begun nodeId maxM s b
    · rw [heq] at h
      obtain ⟨-, rfl⟩ := Prod.mk.inj h
      exact .counted nodeId maxM s hhi
  | appendCommit tx =>
    have h := Option.some.inj h
    rcases execCommit_cases (H := H) tx env s with ⟨c, -, heq⟩ | ⟨e, heq⟩
    · rw [heq] at h
      obtain ⟨-, rfl⟩ := Prod.mk.inj h
      exact .committed tx s c
    · rw [heq] at h
      obtain ⟨-, rfl⟩ := Prod.mk.inj h
      exact .none _ s
  | eraseNode nodeId maxM =>
    obtain ⟨ix, rfl, hlive, hrows, -⟩ := execErase_cases (Option.some.inj h)
    exact .erased nodeId maxM s hlive fun m hm => hrows m (Or.inl hm)
  | acquireIo =>
    simp only [exec] at h
    split at h
    · obtain ⟨-, rfl⟩ := Prod.mk.inj (Option.some.inj h)
      exact .acquired i s
    · cases h
  | releaseIo =>
    obtain ⟨-, rfl⟩ := Prod.mk.inj (Option.some.inj h)
    exact .released s
  | unlinkTmp =>
    simp only [exec] at h
    split at h
    · obtain ⟨-, rfl⟩ := Prod.mk.inj (Option.some.inj h)
      exact .none _ s
    · obtain ⟨-, rfl⟩ := Prod.mk.inj (Option.some.inj h)
      exact .written _ s .absent
  | saveIndex =>
    have h := Option.some.inj h
    rcases execSave_cases env s with ⟨-, heq⟩ | ⟨e, t, heq⟩
    · rw [heq] at h
      obtain ⟨-, rfl⟩ := Prod.mk.inj h
      exact .written _ s _
    · rw [heq] at h
      obtain ⟨-, rfl⟩ := Prod.mk.inj h
      exact .written _ s t
  | fsyncTmp =>
    obtain ⟨r', heq⟩ := execFsync_cases env s
    rw [exec, heq] at h
    obtain ⟨-, rfl⟩ := Prod.mk.inj (Option.some.inj h)
    exact .none _ s
  | replaceIndex =>
    have h := Option.some.inj h
    rcases execReplace_cases env s with heq | ⟨e, heq⟩
    · rw [heq] at h
      obtain ⟨-, rfl⟩ := Prod.mk.inj h
      exact .published s
    · rw [heq] at h
      obtain ⟨-, rfl⟩ := Prod.mk.inj h
      exact .none _ s
  | loadIndexFile =>
    have h := Option.some.inj h
    unfold execLoad at h
    split at h
    · obtain ⟨-, rfl⟩ := Prod.mk.inj h
      exact .none _ s
    · obtain ⟨-, rfl⟩ := Prod.mk.inj h
      exact .none _ s
    · rename_i ix hbin
      obtain ⟨-, rfl⟩ := Prod.mk.inj h
      exact .loaded s hbin
  | indexPresent | uncommittedDeletes | isLoaded =>
    obtain ⟨-, rfl⟩ := Prod.mk.inj (Option.some.inj h)
    exact .none _ s

/-- No operation touches the requests, and each moves the log by a step at most. -/
theorem Effect.log {o : Op} {s s' : Store} (h : Effect o s s') :
    s'.asked = s.asked ∧ s'.log.txCounter ≤ s.log.txCounter + 1 ∧
      s'.log.records.length ≤ s.log.records.length + 1 := by
  cases h with
  | begun => exact ⟨rfl, le_rfl, by simp [addRecord]⟩
  | counted _ _ _ hc => exact ⟨rfl, hc, Nat.le_succ _⟩
  | committed => exact ⟨rfl, by simp [addRecord], by simp [addRecord]⟩
  | none | erased | acquired | released | written | published | loaded =>
    exact ⟨rfl, by simp, Nat.le_succ _⟩

/-- The same of a step of a program. -/
theorem step_log {α : Type} {i : ℕ} {env : Env} {p p' : Method α} {s s' : Store}
    (h : p.step (machine H D) i env s = some (p', s')) :
    s'.asked = s.asked ∧ s'.log.txCounter ≤ s.log.txCounter + 1 ∧
      s'.log.records.length ≤ s.log.records.length + 1 := by
  cases p with
  | ret a => cases h
  | raise e => cases h
  | op o k =>
    obtain ⟨⟨r, s₂⟩, he, heq⟩ := Option.map_eq_some_iff.mp h
    obtain ⟨-, rfl⟩ := Prod.mk.inj heq
    exact (exec_effect he).log

end Outcomes

/-! ## Retries -/

section Wp

variable {H : Sha256} {D : Type} [FloatArith D] {P : Plan} {i : ℕ} {R G : Store → Store → Prop}
  {α : Type}

/-- A retried method: every failed attempt leaves `A`. -/
theorem wp_lockRetry {p : Method α} {Q : Except PyError α → Store → Prop} {A : Store → Prop}
    (hp : ∀ s, A s → wp (machine H D) i R G (Inv P) p
      (fun r s => (∀ a, r = .ok a → Q r s) ∧ ∀ e, r = .error e → A s) s)
    (herr : ∀ e s, A s → Q (.error e) s) (k : ℕ) {s : Store} (hs : A s) :
    wp (machine H D) i R G (Inv P) (lockRetry k p) Q s := by
  induction k generalizing s with
  | zero =>
    refine wp_mono ?_ (hp s hs)
    rintro (e | a) s' ⟨hok, her⟩
    · exact herr e s' (her e rfl)
    · exact hok a rfl
  | succ k ih =>
    rw [lockRetry]
    refine wp_bind.mpr (wp_attempt.mpr (wp_mono ?_ (hp s hs)))
    rintro (e | a) s' ⟨hok, her⟩
    · show wp _ _ _ _ _ (if e.isContention = true then lockRetry k p else raise e) Q s'
      split
      · exact ih (her e rfl)
      · exact herr e s' (her e rfl)
    · exact hok a rfl

/-! ## `atomic_flush_index` -/

/-- Changes that do not touch the log or the requests and only zero rows. -/
structure Quiet (s s' : Store) : Prop where
  log : s'.log = s.log
  asked : s'.asked = s.asked
  live : s.live.Shadows s'.live
  bin : ∀ n, s.BinZero n → s'.BinZero n

/-- What a caller keeps knowing across a call. -/
structure Frame (R : Store → Store → Prop) (F : Store → Prop) : Prop where
  stable : ∀ s s', R s s' → F s → F s'
  quiet : ∀ s s', Quiet s s' → F s → F s'

/-- The lock is held, and row `n` of the live index is zero. -/
structure Held (i n : ℕ) (F : Store → Prop) (s : Store) : Prop where
  lock : s.ioLock = some i
  live : s.LiveZero n
  frame : F s

/-- What others do leaves a zeroed row zeroed. -/
theorem LiveZero.rely {s s' : Store} {n : ℕ} (h : s.LiveZero n) (hr : Rely i s s') : s'.LiveZero n :=
  ⟨hr.live.isLoaded.trans h.1, hr.live.zero n h.2⟩

/-- What is held under the lock is held whatever others do. -/
theorem Held.rely {F : Store → Prop} {n : ℕ} (hR : ∀ s s', R s s' → Rely i s s') (hF : Frame R F)
    {s s' : Store} (h : Held i n F s) (hr : R s s') : Held i n F s' :=
  ⟨((hR s s' hr).lock h.lock).1, LiveZero.rely h.live (hR s s' hr), hF.stable s s' hr h.frame⟩

/-- A snapshot that may be published stays so under the lock. -/
theorem Publishable.rely {s s' : Store} {x : Index} (h : Publishable P s x) (hr : Rely i s s')
    (hl : s.ioLock = some i) : Publishable P s' x where
  above := by
    rw [(hr.lock hl).2.2]
    exact h.above
  below := h.below.trans hr.live
  kept b₀ hb₀ n hn := h.kept b₀ hb₀ n fun hmem => hn (hr.asked hmem)

section Flush

variable {F : Store → Prop} {n : ℕ}

/-- Files that change keep the promises if the zeroed rows of the snapshot stay zero. -/
theorem quiet_files (s : Store) {b t : IndexFile} {l : Option ℕ}
    (hb : ∀ m, s.BinZero m → BinZero { s with bin := b, tmp := t, ioLock := l } m) :
    Quiet s { s with bin := b, tmp := t, ioLock := l } := ⟨rfl, rfl, .refl _, hb⟩

/-- Under the lock, a change of the temporary file. -/
theorem Held.setTmp (hG : ∀ s s', Guar i s s' → G s s') (hF : Frame R F) {s : Store}
    (hs : Held i n F s) (hi : Inv P s) (t : IndexFile) :
    Inv P { s with tmp := t } ∧ G s { s with tmp := t } ∧ Held i n F { s with tmp := t } :=
  ⟨hi.setTmp t s.ioLock, hG _ _ (guar_locked hs.lock fun _ h => h),
    hs.lock, hs.live, hF.quiet _ _ (quiet_files s fun _ h => h) hs.frame⟩

/-- The temporary file holds a snapshot that may be published, with row `n` zero. -/
def Staged (P : Plan) (n : ℕ) (s : Store) : Prop :=
  ∃ x, s.tmp = .snapshot x ∧ Publishable P s x ∧ x.RowZero n

/-- Nobody else touches the temporary file while the lock is held. -/
theorem Staged.rely {s s' : Store} (h : Staged P n s) (hr : Rely i s s') (hl : s.ioLock = some i) :
    Staged P n s' := by
  obtain ⟨x, ht, hx, hz⟩ := h
  exact ⟨x, (hr.lock hl).2.1.trans ht, Publishable.rely hx hr hl, hz⟩

variable (hR : ∀ s s', R s s' → Rely i s s') (hG : ∀ s s', Guar i s s' → G s s') (hF : Frame R F)
  (retries : ℕ)

include hR hG hF

/-- The save, with its retries, stages a snapshot. -/
theorem wp_save {s : Store} (hs : Held i n F s) :
    wp (machine H D) i R G (Inv P) (lockRetry retries (perform .saveIndex))
      (fun r s => Held i n F s ∧ (r = .ok () → Staged P n s)) s := by
  refine wp_lockRetry (A := Held i n F) ?_ (fun e s h => ⟨h, fun h' => by cases h'⟩) retries hs
  intro s hs
  refine wp_call fun s₁ hr₁ hi₁ env r s₂ he => ?_
  have h₁ := hs.rely hR hF hr₁
  have he := Option.some.inj he
  rcases execSave_cases env s₁ with ⟨hl, heq⟩ | ⟨e, t, heq⟩
  · rw [heq] at he
    obtain ⟨rfl, rfl⟩ := Prod.mk.inj he
    obtain ⟨hi₂, hg, h₂⟩ := h₁.setTmp (P := P) hG hF hi₁ (.snapshot s₁.live.owned)
    refine ⟨hi₂, hg, fun _ _ => ⟨h₂, fun _ => ⟨s₁.live.owned, rfl, ?_, ?_⟩⟩, fun e he => by cases he⟩
    · exact ⟨(hi₁.publishable hl).above, (hi₁.publishable hl).below, (hi₁.publishable hl).kept⟩
    · exact (Index.shadows_owned s₁.live).zero n h₁.live.2
  · rw [heq] at he
    obtain ⟨rfl, rfl⟩ := Prod.mk.inj he
    obtain ⟨hi₂, hg, h₂⟩ := h₁.setTmp (P := P) hG hF hi₁ t
    exact ⟨hi₂, hg, fun a ha => (by cases ha), fun _ _ => h₂⟩

/-- The publication of a staged snapshot. -/
theorem wp_replace {s : Store} (hs : Held i n F s) (ht : Staged P n s) :
    wp (machine H D) i R G (Inv P) (perform .replaceIndex)
      (fun r s => Held i n F s ∧ (r = .ok () → s.BinZero n)) s := by
  refine wp_call fun s₁ hr₁ hi₁ env r s₂ he => ?_
  have h₁ := hs.rely hR hF hr₁
  obtain ⟨x, htmp, hx, hz⟩ := ht.rely (hR _ _ hr₁) hs.lock
  have he := Option.some.inj he
  rcases execReplace_cases env s₁ with heq | ⟨e, heq⟩
  · rw [heq, htmp] at he
    obtain ⟨rfl, rfl⟩ := Prod.mk.inj he
    have hmono : ∀ m, s₁.BinZero m → BinZero { s₁ with bin := .snapshot x, tmp := .absent } m :=
      fun m hm => hx.binZero rfl hm
    exact ⟨hi₁.replace hx, hG _ _ (guar_locked h₁.lock hmono),
      ⟨h₁.lock, h₁.live, hF.quiet _ _ (quiet_files s₁ hmono) h₁.frame⟩, fun _ => ⟨x, rfl, hz⟩⟩
  · rw [heq] at he
    obtain ⟨rfl, rfl⟩ := Prod.mk.inj he
    exact ⟨hi₁, hG _ _ fun j _ => .refl j _, h₁, fun h => by cases h⟩

/-- The body of the flush ends with the lock held and, if it returns, with row
`n` zero in `index.bin`. -/
theorem wp_flushLocked {s : Store} (hs : Held i n F s) :
    wp (machine H D) i R G (Inv P) (flushLocked retries)
      (fun r s => Held i n F s ∧ (r = .ok () → s.BinZero n)) s := by
  rw [flushLocked]
  -- a stale temporary file is removed
  refine wp_bind.mpr (wp_call fun s₁ hr₁ hi₁ env r s₂ he => ?_)
  have h₁ := hs.rely hR hF hr₁
  obtain ⟨t, rfl⟩ : ∃ t, s₂ = { s₁ with tmp := t } := by
    simp only [machine, exec] at he
    split at he
    · exact ⟨s₁.tmp, (Prod.mk.inj (Option.some.inj he)).2.symm⟩
    · exact ⟨.absent, (Prod.mk.inj (Option.some.inj he)).2.symm⟩
  obtain ⟨hi₂, hg, h₂⟩ := h₁.setTmp (P := P) hG hF hi₁ t
  refine ⟨hi₂, hg, ?_⟩
  rcases r with e | ⟨⟩
  · exact ⟨h₂, fun h => by cases h⟩
  -- the snapshot
  refine wp_bind.mpr (wp_mono ?_ (wp_save (P := P) hR hG hF retries h₂))
  rintro (e | ⟨⟩) s₃ ⟨h₃, hst⟩
  · exact ⟨h₃, fun h => by cases h⟩
  -- its `fsync`
  refine wp_bind.mpr (wp_call fun s₄ hr₄ hi₄ env r s₅ he => ?_)
  have h₄ := h₃.rely hR hF hr₄
  obtain ⟨r', heq⟩ := execFsync_cases env s₄
  have he := Option.some.inj he
  rw [heq] at he
  obtain ⟨rfl, rfl⟩ := Prod.mk.inj he
  refine ⟨hi₄, hG _ _ fun j _ => .refl j _, ?_⟩
  rcases r' with e | ⟨⟩
  · exact ⟨h₄, fun h => by cases h⟩
  exact wp_replace hR hG hF h₄ ((hst rfl).rely (hR _ _ hr₄) h₃.lock)

/-- **`atomic_flush_index`.** From a live index whose row `n` is zero: if it
returns, row `n` of `index.bin` is zero; in any case the caller's frame holds. -/
theorem wp_atomicFlushIndex {s : Store} (hlive : s.LiveZero n) (hs : F s) :
    wp (machine H D) i R G (Inv P) (atomicFlushIndex retries)
      (fun r s => F s ∧ (r = .ok () → s.BinZero n)) s := by
  rw [atomicFlushIndex]
  refine wp_bind.mpr (wp_call fun s₁ hr₁ hi₁ env r s₂ he => ?_)
  simp only [machine, exec] at he
  split at he
  · rename_i hnone
    obtain ⟨rfl, rfl⟩ := Prod.mk.inj (Option.some.inj he)
    have hfree : s₁.ioLock = none := Option.isNone_iff_eq_none.mp hnone
    have hl₁ : s₁.LiveZero n := LiveZero.rely hlive (hR _ _ hr₁)
    have hheld : Held i n F { s₁ with ioLock := some i } :=
      ⟨rfl, hl₁, hF.quiet _ _ (quiet_files s₁ fun _ h => h) (hF.stable _ _ hr₁ hs)⟩
    refine ⟨hi₁.setTmp s₁.tmp (some i), hG _ _ (guar_acquire i hfree), ?_⟩
    show wp _ _ _ _ _ (cleanup (flushLocked retries) (perform .releaseIo)) _ _
    rw [cleanup]
    refine wp_bind.mpr (wp_attempt.mpr (wp_mono ?_
      (wp_flushLocked (P := P) hR hG hF retries hheld)))
    intro r s₃ ⟨h₃, hbin⟩
    -- the lock is released whatever happened
    refine wp_bind.mpr (wp_call fun s₄ hr₄ hi₄ env r' s₅ he => ?_)
    obtain ⟨rfl, rfl⟩ := Prod.mk.inj (Option.some.inj he)
    have h₄ := h₃.rely hR hF hr₄
    have hF₅ := hF.quiet _ _ (quiet_files s₄ (b := s₄.bin) (t := s₄.tmp) (l := none) fun _ h => h)
      h₄.frame
    refine ⟨hi₄.setTmp s₄.tmp none, hG _ _ (guar_locked h₄.lock fun _ h => h), ?_⟩
    rcases r with e | ⟨⟩
    · exact ⟨hF₅, fun h => by cases h⟩
    · exact ⟨hF₅, fun _ => (hR _ _ hr₄).bin n (hbin rfl)⟩
  · cases he

end Flush

/-! ## Erase, flush, commit -/

section Commit

variable {F : Store → Prop} (hR : ∀ s s', R s s' → Rely i s s')
  (hG : ∀ s s', Guar i s s' → G s s') (hF : Frame R F) (retries : ℕ)

/-- What others do leaves the node erasable. -/
theorem Erasable.rely {s s' : Store} {nodeId : ℤ} (h : s.Erasable nodeId) (hr : Rely i s s') :
    s'.Erasable nodeId := by
  rcases h with hasked | ⟨n, hn, hz⟩
  · exact Or.inl (hr.asked hasked)
  · exact Or.inr ⟨n, hn, hr.bin n hz⟩

/-- The unrequested rows an erase of an `Erasable` target leaves alone. -/
theorem row_eq_of_erasable {s : Store} {ix : Index} {nodeId : ℤ} (hi : Inv P s)
    (her : s.Erasable nodeId)
    (hrows : ∀ m : ℕ, (m : ℤ) ≠ nodeId ∨ s.live.RowZero m → ix.row m = s.live.row m)
    (m : ℕ) (hm : (m : ℤ) ∉ s.asked) (hl : s.live.isLoaded = true) : ix.row m = s.live.row m := by
  refine hrows m ?_
  by_cases hmn : (m : ℤ) = nodeId
  · rcases her with hasked | ⟨n, hn, hz⟩
    · exact absurd (hmn ▸ hasked) hm
    · have hmn' : m = n := by exact_mod_cast hmn.trans hn
      rw [hmn']
      exact Or.inr (hi.liveZero hl hz).2
  · exact Or.inl hmn

include hG hF

/-- The erase, with its retries. -/
theorem wp_erase {nodeId maxM : ℤ} (her : ∀ s, F s → s.Erasable nodeId) {s : Store} (hs : F s) :
    wp (machine H D) i R G (Inv P) (lockRetry retries (perform (.eraseNode nodeId maxM)))
      (fun r s => F s ∧ ∀ res, r = .ok res →
        res.success = true ∧ ∃ n : ℕ, nodeId = n ∧ s.LiveZero n) s := by
  refine wp_lockRetry (A := F) ?_ (fun e s h => ⟨h, fun res h' => by cases h'⟩) retries hs
  intro s hs
  refine wp_call fun s₁ hr₁ hi₁ env r s₂ he => ?_
  have h₁ := hF.stable _ _ hr₁ hs
  obtain ⟨ix, rfl, hsh, hrows, hok⟩ := execErase_cases (Option.some.inj he)
  have hkept := row_eq_of_erasable hi₁ (her s₁ h₁) hrows
  have h₂ : F { s₁ with live := ix } := hF.quiet s₁ _ ⟨rfl, rfl, hsh, fun _ h => h⟩ h₁
  exact ⟨hi₁.setLive hsh hkept, hG _ _ fun j _ => rely_setLive j hsh,
    fun _ _ => ⟨h₂, hok⟩, fun _ _ => h₂⟩

include hR

/-- **Erase, flush, commit.** If it returns, the target's row was zero in
`index.bin` when the COMMIT was appended. -/
theorem wp_eraseAndCommit {nodeId maxM : ℤ} {tx : ℕ} (her : ∀ s, F s → s.Erasable nodeId)
    (hown : ∀ s, F s → ∃ r ∈ begins s.log.records, r.transactionId = tx ∧
      (r.targetNodeId : ℤ) = nodeId) {s : Store} (hs : F s) :
    wp (machine H D) i R G (Inv P) (eraseAndCommit retries nodeId maxM tx)
      (fun r s => ∀ res, r = .ok res → ∃ s₀ c, F s₀ ∧ Inv P s ∧ c.transactionId = tx ∧
        s = s₀.addRecord (.commit c) s₀.log.txCounter ∧ ∃ n : ℕ, nodeId = n ∧ s₀.BinZero n) s := by
  rw [eraseAndCommit]
  refine wp_bind.mpr (wp_mono ?_ (wp_erase (P := P) hG hF retries her hs))
  rintro (e | res) s₁ ⟨h₁, hok⟩
  · exact fun res h => by cases h
  obtain ⟨hsucc, n, rfl, hlive⟩ := hok res rfl
  show wp _ _ _ _ _ (if (!res.success) = true then _ else _) _ _
  rw [if_neg (by simp [hsucc])]
  refine wp_bind.mpr (wp_mono ?_ (wp_atomicFlushIndex (P := P) hR hG hF retries hlive h₁))
  rintro (e | ⟨⟩) s₂ ⟨h₂, hbin⟩
  · exact fun res h => by cases h
  refine wp_bind.mpr (wp_call fun s₃ hr₃ hi₃ env r s₄ he => ?_)
  have h₃ := hF.stable _ _ hr₃ h₂
  have hz := (hR _ _ hr₃).bin n (hbin rfl)
  have he := Option.some.inj he
  rcases execCommit_cases (H := H) (tx : ℤ) env s₃ with ⟨c, hc, heq⟩ | ⟨e, heq⟩
  · rw [heq] at he
    obtain ⟨rfl, rfl⟩ := Prod.mk.inj he
    have hctx : c.transactionId = tx := by exact_mod_cast hc
    obtain ⟨b, hb, hbtx, hbn⟩ := hown s₃ h₃
    have hbn' : b.targetNodeId = n := by exact_mod_cast hbn
    -- ids are distinct, so the COMMIT retires this BEGIN only
    have hzero : ∀ r ∈ begins s₃.log.records, r.transactionId = c.transactionId →
        s₃.BinZero r.targetNodeId := by
      intro r hr hrtx
      have hrb : r = b := List.inj_on_of_nodup_map hi₃.distinct hr hb
        (hrtx.trans (hctx.trans hbtx.symm))
      rw [hrb, hbn']
      exact hz
    have hid : (c.transactionId : ℤ) ≤ s₃.log.txCounter := by
      rw [hctx, ← hbtx]
      exact hi₃.ids _ (mem_begins.mp hb)
    refine ⟨hi₃.commit hid hzero, hG _ _ fun j _ => rely_addRecord j _ le_rfl, fun res' _ => ?_⟩
    exact ⟨s₃, c, h₃, hi₃.commit hid hzero, hctx, rfl, n, rfl, hz⟩
  · rw [heq] at he
    obtain ⟨rfl, rfl⟩ := Prod.mk.inj he
    exact ⟨hi₃, hG _ _ fun j _ => .refl j _, fun res h => by cases h⟩

end Commit

/-! ## `hard_delete_and_heal` -/

/-- The arguments of a request whose BEGIN, if it is logged, the plan admits. -/
def Plan.Allows (P : Plan) (nodeId maxM : ℤ) : Prop :=
  ∀ n m : ℕ, nodeId = n → maxM = m → n < 256 ^ 8 → m < 256 ^ 4 → 1 ≤ m → P.admits n m

/-- No BEGIN is lost by what others do. -/
theorem mem_begins_of_rely {s s' : Store} (hr : Rely i s s') {r : BeginDeleteRecord}
    (h : r ∈ begins s.log.records) : r ∈ begins s'.log.records :=
  mem_begins.mpr (hr.log.subset (mem_begins.mp h))

/-- What a delete knows after its BEGIN. -/
theorem frame_begun (nodeId : ℤ) (r : BeginDeleteRecord) :
    Frame (Rely i) fun s => s.Erasable nodeId ∧ r ∈ begins s.log.records where
  stable _ _ hr h := ⟨Erasable.rely h.1 hr, mem_begins_of_rely hr h.2⟩
  quiet s s' hq h := by
    refine ⟨?_, by rw [hq.log]; exact h.2⟩
    rcases h.1 with hasked | ⟨n, hn, hz⟩
    · exact Or.inl (by rw [hq.asked]; exact hasked)
    · exact Or.inr ⟨n, hn, hq.bin n hz⟩

/-- **`hard_delete_and_heal`**, among any other threads. -/
theorem wp_hardDeleteAndHeal (retries : ℕ) {nodeId maxM : ℤ} (hallow : P.Allows nodeId maxM)
    {s : Store} (hasked : nodeId ∈ s.asked) :
    wp (machine H D) i (Rely i) (Guar i) (Inv P) (hardDeleteAndHeal retries nodeId maxM)
      (fun _ _ => True) s := by
  rw [hardDeleteAndHeal]
  refine wp_bind.mpr (wp_call fun s₁ hr₁ hi₁ env r s₂ he => ?_)
  have hasked₁ := hr₁.asked hasked
  have he := Option.some.inj he
  rcases execBegin_cases (H := H) nodeId maxM env s₁ with
    ⟨b, htx, -, hnode, hm, hnw, hmw, hm1, heq⟩ | ⟨e, c, hlo, -, heq⟩
  · rw [heq] at he
    obtain ⟨rfl, rfl⟩ := Prod.mk.inj he
    have her : s₁.Erasable b.targetNodeId := Or.inl (hnode ▸ hasked₁)
    have hi₂ := hi₁.begin htx (hallow _ _ hnode.symm hm.symm hnw hmw hm1) her
    refine ⟨hi₂, fun j _ => rely_addRecord j _ (by omega), ?_⟩
    have hmem : b ∈ begins (s₁.addRecord (.begin b) (s₁.log.txCounter + 1)).log.records :=
      mem_begins.mpr (List.mem_append_right _ List.mem_cons_self)
    refine wp_bind.mpr (wp_mono ?_ (wp_eraseAndCommit (P := P) (R := Rely i) (G := Guar i)
      (fun _ _ h => h) (fun _ _ h => h) (frame_begun nodeId b) retries (fun s h => h.1)
      (fun s h => ⟨b, h.2, rfl, hnode⟩) ⟨Or.inl hasked₁, hmem⟩))
    rintro (e | res) s' _
    · trivial
    · trivial
  · rw [heq] at he
    obtain ⟨rfl, rfl⟩ := Prod.mk.inj he
    exact ⟨hi₁.setCounter hlo, fun j _ => rely_setCounter j hlo, trivial⟩

/-! ## `bootstrap` -/

section Boot

/-- While `bootstrap` runs nothing else does. -/
abbrev Alone (s s' : Store) : Prop := s = s'

/-- Doing nothing is allowed to others. -/
theorem alone_rely (s s' : Store) (h : Alone s s') : Rely i s s' := h ▸ .refl i s

/-- A BEGIN that is done with: retired, and its row zero in `index.bin`. -/
def Settled (s : Store) (r : BeginDeleteRecord) : Prop :=
  r.transactionId ∈ committed s.log.records ∧ s.BinZero r.targetNodeId

/-- The state of the replay loop: `rest` is still to be replayed. -/
structure Replaying (P : Plan) (rest : List BeginDeleteRecord) (s : Store) : Prop where
  inv : Inv P s
  live : s.live.isLoaded = true
  logged : ∀ r ∈ rest, r ∈ begins s.log.records
  erasable : ∀ r ∈ rest, s.Erasable r.targetNodeId
  settled : P.fixed.isSome → ∀ r ∈ begins s.log.records, Settled s r ∨ r ∈ rest

/-- What the replay of `pending` knows once its BEGIN is logged: the log is
`records` with the new BEGIN, and rows only became zero since `s₀`. -/
structure Replay (s₀ : Store) (s : Store) : Prop where
  log : s.log = s₀.log
  asked : s.asked = s₀.asked
  live : s₀.live.Shadows s.live
  bin : ∀ n, s₀.BinZero n → s.BinZero n

/-- Alone, a replay is disturbed by nobody. -/
theorem frame_replay (s₀ : Store) : Frame Alone (Replay s₀) where
  stable _ _ h hs := h ▸ hs
  quiet _ _ hq h := ⟨hq.log.trans h.log, hq.asked.trans h.asked, h.live.trans hq.live,
    fun n hn => hq.bin n (h.bin n hn)⟩

/-- During a replay its node stays erasable. -/
theorem Replay.erasable {s₀ s : Store} (h : Replay s₀ s) {nodeId : ℤ} (he : s₀.Erasable nodeId) :
    s.Erasable nodeId := by
  rcases he with hasked | ⟨n, hn, hz⟩
  · exact Or.inl (by rw [h.asked]; exact hasked)
  · exact Or.inr ⟨n, hn, h.bin n hz⟩

/-- The replay loop moves on once `pending` and what it logged are settled. -/
theorem Replaying.next {pending : BeginDeleteRecord} {rest : List BeginDeleteRecord} {s s' : Store}
    (hs : Replaying P (pending :: rest) s) (hi : Inv P s') (hlive : s'.live.isLoaded = true)
    (hold : begins s.log.records ⊆ begins s'.log.records)
    (hcom : committed s.log.records ⊆ committed s'.log.records)
    (hbin : ∀ n, s.BinZero n → s'.BinZero n) (hasked : s'.asked = s.asked)
    (hnew : ∀ r ∈ begins s'.log.records, r ∈ begins s.log.records ∨ Settled s' r)
    (hpend : Settled s' pending) : Replaying P rest s' where
  inv := hi
  live := hlive
  logged r hr := hold (hs.logged r (List.mem_cons_of_mem _ hr))
  erasable r hr := by
    rcases hs.erasable r (List.mem_cons_of_mem _ hr) with hask | ⟨n, hn, hz⟩
    · exact Or.inl (by rw [hasked]; exact hask)
    · exact Or.inr ⟨n, hn, hbin n hz⟩
  settled hfix r hr := by
    rcases hnew r hr with hr | hset
    · rcases hs.settled hfix r hr with ⟨hc, hz⟩ | hmem
      · exact Or.inl ⟨hcom hc, hbin _ hz⟩
      · rcases List.mem_cons.mp hmem with rfl | hrest
        · exact Or.inl hpend
        · exact Or.inr hrest
    · exact Or.inl hset

/-- The store once the new transaction `b` of a replay has its COMMIT: the log grew
by the two records, and rows only became zero. -/
structure Replayed (P : Plan) (s : Store) (b : BeginDeleteRecord) (s' : Store) : Prop where
  inv : Inv P s'
  begins_eq : begins s'.log.records = begins s.log.records ++ [b]
  committed_eq : committed s'.log.records = committed s.log.records ++ [b.transactionId]
  bin : ∀ n, s.BinZero n → s'.BinZero n
  zero : s'.BinZero b.targetNodeId
  live : s'.live.isLoaded = true
  asked : s'.asked = s.asked

/-- A BEGIN that was replayed is settled. -/
theorem Replayed.settled {s s' : Store} {b : BeginDeleteRecord} (h : Replayed P s b s') :
    Settled s' b := by
  refine ⟨?_, h.zero⟩
  rw [h.committed_eq]
  exact List.mem_append_right _ List.mem_cons_self

/-- The BEGINs of the log are the old ones and `b`. -/
theorem Replayed.mem_begins {s s' : Store} {b r : BeginDeleteRecord} (h : Replayed P s b s')
    (hr : r ∈ begins s'.log.records) : r ∈ begins s.log.records ∨ r = b := by
  rw [h.begins_eq] at hr
  exact (List.mem_append.mp hr).imp_right List.mem_singleton.mp

/-- The replay took the id of the orphaned transaction: nothing is left to retire. -/
theorem Replaying.next_same {pending b : BeginDeleteRecord} {rest : List BeginDeleteRecord}
    {s s' : Store} (hs : Replaying P (pending :: rest) s) (h : Replayed P s b s')
    (hnode : b.targetNodeId = pending.targetNodeId)
    (hsame : pending.transactionId = b.transactionId) : Replaying P rest s' := by
  refine hs.next h.inv h.live ?_ ?_ h.bin h.asked ?_ ⟨hsame ▸ h.settled.1, hnode ▸ h.zero⟩
  · rw [h.begins_eq]
    exact List.subset_append_left _ _
  · rw [h.committed_eq]
    exact List.subset_append_left _ _
  · intro r hr
    rcases h.mem_begins hr with hold | rfl
    · exact Or.inl hold
    · exact Or.inr h.settled

/-- The COMMIT of the orphaned transaction keeps the invariant. -/
theorem Replayed.inv_commit {pending b : BeginDeleteRecord} {s s' : Store} {c : CommitRecord}
    (h : Replayed P s b s') (hpend : pending ∈ begins s.log.records)
    (hnode : b.targetNodeId = pending.targetNodeId) (hc : c.transactionId = pending.transactionId) :
    Inv P (s'.addRecord (.commit c) s'.log.txCounter) := by
  have hpend' : pending ∈ begins s'.log.records := by
    rw [h.begins_eq]
    exact List.mem_append_left _ hpend
  refine h.inv.commit ?_ ?_
  · rw [hc]
    exact h.inv.ids _ (Unlearning.mem_begins.mp hpend')
  · intro r hr hrtx
    rw [List.inj_on_of_nodup_map h.inv.distinct hr hpend' (hrtx.trans hc)]
    exact hnode ▸ h.zero

/-- The orphaned transaction has its COMMIT as well. -/
theorem Replaying.next_commit {pending b : BeginDeleteRecord} {rest : List BeginDeleteRecord}
    {s s' : Store} {c : CommitRecord} (hs : Replaying P (pending :: rest) s) (h : Replayed P s b s')
    (hnode : b.targetNodeId = pending.targetNodeId) (hc : c.transactionId = pending.transactionId) :
    Replaying P rest (s'.addRecord (.commit c) s'.log.txCounter) := by
  have hi := h.inv_commit (hs.logged _ List.mem_cons_self) hnode hc
  refine hs.next hi h.live ?_ ?_ h.bin h.asked ?_ ⟨?_, hnode ▸ h.zero⟩
  · rw [begins_addCommit, h.begins_eq]
    exact List.subset_append_left _ _
  · rw [committed_addCommit, h.committed_eq, List.append_assoc]
    exact List.subset_append_left _ _
  · intro r hr
    rw [begins_addCommit] at hr
    rcases h.mem_begins hr with hold | rfl
    · exact Or.inl hold
    · refine Or.inr ⟨?_, h.zero⟩
      rw [committed_addCommit]
      exact List.mem_append_left _ h.settled.1
  · rw [committed_addCommit, hc]
    exact List.mem_append_right _ List.mem_cons_self

/-- **One replay.** It retires the new transaction and the orphaned one. -/
theorem wp_replayOne (retries : ℕ) {pending : BeginDeleteRecord} {rest : List BeginDeleteRecord}
    {s : Store} (hs : Replaying P (pending :: rest) s) :
    wp (machine H D) i Alone (fun _ _ => True) (Inv P) (replayOne retries pending)
      (fun r s => ∀ res, r = .ok res → Replaying P rest s) s := by
  rw [replayOne]
  refine wp_bind.mpr (wp_call fun s₁ hr₁ hi₁ env r s₂ he => ?_)
  obtain rfl : s = s₁ := hr₁
  have hpend : pending ∈ begins s.log.records := hs.logged _ List.mem_cons_self
  have herp : s.Erasable pending.targetNodeId := hs.erasable _ List.mem_cons_self
  have he := Option.some.inj he
  rcases execBegin_cases (H := H) pending.targetNodeId pending.maxM env s with
    ⟨b, htx, -, hnode, hm, -, -, -, heq⟩ | ⟨e, c, hlo, -, heq⟩
  · rw [heq] at he
    obtain ⟨rfl, rfl⟩ := Prod.mk.inj he
    have hnode' : b.targetNodeId = pending.targetNodeId := by exact_mod_cast hnode
    have hm' : b.maxM = pending.maxM := by exact_mod_cast hm
    have hadm : P.admits b.targetNodeId b.maxM := by
      rw [hnode', hm']
      exact hi₁.admitted _ hpend
    refine ⟨hi₁.begin htx hadm (hnode' ▸ herp), trivial, ?_⟩
    refine wp_bind.mpr (wp_mono ?_ (wp_eraseAndCommit (P := P) (R := Alone)
      (G := fun _ _ => True) alone_rely (fun _ _ _ => trivial)
      (frame_replay (s.addRecord (.begin b) (s.log.txCounter + 1))) retries
      (fun s h => h.erasable herp)
      (fun s h => ⟨b, by rw [h.log, begins_addBegin]; exact List.mem_append_right _ List.mem_cons_self,
        rfl, hnode⟩) ⟨rfl, rfl, .refl _, fun _ h => h⟩))
    rintro (e | res) s₃ hres
    · exact fun res h => by cases h
    obtain ⟨s₀, c, hfr, hi₃, hctx, hs₃, n, hn, hz⟩ := hres res rfl
    have hn' : b.targetNodeId = n := by
      rw [hnode']
      exact_mod_cast hn
    have hdone : Replayed P s b s₃ := by
      refine ⟨hi₃, ?_, ?_, fun m hm => ?_, ?_, ?_, ?_⟩
      all_goals rw [hs₃]
      · rw [begins_addCommit, hfr.log, begins_addBegin]
      · rw [committed_addCommit, hfr.log, committed_addBegin, hctx]
      · exact hfr.bin m hm
      · rw [hn']
        exact hz
      · exact hfr.live.isLoaded.trans hs.live
      · exact hfr.asked
    show wp _ _ _ _ _ (if pending.transactionId ≠ b.transactionId then _ else _) _ _
    split
    · refine wp_bind.mpr (wp_call fun s₄ hr₄ _ env r s₅ he => ?_)
      obtain rfl : s₃ = s₄ := hr₄
      have he := Option.some.inj he
      rcases execCommit_cases (H := H) (pending.transactionId : ℤ) env s₃ with
        ⟨c', hc', heq⟩ | ⟨e, heq⟩
      · rw [heq] at he
        obtain ⟨rfl, rfl⟩ := Prod.mk.inj he
        have hc'' : c'.transactionId = pending.transactionId := by exact_mod_cast hc'
        exact ⟨hdone.inv_commit hpend hnode' hc'', trivial,
          fun _ _ => hs.next_commit hdone hnode' hc''⟩
      · rw [heq] at he
        obtain ⟨rfl, rfl⟩ := Prod.mk.inj he
        exact ⟨hi₃, trivial, fun res h => by cases h⟩
    · rename_i heq
      exact fun _ _ => hs.next_same hdone hnode' (not_not.mp heq)
  · rw [heq] at he
    obtain ⟨rfl, rfl⟩ := Prod.mk.inj he
    exact ⟨hi₁.setCounter hlo, trivial, fun res h => by cases h⟩

/-- **The replay loop**, by induction on what is left. -/
theorem wp_replayAll (retries : ℕ) {rest : List BeginDeleteRecord} {s : Store}
    (hs : Replaying P rest s) :
    wp (machine H D) i Alone (fun _ _ => True) (Inv P) (replayAll retries rest)
      (fun r s => ∀ res, r = .ok res → Replaying P [] s) s := by
  induction rest generalizing s with
  | nil => exact fun _ _ => hs
  | cons pending rest ih =>
    rw [replayAll]
    refine wp_bind.mpr (wp_mono ?_ (wp_replayOne retries hs))
    rintro (e | res) s₁ h₁
    · exact fun res h => by cases h
    refine wp_bind.mpr (wp_mono ?_ (ih (h₁ res rfl)))
    rintro (e | results) s₂ h₂
    · exact fun res h => by cases h
    · exact fun _ _ => h₂ results rfl

/-- What holds when `bootstrap` has returned: with a checkpoint, every BEGIN is settled. -/
def Booted (P : Plan) (s : Store) : Prop :=
  P.fixed.isSome → s.live.isLoaded = true ∧ ∀ r ∈ begins s.log.records, Settled s r

/-- A BEGIN is settled or pending. -/
theorem settled_or_pending {s : Store} (hi : Inv P s) (hfix : P.fixed.isSome)
    {r : BeginDeleteRecord} (hr : r ∈ begins s.log.records) :
    Settled s r ∨ r ∈ uncommittedDeletes s.log.records := by
  obtain ⟨N, hN⟩ := Option.isSome_iff_exists.mp hfix
  by_cases hc : r.transactionId ∈ committed s.log.records
  · exact Or.inl ⟨hc, (hi.fixed N hN).2 r hr hc⟩
  · exact Or.inr ((mem_uncommittedDeletes hi.distinct).mpr ⟨hr, hc⟩)

/-- **Recovery settles every pending BEGIN** and keeps the invariant. -/
theorem wp_recoverUncommitted (retries : ℕ) {s : Store} (hi : Inv P s)
    (hl : P.fixed.isSome → s.live.isLoaded = true) :
    wp (machine H D) i Alone (fun _ _ => True) (Inv P) (recoverUncommitted retries)
      (fun r s => ∀ res, r = .ok res → Booted P s) s := by
  rw [recoverUncommitted]
  refine wp_bind.mpr (wp_call fun s₁ hr₁ hi₁ env r s₂ he => ?_)
  obtain rfl : s = s₁ := hr₁
  obtain ⟨rfl, rfl⟩ := Prod.mk.inj (Option.some.inj he)
  refine ⟨hi₁, trivial, ?_⟩
  show wp _ _ _ _ _ (if uncommittedDeletes s.log.records = [] then _ else _) _ _
  split
  · rename_i hnil
    refine fun _ _ hfix => ⟨hl hfix, fun r hr => (settled_or_pending hi hfix hr).resolve_right ?_⟩
    rw [hnil]
    exact List.not_mem_nil
  · refine wp_bind.mpr (wp_call fun s₁ hr₁ hi₁ env r s₂ he => ?_)
    obtain rfl : s = s₁ := hr₁
    obtain ⟨rfl, rfl⟩ := Prod.mk.inj (Option.some.inj he)
    refine ⟨hi₁, trivial, ?_⟩
    show wp _ _ _ _ _ (if s.live.isLoaded = true then _ else _) _ _
    split
    · rename_i hlive
      have hstart : Replaying P (uncommittedDeletes s.log.records) s :=
        ⟨hi, hlive, fun r hr => (of_mem_uncommittedDeletes hr).1,
          fun r hr => hi.pending r (of_mem_uncommittedDeletes hr).1 (of_mem_uncommittedDeletes hr).2,
          fun hfix r hr => settled_or_pending hi hfix hr⟩
      refine wp_mono ?_ (wp_replayAll retries hstart)
      intro r s' h res hres hfix
      have hdone := h res hres
      exact ⟨hdone.live, fun b hb => (hdone.settled hfix b hb).resolve_right List.not_mem_nil⟩
    · rename_i hnot
      exact fun _ _ hfix => absurd (hl hfix) hnot

/-- Loading the snapshot keeps the invariant. -/
theorem wp_loadIndexIfPresent {s : Store} (hi : Inv P s) :
    wp (machine H D) i Alone (fun _ _ => True) (Inv P) loadIndexIfPresent
      (fun r s => ∀ res, r = .ok res → Inv P s ∧ (P.fixed.isSome → s.live.isLoaded = true)) s := by
  rw [loadIndexIfPresent]
  refine wp_bind.mpr (wp_call fun s₁ hr₁ hi₁ env r s₂ he => ?_)
  obtain rfl : s = s₁ := hr₁
  obtain ⟨rfl, rfl⟩ := Prod.mk.inj (Option.some.inj he)
  refine ⟨hi₁, trivial, ?_⟩
  rcases hbin : s.bin with _ | _ | b
  · -- no file: not in a run that starts from a checkpoint
    refine fun _ _ => ⟨hi, fun hfix => ?_⟩
    obtain ⟨N, hN⟩ := Option.isSome_iff_exists.mp hfix
    obtain ⟨⟨b, hb, -⟩, -⟩ := hi.fixed N hN
    rw [hbin] at hb
    cases hb
  · exact absurd hbin hi.not_torn
  · refine wp_bind.mpr (wp_call fun s₁ hr₁ hi₁ env r s₂ he => ?_)
    obtain rfl : s = s₁ := hr₁
    have he := Option.some.inj he
    rw [execLoad_snapshot hbin] at he
    obtain ⟨rfl, rfl⟩ := Prod.mk.inj he
    exact ⟨hi₁.load hbin, trivial, fun _ _ => ⟨hi₁.load hbin, fun _ => hi₁.loaded b hbin⟩⟩

/-- **`bootstrap`**, alone. -/
theorem wp_bootstrap (retries : ℕ) {s : Store} (hi : Inv P s) :
    wp (machine H D) i Alone (fun _ _ => True) (Inv P) (bootstrap retries)
      (fun r s => ∀ rep, r = .ok rep → Booted P s) s := by
  rw [bootstrap]
  refine wp_bind.mpr (wp_mono ?_ (wp_loadIndexIfPresent hi))
  rintro (e | present) s₁ h₁
  · exact fun _ h => by cases h
  obtain ⟨hi₁, hl₁⟩ := h₁ present rfl
  refine wp_bind.mpr (wp_mono ?_ (wp_recoverUncommitted retries hi₁ hl₁))
  rintro (e | results) s₂ h₂
  · exact fun _ h => by cases h
  · exact fun _ _ => h₂ results rfl

end Boot

end Wp

/-! ## Runs -/

namespace World

variable {H : Sha256} {D : Type} [FloatArith D] {P : Plan} {retries : ℕ}

/-- The invariant of the world: that of the store, and the precondition of
whatever is running. -/
structure Inv (H : Sha256) (D : Type) [FloatArith D] (P : Plan) (w : World) : Prop where
  store : w.store.Inv P
  booting : ∀ p, w.phase = .booting p → wp (machine H D) 0 Alone (fun _ _ => True) (Store.Inv P) p
    (fun r s => ∀ rep, r = .ok rep → Booted P s) w.store
  serving : ∀ threads, w.phase = .serving threads →
    PoolSafe (machine H D) Rely Guar (Store.Inv P) threads w.store

/-- The actions a plan is about. -/
def Allowed (P : Plan) (w : World) : Action → Prop
  | .request nodeId maxM => P.Allows nodeId maxM
  | .ingest ix => P.fixed = none ∧ P.base = none ∧
      ∀ r ∈ uncommittedDeletes w.store.log.records, ix.RowZero r.targetNodeId
  | _ => True

/-- A crash keeps the invariant. -/
theorem inv_lost {s : Store} (h : s.Inv P) : (lost s).Inv P where
  not_torn := h.not_torn
  loaded := h.loaded
  covers hl := by cases hl
  distinct := h.distinct
  nonneg := h.nonneg
  ids := h.ids
  admitted := h.admitted
  pending := h.pending
  fixed := h.fixed
  kept b₀ hb₀ := ⟨fun hl => (by cases hl), (h.kept b₀ hb₀).2⟩

/-- So does opening the log again. -/
theorem inv_reopen {s : Store} (h : s.Inv P) : Store.Inv P { s with log := s.log.reopen } where
  not_torn := h.not_torn
  loaded := h.loaded
  covers := h.covers
  distinct := h.distinct
  nonneg := le_foldl_max_tx.1
  ids := le_foldl_max_tx.2
  admitted := h.admitted
  pending := h.pending
  fixed := h.fixed
  kept := h.kept

/-- A checkpointed load: what is still pending finds nothing to erase. -/
theorem inv_loaded {s : Store} (h : s.Inv P) {ix : Index} (hl : ix.isLoaded = true)
    (hfix : P.fixed = none) (hbase : P.base = none)
    (hpend : ∀ r ∈ uncommittedDeletes s.log.records, ix.RowZero r.targetNodeId) :
    (loaded ix s).Inv P where
  not_torn := by simp [loaded]
  loaded b hb := by
    obtain rfl := IndexFile.snapshot.inj hb
    exact hl
  covers _ := ⟨ix.owned, rfl, ix.owned_shadows⟩
  distinct := h.distinct
  nonneg := h.nonneg
  ids := h.ids
  admitted := h.admitted
  pending r hr hnot := by
    have hz := hpend r ((mem_uncommittedDeletes h.distinct).mpr ⟨hr, hnot⟩)
    exact Or.inr ⟨r.targetNodeId, rfl, ix.owned, rfl, ix.shadows_owned.zero _ hz⟩
  fixed N hN := by
    rw [hfix] at hN
    cases hN
  kept b₀ hb₀ := by
    rw [hbase] at hb₀
    cases hb₀

/-- So does a request that has only been made. -/
theorem inv_ask {s : Store} (h : s.Inv P) (nodeId : ℤ) :
    Store.Inv P { s with asked := nodeId :: s.asked } where
  not_torn := h.not_torn
  loaded := h.loaded
  covers := h.covers
  distinct := h.distinct
  nonneg := h.nonneg
  ids := h.ids
  admitted := h.admitted
  pending r hr hnot := Erasable.rely (i := 0) (h.pending r hr hnot) (rely_ask 0 nodeId)
  fixed := h.fixed
  kept b₀ hb₀ := ⟨fun hl n hn => (h.kept b₀ hb₀).1 hl n fun hm => hn (List.mem_cons_of_mem _ hm),
    fun b hb n hn => (h.kept b₀ hb₀).2 b hb n fun hm => hn (List.mem_cons_of_mem _ hm)⟩

/-- A request joins the pool: the others are stable under its arrival. -/
theorem poolSafe_request {s : Store} {threads : List (Method HardDeleteResult)} {nodeId maxM : ℤ}
    (h : PoolSafe (machine H D) Rely Guar (Store.Inv P) threads s) (ha : P.Allows nodeId maxM) :
    PoolSafe (machine H D) Rely Guar (Store.Inv P)
      (threads ++ [hardDeleteAndHeal retries nodeId maxM]) { s with asked := nodeId :: s.asked } := by
  intro i p hp
  rw [List.getElem?_append] at hp
  split at hp
  · have htrans : ∀ a b c, Rely i a b → Rely i b c → Rely i a c := fun _ _ _ => Rely.trans
    exact wp_stable htrans (fun _ _ => trivial) (h i p hp) (rely_ask i nodeId)
  · obtain rfl := List.mem_singleton.mp (List.mem_of_getElem? hp)
    exact wp_hardDeleteAndHeal retries ha List.mem_cons_self

/-- Requests that are over are safe in every store. -/
theorem poolSafe_done {s : Store} {threads : List (Method HardDeleteResult)}
    (h : ∀ p ∈ threads, p.isDone = true) :
    PoolSafe (machine H D) Rely Guar (Store.Inv P) threads s := by
  intro i p hp
  have hdone := h p (List.mem_of_getElem? hp)
  rcases p with a | e | ⟨o, k⟩
  · trivial
  · trivial
  · cases hdone

/-- **One action** keeps the invariant. -/
theorem inv_step {w : World} (h : Inv H D P w) {a : Action} (ha : Allowed P w a) :
    Inv H D P (step H D retries a w) := by
  have hmoves := moves_step H D retries a w
  generalize step H D retries a w = w' at hmoves ⊢
  cases hmoves with
  | stay => exact h
  | crash => exact ⟨inv_lost h.store, fun p hp => (by cases hp), fun t ht => (by cases ht)⟩
  | restart s =>
    have hi := inv_reopen (inv_lost h.store)
    refine ⟨hi, fun p hp => ?_, fun t ht => (by cases ht)⟩
    obtain rfl := Phase.booting.inj hp
    exact wp_bootstrap retries hi
  | boot hstep =>
    obtain ⟨hi, -, hw⟩ := wp_step (fun _ => rfl) (h.booting _ rfl) h.store hstep
    refine ⟨hi, fun q hq => ?_, fun t ht => (by cases ht)⟩
    obtain rfl := Phase.booting.inj hq
    exact hw
  | serve s report =>
    refine ⟨h.store, fun p hp => (by cases hp), fun t ht => ?_⟩
    obtain rfl := Phase.serving.inj ht
    exact fun i p hp => by cases hp
  | request s threads nodeId maxM =>
    refine ⟨inv_ask h.store nodeId, fun p hp => (by cases hp), fun t ht => ?_⟩
    obtain rfl := Phase.serving.inj ht
    exact poolSafe_request (h.serving threads rfl) ha
  | advance hthread hstep =>
    obtain ⟨hinv, hsafe⟩ := wp_pool Rely.refl (fun _ _ _ _ => Rely.trans)
      (fun i j s s' hij hg => hg i hij) (h.serving _ rfl) h.store hthread hstep
    refine ⟨hinv, fun q hq => (by cases hq), fun t ht => ?_⟩
    obtain rfl := Phase.serving.inj ht
    exact hsafe
  | ingest s hdone hloaded =>
    refine ⟨inv_loaded h.store hloaded ha.1 ha.2.1 ha.2.2, fun p hp => (by cases hp), fun t ht => ?_⟩
    obtain rfl := Phase.serving.inj ht
    exact poolSafe_done hdone

/-- Every action of a run is allowed where it happens. -/
def AllAllowed (H : Sha256) (D : Type) [FloatArith D] (P : Plan) (retries : ℕ) :
    List Action → World → Prop
  | [], _ => True
  | a :: rest, w => Allowed P w a ∧ AllAllowed H D P retries rest (step H D retries a w)

/-- Actions that are allowed in any state are allowed in a run. -/
theorem allAllowed_of_forall {actions : List Action} (h : ∀ a ∈ actions, ∀ w, Allowed P w a)
    (w : World) : AllAllowed H D P retries actions w := by
  induction actions generalizing w with
  | nil => trivial
  | cons a rest ih =>
    exact ⟨h a List.mem_cons_self w, ih (fun b hb => h b (List.mem_cons_of_mem a hb)) _⟩

/-- **Every run keeps the invariant.** -/
theorem inv_run {actions : List Action} {w : World} (h : Inv H D P w)
    (ha : AllAllowed H D P retries actions w) : Inv H D P (run H D retries actions w) := by
  induction actions generalizing w with
  | nil => exact h
  | cons a rest ih => exact ih (inv_step h ha.1) ha.2

end World

end Unlearning
