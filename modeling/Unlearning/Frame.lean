import Unlearning.Receipts

/-!
# The frame of `delete`

`ErasureService.delete` reaches the world outside through the calls that it makes, and
through nothing else. `Unmoved svc R` says that every one of these calls other than an
erase moves the world along `R`; then a whole `delete` does, if the erases of the labels
that it was asked for do.
-/

namespace Unlearning

open PyText FloatArith PyFloat

namespace Service

variable {σ D : Type} {svc : Service σ D} {amb : Ambient σ D} {call : DeleteCall}
  {R : σ → σ → Prop}

/-- A relation on the world outside that everything but an erase keeps. -/
structure Unmoved (svc : Service σ D) (R : σ → σ → Prop) : Prop where
  refl : ∀ o, R o o
  trans : ∀ a b c, R a b → R b c → R a c
  getVector : ∀ f, svc.backend.getVector = some f → ∀ label o, R o (f label o).2
  verifyZeroed : ∀ collection label o, R o (svc.backend.verifyZeroed collection label o).2
  compact : ∀ f, svc.backend.compact = some f → ∀ o, R o (f o).2
  receiptLog : ∀ f, svc.receiptLog = some f → ∀ receipt o, R o (f receipt o).2

/-- A relation on the world outside that every read of the backend and the receipt log keep. -/
structure Keeps (svc : Service σ D) (R : σ → σ → Prop) : Prop where
  refl : ∀ o, R o o
  trans : ∀ a b c, R a b → R b c → R a c
  getVector : ∀ f, svc.backend.getVector = some f → ∀ label o, R o (f label o).2
  verifyZeroed : ∀ collection label o, R o (svc.backend.verifyZeroed collection label o).2
  receiptLog : ∀ f, svc.receiptLog = some f → ∀ receipt o, R o (f receipt o).2

theorem Unmoved.keeps (h : Unmoved svc R) : Keeps svc R :=
  ⟨h.refl, h.trans, h.getVector, h.verifyZeroed, h.receiptLog⟩

theorem snapshot_outside (h : Keeps svc R) (mode : ProofMode) (label : ℤ) (b : Batch σ D) :
    R b.outside (snapshot svc mode label b).outside := by
  unfold snapshot
  split
  · exact h.refl _
  · exact h.refl _
  · rename_i getVector _ hget
    have hR := h.getVector getVector hget label b.outside
    generalize getVector label b.outside = r at hR ⊢
    rcases r with ⟨e | vec, o⟩
    · exact hR
    · exact hR

theorem dropMapping_labels (ext : String) (b : Batch σ D) :
    (dropMapping svc amb call ext b).labels = b.labels := by
  unfold dropMapping
  split
  · split <;> rfl
  · rfl

theorem verifyErased_outside (h : Keeps svc R) (amb : Ambient σ D) (call : DeleteCall)
    (ext : String) (label : ℤ) (br : BackendEraseResult) (b : Batch σ D) :
    R b.outside (verifyErased svc amb call ext label br b).outside := by
  have hR := h.verifyZeroed call.collection label b.outside
  unfold verifyErased
  generalize svc.backend.verifyZeroed call.collection label b.outside = r at hR ⊢
  rcases r with ⟨e | zeroed, o⟩
  · exact hR
  · rcases zeroed with _ | _
    · exact hR
    · simp only [dropMapping_outside]
      exact hR

/-- The turn of an id that resolves to `label`. -/
theorem eraseResolved_outside (h : Unmoved svc R) (ext : String) {label : ℤ}
    (herase : ∀ o, R o (svc.eraseLabel call label o).2) (b : Batch σ D) :
    R b.outside (eraseResolved svc amb call ext label b).outside := by
  have hsnap := snapshot_outside h.keeps (svc.proofMode amb call) label b
  rw [eraseResolved]
  generalize snapshot svc (svc.proofMode amb call) label b = b₁ at hsnap
  have hR := herase b₁.outside
  simp only
  rcases heq : svc.eraseLabel call label b₁.outside with ⟨e | ⟨br, tx⟩, o⟩
  · rw [heq] at hR
    exact h.trans _ _ _ hsnap hR
  · rw [heq] at hR
    simp only
    split
    · have hverify := verifyErased_outside h.keeps amb call ext label br
        { b₁ with outside := o, txIds := b₁.txIds ++ tx.toList }
      exact h.trans _ _ _ (h.trans _ _ _ hsnap hR) hverify
    · exact h.trans _ _ _ hsnap hR

/-- The loop: erases happen only at labels that requested ids have in `reg`. -/
theorem eraseAll_outside (h : Unmoved svc R) (amb : Ambient σ D) {reg : Registry}
    {ids : List String}
    (hids : ∀ ext ∈ ids, strip ext = ext ∧ ext ≠ "")
    (herase : ∀ ext ∈ ids, ∀ label, reg.label? (strip call.collection) ext = some label →
      ∀ o, R o (svc.eraseLabel call label o).2) {b : Batch σ D}
    (hreg : ∀ ext label, b.registry.label? (strip call.collection) ext = some label →
      reg.label? (strip call.collection) ext = some label) :
    R b.outside (eraseAll svc amb call ids b).2.outside := by
  induction ids generalizing b with
  | nil => exact h.refl _
  | cons ext rest ih =>
    obtain ⟨hs, hne⟩ := hids ext List.mem_cons_self
    have hturn : R b.outside (eraseId svc amb call ext b).2.outside := by
      rw [eraseId]
      split
      · rename_i resolved hres
        have hlabel := Registry.label?_of_resolve hres
        rcases Registry.resolve_cases call.collection hs hne with
          ⟨label, hl, hres'⟩ | ⟨m, -, hres'⟩ | ⟨m, -, hres'⟩
        · rw [hres] at hres'
          obtain rfl := Except.ok.inj hres'
          exact eraseResolved_outside h ext
            (herase ext List.mem_cons_self label (hreg ext label hl)) b
        · rw [hres] at hres'
          cases hres'
        · rw [hres] at hres'
          cases hres'
      · split
        · exact h.refl _
        · exact h.refl _
      · exact h.refl _
    rw [eraseAll]
    rcases eraseId_cases hs hne b with ⟨e, heq, -⟩ | ⟨b', heq, hcases⟩
    · rw [heq]
      exact h.refl _
    · rw [heq] at hturn ⊢
      refine h.trans _ _ _ hturn (ih (fun e he => hids e (List.mem_cons_of_mem ext he))
        (fun e he => herase e (List.mem_cons_of_mem ext he))
        fun e label hl => hreg e label (label?_of_turn hcases hl))

theorem logReceipt_outside (h : Keeps svc R) (receipt : ErasureReceipt D) (o : σ) :
    R o (svc.logReceipt receipt o).2 := by
  unfold logReceipt
  split
  · exact h.refl _
  · rename_i append happ
    have hR := h.receiptLog append happ receipt o
    generalize append receipt o = r at hR ⊢
    rcases r with ⟨_ | (_ | text), o'⟩
    · exact hR
    · exact hR
    · exact hR

variable [PyFloat D]

theorem compactNow_outside (h : Unmoved svc R) (reason : String) (o : σ)
    (policy : CompactCoalescePolicy D) : R o (svc.compactNow reason o policy).outside := by
  unfold compactNow
  split
  · exact h.refl _
  · rename_i compact hcompact
    have hR := h.compact compact hcompact o
    generalize compact o = r at hR ⊢
    rcases r with ⟨e | done, o'⟩
    · exact hR
    · exact hR

theorem runCompaction_outside (h : Unmoved svc R) (amb : Ambient σ D) (mode : CompactMode)
    (labels : List ℤ) (o : σ) (policy : CompactCoalescePolicy D) :
    R o (svc.runCompaction amb mode labels o policy).outside := by
  rw [runCompaction]
  by_cases hlabels : labels = []
  · rw [if_pos hlabels]
    exact h.refl _
  · rw [if_neg hlabels]
    simp only
    generalize (if svc.supportsCompact = true then policy.noteDeletes labels.length amb.noteTime
      else policy) = noted
    split
    · exact compactNow_outside h _ _ _
    · exact h.refl _

theorem verifiedRow_outside (h : Keeps svc R) (collection : String) (label : ℤ) (o : σ) :
    R o (svc.verifiedRow collection label o).2 := by
  have hR := h.verifyZeroed collection label o
  unfold verifiedRow
  generalize svc.backend.verifyZeroed collection label o = r at hR ⊢
  rcases r with ⟨e | zeroed, o'⟩
  · exact hR
  · exact hR

theorem liveRow_outside (h : Keeps svc R) (collection : String) (label : ℤ) (o : σ) :
    R o (svc.liveRow collection label o).2 := by
  unfold liveRow
  split
  · exact verifiedRow_outside h collection label o
  · rename_i getVector hget
    have hR := h.getVector getVector hget label o
    generalize getVector label o = r at hR ⊢
    rcases r with ⟨e | vec, o'⟩
    · exact h.trans _ _ _ hR (verifiedRow_outside h collection label o')
    · exact hR

theorem proveOne_outside (h : Keeps svc R) (amb : Ambient σ D) (call : DeleteCall)
    (originals : Dict ℤ (List D)) (label : ℤ) (ext : String) (o : σ) :
    R o (proveOne svc amb call originals label ext o).2 := by
  have hR := liveRow_outside h call.collection label o
  unfold proveOne
  generalize svc.liveRow call.collection label o = r at hR ⊢
  rcases r with ⟨e | live, o'⟩
  · exact hR
  · exact hR

theorem proveAll_outside (h : Keeps svc R) (amb : Ambient σ D) (call : DeleteCall)
    (originals : Dict ℤ (List D)) (erased : List (ℤ × String)) (o : σ) :
    R o (proveAll svc amb call originals erased o).2 := by
  induction erased generalizing o with
  | nil => exact h.refl _
  | cons p rest ih =>
    have hR := proveOne_outside h amb call originals p.1 p.2 o
    unfold proveAll
    generalize proveOne svc amb call originals p.1 p.2 o = r at hR ⊢
    rcases r with ⟨e | proof, o₁⟩
    · exact hR
    · have hrest := ih o₁
      simp only
      generalize proveAll svc amb call originals rest o₁ = r at hrest ⊢
      rcases r with ⟨e | proofs, o₂⟩
      · exact h.trans _ _ _ hR hrest
      · exact h.trans _ _ _ hR hrest

theorem runResidualProofs_outside (h : Keeps svc R) (amb : Ambient σ D) (call : DeleteCall)
    (mode : ProofMode) (b : Batch σ D) (o : σ) :
    R o (svc.runResidualProofs amb call mode b o).2 := by
  rw [runResidualProofs]
  split
  · exact h.refl _
  · have hR := proveAll_outside h amb call b.originals (sampled mode (b.labels.zip b.erasedExt)) o
    generalize proveAll svc amb call b.originals (sampled mode (b.labels.zip b.erasedExt)) o = r
      at hR ⊢
    rcases r with ⟨e | proofs, o'⟩
    · exact hR
    · exact hR

/-- After the compaction `delete` only reads. -/
theorem conclude_reads (h : Keeps svc R) (amb : Ambient σ D) (call : DeleteCall)
    (mode : CompactMode) (policy : CompactCoalescePolicy D) (b : Batch σ D)
    (hcomp : R b.outside (svc.runCompaction amb mode b.labels b.outside policy).outside) :
    R b.outside (svc.conclude amb call mode policy b).state.outside := by
  have hproofs := runResidualProofs_outside h amb call (svc.proofMode amb call) b
    (svc.runCompaction amb mode b.labels b.outside policy).outside
  simp only [conclude]
  generalize svc.runResidualProofs amb call (svc.proofMode amb call) b
    (svc.runCompaction amb mode b.labels b.outside policy).outside = r at hproofs ⊢
  rcases r with ⟨e | summary, o⟩
  · exact h.trans _ _ _ hcomp hproofs
  · exact h.trans _ _ _ (h.trans _ _ _ hcomp hproofs) (logReceipt_outside h _ _)

/-- What `delete` does after the loop erases nothing. -/
theorem conclude_outside (h : Unmoved svc R) (amb : Ambient σ D) (call : DeleteCall)
    (mode : CompactMode) (policy : CompactCoalescePolicy D) (b : Batch σ D) :
    R b.outside (svc.conclude amb call mode policy b).state.outside :=
  conclude_reads h.keeps amb call mode policy b
    (runCompaction_outside h amb mode b.labels b.outside policy)

/-- Without a compaction `delete` only reads after the loop. -/
theorem conclude_never (h : Keeps svc R) (amb : Ambient σ D) (call : DeleteCall)
    (policy : CompactCoalescePolicy D) (b : Batch σ D) :
    R b.outside (svc.conclude amb call .never policy b).state.outside := by
  refine conclude_reads h amb call .never policy b ?_
  rw [runCompaction]
  split
  · exact h.refl _
  · exact h.refl _

/-- **The frame of `delete`**: the world outside moves along what the erases of
requested labels do, and what every other call does. -/
theorem delete_outside (h : Unmoved svc R) (st : ServiceState σ D)
    (herase : ∀ ext ∈ call.extIds, ∀ label,
      st.registry.label? (strip call.collection) ext = some label →
        ∀ o, R o (svc.eraseLabel call label o).2) :
    R st.outside (svc.delete amb call st).state.outside := by
  rw [delete]
  rcases svc.compactMode amb call st with message | mode
  · exact h.refl _
  · have hloop := eraseAll_outside h amb call.extIds_normal herase
      (b := Batch.start st (svc.adaptCompact amb call st).2) fun _ _ hl => hl
    simp only
    rcases heq : eraseAll svc amb call call.extIds
      (Batch.start st (svc.adaptCompact amb call st).2) with ⟨_ | e, b⟩
    · rw [heq] at hloop
      exact h.trans _ _ _ hloop (conclude_outside h amb call mode st.policy b)
    · rw [heq] at hloop
      exact hloop

end Service

end Unlearning
