import Unlearning.Receipts

/-!
# Repeating a batch

Callers repeat a batch until its receipt is complete. A successful erase drops
the mapping, so that the next attempt skips the id, and a skip keeps the receipt
`partial`.

* `Service.clean_eraseAll`: what an attempt without failures does to each id;
* `Service.retry_status`: after such an attempt every id of the batch has been
  erased and verified by some attempt, none is registered any more and the only
  errors are skips; the receipt is `complete` exactly if this attempt erased them
  all, that is, if no earlier attempt erased any and the batch has no repetition.
-/

namespace Unlearning

open PyText

namespace Service

variable {σ D : Type} {svc : Service σ D} {amb : Ambient σ D} {call : DeleteCall}

/-! ## An attempt without failures -/

/-- Every id that resolved was erased and verified. -/
def AllErased (visits : List Visit) : Prop :=
  ∀ v ∈ visits, v.label.isSome = true → v.verified = true

instance (visits : List Visit) : Decidable (AllErased visits) :=
  inferInstanceAs (Decidable (∀ v ∈ visits, _ → _))

/-- What such a loop did, from `b` to `b'`. -/
structure CleanRun (coll : String) (ids : List String) (visits : List Visit) (b b' : Batch σ D) :
    Prop where
  consistent : b'.registry.Consistent
  errors : ∃ skips, b'.errors = b.errors ++ skips ∧ ∀ e ∈ skips, startsWith e "skip " = true
  complete : (∀ v ∈ visits, v.verified = true) ↔
    (∀ ext ∈ ids, (b.registry.label? coll ext).isSome = true) ∧ ids.Nodup
  noErrors : (∀ v ∈ visits, v.verified = true) ↔ b'.errors = b.errors
  gone : ∀ ext ∈ ids, b'.registry.label? coll ext = none
  erased : ∀ ext ∈ ids, ext ∈ verifiedExts visits ∨ b.registry.label? coll ext = none
  shrinks : ∀ ext, b.registry.label? coll ext = none → b'.registry.label? coll ext = none

theorem cleanRun_nil {coll : String} {b : Batch σ D} (h : b.registry.Consistent) :
    CleanRun coll [] [] b b where
  consistent := h
  errors := ⟨[], (List.append_nil _).symm, fun e he => (by cases he)⟩
  complete := ⟨fun _ => ⟨fun e he => (by cases he), List.nodup_nil⟩, fun _ v hv => (by cases hv)⟩
  noErrors := ⟨fun _ => rfl, fun _ v hv => (by cases hv)⟩
  gone e he := by cases he
  erased e he := by cases he
  shrinks _ h := h

/-- An id that is skipped, in front of such a loop. -/
theorem cleanRun_skip {ext : String} {rest : List String} {visits : List Visit} {b b₁ b' : Batch σ D}
    (hskip : Skips call ext b b₁)
    (h : CleanRun (strip call.collection) rest visits b₁ b') :
    CleanRun (strip call.collection) (ext :: rest) (⟨ext, none, none, none⟩ :: visits) b b' := by
  have hreg := hskip.registry
  obtain ⟨text, htext⟩ := hskip.errors
  obtain ⟨skips, hskips, hall⟩ := h.errors
  refine ⟨h.consistent, ?_, ?_, ?_, fun e he => ?_, fun e he => ?_, fun e he => ?_⟩
  · refine ⟨("skip " ++ ext ++ ": " ++ text) :: skips, ?_, fun e he => ?_⟩
    · rw [hskips, htext, List.append_assoc]
      rfl
    · rcases List.mem_cons.mp he with rfl | he
      · rw [String.append_assoc, String.append_assoc]
        exact startsWith_append (by decide) _
      · exact hall e he
  · refine ⟨fun hall => ?_, fun hall => ?_⟩
    · cases hall _ List.mem_cons_self
    · have hsome := hall.1 ext List.mem_cons_self
      rw [hskip.unmapped] at hsome
      cases hsome
  · refine ⟨fun hall => (by cases hall _ List.mem_cons_self), fun heq => ?_⟩
    rw [hskips, htext, List.append_assoc] at heq
    cases List.append_right_eq_self.mp heq
  · rcases List.mem_cons.mp he with rfl | he
    · exact h.shrinks e (by rw [hreg]; exact hskip.unmapped)
    · exact h.gone e he
  · rcases List.mem_cons.mp he with rfl | he
    · exact Or.inr hskip.unmapped
    · rw [← hreg]
      exact h.erased e he
  · exact h.shrinks e (by rw [hreg]; exact he)

/-- An id that is erased, in front of such a loop. -/
theorem cleanRun_erase (hdrop : svc.dropMappings = true) {ext : String} {label : ℤ}
    {rest : List String} {visits : List Visit} {b b₁ b' : Batch σ D} (hcons : b.registry.Consistent)
    (herase : Erases svc amb call ext label b b₁)
    (h : CleanRun (strip call.collection) rest visits b₁ b') :
    CleanRun (strip call.collection) (ext :: rest)
      (⟨ext, some label, some (.ok true), some (.ok true)⟩ :: visits) b b' := by
  have hlabel := Registry.label?_of_resolve herase.mapped
  have herrors : b₁.errors = b.errors :=
    herase.errors (Or.inr (Registry.drop_ok hcons herase.mapped))
  have hreg : ∀ e, b₁.registry.label? (strip call.collection) e =
      if e = ext then none else b.registry.label? (strip call.collection) e := by
    intro e
    rw [herase.registry, if_pos hdrop, (Registry.drop_lookups herase.mapped).1]
    by_cases he : e = ext
    · rw [if_pos ⟨rfl, he⟩, if_pos he]
    · rw [if_neg fun h => he h.2, if_neg he]
  refine ⟨h.consistent, ?_, ?_, ?_, fun e he => ?_, fun e he => ?_, fun e he => ?_⟩
  · rw [← herrors]
    exact h.errors
  · rw [List.forall_mem_cons, List.forall_mem_cons, List.nodup_cons]
    have hfirst : Visit.verified ⟨ext, some label, some (.ok true), some (.ok true)⟩ = true := rfl
    constructor
    · rintro ⟨-, hall⟩
      obtain ⟨hsome, hnodup⟩ := h.complete.mp hall
      refine ⟨⟨by rw [hlabel]; rfl, fun e he => ?_⟩, fun hmem => ?_, hnodup⟩
      · have hs := hsome e he
        rw [hreg] at hs
        split at hs
        · cases hs
        · exact hs
      · have hs := hsome ext hmem
        rw [hreg, if_pos rfl] at hs
        cases hs
    · rintro ⟨⟨-, hsome⟩, hnot, hnodup⟩
      refine ⟨hfirst, h.complete.mpr ⟨fun e he => ?_, hnodup⟩⟩
      rw [hreg, if_neg fun heq : e = ext => hnot (heq ▸ he)]
      exact hsome e he
  · rw [List.forall_mem_cons, ← herrors, ← h.noErrors]
    exact ⟨fun hall => hall.2, fun hall => ⟨rfl, hall⟩⟩
  · rcases List.mem_cons.mp he with rfl | he
    · exact h.shrinks e (by rw [hreg, if_pos rfl])
    · exact h.gone e he
  · have hcons' : verifiedExts (⟨ext, some label, some (.ok true), some (.ok true)⟩ :: visits) =
        ext :: verifiedExts visits := rfl
    rw [hcons']
    rcases List.mem_cons.mp he with rfl | he
    · exact Or.inl List.mem_cons_self
    · rcases h.erased e he with hv | hnone
      · exact Or.inl (List.mem_cons_of_mem _ hv)
      · rw [hreg] at hnone
        split at hnone
        · rename_i heq
          rw [heq]
          exact Or.inl List.mem_cons_self
        · exact Or.inr hnone
  · refine h.shrinks e ?_
    rw [hreg]
    split
    · rfl
    · exact he

/-- **The loop of an attempt without failures.** -/
theorem clean_eraseAll (hdrop : svc.dropMappings = true) {ids : List String} {b b' : Batch σ D}
    (hcons : b.registry.Consistent) (hids : ∀ ext ∈ ids, strip ext = ext ∧ ext ≠ "")
    (heq : eraseAll svc amb call ids b = (none, b')) :
    ∃ visits, b'.visits = b.visits ++ visits ∧
      (AllErased visits → CleanRun (strip call.collection) ids visits b b') := by
  induction ids generalizing b with
  | nil =>
    obtain rfl := (Prod.mk.inj heq).2
    exact ⟨[], (List.append_nil _).symm, fun _ => cleanRun_nil hcons⟩
  | cons ext rest ih =>
    obtain ⟨hs, hne⟩ := hids ext List.mem_cons_self
    have hrest : ∀ e ∈ rest, strip e = e ∧ e ≠ "" :=
      fun e he => hids e (List.mem_cons_of_mem ext he)
    rw [eraseAll] at heq
    rcases eraseId_cases hs hne b with
      ⟨e, hturn, -⟩ | ⟨b₁, hturn, hskip | hfail | ⟨label, herase⟩⟩
    · rw [hturn] at heq
      cases heq
    · rw [hturn] at heq
      obtain ⟨visits, hv, hclean⟩ := ih (hskip.registry ▸ hcons) hrest heq
      refine ⟨⟨ext, none, none, none⟩ :: visits, ?_, fun hall => ?_⟩
      · rw [hv, hskip.visits, List.append_assoc]
        rfl
      · exact cleanRun_skip hskip (hclean fun v hv => hall v (List.mem_cons_of_mem _ hv))
    · rw [hturn] at heq
      obtain ⟨visits, hv, -⟩ := ih (hfail.registry ▸ hcons) hrest heq
      obtain ⟨v, hv₁, -, hno, -, hsome⟩ := hfail.visits
      refine ⟨v :: visits, ?_, fun hall => ?_⟩
      · rw [hv, hv₁, List.append_assoc]
        rfl
      · rw [hall v List.mem_cons_self hsome] at hno
        cases hno
    · rw [hturn] at heq
      have hcons₁ : b₁.registry.Consistent := by
        rw [herase.registry, if_pos hdrop]
        exact Registry.consistent_drop hcons _ _
      obtain ⟨visits, hv, hclean⟩ := ih hcons₁ hrest heq
      refine ⟨⟨ext, some label, some (.ok true), some (.ok true)⟩ :: visits, ?_, fun hall => ?_⟩
      · rw [hv, herase.visits, List.append_assoc]
        rfl
      · exact cleanRun_erase hdrop hcons herase
          (hclean fun v hv => hall v (List.mem_cons_of_mem _ hv))

variable [PyFloat D]

theorem compactNow_errors {reason : String} {o : σ} {policy : CompactCoalescePolicy D} :
    ∀ e ∈ (svc.compactNow reason o policy).errors, startsWith e "compact" = true := by
  intro e he
  unfold compactNow at he
  split at he
  · rw [List.mem_singleton.mp he]
    decide
  · split at he
    · cases he
    · rw [List.mem_singleton.mp he]
      exact startsWith_append (by decide) _

/-- The errors of a compaction say so. -/
theorem runCompaction_errors {mode : CompactMode} {labels : List ℤ} {o : σ}
    {policy : CompactCoalescePolicy D} :
    ∀ e ∈ (svc.runCompaction amb mode labels o policy).errors, startsWith e "compact" = true := by
  rw [runCompaction]
  by_cases hlabels : labels = []
  · rw [if_pos hlabels]
    exact fun e he => (by cases he)
  · rw [if_neg hlabels]
    simp only
    generalize (if svc.supportsCompact = true then policy.noteDeletes labels.length amb.noteTime
      else policy) = noted
    split
    · exact compactNow_errors
    · exact fun e he => (by cases he)

/-- Proofs of a batch that erased something have a verdict. -/
theorem passed_isSome {mode : ProofMode} {b : Batch σ D} {o o' : σ}
    {summary : ResidualProofSummary D}
    (h : svc.runResidualProofs amb call mode b o = (.ok summary, o')) (hmode : mode ≠ .off)
    (hlabels : b.labels ≠ []) : summary.passed.isSome = true := by
  rw [runResidualProofs, if_neg (not_or.mpr ⟨hmode, hlabels⟩)] at h
  split at h
  · cases h
  · cases h
    rfl

/-- Skips alone are no failure. -/
theorem deriveStatus_ne_failed {requested erased : ℕ} {errors : List String} {mode : ProofMode}
    {passed : Option Bool} {deferred : Bool} (hskips : ∀ e ∈ errors, startsWith e "skip " = true)
    (hne : errors ≠ []) : deriveStatus requested erased errors mode passed deferred ≠ .failed := by
  have honly : (!errors.isEmpty && errors.all fun e => startsWith e "skip ") = true := by
    rw [Bool.and_eq_true, List.all_eq_true]
    exact ⟨by simpa using hne, hskips⟩
  unfold deriveStatus
  simp only [honly, if_true]
  repeat' split
  all_goals decide

/-- The status of a batch whose only errors are skips and whose proofs did not fail. -/
theorem deriveStatus_of_skips {requested erased : ℕ} {errors : List String} {mode : ProofMode}
    {passed : Option Bool} {deferred : Bool} (hskips : ∀ e ∈ errors, startsWith e "skip " = true)
    (hnone : requested = 0 → errors = []) (hall : errors = [] → erased = requested)
    (hproof : mode ≠ .off → erased ≠ 0 → passed = some true) :
    deriveStatus requested erased errors mode passed deferred =
      if errors = [] then .complete else .partially := by
  by_cases hreq : requested = 0
  · rw [if_pos (hnone hreq), deriveStatus, if_pos hreq]
  · by_cases hnil : errors = []
    · rw [if_pos hnil, deriveStatus_eq_complete hreq]
      have herased : erased ≠ 0 := hall hnil ▸ hreq
      refine ⟨hall hnil, hnil, ?_⟩
      by_cases hoff : mode = .off
      · exact Or.inl hoff
      · exact Or.inr (hproof hoff herased)
    · rw [if_neg hnil]
      rcases h : deriveStatus requested erased errors mode passed deferred with _ | _ | _
      · exact absurd ((deriveStatus_eq_complete hreq).mp h).2.1 hnil
      · rfl
      · exact absurd h (deriveStatus_ne_failed hskips hnil)

/-- What an attempt met: every id it resolved was erased and verified, its receipt
reports no compaction error and no failed residual proof. -/
structure NoFailure (d : Deletion σ D) (receipt : ErasureReceipt D) : Prop where
  erased : AllErased d.visits
  compacted : ∀ e ∈ receipt.errors, startsWith e "compact" = false
  proved : receipt.residualProof.passed ≠ some false

section Concluded

variable {st : ServiceState σ D} {receipt : ErasureReceipt D} {mode : CompactMode} {b : Batch σ D}
  {summary : ResidualProofSummary D} {o : σ}

theorem Concluded.not_failed (hc : Concluded svc amb call st receipt mode b summary o)
    (hclean : NoFailure (svc.delete amb call st) receipt) : summary.passed ≠ some false := by
  have h := hclean.proved
  rw [hc.receipt] at h
  exact h

/-- Without failures the errors are those of the loop. -/
theorem Concluded.errors_eq (hc : Concluded svc amb call st receipt mode b summary o)
    (hclean : NoFailure (svc.delete amb call st) receipt) : receipt.errors = b.errors := by
  have hcomp : (svc.runCompaction amb mode b.labels b.outside st.policy).errors = [] := by
    refine List.eq_nil_iff_forall_not_mem.mpr fun e he => ?_
    have hmem : e ∈ receipt.errors := by
      rw [hc.receipt]
      exact List.mem_append_left _ (List.mem_append_right _ he)
    have hno := hclean.compacted e hmem
    rw [runCompaction_errors e he] at hno
    cases hno
  rw [hc.receipt]
  show allErrors _ _ _ _ = _
  rw [allErrors, hcomp, if_neg fun h => hc.not_failed hclean h.2, List.append_nil, List.append_nil]

/-- Without failures the loop was clean. -/
theorem Concluded.cleanRun (hdrop : svc.dropMappings = true)
    (hc : Concluded svc amb call st receipt mode b summary o) (hcons : st.registry.Consistent)
    (hclean : NoFailure (svc.delete amb call st) receipt) :
    CleanRun (strip call.collection) call.extIds b.visits
      (Batch.start st (svc.adaptCompact amb call st).2) b := by
  obtain ⟨visits, hvisits, hrun⟩ := clean_eraseAll hdrop
    (b := Batch.start st (svc.adaptCompact amb call st).2) hcons call.extIds_normal hc.loop
  have hv : b.visits = visits := hvisits
  rw [hv]
  refine hrun ?_
  rw [← hv, ← hc.visits]
  exact hclean.erased

end Concluded

/-- **A call without failures**: the loop, and the status. -/
theorem clean_delete (hdrop : svc.dropMappings = true) {st : ServiceState σ D}
    (hcons : st.registry.Consistent) {receipt : ErasureReceipt D}
    (hres : (svc.delete amb call st).result = .ok receipt)
    (hclean : NoFailure (svc.delete amb call st) receipt) :
    ∃ b b' : Batch σ D,
      CleanRun (strip call.collection) call.extIds (svc.delete amb call st).visits b b' ∧
      b.registry = st.registry ∧ b'.registry = (svc.delete amb call st).state.registry ∧
      (∀ e ∈ receipt.errors, startsWith e "skip " = true) ∧
      receipt.status = if ∀ v ∈ (svc.delete amb call st).visits, v.verified = true
        then .complete else .partially := by
  obtain ⟨mode, b', summary, o, hc⟩ := concluded_of_receipt hres
  have hp := hc.progress
  have hrun := hc.cleanRun hdrop hcons hclean
  have herrors := hc.errors_eq hclean
  have hskips : ∀ e ∈ receipt.errors, startsWith e "skip " = true := by
    obtain ⟨skips, heq, hall⟩ := hrun.errors
    rw [herrors, heq]
    exact hall
  refine ⟨Batch.start st (svc.adaptCompact amb call st).2, b', by rw [hc.visits]; exact hrun, rfl,
    hc.registry.symm, hskips, ?_⟩
  have hverified : (∀ v ∈ b'.visits, v.verified = true) ↔ receipt.errors = [] := by
    rw [hrun.noErrors, herrors]
    rfl
  have hcount : (∀ v ∈ b'.visits, v.verified = true) ↔ b'.labels.length = call.extIds.length := by
    rw [← List.length_filter_eq_length_iff, ← length_verifiedLabels, ← hp.labels,
      ← List.length_map Visit.ext, hp.visited]
  have hstatus : receipt.status = deriveStatus call.extIds.length b'.labels.length receipt.errors
      (svc.proofMode amb call) summary.passed
      (svc.runCompaction amb mode b'.labels b'.outside st.policy).deferred := by
    rw [hc.receipt]
    rfl
  rw [hc.visits, hstatus, deriveStatus_of_skips hskips]
  · simp only [hverified]
  · intro hreq
    have hnil : b'.visits = [] := by
      rw [← List.map_eq_nil_iff, hp.visited]
      exact List.length_eq_zero_iff.mp hreq
    exact hverified.mp (by rw [hnil]; exact fun v hv => (by cases hv))
  · exact fun hnil => hcount.mp (hverified.mpr hnil)
  · intro hoff hlabels
    have hsome := passed_isSome hc.proofs hoff (fun hnil => hlabels (by rw [hnil]; rfl))
    rcases hpass : summary.passed with _ | _ | _
    · rw [hpass] at hsome
      cases hsome
    · exact absurd hpass (hc.not_failed hclean)
    · rfl

/-! ## Attempts -/

/-- One call of `delete` and what it reads from the interpreter. -/
structure Attempt (σ D : Type) where
  amb : Ambient σ D
  call : DeleteCall

/-- The calls of a sequence of attempts. -/
def attempts (svc : Service σ D) : List (Attempt σ D) → ServiceState σ D → List (Deletion σ D)
  | [], _ => []
  | a :: rest, st =>
    svc.delete a.amb a.call st :: svc.attempts rest (svc.delete a.amb a.call st).state

/-- The state after them. -/
def stateAfter (svc : Service σ D) : List (Attempt σ D) → ServiceState σ D → ServiceState σ D
  | [], st => st
  | a :: rest, st => svc.stateAfter rest (svc.delete a.amb a.call st).state

/-- An attempt on a batch. -/
structure Attempt.On (collection : String) (ids : List String) (a : Attempt σ D) : Prop where
  collection : a.call.collection = collection
  ids : a.call.ids = ids
  idempotent : a.call.idempotent = true

/-- **What attempts leave of the registry**: the batch without what they erased. -/
theorem registry_stateAfter (hdrop : svc.dropMappings = true) {collection : String}
    {earlier : List (Attempt σ D)} (hearlier : ∀ a ∈ earlier, a.call.collection = collection)
    (st : ServiceState σ D) (hcons : st.registry.Consistent) :
    (svc.stateAfter earlier st).registry.Consistent ∧
      ∀ ext, (svc.stateAfter earlier st).registry.label? (strip collection) ext = none ↔
        st.registry.label? (strip collection) ext = none ∨
          ∃ d ∈ svc.attempts earlier st, ext ∈ verifiedExts d.visits := by
  induction earlier generalizing st with
  | nil => exact ⟨hcons, fun ext => ⟨Or.inl, fun h => h.elim id fun ⟨d, hd, _⟩ => (by cases hd)⟩⟩
  | cons a rest ih =>
    obtain ⟨visited, b, hp, hvisits, hreg⟩ := delete_progress svc a.amb a.call st
    have hcoll := hearlier a List.mem_cons_self
    have hnext : (svc.delete a.amb a.call st).state.registry.Consistent := by
      rw [hreg]
      exact hp.consistent hcons
    obtain ⟨hcons', hiff⟩ := ih (fun a' ha' => hearlier a' (List.mem_cons_of_mem a ha')) _ hnext
    refine ⟨hcons', fun ext => (hiff ext).trans ?_⟩
    have hlabel : (svc.delete a.amb a.call st).state.registry.label? (strip collection) ext = none ↔
        st.registry.label? (strip collection) ext = none ∨
          ext ∈ verifiedExts (svc.delete a.amb a.call st).visits := by
      rw [hreg, hvisits, (hp.registry hdrop).label?, hcoll]
      by_cases hmem : ext ∈ verifiedExts b.visits
      · rw [if_pos ⟨rfl, hmem⟩]
        exact iff_of_true rfl (Or.inr hmem)
      · rw [if_neg fun h => hmem h.2]
        exact ⟨Or.inl, fun h => h.resolve_right hmem⟩
    rw [hlabel, attempts, or_assoc]
    refine or_congr_right ⟨?_, ?_⟩
    · rintro (hmem | ⟨d, hd, hmem⟩)
      · exact ⟨_, List.mem_cons_self, hmem⟩
      · exact ⟨d, List.mem_cons_of_mem _ hd, hmem⟩
    · rintro ⟨d, hd, hmem⟩
      rcases List.mem_cons.mp hd with rfl | hd
      · exact Or.inl hmem
      · exact Or.inr ⟨d, hd, hmem⟩

theorem attempts_concat (earlier : List (Attempt σ D)) (last : Attempt σ D) (st : ServiceState σ D) :
    svc.attempts (earlier ++ [last]) st =
      svc.attempts earlier st ++ [svc.delete last.amb last.call (svc.stateAfter earlier st)] := by
  induction earlier generalizing st with
  | nil => rfl
  | cons a rest ih => exact congrArg _ (ih _)

theorem stateAfter_concat (earlier : List (Attempt σ D)) (last : Attempt σ D)
    (st : ServiceState σ D) :
    svc.stateAfter (earlier ++ [last]) st =
      (svc.delete last.amb last.call (svc.stateAfter earlier st)).state := by
  induction earlier generalizing st with
  | nil => rfl
  | cons a rest ih => exact ih _

/-- A service on a registry that was built by calls of its interface. -/
def stateOf (printable : Char → Bool) (calls : List Registry.Call) (outside : σ)
    (policy : CompactCoalescePolicy D) : ServiceState σ D :=
  ⟨Registry.run printable calls, outside, policy⟩

/-- No attempt erased an id of the batch, and no id is repeated. -/
def Untouched (ids : List String) (ds : List (Deletion σ D)) : Prop :=
  (∀ d ∈ ds, ∀ ext ∈ batchIds ids, ext ∉ verifiedExts d.visits) ∧ (batchIds ids).Nodup

/-- **Retries.** For every sequence of attempts on one batch of registered ids,
with `drop_mappings`: if the last attempt met no failure then every id has been
erased and verified by some attempt and is registered no more, the receipt's
errors are skips only, and its status is `complete` if no earlier attempt erased
an id of the batch and the batch has no repetition, else `partial`. -/
theorem retry_status (svc : Service σ D) (hdrop : svc.dropMappings = true)
    (printable : Char → Bool) (calls : List Registry.Call) (outside : σ)
    (policy : CompactCoalescePolicy D) {collection : String} {ids : List String}
    (hreg : ∀ ext ∈ batchIds ids,
      ((Registry.run printable calls).label? (strip collection) ext).isSome = true)
    {earlier : List (Attempt σ D)} {last : Attempt σ D}
    (hearlier : ∀ a ∈ earlier, a.On collection ids) (hlast : last.On collection ids)
    {receipt : ErasureReceipt D}
    (hres : (svc.delete last.amb last.call
      (svc.stateAfter earlier (stateOf printable calls outside policy))).result = .ok receipt)
    (hclean : NoFailure (svc.delete last.amb last.call
      (svc.stateAfter earlier (stateOf printable calls outside policy))) receipt) :
    (∀ ext ∈ batchIds ids,
      (∃ d ∈ svc.attempts (earlier ++ [last]) (stateOf printable calls outside policy),
        ext ∈ verifiedExts d.visits) ∧
      (svc.stateAfter (earlier ++ [last])
        (stateOf printable calls outside policy)).registry.label? (strip collection) ext = none) ∧
    (∀ e ∈ receipt.errors, startsWith e "skip " = true) ∧
    (Untouched ids (svc.attempts earlier (stateOf printable calls outside policy)) →
      receipt.status = .complete) ∧
    (¬ Untouched ids (svc.attempts earlier (stateOf printable calls outside policy)) →
      receipt.status = .partially) := by
  obtain ⟨hcons, hgone⟩ := registry_stateAfter hdrop (fun a ha => (hearlier a ha).collection)
    (stateOf printable calls outside policy) (Registry.consistent_run calls)
  rw [attempts_concat, stateAfter_concat]
  generalize svc.stateAfter earlier (stateOf printable calls outside policy) = st at *
  obtain ⟨b, b', hrun, hb, hb', hskips, hstatus⟩ := clean_delete hdrop hcons hres hclean
  have hids : last.call.extIds = batchIds ids := by rw [DeleteCall.extIds, hlast.ids]
  rw [hids, hlast.collection] at hrun
  -- an id is registered at the last attempt unless an earlier one erased it
  have hmapped : ∀ ext ∈ batchIds ids, b.registry.label? (strip collection) ext = none ↔
      ∃ d ∈ svc.attempts earlier (stateOf printable calls outside policy),
        ext ∈ verifiedExts d.visits := by
    intro ext hext
    rw [hb, hgone ext]
    refine ⟨fun h => h.resolve_left fun hnone => ?_, Or.inr⟩
    have hsome := hreg ext hext
    rw [show (Registry.run printable calls).label? (strip collection) ext = none from hnone] at hsome
    cases hsome
  have hiff : (∀ v ∈ (svc.delete last.amb last.call st).visits, v.verified = true) ↔
      Untouched ids (svc.attempts earlier (stateOf printable calls outside policy)) := by
    rw [hrun.complete, Untouched]
    refine and_congr_left fun _ => ⟨fun h d hd ext hext hmem => ?_, fun h ext hext => ?_⟩
    · have hsome := h ext hext
      rw [(hmapped ext hext).mpr ⟨d, hd, hmem⟩] at hsome
      cases hsome
    · rw [Option.isSome_iff_ne_none]
      intro hnone
      obtain ⟨d, hd, hmem⟩ := (hmapped ext hext).mp hnone
      exact h d hd ext hext hmem
  refine ⟨fun ext hext => ⟨?_, ?_⟩, hskips, fun h => ?_, fun h => ?_⟩
  · rcases hrun.erased ext hext with hmem | hnone
    · exact ⟨_, List.mem_append_right _ List.mem_cons_self, hmem⟩
    · obtain ⟨d, hd, hmem⟩ := (hmapped ext hext).mp hnone
      exact ⟨d, List.mem_append_left _ hd, hmem⟩
  · rw [← hb']
    exact hrun.gone ext hext
  · rw [hstatus, if_pos (hiff.mpr h)]
  · rw [hstatus, if_neg fun hall => h (hiff.mp hall)]

/-- A backend that refuses label `1` once. -/
def flakyService : Service (List ℤ) ℚ := listService fun erased => if -1 ∈ erased then [] else [1]

/-- The batch of the two users. -/
def bothUsers : Attempt (List ℤ) ℚ := ⟨plainAmbient, plainCall "users" ["ann", "bob"]⟩

/-- The second attempt: the first erased `ann` and failed on `bob`. -/
def secondAttempt : Deletion (List ℤ) ℚ :=
  flakyService.delete bothUsers.amb bothUsers.call (flakyService.stateAfter [bothUsers] twoUsers)

theorem secondAttempt_noFailure {receipt : ErasureReceipt ℚ}
    (h : secondAttempt.result = .ok receipt) : NoFailure secondAttempt receipt := by
  have hfacts : (secondAttempt.result.toOption.all fun r =>
      (r.errors.all fun e => !startsWith e "compact") && r.residualProof.passed != some false) =
      true := by decide +kernel
  rw [h] at hfacts
  obtain ⟨herrors, hproved⟩ := Bool.and_eq_true_iff.mp hfacts
  refine ⟨by decide +kernel, fun e he => ?_, by simpa using hproved⟩
  simpa using List.all_eq_true.mp herrors e he

theorem retry_status_secondAttempt :
    ∃ receipt, secondAttempt.result = .ok receipt ∧ receipt.status = .partially ∧
      ∀ e ∈ receipt.errors, startsWith e "skip " = true := by
  have hok : secondAttempt.result.toOption.isSome = true := by decide +kernel
  rcases h : secondAttempt.result with e | receipt
  · rw [h] at hok
    cases hok
  · have hon : bothUsers.On "users" ["ann", "bob"] := ⟨rfl, rfl, rfl⟩
    have hearlier : ∀ a ∈ [bothUsers], a.On "users" ["ann", "bob"] := fun a ha => by
      rw [List.mem_singleton.mp ha]
      exact hon
    obtain ⟨-, hskips, -, hincomplete⟩ := retry_status flakyService rfl (fun _ => true)
      [.register "users" "ann" none, .register "users" "bob" none] [] twoUsers.policy
      (by decide +kernel) hearlier hon h (secondAttempt_noFailure h)
    refine ⟨receipt, rfl, hincomplete fun huntouched => ?_, hskips⟩
    exact absurd huntouched.1 (by decide +kernel)

/-- **Retries need not end in `complete`.** Both users are erased and verified and
the second attempt met no failure, but it skipped `ann`. -/
theorem retries_may_stay_incomplete :
    ¬ ∀ (collection : String) (ids : List String) (earlier : List (Attempt (List ℤ) ℚ))
      (last : Attempt (List ℤ) ℚ) (receipt : ErasureReceipt ℚ),
      (∀ ext ∈ batchIds ids,
        (twoUsers.registry.label? (strip collection) ext).isSome = true) →
      (∀ a ∈ earlier, a.On collection ids) → last.On collection ids →
      (∀ ext ∈ batchIds ids, ∃ d ∈ flakyService.attempts (earlier ++ [last]) twoUsers,
        ext ∈ verifiedExts d.visits) →
      (flakyService.delete last.amb last.call (flakyService.stateAfter earlier twoUsers)).result =
        .ok receipt →
      NoFailure (flakyService.delete last.amb last.call (flakyService.stateAfter earlier twoUsers))
        receipt →
      receipt.status = .complete := by
  intro hclaim
  have hstatus : secondAttempt.result.toOption.map ErasureReceipt.status = some .partially := by
    decide +kernel
  rcases h : secondAttempt.result with e | receipt
  · rw [h] at hstatus
    cases hstatus
  · have hcomplete := hclaim "users" ["ann", "bob"] [bothUsers] bothUsers receipt (by decide +kernel)
      (fun a ha => by rw [List.mem_singleton.mp ha]; exact ⟨rfl, rfl, rfl⟩) ⟨rfl, rfl, rfl⟩
      (by decide +kernel) h (secondAttempt_noFailure h)
    rw [h] at hstatus
    rw [Except.toOption, Option.map_some, hcomplete] at hstatus
    cases hstatus

end Service

end Unlearning
