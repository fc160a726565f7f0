import Unlearning.Frame

/-!
# Errors that look like skips

Where nothing was erased `_derive_status` asks of each error whether it begins with
`"skip "`, to tell a batch of ids that are not mapped from a batch that failed. The error
of an id whose erase raised begins with the id.

* `Service.eraseAll_raising`: in a batch in which every mapped id raises, the errors look
  like skips where these ids do;
* `Service.eraseAll_answered`: any other batch erases something or has an error that
  does not look like a skip.
-/

namespace Unlearning

open PyText FloatArith PyFloat

/-- An id that is not blank, without surrounding whitespace. -/
def IsId (ext : String) : Prop := strip ext = ext ∧ ext ≠ ""

instance (ext : String) : Decidable (IsId ext) :=
  inferInstanceAs (Decidable (strip ext = ext ∧ ext ≠ ""))

theorem ReceiptStatus.eq_partially {s : ReceiptStatus} (hc : s ≠ .complete) (hf : s ≠ .failed) :
    s = .partially := by
  cases s with
  | complete => exact absurd rfl hc
  | partially => rfl
  | failed => exact absurd rfl hf

namespace Service

variable {σ D : Type} {svc : Service σ D} {amb : Ambient σ D} {call : DeleteCall}

/-! ## Texts -/

/-- All errors look like those of ids that are not mapped. -/
def looksSkipped (errors : List String) : Bool := errors.all fun e => startsWith e "skip "

theorem isPrefixOf_append_cons {α : Type} [DecidableEq α] {p : List α} {a : α} (ha : a ∉ p)
    (l r : List α) : p.isPrefixOf (l ++ a :: r) = p.isPrefixOf l := by
  induction l generalizing p with
  | nil =>
    cases p with
    | nil => rfl
    | cons b p =>
      have hne : ¬ b = a := fun h => ha (h ▸ List.mem_cons_self)
      simp [List.isPrefixOf, hne]
  | cons c l ih =>
    cases p with
    | nil => rfl
    | cons b p =>
      rw [List.cons_append, List.isPrefixOf, List.isPrefixOf, ih fun h => ha (.tail b h)]

/-- The error of an id that raised looks like a skip where the id does. -/
theorem startsWith_raised (ext text : String) :
    startsWith (ext ++ ": " ++ text) "skip " = startsWith ext "skip " := by
  have hcolon : Char.ofNat 58 ∉ "skip ".toList := by decide
  rw [startsWith, startsWith, String.toList_append, String.toList_append, List.append_assoc]
  exact isPrefixOf_append_cons hcolon _ _

theorem startsWith_skip (ext text : String) :
    startsWith ("skip " ++ ext ++ ": " ++ text) "skip " = true :=
  startsWith_append (startsWith_append (startsWith_append rfl ext) ": ") text

theorem looksSkipped_append (errors : List String) (e : String) :
    looksSkipped (errors ++ [e]) = (looksSkipped errors && startsWith e "skip ") := by
  rw [looksSkipped, List.all_append, List.all_cons, List.all_nil, Bool.and_true]
  rfl

/-- The batch erased something, or an error looks unlike a skip. -/
def Settled (b : Batch σ D) : Prop := b.labels ≠ [] ∨ looksSkipped b.errors = false

theorem Settled.append {b c : Batch σ D} (h : Settled b) {e : String}
    (hlabels : c.labels = b.labels) (herrors : c.errors = b.errors ++ [e]) : Settled c := by
  rcases h with h | h
  · exact .inl (hlabels ▸ h)
  · right
    rw [herrors, looksSkipped_append, h, Bool.false_and]

/-! ## Ids that raise -/

/-- The world after the row of a label was read for the proofs. -/
def readRow (svc : Service σ D) (mode : ProofMode) (label : ℤ) (o : σ) : σ :=
  match mode, svc.backend.getVector with
  | .off, _ => o
  | _, none => o
  | _, some getVector => (getVector label o).2

/-- The world after the row of a label was read, erased and verified, where the erase or
the verification raises. -/
def raising (svc : Service σ D) (amb : Ambient σ D) (call : DeleteCall) (label : ℤ) (o : σ) :
    Option σ :=
  match svc.eraseLabel call label (svc.readRow (svc.proofMode amb call) label o) with
  | (.error _, o) => some o
  | (.ok (br, _), o) =>
    if br.success then
      match svc.backend.verifyZeroed call.collection label o with
      | (.error _, o) => some o
      | (.ok _, _) => none
    else none

/-- One after the other, all of the ids that are mapped raise. -/
def allRaise (svc : Service σ D) (amb : Ambient σ D) (call : DeleteCall) (reg : Registry) :
    List String → σ → Bool
  | [], _ => true
  | ext :: rest, o => match reg.label? (strip call.collection) ext with
    | none => allRaise svc amb call reg rest o
    | some label => match svc.raising amb call label o with
      | none => false
      | some o => allRaise svc amb call reg rest o

/-- The ids that are mapped. -/
def mappedIds (call : DeleteCall) (reg : Registry) (requested : List String) : List String :=
  requested.filter fun ext => (reg.label? (strip call.collection) ext).isSome

theorem snapshot_readRow (svc : Service σ D) (mode : ProofMode) (label : ℤ) (b : Batch σ D) :
    ∃ originals, snapshot svc mode label b =
      { b with outside := svc.readRow mode label b.outside, originals := originals } := by
  rcases hget : svc.backend.getVector with _ | getVector
  · refine ⟨b.originals, ?_⟩
    cases mode with
    | off => simp only [snapshot, readRow]
    | sample => simp only [snapshot, readRow, hget]
    | full => simp only [snapshot, readRow, hget]
  · rcases hrow : getVector label b.outside with ⟨e | vec, o⟩
    · refine ⟨b.originals, ?_⟩
      cases mode with
      | off => simp only [snapshot, readRow]
      | sample => simp only [snapshot, readRow, hget, hrow]
      | full => simp only [snapshot, readRow, hget, hrow]
    · cases mode with
      | off => exact ⟨b.originals, by simp only [snapshot, readRow]⟩
      | sample => exact ⟨_, by simp only [snapshot, readRow, hget, hrow]; rfl⟩
      | full => exact ⟨_, by simp only [snapshot, readRow, hget, hrow]; rfl⟩

/-- **The turn of a mapped id**: it raises, and leaves an error and nothing else; or it is erased,
or its error says why not. -/
theorem eraseResolved_turn (ext : String) (label : ℤ) (b : Batch σ D) :
    (∃ o, svc.raising amb call label b.outside = some o ∧
      ∃ text, (eraseResolved svc amb call ext label b).errors = b.errors ++ [ext ++ ": " ++ text] ∧
        (eraseResolved svc amb call ext label b).outside = o ∧
        (eraseResolved svc amb call ext label b).labels = b.labels ∧
        (eraseResolved svc amb call ext label b).registry = b.registry) ∨
      svc.raising amb call label b.outside = none ∧
        Settled (eraseResolved svc amb call ext label b) := by
  obtain ⟨originals, hsnap⟩ := snapshot_readRow svc (svc.proofMode amb call) label b
  rw [raising, eraseResolved, hsnap]
  simp only
  generalize svc.eraseLabel call label (svc.readRow (svc.proofMode amb call) label b.outside) = r
  rcases r with ⟨e | ⟨br, tx⟩, o₁⟩
  · exact Or.inl ⟨o₁, rfl, e, rfl, rfl, rfl, rfl⟩
  · by_cases hsuccess : br.success = true
    · simp only [if_pos hsuccess, verifyErased]
      generalize svc.backend.verifyZeroed call.collection label o₁ = r
      rcases r with ⟨e | zeroed, o₂⟩
      · exact Or.inl ⟨o₂, rfl, e, rfl, rfl, rfl, rfl⟩
      · refine Or.inr ⟨rfl, ?_⟩
        rcases zeroed with _ | _
        · right
          simp only [looksSkipped_append, startsWith, String.toList_append, List.append_assoc]
          exact Bool.and_false _
        · left
          simp only [dropMapping_labels, count]
          exact List.append_ne_nil_of_right_ne_nil _ (List.cons_ne_nil _ _)
    · simp only [if_neg hsuccess]
      refine Or.inr ⟨trivial, Or.inr ?_⟩
      simp only [looksSkipped_append, startsWith, String.toList_append, List.append_assoc]
      exact Bool.and_false _

/-- The turn of an id that is not mapped, where it does not raise out of `delete`. -/
theorem eraseId_unmapped {ext : String} {b c : Batch σ D} (hid : IsId ext)
    (hnone : b.registry.label? (strip call.collection) ext = none)
    (h : eraseId svc amb call ext b = (none, c)) :
    ∃ text, c.errors = b.errors ++ ["skip " ++ ext ++ ": " ++ text] ∧ c.outside = b.outside ∧
      c.labels = b.labels ∧ c.registry = b.registry := by
  rw [eraseId] at h
  rcases @Registry.resolve_cases amb.printable b.registry call.collection ext hid.1 hid.2
    with ⟨label, hl, hres⟩ | ⟨m, -, hres⟩ | ⟨m, -, hres⟩
  · rw [hnone] at hl
    cases hl
  · rw [hres] at h
    simp only at h
    split at h
    · cases h
      exact ⟨_, rfl, rfl, rfl, rfl⟩
    · cases h
  · rw [hres] at h
    cases h

/-- The turn of a mapped id. -/
theorem eraseId_mapped {ext : String} {label : ℤ} {b c : Batch σ D} (hid : IsId ext)
    (hlabel : b.registry.label? (strip call.collection) ext = some label)
    (h : eraseId svc amb call ext b = (none, c)) : c = eraseResolved svc amb call ext label b := by
  rw [eraseId] at h
  rcases @Registry.resolve_cases amb.printable b.registry call.collection ext hid.1 hid.2
    with ⟨label', hl, hres⟩ | ⟨m, hl, hres⟩ | ⟨m, -, hres⟩
  · rw [hlabel] at hl
    cases hl
    rw [hres] at h
    exact (Prod.mk.inj h).2.symm
  · rw [hlabel] at hl
    cases hl
  · rw [hres] at h
    cases h

theorem Settled.eraseAll {requested : List String} {b c : Batch σ D} (hb : Settled b)
    (hids : ∀ ext ∈ requested, IsId ext)
    (h : eraseAll svc amb call requested b = (none, c)) : Settled c := by
  induction requested generalizing b with
  | nil =>
    cases h
    exact hb
  | cons ext rest ih =>
    obtain ⟨hid, hrest⟩ := List.forall_mem_cons.mp hids
    rw [Service.eraseAll] at h
    rcases @eraseId_cases σ D svc amb call ext hid.1 hid.2 b
      with ⟨e, heq, -⟩ | ⟨b₁, heq, hskip | hfail | ⟨label, herase⟩⟩
    · rw [heq] at h
      cases h
    · rw [heq] at h
      obtain ⟨text, herr⟩ := hskip.errors
      exact ih (hb.append hskip.labels herr) hrest h
    · rw [heq] at h
      obtain ⟨e, herr⟩ := hfail.errors
      exact ih (hb.append hfail.labels herr) hrest h
    · rw [heq] at h
      refine ih (.inl ?_) hrest h
      rw [herase.labels]
      exact List.append_ne_nil_of_right_ne_nil _ (List.cons_ne_nil _ _)

/-- **The turn of one id**, where it does not raise out of `delete`: the id is skipped; or it
is mapped and raises; or it is answered. -/
theorem eraseId_turn {ext : String} {b c : Batch σ D} (hid : IsId ext)
    (h : eraseId svc amb call ext b = (none, c)) :
    (b.registry.label? (strip call.collection) ext = none ∧ c.outside = b.outside ∧
        c.labels = b.labels ∧ c.registry = b.registry ∧
        ∃ text, c.errors = b.errors ++ ["skip " ++ ext ++ ": " ++ text]) ∨
      (∃ label, b.registry.label? (strip call.collection) ext = some label ∧
        svc.raising amb call label b.outside = some c.outside ∧ c.labels = b.labels ∧
        c.registry = b.registry ∧ ∃ text, c.errors = b.errors ++ [ext ++ ": " ++ text]) ∨
      ∃ label, b.registry.label? (strip call.collection) ext = some label ∧
        svc.raising amb call label b.outside = none ∧ Settled c := by
  rcases hl : b.registry.label? (strip call.collection) ext with _ | label
  · obtain ⟨text, herr, hout, hlabels, hreg⟩ := eraseId_unmapped hid hl h
    exact .inl ⟨rfl, hout, hlabels, hreg, text, herr⟩
  · obtain rfl := eraseId_mapped hid hl h
    rcases eraseResolved_turn ext label b with
      ⟨o, hr, text, herr, hout, hlabels, hreg⟩ | ⟨hr, hsettled⟩
    · exact .inr (.inl ⟨label, rfl, by rw [hr, hout], hlabels, hreg, text, herr⟩)
    · exact .inr (.inr ⟨label, rfl, hr, hsettled⟩)

/-- **A batch in which all mapped ids raise**: nothing is erased, every id has its error, and
the errors look like skips where these ids do. -/
theorem eraseAll_raising {requested : List String} {b c : Batch σ D}
    (hids : ∀ ext ∈ requested, IsId ext)
    (hraise : svc.allRaise amb call b.registry requested b.outside = true)
    (h : eraseAll svc amb call requested b = (none, c)) :
    c.labels = b.labels ∧ c.errors.length = b.errors.length + requested.length ∧
      looksSkipped c.errors =
        (looksSkipped b.errors && looksSkipped (mappedIds call b.registry requested)) := by
  induction requested generalizing b with
  | nil =>
    cases h
    exact ⟨rfl, rfl, (Bool.and_true _).symm⟩
  | cons ext rest ih =>
    obtain ⟨hid, hrest⟩ := List.forall_mem_cons.mp hids
    rw [eraseAll] at h
    rw [allRaise] at hraise
    rcases hturn : eraseId svc amb call ext b with ⟨_ | e, b₁⟩
    · rw [hturn] at h
      rcases eraseId_turn hid hturn with ⟨hl, hout, hlabels, hreg, text, herr⟩ |
        ⟨label, hl, hr, hlabels, hreg, text, herr⟩ | ⟨label, hl, hr, -⟩
      · rw [hl] at hraise
        rw [← hreg, ← hout] at hraise
        obtain ⟨hc, hlen, hlooks⟩ := ih hrest hraise h
        refine ⟨hc.trans hlabels, ?_, ?_⟩
        · rw [hlen, herr, List.length_append, List.length_singleton, List.length_cons]
          omega
        · rw [hlooks, herr, looksSkipped_append, startsWith_skip, Bool.and_true, hreg, mappedIds,
            mappedIds, List.filter_cons_of_neg (by simp [hl])]
      · simp only [hl, hr] at hraise
        rw [← hreg] at hraise
        obtain ⟨hc, hlen, hlooks⟩ := ih hrest hraise h
        refine ⟨hc.trans hlabels, ?_, ?_⟩
        · rw [hlen, herr, List.length_append, List.length_singleton, List.length_cons]
          omega
        · rw [hlooks, herr, looksSkipped_append, startsWith_raised, hreg, mappedIds, mappedIds,
            List.filter_cons_of_pos (by simp [hl]), Bool.and_assoc]
          rfl
      · simp only [hl, hr] at hraise
        cases hraise
    · rw [hturn] at h
      cases h

/-- **A batch in which some mapped id does not raise** erases something or has an error
that says so. -/
theorem eraseAll_answered {requested : List String} {b c : Batch σ D}
    (hids : ∀ ext ∈ requested, IsId ext)
    (hraise : svc.allRaise amb call b.registry requested b.outside = false)
    (h : eraseAll svc amb call requested b = (none, c)) : Settled c := by
  induction requested generalizing b with
  | nil => cases hraise
  | cons ext rest ih =>
    obtain ⟨hid, hrest⟩ := List.forall_mem_cons.mp hids
    rw [eraseAll] at h
    rw [allRaise] at hraise
    rcases hturn : eraseId svc amb call ext b with ⟨_ | e, b₁⟩
    · rw [hturn] at h
      rcases eraseId_turn hid hturn with ⟨hl, hout, -, hreg, -⟩ | ⟨label, hl, hr, -, hreg, -⟩ |
        ⟨label, -, -, hsettled⟩
      · rw [hl] at hraise
        rw [← hreg, ← hout] at hraise
        exact ih hrest hraise h
      · simp only [hl, hr] at hraise
        rw [← hreg] at hraise
        exact ih hrest hraise h
      · exact hsettled.eraseAll hrest h
    · rw [hturn] at h
      cases h

/-! ## The status -/

section Receipts

variable [PyFloat D]

theorem deriveStatus_zero (erased : ℕ) (errors : List String) (mode : ProofMode)
    (passed : Option Bool) (deferred : Bool) :
    deriveStatus 0 erased errors mode passed deferred = .complete := by
  rw [deriveStatus]
  simp only [if_pos]

theorem deriveStatus_unerased {requested : ℕ} (hreq : requested ≠ 0) (errors : List String)
    (mode : ProofMode) (passed : Option Bool) (deferred : Bool) :
    deriveStatus requested 0 errors mode passed deferred =
      if !errors.isEmpty && looksSkipped errors then .partially else .failed := by
  rw [deriveStatus]
  simp only [if_neg hreq, if_pos]
  rfl

theorem deriveStatus_erased_ne_failed {erased : ℕ} (herased : erased ≠ 0) (requested : ℕ)
    (errors : List String) (mode : ProofMode) (passed : Option Bool) (deferred : Bool) :
    deriveStatus requested erased errors mode passed deferred ≠ .failed := by
  rw [deriveStatus]
  simp only [if_neg herased]
  split
  · intro h
    cases h
  · split
    · intro h
      cases h
    · split
      · intro h
        cases h
      · intro h
        cases h

/-- Once something is erased, all that counts is whether there are errors. -/
theorem deriveStatus_congr {erased : ℕ} (herased : erased ≠ 0) (requested : ℕ)
    {errors errors' : List String} (h : errors' = [] ↔ errors = []) (mode : ProofMode)
    (passed : Option Bool) (deferred : Bool) :
    deriveStatus requested erased errors' mode passed deferred =
      deriveStatus requested erased errors mode passed deferred := by
  rcases eq_or_ne requested 0 with rfl | hreq
  · rw [deriveStatus_zero, deriveStatus_zero]
  · by_cases hc : deriveStatus requested erased errors mode passed deferred = .complete
    · rw [hc, deriveStatus_eq_complete hreq, h]
      exact (deriveStatus_eq_complete hreq).mp hc
    · have hc' : deriveStatus requested erased errors' mode passed deferred ≠ .complete := by
        rw [Ne, deriveStatus_eq_complete hreq, h]
        exact fun hall => hc ((deriveStatus_eq_complete hreq).mpr hall)
      have hf := deriveStatus_erased_ne_failed herased requested errors mode passed deferred
      have hf' := deriveStatus_erased_ne_failed herased requested errors' mode passed deferred
      rw [ReceiptStatus.eq_partially hc hf, ReceiptStatus.eq_partially hc' hf']

/-- Without an erased label there is nothing to compact or to prove. -/
theorem Concluded.allErrors_unerased {st : ServiceState σ D} {receipt : ErasureReceipt D}
    {mode : CompactMode} {b : Batch σ D} {summary : ResidualProofSummary D} {o : σ}
    (hc : Concluded svc amb call st receipt mode b summary o) (hnil : b.labels = []) :
    allErrors (svc.proofMode amb call) b
      (svc.runCompaction amb mode b.labels b.outside st.policy) summary = b.errors := by
  have hproofs := hc.proofs
  rw [runResidualProofs, if_pos (.inr hnil)] at hproofs
  cases hproofs
  rw [runCompaction, if_pos hnil, allErrors, if_neg fun h => (by cases h.2), List.append_nil,
    List.append_nil]

/-- The status of a receipt, and its success. -/
theorem Concluded.status {st : ServiceState σ D} {receipt : ErasureReceipt D} {mode : CompactMode}
    {b : Batch σ D} {summary : ResidualProofSummary D} {o : σ}
    (hc : Concluded svc amb call st receipt mode b summary o) :
    receipt.status = deriveStatus call.extIds.length b.labels.length
        (allErrors (svc.proofMode amb call) b
          (svc.runCompaction amb mode b.labels b.outside st.policy) summary)
        (svc.proofMode amb call) summary.passed
        (svc.runCompaction amb mode b.labels b.outside st.policy).deferred ∧
      receipt.success = decide (receipt.status = .complete) := by
  rw [hc.receipt]
  exact ⟨rfl, rfl⟩

/-- **The status of a batch in which all mapped ids raise**: it is that of a batch of
skips where these ids begin with `"skip "`. -/
theorem Concluded.status_raising {st : ServiceState σ D} {receipt : ErasureReceipt D}
    {mode : CompactMode} {b : Batch σ D} {summary : ResidualProofSummary D} {o : σ}
    (hc : Concluded svc amb call st receipt mode b summary o) (hne : call.extIds ≠ [])
    (hraise : svc.allRaise amb call st.registry call.extIds st.outside = true) :
    receipt.status =
      if looksSkipped (mappedIds call st.registry call.extIds) then .partially else .failed := by
  obtain ⟨hlabels, hlen, hlooks⟩ := eraseAll_raising call.extIds_normal hraise hc.loop
  have hnil : b.labels = [] := hlabels
  have hcount : b.errors.length = 0 + call.extIds.length := hlen
  have hreq : call.extIds.length ≠ 0 := fun h => hne (List.eq_nil_of_length_eq_zero h)
  have hsome : b.errors.isEmpty = false := by
    rw [List.isEmpty_eq_false_iff]
    intro h
    rw [h, List.length_nil] at hcount
    omega
  rw [hc.status.1, hc.allErrors_unerased hnil, hnil, List.length_nil, deriveStatus_unerased hreq,
    hsome, hlooks]
  rfl

/-- Any other batch erases something or fails. -/
theorem Concluded.status_answered {st : ServiceState σ D} {receipt : ErasureReceipt D}
    {mode : CompactMode} {b : Batch σ D} {summary : ResidualProofSummary D} {o : σ}
    (hc : Concluded svc amb call st receipt mode b summary o)
    (hraise : svc.allRaise amb call st.registry call.extIds st.outside = false) :
    b.labels ≠ [] ∨ receipt.status = .failed := by
  have hsettled : Settled b := eraseAll_answered call.extIds_normal hraise hc.loop
  rcases hsettled with hne | hlooks
  · exact .inl hne
  · rcases hl : b.labels with _ | ⟨label, labels⟩
    · right
      have hreq : call.extIds.length ≠ 0 := by
        intro h
        rw [List.eq_nil_of_length_eq_zero h] at hraise
        cases hraise
      rw [hc.status.1, hc.allErrors_unerased hl, hl, List.length_nil, deriveStatus_unerased hreq,
        hlooks, Bool.and_false]
      rfl
    · exact .inl (List.cons_ne_nil label labels)

end Receipts

end Service

end Unlearning
