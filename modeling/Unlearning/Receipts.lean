import Unlearning.EraseService
import Unlearning.Trace

/-!
# What a receipt says

`Service.eraseId_cases` says once what the turn of one id can do. From it:

* `Progress`: after any part of the loop the labels are those of the verified
  visits and, with `drop_mappings`, the registry is the old one without them;
* `Service.Answered`: what the outside answered for one id, which is what its visit says;
* `Service.delete_sound`: a successful receipt means that every requested id was
  resolved, erased and verified, and that compaction and proofs did not fail —
  whatever the backend does.
-/

namespace Unlearning

open PyText

/-! ## The registry without some ids -/

/-- `reg'` is `reg` without the ids `exts` and the labels `labels` of `coll`. -/
structure Registry.Without (coll : String) (exts : List String) (labels : List ℤ)
    (reg reg' : Registry) : Prop where
  label? : ∀ c e, reg'.label? c e = if c = coll ∧ e ∈ exts then none else reg.label? c e
  external? : ∀ c l, reg'.external? c l = if c = coll ∧ l ∈ labels then none else reg.external? c l
  nextLabel : reg'.nextLabel = reg.nextLabel

/-- Nothing is missing from a registry without ids. -/
theorem Registry.Without.nil (coll : String) (reg : Registry) : reg.Without coll [] [] reg where
  label? c e := by rw [if_neg fun h => List.not_mem_nil h.2]
  external? c l := by rw [if_neg fun h => List.not_mem_nil h.2]
  nextLabel := rfl

/-- One more id is dropped. -/
theorem Registry.Without.drop {printable : Char → Bool} {collection ext : String} {label : ℤ}
    {exts : List String} {labels : List ℤ} {reg reg' : Registry}
    (h : reg.Without (strip collection) exts labels reg')
    (hres : reg'.resolve printable collection ext = .ok ⟨strip collection, ext, label⟩) :
    reg.Without (strip collection) (exts ++ [ext]) (labels ++ [label])
      (reg'.drop printable collection ext).2 := by
  obtain ⟨hlabel, hext, hnext⟩ := Registry.drop_lookups hres
  refine ⟨fun c e => ?_, fun c l => ?_, hnext.trans h.nextLabel⟩
  · rw [hlabel, h.label?]
    by_cases hc : c = strip collection
    · by_cases he : e = ext
      · rw [if_pos ⟨hc, he⟩, if_pos ⟨hc, by simp [he]⟩]
      · rw [if_neg fun h => he h.2]
        simp [hc, he]
    · rw [if_neg fun h => hc h.1, if_neg fun h => hc h.1, if_neg fun h => hc h.1]
  · rw [hext, h.external?]
    by_cases hc : c = strip collection
    · by_cases hl : l = label
      · rw [if_pos ⟨hc, hl⟩, if_pos ⟨hc, by simp [hl]⟩]
      · rw [if_neg fun h => hl h.2]
        simp [hc, hl]
    · rw [if_neg fun h => hc h.1, if_neg fun h => hc h.1, if_neg fun h => hc h.1]

/-! ## Visits -/

/-- The ids whose erase was verified. -/
def verifiedExts (visits : List Visit) : List String := (visits.filter Visit.verified).map Visit.ext

/-- Their labels. -/
def verifiedLabels (visits : List Visit) : List ℤ :=
  (visits.filter Visit.verified).filterMap Visit.label

/-- The verified ids of two stretches of the loop. -/
theorem verifiedExts_append (vs vs' : List Visit) :
    verifiedExts (vs ++ vs') = verifiedExts vs ++ verifiedExts vs' := by
  rw [verifiedExts, List.filter_append, List.map_append]
  rfl

/-- The verified labels of two stretches of the loop. -/
theorem verifiedLabels_append (vs vs' : List Visit) :
    verifiedLabels (vs ++ vs') = verifiedLabels vs ++ verifiedLabels vs' := by
  rw [verifiedLabels, List.filter_append, List.filterMap_append]
  rfl

/-- A visit that was not verified counts for no id. -/
theorem verifiedExts_singleton_false {v : Visit} (h : v.verified = false) :
    verifiedExts [v] = [] := by
  rw [verifiedExts, List.filter_cons_of_neg (by simp [h])]
  rfl

/-- A visit that was not verified counts for no label. -/
theorem verifiedLabels_singleton_false {v : Visit} (h : v.verified = false) :
    verifiedLabels [v] = [] := by
  rw [verifiedLabels, List.filter_cons_of_neg (by simp [h])]
  rfl

/-- A verified visit has a label. -/
theorem Visit.label_of_verified {v : Visit} (h : v.verified = true) : ∃ l, v.label = some l := by
  unfold Visit.verified at h
  split at h
  · exact ⟨_, rfl⟩
  · cases h

/-- One label for each verified visit. -/
theorem length_verifiedLabels (vs : List Visit) :
    (verifiedLabels vs).length = (vs.filter Visit.verified).length := by
  rw [verifiedLabels, List.length_filterMap_eq_countP]
  refine List.countP_eq_length.mpr fun v hv => ?_
  obtain ⟨l, hl⟩ := Visit.label_of_verified (List.mem_filter.mp hv).2
  rw [hl]
  rfl

/-- The ids of a call are stripped, and none is empty. -/
theorem DeleteCall.extIds_normal (call : DeleteCall) :
    ∀ ext ∈ call.extIds, strip ext = ext ∧ ext ≠ "" := by
  intro ext hext
  obtain ⟨hmem, hne⟩ := List.mem_filter.mp hext
  obtain ⟨id, -, rfl⟩ := List.mem_map.mp hmem
  exact ⟨strip_strip id, by simpa using hne⟩

namespace Service

variable {σ D : Type} {svc : Service σ D} {amb : Ambient σ D} {call : DeleteCall}

/-! ## What the outside answers -/

/-- Where `get_vector` leaves the outside, if the row is read before the erase. -/
def afterSnapshot (svc : Service σ D) (mode : ProofMode) (label : ℤ) (o : σ) : σ :=
  match mode, svc.backend.getVector with
  | .off, _ => o
  | _, none => o
  | _, some getVector => (getVector label o).2

/-- The erase of a label: `hard_delete_and_heal` of the persistence engine where there is one,
`hard_delete_label` of the backend else. It reports success or not, or it raises. -/
inductive EraseAnswers (svc : Service σ D) (call : DeleteCall) (label : ℤ) (o : σ) :
    Except String Bool → σ → Prop where
  | durable {hardDeleteAndHeal : ℤ → ℤ → σ → Except String DurableResult × σ}
      {r : Except String DurableResult} {o' : σ}
      (hengine : svc.persistence.bind Durable.hardDeleteAndHeal = some hardDeleteAndHeal)
      (hanswer : hardDeleteAndHeal label call.maxM o = (r, o')) :
      EraseAnswers svc call label o (r.map DurableResult.success) o'
  | backend {r : Except String BackendEraseResult} {o' : σ}
      (hengine : svc.persistence.bind Durable.hardDeleteAndHeal = none)
      (hanswer : svc.backend.hardDeleteLabel call.collection label call.maxM o = (r, o')) :
      EraseAnswers svc call label o (r.map BackendEraseResult.success) o'

/-- **The calls that are made for one id**, in the state `o` of the outside: they answer what the
visit says, and leave the outside in `o'`. -/
inductive Answered (svc : Service σ D) (mode : ProofMode) (call : DeleteCall) (o : σ) :
    Visit → σ → Prop where
  | skipped (ext : String) : Answered svc mode call o ⟨ext, none, none, none⟩ o
  | raised {ext : String} {label : ℤ} {e : String} {o' : σ}
      (herase : EraseAnswers svc call label (svc.afterSnapshot mode label o) (.error e) o') :
      Answered svc mode call o ⟨ext, some label, some (.error e), none⟩ o'
  | refused {ext : String} {label : ℤ} {o' : σ}
      (herase : EraseAnswers svc call label (svc.afterSnapshot mode label o) (.ok false) o') :
      Answered svc mode call o ⟨ext, some label, some (.ok false), none⟩ o'
  | erased {ext : String} {label : ℤ} {verify : Except String Bool} {o₁ o' : σ}
      (herase : EraseAnswers svc call label (svc.afterSnapshot mode label o) (.ok true) o₁)
      (hverify : svc.backend.verifyZeroed call.collection label o₁ = (verify, o')) :
      Answered svc mode call o ⟨ext, some label, some (.ok true), some verify⟩ o'

/-- The erase of the label reports success, and then `verify_zeroed` returns `True`. -/
def Wipes (svc : Service σ D) (mode : ProofMode) (call : DeleteCall) (o : σ) (label : ℤ)
    (o' : σ) : Prop :=
  ∃ o₁, EraseAnswers svc call label (svc.afterSnapshot mode label o) (.ok true) o₁ ∧
    svc.backend.verifyZeroed call.collection label o₁ = (.ok true, o')

/-- `_erase_label` gives on what the engine, or the backend, answered. -/
theorem eraseLabel_answers {label : ℤ} {o o' : σ}
    {r : Except String (BackendEraseResult × Option ℤ)}
    (h : svc.eraseLabel call label o = (r, o')) :
    EraseAnswers svc call label o (r.map fun answer => answer.1.success) o' := by
  rw [eraseLabel] at h
  rcases hengine : svc.persistence.bind Durable.hardDeleteAndHeal with _ | hardDeleteAndHeal
  · rw [hengine] at h
    rcases hanswer : svc.backend.hardDeleteLabel call.collection label call.maxM o with
      ⟨e | br, o₁⟩
    · simp only [hanswer] at h
      obtain ⟨rfl, rfl⟩ := Prod.mk.inj h
      exact .backend hengine hanswer
    · simp only [hanswer] at h
      obtain ⟨rfl, rfl⟩ := Prod.mk.inj h
      exact .backend hengine hanswer
  · rw [hengine] at h
    rcases hanswer : hardDeleteAndHeal label call.maxM o with ⟨e | dr, o₁⟩
    · simp only [hanswer] at h
      obtain ⟨rfl, rfl⟩ := Prod.mk.inj h
      exact .durable hengine hanswer
    · simp only [hanswer] at h
      obtain ⟨rfl, rfl⟩ := Prod.mk.inj h
      exact .durable hengine hanswer

/-- The residual snapshot leaves the outside as its own reads do. -/
theorem snapshot_leaves (mode : ProofMode) (label : ℤ) (b : Batch σ D) :
    (snapshot svc mode label b).outside = svc.afterSnapshot mode label b.outside := by
  unfold snapshot afterSnapshot
  cases mode with
  | off => rfl
  | sample | full =>
    rcases svc.backend.getVector with _ | getVector
    · rfl
    · dsimp only
      rcases getVector label b.outside with ⟨e | vec, o⟩
      · rfl
      · rfl

/-- The residual snapshot is no visit. -/
theorem snapshot_visits (mode : ProofMode) (label : ℤ) (b : Batch σ D) :
    (snapshot svc mode label b).visits = b.visits := by
  unfold snapshot
  split
  · rfl
  · rfl
  · split <;> rfl

/-- Dropping a mapping asks nobody outside. -/
theorem dropMapping_outside (ext : String) (b : Batch σ D) :
    (dropMapping svc amb call ext b).outside = b.outside := by
  unfold dropMapping
  split
  · split <;> rfl
  · rfl

/-- Dropping a mapping is no visit. -/
theorem dropMapping_visits (ext : String) (b : Batch σ D) :
    (dropMapping svc amb call ext b).visits = b.visits := by
  unfold dropMapping
  split
  · split <;> rfl
  · rfl

/-- A visit that reaches `verify_zeroed` records what it answered. -/
theorem verifyErased_answers (ext : String) (label : ℤ) (br : BackendEraseResult)
    (b : Batch σ D) :
    ∃ verify o, svc.backend.verifyZeroed call.collection label b.outside = (verify, o) ∧
      (verifyErased svc amb call ext label br b).outside = o ∧
      (verifyErased svc amb call ext label br b).visits =
        b.visits ++ [⟨ext, some label, some (.ok true), some verify⟩] := by
  rw [verifyErased]
  rcases svc.backend.verifyZeroed call.collection label b.outside with ⟨e | _ | _, o⟩
  · exact ⟨_, _, rfl, rfl, rfl⟩
  · exact ⟨_, _, rfl, rfl, rfl⟩
  · exact ⟨_, _, rfl, dropMapping_outside ext _, dropMapping_visits ext _⟩

/-- One more visit, answered as it says. -/
def Extends (svc : Service σ D) (mode : ProofMode) (call : DeleteCall) (b b' : Batch σ D) : Prop :=
  ∃ v, b'.visits = b.visits ++ [v] ∧ Answered svc mode call b.outside v b'.outside

/-- The visit of an id that resolves adds what the outside answered to it. -/
theorem eraseResolved_extends (ext : String) (label : ℤ) (b : Batch σ D) :
    Extends svc (svc.proofMode amb call) call b (eraseResolved svc amb call ext label b) := by
  have hout := @snapshot_leaves _ _ svc (svc.proofMode amb call) label b
  have hvisits := @snapshot_visits _ _ svc (svc.proofMode amb call) label b
  rw [eraseResolved]
  generalize snapshot svc (svc.proofMode amb call) label b = b₀ at hout hvisits ⊢
  dsimp only
  rw [hout]
  rcases herased : svc.eraseLabel call label
    (svc.afterSnapshot (svc.proofMode amb call) label b.outside) with ⟨e | ⟨br, tx⟩, o₁⟩
  · exact ⟨_, by rw [← hvisits], .raised (eraseLabel_answers herased)⟩
  · have hbr : EraseAnswers svc call label
        (svc.afterSnapshot (svc.proofMode amb call) label b.outside) (.ok br.success) o₁ :=
      eraseLabel_answers herased
    dsimp only
    split
    · rename_i hsuccess
      rw [hsuccess] at hbr
      obtain ⟨verify, o₂, hverify, hlast, hvisit⟩ := @verifyErased_answers _ _ svc amb call ext
        label br { b₀ with outside := o₁, txIds := b₀.txIds ++ tx.toList }
      refine ⟨_, hvisit.trans (by rw [← hvisits]), ?_⟩
      rw [hlast]
      exact .erased hbr hverify
    · rename_i hsuccess
      rw [Bool.eq_false_iff.mpr hsuccess] at hbr
      exact ⟨_, by rw [← hvisits], .refused hbr⟩

/-- A visit that does not raise adds what the outside answered to it. -/
theorem eraseId_extends {ext : String} {b b' : Batch σ D}
    (h : eraseId svc amb call ext b = (none, b')) :
    Extends svc (svc.proofMode amb call) call b b' := by
  rw [eraseId] at h
  split at h
  · obtain rfl := (Prod.mk.inj h).2
    exact eraseResolved_extends ext _ b
  · split at h
    · obtain rfl := (Prod.mk.inj h).2
      exact ⟨_, rfl, .skipped ext⟩
    · cases (Prod.mk.inj h).1
  · cases (Prod.mk.inj h).1

/-- What is raised out of the loop leaves the batch as it is. -/
theorem eraseId_raises {ext : String} {b b' : Batch σ D} {e : RegistryError}
    (h : eraseId svc amb call ext b = (some e, b')) : b' = b := by
  rw [eraseId] at h
  split at h
  · cases (Prod.mk.inj h).1
  · split at h
    · cases (Prod.mk.inj h).1
    · exact (Prod.mk.inj h).2.symm
  · exact (Prod.mk.inj h).2.symm

/-- **The visits of the loop** are what the outside answered, one call after the other. -/
theorem answered_eraseAll {o : σ} {ids : List String} {b : Batch σ D}
    (h : Trace (Answered svc (svc.proofMode amb call) call) o b.visits b.outside) :
    Trace (Answered svc (svc.proofMode amb call) call) o (eraseAll svc amb call ids b).2.visits
      (eraseAll svc amb call ids b).2.outside := by
  induction ids generalizing b with
  | nil => exact h
  | cons ext rest ih =>
    rw [eraseAll]
    rcases hone : eraseId svc amb call ext b with ⟨_ | e, b'⟩
    · obtain ⟨v, hvisits, hanswered⟩ := eraseId_extends hone
      refine ih ?_
      rw [hvisits]
      exact h.append (.single hanswered)
    · obtain rfl := eraseId_raises hone
      exact h

/-- Visits that are verified were wiped. -/
theorem wipes_of_verified {mode : ProofMode} {o o' : σ} {visits : List Visit}
    (h : Trace (Answered svc mode call) o visits o') (hall : ∀ v ∈ visits, v.verified = true) :
    Trace (Wipes svc mode call) o (visits.filterMap Visit.label) o' := by
  induction h with
  | nil o => exact .nil o
  | @cons o o₁ o' v visits hv _ ih =>
    have hrest := ih fun v' hv' => hall v' (List.mem_cons_of_mem v hv')
    have hverified := hall v List.mem_cons_self
    rcases hv with ext | herase | herase | ⟨herase, hverify⟩
    · cases hverified
    · cases hverified
    · cases hverified
    · rename_i ext label verify o₂
      rcases verify with e | _ | _
      · cases hverified
      · cases hverified
      · exact .cons ⟨o₂, herase, hverify⟩ hrest

/-! ## One id -/

/-- The id was not mapped. -/
structure Skips (call : DeleteCall) (ext : String) (b b' : Batch σ D) : Prop where
  unmapped : b.registry.label? (strip call.collection) ext = none
  visits : b'.visits = b.visits ++ [⟨ext, none, none, none⟩]
  errors : ∃ text, b'.errors = b.errors ++ ["skip " ++ ext ++ ": " ++ text]
  registry : b'.registry = b.registry
  labels : b'.labels = b.labels
  erasedExt : b'.erasedExt = b.erasedExt

/-- The id was mapped, and its erase or the verification failed. -/
structure Fails (call : DeleteCall) (ext : String) (b b' : Batch σ D) : Prop where
  visits : ∃ v : Visit, b'.visits = b.visits ++ [v] ∧ v.ext = ext ∧ v.verified = false ∧
    v.label = b.registry.label? (strip call.collection) ext ∧ v.label.isSome = true
  errors : ∃ e, b'.errors = b.errors ++ [e]
  registry : b'.registry = b.registry
  labels : b'.labels = b.labels
  erasedExt : b'.erasedExt = b.erasedExt

/-- The id was mapped, erased and verified. -/
structure Erases (svc : Service σ D) (amb : Ambient σ D) (call : DeleteCall) (ext : String)
    (label : ℤ) (b b' : Batch σ D) : Prop where
  mapped : b.registry.resolve amb.printable call.collection ext =
    .ok ⟨strip call.collection, ext, label⟩
  visits : b'.visits = b.visits ++ [⟨ext, some label, some (.ok true), some (.ok true)⟩]
  errors : svc.dropMappings = false ∨
      (∃ l, (b.registry.drop amb.printable call.collection ext).1 = .ok l) → b'.errors = b.errors
  registry : b'.registry =
    if svc.dropMappings then (b.registry.drop amb.printable call.collection ext).2 else b.registry
  labels : b'.labels = b.labels ++ [label]
  erasedExt : b'.erasedExt = b.erasedExt ++ [ext]

/-- The snapshot changes none of what is counted. -/
theorem snapshot_frame (mode : ProofMode) (label : ℤ) (b : Batch σ D) :
    ∃ o originals, snapshot svc mode label b = { b with outside := o, originals := originals } := by
  unfold snapshot
  split
  · exact ⟨_, _, rfl⟩
  · exact ⟨_, _, rfl⟩
  · split
    · exact ⟨_, _, rfl⟩
    · exact ⟨_, _, rfl⟩

/-- A verified id is counted, and its mapping goes where the service drops mappings. -/
theorem dropMapping_erases {ext : String} {label : ℤ} {br : BackendEraseResult} {b : Batch σ D}
    (hres : b.registry.resolve amb.printable call.collection ext =
      .ok ⟨strip call.collection, ext, label⟩) :
    Erases svc amb call ext label b (dropMapping svc amb call ext (count ext label br b)) := by
  rw [dropMapping]
  by_cases hdrop : svc.dropMappings = true
  · rw [if_pos hdrop, show (count ext label br b).registry = b.registry from rfl]
    rcases hd : b.registry.drop amb.printable call.collection ext with ⟨e | l, reg⟩
    · refine ⟨hres, rfl, ?_, by rw [if_pos hdrop, hd], rfl, rfl⟩
      rintro (hno | ⟨l, hl⟩)
      · rw [hno] at hdrop
        cases hdrop
      · rw [hd] at hl
        cases hl
    · exact ⟨hres, rfl, fun _ => rfl, by rw [if_pos hdrop, hd], rfl, rfl⟩
  · rw [if_neg hdrop]
    exact ⟨hres, rfl, fun _ => rfl, by rw [if_neg hdrop]; rfl, rfl, rfl⟩

/-- After the erasure an id has failed, or it is erased. -/
theorem verifyErased_cases {ext : String} {label : ℤ} {br : BackendEraseResult} {b : Batch σ D}
    (hres : b.registry.resolve amb.printable call.collection ext =
      .ok ⟨strip call.collection, ext, label⟩) :
    Fails call ext b (verifyErased svc amb call ext label br b) ∨
      Erases svc amb call ext label b (verifyErased svc amb call ext label br b) := by
  have hlabel := Registry.label?_of_resolve hres
  unfold verifyErased
  split
  · exact Or.inl ⟨⟨_, rfl, rfl, rfl, hlabel.symm, rfl⟩, ⟨_, rfl⟩, rfl, rfl, rfl⟩
  · exact Or.inl ⟨⟨_, rfl, rfl, rfl, hlabel.symm, rfl⟩, ⟨_, rfl⟩, rfl, rfl, rfl⟩
  · rename_i o _
    obtain ⟨hmapped, hvisits, herrors, hreg, hlabels, hext⟩ :=
      dropMapping_erases (b := { b with outside := o }) hres
    exact Or.inr ⟨hmapped, hvisits, herrors, hreg, hlabels, hext⟩

/-- An id that resolves has failed after its visit, or it is erased. -/
theorem eraseResolved_cases {ext : String} {label : ℤ} {b : Batch σ D}
    (hres : b.registry.resolve amb.printable call.collection ext =
      .ok ⟨strip call.collection, ext, label⟩) :
    Fails call ext b (eraseResolved svc amb call ext label b) ∨
      Erases svc amb call ext label b (eraseResolved svc amb call ext label b) := by
  have hlabel := Registry.label?_of_resolve hres
  obtain ⟨o, originals, hsnap⟩ := snapshot_frame (svc.proofMode amb call) label b
  rw [eraseResolved, hsnap]
  rcases svc.eraseLabel call label o with ⟨e | ⟨br, tx⟩, o'⟩
  · exact Or.inl ⟨⟨_, rfl, rfl, rfl, hlabel.symm, rfl⟩, ⟨_, rfl⟩, rfl, rfl, rfl⟩
  · simp only
    by_cases hsucc : br.success = true
    · rw [if_pos hsucc]
      rcases verifyErased_cases (b := { b with
          outside := o', originals := originals, txIds := b.txIds ++ tx.toList }) hres with
        ⟨hvisits, herrors, hreg, hlabels, hext⟩ | ⟨hmapped, hvisits, herrors, hreg, hlabels, hext⟩
      · exact Or.inl ⟨hvisits, herrors, hreg, hlabels, hext⟩
      · exact Or.inr ⟨hmapped, hvisits, herrors, hreg, hlabels, hext⟩
    · rw [if_neg hsucc]
      exact Or.inl ⟨⟨_, rfl, rfl, rfl, hlabel.symm, rfl⟩, ⟨_, rfl⟩, rfl, rfl, rfl⟩

/-- **The turn of one id**: it raises out of `delete`, or the id is skipped, fails
or is erased. -/
theorem eraseId_cases {ext : String} (hs : strip ext = ext) (hne : ext ≠ "") (b : Batch σ D) :
    (∃ e, eraseId svc amb call ext b = (some e, b) ∧
        (call.idempotent = false ∨ strip call.collection = "")) ∨
      ∃ b', eraseId svc amb call ext b = (none, b') ∧
        (Skips call ext b b' ∨ Fails call ext b b' ∨
          ∃ label, Erases svc amb call ext label b b') := by
  rcases Registry.resolve_cases call.collection hs hne
    with ⟨label, -, hres⟩ | ⟨message, hnone, hres⟩ | ⟨message, hblank, hres⟩
  · refine Or.inr ⟨eraseResolved svc amb call ext label b, by rw [eraseId, hres], Or.inr ?_⟩
    rcases eraseResolved_cases hres with hfail | herase
    · exact Or.inl hfail
    · exact Or.inr ⟨label, herase⟩
  · rcases hidem : call.idempotent with _ | _
    · refine Or.inl ⟨.idMapping message, ?_, Or.inl rfl⟩
      rw [eraseId, hres]
      simp only [hidem]
      rfl
    · refine Or.inr ⟨(eraseId svc amb call ext b).2, ?_, Or.inl ?_⟩
      · rw [eraseId, hres]
        simp only [hidem, if_true]
      · rw [eraseId, hres]
        simp only [hidem, if_true]
        exact ⟨hnone, rfl, ⟨_, rfl⟩, rfl, rfl, rfl⟩
  · exact Or.inl ⟨.valueError message, by rw [eraseId, hres], Or.inr hblank⟩

/-- A turn maps nothing new. -/
theorem label?_of_turn {ext : String} {b b' : Batch σ D}
    (h : Skips call ext b b' ∨ Fails call ext b b' ∨ ∃ label, Erases svc amb call ext label b b')
    {c e : String} {l : ℤ} (hl : b'.registry.label? c e = some l) :
    b.registry.label? c e = some l := by
  rcases h with hskip | hfail | ⟨label, herase⟩
  · rwa [hskip.registry] at hl
  · rwa [hfail.registry] at hl
  · rw [herase.registry] at hl
    split at hl
    · rw [(Registry.drop_lookups herase.mapped).1] at hl
      split at hl
      · cases hl
      · exact hl
    · exact hl

/-! ## The loop -/

/-- What holds after the turns of `ids`, from the registry `reg`. -/
structure Progress (svc : Service σ D) (call : DeleteCall) (reg : Registry) (ids : List String)
    (b : Batch σ D) : Prop where
  visited : b.visits.map Visit.ext = ids
  resolved : ∀ v ∈ b.visits, ∀ l, v.label = some l →
    reg.label? (strip call.collection) v.ext = some l
  labels : b.labels = verifiedLabels b.visits
  erasedExt : b.erasedExt = verifiedExts b.visits
  registry : svc.dropMappings = true →
    reg.Without (strip call.collection) (verifiedExts b.visits) (verifiedLabels b.visits) b.registry
  consistent : reg.Consistent → b.registry.Consistent
  shrinks : ∀ c e l, b.registry.label? c e = some l → reg.label? c e = some l

/-- The label of one more visit was in the registry before the loop too. -/
theorem Progress.resolved_concat {reg : Registry} {ids : List String} {b b' : Batch σ D} {v : Visit}
    (h : Progress svc call reg ids b) (hvisits : b'.visits = b.visits ++ [v])
    (hlabel : ∀ l, v.label = some l →
      b.registry.label? (strip call.collection) v.ext = some l) :
    ∀ u ∈ b'.visits, ∀ l, u.label = some l →
      reg.label? (strip call.collection) u.ext = some l := by
  intro u hu l hl
  rw [hvisits] at hu
  rcases List.mem_append.mp hu with hold | hnew
  · exact h.resolved u hold l hl
  · rw [List.mem_singleton.mp hnew] at hl ⊢
    exact h.shrinks _ _ _ (hlabel l hl)

/-- A turn that verified nothing. -/
theorem Progress.unverified {reg : Registry} {ids : List String} {ext : String} {b b' : Batch σ D}
    {v : Visit} (h : Progress svc call reg ids b) (hvisits : b'.visits = b.visits ++ [v])
    (hext : v.ext = ext) (hno : v.verified = false)
    (hlabel : ∀ l, v.label = some l → b.registry.label? (strip call.collection) v.ext = some l)
    (hreg : b'.registry = b.registry) (hlabels : b'.labels = b.labels)
    (herased : b'.erasedExt = b.erasedExt) : Progress svc call reg (ids ++ [ext]) b' where
  visited := by
    rw [hvisits, List.map_append, h.visited, List.map_cons, hext]
    rfl
  resolved := h.resolved_concat hvisits hlabel
  labels := by
    rw [hlabels, hvisits, verifiedLabels_append, verifiedLabels_singleton_false hno,
      List.append_nil, h.labels]
  erasedExt := by
    rw [herased, hvisits, verifiedExts_append, verifiedExts_singleton_false hno,
      List.append_nil, h.erasedExt]
  registry hd := by
    rw [hreg, hvisits, verifiedExts_append, verifiedLabels_append,
      verifiedExts_singleton_false hno, verifiedLabels_singleton_false hno, List.append_nil,
      List.append_nil]
    exact h.registry hd
  consistent hc := hreg ▸ h.consistent hc
  shrinks c e l hl := h.shrinks c e l (hreg ▸ hl)

/-- A turn that erased its id. -/
theorem Progress.erased {reg : Registry} {ids : List String} {ext : String} {label : ℤ}
    {b b' : Batch σ D} (h : Progress svc call reg ids b)
    (herase : Erases svc amb call ext label b b') : Progress svc call reg (ids ++ [ext]) b' where
  visited := by
    rw [herase.visits, List.map_append, h.visited]
    rfl
  resolved := h.resolved_concat herase.visits fun l hl =>
    (Registry.label?_of_resolve herase.mapped).trans hl
  labels := by
    rw [herase.labels, herase.visits, verifiedLabels_append, h.labels]
    rfl
  erasedExt := by
    rw [herase.erasedExt, herase.visits, verifiedExts_append, h.erasedExt]
    rfl
  registry hd := by
    rw [herase.registry, if_pos hd, herase.visits, verifiedExts_append, verifiedLabels_append]
    exact (h.registry hd).drop herase.mapped
  consistent hc := by
    rw [herase.registry]
    split
    · exact Registry.consistent_drop (h.consistent hc) _ _
    · exact h.consistent hc
  shrinks c e l hl := h.shrinks c e l (label?_of_turn (Or.inr (Or.inr ⟨label, herase⟩)) hl)

/-- The step of `Progress`: one more id of the batch. -/
theorem progress_eraseId {reg : Registry} {ids : List String} {ext : String} {b b' : Batch σ D}
    (h : Progress svc call reg ids b) (hs : strip ext = ext) (hne : ext ≠ "")
    (he : eraseId svc amb call ext b = (none, b')) : Progress svc call reg (ids ++ [ext]) b' := by
  rcases eraseId_cases hs hne b with ⟨e, heq, -⟩ | ⟨b₁, heq, hskip | hfail | ⟨label, herase⟩⟩
  · rw [heq] at he
    cases he
  · rw [heq] at he
    obtain rfl := (Prod.mk.inj he).2
    exact h.unverified hskip.visits rfl rfl (fun l hl => (by cases hl)) hskip.registry hskip.labels
      hskip.erasedExt
  · rw [heq] at he
    obtain rfl := (Prod.mk.inj he).2
    obtain ⟨v, hv, rfl, hno, hlabel, -⟩ := hfail.visits
    exact h.unverified hv rfl hno (fun l hl => hlabel.symm.trans hl) hfail.registry hfail.labels
      hfail.erasedExt
  · rw [heq] at he
    obtain rfl := (Prod.mk.inj he).2
    exact h.erased herase

/-- **The loop**: it makes progress through all ids, or through those before the
one that raises. -/
theorem progress_eraseAll {reg : Registry} {ids done : List String} {b : Batch σ D}
    (h : Progress svc call reg done b) (hids : ∀ ext ∈ ids, strip ext = ext ∧ ext ≠ "") :
    ∃ visited, Progress svc call reg visited (eraseAll svc amb call ids b).2 ∧
      ((eraseAll svc amb call ids b).1 = none → visited = done ++ ids) := by
  induction ids generalizing done b with
  | nil => exact ⟨done, h, fun _ => (List.append_nil done).symm⟩
  | cons ext rest ih =>
    obtain ⟨hs, hne⟩ := hids ext List.mem_cons_self
    rcases heq : eraseId svc amb call ext b with ⟨_ | e, b'⟩
    · obtain ⟨visited, hp, hv⟩ := ih (progress_eraseId h hs hne heq)
        fun e he => hids e (List.mem_cons_of_mem ext he)
      rw [eraseAll, heq]
      refine ⟨visited, hp, fun hnone => ?_⟩
      rw [hv hnone, List.append_assoc]
      rfl
    · rcases eraseId_cases hs hne b with ⟨e', heq', -⟩ | ⟨b₁, heq', -⟩
      · rw [heq] at heq'
        obtain ⟨-, rfl⟩ := Prod.mk.inj heq'
        rw [eraseAll, heq]
        exact ⟨done, h, fun hnone => (by cases hnone)⟩
      · rw [heq] at heq'
        cases heq'

/-! ## After the loop -/

/-- The log returns the receipt that it was given. -/
theorem logReceipt_ok {receipt receipt' : ErasureReceipt D} {o : σ}
    (h : (svc.logReceipt receipt o).1 = .ok receipt') : receipt' = receipt := by
  unfold logReceipt at h
  split at h
  · exact (Except.ok.inj h).symm
  · split at h
    · cases h
    · exact (Except.ok.inj h).symm

variable [PyFloat D]

/-- Before the first id. -/
theorem progress_start (st : ServiceState σ D) (messages : List String) :
    Progress svc call st.registry [] (Batch.start st messages) where
  visited := rfl
  resolved v hv := by cases hv
  labels := rfl
  erasedExt := rfl
  registry _ := .nil _ _
  consistent h := h
  shrinks _ _ _ h := h

/-- After the loop nothing is visited, registered or dropped. -/
theorem conclude_frame (mode : CompactMode) (policy : CompactCoalescePolicy D) (b : Batch σ D) :
    (svc.conclude amb call mode policy b).visits = b.visits ∧
      (svc.conclude amb call mode policy b).state.registry = b.registry := by
  simp only [conclude]
  split
  · exact ⟨rfl, rfl⟩
  · exact ⟨rfl, rfl⟩

/-- What `delete` leaves of the registry, and what it visited, is the work of its
loop. -/
theorem delete_progress (svc : Service σ D) (amb : Ambient σ D) (call : DeleteCall)
    (st : ServiceState σ D) :
    ∃ visited b, Progress svc call st.registry visited b ∧
      (svc.delete amb call st).visits = b.visits ∧
      (svc.delete amb call st).state.registry = b.registry := by
  rw [delete]
  rcases svc.compactMode amb call st with message | mode
  · exact ⟨[], _, progress_start st [], rfl, rfl⟩
  · simp only
    obtain ⟨visited, hp, -⟩ := progress_eraseAll
      (progress_start st (svc.adaptCompact amb call st).2) call.extIds_normal
    rcases heq : eraseAll svc amb call call.extIds
      (Batch.start st (svc.adaptCompact amb call st).2) with ⟨_ | e, b⟩
    · rw [heq] at hp
      exact ⟨visited, b, hp, conclude_frame mode st.policy b⟩
    · rw [heq] at hp
      exact ⟨visited, b, hp, rfl, rfl⟩

/-- **What a call visited** is what the outside answered it. -/
theorem delete_answered (svc : Service σ D) (amb : Ambient σ D) (call : DeleteCall)
    (st : ServiceState σ D) :
    ∃ o, Trace (Answered svc (svc.proofMode amb call) call) st.outside
      (svc.delete amb call st).visits o := by
  rw [delete]
  rcases svc.compactMode amb call st with message | mode
  · exact ⟨_, .nil _⟩
  · have hloop := @answered_eraseAll _ _ svc amb call st.outside call.extIds
      (Batch.start st (svc.adaptCompact amb call st).2) (.nil _)
    dsimp only
    rcases heq : eraseAll svc amb call call.extIds
      (Batch.start st (svc.adaptCompact amb call st).2) with ⟨_ | e, b⟩
    · rw [heq] at hloop
      dsimp only
      rw [(conclude_frame mode st.policy b).1]
      exact ⟨_, hloop⟩
    · rw [heq] at hloop
      exact ⟨_, hloop⟩

/-- How a call comes to a receipt. -/
structure Concluded (svc : Service σ D) (amb : Ambient σ D) (call : DeleteCall)
    (st : ServiceState σ D) (receipt : ErasureReceipt D) (mode : CompactMode) (b : Batch σ D)
    (summary : ResidualProofSummary D) (o : σ) : Prop where
  compactMode : svc.compactMode amb call st = .ok mode
  loop : eraseAll svc amb call call.extIds (Batch.start st (svc.adaptCompact amb call st).2) =
    (none, b)
  proofs : svc.runResidualProofs amb call (svc.proofMode amb call) b
    (svc.runCompaction amb mode b.labels b.outside st.policy).outside = (.ok summary, o)
  receipt : receipt =
    { svc.draft amb call b (svc.runCompaction amb mode b.labels b.outside st.policy) summary o with
      signature := svc.sign
        (svc.draft amb call b (svc.runCompaction amb mode b.labels b.outside st.policy) summary o) }
  visits : (svc.delete amb call st).visits = b.visits
  registry : (svc.delete amb call st).state.registry = b.registry

/-- The loop went through the batch. -/
theorem Concluded.progress {st : ServiceState σ D} {receipt : ErasureReceipt D} {mode : CompactMode}
    {b : Batch σ D} {summary : ResidualProofSummary D} {o : σ}
    (hc : Concluded svc amb call st receipt mode b summary o) :
    Progress svc call st.registry call.extIds b := by
  obtain ⟨visited, hp, hv⟩ := progress_eraseAll
    (progress_start st (svc.adaptCompact amb call st).2) call.extIds_normal
  rw [hc.loop] at hp hv
  obtain rfl := hv rfl
  rwa [List.nil_append] at hp

/-- A call that returns has gone through its loop and its compaction. -/
theorem concluded_of_receipt {st : ServiceState σ D} {receipt : ErasureReceipt D}
    (h : (svc.delete amb call st).result = .ok receipt) :
    ∃ mode b summary o, Concluded svc amb call st receipt mode b summary o := by
  rcases hmode : svc.compactMode amb call st with message | mode
  · simp only [delete, hmode] at h
    cases h
  · rcases hloop : eraseAll svc amb call call.extIds
      (Batch.start st (svc.adaptCompact amb call st).2) with ⟨_ | e, b⟩
    · have hdel : svc.delete amb call st = svc.conclude amb call mode st.policy b := by
        simp only [delete, hmode, hloop]
      rcases hproofs : svc.runResidualProofs amb call (svc.proofMode amb call) b
        (svc.runCompaction amb mode b.labels b.outside st.policy).outside with ⟨e | summary, o⟩
      · rw [hdel] at h
        simp only [conclude, hproofs] at h
        cases h
      · rw [hdel] at h
        simp only [conclude, hproofs] at h
        refine ⟨mode, b, summary, o, hmode, hloop, hproofs, logReceipt_ok h, ?_, ?_⟩
        all_goals
          rw [hdel]
          simp only [conclude, hproofs]
    · simp only [delete, hmode, hloop] at h
      cases h

/-- **When a status is `complete`.** -/
theorem deriveStatus_eq_complete {requested erased : ℕ} {errors : List String} {mode : ProofMode}
    {passed : Option Bool} {deferred : Bool} (hreq : requested ≠ 0) :
    deriveStatus requested erased errors mode passed deferred = .complete ↔
      erased = requested ∧ errors = [] ∧ (mode = .off ∨ passed = some true) := by
  unfold deriveStatus
  constructor
  · intro h
    simp only [if_neg hreq] at h
    split at h
    · split at h <;> cases h
    · rename_i herased
      have hproof : ¬ (mode ≠ .off ∧ 0 < erased ∧ passed ≠ some true) →
          mode = .off ∨ passed = some true := by
        intro hno
        by_contra hcon
        exact hno ⟨fun hoff => hcon (Or.inl hoff), by omega, fun hp => hcon (Or.inr hp)⟩
      split at h
      · rename_i hall
        exact ⟨hall.1.1, hall.2.2.2, hproof hall.2.2.1⟩
      · split at h
        · rename_i hall
          obtain ⟨⟨heq, -⟩, -, hnp, -, hskips, hall⟩ := hall
          -- only skips, but not only skips: there is no error
          refine ⟨heq, ?_, hproof hnp⟩
          rw [hall, Bool.and_true] at hskips
          simpa using hskips
        · cases h
  · rintro ⟨rfl, rfl, hproof⟩
    rw [if_neg hreq, if_neg hreq, if_pos]
    refine ⟨⟨rfl, rfl⟩, rfl, ?_, rfl⟩
    rintro ⟨hoff, -, hp⟩
    rcases hproof with h | h
    · exact hoff h
    · exact hp h

/-- **A successful receipt**: as many labels as ids, no error, proofs that passed, and
every visit verified. -/
theorem Concluded.complete {st : ServiceState σ D} {receipt : ErasureReceipt D} {mode : CompactMode}
    {b : Batch σ D} {summary : ResidualProofSummary D} {o : σ}
    (hc : Concluded svc amb call st receipt mode b summary o) (hids : call.extIds ≠ [])
    (hsucc : receipt.success = true) :
    b.labels.length = call.extIds.length ∧
      allErrors (svc.proofMode amb call) b
        (svc.runCompaction amb mode b.labels b.outside st.policy) summary = [] ∧
      (svc.proofMode amb call = .off ∨ summary.passed = some true) ∧
      ∀ v ∈ b.visits, v.verified = true := by
  have hp := hc.progress
  have hstatus : deriveStatus call.extIds.length b.labels.length
      (allErrors (svc.proofMode amb call) b
        (svc.runCompaction amb mode b.labels b.outside st.policy) summary)
      (svc.proofMode amb call) summary.passed
      (svc.runCompaction amb mode b.labels b.outside st.policy).deferred = .complete := by
    rw [hc.receipt] at hsucc
    exact of_decide_eq_true hsucc
  obtain ⟨hcount, herrors, hproof⟩ := (deriveStatus_eq_complete
    (fun h => hids (List.length_eq_zero_iff.mp h))).mp hstatus
  refine ⟨hcount, herrors, hproof, ?_⟩
  -- as many verified visits as ids
  refine List.length_filter_eq_length_iff.mp ?_
  rw [← length_verifiedLabels, ← hp.labels, hcount, ← hp.visited, List.length_map]

/-- The labels of verified visits are those of their ids. -/
theorem map_label_of_verified {visits : List Visit} {label? : String → Option ℤ}
    (hall : ∀ v ∈ visits, v.verified = true) (hlabel : ∀ v ∈ visits, v.label = label? v.ext) :
    visits.map (label? ∘ Visit.ext) = (visits.filterMap Visit.label).map some := by
  induction visits with
  | nil => rfl
  | cons v visits ih =>
    have hrest := ih (fun v' hv' => hall v' (List.mem_cons_of_mem v hv'))
      fun v' hv' => hlabel v' (List.mem_cons_of_mem v hv')
    obtain ⟨l, hl⟩ := Visit.label_of_verified (hall v List.mem_cons_self)
    rw [List.map_cons, List.filterMap_cons, hl, List.map_cons, ← hrest, ← hl,
      hlabel v List.mem_cons_self]
    rfl

/-- A compaction that was asked for happens or is an error. -/
theorem runCompaction_always {labels : List ℤ} {o : σ} {policy : CompactCoalescePolicy D}
    (hlabels : labels ≠ []) (herr : (svc.runCompaction amb .always labels o policy).errors = []) :
    (svc.runCompaction amb .always labels o policy).compacted = true := by
  rw [runCompaction, if_neg hlabels] at herr ⊢
  simp only [chooseCompact, if_true, compactNow] at herr ⊢
  split at herr
  · cases herr
  · split at herr
    · rfl
    · cases herr

/-- Proofs that passed as a whole passed one by one. -/
theorem passed_of_summary {mode : ProofMode} {b : Batch σ D} {o o' : σ}
    {summary : ResidualProofSummary D}
    (h : svc.runResidualProofs amb call mode b o = (.ok summary, o'))
    (hpassed : summary.passed = some true) : ∀ proof ∈ summary.proofs, proof.passed = true := by
  unfold runResidualProofs at h
  split at h
  · cases h
    cases hpassed
  · split at h
    · cases h
    · rename_i proofs o₁ _
      cases h
      intro proof hproof
      have hzero : (proofs.filter fun proof => !proof.passed).length = 0 := by
        simpa [summarize] using hpassed
      have hnil := List.filter_eq_nil_iff.mp (List.length_eq_zero_iff.mp hzero) proof hproof
      simpa using hnil

/-- **Receipt soundness.** For every backend, persistence engine, policy and
environment: a successful receipt means that every requested id was resolved in
the registry, that for their labels, one after the other, the erase reported success and
`verify_zeroed` returned `True`, that there are no errors, that the compact mode `always`
compacted, and that every residual proof passed; and the registry loses exactly the ids whose
erase was verified. Whatever the result, the visits are the answers of the outside. -/
theorem delete_sound (svc : Service σ D) (amb : Ambient σ D) (call : DeleteCall)
    (st : ServiceState σ D) (hids : call.extIds ≠ []) :
    (∃ o, Trace (Answered svc (svc.proofMode amb call) call) st.outside
      (svc.delete amb call st).visits o) ∧
    (∀ receipt, (svc.delete amb call st).result = .ok receipt → receipt.success = true →
      (svc.delete amb call st).visits.map Visit.ext = call.extIds ∧
      (∀ v ∈ (svc.delete amb call st).visits, v.verified = true ∧
        v.label = st.registry.label? (strip call.collection) v.ext) ∧
      (∃ labels o, call.extIds.map (st.registry.label? (strip call.collection)) =
          labels.map some ∧
        Trace (Wipes svc (svc.proofMode amb call) call) st.outside labels o) ∧
      receipt.errors = [] ∧
      (svc.compactMode amb call st = .ok .always → receipt.compacted = true) ∧
      (svc.proofMode amb call ≠ .off →
        ∀ proof ∈ receipt.residualProof.proofs, proof.passed = true)) ∧
    (svc.dropMappings = true →
      st.registry.Without (strip call.collection) (verifiedExts (svc.delete amb call st).visits)
        (verifiedLabels (svc.delete amb call st).visits) (svc.delete amb call st).state.registry) := by
  have hanswered := delete_answered svc amb call st
  refine ⟨hanswered, fun receipt hres hsucc => ?_, fun hdrop => ?_⟩
  · obtain ⟨mode, b, summary, o, hc⟩ := concluded_of_receipt hres
    have hp := hc.progress
    obtain ⟨hcount, herrors, hproof, hall⟩ := hc.complete hids hsucc
    obtain ⟨⟨-, hcerr⟩, -⟩ : (b.errors = [] ∧ _ = []) ∧ _ = [] := by
      rw [allErrors] at herrors
      exact ⟨List.append_eq_nil_iff.mp (List.append_eq_nil_iff.mp herrors).1,
        (List.append_eq_nil_iff.mp herrors).2⟩
    have hlabel : ∀ v ∈ b.visits, v.label = st.registry.label? (strip call.collection) v.ext := by
      intro v hv
      obtain ⟨l, hl⟩ := Visit.label_of_verified (hall v hv)
      rw [hl, hp.resolved v hv l hl]
    rw [hc.visits] at hanswered ⊢
    refine ⟨hp.visited, fun v hv => ⟨hall v hv, hlabel v hv⟩, ?_,
      by rw [hc.receipt]; exact herrors, fun halways => ?_, fun hoff => ?_⟩
    · obtain ⟨o', htrace⟩ := hanswered
      refine ⟨b.visits.filterMap Visit.label, o', ?_, wipes_of_verified htrace hall⟩
      rw [← hp.visited, List.map_map]
      exact map_label_of_verified hall hlabel
    · rw [hc.compactMode] at halways
      obtain rfl := Except.ok.inj halways
      rw [hc.receipt]
      refine runCompaction_always (fun hnil => hids ?_) hcerr
      rw [hnil] at hcount
      exact List.length_eq_zero_iff.mp hcount.symm
    · rw [hc.receipt]
      rcases hproof with h | h
      · exact absurd h hoff
      · exact passed_of_summary hc.proofs h
  · obtain ⟨visited, b, hp, hvisits, hreg⟩ := delete_progress svc amb call st
    rw [hvisits, hreg]
    exact hp.registry hdrop

/-! ## A batch that is erased -/

/-- Exact arithmetic, for the examples: their rows have one component, `0` or `1`. -/
instance exactFloat : PyFloat ℚ where
  ofFloat32 w := if w = 0 then 0 else 1
  zero := 0
  one := 1
  negOne := -1
  add := (· + ·)
  sub := (· - ·)
  mul := (· * ·)
  div := (· / ·)
  sqrt x := x
  lt a b := decide (a < b)
  eq a b := decide (a = b)
  ofInt n := n
  toFloat32 x := if x = 0 then 0 else 0x3f800000
  norm row := if row.all fun x => decide (x = 0) then 0 else 1
  repr x := toString x.num ++ ".0"
  fixed2 x := toString x.num ++ ".00"

/-- A backend that erases every label except `refused`; its state lists the erased
ones, and `-1` for a refusal. -/
def listBackend (refused : List ℤ → List ℤ) : Backend (List ℤ) ℚ where
  hardDeleteLabel _ label _ erased :=
    if label ∈ refused erased then (.ok ⟨false, 0, some "refused"⟩, -1 :: erased)
    else (.ok ⟨true, 4, none⟩, label :: erased)
  verifyZeroed _ label erased := (.ok (label ∈ erased), erased)
  getVector := some fun label erased => (.ok [if label ∈ erased then 0 else 1], erased)
  compact := some fun erased => (.ok 0, erased)
  vectorRows := none
  healMirror := false

/-- A service over `listBackend`, without an engine. -/
def listService (refused : List ℤ → List ℤ) : Service (List ℤ) ℚ where
  backend := listBackend refused
  persistence := none
  dropMappings := true
  defaultCompact := .auto
  defaultResidualProof := none
  receiptLog := none
  signingKey := [0x6b]

/-- A quiet environment of a delete. -/
def plainAmbient : Ambient (List ℤ) ℚ where
  environ _ := none
  printable _ := true
  uuid4 := "00000000-0000-4000-8000-000000000000"
  timeNs := 0
  noteTime := 0
  decideTime := 0
  pathText path := path
  file _ _ := none

/-- A call of `delete` with its default arguments. -/
def plainCall (collection : String) (ids : List String) : DeleteCall where
  collection := collection
  ids := ids
  reason := none
  requestId := none
  maxM := 16
  idempotent := true
  compact := none
  residualProof := none
  checkpointPath := none

/-- Two ids of one collection. -/
def twoUsers : ServiceState (List ℤ) ℚ where
  registry := Registry.run (fun _ => true)
    [.register "users" "ann" none, .register "users" "bob" none]
  outside := []
  policy := ⟨.always, 32, 60, 0, none, by decide, by decide⟩

/-- Both are erased in one call. -/
def bothErased : Deletion (List ℤ) ℚ :=
  (listService fun _ => []).delete plainAmbient (plainCall "users" [" ann ", "", "bob"]) twoUsers

theorem delete_sound_bothErased :
    ∃ receipt, bothErased.result = .ok receipt ∧ receipt.success = true ∧ receipt.errors = [] ∧
      bothErased.visits.map Visit.ext = ["ann", "bob"] ∧
      (∃ o, Trace (Wipes (listService fun _ => []) .sample (plainCall "users" [" ann ", "", "bob"]))
        [] [0, 1] o) ∧
      twoUsers.registry.Without "users" (verifiedExts bothErased.visits)
        (verifiedLabels bothErased.visits) bothErased.state.registry := by
  have hsound := delete_sound (listService fun _ => []) plainAmbient
    (plainCall "users" [" ann ", "", "bob"]) twoUsers (by decide +kernel)
  have hsome : bothErased.result.toOption.map ErasureReceipt.success = some true := by decide +kernel
  rcases h : bothErased.result with e | receipt
  · rw [h] at hsome
    cases hsome
  · rw [h] at hsome
    have hsucc : receipt.success = true := Option.some.inj hsome
    obtain ⟨hvisits, -, ⟨labels, o, hlabels, hwiped⟩, herrors, -, -⟩ := hsound.2.1 receipt h hsucc
    have hboth : labels = [0, 1] :=
      List.map_injective_iff.mpr (Option.some_injective _) (hlabels.symm.trans (by decide +kernel))
    exact ⟨receipt, rfl, hsucc, herrors, hvisits, ⟨o, hboth ▸ hwiped⟩, hsound.2.2 rfl⟩

end Service

end Unlearning
