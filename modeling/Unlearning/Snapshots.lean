import Unlearning.Frame
import Unlearning.Retries
import Mathlib.Logic.Relation

/-!
# The pre-image of a residual proof

The proof that an embedding left the checkpoint file needs the embedding. `delete`
reads it from the live store just before it erases the row (`snapshot`), on every
attempt: once the row is wiped, a later attempt snapshots zeros, the scan is skipped
for them, and the proof passes whatever the file holds.

`Touches` is one call of the backend, the persistence engine or the receipt log, and
"throughout a run" is along `Touches`. The loop is followed for one id: before its turn
the row still reads as before (`eraseAll_others`), at its turn it goes into the
originals, and after it the entry stays.
-/

namespace Unlearning

open FloatArith PyFloat PyText

namespace Service

variable {σ D : Type}

/-! ## What a call leaves alone -/

/-- One call that the service makes. -/
inductive Touches (svc : Service σ D) : σ → σ → Prop where
  | getVector {getVector : ℤ → σ → Except String (List D) × σ}
      (h : svc.backend.getVector = some getVector) (label : ℤ) (o : σ) :
      Touches svc o (getVector label o).2
  | erase (call : DeleteCall) (label : ℤ) (o : σ) : Touches svc o (svc.eraseLabel call label o).2
  | verify (collection : String) (label : ℤ) (o : σ) :
      Touches svc o (svc.backend.verifyZeroed collection label o).2
  | compact {compact : σ → Except String ℤ × σ} (h : svc.backend.compact = some compact) (o : σ) :
      Touches svc o (compact o).2
  | log {append : ErasureReceipt D → σ → Option LogFailure × σ}
      (h : svc.receiptLog = some append) (receipt : ErasureReceipt D) (o : σ) :
      Touches svc o (append receipt o).2

/-- The states that calls lead to. -/
abbrev Leads (svc : Service σ D) : σ → σ → Prop := Relation.ReflTransGen svc.Touches

theorem unmoved_leads (svc : Service σ D) : Unmoved svc svc.Leads where
  refl _ := .refl
  trans _ _ _ := .trans
  getVector _ h label o := .single (.getVector h label o)
  verifyZeroed collection label o := .single (.verify collection label o)
  compact _ h o := .single (.compact h o)
  receiptLog _ h receipt o := .single (.log h receipt o)

/-- `get_vector` reads `v` for a label. -/
def Reads (svc : Service σ D) (label : ℤ) (v : List D) (o : σ) : Prop :=
  ∃ getVector, svc.backend.getVector = some getVector ∧ (getVector label o).1 = .ok v

variable (svc : Service σ D) (amb : Ambient σ D) (call : DeleteCall)

/-- A snapshot that is taken. -/
theorem snapshot_eq {mode : ProofMode} (hmode : mode ≠ .off)
    {getVector : ℤ → σ → Except String (List D) × σ} (hg : svc.backend.getVector = some getVector)
    (label : ℤ) (b : Batch σ D) :
    snapshot svc mode label b =
      { b with
        outside := (getVector label b.outside).2
        originals := (getVector label b.outside).1.toOption.elim b.originals
          (b.originals.insert label) } := by
  rcases mode with _ | _ | _
  · exact absurd rfl hmode
  all_goals
    simp only [snapshot, hg]
    rcases getVector label b.outside with ⟨e | vec, o⟩ <;> rfl

theorem dropMapping_originals (ext : String) (b : Batch σ D) :
    (dropMapping svc amb call ext b).originals = b.originals := by
  unfold dropMapping
  split
  · split <;> rfl
  · rfl

/-- The turn of an id that resolves: a snapshot, an erase and perhaps a verification. -/
theorem eraseResolved_steps (ext : String) (label : ℤ) (b : Batch σ D) :
    let taken := snapshot svc (svc.proofMode amb call) label b
    let erased := (svc.eraseLabel call label taken.outside).2
    (eraseResolved svc amb call ext label b).originals = taken.originals ∧
      ((eraseResolved svc amb call ext label b).outside = erased ∨
        (eraseResolved svc amb call ext label b).outside =
          (svc.backend.verifyZeroed call.collection label erased).2) := by
  intro taken erased
  unfold eraseResolved
  simp only [erased, taken]
  generalize snapshot svc (svc.proofMode amb call) label b = b₁
  rcases svc.eraseLabel call label b₁.outside with ⟨e | ⟨br, tx⟩, o⟩
  · exact ⟨rfl, Or.inl rfl⟩
  · simp only
    cases br.success
    · exact ⟨rfl, Or.inl rfl⟩
    · simp only [if_true, verifyErased]
      rcases svc.backend.verifyZeroed call.collection label o with ⟨e | _ | _, o'⟩
      · exact ⟨rfl, Or.inr rfl⟩
      · exact ⟨rfl, Or.inr rfl⟩
      · exact ⟨dropMapping_originals svc amb call ext _, Or.inr (dropMapping_outside ext _)⟩

/-! ## One id through the loop -/

variable {svc amb call}

/-- The turn of the label: its row goes into the originals. -/
theorem eraseResolved_self (hmode : svc.proofMode amb call ≠ .off) {label : ℤ} {v : List D}
    (ext : String) (b : Batch σ D) (hv : svc.Reads label v b.outside) :
    (eraseResolved svc amb call ext label b).originals.lookup label = some v := by
  obtain ⟨getVector, hg, hread⟩ := hv
  obtain ⟨horig, -⟩ := eraseResolved_steps svc amb call ext label b
  rw [horig, snapshot_eq svc hmode hg, hread]
  exact AList.lookup_insert b.originals

/-- Without `drop_mappings` the registry stays as it is. -/
theorem eraseId_registry (amb : Ambient σ D) (call : DeleteCall)
    (hdrop : svc.dropMappings = false) {ext : String} (hs : strip ext = ext) (hne : ext ≠ "")
    (b : Batch σ D) :
    (eraseId svc amb call ext b).2.registry = b.registry := by
  rcases eraseId_cases hs hne b with ⟨e, heq, -⟩ | ⟨b', heq, hskip | hfail | ⟨label, herase⟩⟩
  · rw [heq]
  · rw [heq, hskip.registry]
  · rw [heq, hfail.registry]
  · rw [heq, herase.registry, hdrop]
    rfl

/-- The backend zeroes rows: an erase that reports success leaves zeros, an erase changes
no other row, and reading and verifying change none. -/
structure ZeroesRows [PyFloat D] (svc : Service σ D) : Prop where
  zeroed : ∀ getVector, svc.backend.getVector = some getVector → ∀ call label o,
    (svc.eraseLabel call label o).1.toOption.map (fun r => r.1.success) = some true →
    ∃ row, (getVector label (svc.eraseLabel call label o).2).1 = .ok row ∧ vectorAllZeros row = true
  others : ∀ getVector, svc.backend.getVector = some getVector → ∀ call label label' o,
    label' ≠ label →
    (getVector label' (svc.eraseLabel call label o).2).1 = (getVector label' o).1
  reading : ∀ getVector, svc.backend.getVector = some getVector → ∀ label label' o,
    (getVector label' (getVector label o).2).1 = (getVector label' o).1
  verifying : ∀ getVector, svc.backend.getVector = some getVector → ∀ collection label label' o,
    (getVector label' (svc.backend.verifyZeroed collection label o).2).1 = (getVector label' o).1

section Loop

variable [PyFloat D]

/-- The turn of another label: the row reads as before and keeps its entry in the
originals. -/
theorem eraseResolved_others (hz : svc.ZeroesRows) (hmode : svc.proofMode amb call ≠ .off)
    {label label' : ℤ} (hne : label' ≠ label) {v : List D} (ext : String) (b : Batch σ D)
    (hv : svc.backend.getVector ≠ none) :
    (svc.Reads label' v b.outside →
      svc.Reads label' v (eraseResolved svc amb call ext label b).outside) ∧
    (eraseResolved svc amb call ext label b).originals.lookup label' =
      b.originals.lookup label' := by
  obtain ⟨getVector, hg⟩ := Option.ne_none_iff_exists'.mp hv
  obtain ⟨horig, hout⟩ := eraseResolved_steps svc amb call ext label b
  rw [snapshot_eq svc hmode hg] at horig hout
  refine ⟨?_, ?_⟩
  · rintro ⟨g, hg', hread⟩
    obtain rfl := Option.some.inj (hg.symm.trans hg')
    refine ⟨getVector, hg, ?_⟩
    rcases hout with hout | hout
    · rw [hout, hz.others getVector hg call label label' _ hne, hz.reading getVector hg, hread]
    · rw [hout, hz.verifying getVector hg, hz.others getVector hg call label label' _ hne,
        hz.reading getVector hg, hread]
  · rw [horig]
    rcases (getVector label b.outside).1 with e | vec
    · rfl
    · exact AList.lookup_insert_ne hne

/-- The turn of another id. -/
theorem eraseId_others (hz : svc.ZeroesRows) (hmode : svc.proofMode amb call ≠ .off)
    (hread : svc.backend.getVector ≠ none) {b : Batch σ D} (hcons : b.registry.Consistent)
    {ext ext' : String} {label : ℤ} {v : List D}
    (hlabel : b.registry.label? (strip call.collection) ext = some label) (hne : ext' ≠ ext)
    (hs : strip ext' = ext') (hblank : ext' ≠ "") :
    (svc.Reads label v b.outside → svc.Reads label v (eraseId svc amb call ext' b).2.outside) ∧
      (eraseId svc amb call ext' b).2.originals.lookup label = b.originals.lookup label := by
  rcases Registry.resolve_cases call.collection hs hblank
    with ⟨label', hlabel', hres⟩ | ⟨message, -, hres⟩ | ⟨message, -, hres⟩
  · rw [eraseId, hres]
    refine eraseResolved_others hz hmode ?_ ext' b hread
    -- a consistent registry gives each label to one id
    rintro rfl
    exact hne (hcons.injective hlabel' hlabel)
  · rw [eraseId, hres]
    simp only
    split <;> exact ⟨id, rfl⟩
  · rw [eraseId, hres]
    exact ⟨id, rfl⟩

/-- The turns of other ids. -/
theorem eraseAll_others (hz : svc.ZeroesRows) (hdrop : svc.dropMappings = false)
    (hmode : svc.proofMode amb call ≠ .off) (hread : svc.backend.getVector ≠ none)
    {ids : List String} {b : Batch σ D} (hcons : b.registry.Consistent) {ext : String} {label : ℤ}
    (hlabel : b.registry.label? (strip call.collection) ext = some label) (hnot : ext ∉ ids)
    (hids : ∀ e ∈ ids, strip e = e ∧ e ≠ "") :
    (eraseAll svc amb call ids b).2.originals.lookup label = b.originals.lookup label := by
  induction ids generalizing b with
  | nil => rfl
  | cons e rest ih =>
    obtain ⟨hs, hblank⟩ := hids e List.mem_cons_self
    obtain ⟨-, horig⟩ := eraseId_others (v := []) hz hmode hread hcons hlabel
      (fun h => hnot (h ▸ List.mem_cons_self)) hs hblank
    have hreg := eraseId_registry amb call hdrop hs hblank b
    rw [eraseAll]
    rcases heq : eraseId svc amb call e b with ⟨_ | e', b'⟩
    · rw [heq] at horig hreg
      rw [← horig]
      refine ih (by rwa [hreg]) (by rwa [hreg]) (fun h => hnot (List.mem_cons_of_mem e h)) ?_
      exact fun e' he' => hids e' (List.mem_cons_of_mem e he')
    · rw [heq] at horig
      exact horig

/-- **The originals of a batch**: an id that is in the batch once, and whose row reads `v`
at the start, is proved against `v`. -/
theorem eraseAll_original (hz : svc.ZeroesRows) (hdrop : svc.dropMappings = false)
    (hmode : svc.proofMode amb call ≠ .off) {ids : List String} {b b' : Batch σ D}
    (hcons : b.registry.Consistent) {ext : String} {label : ℤ} {v : List D}
    (hlabel : b.registry.label? (strip call.collection) ext = some label)
    (honce : ids.count ext = 1) (hids : ∀ e ∈ ids, strip e = e ∧ e ≠ "")
    (hv : svc.Reads label v b.outside) (h : eraseAll svc amb call ids b = (none, b')) :
    b'.originals.lookup label = some v := by
  have hread : svc.backend.getVector ≠ none := by
    obtain ⟨g, hg, -⟩ := hv
    rw [hg]
    exact Option.some_ne_none g
  induction ids generalizing b with
  | nil => simp at honce
  | cons e rest ih =>
    obtain ⟨hs, hblank⟩ := hids e List.mem_cons_self
    have hrest : ∀ e ∈ rest, strip e = e ∧ e ≠ "" := fun e' he' =>
      hids e' (List.mem_cons_of_mem e he')
    have hreg := eraseId_registry amb call hdrop hs hblank b
    rw [eraseAll] at h
    rcases heq : eraseId svc amb call e b with ⟨_ | e', b₁⟩
    · rw [heq] at h hreg
      simp only at h hreg
      by_cases hext : e = ext
      · subst hext
        have hnot : e ∉ rest := by
          rw [List.count_cons_self] at honce
          exact List.count_eq_zero.mp (by omega)
        have hself : b₁.originals.lookup label = some v := by
          rcases Registry.resolve_cases call.collection hs hblank
            with ⟨label', hlabel', hres⟩ | ⟨message, hnone, -⟩ | ⟨message, hblankc, hres⟩
          · obtain rfl := Option.some.inj (hlabel'.symm.trans hlabel)
            rw [eraseId, hres] at heq
            obtain rfl := (Prod.mk.inj heq).2
            exact eraseResolved_self hmode e b hv
          · rw [hnone] at hlabel
            cases hlabel
          · rw [eraseId, hres] at heq
            cases heq
        have hkeep := eraseAll_others (b := b₁) hz hdrop hmode hread
          (by rwa [hreg]) (by rwa [hreg]) hnot hrest
        rw [h] at hkeep
        rw [hkeep, hself]
      · obtain ⟨hkeep, -⟩ := eraseId_others hz hmode hread hcons hlabel hext hs hblank
        rw [heq] at hkeep
        refine ih (by rwa [hreg]) (by rwa [hreg]) ?_ hrest (hkeep hv) h
        rwa [List.count_cons_of_ne hext] at honce
    · rw [heq] at h
      cases h

end Loop

/-! ## After the loop -/

/-- A verified visit is proved. -/
theorem mem_zip_of_verified {visits : List Visit} {v : Visit} {label : ℤ} (hmem : v ∈ visits)
    (hv : v.verified = true) (hl : v.label = some label) :
    (label, v.ext) ∈ (verifiedLabels visits).zip (verifiedExts visits) := by
  induction visits with
  | nil => cases hmem
  | cons w rest ih =>
    rw [← List.singleton_append, verifiedLabels_append, verifiedExts_append]
    cases hw : w.verified
    · rw [verifiedLabels_singleton_false hw, verifiedExts_singleton_false hw]
      rcases List.mem_cons.mp hmem with rfl | hmem
      · rw [hv] at hw
        cases hw
      · exact ih hmem
    · obtain ⟨l, hwl⟩ := Visit.label_of_verified hw
      have hlabels : verifiedLabels [w] = [l] := by simp [verifiedLabels, hw, hwl]
      have hexts : verifiedExts [w] = [w.ext] := by simp [verifiedExts, hw]
      rw [hlabels, hexts, List.singleton_append, List.singleton_append, List.zip_cons_cons]
      rcases List.mem_cons.mp hmem with rfl | hmem
      · obtain rfl := Option.some.inj (hwl.symm.trans hl)
        exact List.mem_cons_self
      · exact List.mem_cons_of_mem _ (ih hmem)

section After

variable [PyFloat D]

/-- A proof scans the checkpoint in the state that reading the row leads to. -/
theorem proveOne_scans (svc : Service σ D) (amb : Ambient σ D) (call : DeleteCall)
    (originals : Dict ℤ (List D)) (label : ℤ) (ext : String) (o : σ) (proof : ResidualProof D)
    (h : (svc.proveOne amb call originals label ext o).1 = .ok proof) :
    ∃ live, proveVectorErased ext live (originals.lookup label)
      (call.checkpointPath.map fun path =>
        ⟨amb.pathText path, amb.file path (svc.proveOne amb call originals label ext o).2⟩) =
      .ok proof := by
  revert h
  unfold proveOne
  rcases svc.liveRow call.collection label o with ⟨e | live, o'⟩
  · intro h
    cases h
  · exact fun h => ⟨live, h⟩

/-- All proofs are among those that `proveAll` returns. -/
theorem proveAll_scans (svc : Service σ D) (amb : Ambient σ D) (call : DeleteCall)
    (originals : Dict ℤ (List D)) (erased : List (ℤ × String)) (o : σ)
    (proofs : List (ResidualProof D))
    (h : (svc.proveAll amb call originals erased o).1 = .ok proofs) :
    ∀ p ∈ erased, ∃ live o', svc.Leads o o' ∧ ∃ proof ∈ proofs,
      proveVectorErased p.2 live (originals.lookup p.1)
        (call.checkpointPath.map fun path => ⟨amb.pathText path, amb.file path o'⟩) =
        .ok proof := by
  induction erased generalizing o proofs with
  | nil =>
    intro p hp
    cases hp
  | cons p rest ih =>
    obtain ⟨label, ext⟩ := p
    have hone := proveOne_outside (unmoved_leads svc).keeps amb call originals label ext o
    have hproof := proveOne_scans svc amb call originals label ext o
    rw [proveAll] at h
    rcases heq : svc.proveOne amb call originals label ext o with ⟨e | proof, o₁⟩
    · rw [heq] at h
      cases h
    · rw [heq] at h hone hproof
      simp only at h
      rcases heq' : svc.proveAll amb call originals rest o₁ with ⟨e | proofs', o₂⟩
      · rw [heq'] at h
        cases h
      · rw [heq'] at h
        obtain rfl := Except.ok.inj h
        intro q hq
        rcases List.mem_cons.mp hq with rfl | hq
        · obtain ⟨live, hlive⟩ := hproof proof rfl
          exact ⟨live, o₁, hone, proof, List.mem_cons_self, hlive⟩
        · obtain ⟨live, o', hlead, proof', hmem, hlive⟩ := ih o₁ proofs' (by rw [heq']) q hq
          exact ⟨live, o', hone.trans hlead, proof', List.mem_cons_of_mem _ hmem, hlive⟩

/-- In mode `full` there is a proof for every erased label. -/
theorem runResidualProofs_spec {svc : Service σ D} {amb : Ambient σ D} {call : DeleteCall}
    {b : Batch σ D} {o o' : σ} {summary : ResidualProofSummary D}
    (h : svc.runResidualProofs amb call .full b o = (.ok summary, o')) :
    ∀ p ∈ b.labels.zip b.erasedExt, ∃ live o₁, svc.Leads o o₁ ∧ ∃ proof ∈ summary.proofs,
      proveVectorErased p.2 live (b.originals.lookup p.1)
        (call.checkpointPath.map fun path => ⟨amb.pathText path, amb.file path o₁⟩) =
          .ok proof := by
  intro p hp
  have hne : b.labels ≠ [] := by
    intro hnil
    rw [hnil] at hp
    cases hp
  have hsampled : sampled .full (b.labels.zip b.erasedExt) = b.labels.zip b.erasedExt :=
    if_neg (by simp)
  rw [runResidualProofs, if_neg (by simp [hne]), hsampled] at h
  have hall := proveAll_scans svc amb call b.originals (b.labels.zip b.erasedExt) o
  rcases heq : svc.proveAll amb call b.originals (b.labels.zip b.erasedExt) o with ⟨e | proofs, o₂⟩
  · rw [heq] at h
    cases h
  · rw [heq] at h hall
    cases h
    exact hall proofs rfl p hp

/-- A call of `delete` is a sequence of calls. -/
theorem delete_leads (svc : Service σ D) (amb : Ambient σ D) (call : DeleteCall)
    (st : ServiceState σ D) :
    svc.Leads st.outside (svc.delete amb call st).state.outside :=
  delete_outside (unmoved_leads svc) st fun _ _ label _ o => .single (.erase call label o)

/-! ## The scan of the checkpoint -/

/-- The file holds the `float32` bytes of `v`. -/
def FileHolds (amb : Ambient σ D) (path : String) (v : List D) (o : σ) : Prop :=
  ∃ data, amb.file path o = some (.ok data) ∧ bytesIn (float32PatternBytes v) data = true

theorem float32PatternBytes_ne_nil {v : List D} (hv : vectorAllZeros v = false) :
    float32PatternBytes v ≠ [] := by
  rcases v with _ | ⟨x, rest⟩
  · cases hv
  · intro hnil
    have hlen := congrArg List.length hnil
    rw [float32PatternBytes, List.flatMap_cons, List.length_append, length_leBytes] at hlen
    simp at hlen

/-- A proof against `v` does not pass while the file holds `v`. -/
theorem proveVectorErased_of_holds {amb : Ambient σ D} {path text ext : String} {v live : List D}
    {o : σ} {proof : ResidualProof D} (hv : vectorAllZeros v = false)
    (hnorm : eq (norm v) (ofInt 0) = false) (hfile : FileHolds amb path v o)
    (h : proveVectorErased ext live (some v) (some ⟨text, amb.file path o⟩) = .ok proof) :
    proof.passed = false := by
  obtain ⟨data, hdata, hin⟩ := hfile
  have hscan : scanCheckpoint (some v) (some ⟨text, amb.file path o⟩) =
      .ok (some false, ["ORIGINAL PATTERN STILL PRESENT in checkpoint"]) := by
    simp [scanCheckpoint, hnorm, hdata, fileContainsBytes, float32PatternBytes_ne_nil hv,
      Except.map, hin]
  rw [proveVectorErased, hscan] at h
  obtain rfl := Except.ok.inj h
  simp [ResidualProof.passed]

/-! ## Runs -/

/-- The call is about the id. -/
structure Attempt.Covers (collection ext : String) (a : Attempt σ D) : Prop where
  collection : strip a.call.collection = strip collection
  mem : ext ∈ a.call.extIds

/-- **One call**: an id that is in the batch once, and whose row is still `v`, is not
certified while the checkpoint holds `v`. -/
theorem delete_judged {svc : Service σ D} {amb : Ambient σ D} {call : DeleteCall}
    {st : ServiceState σ D} (hz : svc.ZeroesRows) (hdrop : svc.dropMappings = false)
    (hcons : st.registry.Consistent) {ext path : String} {label : ℤ} {v : List D}
    (hlabel : st.registry.label? (strip call.collection) ext = some label)
    (hfull : svc.proofMode amb call = .full) (hpath : call.checkpointPath = some path)
    (hv : vectorAllZeros v = false) (hnorm : eq (norm v) (ofInt 0) = false)
    (hfile : ∀ o, svc.Leads st.outside o → FileHolds amb path v o)
    (honce : call.extIds.count ext = 1) (hread : svc.Reads label v st.outside)
    {receipt : ErasureReceipt D} (h : (svc.delete amb call st).result = .ok receipt) :
    receipt.success = false := by
  by_contra hsucc
  rw [Bool.not_eq_false] at hsucc
  have hmem : ext ∈ call.extIds := List.count_pos_iff.mp (by omega)
  have hmode : svc.proofMode amb call ≠ .off := by simp [hfull]
  obtain ⟨mode, b, summary, o, hc⟩ := concluded_of_receipt h
  have hp := hc.progress
  obtain ⟨-, -, hpassed, hall⟩ := hc.complete (List.ne_nil_of_mem hmem) hsucc
  have hpass := passed_of_summary hc.proofs (hpassed.resolve_left hmode)
  have horig : b.originals.lookup label = some v := eraseAll_original hz hdrop hmode hcons hlabel
    honce call.extIds_normal hread hc.loop
  -- the visit of the id, and the proof of it
  rw [← hp.visited] at hmem
  obtain ⟨visit, hvisit, rfl⟩ := List.mem_map.mp hmem
  obtain ⟨l, hl⟩ := Visit.label_of_verified (hall visit hvisit)
  obtain rfl := Option.some.inj ((hp.resolved visit hvisit l hl).symm.trans hlabel)
  have hzip := mem_zip_of_verified hvisit (hall visit hvisit) hl
  rw [← hp.labels, ← hp.erasedExt] at hzip
  have hproofs := hc.proofs
  rw [hfull] at hproofs
  obtain ⟨live, o₁, hleads, proof, hproof, heq⟩ := runResidualProofs_spec hproofs _ hzip
  rw [hpath, horig] at heq
  have hloop := eraseAll_outside (unmoved_leads svc) amb call.extIds_normal
    (fun _ _ label _ o => .single (.erase call label o))
    (b := Batch.start st (svc.adaptCompact amb call st).2) fun _ _ hl => hl
  rw [hc.loop] at hloop
  have hreach := (hloop.trans (runCompaction_outside (unmoved_leads svc) amb mode b.labels b.outside
    st.policy)).trans hleads
  have hfails := proveVectorErased_of_holds hv hnorm (hfile o₁ hreach) heq
  rw [hpass proof hproof] at hfails
  cases hfails

/-- Without `drop_mappings` a call leaves the registry as it is. -/
theorem delete_registry {svc : Service σ D} (hdrop : svc.dropMappings = false) (amb : Ambient σ D)
    (call : DeleteCall) (st : ServiceState σ D) :
    (svc.delete amb call st).state.registry = st.registry := by
  have hloop : ∀ ids : List String, (∀ e ∈ ids, strip e = e ∧ e ≠ "") → ∀ b : Batch σ D,
      (eraseAll svc amb call ids b).2.registry = b.registry := by
    intro ids hids
    induction ids with
    | nil => exact fun b => rfl
    | cons e rest ih =>
      intro b
      obtain ⟨hs, hblank⟩ := hids e List.mem_cons_self
      have hstep := eraseId_registry amb call hdrop hs hblank b
      rw [eraseAll]
      rcases heq : eraseId svc amb call e b with ⟨_ | e', b'⟩
      · rw [heq] at hstep
        exact (ih (fun e' he' => hids e' (List.mem_cons_of_mem e he')) b').trans hstep
      · rw [heq] at hstep
        exact hstep
  have hall := hloop call.extIds call.extIds_normal
    (Batch.start st (svc.adaptCompact amb call st).2)
  unfold delete
  rcases svc.compactMode amb call st with message | mode
  · rfl
  · revert hall
    simp only
    rcases eraseAll svc amb call call.extIds (Batch.start st (svc.adaptCompact amb call st).2)
      with ⟨_ | e, b⟩
    · simp only [conclude]
      split
      · exact id
      · exact id
    · exact id

theorem stateAfter_registry {svc : Service σ D} (hdrop : svc.dropMappings = false)
    (earlier : List (Attempt σ D)) (st : ServiceState σ D) :
    (svc.stateAfter earlier st).registry = st.registry := by
  induction earlier generalizing st with
  | nil => rfl
  | cons a rest ih => exact (ih _).trans (delete_registry hdrop a.amb a.call st)

theorem stateAfter_leads (svc : Service σ D) (earlier : List (Attempt σ D))
    (st : ServiceState σ D) : svc.Leads st.outside (svc.stateAfter earlier st).outside := by
  induction earlier generalizing st with
  | nil => exact .refl
  | cons a rest ih => exact (delete_leads svc a.amb a.call st).trans (ih _)

/-- **No laundering.** For a backend that zeroes rows, a service that keeps its mappings
and a registered id: in a run of `delete` calls in mode `full` on one checkpoint that
holds the bytes of `v` throughout, in which every call on the id has it once in its batch
and finds its row still `v`, no receipt that covers the id is a success. -/
theorem residual_proof_sound (svc : Service σ D) (hz : svc.ZeroesRows)
    (hdrop : svc.dropMappings = false) (printable : Char → Bool) (calls : List Registry.Call)
    (outside : σ) (policy : CompactCoalescePolicy D) {collection ext path : String} {label : ℤ}
    {v : List D}
    (hlabel : (Registry.run printable calls).label? (strip collection) ext = some label)
    (hv : vectorAllZeros v = false) (hnorm : eq (norm v) (ofInt 0) = false)
    (run : List (Attempt σ D))
    (hfull : ∀ a ∈ run, svc.proofMode a.amb a.call = .full ∧ a.call.checkpointPath = some path)
    (hfile : ∀ a ∈ run, ∀ o, svc.Leads outside o → FileHolds a.amb path v o)
    (hfresh : ∀ earlier a later, run = earlier ++ a :: later → a.Covers collection ext →
      a.call.extIds.count ext = 1 ∧
        svc.Reads label v
          (svc.stateAfter earlier (stateOf printable calls outside policy)).outside) :
    ∀ earlier a later, run = earlier ++ a :: later → a.Covers collection ext → ∀ receipt,
      (svc.delete a.amb a.call
        (svc.stateAfter earlier (stateOf printable calls outside policy))).result = .ok receipt →
      receipt.success = false := by
  intro earlier a later hrun hcovers receipt hreceipt
  have hmem : a ∈ run := by simp [hrun]
  have hreg := stateAfter_registry hdrop earlier (stateOf printable calls outside policy)
  have hleads := stateAfter_leads svc earlier (stateOf printable calls outside policy)
  obtain ⟨honce, hread⟩ := hfresh earlier a later hrun hcovers
  refine delete_judged hz hdrop ?_ ?_ (hfull a hmem).1 (hfull a hmem).2 hv hnorm ?_ honce hread
    hreceipt
  · rw [hreg]
    exact Registry.consistent_run calls
  · rw [hreg, hcovers.collection]
    exact hlabel
  · intro o ho
    exact hfile a hmem o (hleads.trans ho)

end After

/-! ## A checkpoint that keeps its bytes -/

/-- A service that keeps its mappings, over rows of one component. -/
def keepingService : Service (List ℤ) ℚ := { listService fun _ => [] with dropMappings := false }

theorem keepingService_zeroesRows : keepingService.ZeroesRows where
  zeroed getVector hg call label o _ := by
    obtain rfl := Option.some.inj hg
    exact ⟨[0], by simp [eraseLabel, keepingService, listService, listBackend], by decide⟩
  others getVector hg call label label' o hne := by
    obtain rfl := Option.some.inj hg
    simp [eraseLabel, keepingService, listService, listBackend, hne]
  reading getVector hg label label' o := by
    obtain rfl := Option.some.inj hg
    rfl
  verifying getVector hg collection label label' o := by
    obtain rfl := Option.some.inj hg
    rfl

/-- `delete(ids, residual_proof="full", checkpoint_path="index.bin")`, with the bytes of
`[1.0]` in the file. -/
def fullProof (ids : List String) : Attempt (List ℤ) ℚ where
  amb := { plainAmbient with file := fun _ _ => some (.ok [0x00, 0x00, 0x80, 0x3f]) }
  call := { plainCall "users" ids with
    residualProof := some .full
    checkpointPath := some "index.bin" }

theorem fullProof_fileHolds (ids : List String) (o : List ℤ) :
    FileHolds (fullProof ids).amb "index.bin" [1] o := ⟨[0x00, 0x00, 0x80, 0x3f], rfl, by decide⟩

/-- Another id has been deleted before; the row of `"ann"` is in the file all along. -/
theorem residual_proof_sound_afterBob :
    (keepingService.delete (fullProof ["ann"]).amb (fullProof ["ann"]).call
      (keepingService.stateAfter [fullProof ["bob"]] twoUsers)).result.toOption.map
        ErasureReceipt.success = some false := by
  have hsome : ((keepingService.delete (fullProof ["ann"]).amb (fullProof ["ann"]).call
      (keepingService.stateAfter [fullProof ["bob"]] twoUsers)).result.toOption).isSome = true := by
    decide +kernel
  obtain ⟨receipt, hreceipt⟩ := Option.isSome_iff_exists.mp hsome
  rcases hres : (keepingService.delete (fullProof ["ann"]).amb (fullProof ["ann"]).call
      (keepingService.stateAfter [fullProof ["bob"]] twoUsers)).result with e | receipt'
  · rw [hres] at hreceipt
    cases hreceipt
  · have hlabel : (Registry.run (fun _ => true) [.register "users" "ann" none,
        .register "users" "bob" none]).label? (strip "users") "ann" = some 0 := by decide +kernel
    have hfull : ∀ a ∈ [fullProof ["bob"], fullProof ["ann"]],
        keepingService.proofMode a.amb a.call = .full ∧
          a.call.checkpointPath = some "index.bin" := by
      intro a ha
      rcases List.mem_pair.mp ha with rfl | rfl
      · exact ⟨rfl, rfl⟩
      · exact ⟨rfl, rfl⟩
    have hfile : ∀ a ∈ [fullProof ["bob"], fullProof ["ann"]], ∀ o, keepingService.Leads [] o →
        FileHolds a.amb "index.bin" [1] o := by
      intro a ha o _
      rcases List.mem_pair.mp ha with rfl | rfl
      · exact fullProof_fileHolds ["bob"] o
      · exact fullProof_fileHolds ["ann"] o
    have hbob : (keepingService.stateAfter [fullProof ["bob"]] twoUsers).outside = [1] := by
      decide +kernel
    have hfresh : ∀ earlier a later, [fullProof ["bob"], fullProof ["ann"]] = earlier ++ a :: later →
        a.Covers "users" "ann" → a.call.extIds.count "ann" = 1 ∧
          keepingService.Reads 0 [1] (keepingService.stateAfter earlier twoUsers).outside := by
      intro earlier a later h hcovers
      rcases earlier with _ | ⟨x, _ | ⟨y, rest⟩⟩
      · obtain ⟨rfl, -⟩ := List.cons.inj h
        exact absurd hcovers.mem (by decide +kernel)
      · obtain ⟨rfl, htail⟩ := List.cons.inj h
        obtain ⟨rfl, -⟩ := List.cons.inj htail
        rw [hbob]
        exact ⟨by decide +kernel, _, rfl, rfl⟩
      · simp at h
    have hsound := residual_proof_sound keepingService keepingService_zeroesRows rfl (fun _ => true)
      [.register "users" "ann" none, .register "users" "bob" none] [] twoUsers.policy hlabel
      (by decide) (by decide) [fullProof ["bob"], fullProof ["ann"]] hfull hfile hfresh
      [fullProof ["bob"]] (fullProof ["ann"]) [] rfl ⟨rfl, by decide +kernel⟩ receipt' hres
    simp [Except.toOption, hsound]

/-- The file holds the row of `"ann"` throughout, and the first receipt says so. The
second attempt finds zeros where the row was and succeeds, and so does one call with the
id twice in its batch. -/
theorem residual_proof_laundered :
    keepingService.ZeroesRows ∧ keepingService.Reads 0 [1] twoUsers.outside ∧
      twoUsers.registry.label? "users" "ann" = some 0 ∧
      (∀ ids o, FileHolds (fullProof ids).amb "index.bin" [1] o) ∧
      (keepingService.attempts [fullProof ["ann"], fullProof ["ann"]] twoUsers).map
        (fun d => d.result.toOption.map ErasureReceipt.success) = [some false, some true] ∧
      (keepingService.attempts [fullProof ["ann", "ann"]] twoUsers).map
        (fun d => d.result.toOption.map ErasureReceipt.success) = [some true] := by
  refine ⟨keepingService_zeroesRows, ⟨_, rfl, rfl⟩, by decide +kernel, fullProof_fileHolds, ?_, ?_⟩
  · decide +kernel
  · decide +kernel

end Service

end Unlearning
