import Unlearning.Outbox
import Unlearning.Trace

/-!
# Conservation of delete intents

`Admissible` is what a round of the outbox may be: it is for a fresh envelope, or for one that
the pending folder holds as it was read, or for one that is put back. `rounds_trace` says that
every list of calls makes admissible rounds only; the loop of `dispatch_pending` handles
envelopes that it read before, and the rounds in between were for others.

`Kept` is what such rounds keep of an envelope and `Sound` the invariant;
`Sound.moments_safe` is what holds between two file operations of one round.
-/

namespace Unlearning

namespace Outbox

/-! ## What a round may be -/

/-- The files, and what has happened. -/
structure World where
  files : Files
  notes : List Note

/-- A new outbox. -/
def World.new : World := ⟨noFiles, []⟩

/-- The envelope that a note is about. -/
def Note.envelopeId : Note → String
  | .enqueued env => env.envelopeId
  | .dispatched envelopeId _ => envelopeId
  | .requeued envelopeId => envelopeId

/-- An envelope with the id was enqueued. -/
def Known (notes : List Note) (envelopeId : String) : Prop :=
  ∃ env, .enqueued env ∈ notes ∧ env.envelopeId = envelopeId

/-- **The rounds of an outbox.** -/
inductive Admissible (maxAttempts : ℤ) (w : World) : Round → Prop where
  | enqueued (intent : Intent) (hfresh : ¬ Known w.notes intent.envelopeId) :
      Admissible maxAttempts w ⟨.enqueued (newEnvelope intent), enqueue intent⟩
  | succeeded (env : OutboxEnvelope)
      (hheld : (w.files .pending).lookup env.envelopeId = some env.text) :
      Admissible maxAttempts w
        ⟨.dispatched env.envelopeId true, [.move .pending .done env.envelopeId]⟩
  | tryAgain (env : OutboxEnvelope) (error : String)
      (hheld : (w.files .pending).lookup env.envelopeId = some env.text)
      (hbelow : env.attempts + 1 < maxAttempts) :
      Admissible maxAttempts w ⟨.dispatched env.envelopeId false,
        [.write .pending env.envelopeId (env.failedWith error).text]⟩
  | gaveUp (env : OutboxEnvelope) (error : String)
      (hheld : (w.files .pending).lookup env.envelopeId = some env.text)
      (hlast : maxAttempts ≤ env.attempts + 1) :
      Admissible maxAttempts w ⟨.dispatched env.envelopeId false,
        [.write .pending env.envelopeId (env.failedWith error).text,
          .move .pending .failed env.envelopeId]⟩
  | requeued (envelopeId : String) {doc : Doc Empty}
      (hheld : (w.files .failed).lookup envelopeId = some doc) :
      Admissible maxAttempts w ⟨.requeued envelopeId, [.move .failed .pending envelopeId]⟩

/-- After a round. -/
def World.next (w : World) (round : Round) : World :=
  ⟨performAll w.files round.ops, w.notes ++ [round.note]⟩

/-- An admissible round is made. -/
def Step (maxAttempts : ℤ) (w : World) (round : Round) (w' : World) : Prop :=
  Admissible maxAttempts w round ∧ w' = w.next round

/-- All operations of a round are on the one file. -/
theorem Admissible.ops_envelopeId {maxAttempts : ℤ} {w : World} {round : Round}
    (h : Admissible maxAttempts w round) :
    ∀ op ∈ round.ops, op.envelopeId = round.note.envelopeId := by
  rcases h with ⟨intent, hfresh⟩ | ⟨env, hheld⟩ | ⟨env, error, hheld, hbelow⟩ |
    ⟨env, error, hheld, hlast⟩ | ⟨envelopeId, hheld⟩ <;>
  simp [enqueue, newEnvelope, FileOp.envelopeId, Note.envelopeId]

/-- Operations on other envelopes leave this one where it is. -/
theorem Located.performAll_other {folder : FolderName} {env : OutboxEnvelope} {ops : List FileOp}
    (hne : ∀ op ∈ ops, env.envelopeId ≠ op.envelopeId) {files : Files}
    (h : Located files folder env) : Located (performAll files ops) folder env := by
  induction ops generalizing files with
  | nil => exact h
  | cons op ops ih =>
    apply ih fun op' hop' => hne op' (List.mem_cons_of_mem op hop')
    exact h.perform_other (hne op List.mem_cons_self)

/-! ## What a round keeps -/

/-- How often an envelope was dispatched with this result. -/
def dispatches (notes : List Note) (envelopeId : String) (success : Bool) : ℕ :=
  notes.count (.dispatched envelopeId success)

/-- **What holds of an enqueued envelope**: where its file is, and what it says. -/
structure Kept (maxAttempts : ℤ) (w : World) (env₀ : OutboxEnvelope) (folder : FolderName)
    (env : OutboxEnvelope) : Prop where
  id_eq : env.envelopeId = env₀.envelopeId
  located : Located w.files folder env
  intent : env.SameIntent env₀
  attempts : env.attempts = dispatches w.notes env₀.envelopeId false
  successes : dispatches w.notes env₀.envelopeId true = if folder = .done then 1 else 0
  budget : .requeued env₀.envelopeId ∉ w.notes →
    env.attempts ≤ maxAttempts ∧ (folder = .failed ↔ env.attempts = maxAttempts)

/-- The invariant of an outbox. -/
structure Sound (maxAttempts : ℤ) (w : World) : Prop where
  filed : ∀ folder envelopeId doc, (w.files folder).lookup envelopeId = some doc →
    Known w.notes envelopeId
  noted : ∀ note ∈ w.notes, Known w.notes note.envelopeId
  kept : ∀ env₀, .enqueued env₀ ∈ w.notes → ∃ folder env, Kept maxAttempts w env₀ folder env

/-- An empty outbox is sound. -/
theorem sound_new (maxAttempts : ℤ) : Sound maxAttempts World.new where
  filed folder envelopeId doc h := by
    have hnone : (World.new.files folder).lookup envelopeId = none := AList.lookup_empty envelopeId
    rw [hnone] at h
    cases h
  noted note h := by cases h
  kept env₀ h := by cases h

section Step

variable {maxAttempts : ℤ} {w : World} {round : Round} {env₀ env : OutboxEnvelope}
  {folder : FolderName}

/-- An id that was given out stays known. -/
theorem known_next (envelopeId : String) (h : Known w.notes envelopeId) :
    Known (w.next round).notes envelopeId := by
  obtain ⟨env, henv, hid⟩ := h
  exact ⟨env, List.mem_append_left _ henv, hid⟩

/-- One more note counts for its own envelope and outcome only. -/
theorem dispatches_next (envelopeId : String) (success : Bool) :
    dispatches (w.next round).notes envelopeId success =
      dispatches w.notes envelopeId success +
        if round.note = .dispatched envelopeId success then 1 else 0 := by
  rw [dispatches, World.next, List.count_append, List.count_singleton]
  simp only [beq_iff_eq]
  rfl

/-- A round for another envelope. -/
theorem Kept.other (h : Kept maxAttempts w env₀ folder env)
    (hround : Admissible maxAttempts w round)
    (hne : env₀.envelopeId ≠ round.note.envelopeId) :
    Kept maxAttempts (w.next round) env₀ folder env := by
  have hcount : ∀ success, dispatches (w.next round).notes env₀.envelopeId success =
      dispatches w.notes env₀.envelopeId success := by
    intro success
    rw [dispatches_next, if_neg, Nat.add_zero]
    intro hnote
    rw [hnote] at hne
    exact hne rfl
  -- neither the files of the envelope nor the counts of its dispatches change
  constructor
  · exact h.id_eq
  · apply h.located.performAll_other
    intro op hop
    rw [hround.ops_envelopeId op hop, h.id_eq]
    exact hne
  · exact h.intent
  · rw [hcount, h.attempts]
  · rw [hcount, h.successes]
  · intro hrequeued
    exact h.budget fun hmem => hrequeued (List.mem_append_left _ hmem)

/-- A pending envelope that is read is the one that is kept. -/
theorem Kept.read (h : Kept maxAttempts w env₀ folder env) {env' : OutboxEnvelope}
    (hheld : (w.files .pending).lookup env'.envelopeId = some env'.text)
    (hid : env₀.envelopeId = env'.envelopeId) : folder = .pending ∧ env' = env := by
  rw [← hid, ← h.id_eq] at hheld
  obtain ⟨hfolder, htext⟩ := h.located.unique hheld
  exact ⟨hfolder.symm, OutboxEnvelope.text_injective htext⟩

/-- The count of a dispatch that is noted, and of the other result. -/
theorem dispatches_noted {success success' : Bool} {ops : List FileOp} (envelopeId : String) :
    dispatches (w.next ⟨.dispatched envelopeId success, ops⟩).notes envelopeId success' =
      dispatches w.notes envelopeId success' + if success = success' then 1 else 0 := by
  rw [dispatches_next]
  simp only [Note.dispatched.injEq, true_and]

/-- Not requeued by now, so not requeued before. -/
theorem not_requeued_before {note : Note} {envelopeId : String}
    (h : .requeued envelopeId ∉ w.notes ++ [note]) : .requeued envelopeId ∉ w.notes :=
  fun hmem => h (List.mem_append_left _ hmem)

/-- A success moves the envelope to `done`. -/
theorem Kept.succeeded (h : Kept maxAttempts w env₀ .pending env) :
    Kept maxAttempts (w.next ⟨.dispatched env.envelopeId true,
      [.move .pending .done env.envelopeId]⟩) env₀ .done env := by
  constructor
  · exact h.id_eq
  · exact h.located.move (by simp)
  · exact h.intent
  · rw [← h.id_eq, dispatches_noted, h.id_eq, h.attempts]
    simp
  · rw [← h.id_eq, dispatches_noted, h.id_eq, h.successes]
    simp
  · intro hrequeued
    obtain ⟨hle, hfailed⟩ := h.budget (not_requeued_before hrequeued)
    -- at the limit the envelope would be in `failed`
    have hne : env.attempts ≠ maxAttempts := fun heq => by cases hfailed.mpr heq
    exact ⟨hle, iff_of_false (by simp) hne⟩

/-- A failure below the limit rewrites the envelope and leaves it pending. -/
theorem Kept.tryAgain (h : Kept maxAttempts w env₀ .pending env) (error : String)
    (hbelow : env.attempts + 1 < maxAttempts) :
    Kept maxAttempts (w.next ⟨.dispatched env.envelopeId false,
      [.write .pending env.envelopeId (env.failedWith error).text]⟩) env₀ .pending
      (env.failedWith error) := by
  constructor
  · exact h.id_eq
  · exact h.located.write rfl
  · exact h.intent
  · rw [← h.id_eq, dispatches_noted, h.id_eq, OutboxEnvelope.failedWith, h.attempts]
    simp
  · rw [← h.id_eq, dispatches_noted, h.id_eq, h.successes]
    simp
  · intro _
    have hattempts : (env.failedWith error).attempts = env.attempts + 1 := rfl
    rw [hattempts]
    exact ⟨hbelow.le, iff_of_false (by simp) hbelow.ne⟩

/-- The failure that reaches the limit moves the envelope to `failed`. -/
theorem Kept.gaveUp (h : Kept maxAttempts w env₀ .pending env) (error : String)
    (hlast : maxAttempts ≤ env.attempts + 1) :
    Kept maxAttempts (w.next ⟨.dispatched env.envelopeId false,
      [.write .pending env.envelopeId (env.failedWith error).text,
        .move .pending .failed env.envelopeId]⟩) env₀ .failed (env.failedWith error) := by
  constructor
  · exact h.id_eq
  · have hwritten : Located (perform w.files
        (.write .pending env.envelopeId (env.failedWith error).text)) .pending
        (env.failedWith error) := h.located.write rfl
    exact hwritten.move (by simp)
  · exact h.intent
  · rw [← h.id_eq, dispatches_noted, h.id_eq, OutboxEnvelope.failedWith, h.attempts]
    simp
  · rw [← h.id_eq, dispatches_noted, h.id_eq, h.successes]
    simp
  · intro hrequeued
    obtain ⟨hle, hfailed⟩ := h.budget (not_requeued_before hrequeued)
    have hne : env.attempts ≠ maxAttempts := fun heq => by cases hfailed.mpr heq
    have hattempts : (env.failedWith error).attempts = env.attempts + 1 := rfl
    rw [hattempts]
    exact ⟨by omega, iff_of_true rfl (by omega)⟩

/-- A requeue moves the envelope back, its attempts as they are. -/
theorem Kept.requeued (h : Kept maxAttempts w env₀ .failed env) :
    Kept maxAttempts (w.next ⟨.requeued env.envelopeId, [.move .failed .pending env.envelopeId]⟩)
      env₀ .pending env := by
  constructor
  · exact h.id_eq
  · exact h.located.move (by simp)
  · exact h.intent
  · rw [dispatches_next, h.attempts]
    simp
  · rw [dispatches_next, h.successes]
    simp
  · -- the budget is of envelopes that nobody put back
    intro hrequeued
    rw [← h.id_eq] at hrequeued
    exact absurd (List.mem_append_right _ (List.mem_singleton_self _)) hrequeued

/-- No folder holds an id that was never given out. -/
theorem Sound.lookup_none (h : Sound maxAttempts w) {envelopeId : String}
    (hfresh : ¬ Known w.notes envelopeId) (folder : FolderName) :
    (w.files folder).lookup envelopeId = none := by
  rw [Option.eq_none_iff_forall_ne_some]
  intro doc hdoc
  exact hfresh (h.filed folder envelopeId doc hdoc)

/-- An id that was never given out was never dispatched. -/
theorem Sound.dispatches_zero (h : Sound maxAttempts w) {envelopeId : String}
    (hfresh : ¬ Known w.notes envelopeId) (success : Bool) :
    dispatches w.notes envelopeId success = 0 :=
  List.count_eq_zero.mpr fun hmem => hfresh (h.noted _ hmem)

/-- A fresh envelope is pending, with no attempts. -/
theorem Sound.enqueued (hmax : 1 ≤ maxAttempts) (h : Sound maxAttempts w) (intent : Intent)
    (hfresh : ¬ Known w.notes intent.envelopeId) :
    Kept maxAttempts (w.next ⟨.enqueued (newEnvelope intent), enqueue intent⟩)
      (newEnvelope intent) .pending (newEnvelope intent) := by
  have hid : (newEnvelope intent).envelopeId = intent.envelopeId := rfl
  constructor
  · rfl
  · have hnone : ∀ other, other ≠ .pending →
        (w.files other).lookup (newEnvelope intent).envelopeId = none := fun other _ =>
      h.lookup_none hfresh other
    exact located_write hnone
  · exact ⟨rfl, rfl, rfl, rfl, rfl⟩
  · rw [dispatches_next, hid, h.dispatches_zero hfresh]
    simp [newEnvelope]
  · rw [dispatches_next, hid, h.dispatches_zero hfresh]
    simp
  · intro _
    have hattempts : (newEnvelope intent).attempts = 0 := rfl
    rw [hattempts]
    exact ⟨by omega, iff_of_false (by simp) (by omega)⟩

/-- The file of a round that is not an `enqueue` is of a known envelope. -/
theorem Sound.known (h : Sound maxAttempts w) (hround : Admissible maxAttempts w round) :
    Known (w.next round).notes round.note.envelopeId := by
  rcases hround with ⟨intent, hfresh⟩ | ⟨env, hheld⟩ | ⟨env, error, hheld, hbelow⟩ |
    ⟨env, error, hheld, hlast⟩ | ⟨envelopeId, hheld⟩
  · exact ⟨newEnvelope intent, List.mem_append_right _ (List.mem_singleton_self _), rfl⟩
  · exact known_next _ (h.filed _ _ _ hheld)
  · exact known_next _ (h.filed _ _ _ hheld)
  · exact known_next _ (h.filed _ _ _ hheld)
  · exact known_next _ (h.filed _ _ _ hheld)

/-- Operations on other envelopes do not change what is held under an id. -/
theorem lookup_performAll_ne {envelopeId : String} {ops : List FileOp}
    (hne : ∀ op ∈ ops, envelopeId ≠ op.envelopeId) (files : Files) (folder : FolderName) :
    (performAll files ops folder).lookup envelopeId = (files folder).lookup envelopeId := by
  induction ops generalizing files with
  | nil => rfl
  | cons op ops ih =>
    have hrest := ih (fun op' hop' => hne op' (List.mem_cons_of_mem op hop')) (perform files op)
    rw [lookup_perform_ne (hne op List.mem_cons_self)] at hrest
    exact hrest

/-- The round of an envelope that was enqueued before. -/
theorem Kept.same (h : Kept maxAttempts w env₀ folder env)
    (hround : Admissible maxAttempts w round) (henv₀ : .enqueued env₀ ∈ w.notes)
    (hid : env₀.envelopeId = round.note.envelopeId) :
    ∃ folder env, Kept maxAttempts (w.next round) env₀ folder env := by
  rcases hround with ⟨intent, hfresh⟩ | ⟨env', hheld⟩ | ⟨env', error, hheld, hbelow⟩ |
    ⟨env', error, hheld, hlast⟩ | ⟨envelopeId, hheld⟩
  · exact absurd ⟨env₀, henv₀, hid⟩ hfresh
  -- the dispatcher holds what is in the file, not an older reading of it
  · obtain ⟨rfl, rfl⟩ := h.read hheld hid
    exact ⟨_, _, h.succeeded⟩
  · obtain ⟨rfl, rfl⟩ := h.read hheld hid
    exact ⟨_, _, h.tryAgain error hbelow⟩
  · obtain ⟨rfl, rfl⟩ := h.read hheld hid
    exact ⟨_, _, h.gaveUp error hlast⟩
  · have henv : envelopeId = env.envelopeId := hid.symm.trans h.id_eq.symm
    subst henv
    obtain ⟨rfl, -⟩ := h.located.unique hheld
    exact ⟨_, _, h.requeued⟩

/-- **A round keeps the invariant.** -/
theorem Sound.next (hmax : 1 ≤ maxAttempts) (h : Sound maxAttempts w)
    (hround : Admissible maxAttempts w round) : Sound maxAttempts (w.next round) where
  filed folder envelopeId doc hdoc := by
    by_cases heq : envelopeId = round.note.envelopeId
    · rw [heq]
      exact h.known hround
    · have hne : ∀ op ∈ round.ops, envelopeId ≠ op.envelopeId := by
        intro op hop
        rw [hround.ops_envelopeId op hop]
        exact heq
      rw [World.next, lookup_performAll_ne hne] at hdoc
      exact known_next _ (h.filed folder envelopeId doc hdoc)
  noted note hnote := by
    rcases List.mem_append.mp hnote with hbefore | hnow
    · exact known_next _ (h.noted note hbefore)
    · rw [List.mem_singleton.mp hnow]
      exact h.known hround
  kept env₀ henv₀ := by
    rcases List.mem_append.mp henv₀ with hbefore | hnow
    · obtain ⟨folder, env, hkept⟩ := h.kept env₀ hbefore
      by_cases hid : env₀.envelopeId = round.note.envelopeId
      · exact hkept.same hround hbefore hid
      · exact ⟨folder, env, hkept.other hround hid⟩
    · have hnote : .enqueued env₀ = round.note := List.mem_singleton.mp hnow
      rcases hround with ⟨intent, hfresh⟩ | ⟨env', hheld⟩ | ⟨env', error, hheld, hbelow⟩ |
        ⟨env', error, hheld, hlast⟩ | ⟨envelopeId, hheld⟩
      · obtain rfl := Note.enqueued.inj hnote
        exact ⟨_, _, h.enqueued hmax intent hfresh⟩
      -- no other round has this note
      all_goals cases hnote

/-! ## Within a round -/

/-- The envelope is in exactly one folder, with what it was enqueued for. -/
def Safe (files : Files) (env₀ : OutboxEnvelope) : Prop :=
  ∃ folder env, env.envelopeId = env₀.envelopeId ∧ env.SameIntent env₀ ∧ Located files folder env

/-- A kept envelope is in one folder with the fields it was given. -/
theorem Kept.safe (h : Kept maxAttempts w env₀ folder env) : Safe w.files env₀ :=
  ⟨folder, env, h.id_eq, h.intent, h.located⟩

/-- Nor is the envelope moved between two of those operations. -/
theorem Located.moments_other {ops : List FileOp}
    (hne : ∀ op ∈ ops, env.envelopeId ≠ op.envelopeId) {files : Files}
    (h : Located files folder env) : ∀ files' ∈ moments files ops, Located files' folder env := by
  induction ops generalizing files with
  | nil =>
    intro files' hfiles'
    rw [List.mem_singleton.mp hfiles']
    exact h
  | cons op ops ih =>
    intro files' hfiles'
    rcases List.mem_cons.mp hfiles' with rfl | hlater
    · exact h
    · exact ih (fun op' hop' => hne op' (List.mem_cons_of_mem op hop'))
        (h.perform_other (hne op List.mem_cons_self)) files' hlater

/-- The moments of a round of one operation. -/
theorem safe_of_single {op : FileOp} (hbefore : Safe w.files env₀)
    (hafter : Safe (perform w.files op) env₀) :
    ∀ files' ∈ moments w.files [op], Safe files' env₀ := by
  intro files' hfiles'
  simp only [moments, List.mem_cons, List.not_mem_nil, or_false] at hfiles'
  rcases hfiles' with rfl | rfl
  · exact hbefore
  · exact hafter

/-- **Between two file operations** an envelope is in exactly one folder. -/
theorem Sound.moments_safe (h : Sound maxAttempts w) (hround : Admissible maxAttempts w round)
    (henv₀ : .enqueued env₀ ∈ w.notes) :
    ∀ files' ∈ moments w.files round.ops, Safe files' env₀ := by
  obtain ⟨folder, env, hkept⟩ := h.kept env₀ henv₀
  by_cases hid : env₀.envelopeId = round.note.envelopeId
  · rcases hround with ⟨intent, hfresh⟩ | ⟨env', hheld⟩ | ⟨env', error, hheld, hbelow⟩ |
      ⟨env', error, hheld, hlast⟩ | ⟨envelopeId, hheld⟩
    · exact absurd ⟨env₀, henv₀, hid⟩ hfresh
    · obtain ⟨rfl, rfl⟩ := hkept.read hheld hid
      exact safe_of_single hkept.safe hkept.succeeded.safe
    · obtain ⟨rfl, rfl⟩ := hkept.read hheld hid
      exact safe_of_single hkept.safe (hkept.tryAgain error hbelow).safe
    · obtain ⟨rfl, rfl⟩ := hkept.read hheld hid
      intro files' hfiles'
      simp only [moments, List.mem_cons, List.not_mem_nil, or_false] at hfiles'
      rcases hfiles' with rfl | rfl | rfl
      · exact hkept.safe
      · -- the new count is written, the file not yet moved
        exact ⟨.pending, env'.failedWith error, hkept.id_eq, hkept.intent,
          hkept.located.write rfl⟩
      · exact (hkept.gaveUp error hlast).safe
    · have henv : envelopeId = env.envelopeId := hid.symm.trans hkept.id_eq.symm
      subst henv
      obtain ⟨rfl, -⟩ := hkept.located.unique hheld
      exact safe_of_single hkept.safe hkept.requeued.safe
  · intro files' hfiles'
    refine ⟨folder, env, hkept.id_eq, hkept.intent, ?_⟩
    apply hkept.located.moments_other ?_ files' hfiles'
    intro op hop
    rw [hround.ops_envelopeId op hop, hkept.id_eq]
    exact hid

end Step

/-! ## The calls make admissible rounds -/

section Calls

variable {V : Type} (python : Values V) {maxAttempts : ℤ} {w : World}

/-- After some rounds. -/
def World.run (w : World) (rounds : List Round) : World := rounds.foldl World.next w

/-- The rounds of a run one after the other: their files, and their notes appended. -/
theorem World.run_eq (w : World) (rounds : List Round) :
    w.run rounds = ⟨after w.files rounds, w.notes ++ rounds.map Round.note⟩ := by
  induction rounds generalizing w with
  | nil => simp [World.run, after]
  | cons round rounds ih =>
    have hstep : w.run (round :: rounds) = (w.next round).run rounds := rfl
    rw [hstep, ih, World.next]
    simp [after]

/-- A run of admissible rounds ends where performing them ends. -/
theorem trace_run {w' : World} {rounds : List Round} (h : Trace (Step maxAttempts) w rounds w') :
    w' = w.run rounds := by
  induction h with
  | nil w => rfl
  | cons hstep _ ih => rw [ih, hstep.2]; rfl

/-- **Every run of admissible rounds keeps the invariant.** -/
theorem sound_trace (hmax : 1 ≤ maxAttempts) {w' : World} {rounds : List Round}
    (hs : Sound maxAttempts w) (h : Trace (Step maxAttempts) w rounds w') :
    Sound maxAttempts w' := by
  apply h.invariant ?_ hs
  rintro w round w' hs ⟨hround, rfl⟩
  exact hs.next hmax hround

/-- What can be looked up is in the folder. -/
theorem mem_of_held {folder : Folder} {envelopeId : String} {doc : Doc Empty}
    (h : folder.lookup envelopeId = some doc) : envelopeId ∈ folder := by
  rw [← AList.lookup_isSome, h]
  rfl

/-- `_handle_failure` makes an admissible round. -/
theorem handleFailure_admissible {env : OutboxEnvelope}
    (hheld : (w.files .pending).lookup env.envelopeId = some env.text) (error : String)
    (counts : Counts) :
    Admissible maxAttempts w
      ⟨.dispatched env.envelopeId false,
        (handleFailure maxAttempts w.files env error counts).1⟩ := by
  rw [handleFailure]
  split
  · rw [markFailed, if_pos (mem_of_held hheld)]
    exact .gaveUp env error hheld ‹_›
  · exact .tryAgain env error hheld (by omega)

/-- Whatever the callback does, dispatching an envelope is an admissible round. -/
theorem dispatchOne_admissible {env : OutboxEnvelope}
    (hheld : (w.files .pending).lookup env.envelopeId = some env.text) (counts : Counts)
    (outcome : Outcome V) :
    Admissible maxAttempts w (dispatchOne python maxAttempts w.files env counts outcome).1 := by
  rcases outcome with result | text
  · rw [dispatchOne]
    split
    · rw [markDone, if_pos (mem_of_held hheld)]
      exact .succeeded env hheld
    · exact handleFailure_admissible hheld _ counts
  · exact handleFailure_admissible hheld text counts

/-- The callback reported success: it returned a dictionary that says so. -/
def Outcome.succeeded : Outcome V → Bool
  | .returned result => isOk python result
  | .raised _ => false

/-- A dispatch is noted with what the callback came to. -/
theorem dispatchOne_note (files : Files) (env : OutboxEnvelope) (counts : Counts)
    (outcome : Outcome V) :
    (dispatchOne python maxAttempts files env counts outcome).1.note =
      .dispatched env.envelopeId (outcome.succeeded python) := by
  rcases outcome with result | text
  · rw [dispatchOne, Outcome.succeeded]
    rcases isOk python result with _ | _
    · rfl
    · rfl
  · rfl

/-- The loop handles each envelope as it was read: the rounds before were for others. -/
theorem dispatchLoop_trace (callback : OutboxEnvelope → Outcome V) {envs : List OutboxEnvelope}
    (hnd : (envs.map OutboxEnvelope.envelopeId).Nodup)
    (hheld : ∀ env ∈ envs, (w.files .pending).lookup env.envelopeId = some env.text)
    (counts : Counts) :
    Trace (Step maxAttempts) w
      (dispatchLoop python maxAttempts callback envs w.files counts).1
      (w.run (dispatchLoop python maxAttempts callback envs w.files counts).1) := by
  induction envs generalizing w counts with
  | nil => exact .nil w
  | cons env envs ih =>
    obtain ⟨hnot, hnd⟩ := List.nodup_cons.mp hnd
    let one := dispatchOne python maxAttempts w.files env counts (callback env)
    -- `list_pending` was read before the loop: the first round leaves the other files alone
    have hone : Admissible maxAttempts w one.1 :=
      dispatchOne_admissible python (hheld env List.mem_cons_self) counts (callback env)
    have hrest : ∀ env' ∈ envs,
        ((w.next one.1).files .pending).lookup env'.envelopeId = some env'.text := by
      intro env' henv'
      have hne : ∀ op ∈ one.1.ops, env'.envelopeId ≠ op.envelopeId := by
        intro op hop heq
        rw [hone.ops_envelopeId op hop, dispatchOne_note] at heq
        exact hnot (List.mem_map.mpr ⟨env', henv', heq⟩)
      rw [World.next, lookup_performAll_ne hne]
      exact hheld env' (List.mem_cons_of_mem env henv')
    exact .cons ⟨hone, rfl⟩ (ih hnd hrest one.2)

/-- Files of envelopes under their ids are read. -/
theorem read_all {list : List (Sigma fun _ : String => Doc Empty)}
    (h : ∀ file ∈ list, ∃ env : OutboxEnvelope, file = ⟨env.envelopeId, env.text⟩) :
    ∃ envs, (list.mapM fun file => OutboxEnvelope.fromDict file.2) = .ok envs ∧
      list = envs.map fun env => ⟨env.envelopeId, env.text⟩ := by
  induction list with
  | nil => exact ⟨[], rfl, rfl⟩
  | cons file list ih =>
    obtain ⟨env, rfl⟩ := h file List.mem_cons_self
    obtain ⟨envs, hread, hlist⟩ := ih fun file' hfile' => h file' (List.mem_cons_of_mem _ hfile')
    refine ⟨env :: envs, ?_, by rw [List.map_cons, ← hlist]⟩
    rw [List.mapM_cons, OutboxEnvelope.fromDict_text, hread]
    rfl

/-- Every file is the text of an envelope, under its id. -/
def Tidy (files : Files) : Prop :=
  ∀ folder envelopeId doc, (files folder).lookup envelopeId = some doc →
    ∃ env : OutboxEnvelope, env.envelopeId = envelopeId ∧ env.text = doc

/-- In a sound outbox each file is under the id of its envelope. -/
theorem Sound.tidy (h : Sound maxAttempts w) : Tidy w.files := by
  intro folder envelopeId doc hdoc
  obtain ⟨env₀, henv₀, hid⟩ := h.filed folder envelopeId doc hdoc
  obtain ⟨folder', env, hkept⟩ := h.kept env₀ henv₀
  rw [← hid, ← hkept.id_eq] at hdoc
  obtain ⟨-, rfl⟩ := hkept.located.unique hdoc
  exact ⟨env, by rw [hkept.id_eq, hid], rfl⟩

/-- **The pending envelopes are read** as they are in their files, in the order of the names. -/
theorem Tidy.listPending {files : Files} (h : Tidy files) :
    ∃ envs, Outbox.listPending files = .ok envs ∧
      (envs.map OutboxEnvelope.envelopeId).Nodup ∧
      envs.Pairwise (fun a b => a.envelopeId ++ ".json" ≤ b.envelopeId ++ ".json") ∧
      ∀ env, env ∈ envs ↔ (files .pending).lookup env.envelopeId = some env.text := by
  have hperm : ((files .pending).entries.mergeSort pathLe).Perm (files .pending).entries :=
    List.mergeSort_perm _ _
  have hfile : ∀ file ∈ (files .pending).entries.mergeSort pathLe,
      ∃ env : OutboxEnvelope, file = ⟨env.envelopeId, env.text⟩ := by
    rintro ⟨envelopeId, doc⟩ hmem
    have hdoc : (files .pending).lookup envelopeId = some doc :=
      AList.mem_lookup_iff.mpr (hperm.mem_iff.mp hmem)
    obtain ⟨env, rfl, rfl⟩ := h .pending envelopeId doc hdoc
    exact ⟨env, rfl⟩
  obtain ⟨envs, hread, hlist⟩ := read_all hfile
  have hmem : ∀ env : OutboxEnvelope, env ∈ envs ↔
      (⟨env.envelopeId, env.text⟩ : Sigma fun _ => Doc Empty) ∈ (files .pending).entries := by
    intro env
    rw [← hperm.mem_iff, hlist, List.mem_map]
    constructor
    · intro henv
      exact ⟨env, henv, rfl⟩
    · rintro ⟨env', henv', heq⟩
      obtain rfl := OutboxEnvelope.text_injective (eq_of_heq (Sigma.mk.inj heq).2)
      exact henv'
  refine ⟨envs, hread, ?_, ?_, ?_⟩
  · have hkeys : (((files .pending).entries.mergeSort pathLe).map Sigma.fst).Nodup :=
      (hperm.map Sigma.fst).nodup_iff.mpr (files .pending).nodupKeys
    rw [hlist, List.map_map] at hkeys
    exact hkeys
  · have htrans : ∀ a b c, pathLe a b = true → pathLe b c = true → pathLe a c = true := by
      intro a b c hab hbc
      simp only [pathLe, decide_eq_true_eq] at hab hbc ⊢
      exact hab.trans hbc
    have htotal : ∀ a b, (pathLe a b || pathLe b a) = true := by
      intro a b
      simp only [pathLe, Bool.or_eq_true, decide_eq_true_eq]
      exact le_total _ _
    have hsorted := List.pairwise_mergeSort htrans htotal (files .pending).entries
    rw [hlist, List.pairwise_map] at hsorted
    exact hsorted.imp fun hle => by simpa only [pathLe, decide_eq_true_eq] using hle
  · intro env
    rw [hmem]
    exact AList.mem_lookup_iff.symm

/-- A limit only drops envelopes. -/
theorem upTo_sublist {α : Type} (limit : ℤ) (list : List α) : (upTo limit list).Sublist list := by
  rw [upTo]
  split
  · exact List.take_sublist _ _
  · exact List.take_sublist _ _

/-- `dispatch_pending` is a run of admissible rounds, for any callback. -/
theorem dispatchPending_trace (h : Sound maxAttempts w) (limit : ℤ)
    (callback : OutboxEnvelope → Outcome V) :
    Trace (Step maxAttempts) w
      (Outbox.dispatchPending python maxAttempts callback limit w.files).1
      (w.run (Outbox.dispatchPending python maxAttempts callback limit w.files).1) := by
  obtain ⟨envs, hread, hnd, -, hheld⟩ := h.tidy.listPending
  have hsub := upTo_sublist limit envs
  rw [Outbox.dispatchPending, hread]
  exact dispatchLoop_trace python callback (hnd.sublist (hsub.map _))
    (fun env henv => (hheld env).mp (hsub.subset henv)) _

/-- The loop calls the callback once for each envelope that was read, and notes the answers. -/
theorem dispatchLoop_notes (callback : OutboxEnvelope → Outcome V) (envs : List OutboxEnvelope)
    (files : Files) (counts : Counts) :
    (dispatchLoop python maxAttempts callback envs files counts).1.map Round.note =
      envs.map fun env => .dispatched env.envelopeId ((callback env).succeeded python) := by
  induction envs generalizing files counts with
  | nil => rfl
  | cons env envs ih =>
    simp only [dispatchLoop, List.map_cons, dispatchOne_note]
    rw [ih]

/-- What a call is told by those that it calls: each envelope that `list_pending` returns, up to
the limit, is given to the callback, which reports success or not. -/
def Call.answers (files : Files) : Call V → List Note
  | .enqueue intent => [.enqueued (newEnvelope intent)]
  | .dispatchPending limit callback =>
    match listPending files with
    | .error _ => []
    | .ok envs =>
      (upTo limit envs).map fun env =>
        .dispatched env.envelopeId ((callback env).succeeded python)
  | .requeueFailed envelopeId =>
    if envelopeId ∈ files .failed then [.requeued envelopeId] else []

/-- The answers of a list of calls. -/
def answers (maxAttempts : ℤ) : Files → List (Call V) → List Note
  | _, [] => []
  | files, call :: calls =>
    call.answers python files ++
      answers maxAttempts (after files (call.rounds python maxAttempts files)) calls

/-- The rounds of a call are noted as it was told. -/
theorem Call.notes_rounds (files : Files) (call : Call V) :
    (call.rounds python maxAttempts files).map Round.note = call.answers python files := by
  rcases call with intent | ⟨limit, callback⟩ | envelopeId
  · rfl
  · simp only [Call.rounds, Outbox.dispatchPending, Call.answers]
    rcases listPending files with e | envs
    · rfl
    · exact dispatchLoop_notes python callback _ _ _
  · simp only [Call.rounds, Outbox.requeueFailed, Call.answers]
    by_cases hmem : envelopeId ∈ files .failed
    · rw [if_pos hmem, if_pos hmem]
      rfl
    · rw [if_neg hmem, if_neg hmem]
      rfl

/-- **The notes are the answers**, call by call. -/
theorem notes_rounds (files : Files) (calls : List (Call V)) :
    (rounds python maxAttempts files calls).map Round.note =
      answers python maxAttempts files calls := by
  induction calls generalizing files with
  | nil => rfl
  | cons call calls ih => rw [rounds, List.map_append, Call.notes_rounds, ih, answers]

/-- The ids that calls give out are new. -/
structure Fresh (notes : List Note) (calls : List (Call V)) : Prop where
  distinct : (givenIds calls).Nodup
  unknown : ∀ envelopeId ∈ givenIds calls, ¬ Known notes envelopeId

/-- After a call that gave out only its own ids, those of the later calls are still new. -/
theorem Fresh.cons {call : Call V} {calls : List (Call V)} {notes new : List Note}
    (h : Fresh notes (call :: calls))
    (hnew : ∀ env, .enqueued env ∈ new → env.envelopeId ∈ givenIds [call]) :
    Fresh (notes ++ new) calls := by
  have hids : givenIds (call :: calls) = givenIds [call] ++ givenIds calls := by
    rw [givenIds, givenIds, givenIds, ← List.filterMap_append, List.singleton_append]
  obtain ⟨hdistinct, hunknown⟩ := h
  rw [hids] at hdistinct hunknown
  obtain ⟨-, hnd, hdisjoint⟩ := List.nodup_append.mp hdistinct
  refine ⟨hnd, ?_⟩
  rintro envelopeId hid ⟨env, henv, rfl⟩
  rcases List.mem_append.mp henv with hbefore | hnow
  · exact hunknown _ (List.mem_append_right _ hid) ⟨env, hbefore, rfl⟩
  · exact hdisjoint _ (hnew env hnow) _ hid rfl

/-- The rounds of one call are admissible; what it enqueues has the id that it gives out. -/
theorem call_trace (h : Sound maxAttempts w) (call : Call V) (hfresh : Fresh w.notes [call]) :
    Trace (Step maxAttempts) w (call.rounds python maxAttempts w.files)
      (w.run (call.rounds python maxAttempts w.files)) ∧
    ∀ env, .enqueued env ∈ (call.rounds python maxAttempts w.files).map Round.note →
      env.envelopeId ∈ givenIds [call] := by
  rcases call with intent | ⟨limit, callback⟩ | envelopeId
  · constructor
    · exact .single ⟨.enqueued intent (hfresh.unknown _ (by simp [givenIds])), rfl⟩
    · intro env henv
      simp only [Call.rounds, List.map_cons, List.map_nil, List.mem_singleton,
        Note.enqueued.injEq] at henv
      rw [henv]
      simp [givenIds, newEnvelope]
  · refine ⟨dispatchPending_trace python h limit callback, ?_⟩
    intro env henv
    rw [Call.notes_rounds, Call.answers] at henv
    rcases hread : listPending w.files with e | envs
    · rw [hread] at henv
      cases henv
    · rw [hread] at henv
      obtain ⟨env', -, hnote⟩ := List.mem_map.mp henv
      cases hnote
  · simp only [Call.rounds, Outbox.requeueFailed]
    by_cases hmem : envelopeId ∈ w.files .failed
    · rw [if_pos hmem]
      obtain ⟨doc, hdoc⟩ := Option.isSome_iff_exists.mp (AList.lookup_isSome.mpr hmem)
      refine ⟨.single ⟨.requeued envelopeId hdoc, rfl⟩, ?_⟩
      intro env henv
      simp at henv
    · rw [if_neg hmem]
      refine ⟨.nil w, ?_⟩
      intro env henv
      cases henv

/-- **A list of calls makes admissible rounds.** -/
theorem rounds_trace (hmax : 1 ≤ maxAttempts) (h : Sound maxAttempts w) (calls : List (Call V))
    (hfresh : Fresh w.notes calls) :
    Trace (Step maxAttempts) w (rounds python maxAttempts w.files calls)
      (w.run (rounds python maxAttempts w.files calls)) := by
  induction calls generalizing w with
  | nil => exact .nil w
  | cons call calls ih =>
    have hhead : Fresh w.notes [call] := by
      have hids : (givenIds [call]).Sublist (givenIds (call :: calls)) :=
        (List.singleton_sublist.mpr List.mem_cons_self).filterMap _
      exact ⟨hfresh.distinct.sublist hids, fun id hid => hfresh.unknown id (hids.subset hid)⟩
    obtain ⟨htrace, hnew⟩ := call_trace python h call hhead
    -- the ids of the later calls are new after this call as well
    have hsound := sound_trace hmax h htrace
    rw [World.run_eq] at htrace hsound
    have hrest := ih hsound (hfresh.cons hnew)
    have happend := htrace.append hrest
    have hrun := trace_run happend
    rw [rounds]
    rw [hrun] at happend
    exact happend

/-! ## Conservation -/

/-- What is promised of an enqueued envelope after some rounds. -/
structure Conserved (maxAttempts : ℤ) (files : Files) (notes : List Note)
    (env₀ : OutboxEnvelope) (folder : FolderName) (env : OutboxEnvelope) : Prop where
  id_eq : env.envelopeId = env₀.envelopeId
  located : Located files folder env
  intent : env.SameIntent env₀
  done_iff : folder = .done ↔ .dispatched env₀.envelopeId true ∈ notes
  attempts : env.attempts = dispatches notes env₀.envelopeId false
  budget : .requeued env₀.envelopeId ∉ notes →
    (dispatches notes env₀.envelopeId true + dispatches notes env₀.envelopeId false : ℤ) ≤
        maxAttempts ∧
      (folder = .failed ↔ (dispatches notes env₀.envelopeId false : ℤ) = maxAttempts)

/-- The invariant of one envelope says what is to be shown of it. -/
theorem Kept.conserved {env₀ env : OutboxEnvelope} {folder : FolderName}
    (h : Kept maxAttempts w env₀ folder env) :
    Conserved maxAttempts w.files w.notes env₀ folder env where
  id_eq := h.id_eq
  located := h.located
  intent := h.intent
  done_iff := by
    rw [← List.count_pos_iff]
    have hcount := h.successes
    rw [dispatches] at hcount
    rw [hcount]
    split <;> simp [*]
  attempts := h.attempts
  budget hrequeued := by
    obtain ⟨hle, hfailed⟩ := h.budget hrequeued
    rw [← h.attempts, h.successes]
    refine ⟨?_, hfailed⟩
    by_cases hdone : folder = .done
    · -- the dispatch that succeeded came below the limit
      have hne : env.attempts ≠ maxAttempts := by
        intro heq
        rw [hdone] at hfailed
        cases hfailed.mpr heq
      rw [if_pos hdone]
      omega
    · rw [if_neg hdone]
      omega

/-- **Conservation.** After any part of the rounds of any calls, each enqueued envelope is in
exactly one folder, unchanged, with its dispatches counted; so it is between the file
operations of the next round. The dispatches are the calls of the callbacks, with what these
reported. -/
theorem outbox_conserves (hmax : 1 ≤ maxAttempts) (calls : List (Call V))
    (hids : (givenIds calls).Nodup) (past later : List Round)
    (hrounds : rounds python maxAttempts noFiles calls = past ++ later) (env₀ : OutboxEnvelope)
    (henv₀ : .enqueued env₀ ∈ past.map Round.note) :
    (∃ folder env,
      Conserved maxAttempts (after noFiles past) (past.map Round.note) env₀ folder env) ∧
    (∀ (round : Round) (later' : List Round), later = round :: later' →
      ∀ files ∈ moments (after noFiles past) round.ops, Safe files env₀) ∧
    past.map Round.note ++ later.map Round.note =
      answers python maxAttempts noFiles calls := by
  have hfresh : Fresh World.new.notes calls := by
    refine ⟨hids, ?_⟩
    rintro envelopeId - ⟨env, henv, -⟩
    cases henv
  have htrace := rounds_trace python hmax (sound_new maxAttempts) calls hfresh
  have hnew : rounds python maxAttempts World.new.files calls = past ++ later := hrounds
  rw [hnew] at htrace
  -- the process may stop between any two rounds
  obtain ⟨w, hpast, hlater⟩ := htrace.split
  have hsound := sound_trace hmax (sound_new maxAttempts) hpast
  have hw := trace_run hpast
  rw [World.run_eq] at hw
  subst hw
  refine ⟨?_, ?_, ?_⟩
  · obtain ⟨folder, env, hkept⟩ := hsound.kept env₀ henv₀
    exact ⟨folder, env, hkept.conserved⟩
  · rintro round later' rfl
    rcases hlater with _ | ⟨⟨hround, -⟩, -⟩
    exact hsound.moments_safe hround henv₀
  · rw [← List.map_append, ← hrounds, notes_rounds]

end Calls

/-- An intent whose first dispatch raises. -/
def oneIntent : Intent := ⟨"e-1", "docs", ["a"], "req-1", none, 16, 0⟩

/-- Enqueue, dispatch in vain, put back, dispatch with an answer that has no `success`. -/
def oneIntentCalls : List (Call Bool) :=
  [.enqueue oneIntent, .dispatchPending 100 fun _ => .raised "down", .requeueFailed "e-1",
    .dispatchPending 100 fun _ => .returned ∅]

/-- Truth values, as the outbox reads them. -/
def boolValues : Values Bool := ⟨id, fun b => if b then "True" else "False", fun _ => "\x7b\x7d"⟩

/-- After all four calls. -/
theorem outbox_conserves_oneIntent :
    (∃ folder env, Conserved 1 (after noFiles (rounds boolValues 1 noFiles oneIntentCalls))
      ((rounds boolValues 1 noFiles oneIntentCalls).map Round.note) (newEnvelope oneIntent)
      folder env) ∧
    (rounds boolValues 1 noFiles oneIntentCalls).map Round.note =
      answers boolValues 1 noFiles oneIntentCalls := by
  obtain ⟨hconserved, -, hanswers⟩ := outbox_conserves boolValues le_rfl oneIntentCalls
    (by decide) _ [] (List.append_nil _).symm (newEnvelope oneIntent)
    (by simp [rounds, oneIntentCalls, Call.rounds])
  rw [List.map_nil, List.append_nil] at hanswers
  exact ⟨hconserved, hanswers⟩

end Outbox

end Unlearning
