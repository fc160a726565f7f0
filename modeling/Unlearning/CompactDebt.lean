import Unlearning.CompactArgument
import Unlearning.Trace

/-!
# Compaction debt under concurrent calls

Calls of `delete` and of `force_compact` share one `CompactCoalescePolicy`. Each of
`note_deletes`, `decide` and `mark_compacted` holds the policy's lock, but a call takes them
one by one, so the steps of several calls interleave. A caller here is one call; what it
does is a walk through `DebtPhase`, one atomic step at a time.

Three lists are history: which labels were wiped, which of them were counted by a
`note_deletes`, and which were wiped before a `backend.compact()` that has completed. There
is no debt when nothing is pending and everything that was counted is covered.

`alone_runCompaction` ties a caller to `Service.runCompaction`: without interference, its
steps do to the policy what the call does.
-/

namespace Unlearning

/-- A label that a caller wiped: the `index`-th of its batch. -/
structure Wipe (T : Type) where
  caller : T
  index : ℕ
  label : ℤ
  deriving DecidableEq

/-- What a caller runs. -/
inductive CompactJob : Type where
  /-- `delete`, with its effective mode -/
  | delete (mode : CompactMode) : CompactJob
  | forceCompact : CompactJob

/-- A call, and whether the backend of its service has `compact()`. -/
structure Caller where
  job : CompactJob
  supports : Bool

/-- Where a call is. -/
inductive DebtPhase (T : Type) : Type where
  /-- in the loop, with the labels that it wiped -/
  | wiping (batch : List (Wipe T)) : DebtPhase T
  /-- after `note_deletes` -/
  | deciding : DebtPhase T
  /-- before `backend.compact()` -/
  | compacting : DebtPhase T
  /-- before `mark_compacted` -/
  | marking : DebtPhase T
  | finished : DebtPhase T
  deriving DecidableEq

/-- The labels that a call in this phase has yet to count. -/
def DebtPhase.batch {T : Type} : DebtPhase T → List (Wipe T)
  | wiping batch => batch
  | _ => []

/-- The shared policy, the calls, and the history. -/
structure DebtState (T D : Type) [PyFloat D] where
  policy : CompactCoalescePolicy D
  phase : T → DebtPhase T
  wiped : List (Wipe T)
  noted : List (Wipe T)
  /-- wiped before the start of a `backend.compact()` that has completed -/
  covered : List (Wipe T)

/-- One atomic step of a caller; `now` is `time.monotonic()`. -/
inductive DebtAction (T D : Type) : Type where
  | wipe (t : T) (label : ℤ) : DebtAction T D
  | note (t : T) (now : D) : DebtAction T D
  /-- nothing was erased, or the backend cannot compact -/
  | leave (t : T) : DebtAction T D
  | decide (t : T) (now : D) : DebtAction T D
  | compact (t : T) : DebtAction T D
  /-- `backend.compact()` raises -/
  | compactFails (t : T) : DebtAction T D
  | mark (t : T) : DebtAction T D

namespace DebtState

variable {T D : Type} [DecidableEq T] [PyFloat D]

/-- Where a call starts. -/
def firstPhase (c : Caller) : DebtPhase T :=
  match c.job with
  | .delete _ => .wiping []
  | .forceCompact => if c.supports then .compacting else .finished

/-- All callers at their start, and no label wiped. -/
def start (caller : T → Caller) (policy : CompactCoalescePolicy D) : DebtState T D :=
  ⟨policy, fun t => firstPhase (caller t), [], [], []⟩

/-- One caller goes on to another phase. -/
def setPhase (s : DebtState T D) (t : T) (p : DebtPhase T) : DebtState T D :=
  { s with phase := Function.update s.phase t p }

/-- The labels that a caller has wiped and has yet to count. -/
def batch (s : DebtState T D) (t : T) : List (Wipe T) := (s.phase t).batch

/-- One step. -/
def step (caller : T → Caller) (s : DebtState T D) : DebtAction T D → Option (DebtState T D)
  | .wipe t label =>
    match s.phase t with
    | .wiping batch =>
      let w : Wipe T := ⟨t, batch.length, label⟩
      some { s.setPhase t (.wiping (batch ++ [w])) with wiped := w :: s.wiped }
    | _ => none
  | .note t now =>
    match s.phase t with
    | .wiping batch =>
      if batch ≠ [] ∧ (caller t).supports then
        some { s.setPhase t .deciding with
          policy := s.policy.noteDeletes batch.length now
          noted := batch ++ s.noted }
      else none
    | _ => none
  | .leave t =>
    match s.phase t with
    | .wiping batch =>
      if batch = [] ∨ (caller t).supports = false then some (s.setPhase t .finished) else none
    | _ => none
  | .decide t now =>
    match s.phase t, (caller t).job with
    | .deciding, .delete mode =>
      if (Service.chooseCompact mode true s.policy now).shouldCompact then
        some (s.setPhase t .compacting)
      else some (s.setPhase t .finished)
    | _, _ => none
  | .compact t =>
    match s.phase t with
    | .compacting => some { s.setPhase t .marking with covered := s.wiped }
    | _ => none
  | .compactFails t =>
    match s.phase t with
    | .compacting => some (s.setPhase t .finished)
    | _ => none
  | .mark t =>
    match s.phase t with
    | .marking => some { s.setPhase t .finished with policy := s.policy.markCompacted }
    | _ => none

/-- The step relation of the callers. -/
def Step (caller : T → Caller) (s : DebtState T D) (a : DebtAction T D)
    (s' : DebtState T D) : Prop :=
  s.step caller a = some s'

/-- A note while a `mark_compacted` is outstanding counts only labels that a completed
`compact()` has covered. -/
def Calm (s : DebtState T D) : DebtAction T D → Prop
  | .note t _ => (∃ u, s.phase u = .marking) → ∀ w ∈ s.batch t, w ∈ s.covered
  | _ => True

/-! ## What a step does -/

section Steps

variable {caller : T → Caller} {s s' : DebtState T D} {t : T}

omit [DecidableEq T] in
theorem batch_of_wiping {b : List (Wipe T)} (h : s.phase t = .wiping b) : s.batch t = b := by
  rw [batch, h]
  rfl

theorem step_wipe {label : ℤ} (h : s.Step caller (.wipe t label) s') :
    s.phase t = .wiping (s.batch t) ∧
      s' = { s.setPhase t (.wiping (s.batch t ++ [⟨t, (s.batch t).length, label⟩])) with
        wiped := ⟨t, (s.batch t).length, label⟩ :: s.wiped } := by
  simp only [Step, step] at h
  split at h
  · rename_i b hphase
    rw [batch_of_wiping hphase]
    exact ⟨hphase, (Option.some.inj h).symm⟩
  · cases h

theorem step_note {now : D} (h : s.Step caller (.note t now) s') :
    s.phase t = .wiping (s.batch t) ∧ s.batch t ≠ [] ∧
      s' = { s.setPhase t .deciding with
        policy := s.policy.noteDeletes (s.batch t).length now
        noted := s.batch t ++ s.noted } := by
  simp only [Step, step] at h
  split at h
  · rename_i b hphase
    rw [batch_of_wiping hphase]
    split at h
    · rename_i hne
      exact ⟨hphase, hne.1, (Option.some.inj h).symm⟩
    · cases h
  · cases h

/-- The steps that change nothing but the phase, and do not lead to `marking`. -/
theorem step_phase {a : DebtAction T D} (h : s.Step caller a s')
    (ha : a = .leave t ∨ (∃ now, a = .decide t now) ∨ a = .compactFails t) :
    s' = s.setPhase t .compacting ∨ s' = s.setPhase t .finished := by
  rcases ha with rfl | ⟨now, rfl⟩ | rfl
  · simp only [Step, step] at h
    split at h
    · split at h
      · exact Or.inr (Option.some.inj h).symm
      · cases h
    · cases h
  · simp only [Step, step] at h
    split at h
    · split at h
      · exact Or.inl (Option.some.inj h).symm
      · exact Or.inr (Option.some.inj h).symm
    · cases h
  · simp only [Step, step] at h
    split at h
    · exact Or.inr (Option.some.inj h).symm
    · cases h

theorem step_compact (h : s.Step caller (.compact t) s') :
    s' = { s.setPhase t .marking with covered := s.wiped } := by
  simp only [Step, step] at h
  split at h
  · exact (Option.some.inj h).symm
  · cases h

theorem step_mark (h : s.Step caller (.mark t) s') :
    s.phase t = .marking ∧
      s' = { s.setPhase t .finished with policy := s.policy.markCompacted } := by
  simp only [Step, step] at h
  split at h
  · rename_i hphase
    exact ⟨hphase, (Option.some.inj h).symm⟩
  · cases h

end Steps

/-! ## The invariant -/

/-- Counted labels were wiped, and they are covered where nothing is pending or a
`mark_compacted` is outstanding. -/
structure Settled (s : DebtState T D) : Prop where
  batch_wiped : ∀ t, ∀ w ∈ s.batch t, w ∈ s.wiped
  noted_wiped : ∀ w ∈ s.noted, w ∈ s.wiped
  noted_covered : s.policy.pending = 0 ∨ (∃ t, s.phase t = .marking) → ∀ w ∈ s.noted, w ∈ s.covered

omit [DecidableEq T] in
theorem settled_start (caller : T → Caller) (policy : CompactCoalescePolicy D) :
    (start caller policy).Settled where
  batch_wiped t w hw := by
    have hnil : (firstPhase (caller t) : DebtPhase T).batch = [] := by
      unfold firstPhase
      split
      · rfl
      · split <;> rfl
    rw [batch, start, hnil] at hw
    cases hw
  noted_wiped w hw := by cases hw
  noted_covered _ w hw := by cases hw

section Invariant

variable {caller : T → Caller} {s : DebtState T D}

theorem batch_setPhase (s : DebtState T D) (t u : T) (p : DebtPhase T) :
    (s.setPhase t p).batch u = if u = t then p.batch else s.batch u := by
  by_cases hu : u = t
  · subst hu
    simp [batch, setPhase]
  · simp [batch, setPhase, hu]

theorem marking_setPhase {t : T} {p : DebtPhase T} (hp : p ≠ .marking)
    (h : ∃ u, (s.setPhase t p).phase u = .marking) : ∃ u, s.phase u = .marking := by
  obtain ⟨u, hu⟩ := h
  by_cases hut : u = t
  · subst hut
    simp [setPhase] at hu
    exact absurd hu hp
  · refine ⟨u, ?_⟩
    simpa [setPhase, hut] using hu

/-- A change of phase alone. -/
theorem Settled.setPhase (h : s.Settled) (t : T) {p : DebtPhase T}
    (hp : p = .compacting ∨ p = .finished) :
    (s.setPhase t p).Settled where
  batch_wiped u w hw := by
    rw [batch_setPhase] at hw
    split at hw
    · rcases hp with rfl | rfl <;> cases hw
    · exact h.batch_wiped u w hw
  noted_wiped := h.noted_wiped
  noted_covered hq := by
    refine h.noted_covered (hq.imp id (marking_setPhase ?_))
    rcases hp with rfl | rfl <;> simp

/-- **One step** keeps it. -/
theorem Settled.step (h : s.Settled) {a : DebtAction T D} {s' : DebtState T D}
    (hs : Guarded Calm (Step caller) s a s') : s'.Settled := by
  obtain ⟨hcalm, hs⟩ := hs
  cases a with
  | wipe t label =>
    obtain ⟨hphase, rfl⟩ := step_wipe hs
    refine ⟨?_, ?_, ?_⟩
    · intro u w hw
      have hw' :
          w ∈ (s.setPhase t (.wiping (s.batch t ++ [⟨t, (s.batch t).length, label⟩]))).batch u :=
        hw
      rw [batch_setPhase] at hw'
      split at hw'
      · rcases List.mem_append.mp hw' with hw' | hw'
        · exact List.mem_cons_of_mem _ (h.batch_wiped t w hw')
        · exact List.mem_singleton.mp hw' ▸ List.mem_cons_self
      · exact List.mem_cons_of_mem _ (h.batch_wiped u w hw')
    · exact fun w hw => List.mem_cons_of_mem _ (h.noted_wiped w hw)
    -- the new label is not counted yet
    · exact fun hq => h.noted_covered (hq.imp id (marking_setPhase (by simp)))
  | note t now =>
    obtain ⟨hphase, hne, rfl⟩ := step_note hs
    refine ⟨?_, ?_, ?_⟩
    · intro u w hw
      have hw' : w ∈ (s.setPhase t .deciding).batch u := hw
      rw [batch_setPhase] at hw'
      split at hw'
      · cases hw'
      · exact h.batch_wiped u w hw'
    · intro w hw
      rcases List.mem_append.mp hw with hw | hw
      · exact h.batch_wiped t w hw
      · exact h.noted_wiped w hw
    · -- something is pending now, so only an outstanding mark matters
      rintro (hpending | hmarking)
      · have hlen : (s.batch t).length ≠ 0 := fun h0 => hne (List.eq_nil_of_length_eq_zero h0)
        simp only [CompactCoalescePolicy.noteDeletes, hlen, if_false] at hpending
        omega
      · have hbefore := marking_setPhase (s := s) (by simp) hmarking
        intro w hw
        rcases List.mem_append.mp hw with hw | hw
        · exact hcalm hbefore w hw
        · exact h.noted_covered (Or.inr hbefore) w hw
  | leave t =>
    rcases step_phase hs (Or.inl rfl) with rfl | rfl
    · exact h.setPhase t (Or.inl rfl)
    · exact h.setPhase t (Or.inr rfl)
  | decide t now =>
    rcases step_phase hs (Or.inr (Or.inl ⟨now, rfl⟩)) with rfl | rfl
    · exact h.setPhase t (Or.inl rfl)
    · exact h.setPhase t (Or.inr rfl)
  | compact t =>
    obtain rfl := step_compact hs
    -- all that was wiped is covered, and so all that was counted
    refine ⟨?_, h.noted_wiped, fun _ => h.noted_wiped⟩
    intro u w hw
    have hw' : w ∈ (s.setPhase t .marking).batch u := hw
    rw [batch_setPhase] at hw'
    split at hw'
    · cases hw'
    · exact h.batch_wiped u w hw'
  | compactFails t =>
    rcases step_phase hs (Or.inr (Or.inr rfl)) with rfl | rfl
    · exact h.setPhase t (Or.inl rfl)
    · exact h.setPhase t (Or.inr rfl)
  | mark t =>
    obtain ⟨hphase, rfl⟩ := step_mark hs
    have hfinished := h.setPhase t (Or.inr rfl)
    -- the counter goes to `0`: the mark of this caller was outstanding until now
    exact ⟨hfinished.batch_wiped, h.noted_wiped, fun _ => h.noted_covered (Or.inr ⟨t, hphase⟩)⟩

end Invariant

/-- **Compaction debt is not forgotten** in any interleaving in which a note between a
`compact()` and its `mark_compacted` counts only labels that were already covered: whenever
nothing is pending, every counted label was wiped before the start of a completed
`compact()`. -/
theorem debt_covered (caller : T → Caller) (policy : CompactCoalescePolicy D)
    (as : List (DebtAction T D)) (s : DebtState T D)
    (hrun : Trace (Guarded Calm (Step caller)) (start caller policy) as s)
    (hpending : s.policy.pending = 0) : ∀ w ∈ s.noted, w ∈ s.covered :=
  (hrun.invariant (fun _ _ _ h hs => h.step hs) (settled_start caller policy)).noted_covered
    (Or.inl hpending)

/-- Two calls that each delete a label and compact at once. -/
def twoDeletes : Bool → Caller := fun _ => ⟨.delete .always, true⟩

/-- A coalescing policy with nothing pending. -/
def quietPolicy : CompactCoalescePolicy ℚ := Service.coalescingUsers.policy

/-- The second call counts its label between the `compact()` and the `mark_compacted` of the first,
but has wiped it before. -/
def overlapped : List (DebtAction Bool ℚ) :=
  [.wipe true 5, .note true 0, .wipe false 6, .decide true 0, .compact true, .note false 0,
    .mark true, .decide false 0, .compact false, .mark false]

theorem debt_covered_twoDeletes :
    ∃ s : DebtState Bool ℚ,
      Trace (Guarded Calm (Step twoDeletes)) (start twoDeletes quietPolicy) overlapped s ∧
      s.policy.pending = 0 ∧ s.noted = [⟨false, 0, 6⟩, ⟨true, 0, 5⟩] ∧
      ∀ w ∈ s.noted, w ∈ s.covered := by
  have hrun : ∃ s, Trace (Guarded Calm (Step twoDeletes)) (start twoDeletes quietPolicy)
      overlapped s ∧ s.policy.pending = 0 ∧ s.noted = [⟨false, 0, 6⟩, ⟨true, 0, 5⟩] := by
    refine ⟨_, .cons ⟨trivial, rfl⟩ (.cons ⟨?_, rfl⟩ (.cons ⟨trivial, rfl⟩ (.cons ⟨trivial, rfl⟩
      (.cons ⟨trivial, rfl⟩ (.cons ⟨?_, rfl⟩ (.cons ⟨trivial, rfl⟩ (.cons ⟨trivial, rfl⟩
        (.cons ⟨trivial, rfl⟩ (.cons ⟨trivial, rfl⟩ (.nil _)))))))))), rfl, rfl⟩
    · rintro ⟨u, hu⟩
      cases u <;> cases hu
    · intro _ w hw
      obtain rfl := List.mem_singleton.mp hw
      exact List.mem_cons_self
  obtain ⟨s, htrace, hpending, hnoted⟩ := hrun
  exact ⟨s, htrace, hpending, hnoted, debt_covered _ _ _ _ htrace hpending⟩

/-- A `force_compact`, and a `delete` whose mode is `auto`. -/
def flushAndDelete : Bool → Caller
  | false => ⟨.forceCompact, true⟩
  | true => ⟨.delete .auto, true⟩

/-- A `delete` wipes and counts its label between the `compact()` and the `mark_compacted`
of a `force_compact`. The counter goes back to `0`, the `delete` finds nothing pending and
ends, and no compaction has seen the label. -/
theorem debt_forgotten :
    ∃ (as : List (DebtAction Bool ℚ)) (s : DebtState Bool ℚ),
      Trace (Step flushAndDelete) (start flushAndDelete quietPolicy) as s ∧
      (∀ t, s.phase t = .finished) ∧ s.policy.pending = 0 ∧
      ⟨true, 0, 5⟩ ∈ s.noted ∧ ⟨true, 0, 5⟩ ∉ s.covered := by
  refine ⟨[.compact false, .wipe true 5, .note true 0, .mark false, .decide true 0], _,
    .cons rfl (.cons rfl (.cons rfl (.cons rfl (.cons rfl (.nil _))))), ?_, rfl, ?_, ?_⟩
  · intro t
    cases t <;> rfl
  · exact List.mem_cons_self
  · exact List.not_mem_nil

/-! ## One call on its own -/

/-- **Without interference** the steps of a `delete` do to the policy what
`Service.runCompaction` does, and cover what was wiped if it compacts. -/
theorem alone_runCompaction {σ : Type} (svc : Service σ D) (hsup : svc.supportsCompact = true)
    (amb : Ambient σ D) (mode : CompactMode) (o : σ) (caller : T → Caller) (s : DebtState T D)
    {t : T} (hcaller : caller t = ⟨.delete mode, true⟩) (hphase : s.phase t = .wiping (s.batch t))
    (hne : s.batch t ≠ []) :
    ∃ as s', Trace (Step caller) s as s' ∧ s'.phase t = .finished ∧
      s'.policy =
        (svc.runCompaction amb mode ((s.batch t).map Wipe.label) o s.policy).policy ∧
      s'.covered =
        if (svc.runCompaction amb mode ((s.batch t).map Wipe.label) o s.policy).compacted
        then s.wiped
        else s.covered := by
  obtain ⟨compact, hcompact⟩ := Option.isSome_iff_exists.mp hsup
  have hnote : s.Step caller (.note t amb.noteTime) { s.setPhase t .deciding with
      policy := s.policy.noteDeletes (s.batch t).length amb.noteTime
      noted := s.batch t ++ s.noted } := by
    simp [Step, step, hphase, hne, hcaller]
  generalize hnoted : { s.setPhase t .deciding with
      policy := s.policy.noteDeletes (s.batch t).length amb.noteTime
      noted := s.batch t ++ s.noted } = s₁ at hnote
  have hphase₁ : s₁.phase t = .deciding := by simp [← hnoted, setPhase]
  have hpolicy₁ : s₁.policy = s.policy.noteDeletes (s.batch t).length amb.noteTime := by
    simp [← hnoted]
  have hwiped₁ : s₁.wiped = s.wiped := by simp [← hnoted, setPhase]
  have hcovered₁ : s₁.covered = s.covered := by simp [← hnoted, setPhase]
  simp only [Service.runCompaction, List.map_eq_nil_iff, hne, if_false, hsup, if_true,
    List.length_map, ← hpolicy₁]
  cases hchoice : (Service.chooseCompact mode true s₁.policy amb.decideTime).shouldCompact
  · have hdecide : s₁.Step caller (.decide t amb.decideTime) (s₁.setPhase t .finished) := by
      simp [Step, step, hphase₁, hcaller, hchoice]
    refine ⟨_, _, (Trace.single hnote).append (.single hdecide), ?_, rfl, ?_⟩
    · simp [setPhase]
    · simp [setPhase, hcovered₁]
  · have hdecide : s₁.Step caller (.decide t amb.decideTime) (s₁.setPhase t .compacting) := by
      simp [Step, step, hphase₁, hcaller, hchoice]
    simp only [if_true, Service.compactNow, hcompact]
    rcases compact o with ⟨e | live, o'⟩
    · have hfails : (s₁.setPhase t .compacting).Step caller (.compactFails t)
          ((s₁.setPhase t .compacting).setPhase t .finished) := by
        simp [Step, step, setPhase]
      refine ⟨_, _, ((Trace.single hnote).append (.single hdecide)).append (.single hfails),
        ?_, rfl, ?_⟩
      · simp [setPhase]
      · simp [setPhase, hcovered₁]
    · have hruns : (s₁.setPhase t .compacting).Step caller (.compact t)
          { (s₁.setPhase t .compacting).setPhase t .marking with covered := s₁.wiped } := by
        simp [Step, step, setPhase]
      generalize hcompacted : { (s₁.setPhase t .compacting).setPhase t .marking with
        covered := s₁.wiped } = s₂ at hruns
      have hmark : s₂.Step caller (.mark t)
          { s₂.setPhase t .finished with policy := s₂.policy.markCompacted } := by
        simp [Step, step, ← hcompacted, setPhase]
      refine ⟨_, _, (((Trace.single hnote).append (.single hdecide)).append (.single hruns)).append
        (.single hmark), ?_, ?_, ?_⟩
      · simp [setPhase]
      · simp [← hcompacted, setPhase]
      · simp [← hcompacted, setPhase, hwiped₁]

end DebtState

end Unlearning
