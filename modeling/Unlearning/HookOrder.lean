import Unlearning.Workflow

/-!
# What hooks see of the live erasure

The hooks are external actions "after live hard-delete". `advance` runs all of its stages in
order whatever the live delete came to, so a hook may be called in an advance whose live
delete failed.

`hookCalls` reads off a list of stages which code each of them called, and with which status
of the live step; `advanceCalls_names` says that these are the calls of `advance`. An advance
is `Ordered` when no hook can run ahead of the live delete in it.
-/

namespace Unlearning

namespace Workflow

/-- A call of foreign code: for which step, and the status of the live step then. -/
structure HookCall where
  name : StepName
  live : StepStatus
  deriving DecidableEq

section Calls

variable {A : Type}

/-- An optional step, with the policy of the workflow. -/
def optionalStage (call : Advance A) (name : StepName) : Stage A := fun w =>
  runOptional name (w.wf.requires name) (call.hook name) call.skipOptional w

/-- The steps that have a hook. -/
def hookOrder : List StepName := [.replicaFanout, .cryptoShred, .documentStore, .backupPolicy]

/-- The stages of an advance, as a list. -/
def stageList (call : Advance A) : List (Stage A) :=
  runLiveDelete call.delete :: mirrorResidualFromReceipt :: hookOrder.map (optionalStage call)

/-- The stages one after the other, up to one that escapes. -/
def runStages : List (Stage A) → Stage A
  | [], w => .ok w
  | stage :: rest, w => stage w >>= runStages rest

theorem stages_eq (call : Advance A) (w : Work A) :
    stages call w = runStages (stageList call) w := by
  simp only [stages, stageList, hookOrder, List.map, runStages, optionalStage]
  congr 1
  funext w
  congr 1
  funext w
  congr 1
  funext w
  congr 1
  funext w
  congr 1
  funext w
  exact (bind_pure _).symm

/-- The calls that a stage added, with the live status before it. -/
def newCalls (w : Work A) (invoked : List StepName) : List HookCall :=
  (invoked.drop w.invoked.length).map fun name => ⟨name, (w.wf.steps .liveHardDelete).status⟩

/-- The calls of a list of stages. -/
def hookCalls : List (Stage A) → Work A → List HookCall
  | [], _ => []
  | stage :: rest, w =>
    match stage w with
    | .error invoked => newCalls w invoked
    | .ok w' => newCalls w w'.invoked ++ hookCalls rest w'

/-- The calls of one `advance`. -/
def advanceCalls (saved : ErasureWorkflow A) (call : Advance A) : List HookCall :=
  if saved.status = .complete then []
  else hookCalls (stageList call) ⟨{ saved with status := .inProgress }, []⟩

/-- The calls of a run. -/
def advanceAllCalls (json : Json A) (saved : ErasureWorkflow A) : List (Advance A) → List HookCall
  | [] => []
  | call :: calls =>
    advanceCalls saved call ++ advanceAllCalls json (advance json saved call).1 calls

/-! ## They are the calls of the runner -/

/-- The calls made so far, whether or not an exception escaped. -/
def invokedBy : Except (List StepName) (Work A) → List StepName
  | .error invoked => invoked
  | .ok w => w.invoked

/-- A stage only adds calls. -/
def Extends (stage : Stage A) : Prop :=
  ∀ w, ∃ new, invokedBy (stage w) = w.invoked ++ new

theorem extends_runLiveDelete (delete : Outcome Receipt) :
    Extends (runLiveDelete delete : Stage A) := by
  intro w
  unfold runLiveDelete
  split
  · exact ⟨[], by simp [invokedBy]⟩
  · rcases delete with r | text | _ <;> exact ⟨[.liveHardDelete], rfl⟩

theorem extends_mirrorResidualFromReceipt : Extends (mirrorResidualFromReceipt : Stage A) := by
  intro w
  unfold mirrorResidualFromReceipt
  dsimp only
  split
  · exact ⟨[], by simp [invokedBy]⟩
  · exact ⟨[], by simp [invokedBy]⟩

theorem extends_optionalStage (call : Advance A) (name : StepName) :
    Extends (optionalStage call name) := by
  intro w
  unfold optionalStage runOptional
  dsimp only
  split
  · exact ⟨[], by simp [invokedBy]⟩
  · split
    · exact ⟨[], by simp [invokedBy]⟩
    · rcases call.hook name with _ | result | text | _
      · exact ⟨[], by simp [invokedBy]⟩
      all_goals exact ⟨[name], rfl⟩

theorem extends_stageList (call : Advance A) : ∀ stage ∈ stageList call, Extends stage := by
  intro stage hstage
  simp only [stageList, List.mem_cons, List.mem_map] at hstage
  rcases hstage with rfl | rfl | ⟨name, -, rfl⟩
  · exact extends_runLiveDelete call.delete
  · exact extends_mirrorResidualFromReceipt
  · exact extends_optionalStage call name

theorem names_newCalls {w : Work A} {new : List StepName} :
    (newCalls w (w.invoked ++ new)).map HookCall.name = new := by
  simp [newCalls, Function.comp_def]

theorem names_hookCalls {list : List (Stage A)} (h : ∀ stage ∈ list, Extends stage) (w : Work A) :
    invokedBy (runStages list w) = w.invoked ++ (hookCalls list w).map HookCall.name := by
  induction list generalizing w with
  | nil => simp [runStages, hookCalls, invokedBy]
  | cons stage rest ih =>
    obtain ⟨new, hnew⟩ := h stage List.mem_cons_self w
    simp only [runStages, hookCalls]
    rcases hw : stage w with invoked | w'
    · -- the exception that escapes leaves the calls made before it
      rw [hw] at hnew
      obtain rfl : invoked = w.invoked ++ new := hnew
      rw [names_newCalls]
      rfl
    · rw [hw] at hnew
      have hinv : w'.invoked = w.invoked ++ new := hnew
      have hrest := ih (fun s hs => h s (List.mem_cons_of_mem stage hs)) w'
      rw [List.map_append, hinv, names_newCalls, ← List.append_assoc, ← hinv]
      exact hrest

/-- **The calls read off the stages are those of `advance`.** -/
theorem advanceCalls_names (json : Json A) (saved : ErasureWorkflow A) (call : Advance A) :
    (advanceCalls saved call).map HookCall.name = (advance json saved call).2 := by
  unfold advanceCalls advance
  split
  · rfl
  · have hnames := names_hookCalls (extends_stageList call)
      ⟨{ saved with status := .inProgress }, []⟩
    rw [List.nil_append] at hnames
    rw [← hnames, stages_eq]
    rcases runStages (stageList call) ⟨{ saved with status := .inProgress }, []⟩ with invoked | w
    · rfl
    · dsimp only
      split <;> rfl

end Calls

/-! ## Order -/

section Order

variable {A : Type} {call : Advance A} {w : Work A}

/-- Hooks ran after the live delete only. -/
def AfterLive (calls : List HookCall) : Prop :=
  ∀ c ∈ calls, c.name ≠ .liveHardDelete → c.live = .done

/-- An advance in which no hook can run ahead of the live delete: the workflow is
complete, the live step is done already or will be, the erase takes the whole advance
down, or no step that is required and not done has a hook. -/
def Ordered (saved : ErasureWorkflow A) (call : Advance A) : Prop :=
  saved.status = .complete ∨ (saved.steps .liveHardDelete).status = .done ∨
    (∃ r, call.delete = .returns r ∧ r.success = true) ∨ call.delete = .escapes ∨
    ∀ name, saved.requires name = true → (saved.steps name).status ≠ .done → call.hook name = none

theorem afterLive_nil : AfterLive [] := by simp [AfterLive]

theorem afterLive_append {calls calls' : List HookCall} :
    AfterLive (calls ++ calls') ↔ AfterLive calls ∧ AfterLive calls' := List.forall_mem_append

theorem afterLive_newCalls (hdone : (w.wf.steps .liveHardDelete).status = .done)
    (invoked : List StepName) : AfterLive (newCalls w invoked) := by
  intro c hc _
  obtain ⟨name, -, rfl⟩ := List.mem_map.mp hc
  exact hdone

/-- Once the live step is done, every later call sees it done. -/
theorem afterLive_of_done {list : List (Stage A)} (hsafe : ∀ stage ∈ list, ∀ w, Safe w (stage w))
    (w : Work A) (hdone : (w.wf.steps .liveHardDelete).status = .done) :
    AfterLive (hookCalls list w) := by
  induction list generalizing w with
  | nil => exact afterLive_nil
  | cons stage rest ih =>
    have hstage := hsafe stage List.mem_cons_self w
    simp only [hookCalls]
    rcases hw : stage w with invoked | w'
    · exact afterLive_newCalls hdone invoked
    · rw [hw] at hstage
      have hkept := hstage.1.done _ hdone
      exact afterLive_append.mpr ⟨afterLive_newCalls hdone _,
        ih (fun s hs => hsafe s (List.mem_cons_of_mem stage hs)) w' (by rw [hkept]; exact hdone)⟩

theorem safe_optionalStage {name : StepName} (hname : name ≠ .liveHardDelete) (w : Work A) :
    Safe w (optionalStage call name w) := safe_runOptional hname rfl _ _

/-- The steps that a stage leaves alone. -/
structure Leaves (name : StepName) (w w' : Work A) : Prop where
  invoked : w'.invoked = w.invoked
  steps : ∀ n, n ≠ name → w'.wf.steps n = w.wf.steps n
  requires : ∀ n, w'.wf.requires n = w.wf.requires n

/-- An optional step that is done, not required or without a hook calls nothing. -/
theorem optionalStage_quiet {name : StepName}
    (h : w.wf.requires name = true → (w.wf.steps name).status ≠ .done → call.hook name = none) :
    ∃ w', optionalStage call name w = .ok w' ∧ Leaves name w w' := by
  unfold optionalStage runOptional
  dsimp only
  by_cases hdone : (w.wf.steps name).status = .done
  · rw [if_pos hdone]
    exact ⟨w, rfl, rfl, fun _ _ => rfl, fun _ => rfl⟩
  · rw [if_neg hdone]
    cases hreq : w.wf.requires name
    · refine ⟨_, rfl, rfl, ?_, ?_⟩
      · intro n hn
        simp [hn]
      · intro n
        simp
    · rw [h hreq hdone]
      refine ⟨_, rfl, rfl, ?_, ?_⟩
      · intro n hn
        cases call.skipOptional <;> simp [hn]
      · intro n
        cases call.skipOptional <;> simp

/-- Any other calls its hook. -/
theorem optionalStage_calls {name : StepName} (hreq : w.wf.requires name = true)
    (hdone : (w.wf.steps name).status ≠ .done) (hhook : call.hook name ≠ none) :
    invokedBy (optionalStage call name w) = w.invoked ++ [name] := by
  obtain ⟨outcome, houtcome⟩ := Option.ne_none_iff_exists'.mp hhook
  unfold optionalStage runOptional
  dsimp only
  rw [if_neg hdone, hreq, houtcome]
  rcases outcome with result | text | _ <;> rfl

/-- While the live step is not done, the optional steps are in order exactly if none of
them has a hook to call. -/
theorem afterLive_optional {names : List StepName} (hnodup : names.Nodup)
    (hlive : StepName.liveHardDelete ∉ names) (w : Work A)
    (hnot : (w.wf.steps .liveHardDelete).status ≠ .done) :
    AfterLive (hookCalls (names.map (optionalStage call)) w) ↔
      ∀ name ∈ names, w.wf.requires name = true → (w.wf.steps name).status ≠ .done →
        call.hook name = none := by
  induction names generalizing w with
  | nil => simp [hookCalls, afterLive_nil]
  | cons name rest ih =>
    have hname : name ≠ .liveHardDelete := fun h => hlive (h ▸ List.mem_cons_self)
    obtain ⟨hfresh, hnodup⟩ := List.nodup_cons.mp hnodup
    by_cases hquiet : w.wf.requires name = true → (w.wf.steps name).status ≠ .done →
        call.hook name = none
    · obtain ⟨w', hw', hleaves⟩ := optionalStage_quiet hquiet
      have hnew : newCalls w w'.invoked = [] := by simp [newCalls, hleaves.invoked]
      have hnot' : (w'.wf.steps .liveHardDelete).status ≠ .done := by
        rwa [hleaves.steps _ (Ne.symm hname)]
      simp only [List.map_cons, hookCalls, hw', hnew, List.nil_append, List.forall_mem_cons]
      rw [ih hnodup (fun h => hlive (List.mem_cons_of_mem name h)) w' hnot']
      have hrest : ∀ n ∈ rest, w'.wf.steps n = w.wf.steps n := fun n hn =>
        hleaves.steps n (fun h => hfresh (h ▸ hn))
      constructor
      · refine fun h => ⟨hquiet, fun n hn hreq hstep => h n hn ?_ ?_⟩
        · rwa [hleaves.requires]
        · rwa [hrest n hn]
      · refine fun h n hn hreq hstep => h.2 n hn ?_ ?_
        · rwa [hleaves.requires] at hreq
        · rwa [hrest n hn] at hstep
    · -- this hook is called now, with the live step not done
      simp only [List.forall_mem_cons, hquiet, false_and, iff_false]
      intro hafter
      have hcall : (⟨name, (w.wf.steps .liveHardDelete).status⟩ : HookCall) ∈
          hookCalls ((name :: rest).map (optionalStage call)) w := by
        push Not at hquiet
        have hinv := optionalStage_calls hquiet.1 hquiet.2.1 hquiet.2.2
        simp only [List.map_cons, hookCalls]
        rcases hw : optionalStage call name w with invoked | w'
        · rw [hw] at hinv
          obtain rfl : invoked = w.invoked ++ [name] := hinv
          simp [newCalls]
        · rw [hw] at hinv
          have hinv' : w'.invoked = w.invoked ++ [name] := hinv
          simp [newCalls, hinv']
      exact hnot (hafter _ hcall hname)

theorem mirrorResidualFromReceipt_leaves (w : Work A) :
    ∃ w', mirrorResidualFromReceipt w = .ok w' ∧ Leaves .residualProof w w' := by
  unfold mirrorResidualFromReceipt
  dsimp only
  split
  · exact ⟨w, rfl, rfl, fun _ _ => rfl, fun _ => rfl⟩
  · refine ⟨_, rfl, rfl, ?_, ?_⟩
    · intro n hn
      dsimp only
      split
      · simp [hn]
      · split <;> simp [hn]
    · intro n
      dsimp only
      split
      · simp
      · split <;> simp

/-- A live delete that runs and returns or raises. -/
theorem runLiveDelete_runs (call : Advance A) (hnot : (w.wf.steps .liveHardDelete).status ≠ .done)
    (hesc : call.delete ≠ .escapes) :
    ∃ w', runLiveDelete call.delete w = .ok w' ∧ w'.invoked = w.invoked ++ [.liveHardDelete] ∧
      (∀ n, n ≠ .liveHardDelete → w'.wf.steps n = w.wf.steps n) ∧
      (∀ n, w'.wf.requires n = w.wf.requires n) ∧
      ((w'.wf.steps .liveHardDelete).status = .done ↔
        ∃ r, call.delete = .returns r ∧ r.success = true) := by
  unfold runLiveDelete
  rw [if_neg hnot]
  rcases hdelete : call.delete with r | text | _
  · refine ⟨_, rfl, rfl, ?_, ?_, ?_⟩
    · intro n hn
      unfold recordReceipt
      cases r.success <;> simp [hn]
    · intro n
      unfold recordReceipt
      cases r.success <;> cases n <;> rfl
    · unfold recordReceipt
      cases hsucc : r.success <;> simp [hsucc]
  · refine ⟨_, rfl, rfl, ?_, ?_, ?_⟩
    · intro n hn
      simp [recordFailure, hn]
    · intro n
      simp [recordFailure]
    · simp [recordFailure]
  · exact absurd hdelete hesc

theorem safe_stageList (call : Advance A) :
    ∀ stage ∈ stageList call, ∀ w, Safe w (stage w) := by
  intro stage hstage w
  simp only [stageList, List.mem_cons, List.mem_map] at hstage
  rcases hstage with rfl | rfl | ⟨name, hname, rfl⟩
  · exact safe_runLiveDelete call.delete w
  · exact safe_mirrorResidualFromReceipt w
  · refine safe_optionalStage ?_ w
    rintro rfl
    simp [hookOrder] at hname

theorem mem_hookOrder_of_requires {wf : ErasureWorkflow A} {name : StepName}
    (h : wf.requires name = true) : name ∈ hookOrder := by
  cases name <;> first | cases h | simp [hookOrder]

/-- After a live delete that failed the hooks are in order exactly if there is none to
call. -/
theorem afterLive_failed (call : Advance A) (w : Work A)
    (hnot : (w.wf.steps .liveHardDelete).status ≠ .done) :
    AfterLive (hookCalls (mirrorResidualFromReceipt :: hookOrder.map (optionalStage call)) w) ↔
      ∀ name, w.wf.requires name = true → (w.wf.steps name).status ≠ .done →
        call.hook name = none := by
  obtain ⟨w', hmirror, hleaves⟩ := mirrorResidualFromReceipt_leaves w
  have hnone : newCalls w w'.invoked = [] := by simp [newCalls, hleaves.invoked]
  have hopt : ∀ n ∈ hookOrder, w'.wf.steps n = w.wf.steps n := by
    intro n hn
    refine hleaves.steps n ?_
    rintro rfl
    simp [hookOrder] at hn
  simp only [hookCalls, hmirror, hnone, List.nil_append]
  rw [afterLive_optional (by decide) (by decide) w' (by rwa [hleaves.steps _ (by decide)])]
  constructor
  · intro h n hn hstep
    have hmem := mem_hookOrder_of_requires hn
    exact h n hmem (by rwa [hleaves.requires]) (by rwa [hopt n hmem])
  · intro h n hmem hn hstep
    rw [hleaves.requires] at hn
    rw [hopt n hmem] at hstep
    exact h n hn hstep

/-- **One advance**: the hooks it calls see the live step done exactly if it is `Ordered`. -/
theorem afterLive_advance (saved : ErasureWorkflow A) (call : Advance A) :
    AfterLive (advanceCalls saved call) ↔ Ordered saved call := by
  unfold advanceCalls Ordered
  by_cases hcomplete : saved.status = .complete
  · rw [if_pos hcomplete]
    exact iff_of_true afterLive_nil (Or.inl hcomplete)
  · rw [if_neg hcomplete]
    simp only [hcomplete, false_or]
    by_cases hdone : (saved.steps .liveHardDelete).status = .done
    · exact iff_of_true (afterLive_of_done (safe_stageList call) _ hdone) (Or.inl hdone)
    · simp only [hdone, false_or]
      by_cases hesc : call.delete = .escapes
      · refine iff_of_true ?_ (Or.inr (Or.inl hesc))
        simp only [stageList, hookCalls, runLiveDelete, if_neg hdone, hesc]
        simp [AfterLive, newCalls]
      · simp only [hesc, false_or]
        obtain ⟨w, hlive, hinv, hsteps, hreq, hstatus⟩ := runLiveDelete_runs
          (w := ⟨{ saved with status := .inProgress }, []⟩) call hdone hesc
        have hnew : AfterLive (newCalls (⟨{ saved with status := .inProgress }, []⟩ : Work A)
            w.invoked) := by
          simp [AfterLive, newCalls, hinv]
        rw [stageList, hookCalls, hlive, afterLive_append]
        simp only [hnew, true_and]
        by_cases hsucc : ∃ r, call.delete = .returns r ∧ r.success = true
        · refine iff_of_true (afterLive_of_done ?_ w (hstatus.mpr hsucc)) (Or.inl hsucc)
          exact fun stage hstage => safe_stageList call stage (List.mem_cons_of_mem _ hstage)
        · rw [afterLive_failed call w (hstatus.not.mpr hsucc)]
          simp only [hsucc, false_or]
          -- the live delete left the other steps and the policy alone
          refine forall_congr' fun n => ?_
          have hpolicy : w.wf.requires n = saved.requires n := by
            rw [hreq]
            cases n <;> rfl
          by_cases hn : n = .liveHardDelete
          · subst hn
            simp [ErasureWorkflow.requires]
          · rw [hpolicy, hsteps n hn]

/-- **No hook runs ahead of the live erasure** in a run exactly if every advance of the
run is `Ordered` when it starts. -/
theorem hooks_after_live_iff (json : Json A) (saved : ErasureWorkflow A)
    (calls : List (Advance A)) :
    AfterLive (advanceAllCalls json saved calls) ↔
      ∀ earlier call later, calls = earlier ++ call :: later →
        Ordered (advanceAll json saved earlier).1 call := by
  induction calls generalizing saved with
  | nil => simp [advanceAllCalls, afterLive_nil]
  | cons call calls ih =>
    rw [advanceAllCalls, afterLive_append, afterLive_advance, ih]
    constructor
    · rintro ⟨hfirst, hrest⟩ earlier call' later heq
      rcases earlier with _ | ⟨first, earlier⟩
      · obtain ⟨rfl, -⟩ := List.cons.inj heq
        exact hfirst
      · obtain ⟨rfl, hcalls⟩ := List.cons.inj heq
        exact hrest earlier call' later hcalls
    · intro h
      refine ⟨h [] call calls rfl, fun earlier call' later heq => ?_⟩
      exact h (call :: earlier) call' later (by rw [heq]; rfl)

/-- A ticket that requires the crypto shred. -/
def shredTicket : ErasureWorkflow Unit :=
  create "r" "users" ["alice"] none false true false false

/-- The erase reports a failure, and the keys are shredded all the same. -/
theorem shred_ahead_of_live :
    advanceAllCalls ⟨fun _ => true, id⟩ shredTicket
        [⟨.returns ⟨false, "failed", false, [], 0, ["refused"], none⟩,
          fun name => if name = .cryptoShred then some (.returns ()) else none, false⟩] =
      [⟨.liveHardDelete, .pending⟩, ⟨.cryptoShred, .failed⟩] := by
  decide

end Order

end Workflow

end Unlearning
