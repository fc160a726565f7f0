import Unlearning.ExclusiveLocks
import Unlearning.Trace
import Unlearning.WaitOrder

/-!
# Guards and cursors of many threads (`src/neighborhood_locks.hpp`)

Finitely many threads use one lock manager: an `ExclusiveGuard` over the stripes of a list of
nodes (a heal, `set_neighbors`, `overwrite_vector`), or a `SharedLockCursor` (a search; a single
`SharedGuard` is a cursor that enters once). A step is one call of a mutex: the threads
interleave between any two of them, and every timed acquisition may time out.

* `HeldBy`, `Orderly`: the invariant. The state of a stripe is what its holders make it, a guard
  takes its stripes in ascending order, and a cursor stands on the stripe that it holds.
* `guards_exclude`: what the guards are for.
* `stuck_has_descending_cursor` and `stuck_of_heal_and_search`: heals alone are never stuck; a
  heal and a search may be, until one of them times out.
-/

namespace Unlearning

/-! ## Shared holds -/

/-- The mutex with one reader more. -/
def StripeState.addReader : StripeState → StripeState
  | .free => .shared 1
  | .shared readers => .shared (readers + 1)
  | .exclusive => .exclusive

/-- The mutex with one reader less. -/
def StripeState.dropReader : StripeState → StripeState
  | .shared readers => if readers ≤ 1 then .free else .shared (readers - 1)
  | st => st

/-- `try_lock_shared_for` -/
def Stripes.tryLockSharedFor (σ : Stripes) (s : ℕ) : Option Stripes :=
  if σ s = .exclusive then none else some (Function.update σ s (σ s).addReader)

/-- `unlock_shared` -/
def Stripes.unlockShared (σ : Stripes) (s : ℕ) : Stripes :=
  Function.update σ s (σ s).dropReader

/-- `release` of a `SharedGuard` that holds a stripe or none. -/
def Stripes.dropShared (σ : Stripes) : Option ℕ → Stripes
  | some s => σ.unlockShared s
  | none => σ

/-! ## Threads -/

/-- Where a thread is in its calls of the lock manager. -/
inductive LockThread : Type where
  | idle
  /-- in the constructor of `ExclusiveGuard`: the stripes left to lock, and those locked -/
  | acquiring (nodes : List ℤ) (left locked : List ℕ)
  /-- with a guard over the nodes -/
  | guarding (nodes : List ℤ) (locked : List ℕ)
  /-- in `release`: the stripes left to unlock; `rollback` if an acquisition has failed -/
  | releasing (left : List ℕ) (rollback : Bool)
  /-- the message of the exception is built from the manager that the rollback has reset -/
  | nullDereference
  /-- with a cursor, between its calls -/
  | walking (guard : Option ℕ) (node : ℤ)
  /-- in the constructor of `SharedGuard` for `next` -/
  | reaching (guard : Option ℕ) (node next : ℤ)
  /-- the stripe of `next` is held too, and the one before not yet released -/
  | handing (guard : Option ℕ) (next : ℤ)
  /-- in the destructor of the cursor -/
  | leaving (guard : Option ℕ)
  deriving DecidableEq

/-- A step of a thread. -/
inductive LockStep : Type where
  | acquireExclusive (nodes : List ℤ)
  | lockNext
  | lockTimesOut
  | acquired
  | release
  | unlockNext
  | released
  | makeCursor
  | enter (node : ℤ)
  | advance (next : ℤ)
  | lockShared
  | sharedTimesOut
  | handOver
  | dropCursor
  | dropped
  deriving DecidableEq

namespace LockThread

/-- One step of a thread, with the stripes before and after; `none` if it is not where the
step starts, or waits for the stripe. -/
def step (m : LockManager) : LockStep → LockThread → Stripes → Option (LockThread × Stripes)
  | .acquireExclusive nodes, idle, σ => some (acquiring nodes (m.uniqueStripes nodes) [], σ)
  | .lockNext, acquiring nodes (s :: left) locked, σ =>
    (σ.tryLockFor s).map fun σ' => (acquiring nodes left (locked ++ [s]), σ')
  | .lockTimesOut, acquiring _ (_ :: _) locked, σ => some (releasing locked.reverse true, σ)
  | .acquired, acquiring nodes [] locked, σ => some (guarding nodes locked, σ)
  | .release, guarding _ locked, σ => some (releasing locked.reverse false, σ)
  | .unlockNext, releasing (s :: left) rollback, σ => some (releasing left rollback, σ.unlock s)
  | .released, releasing [] rollback, σ =>
    some (if rollback then nullDereference else idle, σ)
  | .makeCursor, idle, σ => some (walking none (-1), σ)
  | .enter n, walking guard _, σ => some (reaching none (-1) n, σ.dropShared guard)
  | .advance next, walking guard n, σ =>
    if guard.isSome ∧ m.stripeOf n = m.stripeOf next then some (walking guard next, σ)
    else some (reaching guard n next, σ)
  | .lockShared, reaching guard _ next, σ =>
    (σ.tryLockSharedFor (m.stripeOf next)).map fun σ' => (handing guard next, σ')
  | .sharedTimesOut, reaching guard _ _, σ => some (leaving guard, σ)
  | .handOver, handing guard next, σ =>
    some (walking (some (m.stripeOf next)) next, σ.dropShared guard)
  | .dropCursor, walking guard _, σ => some (leaving guard, σ)
  | .dropped, leaving guard, σ => some (idle, σ.dropShared guard)
  | _, _, _ => none

/-- Several steps of a thread. -/
def run (m : LockManager) : List LockStep → LockThread → Stripes → Option (LockThread × Stripes)
  | [], t, σ => some (t, σ)
  | a :: steps, t, σ => (t.step m a σ).bind fun r => run m steps r.1 r.2

/-- The stripes that the thread holds exclusively. -/
def exclusives : LockThread → List ℕ
  | acquiring _ _ locked => locked
  | guarding _ locked => locked
  | releasing left _ => left
  | _ => []

/-- The stripes that the thread holds shared. -/
def shareds (m : LockManager) : LockThread → List ℕ
  | walking guard _ => guard.toList
  | reaching guard _ _ => guard.toList
  | handing guard next => guard.toList ++ [m.stripeOf next]
  | leaving guard => guard.toList
  | _ => []

/-- The stripe that the thread holds, in one mode or the other. -/
def Holds (m : LockManager) (t : LockThread) (s : ℕ) : Prop :=
  s ∈ t.exclusives ∨ s ∈ t.shareds m

/-- The stripe that the thread is about to take. -/
def wants (m : LockManager) : LockThread → Option ℕ
  | acquiring _ (s :: _) _ => some s
  | reaching _ _ next => some (m.stripeOf next)
  | _ => none

end LockThread

/-! ## The system -/

/-- The stripes of a manager and its threads. -/
structure GuardSystem (T : Type) where
  stripes : Stripes
  threads : T → LockThread

namespace GuardSystem

variable {T : Type} [DecidableEq T]

/-- No thread has called anything. -/
def initial : GuardSystem T := ⟨fun _ => .free, fun _ => .idle⟩

/-- One step of one thread. -/
def perform (m : LockManager) (g : GuardSystem T) (a : T × LockStep) : Option (GuardSystem T) :=
  ((g.threads a.1).step m a.2 g.stripes).map fun r => ⟨r.2, Function.update g.threads a.1 r.1⟩

/-- The step relation of the system. -/
def Step (m : LockManager) (g : GuardSystem T) (a : T × LockStep) (g' : GuardSystem T) : Prop :=
  g.perform m a = some g'

/-- Steps of one thread alone are a run of the system. -/
theorem trace_of_run {m : LockManager} (t : T) {steps : List LockStep} {g : GuardSystem T}
    {l : LockThread} {σ : Stripes}
    (h : LockThread.run m steps (g.threads t) g.stripes = some (l, σ)) :
    Trace (Step m) g (steps.map fun a => (t, a)) ⟨σ, Function.update g.threads t l⟩ := by
  induction steps generalizing g with
  | nil =>
    obtain ⟨rfl, rfl⟩ := Prod.mk.inj (Option.some.inj h)
    rw [Function.update_eq_self]
    exact .nil g
  | cons a steps ih =>
    obtain ⟨⟨l', σ'⟩, hstep, hrest⟩ := Option.bind_eq_some_iff.mp h
    refine .cons (t := ⟨σ', Function.update g.threads t l'⟩) ?_ ?_
    · rw [Step, perform, hstep]
      rfl
    · have htail := ih (g := ⟨σ', Function.update g.threads t l'⟩)
        (by simpa using hrest)
      rwa [Function.update_idem] at htail

end GuardSystem

/-! ## A call while no other thread moves -/

namespace LockThread

/-- `release` unlocks one stripe after the other. -/
theorem run_unlock (m : LockManager) (l : List ℕ) (rollback : Bool) (rest : List LockStep)
    (σ : Stripes) :
    run m (List.replicate l.length .unlockNext ++ rest) (releasing l rollback) σ =
      run m rest (releasing [] rollback) (l.foldl Stripes.unlock σ) := by
  induction l generalizing σ with
  | nil => rfl
  | cons s l ih => exact ih (σ.unlock s)

/-- The constructor of `ExclusiveGuard`, from any of its passes on. -/
theorem run_acquire (m : LockManager) (nodes : List ℤ) (left : List ℕ) {g : ExclusiveGuard}
    (hg : g.mgr = some m) (σ : Stripes) :
    match g.acquire left σ with
    | (.returns guard, σ') => ∃ steps,
        run m steps (acquiring nodes left g.locked) σ = some (guarding nodes guard.locked, σ')
    | (.throws _, _) => False
    | (.nullDereference, σ') => ∃ steps,
        run m steps (acquiring nodes left g.locked) σ = some (nullDereference, σ') := by
  induction left generalizing g σ with
  | nil => exact ⟨[.acquired], rfl⟩
  | cons s left ih =>
    rw [ExclusiveGuard.acquire]
    cases hlock : σ.tryLockFor s with
    | some σ' =>
      dsimp only
      have hnext := ih (g := { g with locked := g.locked ++ [s] }) hg σ'
      have hstep : ∀ steps, run m (.lockNext :: steps) (acquiring nodes (s :: left) g.locked) σ =
          run m steps (acquiring nodes left (g.locked ++ [s])) σ' := fun steps => by
        simp [run, step, hlock]
      split at hnext
      · obtain ⟨steps, hrun⟩ := hnext
        exact ⟨.lockNext :: steps, (hstep steps).trans hrun⟩
      · exact hnext
      · obtain ⟨steps, hrun⟩ := hnext
        exact ⟨.lockNext :: steps, (hstep steps).trans hrun⟩
    | none =>
      dsimp only [ExclusiveGuard.release, ExclusiveGuard.empty]
      rw [ExclusiveGuard.unlocks, hg]
      have hrollback : ∀ steps,
          run m (.lockTimesOut :: steps) (acquiring nodes (s :: left) g.locked) σ =
            run m steps (releasing g.locked.reverse true) σ := fun _ => rfl
      exact ⟨_, (hrollback _).trans (run_unlock m g.locked.reverse true [.released] σ)⟩

/-- **`acquire_exclusive`, step by step**: while no other thread moves, the steps come to what
the call comes to. -/
theorem run_acquireExclusive (m : LockManager) (nodes : List ℤ) (σ : Stripes) :
    match m.acquireExclusive nodes σ with
    | (.returns guard, σ') => ∃ steps,
        run m steps idle σ = some (guarding nodes guard.locked, σ')
    | (.throws _, _) => False
    | (.nullDereference, σ') => ∃ steps, run m steps idle σ = some (nullDereference, σ') := by
  have hcall : ∀ steps, run m (.acquireExclusive nodes :: steps) idle σ =
      run m steps (acquiring nodes (m.uniqueStripes nodes) []) σ := fun _ => rfl
  rw [LockManager.acquireExclusive, ExclusiveGuard.construct]
  by_cases hnil : m.uniqueStripes nodes = []
  · rw [if_pos (by simp [hnil])]
    exact ⟨[.acquireExclusive nodes, .acquired], by rw [hcall, hnil]; rfl⟩
  · rw [if_neg (by simpa using hnil)]
    have hacquire := run_acquire m nodes (m.uniqueStripes nodes)
      (g := ⟨some m, m.uniqueStripes nodes, []⟩) rfl σ
    split at hacquire
    · obtain ⟨steps, hrun⟩ := hacquire
      exact ⟨.acquireExclusive nodes :: steps, (hcall steps).trans hrun⟩
    · exact hacquire
    · obtain ⟨steps, hrun⟩ := hacquire
      exact ⟨.acquireExclusive nodes :: steps, (hcall steps).trans hrun⟩

end LockThread

/-! ## What one step does to a stripe -/

/-- What a step does to a stripe and to the holds that the thread has of it, exclusive and
shared. -/
inductive StripeMove : StripeState → StripeState → ℕ → ℕ → ℕ → ℕ → Prop where
  | stay (st e k) : StripeMove st st e k e k
  | lock (e k) : StripeMove .free .exclusive e k (e + 1) k
  | unlock (st e k) : StripeMove st .free (e + 1) k e k
  | lockShared (st e k) (h : st ≠ .exclusive) : StripeMove st st.addReader e k e (k + 1)
  | unlockShared (st e k) : StripeMove st st.dropReader e (k + 1) e k

/-- The stripe is as so many exclusive and shared holds make it. -/
def StripeState.HeldBy : StripeState → ℕ → ℕ → Prop
  | .free, e, k => e = 0 ∧ k = 0
  | .shared readers, e, k => e = 0 ∧ k = readers ∧ 0 < readers
  | .exclusive, e, k => e = 1 ∧ k = 0

/-- A step of one thread, beside the holds of the others. -/
theorem StripeMove.held {st st' : StripeState} {e k e' k' writers readers : ℕ}
    (h : StripeMove st st' e k e' k') (hheld : st.HeldBy (e + writers) (k + readers)) :
    st'.HeldBy (e' + writers) (k' + readers) := by
  cases h with
  | stay => exact hheld
  | lock => simp only [StripeState.HeldBy] at hheld ⊢; omega
  | unlock => cases st <;> simp only [StripeState.HeldBy] at hheld ⊢ <;> omega
  | lockShared _ _ _ hst =>
    cases st with
    | free => simp only [StripeState.HeldBy, StripeState.addReader] at hheld ⊢; omega
    | shared r => simp only [StripeState.HeldBy, StripeState.addReader] at hheld ⊢; omega
    | exclusive => exact absurd rfl hst
  | unlockShared =>
    cases st with
    | free => simp only [StripeState.HeldBy] at hheld; omega
    | shared r =>
      simp only [StripeState.dropReader]
      split <;> simp only [StripeState.HeldBy] at hheld ⊢ <;> omega
    | exclusive => simp only [StripeState.HeldBy] at hheld; omega

section Moves

variable {σ σ' : Stripes} {s r e k : ℕ}

theorem moves_tryLockFor (h : σ.tryLockFor s = some σ') :
    StripeMove (σ r) (σ' r) e k (e + if s = r then 1 else 0) k := by
  rw [Stripes.tryLockFor] at h
  split at h
  · rename_i hfree
    obtain rfl := Option.some.inj h
    by_cases hr : s = r
    · subst hr
      rw [hfree, Function.update_self, if_pos rfl]
      exact .lock e k
    · rw [Function.update_of_ne (Ne.symm hr), if_neg hr]
      exact .stay _ e k
  · cases h

theorem moves_unlock : StripeMove (σ r) (σ.unlock s r) (e + if s = r then 1 else 0) k e k := by
  rw [Stripes.unlock]
  by_cases hr : s = r
  · subst hr
    rw [Function.update_self, if_pos rfl]
    exact .unlock _ e k
  · rw [Function.update_of_ne (Ne.symm hr), if_neg hr]
    exact .stay _ e k

theorem moves_tryLockSharedFor (h : σ.tryLockSharedFor s = some σ') :
    StripeMove (σ r) (σ' r) e k e (k + if s = r then 1 else 0) := by
  rw [Stripes.tryLockSharedFor] at h
  split at h
  · cases h
  · rename_i hst
    obtain rfl := Option.some.inj h
    by_cases hr : s = r
    · subst hr
      rw [Function.update_self, if_pos rfl]
      exact .lockShared _ e k hst
    · rw [Function.update_of_ne (Ne.symm hr), if_neg hr]
      exact .stay _ e k

theorem moves_dropShared (guard : Option ℕ) :
    StripeMove (σ r) (σ.dropShared guard r) e (k + guard.toList.count r) e k := by
  cases guard with
  | none => exact .stay _ e k
  | some s =>
    rw [Stripes.dropShared, Stripes.unlockShared, Option.toList_some, List.count_singleton]
    by_cases hr : s = r
    · subst hr
      rw [Function.update_self, if_pos (beq_self_eq_true s)]
      exact .unlockShared _ e k
    · rw [Function.update_of_ne (Ne.symm hr), if_neg (by simpa using hr)]
      exact .stay _ e k

end Moves

namespace LockThread

variable {m : LockManager} {t t' : LockThread} {σ σ' : Stripes} {a : LockStep}

/-- **One step** moves every stripe as the holds of the thread change. -/
theorem step_moves (h : step m a t σ = some (t', σ')) (r : ℕ) :
    StripeMove (σ r) (σ' r) (t.exclusives.count r) ((t.shareds m).count r)
      (t'.exclusives.count r) ((t'.shareds m).count r) := by
  unfold step at h
  split at h
  case h_1 => -- acquireExclusive
    obtain ⟨rfl, rfl⟩ : _ = t' ∧ σ = σ' := by simpa using h
    exact .stay _ _ _
  case h_2 s left locked => -- lockNext
    obtain ⟨_, hlock, hr⟩ := Option.map_eq_some_iff.mp h
    obtain ⟨rfl, rfl⟩ := Prod.mk.inj hr
    simpa [exclusives, shareds, List.count_append, List.count_singleton] using
      moves_tryLockFor hlock
  case h_3 => -- lockTimesOut
    obtain ⟨rfl, rfl⟩ : _ = t' ∧ σ = σ' := by simpa using h
    simpa [exclusives, shareds] using StripeMove.stay _ _ _
  case h_4 => -- acquired
    obtain ⟨rfl, rfl⟩ : _ = t' ∧ σ = σ' := by simpa using h
    exact .stay _ _ _
  case h_5 => -- release
    obtain ⟨rfl, rfl⟩ : _ = t' ∧ σ = σ' := by simpa using h
    simpa [exclusives, shareds] using StripeMove.stay _ _ _
  case h_6 => -- unlockNext
    obtain ⟨rfl, rfl⟩ : _ = t' ∧ _ = σ' := by simpa using h
    simpa [exclusives, shareds, List.count_cons] using moves_unlock
  case h_7 => -- released
    obtain ⟨rfl, rfl⟩ : _ = t' ∧ σ = σ' := by simpa using h
    split <;> exact .stay _ _ _
  case h_8 => -- makeCursor
    obtain ⟨rfl, rfl⟩ : _ = t' ∧ σ = σ' := by simpa using h
    exact .stay _ _ _
  case h_9 guard _ => -- enter
    obtain ⟨rfl, rfl⟩ : _ = t' ∧ _ = σ' := by simpa using h
    simpa [exclusives, shareds] using moves_dropShared (e := 0) (k := 0) guard
  case h_10 => -- advance
    split at h <;>
    · obtain ⟨rfl, rfl⟩ : _ = t' ∧ σ = σ' := by simpa using h
      exact .stay _ _ _
  case h_11 => -- lockShared
    obtain ⟨_, hlock, hr⟩ := Option.map_eq_some_iff.mp h
    obtain ⟨rfl, rfl⟩ := Prod.mk.inj hr
    simpa [exclusives, shareds, List.count_append, List.count_singleton] using
      moves_tryLockSharedFor hlock
  case h_12 => -- sharedTimesOut
    obtain ⟨rfl, rfl⟩ : _ = t' ∧ σ = σ' := by simpa using h
    exact .stay _ _ _
  case h_13 guard next => -- handOver
    obtain ⟨rfl, rfl⟩ : _ = t' ∧ _ = σ' := by simpa using h
    simpa [exclusives, shareds, List.count_append, Nat.add_comm] using
      moves_dropShared (e := 0) (k := [m.stripeOf next].count r) guard
  case h_14 => -- dropCursor
    obtain ⟨rfl, rfl⟩ : _ = t' ∧ σ = σ' := by simpa using h
    exact .stay _ _ _
  case h_15 guard => -- dropped
    obtain ⟨rfl, rfl⟩ : _ = t' ∧ _ = σ' := by simpa using h
    simpa [exclusives, shareds] using moves_dropShared (e := 0) (k := 0) guard
  case h_16 => cases h

/-- Guards take their stripes in order, and a cursor is on the stripe that it holds. -/
def Orderly (m : LockManager) : LockThread → Prop
  | acquiring nodes left locked => locked ++ left = m.uniqueStripes nodes
  | guarding nodes locked => locked = m.uniqueStripes nodes
  | walking guard node => ∀ s ∈ guard, s = m.stripeOf node
  | reaching guard node next => ∀ s ∈ guard, s = m.stripeOf node ∧ s ≠ m.stripeOf next
  | handing guard next => ∀ s ∈ guard, s ≠ m.stripeOf next
  | _ => True

theorem Orderly.step (ht : t.Orderly m) (h : LockThread.step m a t σ = some (t', σ')) :
    t'.Orderly m := by
  unfold LockThread.step at h
  split at h
  case h_1 =>
    obtain ⟨rfl, -⟩ : _ = t' ∧ σ = σ' := by simpa using h
    rfl
  case h_2 s left locked =>
    obtain ⟨_, -, hr⟩ := Option.map_eq_some_iff.mp h
    obtain ⟨rfl, -⟩ := Prod.mk.inj hr
    rw [Orderly, List.append_assoc]
    exact ht
  case h_4 =>
    obtain ⟨rfl, -⟩ : _ = t' ∧ σ = σ' := by simpa using h
    rwa [Orderly, List.append_nil] at ht
  case h_7 =>
    obtain ⟨rfl, -⟩ : _ = t' ∧ σ = σ' := by simpa using h
    split <;> trivial
  case h_9 =>
    obtain ⟨rfl, -⟩ : _ = t' ∧ _ = σ' := by simpa using h
    intro s hs
    cases hs
  case h_10 guard n next =>
    split at h
    · rename_i hsame
      obtain ⟨rfl, -⟩ : _ = t' ∧ σ = σ' := by simpa using h
      exact fun s hs => (ht s hs).trans hsame.2
    · rename_i hother
      obtain ⟨rfl, -⟩ : _ = t' ∧ σ = σ' := by simpa using h
      refine fun s hs => ⟨ht s hs, fun heq => hother ⟨?_, (ht s hs).symm.trans heq⟩⟩
      exact Option.isSome_iff_exists.mpr ⟨s, hs⟩
  case h_11 =>
    obtain ⟨_, -, hr⟩ := Option.map_eq_some_iff.mp h
    obtain ⟨rfl, -⟩ := Prod.mk.inj hr
    exact fun s hs => (ht s hs).2
  case h_13 =>
    obtain ⟨rfl, -⟩ : _ = t' ∧ _ = σ' := by simpa using h
    intro s hs
    exact (Option.some.inj hs).symm
  case h_16 => cases h
  all_goals
    obtain ⟨rfl, -⟩ : _ = t' ∧ _ = σ' := by simpa using h
    first | trivial | exact fun s hs => by cases hs

/-- An orderly thread waits above what its guard holds, and beside what its cursor holds. -/
theorem Orderly.wants_ne (ht : t.Orderly m) {s r : ℕ} (hr : t.wants m = some r)
    (hs : t.Holds m s) : s < r ∨ ∃ n next, t = reaching (some s) n next ∧ s ≠ r := by
  cases t with
  | acquiring nodes left locked =>
    cases left with
    | nil => cases hr
    | cons x left =>
      obtain rfl : x = r := Option.some.inj hr
      refine Or.inl ?_
      have hsorted := m.pairwise_uniqueStripes nodes
      rw [← ht] at hsorted
      rcases hs with hs | hs
      · exact (List.pairwise_append.mp hsorted).2.2 s hs x List.mem_cons_self
      · cases hs
  | reaching guard n next =>
    obtain rfl : m.stripeOf next = r := Option.some.inj hr
    rcases hs with hs | hs
    · cases hs
    · obtain rfl : guard = some s := Option.mem_toList.mp hs
      exact Or.inr ⟨n, next, rfl, (ht s rfl).2⟩
  | _ => cases hr

end LockThread

/-! ## Every run -/

namespace GuardSystem

variable {T : Type} [Fintype T] {m : LockManager} {g g' : GuardSystem T}
  {as : List (T × LockStep)}

/-- The holds of a stripe in exclusive mode, over all threads. -/
def exclusiveHolds (g : GuardSystem T) (s : ℕ) : ℕ := ∑ t, (g.threads t).exclusives.count s

/-- The holds of a stripe in shared mode, over all threads. -/
def sharedHolds (m : LockManager) (g : GuardSystem T) (s : ℕ) : ℕ :=
  ∑ t, ((g.threads t).shareds m).count s

/-- **The invariant.** -/
structure Consistent (m : LockManager) (g : GuardSystem T) : Prop where
  held : ∀ s, (g.stripes s).HeldBy (g.exclusiveHolds s) (g.sharedHolds m s)
  orderly : ∀ t, (g.threads t).Orderly m

theorem consistent_initial : Consistent m (initial : GuardSystem T) where
  held s := by simp [initial, exclusiveHolds, sharedHolds, LockThread.exclusives,
    LockThread.shareds, StripeState.HeldBy]
  orderly _ := trivial

/-- A stripe that is held shared has readers, and no other hold. -/
theorem Consistent.read (hg : Consistent m g) {t : T} {s : ℕ}
    (ht : s ∈ (g.threads t).shareds m) : ∃ readers, g.stripes s = .shared readers := by
  have hone : 1 ≤ ((g.threads t).shareds m).count s := List.one_le_count_iff.mpr ht
  have hle := WaitOrder.le_sum (fun u => ((g.threads u).shareds m).count s) t
  have hheld := hg.held s
  cases hst : g.stripes s with
  | shared readers => exact ⟨readers, rfl⟩
  | _ =>
    rw [hst, StripeState.HeldBy, sharedHolds] at hheld
    omega

/-- The stripe of a node that a guard covers is held. -/
theorem Consistent.mem_exclusives (hg : Consistent m g) {t : T} {nodes : List ℤ}
    {locked : List ℕ} (ht : g.threads t = .guarding nodes locked) {n : ℤ} (hn : n ∈ nodes) :
    m.stripeOf n ∈ (g.threads t).exclusives := by
  have horderly := hg.orderly t
  rw [ht] at horderly ⊢
  rw [LockThread.exclusives, horderly]
  exact LockManager.mem_uniqueStripes.mpr ⟨n, hn, rfl⟩

variable [DecidableEq T]

/-- **A step keeps the invariant.** -/
theorem Consistent.step (hg : Consistent m g) {a : T × LockStep} (h : Step m g a g') :
    Consistent m g' := by
  obtain ⟨⟨t', σ'⟩, hstep, rfl⟩ := Option.map_eq_some_iff.mp h
  constructor
  · intro s
    obtain ⟨writers, hw, hw'⟩ := WaitOrder.sum_step
      (fun t : LockThread => t.exclusives.count s) g.threads a.1 t'
    obtain ⟨readers, hr, hr'⟩ := WaitOrder.sum_step
      (fun t : LockThread => (t.shareds m).count s) g.threads a.1 t'
    have hheld := hg.held s
    rw [exclusiveHolds, sharedHolds, hw, hr] at hheld
    rw [exclusiveHolds, sharedHolds, hw', hr']
    exact (LockThread.step_moves hstep s).held hheld
  · intro t
    dsimp only
    by_cases ht : t = a.1
    · subst ht
      rw [Function.update_self]
      exact (hg.orderly a.1).step hstep
    · rw [Function.update_of_ne ht]
      exact hg.orderly t

/-- **A run keeps the invariant.** -/
theorem consistent_of_trace (h : Trace (Step m) initial as g) : Consistent m g :=
  h.invariant (fun _ _ _ hs hst => hs.step hst) consistent_initial

/-- A stripe that is held exclusively has one hold. -/
theorem Consistent.alone (hg : Consistent m g) {t : T} {s : ℕ}
    (ht : s ∈ (g.threads t).exclusives) :
    g.stripes s = .exclusive ∧ ∀ u, u ≠ t → ¬ (g.threads u).Holds m s := by
  have hone : 1 ≤ (g.threads t).exclusives.count s := List.one_le_count_iff.mpr ht
  have hheld := hg.held s
  cases hst : g.stripes s with
  | free =>
    have hle := WaitOrder.le_sum (fun u => (g.threads u).exclusives.count s) t
    rw [hst, StripeState.HeldBy, exclusiveHolds] at hheld
    omega
  | shared readers =>
    have hle := WaitOrder.le_sum (fun u => (g.threads u).exclusives.count s) t
    rw [hst, StripeState.HeldBy, exclusiveHolds] at hheld
    omega
  | exclusive =>
    rw [hst, StripeState.HeldBy, exclusiveHolds, sharedHolds] at hheld
    refine ⟨rfl, fun u hne hu => ?_⟩
    rcases hu with hu | hu
    · have hle := WaitOrder.add_le_sum (fun v => (g.threads v).exclusives.count s) hne
      have := List.one_le_count_iff.mpr hu
      omega
    · have hle := WaitOrder.le_sum (fun v => ((g.threads v).shareds m).count s) u
      have := List.one_le_count_iff.mpr hu
      omega

/-- A stripe is free if and only if no thread holds it. -/
theorem Consistent.free_iff (hg : Consistent m g) (s : ℕ) :
    g.stripes s = .free ↔ ∀ t, ¬ (g.threads t).Holds m s := by
  constructor
  · rintro hfree t (ht | ht)
    · rw [(hg.alone ht).1] at hfree
      cases hfree
    · obtain ⟨readers, hst⟩ := hg.read ht
      rw [hst] at hfree
      cases hfree
  · intro hnone
    have hwriters : g.exclusiveHolds s = 0 :=
      Finset.sum_eq_zero fun t _ => List.count_eq_zero.mpr fun hs => hnone t (Or.inl hs)
    have hreaders : g.sharedHolds m s = 0 :=
      Finset.sum_eq_zero fun t _ => List.count_eq_zero.mpr fun hs => hnone t (Or.inr hs)
    have hheld := hg.held s
    rw [hwriters, hreaders] at hheld
    cases hst : g.stripes s with
    | free => rfl
    | _ =>
      rw [hst, StripeState.HeldBy] at hheld
      omega

/-- What the locks promise in one state. -/
structure Excluding (m : LockManager) (g : GuardSystem T) : Prop where
  /-- no two guards cover a node -/
  guards : ∀ t u, t ≠ u → ∀ nodes locked nodes' locked',
    g.threads t = .guarding nodes locked → g.threads u = .guarding nodes' locked' →
      ∀ n ∈ nodes, n ∉ nodes'
  /-- no cursor stands on a node that a guard covers, also while it reaches for the next one -/
  cursors : ∀ t u nodes locked s n next, g.threads t = .guarding nodes locked →
    g.threads u = .walking (some s) n ∨ g.threads u = .reaching (some s) n next → n ∉ nodes
  /-- what nobody holds can be had, and only that is free -/
  free : ∀ s, g.stripes s = .free ↔ ∀ t, ¬ (g.threads t).Holds m s
  /-- `unlock` and `unlock_shared` are called on what is held so -/
  unlocks : ∀ t s, (s ∈ (g.threads t).exclusives → g.stripes s = .exclusive) ∧
    (s ∈ (g.threads t).shareds m → ∃ readers, g.stripes s = .shared readers)

theorem Consistent.excluding (hg : Consistent m g) : Excluding m g := by
  refine ⟨?_, ?_, hg.free_iff, fun t s => ⟨fun hs => (hg.alone hs).1, hg.read⟩⟩
  · intro t u hne nodes locked nodes' locked' ht hu n hn hn'
    exact (hg.alone (hg.mem_exclusives ht hn)).2 u hne.symm
      (Or.inl (hg.mem_exclusives hu hn'))
  · intro t u nodes locked s n next ht hu hn
    have hstripe : s = m.stripeOf n ∧ s ∈ (g.threads u).shareds m := by
      have horderly := hg.orderly u
      rcases hu with hu | hu
      · rw [hu] at horderly ⊢
        exact ⟨horderly s rfl, List.mem_singleton_self s⟩
      · rw [hu] at horderly ⊢
        exact ⟨(horderly s rfl).1, List.mem_singleton_self s⟩
    obtain ⟨rfl, hread⟩ := hstripe
    obtain ⟨readers, hshared⟩ := hg.read hread
    rw [(hg.alone (hg.mem_exclusives ht hn)).1] at hshared
    cases hshared

/-- **Guards exclude**, in every state of every run: however the threads interleave and
whichever acquisitions time out. -/
theorem guards_exclude (h : Trace (Step m) initial as g) : Excluding m g :=
  (consistent_of_trace h).excluding

/-- A guard over node `0` and a cursor on node `1`. -/
theorem guards_exclude_two_threads : ∃ g : GuardSystem (Fin 2),
    g.threads 0 = .guarding [0] [0] ∧ g.threads 1 = .walking (some 1) 1 ∧
      Excluding (.ofPool 2 50) g := by
  have hguard : LockThread.run (.ofPool 2 50) [.acquireExclusive [0], .lockNext, .acquired] .idle
      (fun _ => .free) =
        some (.guarding [0] [0], Function.update (fun _ => .free) 0 .exclusive) := by
    simp [LockThread.run, LockThread.step, LockManager.uniqueStripes, LockManager.stripeOf, asSize,
      uniqueAdjacent, Stripes.tryLockFor]
  have hcursor : LockThread.run (.ofPool 2 50) [.makeCursor, .enter 1, .lockShared, .handOver] .idle
      (Function.update (fun _ => .free) 0 .exclusive) = some (.walking (some 1) 1,
        Function.update (Function.update (fun _ => .free) 0 .exclusive) 1 (.shared 1)) := rfl
  exact ⟨_, rfl, rfl, guards_exclude
    ((trace_of_run (g := initial) 0 hguard).append (trace_of_run 1 hcursor))⟩

end GuardSystem

/-! ## Waiting -/

/-- The thread gives up on a stripe. -/
def LockStep.isTimeout : LockStep → Bool
  | lockTimesOut => true
  | sharedTimesOut => true
  | _ => false

/-- The thread is in a call, or holds a guard or a cursor. -/
def LockThread.Busy (t : LockThread) : Prop := t ≠ idle ∧ t ≠ nullDereference

/-- A thread that cannot move waits for a stripe that is not free. -/
theorem LockThread.blocked {m : LockManager} {t : LockThread} {σ : Stripes} (hbusy : t.Busy)
    (hno : ∀ a : LockStep, a.isTimeout = false → t.step m a σ = none) :
    ∃ r, t.wants m = some r ∧ σ r ≠ .free := by
  cases t with
  | idle => exact absurd rfl hbusy.1
  | nullDereference => exact absurd rfl hbusy.2
  | acquiring nodes left locked =>
    cases left with
    | nil => exact absurd (hno .acquired rfl) (by simp [LockThread.step])
    | cons s left =>
      refine ⟨s, rfl, fun hfree => ?_⟩
      have hstep := hno .lockNext rfl
      simp [LockThread.step, Stripes.tryLockFor, hfree] at hstep
  | guarding => exact absurd (hno .release rfl) (by simp [LockThread.step])
  | releasing left rollback =>
    cases left with
    | nil => exact absurd (hno .released rfl) (by simp [LockThread.step])
    | cons s left => exact absurd (hno .unlockNext rfl) (by simp [LockThread.step])
  | walking => exact absurd (hno .dropCursor rfl) (by simp [LockThread.step])
  | reaching guard n next =>
    refine ⟨m.stripeOf next, rfl, fun hfree => ?_⟩
    have hstep := hno .lockShared rfl
    simp [LockThread.step, Stripes.tryLockSharedFor, hfree] at hstep
  | handing => exact absurd (hno .handOver rfl) (by simp [LockThread.step])
  | leaving => exact absurd (hno .dropped rfl) (by simp [LockThread.step])

namespace GuardSystem

variable {T : Type} {m : LockManager} {g : GuardSystem T} {as : List (T × LockStep)}

/-- Nothing can happen to the threads that are busy, and there is one, until an acquisition
times out. -/
def Stuck (m : LockManager) (g : GuardSystem T) : Prop :=
  (∃ t, (g.threads t).Busy) ∧ ∀ t, (g.threads t).Busy → ∀ a : LockStep, a.isTimeout = false →
    (g.threads t).step m a g.stripes = none

variable [DecidableEq T]

/-- **What it takes to be stuck**: a search that moves down, to a node of a lower stripe than
that of the node it is on. Guards, and searches that move up, are never stuck together. -/
theorem stuck_has_descending_cursor [Fintype T] (h : Trace (Step m) initial as g)
    (hstuck : Stuck m g) : ∃ t n next, g.threads t = .reaching (some (m.stripeOf n)) n next ∧
      m.stripeOf next < m.stripeOf n := by
  have hg := consistent_of_trace h
  have hblocked : WaitOrder.AllBlocked (fun t s => (g.threads t).Holds m s)
      (fun t r => (g.threads t).wants m = some r) {t | (g.threads t).Busy} := by
    intro t ht
    obtain ⟨r, hr, hheld⟩ := LockThread.blocked ht (hstuck.2 t ht)
    obtain ⟨u, hu⟩ := not_forall_not.mp (mt (hg.free_iff r).mpr hheld)
    refine ⟨r, hr, u, ⟨fun hidle => ?_, fun hnull => ?_⟩, hu⟩
    · rw [hidle] at hu
      rcases hu with hu | hu <;> cases hu
    · rw [hnull] at hu
      rcases hu with hu | hu <;> cases hu
  obtain ⟨t, -, s, r, hs, hr, hle⟩ := WaitOrder.exists_descent hstuck.1 hblocked
  rcases (hg.orderly t).wants_ne hr hs with hlt | ⟨n, next, heq, hne⟩
  · exact absurd hle hlt.not_ge
  · have horderly := hg.orderly t
    rw [heq] at horderly hr
    obtain rfl : m.stripeOf next = r := Option.some.inj hr
    obtain ⟨rfl, -⟩ := horderly s rfl
    exact ⟨t, n, next, heq, lt_of_le_of_ne hle hne.symm⟩

/-- **A heal and a search** that moves down do get stuck, in every pool of two stripes or more:
the heal has the lower stripe and waits for the higher one, and the search the other way
round. -/
theorem stuck_of_heal_and_search (hpool : 2 ≤ m.stripes) {t u : T} (hne : t ≠ u) :
    ∃ as, ∃ g : GuardSystem T, Trace (Step m) initial as g ∧ Stuck m g ∧
      g.threads t = .acquiring [0, 1] [1] [0] ∧ g.threads u = .reaching (some 1) 1 0 := by
  have h0 : m.stripeOf 0 = 0 := by simp [LockManager.stripeOf, asSize]
  have h1 : m.stripeOf 1 = 1 := by
    simp [LockManager.stripeOf, asSize, Nat.mod_eq_of_lt (show 1 < m.stripes by omega)]
  have hstripes : m.uniqueStripes [0, 1] = [0, 1] := by
    rw [LockManager.uniqueStripes, List.map_cons, List.map_singleton, h0, h1,
      List.mergeSort_of_pairwise (by decide)]
    rfl
  have hheal : LockThread.run m [.acquireExclusive [0, 1], .lockNext] .idle (fun _ => .free) =
      some (.acquiring [0, 1] [1] [0], Function.update (fun _ => .free) 0 .exclusive) := by
    simp [LockThread.run, LockThread.step, hstripes, Stripes.tryLockFor]
  have hsearch : LockThread.run m [.makeCursor, .enter 1, .lockShared, .handOver, .advance 0] .idle
      (Function.update (fun _ => .free) 0 .exclusive) = some (.reaching (some 1) 1 0,
        Function.update (Function.update (fun _ => .free) 0 .exclusive) 1 (.shared 1)) := by
    simp [LockThread.run, LockThread.step, h0, h1, Stripes.tryLockSharedFor, Stripes.dropShared,
      StripeState.addReader]
  have hrun := (trace_of_run (m := m) (g := initial) t hheal).append
    (trace_of_run u ((congrArg (fun l => LockThread.run m _ l _)
      (Function.update_of_ne hne.symm _ _)).trans hsearch))
  refine ⟨_, _, hrun, ⟨⟨u, ?_⟩, fun v hv a ha => ?_⟩, ?_, ?_⟩
  · simp [LockThread.Busy]
  · by_cases hvu : v = u
    · subst hvu
      cases a <;> simp_all [LockThread.step, Stripes.tryLockSharedFor, LockStep.isTimeout]
    · by_cases hvt : v = t
      · subst hvt
        cases a <;> simp_all [LockThread.step, Stripes.tryLockFor, LockStep.isTimeout]
      · simp [hvu, hvt, initial, LockThread.Busy] at hv
  · simp [hne]
  · simp

/-- **Deadlock**: the ascending order keeps heals from waiting for each other in a circle, and
searches that move up. A search that moves down can close the circle. -/
theorem deadlock_needs_descent [Fintype T] :
    (∀ as (g : GuardSystem T), Trace (Step m) initial as g → Stuck m g →
      ∃ t n next, g.threads t = .reaching (some (m.stripeOf n)) n next ∧
        m.stripeOf next < m.stripeOf n) ∧
    (2 ≤ m.stripes → ∀ t u : T, t ≠ u → ∃ as, ∃ g : GuardSystem T,
      Trace (Step m) initial as g ∧ Stuck m g ∧ g.threads t = .acquiring [0, 1] [1] [0] ∧
        g.threads u = .reaching (some 1) 1 0) :=
  ⟨fun _ _ => stuck_has_descending_cursor, fun hpool _ _ => stuck_of_heal_and_search hpool⟩

end GuardSystem

end Unlearning
