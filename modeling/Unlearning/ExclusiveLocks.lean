import Mathlib.Data.List.Nodup
import Mathlib.Logic.Function.Basic
import Unlearning.Search

/-!
# Exclusive guards over stripes (`src/neighborhood_locks.hpp`, `ExclusiveGuard`)

A guard takes its stripes one by one in ascending order, and gives them back when it is released,
assigned to or destroyed; a move hands them on. The state of a run is that of the stripes and of
every guard object so far (a destroyed or moved-from guard is an empty one), with the stripes taken
and the calls of `unlock` in order.

* `Owned`: what was taken has been unlocked once or is held by one guard, in every run.
* `acquireExclusive_contended`: a stripe that cannot be had. The stripes taken before are given
  back, but the rollback also resets the guard's manager pointer, and the message of the exception
  is built from it.
* `acquireExclusive_exclusive_iff` puts the two together.

Other holders of a stripe do not move during a call: a stripe that they hold stays held until the
timeout.
-/

namespace Unlearning

/-! ## Stripes -/

/-- A `std::shared_timed_mutex`. -/
inductive StripeState : Type where
  | free
  | shared (readers : ℕ)
  | exclusive
  deriving DecidableEq

/-- The stripes of a pool. -/
abbrev Stripes := ℕ → StripeState

/-- `try_lock_for` -/
def Stripes.tryLockFor (σ : Stripes) (s : ℕ) : Option Stripes :=
  if σ s = .free then some (Function.update σ s .exclusive) else none

/-- `unlock` -/
def Stripes.unlock (σ : Stripes) (s : ℕ) : Stripes := Function.update σ s .free

/-- `std::unique` with the `erase` of its tail: of equal neighbours the first is kept. -/
def uniqueAdjacent : List ℕ → List ℕ
  | [] => []
  | [a] => [a]
  | a :: b :: rest =>
    if a = b then uniqueAdjacent (b :: rest) else a :: uniqueAdjacent (b :: rest)

/-- `unique_stripes` -/
def LockManager.uniqueStripes (m : LockManager) (nodes : List ℤ) : List ℕ :=
  uniqueAdjacent ((nodes.map m.stripeOf).mergeSort fun a b => decide (a ≤ b))

/-- How a call ends. -/
inductive GuardEnd (α : Type) : Type where
  | returns (a : α)
  | throws (e : NativeError)
  /-- a null pointer is dereferenced -/
  | nullDereference

/-! ## The guard -/

/-- `ExclusiveGuard`; a manager of `none` is a null pointer. -/
structure ExclusiveGuard where
  mgr : Option LockManager
  stripes : List ℕ
  locked : List ℕ

namespace ExclusiveGuard

/-- The default constructor, and what `release` and a move leave. -/
def empty : ExclusiveGuard := ⟨none, [], []⟩

/-- The calls of `unlock` that `release` makes, in reverse order of acquisition. -/
def unlocks (g : ExclusiveGuard) : List ℕ := match g.mgr with
  | some _ => g.locked.reverse
  | none => []

/-- `release` -/
def release (g : ExclusiveGuard) (σ : Stripes) : ExclusiveGuard × Stripes :=
  (empty, g.unlocks.foldl Stripes.unlock σ)

/-- The loop of the constructor over the stripes that are left. -/
def acquire (g : ExclusiveGuard) : List ℕ → Stripes → GuardEnd ExclusiveGuard × Stripes
  | [], σ => (.returns g, σ)
  | s :: rest, σ => match σ.tryLockFor s with
    | some σ' => acquire { g with locked := g.locked ++ [s] } rest σ'
    | none =>
      let rolledBack := g.release σ
      match rolledBack.1.mgr with
      | some m => (.throws ⟨.lockTimeout, "exclusive lock contention timeout on stripe "
          ++ toString s ++ " (timeout_ms=" ++ toString m.timeoutMs ++ ")"⟩, rolledBack.2)
      | none => (.nullDereference, rolledBack.2)

/-- The constructor. -/
def construct (mgr : Option LockManager) (stripes : List ℕ) (σ : Stripes) :
    GuardEnd ExclusiveGuard × Stripes :=
  if mgr.isNone || stripes.isEmpty then (.returns ⟨mgr, stripes, []⟩, σ)
  else acquire ⟨mgr, stripes, []⟩ stripes σ

end ExclusiveGuard

/-- `acquire_exclusive` -/
def LockManager.acquireExclusive (m : LockManager) (nodes : List ℤ) (σ : Stripes) :
    GuardEnd ExclusiveGuard × Stripes :=
  ExclusiveGuard.construct (some m) (m.uniqueStripes nodes) σ

/-! ## Runs over guard objects -/

/-- What code does with guards; a guard object is known by its number. -/
inductive GuardOp : Type where
  | construct
  | acquire (nodes : List ℤ)
  | release (x : ℕ)
  | moveConstruct (source : ℕ)
  | moveAssign (target source : ℕ)
  | destroy (x : ℕ)

/-- The stripes, every guard object so far, and what was taken and unlocked. -/
structure GuardHeap where
  stripes : Stripes
  guards : List ExclusiveGuard
  taken : List ℕ
  freed : List ℕ

namespace GuardHeap

/-- The guard with number `x`. -/
def guard (h : GuardHeap) (x : ℕ) : ExclusiveGuard := h.guards[x]?.getD .empty

/-- The stripes that guards hold. -/
def held (h : GuardHeap) : List ℕ := h.guards.flatMap ExclusiveGuard.locked

/-- `release` of a guard object. -/
def release (x : ℕ) (h : GuardHeap) : GuardHeap :=
  let released := (h.guard x).release h.stripes
  { h with
    stripes := released.2
    guards := h.guards.set x released.1
    freed := h.freed ++ (h.guard x).unlocks }

/-- One operation; `none` is a null pointer dereference. -/
def step (m : LockManager) : GuardOp → GuardHeap → Option GuardHeap
  | .construct, h => some { h with guards := h.guards ++ [.empty] }
  | .acquire nodes, h => match m.acquireExclusive nodes h.stripes with
    | (.returns g, σ) => some { h with
        stripes := σ
        guards := h.guards ++ [g]
        taken := h.taken ++ g.locked }
    | (.throws _, σ) => some { h with stripes := σ }
    | (.nullDereference, _) => none
  | .release x, h => some (h.release x)
  | .moveConstruct y, h => some { h with guards := h.guards.set y .empty ++ [h.guard y] }
  | .moveAssign x y, h =>
    -- a guard that was never made is assigned to by no program
    if x = y ∨ h.guards.length ≤ x then some h
    else
      let released := h.release x
      some { released with guards := (released.guards.set x (released.guard y)).set y .empty }
  | .destroy x, h => some (h.release x)

/-- A run. -/
def run (m : LockManager) : List GuardOp → GuardHeap → Option GuardHeap
  | [], h => some h
  | op :: ops, h => (h.step m op).bind (run m ops)

end GuardHeap

/-- The operations that destroy every guard object of a heap. -/
def destroyAll (h : GuardHeap) : List GuardOp := (List.range h.guards.length).map .destroy

/-! ## The stripes of a list of nodes -/

theorem mem_uniqueAdjacent {l : List ℕ} {a : ℕ} : a ∈ uniqueAdjacent l ↔ a ∈ l := by
  induction l using uniqueAdjacent.induct with
  | case1 => rfl
  | case2 b => rfl
  | case3 b rest ih =>
    rw [uniqueAdjacent, if_pos rfl, ih]
    simp
  | case4 b c rest hne ih =>
    rw [uniqueAdjacent, if_neg hne, List.mem_cons, ih]
    exact List.mem_cons.symm

/-- Of a sorted list each value is kept once. -/
theorem pairwise_uniqueAdjacent {l : List ℕ} (h : l.Pairwise (· ≤ ·)) :
    (uniqueAdjacent l).Pairwise (· < ·) := by
  induction l using uniqueAdjacent.induct with
  | case1 => exact List.Pairwise.nil
  | case2 b => exact List.pairwise_singleton _ _
  | case3 b rest ih =>
    rw [uniqueAdjacent, if_pos rfl]
    exact ih h.of_cons
  | case4 b c rest hne ih =>
    rw [uniqueAdjacent, if_neg hne]
    obtain ⟨hb, hrest⟩ := List.pairwise_cons.mp h
    refine List.pairwise_cons.mpr ⟨fun a ha => ?_, ih hrest⟩
    have hbc : b < c := lt_of_le_of_ne (hb c List.mem_cons_self) hne
    rcases List.mem_cons.mp (mem_uniqueAdjacent.mp ha) with rfl | ha
    · exact hbc
    · exact hbc.trans_le ((List.pairwise_cons.mp hrest).1 a ha)

namespace LockManager

variable {m : LockManager} {nodes : List ℤ}

theorem mem_uniqueStripes {s : ℕ} : s ∈ m.uniqueStripes nodes ↔ ∃ n ∈ nodes, m.stripeOf n = s := by
  rw [uniqueStripes, mem_uniqueAdjacent, List.mem_mergeSort, List.mem_map]

/-- The stripes are taken in ascending order, each once. -/
theorem pairwise_uniqueStripes (m : LockManager) (nodes : List ℤ) :
    (m.uniqueStripes nodes).Pairwise (· < ·) := by
  refine pairwise_uniqueAdjacent ((List.pairwise_mergeSort ?_ ?_ _).imp of_decide_eq_true)
  · intro a b c hab hbc
    exact decide_eq_true ((of_decide_eq_true hab).trans (of_decide_eq_true hbc))
  · intro a b
    rw [Bool.or_eq_true, decide_eq_true_iff, decide_eq_true_iff]
    exact Nat.le_total a b

theorem nodup_uniqueStripes (m : LockManager) (nodes : List ℤ) : (m.uniqueStripes nodes).Nodup :=
  (pairwise_uniqueStripes m nodes).imp fun h => h.ne

/-- The stripes are in the pool. -/
theorem lt_of_mem_uniqueStripes {poolSize : ℕ} {timeoutMs : ℤ} {s : ℕ}
    (h : s ∈ (ofPool poolSize timeoutMs).uniqueStripes nodes) :
    s < (ofPool poolSize timeoutMs).stripes := by
  obtain ⟨n, -, rfl⟩ := mem_uniqueStripes.mp h
  refine Nat.mod_lt _ ?_
  rw [ofPool]
  split
  · assumption
  · exact Nat.one_pos

end LockManager

/-! ## Taking the stripes -/

/-- The stripes with those of a list locked. -/
def Stripes.lockAll (σ : Stripes) (l : List ℕ) : Stripes :=
  fun s => if s ∈ l then .exclusive else σ s

/-- The stripes with those of a list free. -/
def Stripes.freeAll (σ : Stripes) (l : List ℕ) : Stripes :=
  fun s => if s ∈ l then .free else σ s

theorem foldl_unlock (l : List ℕ) (σ : Stripes) : l.foldl Stripes.unlock σ = σ.freeAll l := by
  induction l generalizing σ with
  | nil => rfl
  | cons a rest ih =>
    rw [List.foldl_cons, ih]
    funext s
    simp only [Stripes.freeAll, Stripes.unlock, Function.update_apply, List.mem_cons]
    split <;> split <;> simp_all

namespace ExclusiveGuard

theorem release_eq (g : ExclusiveGuard) (σ : Stripes) :
    g.release σ = (empty, σ.freeAll g.unlocks) := by
  rw [release, foldl_unlock]

/-- **No contention**: the guard takes all stripes. -/
theorem acquire_free {g : ExclusiveGuard} {l : List ℕ} {σ : Stripes} (hnd : l.Nodup)
    (hfree : ∀ s ∈ l, σ s = .free) :
    g.acquire l σ = (.returns { g with locked := g.locked ++ l }, σ.lockAll l) := by
  induction l generalizing g σ with
  | nil =>
    rw [acquire, List.append_nil]
    refine congrArg _ (funext fun s => ?_)
    simp [Stripes.lockAll]
  | cons s rest ih =>
    obtain ⟨hs, hrest⟩ := List.nodup_cons.mp hnd
    rw [acquire, Stripes.tryLockFor, if_pos (hfree s List.mem_cons_self)]
    dsimp only
    rw [ih hrest fun t ht => ?_]
    · have hlock : Stripes.lockAll (Function.update σ s .exclusive) rest =
          σ.lockAll (s :: rest) := by
        funext t
        simp only [Stripes.lockAll, Function.update_apply, List.mem_cons]
        split <;> split <;> simp_all
      rw [hlock, List.append_assoc, List.singleton_append]
    · rw [Function.update_of_ne (by rintro rfl; exact hs ht)]
      exact hfree t (List.mem_cons_of_mem s ht)

/-- **Contention**: the stripes taken so far are free again, and the message of the exception is
built from a null pointer. -/
theorem acquire_contended {g : ExclusiveGuard} {l : List ℕ} {σ : Stripes} {m : LockManager}
    (hm : g.mgr = some m) (hheld : ∃ s ∈ l, σ s ≠ .free) :
    g.acquire l σ = (.nullDereference, σ.freeAll g.locked) := by
  induction l generalizing g σ with
  | nil =>
    obtain ⟨s, hs, -⟩ := hheld
    cases hs
  | cons s rest ih =>
    rw [acquire, Stripes.tryLockFor]
    by_cases hs : σ s = .free
    · obtain ⟨t, ht, hheldt⟩ := hheld
      have hts : t ≠ s := by
        rintro rfl
        exact hheldt hs
      have hnext := ih (g := { g with locked := g.locked ++ [s] })
        (σ := Function.update σ s .exclusive) hm
        ⟨t, List.mem_of_ne_of_mem hts ht, by rwa [Function.update_of_ne hts]⟩
      rw [if_pos hs]
      refine hnext.trans (congrArg _ (funext fun r => ?_))
      simp only [Stripes.freeAll, Function.update_apply, List.mem_append, List.mem_singleton]
      by_cases hrs : r = s
      · rw [hrs, hs, if_pos (Or.inr rfl), ite_self]
      · simp [hrs]
    · rw [if_neg hs]
      dsimp only
      rw [release_eq]
      simp only [empty, unlocks, hm]
      refine congrArg _ (funext fun r => ?_)
      simp only [Stripes.freeAll, List.mem_reverse]

end ExclusiveGuard

namespace LockManager

variable {m : LockManager} {nodes : List ℤ} {σ : Stripes}

theorem acquireExclusive_free (hfree : ∀ s ∈ m.uniqueStripes nodes, σ s = .free) :
    m.acquireExclusive nodes σ = (.returns ⟨some m, m.uniqueStripes nodes, m.uniqueStripes nodes⟩,
      σ.lockAll (m.uniqueStripes nodes)) := by
  rw [acquireExclusive, ExclusiveGuard.construct]
  split
  · rename_i hempty
    have hnil : m.uniqueStripes nodes = [] := by simpa using hempty
    rw [hnil]
    refine congrArg _ (funext fun s => ?_)
    simp [Stripes.lockAll]
  · rw [ExclusiveGuard.acquire_free (nodup_uniqueStripes m nodes) hfree, List.nil_append]

theorem acquireExclusive_contended (hheld : ∃ s ∈ m.uniqueStripes nodes, σ s ≠ .free) :
    m.acquireExclusive nodes σ = (.nullDereference, σ) := by
  have hne : ¬((some m).isNone || (m.uniqueStripes nodes).isEmpty) = true := by
    obtain ⟨s, hs, -⟩ := hheld
    simpa using List.ne_nil_of_mem hs
  rw [acquireExclusive, ExclusiveGuard.construct, if_neg hne,
    ExclusiveGuard.acquire_contended rfl hheld]
  refine congrArg _ (funext fun r => ?_)
  simp [Stripes.freeAll]

end LockManager

/-! ## What guards hold -/

/-- The elements of a flat map over a list with one entry replaced. -/
theorem count_flatMap_set {α β : Type} [BEq β] [LawfulBEq β] (f : α → List β) (b : β) (a : α)
    (l : List α) {x : ℕ} (hx : x < l.length) :
    ((l.set x a).flatMap f).count b + (f l[x]).count b =
      (l.flatMap f).count b + (f a).count b := by
  induction l generalizing x with
  | nil => exact absurd hx (Nat.not_lt_zero x)
  | cons c rest ih =>
    cases x with
    | zero =>
      simp only [List.set_cons_zero, List.flatMap_cons, List.count_append, List.getElem_cons_zero]
      omega
    | succ y =>
      have hrest := ih (Nat.lt_of_succ_lt_succ hx)
      simp only [List.set_cons_succ, List.flatMap_cons, List.count_append,
        List.getElem_cons_succ]
      omega

namespace GuardHeap

variable {m : LockManager} {σ : Stripes} {h : GuardHeap} {s x y : ℕ} {g : ExclusiveGuard}

/-- What was taken is freed or held, a held stripe is held once, and the others are as they were. -/
structure Owned (σ : Stripes) (h : GuardHeap) : Prop where
  balance (s : ℕ) : h.freed.count s + h.held.count s = h.taken.count s
  managed (g : ExclusiveGuard) : g ∈ h.guards → g.unlocks = g.locked.reverse
  others (s : ℕ) : h.held.count s = 0 → h.stripes s = σ s
  owns (s : ℕ) : h.held.count s ≠ 0 → h.held.count s = 1 ∧ h.stripes s = .exclusive ∧ σ s = .free

theorem guard_of_lt (hx : x < h.guards.length) : h.guard x = h.guards[x] := by
  rw [guard, List.getElem?_eq_getElem hx, Option.getD_some]

theorem guard_of_le (hx : h.guards.length ≤ x) : h.guard x = .empty := by
  rw [guard, List.getElem?_eq_none hx, Option.getD_none]

/-- A guard gives up its stripes. -/
theorem count_held_clear (h : GuardHeap) (x s : ℕ) :
    ((h.guards.set x .empty).flatMap ExclusiveGuard.locked).count s +
      (h.guard x).locked.count s = h.held.count s := by
  by_cases hx : x < h.guards.length
  · have hset := count_flatMap_set ExclusiveGuard.locked s .empty h.guards hx
    rw [guard_of_lt hx]
    exact hset
  · rw [List.set_eq_of_length_le (Nat.le_of_not_lt hx), guard_of_le (Nat.le_of_not_lt hx)]
    rfl

theorem Owned.managed_guard (ho : Owned σ h) (x : ℕ) :
    (h.guard x).unlocks = (h.guard x).locked.reverse := by
  by_cases hx : x < h.guards.length
  · rw [guard_of_lt hx]
    exact ho.managed _ (List.getElem_mem hx)
  · rw [guard_of_le (Nat.le_of_not_lt hx)]
    rfl

theorem Owned.managed_clear (ho : Owned σ h) (x : ℕ) :
    ∀ g ∈ h.guards.set x .empty, g.unlocks = g.locked.reverse := by
  intro g hg
  rcases List.mem_or_eq_of_mem_set hg with hg | rfl
  · exact ho.managed g hg
  · rfl

/-- **Hand on**: guards may hold the same stripes in another way. -/
theorem Owned.handOn (ho : Owned σ h) {guards : List ExclusiveGuard}
    (hmanaged : ∀ g ∈ guards, g.unlocks = g.locked.reverse)
    (hcount : ∀ s, (guards.flatMap ExclusiveGuard.locked).count s = h.held.count s) :
    Owned σ { h with guards := guards } where
  balance s := by
    rw [← ho.balance s, ← hcount s]
    rfl
  managed := hmanaged
  others s hs := ho.others s ((hcount s).symm.trans hs)
  owns s hs := by
    have howns := ho.owns s fun hzero => hs ((hcount s).trans hzero)
    exact ⟨(hcount s).trans howns.1, howns.2⟩

/-- **Release**: what the guard held is free again, and it holds nothing. -/
theorem Owned.release (ho : Owned σ h) (x : ℕ) : Owned σ (h.release x) := by
  have hclear := count_held_clear h x
  have hunlocks : ∀ s, (h.guard x).unlocks.count s = (h.guard x).locked.count s := by
    intro s
    rw [ho.managed_guard x, List.count_reverse]
  have hmem : ∀ s, s ∈ (h.guard x).unlocks ↔ 0 < (h.guard x).locked.count s := by
    intro s
    rw [ho.managed_guard x, List.mem_reverse, List.count_pos_iff]
  refine ⟨fun s => ?_, ho.managed_clear x, fun s hs => ?_, fun s hs => ?_⟩
  · have hbalance := ho.balance s
    change (h.freed ++ (h.guard x).unlocks).count s +
      ((h.guards.set x .empty).flatMap ExclusiveGuard.locked).count s = h.taken.count s
    rw [List.count_append, hunlocks s]
    have hs := hclear s
    omega
  · change ((h.guards.set x .empty).flatMap ExclusiveGuard.locked).count s = 0 at hs
    change ((h.guard x).release h.stripes).2 s = σ s
    have hsum := hclear s
    rw [ExclusiveGuard.release_eq]
    simp only [Stripes.freeAll]
    split
    · rename_i hin
      have hpos := (hmem s).mp hin
      exact (ho.owns s (by omega)).2.2.symm
    · rename_i hout
      have hzero : (h.guard x).locked.count s = 0 := by
        by_contra hne
        exact hout ((hmem s).mpr (Nat.pos_of_ne_zero hne))
      exact ho.others s (by omega)
  · change ((h.guards.set x .empty).flatMap ExclusiveGuard.locked).count s ≠ 0 at hs
    change ((h.guards.set x .empty).flatMap ExclusiveGuard.locked).count s = 1 ∧
      ((h.guard x).release h.stripes).2 s = .exclusive ∧ σ s = .free
    have hsum := hclear s
    have howns := ho.owns s (by omega)
    refine ⟨by omega, ?_, howns.2.2⟩
    rw [ExclusiveGuard.release_eq]
    simp only [Stripes.freeAll]
    rw [if_neg]
    · exact howns.2.1
    · intro hin
      have hpos := (hmem s).mp hin
      omega

/-- **Acquire**: the stripes were free, so no guard held them. -/
theorem Owned.acquire (ho : Owned σ h) {l : List ℕ} (hnd : l.Nodup)
    (hfree : ∀ s ∈ l, h.stripes s = .free) (stripes : List ℕ) :
    Owned σ ⟨h.stripes.lockAll l, h.guards ++ [⟨some m, stripes, l⟩], h.taken ++ l, h.freed⟩ := by
  have hheld : ∀ s, ((h.guards ++ [(⟨some m, stripes, l⟩ : ExclusiveGuard)]).flatMap
      ExclusiveGuard.locked).count s = h.held.count s + l.count s := by
    intro s
    rw [List.flatMap_append, List.count_append]
    simp [held]
  have hnew : ∀ s ∈ l, h.held.count s = 0 := by
    intro s hs
    by_contra hne
    exact StripeState.noConfusion ((ho.owns s hne).2.1.symm.trans (hfree s hs))
  refine ⟨fun s => ?_, fun g hg => ?_, fun s hs => ?_, fun s hs => ?_⟩
  · rw [held, hheld s, List.count_append, ← ho.balance s, Nat.add_assoc]
  · rcases List.mem_append.mp hg with hg | hg
    · exact ho.managed g hg
    · rw [List.mem_singleton.mp hg]
      rfl
  · rw [held, hheld s] at hs
    have hout : s ∉ l := List.count_eq_zero.mp (by omega)
    exact (if_neg hout).trans (ho.others s (by omega))
  · rw [held, hheld s] at hs ⊢
    by_cases hin : s ∈ l
    · have hzero := hnew s hin
      refine ⟨?_, if_pos hin, (ho.others s hzero).symm.trans (hfree s hin)⟩
      rw [hzero, List.count_eq_one_of_mem hnd hin]
    · have hzero := List.count_eq_zero.mpr hin
      have howns := ho.owns s (by omega)
      exact ⟨by omega, (if_neg hin).trans howns.2.1, howns.2.2⟩

/-- **Move construction** -/
theorem Owned.moveConstruct (ho : Owned σ h) (y : ℕ) :
    Owned σ { h with guards := h.guards.set y .empty ++ [h.guard y] } := by
  refine ho.handOn (fun g hg => ?_) fun s => ?_
  · rcases List.mem_append.mp hg with hg | hg
    · exact ho.managed_clear y g hg
    · rw [List.mem_singleton.mp hg]
      exact ho.managed_guard y
  · rw [List.flatMap_append, List.count_append, ← count_held_clear h y s]
    simp

/-- **Move assignment**, after the release of the target. -/
theorem Owned.moveAssign (ho : Owned σ h) (hxy : x ≠ y) (hx : x < h.guards.length)
    (hempty : (h.guard x).locked = []) :
    Owned σ { h with guards := (h.guards.set x (h.guard y)).set y .empty } := by
  refine ho.handOn (fun g hg => ?_) fun s => ?_
  · rcases List.mem_or_eq_of_mem_set hg with hg | rfl
    · rcases List.mem_or_eq_of_mem_set hg with hg | rfl
      · exact ho.managed g hg
      · exact ho.managed_guard y
    · rfl
  · have hgive := count_flatMap_set ExclusiveGuard.locked s (h.guard y) h.guards hx
    have htake := count_held_clear { h with guards := h.guards.set x (h.guard y) } y s
    have hsame : guard { h with guards := h.guards.set x (h.guard y) } y = h.guard y := by
      rw [guard, guard, List.getElem?_set_ne hxy]
    rw [← guard_of_lt hx, hempty, List.count_nil] at hgive
    rw [hsame] at htake
    simp only [held] at hgive htake ⊢
    omega

/-- **Step** -/
theorem Owned.step (ho : Owned σ h) {op : GuardOp} {h' : GuardHeap}
    (hstep : h.step m op = some h') : Owned σ h' := by
  cases op with
  | construct =>
    obtain rfl := Option.some.inj hstep
    refine ho.handOn (fun g hg => ?_) fun s => ?_
    · rcases List.mem_append.mp hg with hg | hg
      · exact ho.managed g hg
      · rw [List.mem_singleton.mp hg]
        rfl
    · rw [List.flatMap_append, List.count_append]
      rfl
  | acquire nodes =>
    by_cases hfree : ∀ s ∈ m.uniqueStripes nodes, h.stripes s = .free
    · rw [GuardHeap.step, LockManager.acquireExclusive_free hfree] at hstep
      obtain rfl := Option.some.inj hstep
      exact ho.acquire (LockManager.nodup_uniqueStripes m nodes) hfree _
    · push Not at hfree
      rw [GuardHeap.step, LockManager.acquireExclusive_contended hfree] at hstep
      cases hstep
  | release x =>
    obtain rfl := Option.some.inj hstep
    exact ho.release x
  | moveConstruct y =>
    obtain rfl := Option.some.inj hstep
    exact ho.moveConstruct y
  | moveAssign x y =>
    rw [GuardHeap.step] at hstep
    split at hstep
    · obtain rfl := Option.some.inj hstep
      exact ho
    · rename_i hne
      obtain rfl := Option.some.inj hstep
      obtain ⟨hxy, hx⟩ := not_or.mp hne
      have hlen : x < (h.release x).guards.length := by
        simpa [GuardHeap.release] using Nat.lt_of_not_le hx
      refine (ho.release x).moveAssign hxy hlen ?_
      rw [guard_of_lt hlen]
      simp [GuardHeap.release, ExclusiveGuard.release, ExclusiveGuard.empty]
  | destroy x =>
    obtain rfl := Option.some.inj hstep
    exact ho.release x

/-- **Run** -/
theorem Owned.run {ops : List GuardOp} {h' : GuardHeap} (ho : Owned σ h)
    (hrun : h.run m ops = some h') : Owned σ h' := by
  induction ops generalizing h with
  | nil =>
    obtain rfl := Option.some.inj hrun
    exact ho
  | cons op rest ih =>
    obtain ⟨h₁, hstep, hrest⟩ := Option.bind_eq_some_iff.mp hrun
    exact ih (ho.step hstep) hrest

/-- Only `acquire` can fail. -/
theorem run_isSome {ops : List GuardOp} (hops : ∀ nodes, .acquire nodes ∉ ops) (h : GuardHeap) :
    ∃ h', h.run m ops = some h' := by
  induction ops generalizing h with
  | nil => exact ⟨h, rfl⟩
  | cons op rest ih =>
    have hstep : ∃ h₁, h.step m op = some h₁ := by
      cases op with
      | acquire nodes => exact absurd List.mem_cons_self (hops nodes)
      | moveAssign x y =>
        rw [step]
        split
        · exact ⟨_, rfl⟩
        · exact ⟨_, rfl⟩
      | construct | release | moveConstruct | destroy => exact ⟨_, rfl⟩
    obtain ⟨h₁, hstep⟩ := hstep
    obtain ⟨h', hrest⟩ := ih (fun nodes hin => hops nodes (List.mem_cons_of_mem op hin)) h₁
    exact ⟨h', Option.bind_eq_some_iff.mpr ⟨h₁, hstep, hrest⟩⟩

theorem guard_release (h : GuardHeap) (x y : ℕ) :
    (h.release x).guard y = if x = y then .empty else h.guard y := by
  rw [guard, release]
  dsimp only
  rw [List.getElem?_set]
  split
  · split
    · rfl
    · rfl
  · rfl

/-- Destroyed guards hold nothing, and guards that held nothing still do not. -/
theorem run_destroy (l : List ℕ) (h : GuardHeap) :
    ∃ h', h.run m (l.map .destroy) = some h' ∧ h'.guards.length = h.guards.length ∧
      ∀ x, x ∈ l ∨ (h.guard x).locked = [] → (h'.guard x).locked = [] := by
  induction l generalizing h with
  | nil => exact ⟨h, rfl, rfl, fun x hx => hx.resolve_left (List.not_mem_nil)⟩
  | cons a rest ih =>
    obtain ⟨h', hrun, hlen, hnone⟩ := ih (h.release a)
    refine ⟨h', hrun, hlen.trans List.length_set, fun x hx => hnone x ?_⟩
    rw [guard_release]
    by_cases hax : a = x
    · exact Or.inr (by rw [if_pos hax]; rfl)
    · rw [if_neg hax]
      exact hx.imp_left fun hin => (List.mem_cons.mp hin).resolve_left (Ne.symm hax)

/-- **Destruction** of every guard: what was taken has been unlocked as often, and the stripes are
as they were. -/
theorem Owned.destroyAll (ho : Owned σ h) : ∃ h', h.run m (destroyAll h) = some h' ∧
    h'.freed.Perm h'.taken ∧ h'.stripes = σ := by
  obtain ⟨h', hrun, hlen, hnone⟩ := run_destroy (m := m) (List.range h.guards.length) h
  have ho' := ho.run hrun
  have hheld : h'.held = [] := by
    refine List.flatMap_eq_nil_iff.mpr fun g hg => ?_
    obtain ⟨x, hx, rfl⟩ := List.getElem_of_mem hg
    rw [← guard_of_lt hx]
    exact hnone x (Or.inl (List.mem_range.mpr (hlen ▸ hx)))
  refine ⟨h', hrun, List.perm_iff_count.mpr fun s => ?_, funext fun s => ?_⟩
  · rw [← ho'.balance s, hheld, List.count_nil, Nat.add_zero]
  · exact ho'.others s (by rw [hheld, List.count_nil])

end GuardHeap

/-! ## What callers of `acquire_exclusive` rely on -/

/-- A guard just acquired: it holds each stripe once, all in the pool, and however guards are moved
about, every stripe taken is unlocked once when they are gone. -/
structure LockManager.Grants (m : LockManager) (nodes : List ℤ) (σ : Stripes)
    (g : ExclusiveGuard) (σ' : Stripes) : Prop where
  locked : g.locked = m.uniqueStripes nodes
  nodup : g.locked.Nodup
  pool (s : ℕ) : s ∈ g.locked → s < m.stripes
  stripes : σ' = σ.lockAll g.locked
  runs (ops : List GuardOp) : (∀ nodes', .acquire nodes' ∉ ops) →
    ∃ h, GuardHeap.run m ops ⟨σ', [g], g.locked, []⟩ = some h
  once (ops : List GuardOp) (h : GuardHeap) :
    GuardHeap.run m ops ⟨σ', [g], g.locked, []⟩ = some h →
      (∀ s, h.freed.count s + h.held.count s = h.taken.count s ∧ h.held.count s ≤ 1) ∧
      ∃ h', h.run m (destroyAll h) = some h' ∧ h'.freed.Perm h'.taken ∧ h'.stripes = σ

/-- All stripes or none, and contention is reported. -/
structure LockManager.Exclusive (m : LockManager) (nodes : List ℤ) (σ : Stripes) : Prop where
  contended : (∃ s ∈ m.uniqueStripes nodes, σ s ≠ .free) →
    ∃ e, e.kind = .lockTimeout ∧ m.acquireExclusive nodes σ = (.throws e, σ)
  granted : (∀ s ∈ m.uniqueStripes nodes, σ s = .free) →
    ∃ g σ', m.acquireExclusive nodes σ = (.returns g, σ') ∧ m.Grants nodes σ g σ'

/-- The stripes of the guard are its own. -/
theorem LockManager.owned_acquired {m : LockManager} {nodes : List ℤ} {σ : Stripes}
    (hfree : ∀ s ∈ m.uniqueStripes nodes, σ s = .free) :
    GuardHeap.Owned σ ⟨σ.lockAll (m.uniqueStripes nodes),
      [⟨some m, m.uniqueStripes nodes, m.uniqueStripes nodes⟩], m.uniqueStripes nodes, []⟩ := by
  have hnone : GuardHeap.Owned σ ⟨σ, [], [], []⟩ :=
    ⟨fun _ => rfl, fun g hg => absurd hg List.not_mem_nil, fun _ _ => rfl,
      fun _ hs => absurd rfl hs⟩
  exact hnone.acquire (nodup_uniqueStripes m nodes) hfree _

theorem LockManager.grants_acquired {poolSize : ℕ} {timeoutMs : ℤ} {nodes : List ℤ} {σ : Stripes}
    (hfree : ∀ s ∈ (ofPool poolSize timeoutMs).uniqueStripes nodes, σ s = .free) :
    (ofPool poolSize timeoutMs).Grants nodes σ
      ⟨some (ofPool poolSize timeoutMs), (ofPool poolSize timeoutMs).uniqueStripes nodes,
        (ofPool poolSize timeoutMs).uniqueStripes nodes⟩
      (σ.lockAll ((ofPool poolSize timeoutMs).uniqueStripes nodes)) where
  locked := rfl
  nodup := nodup_uniqueStripes _ nodes
  pool _ := lt_of_mem_uniqueStripes
  stripes := rfl
  runs _ hops := GuardHeap.run_isSome hops _
  once ops h hrun := by
    have ho := (owned_acquired hfree).run hrun
    refine ⟨fun s => ⟨ho.balance s, ?_⟩, ho.destroyAll⟩
    by_cases hs : h.held.count s = 0
    · rw [hs]
      exact Nat.zero_le 1
    · exact Nat.le_of_eq (ho.owns s hs).1

/-- **All or nothing** holds of the guard exactly when there is no contention. -/
theorem acquireExclusive_exclusive_iff (poolSize : ℕ) (timeoutMs : ℤ) (nodes : List ℤ)
    (σ : Stripes) : (LockManager.ofPool poolSize timeoutMs).Exclusive nodes σ ↔
      ∀ s ∈ (LockManager.ofPool poolSize timeoutMs).uniqueStripes nodes, σ s = .free := by
  constructor
  · intro h
    by_contra hheld
    push Not at hheld
    obtain ⟨e, -, hthrows⟩ := h.contended hheld
    rw [LockManager.acquireExclusive_contended hheld] at hthrows
    cases hthrows
  · intro hfree
    refine ⟨fun hheld => ?_, fun _ =>
      ⟨_, _, LockManager.acquireExclusive_free hfree, LockManager.grants_acquired hfree⟩⟩
    obtain ⟨s, hs, hheld⟩ := hheld
    exact absurd (hfree s hs) hheld

/-- A reader holds the stripe of node 0. -/
theorem acquireExclusive_reader :
    ¬(LockManager.ofPool 64 50).Exclusive [0] (fun s => if s = 0 then .shared 1 else .free) := by
  have hheld : ∃ s ∈ (LockManager.ofPool 64 50).uniqueStripes [0],
      (fun s => if s = 0 then StripeState.shared 1 else .free) s ≠ .free :=
    ⟨0, LockManager.mem_uniqueStripes.mpr ⟨0, List.mem_singleton_self 0, by decide⟩, by decide⟩
  intro h
  obtain ⟨e, -, hthrows⟩ := h.contended hheld
  rw [LockManager.acquireExclusive_contended hheld] at hthrows
  cases hthrows

end Unlearning
