import Mathlib.Data.List.Basic

/-!
# Programs of atomic operations

A program is a tree of operations: each node performs one atomic operation on a
shared state and continues with its result or its exception. Several programs
run interleaved, one operation at a time, in any order.

* `Prog` is a monad with exceptions; `attempt` catches, `cleanup` is
  `try … finally`.
* `Machine` says what an operation does to the state; it may also be blocked.
* `wp` is a **rely/guarantee** precondition: between any two operations of the
  program the rest of the system may move the state along `rely`, every
  operation keeps the invariant and moves along `guar`. `wp_pool` is the parallel
  rule: threads whose guarantees imply each other's relies keep all their
  preconditions through every step of any of them.
* `Finishes` is total: alone, and as long as the environment is as assumed, the
  program comes to an end in the postcondition.
* `finish` runs a program to its end; `AllOps` and `finish_frame` say what such a
  run leaves alone.
-/

namespace Unlearning

/-- Programs that perform operations `Op` with results `Res`, raise `E` and
return `α`. -/
inductive Prog {Op : Type} (Res : Op → Type) (E : Type) (α : Type) : Type where
  | ret (a : α) : Prog Res E α
  | raise (e : E) : Prog Res E α
  | op (o : Op) (k : Except E (Res o) → Prog Res E α) : Prog Res E α

/-- What an operation of thread `i` does, given what the environment decides;
`none` if it is blocked. -/
structure Machine {Op : Type} (Res : Op → Type) (E Env S : Type) where
  exec : ℕ → (o : Op) → Env → S → Option (Except E (Res o) × S)

namespace Prog

variable {Op : Type} {Res : Op → Type} {E Env S α β : Type}

protected def bind : Prog Res E α → (α → Prog Res E β) → Prog Res E β
  | ret a, f => f a
  | raise e, _ => raise e
  | op o k, f => op o fun r => (k r).bind f

instance : Monad (Prog Res E) where
  pure := ret
  bind := Prog.bind

/-- Perform one operation; its exception propagates. -/
def call (o : Op) : Prog Res E (Res o) := op o fun
  | .ok a => ret a
  | .error e => raise e

/-- Run a program and catch what it raises. -/
def attempt : Prog Res E α → Prog Res E (Except E α)
  | ret a => ret (.ok a)
  | raise e => ret (.error e)
  | op o k => op o fun r => attempt (k r)

/-- A program that returns or raises at once. -/
def ofExcept : Except E α → Prog Res E α
  | .ok a => ret a
  | .error e => raise e

/-- `try: p finally: f` -/
def cleanup (p : Prog Res E α) (f : Prog Res E Unit) : Prog Res E α := do
  let r ← p.attempt
  f
  ofExcept r

/-- `p` has returned or raised. -/
def isDone : Prog Res E α → Bool
  | op _ _ => false
  | _ => true

/-- One operation of a program, as thread `i`. -/
def step (M : Machine Res E Env S) (i : ℕ) (env : Env) :
    Prog Res E α → S → Option (Prog Res E α × S)
  | op o k, s => (M.exec i o env s).map fun r => (k r.1, r.2)
  | _, _ => none

/-! ## The rely/guarantee precondition -/

section Wp

variable (M : Machine Res E Env S) (i : ℕ) (rely guar : S → S → Prop) (inv : S → Prop)

/-- From `s` the program keeps the invariant and the guarantee, and ends in `Q`. -/
def wp : Prog Res E α → (Except E α → S → Prop) → S → Prop
  | ret a, Q, s => Q (.ok a) s
  | raise e, Q, s => Q (.error e) s
  | op o k, Q, s => ∀ s₁, rely s s₁ → inv s₁ → ∀ env r s₂, M.exec i o env s₁ = some (r, s₂) →
      inv s₂ ∧ guar s₁ s₂ ∧ wp (k r) Q s₂

/-- The postcondition a bound program hands on. -/
def andThen (f : α → Prog Res E β) (Q : Except E β → S → Prop) : Except E α → S → Prop
  | .ok a, s => wp M i rely guar inv (f a) Q s
  | .error e, s => Q (.error e) s

variable {M i rely guar inv}

/-- An operation, whatever the continuations are, needs what they need. -/
theorem wp_op_mono {o : Op} {k : Except E (Res o) → Prog Res E α}
    {k' : Except E (Res o) → Prog Res E β} {Q : Except E α → S → Prop}
    {Q' : Except E β → S → Prop} {s : S}
    (hk : ∀ r s, wp M i rely guar inv (k r) Q s → wp M i rely guar inv (k' r) Q' s)
    (h : wp M i rely guar inv (op o k) Q s) : wp M i rely guar inv (op o k') Q' s := by
  intro s₁ hr hi env r s₂ he
  obtain ⟨hi', hg, hw⟩ := h s₁ hr hi env r s₂ he
  exact ⟨hi', hg, hk r s₂ hw⟩

theorem wp_bind {p : Prog Res E α} {f : α → Prog Res E β} {Q : Except E β → S → Prop} {s : S} :
    wp M i rely guar inv (p >>= f) Q s ↔
      wp M i rely guar inv p (andThen M i rely guar inv f Q) s := by
  induction p generalizing s with
  | ret a => exact Iff.rfl
  | raise e => exact Iff.rfl
  | op o k ih =>
    constructor
    · exact wp_op_mono fun r _ => (ih r).mp
    · exact wp_op_mono fun r _ => (ih r).mpr

theorem wp_mono {p : Prog Res E α} {Q Q' : Except E α → S → Prop} {s : S}
    (hQ : ∀ r s, Q r s → Q' r s) (h : wp M i rely guar inv p Q s) :
    wp M i rely guar inv p Q' s := by
  induction p generalizing s with
  | ret a => exact hQ _ _ h
  | raise e => exact hQ _ _ h
  | op o k ih =>
    exact wp_op_mono (fun r _ => ih r) h

theorem wp_attempt {p : Prog Res E α} {Q : Except E (Except E α) → S → Prop} {s : S} :
    wp M i rely guar inv p.attempt Q s ↔ wp M i rely guar inv p (fun r => Q (.ok r)) s := by
  induction p generalizing s with
  | ret a => exact Iff.rfl
  | raise e => exact Iff.rfl
  | op o k ih =>
    constructor
    · exact wp_op_mono fun r _ => (ih r).mp
    · exact wp_op_mono fun r _ => (ih r).mpr

/-- One operation: what it does from every state the rest of the system may have
moved to. -/
theorem wp_call {o : Op} {Q : Except E (Res o) → S → Prop} {s : S}
    (h : ∀ s₁, rely s s₁ → inv s₁ → ∀ env r s₂, M.exec i o env s₁ = some (r, s₂) →
      inv s₂ ∧ guar s₁ s₂ ∧ Q r s₂) :
    wp M i rely guar inv (call o) Q s := by
  intro s₁ hr hi env r s₂ he
  obtain ⟨hi', hg, hQ⟩ := h s₁ hr hi env r s₂ he
  refine ⟨hi', hg, ?_⟩
  cases r with
  | ok a => exact hQ
  | error e => exact hQ

/-- A precondition survives what the rest of the system does. -/
theorem wp_stable (htrans : ∀ a b c, rely a b → rely b c → rely a c)
    {p : Prog Res E α} {Q : Except E α → S → Prop} {s s' : S}
    (hQ : ∀ r, Q r s → Q r s') (h : wp M i rely guar inv p Q s) (hr : rely s s') :
    wp M i rely guar inv p Q s' := by
  cases p with
  | ret a => exact hQ _ h
  | raise e => exact hQ _ h
  | op o k => exact fun s₁ hr₁ hi env r s₂ he => h s₁ (htrans s s' s₁ hr hr₁) hi env r s₂ he

/-- One step of a program under its precondition. -/
theorem wp_step (hrefl : ∀ s : S, rely s s) {p p' : Prog Res E α} {Q : Except E α → S → Prop}
    {s s' : S} {env : Env} (h : wp M i rely guar inv p Q s) (hi : inv s)
    (hs : step M i env p s = some (p', s')) :
    inv s' ∧ guar s s' ∧ wp M i rely guar inv p' Q s' := by
  cases p with
  | ret a => cases hs
  | raise e => cases hs
  | op o k =>
    obtain ⟨⟨r, s₂⟩, he, heq⟩ := Option.map_eq_some_iff.mp hs
    obtain ⟨rfl, rfl⟩ := Prod.mk.inj heq
    exact h s (hrefl s) hi env r s₂ he

end Wp

/-! ## Threads -/

section Pool

variable {M : Machine Res E Env S} {rely guar : ℕ → S → S → Prop} {inv : S → Prop}

/-- Every thread meets its precondition. -/
def PoolSafe (M : Machine Res E Env S) (rely guar : ℕ → S → S → Prop) (inv : S → Prop)
    (threads : List (Prog Res E α)) (s : S) : Prop :=
  ∀ i p, threads[i]? = some p → wp M i (rely i) (guar i) inv p (fun _ _ => True) s

/-- **The parallel rule.** A step of one thread keeps the invariant and every
thread's precondition. -/
theorem wp_pool (hrefl : ∀ i s, rely i s s)
    (htrans : ∀ i a b c, rely i a b → rely i b c → rely i a c)
    (hguar : ∀ i j s s', i ≠ j → guar j s s' → rely i s s')
    {threads : List (Prog Res E α)} {s s' : S} {j : ℕ} {p p' : Prog Res E α} {env : Env}
    (hsafe : PoolSafe M rely guar inv threads s) (hi : inv s) (hj : threads[j]? = some p)
    (hs : step M j env p s = some (p', s')) :
    inv s' ∧ PoolSafe M rely guar inv (threads.set j p') s' := by
  obtain ⟨hi', hg, hw⟩ := wp_step (hrefl j) (hsafe j p hj) hi hs
  refine ⟨hi', fun i q hq => ?_⟩
  by_cases hij : i = j
  · subst hij
    have hlt : i < threads.length := (List.getElem?_eq_some_iff.mp hj).1
    rw [List.getElem?_set_self hlt] at hq
    rw [← Option.some.inj hq]
    exact hw
  · rw [List.getElem?_set_ne (Ne.symm hij)] at hq
    exact wp_stable (htrans i) (fun _ _ => trivial) (hsafe i q hq) (hguar i j s s' hij hg)

end Pool

/-! ## Running alone to the end -/

section Finishes

variable (M : Machine Res E Env S) (i : ℕ) (calm : Env → Prop)

/-- Under environments that satisfy `calm` no operation of the program is
blocked and it ends in `Q`. -/
def Finishes : Prog Res E α → (Except E α → S → Prop) → S → Prop
  | ret a, Q, s => Q (.ok a) s
  | raise e, Q, s => Q (.error e) s
  | op o k, Q, s => ∀ env, calm env →
      ∃ r s', M.exec i o env s = some (r, s') ∧ Finishes (k r) Q s'

/-- The postcondition a bound program hands on. -/
def andFinish (f : α → Prog Res E β) (Q : Except E β → S → Prop) : Except E α → S → Prop
  | .ok a, s => Finishes M i calm (f a) Q s
  | .error e, s => Q (.error e) s

/-- Operations of one program, one after the other, without anything in between. -/
def alone : List Env → Prog Res E α × S → Prog Res E α × S
  | [], c => c
  | env :: envs, c => alone envs ((step M i env c.1 c.2).getD c)

variable {M i calm}

theorem finishes_op_mono {o : Op} {k : Except E (Res o) → Prog Res E α}
    {k' : Except E (Res o) → Prog Res E β} {Q : Except E α → S → Prop}
    {Q' : Except E β → S → Prop} {s : S}
    (hk : ∀ r s, Finishes M i calm (k r) Q s → Finishes M i calm (k' r) Q' s)
    (h : Finishes M i calm (op o k) Q s) : Finishes M i calm (op o k') Q' s := by
  intro env henv
  obtain ⟨r, s', he, hf⟩ := h env henv
  exact ⟨r, s', he, hk r s' hf⟩

theorem finishes_bind {p : Prog Res E α} {f : α → Prog Res E β} {Q : Except E β → S → Prop}
    {s : S} (h : Finishes M i calm p (andFinish M i calm f Q) s) :
    Finishes M i calm (p >>= f) Q s := by
  induction p generalizing s with
  | ret a => exact h
  | raise e => exact h
  | op o k ih =>
    exact finishes_op_mono (fun r _ => ih r) h

theorem finishes_mono {p : Prog Res E α} {Q Q' : Except E α → S → Prop} {s : S}
    (hQ : ∀ r s, Q r s → Q' r s) (h : Finishes M i calm p Q s) : Finishes M i calm p Q' s := by
  induction p generalizing s with
  | ret a => exact hQ _ _ h
  | raise e => exact hQ _ _ h
  | op o k ih =>
    exact finishes_op_mono (fun r _ => ih r) h

theorem finishes_attempt {p : Prog Res E α} {Q : Except E (Except E α) → S → Prop} {s : S}
    (h : Finishes M i calm p (fun r => Q (.ok r)) s) : Finishes M i calm p.attempt Q s := by
  induction p generalizing s with
  | ret a => exact h
  | raise e => exact h
  | op o k ih =>
    exact finishes_op_mono (fun r _ => ih r) h

theorem finishes_call {o : Op} {Q : Except E (Res o) → S → Prop} {s : S}
    (h : ∀ env, calm env → ∃ r s', M.exec i o env s = some (r, s') ∧ Q r s') :
    Finishes M i calm (call o) Q s := by
  intro env henv
  obtain ⟨r, s', he, hQ⟩ := h env henv
  refine ⟨r, s', he, ?_⟩
  cases r with
  | ok a => exact hQ
  | error e => exact hQ

/-- **Adequacy.** Whatever the calm environments are, enough operations bring the
program to its end, in `Q`. -/
theorem finishes_adequate {p : Prog Res E α} {Q : Except E α → S → Prop} {s : S}
    (h : Finishes M i calm p Q s) (envs : ℕ → Env) (hcalm : ∀ t, calm (envs t)) :
    ∃ n r s', alone M i ((List.range n).map envs) (p, s) = (ofExcept r, s') ∧ Q r s' := by
  induction p generalizing s envs with
  | ret a => exact ⟨0, .ok a, s, rfl, h⟩
  | raise e => exact ⟨0, .error e, s, rfl, h⟩
  | op o k ih =>
    obtain ⟨r, s', he, hf⟩ := h (envs 0) (hcalm 0)
    obtain ⟨n, r', s'', hn, hQ⟩ := ih r hf (fun t => envs (t + 1)) fun t => hcalm (t + 1)
    refine ⟨n + 1, r', s'', ?_, hQ⟩
    have hstep : step M i (envs 0) (op o k) s = some (k r, s') := by rw [step, he]; rfl
    rw [List.range_succ_eq_map, List.map_cons, List.map_map, alone, hstep]
    exact hn

theorem alone_ofExcept (envs : List Env) (r : Except E α) (s : S) :
    alone M i envs (ofExcept r, s) = (ofExcept r, s) := by
  induction envs with
  | nil => rfl
  | cons env rest ih =>
    cases r with
    | ok a => exact ih
    | error e => exact ih

/-- However it is run, a program that comes to its end is in `Q` there. -/
theorem finishes_sound {p : Prog Res E α} {Q : Except E α → S → Prop} {s : S}
    (h : Finishes M i calm p Q s) {envs : List Env} (hcalm : ∀ env ∈ envs, calm env)
    {r : Except E α} {s' : S} (hend : alone M i envs (p, s) = (ofExcept r, s')) : Q r s' := by
  induction p generalizing s envs with
  | ret a =>
    rw [show (ret a, s) = (ofExcept (E := E) (.ok a), s) from rfl,
      alone_ofExcept] at hend
    cases r with
    | ok a' => cases hend; exact h
    | error e => cases hend
  | raise e =>
    rw [show (raise e, s) = (ofExcept (α := α) (.error e), s) from rfl,
      alone_ofExcept] at hend
    cases r with
    | ok a => cases hend
    | error e' => cases hend; exact h
  | op o k ih =>
    cases envs with
    | nil => cases r with
      | ok a => cases hend
      | error e => cases hend
    | cons env rest =>
      obtain ⟨r₁, s₁, he, hf⟩ := h env (hcalm env List.mem_cons_self)
      have hstep : step M i env (op o k) s = some (k r₁, s₁) := by rw [step, he]; rfl
      rw [alone, hstep] at hend
      exact ih r₁ hf (fun env' henv' => hcalm env' (List.mem_cons_of_mem env henv')) hend

/-- A program run to its end, with the environments it has not used; `none` if it
is blocked on the way. -/
def finish (M : Machine Res E Env S) (i : ℕ) :
    Prog Res E α → (ℕ → Env) → S → Option (Except E α × S × (ℕ → Env))
  | ret a, envs, s => some (.ok a, s, envs)
  | raise e, envs, s => some (.error e, s, envs)
  | op o k, envs, s => match M.exec i o (envs 0) s with
    | none => none
    | some (r, s') => finish M i (k r) (fun t => envs (t + 1)) s'

/-- A program that finishes is not blocked. -/
theorem finish_of_finishes {p : Prog Res E α} {Q : Except E α → S → Prop} {s : S}
    (h : Finishes M i (fun _ => True) p Q s) (envs : ℕ → Env) :
    ∃ r s' envs', finish M i p envs s = some (r, s', envs') ∧ Q r s' := by
  induction p generalizing s envs with
  | ret a => exact ⟨.ok a, s, envs, rfl, h⟩
  | raise e => exact ⟨.error e, s, envs, rfl, h⟩
  | op o k ih =>
    obtain ⟨r, s', he, hf⟩ := h (envs 0) trivial
    obtain ⟨r', s'', envs', hend, hQ⟩ := ih r hf fun t => envs (t + 1)
    exact ⟨r', s'', envs', by rw [finish, he]; exact hend, hQ⟩

end Finishes

/-! ## The operations of a program -/

section AllOps

variable {M : Machine Res E Env S} {i : ℕ} {ok : Op → Prop}

/-- Every operation of the program satisfies `ok`. -/
def AllOps (ok : Op → Prop) : Prog Res E α → Prop
  | op o k => ok o ∧ ∀ r, AllOps ok (k r)
  | _ => True

theorem allOps_bind {p : Prog Res E α} {f : α → Prog Res E β} (hp : AllOps ok p)
    (hf : ∀ a, AllOps ok (f a)) : AllOps ok (p >>= f) := by
  induction p with
  | ret a => exact hf a
  | raise e => trivial
  | op o k ih => exact ⟨hp.1, fun r => ih r (hp.2 r)⟩

theorem allOps_attempt {p : Prog Res E α} (hp : AllOps ok p) : AllOps ok p.attempt := by
  induction p with
  | ret a => trivial
  | raise e => trivial
  | op o k ih => exact ⟨hp.1, fun r => ih r (hp.2 r)⟩

theorem allOps_call {o : Op} (ho : ok o) : AllOps (E := E) ok (call o : Prog Res E (Res o)) := by
  refine ⟨ho, fun r => ?_⟩
  cases r with
  | ok a => trivial
  | error e => trivial

theorem allOps_cleanup {p : Prog Res E α} {f : Prog Res E Unit} (hp : AllOps ok p)
    (hf : AllOps ok f) : AllOps ok (cleanup p f) := by
  refine allOps_bind (allOps_attempt hp) fun r => allOps_bind hf fun _ => ?_
  cases r with
  | ok a => trivial
  | error e => trivial

/-- **The frame rule**: what every operation leaves alone, the program does. -/
theorem finish_frame {R : S → S → Prop} (hrefl : ∀ s, R s s)
    (htrans : ∀ a b c, R a b → R b c → R a c)
    (hop : ∀ o env s r s', ok o → M.exec i o env s = some (r, s') → R s s')
    {p : Prog Res E α} (hp : AllOps ok p) {envs envs' : ℕ → Env} {s s' : S} {r : Except E α}
    (h : finish M i p envs s = some (r, s', envs')) : R s s' := by
  induction p generalizing s envs with
  | ret a =>
    obtain ⟨-, rfl, -⟩ := Prod.mk.inj (Option.some.inj h) |>.imp id Prod.mk.inj
    exact hrefl _
  | raise e =>
    obtain ⟨-, rfl, -⟩ := Prod.mk.inj (Option.some.inj h) |>.imp id Prod.mk.inj
    exact hrefl _
  | op o k ih =>
    rw [finish] at h
    rcases he : M.exec i o (envs 0) s with _ | ⟨r₁, s₁⟩
    · rw [he] at h
      cases h
    · rw [he] at h
      exact htrans _ _ _ (hop o (envs 0) s r₁ s₁ hp.1 he) (ih r₁ (hp.2 r₁) h)

end AllOps

end Prog

end Unlearning
