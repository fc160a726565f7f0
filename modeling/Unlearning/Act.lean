import Mathlib.Data.List.Basic

/-!
# Computations that keep their state when they raise

An `Act` runs on a state and returns or raises, and leaves a state either way: what a
destructor or a `finally` needs to see. `Triple P x Q R` is total correctness for them: from
a state in `P` the computation returns in `Q` or raises in `R`.

The rules below follow the structure of a program: sequencing, consequence, a scope with a
destructor. Loops are recursive functions and are reasoned about by induction.
-/

namespace Unlearning

/-- A computation on `σ` that returns `α` or raises `ε`. -/
def Act (σ ε α : Type) : Type := σ → Except ε α × σ

namespace Act

variable {σ ε α β : Type}

protected def bind (x : Act σ ε α) (f : α → Act σ ε β) : Act σ ε β := fun s =>
  match x s with
  | (.ok a, s') => f a s'
  | (.error e, s') => (.error e, s')

instance : Monad (Act σ ε) where
  pure a := fun s => (.ok a, s)
  bind := Act.bind

/-- Raise an exception. -/
def raise (e : ε) : Act σ ε α := fun s => (.error e, s)

/-- Look at the state. -/
def reads (f : σ → α) : Act σ ε α := fun s => (.ok (f s), s)

/-- Change the state. -/
def alter (f : σ → σ) : Act σ ε Unit := fun s => (.ok (), f s)

/-- Run `x`, then the destructor, whether `x` returned or raised. -/
def withDestructor (x : Act σ ε α) (destroy : σ → σ) : Act σ ε α :=
  fun s => ((x s).1, destroy (x s).2)

theorem bind_ok {x : Act σ ε α} {f : α → Act σ ε β} {s s' : σ} {a : α} (h : x s = (.ok a, s')) :
    (x >>= f) s = f a s' := by
  have hrun : (x >>= f) s = match x s with
    | (.ok a, s') => f a s'
    | (.error e, s') => (.error e, s') := rfl
  rw [hrun, h]

theorem bind_error {x : Act σ ε α} {f : α → Act σ ε β} {s s' : σ} {e : ε}
    (h : x s = (.error e, s')) : (x >>= f) s = (.error e, s') := by
  have hrun : (x >>= f) s = match x s with
    | (.ok a, s') => f a s'
    | (.error e, s') => (.error e, s') := rfl
  rw [hrun, h]

theorem bind_assoc {γ : Type} (x : Act σ ε α) (f : α → Act σ ε β) (g : β → Act σ ε γ) :
    x >>= f >>= g = x >>= fun a => f a >>= g := by
  funext s
  rcases hx : x s with ⟨e | a, s'⟩
  · rw [bind_error hx, bind_error (bind_error hx)]
  · rw [bind_ok hx]
    rcases hf : f a s' with ⟨e | b, s''⟩
    · rw [bind_error hf, bind_error ((bind_ok hx).trans hf)]
    · rw [bind_ok hf, bind_ok ((bind_ok hx).trans hf)]

/-- From `P`, the computation returns in `Q` or raises in `R`. -/
def Triple (P : σ → Prop) (x : Act σ ε α) (Q : α → σ → Prop) (R : ε → σ → Prop) : Prop :=
  ∀ s, P s → (∃ a s', x s = (.ok a, s') ∧ Q a s') ∨ ∃ e s', x s = (.error e, s') ∧ R e s'

section Rules

variable {P P' : σ → Prop} {Q Q' : α → σ → Prop} {R R' : ε → σ → Prop}

theorem triple_pure {a : α} (h : ∀ s, P s → Q a s) : Triple P (pure a : Act σ ε α) Q R :=
  fun s hs => Or.inl ⟨a, s, rfl, h s hs⟩

theorem triple_raise {e : ε} (h : ∀ s, P s → R e s) : Triple P (raise e : Act σ ε α) Q R :=
  fun s hs => Or.inr ⟨e, s, rfl, h s hs⟩

theorem triple_reads {f : σ → α} (h : ∀ s, P s → Q (f s) s) :
    Triple P (reads f : Act σ ε α) Q R :=
  fun s hs => Or.inl ⟨f s, s, rfl, h s hs⟩

theorem triple_alter {f : σ → σ} {Q : Unit → σ → Prop} (h : ∀ s, P s → Q () (f s)) :
    Triple P (alter f : Act σ ε Unit) Q R :=
  fun s hs => Or.inl ⟨(), f s, rfl, h s hs⟩

theorem Triple.bind {x : Act σ ε α} {f : α → Act σ ε β} {Q' : β → σ → Prop}
    (hx : Triple P x Q R) (hf : ∀ a, Triple (Q a) (f a) Q' R) : Triple P (x >>= f) Q' R := by
  intro s hs
  rcases hx s hs with ⟨a, s', heq, hQ⟩ | ⟨e, s', heq, hR⟩
  · rw [bind_ok heq]
    exact hf a s' hQ
  · rw [bind_error heq]
    exact Or.inr ⟨e, s', rfl, hR⟩

theorem Triple.mono {x : Act σ ε α} (hx : Triple P x Q R) (hP : ∀ s, P' s → P s)
    (hQ : ∀ a s, Q a s → Q' a s) (hR : ∀ e s, R e s → R' e s) : Triple P' x Q' R' := by
  intro s hs
  rcases hx s (hP s hs) with ⟨a, s', heq, h⟩ | ⟨e, s', heq, h⟩
  · exact Or.inl ⟨a, s', heq, hQ a s' h⟩
  · exact Or.inr ⟨e, s', heq, hR e s' h⟩

/-- A scope: its destructor runs on both ways out. -/
theorem Triple.withDestructor {x : Act σ ε α} {destroy : σ → σ} (hx : Triple P x Q R)
    (hQ : ∀ a s, Q a s → Q' a (destroy s)) (hR : ∀ e s, R e s → R' e (destroy s)) :
    Triple P (x.withDestructor destroy) Q' R' := by
  intro s hs
  have hrun : x.withDestructor destroy s = ((x s).1, destroy (x s).2) := rfl
  rw [hrun]
  rcases hx s hs with ⟨a, s', heq, h⟩ | ⟨e, s', heq, h⟩
  · rw [heq]
    exact Or.inl ⟨a, destroy s', rfl, hQ a s' h⟩
  · rw [heq]
    exact Or.inr ⟨e, destroy s', rfl, hR e s' h⟩

/-- The state left satisfies what both ways out satisfy. -/
theorem Triple.state {x : Act σ ε α} {I : σ → Prop}
    (hx : Triple P x (fun _ => I) fun _ => I) {s : σ} (hs : P s) : I (x s).2 := by
  rcases hx s hs with ⟨a, s', heq, h⟩ | ⟨e, s', heq, h⟩
  · rw [heq]
    exact h
  · rw [heq]
    exact h

end Rules

end Act

end Unlearning
