import Mathlib.Data.List.Basic

/-!
# Traces of a step relation

A system with states `S` takes steps that are named by actions `A`. `Trace step s as t` says
that the actions `as` lead from `s` to `t`. A trace whose steps all meet a condition on the
state before the step is a trace of the relation restricted to it (`Guarded`).

`Trace.invariant` is the rule for what holds in every state of every run: it holds at the
start and one step keeps it.
-/

namespace Unlearning

variable {S A : Type}

/-- The actions lead from one state to another. -/
inductive Trace (step : S → A → S → Prop) : S → List A → S → Prop where
  | nil (s : S) : Trace step s [] s
  | cons {s t u : S} {a : A} {as : List A} :
      step s a t → Trace step t as u → Trace step s (a :: as) u

/-- The steps that are taken from states that meet a condition. -/
def Guarded (guard : S → A → Prop) (step : S → A → S → Prop) (s : S) (a : A) (t : S) : Prop :=
  guard s a ∧ step s a t

namespace Trace

variable {step step' : S → A → S → Prop} {s t u : S} {a : A} {as bs : List A}

/-- **The invariant rule.** -/
theorem invariant {Inv : S → Prop} (h : Trace step s as t)
    (hstep : ∀ s a t, Inv s → step s a t → Inv t) (hs : Inv s) : Inv t := by
  induction h with
  | nil s => exact hs
  | cons hst _ ih => exact ih (hstep _ _ _ hs hst)

/-- A step and a trace that a relation contains. -/
theorem mono (h : Trace step s as t) (hmono : ∀ s a t, step s a t → step' s a t) :
    Trace step' s as t := by
  induction h with
  | nil s => exact .nil s
  | cons hst _ ih => exact .cons (hmono _ _ _ hst) ih

theorem append (h : Trace step s as t) (h' : Trace step t bs u) : Trace step s (as ++ bs) u := by
  induction h with
  | nil s => exact h'
  | cons hst _ ih => exact .cons hst (ih h')

theorem single (h : step s a t) : Trace step s [a] t := .cons h (.nil t)

/-- A trace passes through a state after any part of its actions. -/
theorem split (h : Trace step s (as ++ bs) u) : ∃ t, Trace step s as t ∧ Trace step t bs u := by
  induction as generalizing s with
  | nil => exact ⟨s, .nil s, h⟩
  | cons a as ih =>
    rcases h with _ | ⟨hst, htrace⟩
    obtain ⟨t, hleft, hright⟩ := ih htrace
    exact ⟨t, .cons hst hleft, hright⟩

/-- The actions lead to one state where each step leads to one. -/
theorem unique (h : Trace step s as t) (h' : Trace step s as u)
    (hstep : ∀ s a t t', step s a t → step s a t' → t = t') : t = u := by
  induction h with
  | nil s =>
    rcases h' with _ | _
    rfl
  | cons hst _ ih =>
    rcases h' with _ | ⟨hst', hrest⟩
    obtain rfl := hstep _ _ _ _ hst hst'
    exact ih hrest

/-- The trace of a list of actions that are functions. -/
theorem of_foldlM {perform : S → A → Option S} (h : as.foldlM perform s = some t) :
    Trace (fun s a t => perform s a = some t) s as t := by
  induction as generalizing s with
  | nil =>
    obtain rfl := Option.some.inj h
    exact .nil s
  | cons a as ih =>
    rw [List.foldlM_cons] at h
    obtain ⟨next, hnext, hrest⟩ := Option.bind_eq_some_iff.mp h
    exact .cons hnext (ih hrest)

/-- The guard of a step, where it rests on the action alone. -/
theorem guarded {guard : S → A → Prop} (h : Trace step s as t)
    (hguard : ∀ a ∈ as, ∀ s, guard s a) : Trace (Guarded guard step) s as t := by
  induction h with
  | nil s => exact .nil s
  | cons hst _ ih =>
    exact .cons ⟨hguard _ List.mem_cons_self _, hst⟩
      (ih fun a ha => hguard a (List.mem_cons_of_mem _ ha))

end Trace

end Unlearning
