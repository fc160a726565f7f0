import Mathlib.Data.List.Perm.Basic
import Mathlib.Data.Set.Operations

/-!
# Operations with a footprint

A state is looked at cell by cell. A `LocalOp` at a state `s` has a footprint: on every state
that agrees with `s` there it answers as it does on `s`, does to the cells of the footprint what
it does on `s`, and leaves all other cells alone.

`runAll_alone`: operations with disjoint footprints, run one after the other, come to what each
of them comes to on `s` by itself. So their order does not matter (`runAll_perm`).
-/

namespace Unlearning

variable {S I V B : Type*}

/-- An operation that is local at `s`, among the states of a shape. -/
structure LocalOp (cell : S → I → V) (Shape : S → Prop) (s : S) (B : Type*) where
  footprint : Set I
  run : S → B × S
  shape : ∀ t, Shape t → Set.EqOn (cell t) (cell s) footprint → Shape (run t).2
  answer : ∀ t, Shape t → Set.EqOn (cell t) (cell s) footprint → (run t).1 = (run s).1
  inside : ∀ t, Shape t → Set.EqOn (cell t) (cell s) footprint →
    Set.EqOn (cell (run t).2) (cell (run s).2) footprint
  outside : ∀ t, Shape t → Set.EqOn (cell t) (cell s) footprint →
    ∀ i ∉ footprint, cell (run t).2 i = cell t i

namespace LocalOp

variable {cell : S → I → V} {Shape : S → Prop} {s : S}

/-- The answers of operations run one after the other, and the state they leave. -/
def runAll : List (LocalOp cell Shape s B) → S → List B × S
  | [], t => ([], t)
  | op :: ops, t => ((op.run t).1 :: (runAll ops (op.run t).2).1, (runAll ops (op.run t).2).2)

/-- The footprints of two operations have no cell in common. -/
def Apart (op op' : LocalOp cell Shape s B) : Prop := ∀ i ∈ op.footprint, i ∉ op'.footprint

/-- **Operations apart from each other** come to what they come to alone. -/
theorem runAll_alone {ops : List (LocalOp cell Shape s B)} (hapart : ops.Pairwise Apart) {t : S}
    (ht : Shape t) (hagree : ∀ op ∈ ops, Set.EqOn (cell t) (cell s) op.footprint) :
    (runAll ops t).1 = ops.map (fun op => (op.run s).1) ∧ Shape (runAll ops t).2 ∧
      (∀ op ∈ ops, Set.EqOn (cell (runAll ops t).2) (cell (op.run s).2) op.footprint) ∧
      ∀ i, (∀ op ∈ ops, i ∉ op.footprint) → cell (runAll ops t).2 i = cell t i := by
  induction ops generalizing t with
  | nil => exact ⟨rfl, ht, fun _ h => absurd h List.not_mem_nil, fun _ _ => rfl⟩
  | cons op ops ih =>
    obtain ⟨hop, hops⟩ := List.pairwise_cons.mp hapart
    have hhere := hagree op List.mem_cons_self
    have hout := op.outside t ht hhere
    -- the later operations find their cells as `op` found them
    have hlater : ∀ op' ∈ ops, Set.EqOn (cell (op.run t).2) (cell s) op'.footprint :=
      fun op' hop' i hi =>
        (hout i fun hin => hop op' hop' i hin hi).trans
          (hagree op' (List.mem_cons_of_mem op hop') hi)
    obtain ⟨hanswers, hshape, hin, hrest⟩ := ih hops (op.shape t ht hhere) hlater
    refine ⟨?_, hshape, fun op' hop' i hi => ?_, fun i hi => ?_⟩
    · rw [runAll, hanswers, op.answer t ht hhere]
      rfl
    · rcases List.mem_cons.mp hop' with rfl | hop'
      · exact (hrest i fun op'' hop'' => hop op'' hop'' i hi).trans
          (op'.inside t ht hhere hi)
      · exact hin op' hop' hi
    · exact (hrest i fun op' hop' => hi op' (List.mem_cons_of_mem op hop')).trans
        (hout i (hi op List.mem_cons_self))

/-- **The order does not matter.** -/
theorem runAll_perm {ops ops' : List (LocalOp cell Shape s B)} (hperm : ops.Perm ops')
    (hapart : ops.Pairwise Apart) (hs : Shape s) :
    (runAll ops s).1.Perm (runAll ops' s).1 ∧
      cell (runAll ops s).2 = cell (runAll ops' s).2 ∧ Shape (runAll ops' s).2 := by
  have hapart' : ops'.Pairwise Apart :=
    (hperm.pairwise_iff fun h i hi hi' => h i hi' hi).mp hapart
  obtain ⟨hanswers, -, hin, hout⟩ := runAll_alone hapart hs fun _ _ _ _ => rfl
  obtain ⟨hanswers', hshape', hin', hout'⟩ := runAll_alone hapart' hs fun _ _ _ _ => rfl
  refine ⟨?_, funext fun i => ?_, hshape'⟩
  · rw [hanswers, hanswers']
    exact hperm.map _
  · by_cases hi : ∃ op ∈ ops, i ∈ op.footprint
    · obtain ⟨op, hop, hi⟩ := hi
      exact (hin op hop hi).trans (hin' op (hperm.mem_iff.mp hop) hi).symm
    · push Not at hi
      exact (hout i hi).trans (hout' i fun op hop => hi op (hperm.mem_iff.mpr hop)).symm

end LocalOp

end Unlearning
