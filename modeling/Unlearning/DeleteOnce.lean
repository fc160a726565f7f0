import Unlearning.Receipts

/-!
# A delete succeeds once

A receipt says success only if every id of the batch was in the registry, and then the ids are
gone from it. The same batch is not answered with success again, nor is any batch that has one
of these ids, until the id is registered anew: `idempotent=True` makes a repeated delete
harmless, not successful.

* `delete_succeeded`: what a receipt of success says of the ids of its batch;
* `not_succeeded_of_unmapped`: a batch with an id that is not mapped has no such receipt;
* `label?_delete`, `label?_of_verified`: a call maps nothing, and unmaps what it verified.
-/

namespace Unlearning

open PyText

/-- `str(exc)` -/
def ServiceError.text (printable : Char → Bool) : ServiceError → String
  | registry e => e.text printable
  | valueError message => message
  | outside text => text

namespace Service

variable {σ D : Type} [PyFloat D] {svc : Service σ D} {amb : Ambient σ D} {call : DeleteCall}
  {st : ServiceState σ D}

/-- A receipt was returned, and it says success. -/
def Deletion.succeeded (d : Deletion σ D) : Bool :=
  match d.result with
  | .ok receipt => receipt.success
  | .error _ => false

/-- **A call that succeeded** verified every id of its batch, and dropped its mapping. -/
theorem delete_succeeded (h : (svc.delete amb call st).succeeded = true) :
    (svc.delete amb call st).visits.map Visit.ext = call.extIds ∧
      (∀ v ∈ (svc.delete amb call st).visits, v.verified = true ∧
        v.label = st.registry.label? (strip call.collection) v.ext) ∧
      (svc.dropMappings = true → ∀ ext ∈ call.extIds,
        (svc.delete amb call st).state.registry.label? (strip call.collection) ext = none) := by
  rw [Deletion.succeeded] at h
  rcases hresult : (svc.delete amb call st).result with error | receipt
  · rw [hresult] at h
    cases h
  rw [hresult] at h
  obtain ⟨mode, b, summary, o, hc⟩ := concluded_of_receipt hresult
  have hprogress := hc.progress
  have hall : ∀ v ∈ b.visits, v.verified = true := by
    by_cases hids : call.extIds = []
    · have hvisited := hprogress.visited
      rw [hids, List.map_eq_nil_iff] at hvisited
      rw [hvisited]
      exact fun _ hv => absurd hv List.not_mem_nil
    · exact (hc.complete hids h).2.2.2
  rw [hc.visits, hc.registry]
  refine ⟨hprogress.visited, fun v hv => ?_, fun hdrop ext hext => ?_⟩
  · obtain ⟨label, hlabel⟩ := Visit.label_of_verified (hall v hv)
    exact ⟨hall v hv, hlabel.trans (hprogress.resolved v hv label hlabel).symm⟩
  · -- all visits are verified, so that all ids are dropped
    have hexts : verifiedExts b.visits = call.extIds := by
      rw [verifiedExts, List.filter_eq_self.mpr hall]
      exact hprogress.visited
    rw [(hprogress.registry hdrop).label?, hexts]
    exact if_pos ⟨rfl, hext⟩

/-- What was deleted with success was mapped. -/
theorem mapped_of_succeeded (h : (svc.delete amb call st).succeeded = true) {ext : String}
    (hext : ext ∈ call.extIds) : st.registry.label? (strip call.collection) ext ≠ none := by
  obtain ⟨hvisited, hverified, -⟩ := delete_succeeded h
  rw [← hvisited] at hext
  obtain ⟨v, hv, rfl⟩ := List.mem_map.mp hext
  obtain ⟨hv, hlabel⟩ := hverified v hv
  obtain ⟨label, hsome⟩ := Visit.label_of_verified hv
  rw [← hlabel, hsome]
  exact Option.some_ne_none label

theorem not_succeeded_of_unmapped {ext : String} (hext : ext ∈ call.extIds)
    (h : st.registry.label? (strip call.collection) ext = none) :
    (svc.delete amb call st).succeeded = false :=
  Bool.eq_false_iff.mpr fun hsucceeded => mapped_of_succeeded hsucceeded hext h

/-- A call maps nothing. -/
theorem label?_delete {coll ext : String} (h : st.registry.label? coll ext = none) :
    (svc.delete amb call st).state.registry.label? coll ext = none := by
  obtain ⟨visited, b, hprogress, -, hreg⟩ := delete_progress svc amb call st
  rw [hreg]
  rcases hlabel : b.registry.label? coll ext with _ | label
  · rfl
  · rw [hprogress.shrinks coll ext label hlabel] at h
    cases h

/-- What a call verified is not mapped after it, whatever becomes of the rest of the batch. -/
theorem label?_of_verified (hdrop : svc.dropMappings = true) {v : Visit}
    (hv : v ∈ (svc.delete amb call st).visits) (hverified : v.verified = true) :
    (svc.delete amb call st).state.registry.label? (strip call.collection) v.ext = none := by
  obtain ⟨visited, b, hprogress, hvisits, hreg⟩ := delete_progress svc amb call st
  rw [hvisits] at hv
  rw [hreg, (hprogress.registry hdrop).label?]
  exact if_pos ⟨rfl, List.mem_map.mpr ⟨v, List.mem_filter.mpr ⟨hv, hverified⟩, rfl⟩⟩

end Service

end Unlearning
