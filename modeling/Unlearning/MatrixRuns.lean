import Unlearning.MatrixRefinement

/-!
# Runs of a matrix adapter under the erasure service

`ErasureService.delete` reaches the adapter through its loop and through `compact`. After the
turn of an id it has no vector any more, whether the id was unknown, registered without a row
or erased (`sweeps_eraseId`); what comes after the loop keeps the map.

`qdrant_refines_map` and `weaviate_refines_map` assemble the runs of both adapters: they are
the same function of the same calls on one `VectorMap`.
-/

namespace Unlearning

open PyText FloatArith PyFloat

/-! ## The loop of `delete` -/

namespace MatrixKind

variable {κ D : Type} {kind : MatrixKind κ} {own : String} {m : VectorMap}

open Service

/-- What holds after some turns: the visited ids have lost their vectors. -/
structure Sweeps (kind : MatrixKind κ) (own : String) (m : VectorMap)
    (b : Batch (MatrixAdapter κ) D) : Prop where
  collection : b.outside.collection = own
  mirrored : kind.Mirrored b.registry b.outside
  contents : b.outside.contents b.registry = m.without (b.visits.map Visit.ext)

/-- One more visit, which leaves its id without a vector. -/
theorem Sweeps.visit {b b' : Batch (MatrixAdapter κ) D} (h : Sweeps kind own m b) {v : Visit}
    (hvisits : b'.visits = b.visits ++ [v]) (hcoll : b'.outside.collection = b.outside.collection)
    (hmirrored : kind.Mirrored b'.registry b'.outside)
    (hcontents : b'.outside.contents b'.registry =
      Function.update (b.outside.contents b.registry) v.ext none) : Sweeps kind own m b' where
  collection := hcoll.trans h.collection
  mirrored := hmirrored
  contents := by
    rw [hcontents, h.contents, hvisits, List.map_append, List.map_singleton,
      VectorMap.without_concat]

/-- An id without a vector has none after its turn either. -/
theorem update_none_self {ext : String} {m : VectorMap} (h : m ext = none) :
    Function.update m ext none = m := by
  rw [← h]
  exact Function.update_eq_self ext m

end MatrixKind

/-- The turn of an id that is erased and verified. -/
theorem Service.eraseResolved_ok {σ D : Type} {svc : Service σ D} {amb : Ambient σ D}
    {call : DeleteCall} {ext : String} {l : ℤ} {b b₁ : Batch σ D} {br : BackendEraseResult}
    {tx : Option ℤ} {o o' : σ} (hsnap : snapshot svc (svc.proofMode amb call) l b = b₁)
    (herase : svc.eraseLabel call l b₁.outside = (.ok (br, tx), o)) (hsucc : br.success = true)
    (hverify : svc.backend.verifyZeroed call.collection l o = (.ok true, o')) :
    eraseResolved svc amb call ext l b = dropMapping svc amb call ext
      (count ext l br { b₁ with outside := o', txIds := b₁.txIds ++ tx.toList }) := by
  simp only [eraseResolved, hsnap, herase, hsucc, if_true, verifyErased, hverify]

namespace MatrixKind

variable {κ D : Type} [PyFloat D] {kind : MatrixKind κ} {cfg : MatrixConfig D}
  {amb : Ambient (MatrixAdapter κ) D} {call : DeleteCall} {own : String} {m : VectorMap}

open Service

/-- Reading a row changes nothing. -/
theorem snapshot_matrix (kind : MatrixKind κ) (cfg : MatrixConfig D) (mode : ProofMode) (label : ℤ)
    (b : Batch (MatrixAdapter κ) D) :
    ∃ originals, snapshot (cfg.service kind) mode label b = { b with originals := originals } := by
  unfold snapshot
  split
  · exact ⟨b.originals, rfl⟩
  · exact ⟨b.originals, rfl⟩
  · rename_i getVector _ hget
    obtain rfl := Option.some.inj hget
    simp only
    split
    · rename_i heq
      obtain ⟨-, rfl⟩ := Prod.mk.inj heq
      exact ⟨_, rfl⟩
    · rename_i heq
      obtain ⟨-, rfl⟩ := Prod.mk.inj heq
      exact ⟨b.originals, rfl⟩

/-- The end of the turn of an erased id. -/
theorem Sweeps.dropMapping {b : Batch (MatrixAdapter κ) D} (h : Sweeps kind own m b)
    (hcoll : call.collection = own) {ext : String} {l : ℤ}
    (hres : b.registry.resolve amb.printable call.collection ext =
      .ok ⟨strip call.collection, ext, l⟩) (hdel : l ∈ b.outside.deleted) :
    Sweeps kind own m (dropMapping (cfg.service kind) amb call ext b) := by
  have hown : call.collection = b.outside.collection := hcoll.trans h.collection.symm
  have hframe : ∃ errors, Service.dropMapping (cfg.service kind) amb call ext b =
      { b with
        registry := if cfg.dropMappings then
          (b.registry.drop amb.printable call.collection ext).2 else b.registry
        errors := errors } := by
    rw [Service.dropMapping, MatrixConfig.service]
    simp only
    split
    · split
      · rename_i heq
        exact ⟨_, by rw [heq]⟩
      · rename_i heq
        exact ⟨_, by rw [heq]⟩
    · exact ⟨_, rfl⟩
  obtain ⟨errors, heq⟩ := hframe
  rw [heq]
  by_cases hdrop : cfg.dropMappings = true
  · have hl : b.registry.label? (strip b.outside.collection) ext = some l := by
      rw [← hown]
      exact Registry.label?_of_resolve hres
    obtain ⟨hlabel, -, -⟩ := Registry.drop_lookups hres
    obtain ⟨hmir, hcontents⟩ := h.mirrored.drop hl hdel
      (Registry.consistent_drop h.mirrored.consistent call.collection ext)
      fun e => by rw [hlabel, hown]; simp
    refine ⟨h.collection, ?_, ?_⟩
    · simp only [if_pos hdrop]
      exact hmir
    · simp only [if_pos hdrop]
      exact hcontents.trans h.contents
  · refine ⟨h.collection, ?_, ?_⟩
    · simp only [if_neg hdrop]
      exact h.mirrored
    · simp only [if_neg hdrop]
      exact h.contents

/-- **The turn of an id that resolves.** -/
theorem sweeps_eraseResolved (hkind : kind.Lawful) {b : Batch (MatrixAdapter κ) D}
    (h : Sweeps kind own m b) (hcoll : call.collection = own) {ext : String} {l : ℤ}
    (hres : b.registry.resolve amb.printable call.collection ext =
      .ok ⟨strip call.collection, ext, l⟩) :
    Sweeps kind own m (eraseResolved (cfg.service kind) amb call ext l b) := by
  have hown : call.collection = b.outside.collection := hcoll.trans h.collection.symm
  have hl : b.registry.label? (strip b.outside.collection) ext = some l := by
    rw [← hown]
    exact Registry.label?_of_resolve hres
  obtain ⟨originals, hsnap⟩ :=
    snapshot_matrix kind cfg ((cfg.service kind).proofMode amb call) l b
  by_cases hin : l ∈ b.outside.labelToRow
  · obtain ⟨br, a', hdelete, hsucc, hmir, hcoll', hdel, hzero, hcontents⟩ :=
      mirrors_hardDelete hkind h.mirrored hl hin
    have herase : (cfg.service kind).eraseLabel call l b.outside = (.ok (br, none), a') := by
      simp only [eraseLabel, MatrixConfig.service, Option.bind_none, backend, hown, hdelete]
    have hverify : (cfg.service kind).backend.verifyZeroed call.collection l a' =
        (.ok true, a') := by
      simp only [MatrixConfig.service, backend, hzero]
    rw [eraseResolved_ok hsnap herase hsucc hverify]
    have hcounted : Sweeps kind own m (count ext l br
        { b with
          originals := originals
          outside := a'
          txIds := b.txIds ++ (none : Option ℤ).toList }) :=
      h.visit rfl hcoll' hmir hcontents
    exact hcounted.dropMapping hcoll hres hdel
  · have hnone : b.outside.contents b.registry ext = none := by
      rw [MatrixAdapter.contents_eq hl, MatrixAdapter.row?_eq_none hin]
      exact ite_self _
    have herase : (cfg.service kind).eraseLabel call l b.outside =
        (.ok (⟨false, 0, some "unknown label"⟩, none), b.outside) := by
      simp only [eraseLabel, MatrixConfig.service, Option.bind_none, backend, hardDeleteLabel,
        AList.lookup_eq_none.mpr hin]
    rw [eraseResolved, hsnap]
    simp only [herase]
    exact h.visit rfl rfl h.mirrored (update_none_self hnone).symm

/-- **The turn of one id**: it raises out of the loop, or the id has no vector any more. -/
theorem sweeps_eraseId (hkind : kind.Lawful) {b : Batch (MatrixAdapter κ) D}
    (h : Sweeps kind own m b) (hcoll : call.collection = own) {ext : String}
    (hs : strip ext = ext) (hne : ext ≠ "") :
    Sweeps kind own m (eraseId (cfg.service kind) amb call ext b).2 := by
  rcases Registry.resolve_cases call.collection hs hne with
    ⟨l, -, hres⟩ | ⟨message, hnone, hres⟩ | ⟨message, -, hres⟩
  · rw [eraseId, hres]
    exact sweeps_eraseResolved hkind h hcoll hres
  · rw [eraseId, hres]
    simp only
    split
    · have hgone : b.outside.contents b.registry ext = none := by
        rw [MatrixAdapter.contents, h.collection, ← hcoll, hnone]
        rfl
      exact h.visit rfl rfl h.mirrored (update_none_self hgone).symm
    · exact h
  · rw [eraseId, hres]
    exact h

/-- **The loop.** -/
theorem sweeps_eraseAll (hkind : kind.Lawful) {ids : List String} {b : Batch (MatrixAdapter κ) D}
    (h : Sweeps kind own m b) (hcoll : call.collection = own)
    (hids : ∀ ext ∈ ids, strip ext = ext ∧ ext ≠ "") :
    Sweeps kind own m (eraseAll (cfg.service kind) amb call ids b).2 := by
  induction ids generalizing b with
  | nil => exact h
  | cons ext rest ih =>
    obtain ⟨hs, hne⟩ := hids ext List.mem_cons_self
    have hturn : Sweeps kind own m (eraseId (cfg.service kind) amb call ext b).2 :=
      sweeps_eraseId hkind h hcoll hs hne
    rw [eraseAll]
    rcases heq : eraseId (cfg.service kind) amb call ext b with ⟨_ | e, b'⟩
    · rw [heq] at hturn
      exact ih hturn fun e he => hids e (List.mem_cons_of_mem ext he)
    · rw [heq] at hturn
      exact hturn

/-! ## `delete` -/

/-- What is not an erase keeps the map. -/
def SameMap (kind : MatrixKind κ) (a a' : MatrixAdapter κ) : Prop :=
  a'.collection = a.collection ∧ ∀ reg, kind.Mirrored reg a →
    kind.Mirrored reg a' ∧ a'.contents reg = a.contents reg

theorem unmoved_sameMap (hkind : kind.Lawful) :
    Service.Unmoved (cfg.service kind) (SameMap kind) where
  refl a := ⟨rfl, fun _ h => ⟨h, rfl⟩⟩
  trans a b c hab hbc := by
    refine ⟨hbc.1.trans hab.1, fun reg h => ?_⟩
    obtain ⟨h₁, e₁⟩ := hab.2 reg h
    obtain ⟨h₂, e₂⟩ := hbc.2 reg h₁
    exact ⟨h₂, e₂.trans e₁⟩
  getVector f hf label a := by
    obtain rfl := Option.some.inj hf
    exact ⟨rfl, fun _ h => ⟨h, rfl⟩⟩
  verifyZeroed collection label a := ⟨rfl, fun _ h => ⟨h, rfl⟩⟩
  compact f hf a := by
    obtain rfl := Option.some.inj hf
    refine ⟨rfl, fun reg h => ?_⟩
    obtain ⟨hmir, hcontents, -⟩ := mirrors_compact hkind h
    exact ⟨hmir, hcontents⟩
  receiptLog f hf receipt a := by
    obtain ⟨append, -, rfl⟩ := Option.map_eq_some_iff.mp hf
    exact ⟨rfl, fun _ h => ⟨h, rfl⟩⟩

/-- What `delete` leaves is what its loop left, for the map. -/
theorem delete_sweeps (hkind : kind.Lawful) {st : ServiceState (MatrixAdapter κ) D}
    (h : kind.Mirrored st.registry st.outside) (hcoll : call.collection = st.outside.collection) :
    ∃ b : Batch (MatrixAdapter κ) D,
      Sweeps kind st.outside.collection (st.outside.contents st.registry) b ∧
      ((cfg.service kind).delete amb call st).visits = b.visits ∧
      ((cfg.service kind).delete amb call st).state.registry = b.registry ∧
      SameMap kind b.outside ((cfg.service kind).delete amb call st).state.outside := by
  have hmap : Service.Unmoved (cfg.service kind) (SameMap kind) := unmoved_sameMap hkind
  have hstart : ∀ messages, Sweeps kind st.outside.collection (st.outside.contents st.registry)
      (Batch.start st messages) := fun messages => ⟨rfl, h, (VectorMap.without_nil _).symm⟩
  rw [Service.delete]
  rcases (cfg.service kind).compactMode amb call st with message | mode
  · exact ⟨_, hstart [], rfl, rfl, hmap.refl _⟩
  · simp only
    have hloop : Sweeps kind st.outside.collection (st.outside.contents st.registry)
        (eraseAll (cfg.service kind) amb call call.extIds
          (Batch.start st ((cfg.service kind).adaptCompact amb call st).2)).2 :=
      sweeps_eraseAll hkind (hstart _) hcoll call.extIds_normal
    rcases heq : eraseAll (cfg.service kind) amb call call.extIds
      (Batch.start st ((cfg.service kind).adaptCompact amb call st).2) with ⟨_ | e, b⟩
    · rw [heq] at hloop
      obtain ⟨hvisits, hreg⟩ : ((cfg.service kind).conclude amb call mode st.policy b).visits =
          b.visits ∧ _ := conclude_frame mode st.policy b
      exact ⟨b, hloop, hvisits, hreg, conclude_outside hmap amb call mode st.policy b⟩
    · rw [heq] at hloop
      exact ⟨b, hloop, rfl, rfl, hmap.refl _⟩

/-- **`delete`** takes out of the map the ids that it visits. -/
theorem mirrors_delete (hkind : kind.Lawful) {st : MatrixState κ}
    (h : kind.Mirrored st.registry st.adapter) (cfg : MatrixConfig D)
    (policy : CompactCoalescePolicy D) (amb : Ambient (MatrixAdapter κ) D)
    (hcoll : call.collection = st.adapter.collection) :
    kind.Mirrored (st.delete kind cfg policy amb call).state.registry
        (st.delete kind cfg policy amb call).state.outside ∧
      (st.delete kind cfg policy amb call).state.outside.collection = st.adapter.collection ∧
      (st.delete kind cfg policy amb call).state.outside.contents
          (st.delete kind cfg policy amb call).state.registry =
        (st.adapter.contents st.registry).without
          ((st.delete kind cfg policy amb call).visits.map Visit.ext) := by
  obtain ⟨b, hsweeps, hvisits, hreg, hcollection, hmap⟩ : ∃ b : Batch (MatrixAdapter κ) D, _ ∧
      ((cfg.service kind).delete amb call ⟨st.registry, st.adapter, policy⟩).visits = b.visits ∧ _ :=
    delete_sweeps hkind h hcoll
  obtain ⟨hmirrored, hcontents⟩ := hmap b.registry hsweeps.mirrored
  refine ⟨?_, hcollection.trans hsweeps.collection, ?_⟩
  · rw [MatrixState.delete, hreg]
    exact hmirrored
  · rw [MatrixState.delete, hreg, hcontents, hsweeps.contents, hvisits]

/-- The rows of these labels are the same, and they have the same index. -/
def SparesRow (rows : Dict ℤ ℕ) (i : ℕ) (a a' : MatrixAdapter κ) : Prop :=
  a.labelToRow = rows → a'.labelToRow = rows ∧ a'.vectors[i]? = a.vectors[i]?

theorem unmoved_sparesRow (rows : Dict ℤ ℕ) (i : ℕ) :
    Service.Unmoved (cfg.service kind) (SparesRow rows i) where
  refl a h := ⟨h, rfl⟩
  trans a b c hab hbc h := by
    obtain ⟨h₁, e₁⟩ := hab h
    obtain ⟨h₂, e₂⟩ := hbc h₁
    exact ⟨h₂, e₂.trans e₁⟩
  getVector f hf label a := by
    obtain rfl := Option.some.inj hf
    exact fun h => ⟨h, rfl⟩
  verifyZeroed collection label a h := ⟨h, rfl⟩
  compact f hf a := by
    obtain rfl := Option.some.inj hf
    exact fun h => ⟨h, rfl⟩
  receiptLog f hf receipt a := by
    obtain ⟨append, -, rfl⟩ := Option.map_eq_some_iff.mp hf
    exact fun h => ⟨h, rfl⟩

/-- **A delete changes no other row**, and no row's place. -/
theorem delete_spares (cfg : MatrixConfig D) (policy : CompactCoalescePolicy D)
    (amb : Ambient (MatrixAdapter κ) D) (call : DeleteCall) (st : MatrixState κ) {i : ℕ}
    (hi : ∀ ext ∈ call.extIds, ∀ l, st.registry.label? (strip call.collection) ext = some l →
      st.adapter.labelToRow.lookup l ≠ some i) :
    (st.delete kind cfg policy amb call).state.outside.labelToRow = st.adapter.labelToRow ∧
      (st.delete kind cfg policy amb call).state.outside.vectors[i]? =
        st.adapter.vectors[i]? := by
  have hspares : SparesRow st.adapter.labelToRow i st.adapter
      (st.delete kind cfg policy amb call).state.outside := by
    rw [MatrixState.delete]
    refine delete_outside (unmoved_sparesRow st.adapter.labelToRow i)
      ⟨st.registry, st.adapter, policy⟩ fun ext hext l hl o ho => ?_
    have hne := hi ext hext l hl
    rw [← ho] at hne
    simp only [eraseLabel, MatrixConfig.service, Option.bind_none, backend, hardDeleteLabel]
    split
    · exact ⟨ho, rfl⟩
    · rename_i j hj
      rw [hj] at hne
      exact ⟨ho, List.getElem?_set_ne fun heq => hne (congrArg some heq)⟩
  exact hspares rfl

end MatrixKind

/-! ## Runs -/

namespace MatrixCall

variable {κ D : Type} [PyFloat D]

/-- Ids without surrounding blanks, and one collection, spelled in one way. -/
def Proper (own : String) : MatrixCall κ D → Prop
  | .add externalIds _ collection =>
    (∀ ext ∈ externalIds, MatrixAdapter.Proper ext) ∧ MatrixKind.Names own collection
  | .delete _ _ _ call => call.collection = own
  | .compact => True

/-- What a call does to the map: `add` puts its batch, if it returns; `delete` takes out the
ids that it visits. -/
def onMap (kind : MatrixKind κ) (printable : Char → Bool) (st : MatrixState κ) (m : VectorMap) :
    MatrixCall κ D → VectorMap
  | .add externalIds vectors collection =>
    match (kind.add printable externalIds vectors collection st.registry st.adapter).1 with
    | .ok _ => m.putAll (MatrixKind.batch externalIds vectors)
    | .error _ => m
  | .delete cfg policy amb call =>
    m.without ((st.delete kind cfg policy amb call).visits.map Visit.ext)
  | .compact => m

end MatrixCall

/-- **What holds of every state that a run reaches.** A label is live if it has a row and is
not deleted. -/
structure RefinesMap {κ : Type} (D : Type) [PyFloat D] (kind : MatrixKind κ)
    (printable : Char → Bool) (own : String) (st : MatrixState κ) : Prop where
  injective : ∀ l l' i, st.adapter.labelToRow.lookup l = some i →
    st.adapter.labelToRow.lookup l' = some i → l = l'
  inRange : ∀ l i, st.adapter.labelToRow.lookup l = some i → i < st.adapter.vectors.length
  deleted_zero : ∀ l ∈ st.adapter.deleted, ∀ row, st.adapter.row? l = some row →
    zeroRow row = true
  /-- a point is the row of a live label, under its id -/
  points_live : ∀ ext row, (kind.pointsOf st.adapter).lookup ext = some row →
    ∃ l, l ∉ st.adapter.deleted ∧ st.adapter.row? l = some row ∧
      st.adapter.labelToExt.lookup l = some ext ∧
      st.registry.label? (strip own) ext = some l
  /-- a live label whose row is not zero has its point -/
  live_points : ∀ l row, l ∉ st.adapter.deleted → st.adapter.row? l = some row →
    zeroRow row = false → ∃ ext, st.adapter.labelToExt.lookup l = some ext ∧
      st.registry.label? (strip own) ext = some l ∧
      (kind.pointsOf st.adapter).lookup ext = some row
  delete_spares : ∀ (cfg : MatrixConfig D) policy amb (call : DeleteCall) i,
    (∀ ext ∈ call.extIds, ∀ l, st.registry.label? (strip call.collection) ext = some l →
      st.adapter.labelToRow.lookup l ≠ some i) →
    (st.delete kind cfg policy amb call).state.outside.labelToRow = st.adapter.labelToRow ∧
      (st.delete kind cfg policy amb call).state.outside.vectors[i]? = st.adapter.vectors[i]?
  delete_visits : ∀ (cfg : MatrixConfig D) policy amb (call : DeleteCall) receipt,
    (st.delete kind cfg policy amb call).result = .ok receipt →
    (st.delete kind cfg policy amb call).visits.map Visit.ext = call.extIds
  compact_counts : (kind.compact st.adapter).1 =
    (kind.pointsOf (kind.compact st.adapter).2).items.length
  /-- the next call does to the contents what it does to the map -/
  step_contents : ∀ call : MatrixCall κ D, call.Proper own →
    (st.step kind printable call).adapter.contents (st.step kind printable call).registry =
      call.onMap kind printable st (st.adapter.contents st.registry)

namespace MatrixKind

variable {κ D : Type} [PyFloat D] {kind : MatrixKind κ} {st : MatrixState κ}

/-- **One call** keeps the invariant, and does to the contents what it does to the map. -/
theorem mirrors_step (hkind : kind.Lawful) (h : kind.Mirrored st.registry st.adapter)
    (printable : Char → Bool) {call : MatrixCall κ D} (hcall : call.Proper st.adapter.collection) :
    kind.Mirrored (st.step kind printable call).registry (st.step kind printable call).adapter ∧
      (st.step kind printable call).adapter.collection = st.adapter.collection ∧
      (st.step kind printable call).adapter.contents (st.step kind printable call).registry =
        call.onMap kind printable st (st.adapter.contents st.registry) := by
  cases call with
  | add externalIds vectors collection =>
    obtain ⟨hids, hnames⟩ := hcall
    rcases mirrors_add hkind h printable hids vectors hnames with
      ⟨labels, reg', a', heq, hmir, hcoll, hcontents⟩ | ⟨message, heq⟩
    · simp only [MatrixState.step, MatrixCall.onMap, heq]
      exact ⟨hmir, hcoll, hcontents⟩
    · simp only [MatrixState.step, MatrixCall.onMap, heq]
      exact ⟨h, trivial, trivial⟩
  | delete cfg policy amb call =>
    exact mirrors_delete hkind h cfg policy amb hcall
  | compact =>
    obtain ⟨hmir, hcontents, -⟩ := mirrors_compact hkind h
    exact ⟨hmir, rfl, hcontents⟩

/-- **A run** keeps the invariant. -/
theorem mirrors_run (hkind : kind.Lawful) (h : kind.Mirrored st.registry st.adapter)
    (printable : Char → Bool) {calls : List (MatrixCall κ D)}
    (hcalls : ∀ call ∈ calls, call.Proper st.adapter.collection) :
    kind.Mirrored (st.run kind printable calls).registry (st.run kind printable calls).adapter ∧
      (st.run kind printable calls).adapter.collection = st.adapter.collection := by
  induction calls generalizing st with
  | nil => exact ⟨h, rfl⟩
  | cons call rest ih =>
    obtain ⟨h₁, hcoll, -⟩ := mirrors_step hkind h printable
      (hcalls call List.mem_cons_self)
    obtain ⟨h', hcoll'⟩ := ih h₁ fun c hc => by
      rw [hcoll]
      exact hcalls c (List.mem_cons_of_mem call hc)
    exact ⟨h', hcoll'.trans hcoll⟩

theorem refinesMap_of_mirrored (hkind : kind.Lawful) (h : kind.Mirrored st.registry st.adapter)
    (D : Type) [PyFloat D] (printable : Char → Bool) :
    RefinesMap D kind printable st.adapter.collection st where
  injective := h.injective
  inRange := h.inRange
  deleted_zero := h.wiped
  points_live ext row hp := by
    obtain ⟨l, hl, hdel, hrow⟩ := MatrixAdapter.contents_eq_some.mp (h.points ext row hp)
    exact ⟨l, hdel, hrow, h.named ext l hl (MatrixAdapter.mem_of_row? hrow), hl⟩
  live_points l row hdel hrow hz := by
    have hin := MatrixAdapter.mem_of_row? hrow
    obtain ⟨ext, hl⟩ := h.live l hin hdel
    exact ⟨ext, h.named ext l hl hin, hl,
      h.served ext row (MatrixAdapter.contents_eq_some.mpr ⟨l, hl, hdel, hrow⟩) hz⟩
  delete_spares cfg policy amb call i hi := delete_spares cfg policy amb call st hi
  delete_visits cfg policy amb call receipt hres := by
    obtain ⟨mode, b, summary, o, hc⟩ := Service.concluded_of_receipt hres
    rw [MatrixState.delete, hc.visits]
    exact hc.progress.visited
  compact_counts := (mirrors_compact hkind h).2.2
  step_contents call hcall := (mirrors_step hkind h printable hcall).2.2

theorem start_ok {dim : ℤ} {collection : String} (hdim : 0 < dim) (hblank : strip collection ≠ "")
    (reg : Registry) (client : κ) : start dim collection reg client =
      .ok (reg.ensureCollection (strip collection), ⟨dim, collection, [], ∅, ∅, ∅, client⟩) := by
  rw [start, if_neg (by omega), Registry.normCollection, if_neg hblank]

/-- The constructor raises for a dimension that is not positive and for a blank collection. -/
theorem args_of_start {dim : ℤ} {collection : String} {reg : Registry} {client : κ}
    {r : Registry × MatrixAdapter κ} (h : start dim collection reg client = .ok r) :
    0 < dim ∧ strip collection ≠ "" := by
  rw [start] at h
  split at h
  · cases h
  · rw [Registry.normCollection] at h
    by_cases hblank : strip collection = ""
    · rw [if_pos hblank] at h
      cases h
    · exact ⟨by omega, hblank⟩

/-- **The constructor**: there are no rows, and no points. -/
theorem mirrored_start {dim : ℤ} {collection : String} {reg reg' : Registry} {client : κ}
    {a : MatrixAdapter κ} (hreg : reg.Consistent)
    (hempty : kind.points (kind.key collection collection) client = ∅)
    (h : start dim collection reg client = .ok (reg', a)) :
    kind.Mirrored reg' a ∧ a.collection = collection := by
  obtain ⟨hdim, hblank⟩ := args_of_start h
  rw [start_ok hdim hblank] at h
  obtain ⟨rfl, rfl⟩ := Prod.mk.inj (Except.ok.inj h)
  have hnone : ∀ l, l ∉ (∅ : Dict ℤ ℕ) := fun l => AList.notMem_empty l
  have hcontents : ∀ ext, MatrixAdapter.contents (reg.ensureCollection (strip collection))
      (⟨dim, collection, [], ∅, ∅, ∅, client⟩ : MatrixAdapter κ) ext = none := by
    intro ext
    rw [MatrixAdapter.contents, Option.bind_eq_none_iff]
    intro l _
    exact ite_self _
  refine ⟨⟨⟨?_, ?_⟩, hblank, Registry.consistent_ensureCollection hreg _, ?_, ?_, ?_, ?_, ?_⟩, rfl⟩
  · intro l l' i hi
    cases hi
  · intro l i hi
    cases hi
  · exact fun ext l _ hl => absurd hl (hnone l)
  · exact fun l hl => absurd hl (hnone l)
  · exact fun l hl => absurd hl (Finset.notMem_empty l)
  · intro ext row hp
    rw [pointsOf, hempty] at hp
    cases hp
  · intro ext row hr
    rw [hcontents] at hr
    cases hr

end MatrixKind

/-! ## The two clients -/

theorem lookup_getD_setDefault {α β γ : Type} [DecidableEq α] [DecidableEq β]
    (d : Dict α (Dict β γ)) (k : α) :
    ((d.setDefault k ∅).lookup k).getD ∅ = (d.lookup k).getD ∅ := by
  rw [Dict.setDefault]
  by_cases hk : k ∈ d
  · rw [if_pos hk]
  · rw [if_neg hk, AList.lookup_insert, AList.lookup_eq_none.mpr hk]
    rfl

theorem QdrantHardDeleteAdapter.lawful (externalOf : String → ℤ → Option String) :
    (QdrantHardDeleteAdapter externalOf).Lawful where
  upsert key dim l c := by
    show (((_ : Dict String (Dict String Row)).insert key _).lookup key).getD ∅ = _
    rw [AList.lookup_insert, Option.getD_some]
    split
    · rfl
    · rename_i hkey
      simp only [InMemoryQdrantClient.store, InMemoryQdrantClient.recreateCollection,
        AList.lookup_insert, AList.lookup_eq_none.mpr hkey, Option.getD_some, Option.getD_none,
        QdrantHardDeleteAdapter]
  delete key ids c := by
    simp only [QdrantHardDeleteAdapter, InMemoryQdrantClient.deletePoints,
      InMemoryQdrantClient.store]
    rcases hkey : c.data.lookup key with _ | store
    · simp only [hkey, Option.getD_none, Dict.popAll_empty]
    · simp only [AList.lookup_insert, Option.getD_some]
  rebuild key dim c := by
    simp only [QdrantHardDeleteAdapter, InMemoryQdrantClient.store,
      InMemoryQdrantClient.recreateCollection, AList.lookup_insert, Option.getD_some]

theorem WeaviateHardDeleteAdapter.lawful (upper : Char → List Char) :
    (WeaviateHardDeleteAdapter upper).Lawful where
  upsert key dim l c := by
    simp only [WeaviateHardDeleteAdapter, InMemoryWeaviateClient.upsertObjects,
      InMemoryWeaviateClient.store, InMemoryWeaviateClient.ensureClass, AList.lookup_insert,
      Option.getD_some, lookup_getD_setDefault]
  delete key ids c := by
    simp only [WeaviateHardDeleteAdapter, InMemoryWeaviateClient.deleteObjects,
      InMemoryWeaviateClient.store]
    rcases hkey : c.objs.lookup key with _ | store
    · simp only [hkey, Option.getD_none, Dict.popAll_empty]
    · simp only [AList.lookup_insert, Option.getD_some]
  rebuild key dim c := by
    simp only [WeaviateHardDeleteAdapter, InMemoryWeaviateClient.store,
      InMemoryWeaviateClient.ensureClass, InMemoryWeaviateClient.clearClass,
      lookup_getD_setDefault, AList.lookup_insert, Option.getD_some]

/-! ## Both adapters -/

/-- **Matrix adapters refine a map.** Over every registry that a history left, and a client
without points of the collection: every state that a run of `add`, `delete` and `compact`
reaches on either adapter is the state of one map. -/
theorem matrixAdapters_refine_map (D : Type) [PyFloat D] (printable : Char → Bool)
    (externalOf : String → ℤ → Option String) (upper : Char → List Char)
    (ops : List Registry.Op) (dim : ℤ) (collection : String) :
    (∀ client ensureCollection reg a,
        (ensureCollection = true ∨ client.store collection = ∅) →
        QdrantHardDeleteAdapter.new dim collection (Registry.history printable ops) client
          ensureCollection = .ok (reg, a) →
        ∀ calls : List (MatrixCall InMemoryQdrantClient D),
          (∀ call ∈ calls, call.Proper collection) →
          RefinesMap D (QdrantHardDeleteAdapter externalOf) printable collection
            (MatrixState.run (QdrantHardDeleteAdapter externalOf) printable calls ⟨reg, a⟩)) ∧
      ∀ client reg a, client.store (className upper collection) = ∅ →
        WeaviateHardDeleteAdapter.new upper dim collection (Registry.history printable ops) client =
          .ok (reg, a) →
        ∀ calls : List (MatrixCall InMemoryWeaviateClient D),
          (∀ call ∈ calls, call.Proper collection) →
          RefinesMap D (WeaviateHardDeleteAdapter upper) printable collection
            (MatrixState.run (WeaviateHardDeleteAdapter upper) printable calls ⟨reg, a⟩) := by
  have hcons : (Registry.history printable ops).Consistent := (Registry.kept_history ops).consistent
  have hruns : ∀ {κ : Type} {kind : MatrixKind κ} (hkind : kind.Lawful) {client : κ} {reg a},
      kind.points (kind.key collection collection) client = ∅ →
      MatrixKind.start dim collection (Registry.history printable ops) client = .ok (reg, a) →
      ∀ calls : List (MatrixCall κ D), (∀ call ∈ calls, call.Proper collection) →
        RefinesMap D kind printable collection (MatrixState.run kind printable calls ⟨reg, a⟩) := by
    intro κ kind hkind client reg a hempty hstart calls hcalls
    obtain ⟨hmir, hown⟩ := MatrixKind.mirrored_start hcons hempty hstart
    have hproper : ∀ call ∈ calls, call.Proper a.collection := fun c hc => hown ▸ hcalls c hc
    obtain ⟨h, hcoll⟩ : _ ∧ (MatrixState.run kind printable calls ⟨reg, a⟩).adapter.collection =
        a.collection := MatrixKind.mirrors_run hkind hmir printable hproper
    have hrefines := MatrixKind.refinesMap_of_mirrored hkind h D printable
    rw [hcoll, hown] at hrefines
    exact hrefines
  refine ⟨fun client ensureCollection reg a hempty hnew calls hcalls => ?_,
    fun client reg a hempty hnew calls hcalls => ?_⟩
  · refine hruns (QdrantHardDeleteAdapter.lawful externalOf) ?_ hnew calls hcalls
    show InMemoryQdrantClient.store (if collection = "" then collection else collection) _ = ∅
    rw [ite_self]
    split
    · rw [InMemoryQdrantClient.store, InMemoryQdrantClient.recreateCollection, AList.lookup_insert]
      rfl
    · rename_i hno
      exact hempty.resolve_left hno
  · refine hruns (WeaviateHardDeleteAdapter.lawful upper) ?_ hnew calls hcalls
    exact (lookup_getD_setDefault client.objs _).trans hempty

/-- A service without a receipt log. -/
def matrixConfig : MatrixConfig ℚ where
  dropMappings := true
  defaultCompact := .auto
  defaultResidualProof := none
  receiptLog := none
  signingKey := [0x6b]

/-- A quiet environment of a delete. -/
def matrixAmbient (κ : Type) : Ambient (MatrixAdapter κ) ℚ where
  environ _ := none
  printable _ := true
  uuid4 := "00000000-0000-4000-8000-000000000001"
  timeNs := 0
  noteTime := 0
  decideTime := 0
  pathText path := path
  file _ _ := none

/-- Two ids are added, one of them is deleted, and the collection is compacted. -/
def addedAndDeleted (κ : Type) : List (MatrixCall κ ℚ) :=
  [.add ["ann", "bob"] (.matrix ⟨1, [[0x3f800000], [0x40400000]], by decide⟩) none,
    .delete matrixConfig Service.twoUsers.policy (matrixAmbient κ)
      (Service.plainCall "docs" ["ann"]),
    .compact]

theorem proper_addedAndDeleted (κ : Type) :
    ∀ call ∈ addedAndDeleted κ, call.Proper "docs" := by
  have hann : MatrixAdapter.Proper "ann" := by
    unfold MatrixAdapter.Proper
    decide +kernel
  have hbob : MatrixAdapter.Proper "bob" := by
    unfold MatrixAdapter.Proper
    decide +kernel
  simp [addedAndDeleted, MatrixCall.Proper, hann, hbob, MatrixKind.Names, Service.plainCall]

theorem matrixAdapters_refine_map_docs :
    (∃ reg a, QdrantHardDeleteAdapter.new 1 "docs" (Registry.history (fun _ => true) [])
          .empty true = .ok (reg, a) ∧
        RefinesMap ℚ (QdrantHardDeleteAdapter fun _ _ => none) (fun _ => true) "docs"
          (MatrixState.run (QdrantHardDeleteAdapter fun _ _ => none) (fun _ => true)
            (addedAndDeleted InMemoryQdrantClient) ⟨reg, a⟩)) ∧
      ∃ reg a, WeaviateHardDeleteAdapter.new (fun c => [c.toUpper]) 1 "docs"
          (Registry.history (fun _ => true) []) .empty = .ok (reg, a) ∧
        RefinesMap ℚ (WeaviateHardDeleteAdapter fun c => [c.toUpper]) (fun _ => true) "docs"
          (MatrixState.run (WeaviateHardDeleteAdapter fun c => [c.toUpper]) (fun _ => true)
            (addedAndDeleted InMemoryWeaviateClient) ⟨reg, a⟩) := by
  have hdocs : strip "docs" ≠ "" := by decide +kernel
  have hboth := matrixAdapters_refine_map ℚ (fun _ => true) (fun _ _ => none)
    (fun c => [c.toUpper]) [] 1 "docs"
  have hqdrant := MatrixKind.start_ok (by decide : (0 : ℤ) < 1) hdocs
    (Registry.history (fun _ => true) [])
    (InMemoryQdrantClient.empty.recreateCollection "docs" 1)
  have hweaviate := MatrixKind.start_ok (by decide : (0 : ℤ) < 1) hdocs
    (Registry.history (fun _ => true) [])
    (InMemoryWeaviateClient.empty.ensureClass (className (fun c => [c.toUpper]) "docs") 1)
  refine ⟨⟨_, _, hqdrant, ?_⟩, ⟨_, _, hweaviate, ?_⟩⟩
  · exact hboth.1 .empty true _ _ (Or.inl rfl) hqdrant _ (proper_addedAndDeleted _)
  · exact hboth.2 .empty _ _ rfl hweaviate _ (proper_addedAndDeleted _)

end Unlearning
