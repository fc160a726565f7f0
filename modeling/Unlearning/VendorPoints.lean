import Unlearning.MatrixRuns

/-!
# Points that a delete leaves in the vendor store

The registry strips an id before it looks up its label; `QdrantHardDeleteAdapter.add` upserts
the point under the id as it was given, in the collection as it was given, and
`_label_to_ext` has one spelling per label. So an id may have several points, and
`hard_delete_label` deletes the one that it remembers.

`upserted` is the history of a run of `add` calls; `delete_removes_points_iff` says when a
successful delete without compaction leaves none of an id's points.
-/

namespace Unlearning

open PyText FloatArith PyFloat

/-- A call of `add`. -/
structure AddCall where
  externalIds : List String
  vectors : VectorsArg
  collection : Option String

namespace MatrixState

variable {κ : Type}

/-- The collection of a call, as it is given to the registry and to the client. -/
def target (collection : Option String) (st : MatrixState κ) : String :=
  (collection.filter fun c => c ≠ "").getD st.adapter.collection

/-- The state after a call of `add`, whether or not it raised. -/
def afterAdd (kind : MatrixKind κ) (printable : Char → Bool) (st : MatrixState κ) (c : AddCall) :
    MatrixState κ :=
  let after := (kind.add printable c.externalIds c.vectors c.collection st.registry st.adapter).2
  ⟨after.1, after.2⟩

/-- The state after a run of them. -/
def addAll (kind : MatrixKind κ) (printable : Char → Bool) (adds : List AddCall)
    (st : MatrixState κ) : MatrixState κ :=
  adds.foldl (afterAdd kind printable) st

/-- The points that a run upserts: collection and id, as they were given. -/
def upserted (kind : MatrixKind κ) (printable : Char → Bool) :
    List AddCall → MatrixState κ → List (String × String)
  | [], _ => []
  | c :: rest, st =>
    (match (kind.add printable c.externalIds c.vectors c.collection st.registry st.adapter).1 with
      | .ok _ => c.externalIds.map fun ext => (st.target c.collection, ext)
      | .error _ => []) ++ upserted kind printable rest (st.afterAdd kind printable c)

end MatrixState

/-! ## What a run of `add` leaves -/

section Adds

variable {printable : Char → Bool}

/-- A blank id is not registered. -/
theorem Registry.strip_ne_of_register_ok {reg : Registry} {collection ext : String} {label : ℤ}
    (h : (reg.register printable collection ext none).1 = .ok label) : strip ext ≠ "" := by
  intro hblank
  rw [Registry.register, Registry.normExternal, if_pos hblank] at h
  rcases hcoll : Registry.normCollection collection with e | coll
  · rw [hcoll] at h
    cases h
  · rw [hcoll] at h
    cases h

/-- What the loop of `add` keeps, whether or not it raises. -/
theorem MatrixAdapter.addRows_keeps {κ : Type} (a : MatrixAdapter κ) (printable : Char → Bool)
    (coll : String) (rows : List (String × Row)) {reg : Registry} (hreg : reg.Consistent)
    (hnamed : ∀ l ∈ a.labelToRow, ∃ ext, a.labelToExt.lookup l = some ext) :
    (a.addRows printable coll rows reg).2.1.Consistent ∧
      (∀ l ∈ (a.addRows printable coll rows reg).2.2.labelToRow,
        ∃ ext, (a.addRows printable coll rows reg).2.2.labelToExt.lookup l = some ext) ∧
      (a.addRows printable coll rows reg).2.2.client = a.client ∧
      (a.addRows printable coll rows reg).2.2.collection = a.collection ∧
      ∀ labels, (a.addRows printable coll rows reg).1 = .ok labels →
        ∀ q ∈ rows, strip q.1 ≠ "" := by
  induction rows generalizing reg a with
  | nil => exact ⟨hreg, hnamed, rfl, rfl, fun _ _ q hq => by cases hq⟩
  | cons q rest ih =>
    have hcons : (reg.register printable coll q.1 none).2.Consistent :=
      Registry.consistent_register hreg coll q.1 none
    rw [addRows]
    rcases heq : reg.register printable coll q.1 none with ⟨e | label, reg'⟩
    · rw [heq] at hcons
      exact ⟨hcons, hnamed, rfl, rfl, fun labels h => by cases h⟩
    · rw [heq] at hcons
      have hq : strip q.1 ≠ "" := Registry.strip_ne_of_register_ok (by rw [heq])
      have hplaced : ∀ l ∈ (a.place label q.1 q.2).labelToRow,
          ∃ ext, (a.place label q.1 q.2).labelToExt.lookup l = some ext := by
        intro l hl
        rw [place_labelToExt]
        by_cases hlab : l = label
        · exact ⟨q.1, by rw [hlab, AList.lookup_insert]⟩
        · rw [AList.lookup_insert_ne hlab]
          refine hnamed l ?_
          unfold MatrixAdapter.place at hl
          split at hl
          · exact hl
          · exact ((AList.mem_insert _).mp hl).resolve_left hlab
      obtain ⟨hcons', hnamed', hclient, hcoll, hblank⟩ := ih _ hcons hplaced
      simp only
      rcases hrest : (a.place label q.1 q.2).addRows printable coll rest reg' with
        ⟨e | labels, reg'', a''⟩
      · rw [hrest] at hcons' hnamed' hclient hcoll
        exact ⟨hcons', hnamed', hclient.trans (place_client _ _ _ _),
          hcoll.trans (place_collection _ _ _ _), fun labels h => by cases h⟩
      · rw [hrest] at hcons' hnamed' hclient hcoll hblank
        refine ⟨hcons', hnamed', hclient.trans (place_client _ _ _ _),
          hcoll.trans (place_collection _ _ _ _), fun _ _ => ?_⟩
        exact List.forall_mem_cons.mpr ⟨hq, hblank labels rfl⟩

namespace InMemoryQdrantClient

theorem store_upsertPoints (key : String) (dim : ℤ) (l : List (String × Row))
    (client : InMemoryQdrantClient) (k : String) :
    (client.upsertPoints key dim l).store k =
      if k = key then (client.store key).putAll l else client.store k := by
  have hlawful := (QdrantHardDeleteAdapter.lawful fun _ _ => none).upsert key dim l client
  by_cases hk : k = key
  · rw [if_pos hk, hk]
    exact hlawful
  · rw [if_neg hk, store, upsertPoints, AList.lookup_insert_ne hk]
    split
    · rfl
    · simp only [recreateCollection, AList.lookup_insert_ne hk]
      rfl

theorem store_deletePoints (key : String) (ids : List String) (client : InMemoryQdrantClient)
    (k : String) : (client.deletePoints key ids).store k =
      if k = key then (client.store key).popAll ids else client.store k := by
  have hlawful := (QdrantHardDeleteAdapter.lawful fun _ _ => none).delete key ids client
  by_cases hk : k = key
  · rw [if_pos hk, hk]
    exact hlawful
  · rw [if_neg hk, store, deletePoints]
    split
    · rfl
    · simp only [AList.lookup_insert_ne hk]
      rfl

end InMemoryQdrantClient

/-- Assignments add their keys and lose none. -/
theorem Dict.mem_putAll {α β : Type} [DecidableEq α] {l : List (α × β)} {d : Dict α β} {k : α} :
    k ∈ d.putAll l ↔ k ∈ l.map Prod.fst ∨ k ∈ d := by
  induction l generalizing d with
  | nil => simp [Dict.putAll]
  | cons p rest ih =>
    show k ∈ Dict.putAll (d.insert p.1 p.2) rest ↔ _
    rw [ih, AList.mem_insert, List.map_cons, List.mem_cons]
    tauto

/-- What holds after a run of `add`, with the points that it upserted. -/
structure Traced (st : MatrixState InMemoryQdrantClient) (stored : List (String × String)) :
    Prop where
  consistent : st.registry.Consistent
  named : ∀ l ∈ st.adapter.labelToRow, ∃ ext, st.adapter.labelToExt.lookup l = some ext
  nonblank : ∀ q ∈ stored, strip q.2 ≠ ""
  held : ∀ q ∈ stored, q.2 ∈ st.adapter.client.store q.1

variable {externalOf : String → ℤ → Option String}
  {st : MatrixState InMemoryQdrantClient} {stored : List (String × String)}

/-- **The outcomes of `add`**: it raises, with the client as it was, or it upserts its batch. -/
theorem MatrixKind.add_cases {κ : Type} (kind : MatrixKind κ) (printable : Char → Bool)
    (c : AddCall) (st : MatrixState κ) :
    (∃ e, (kind.add printable c.externalIds c.vectors c.collection st.registry st.adapter).1 =
        .error e ∧
      ((kind.add printable c.externalIds c.vectors c.collection st.registry st.adapter).2 =
          (st.registry, st.adapter) ∨
        (kind.add printable c.externalIds c.vectors c.collection st.registry st.adapter).2 =
          (st.adapter.addRows printable (st.target c.collection)
            (c.externalIds.zip c.vectors.reshaped.rows) st.registry).2)) ∨
      ∃ labels reg a, st.adapter.addRows printable (st.target c.collection)
          (c.externalIds.zip c.vectors.reshaped.rows) st.registry = (.ok labels, reg, a) ∧
        c.externalIds.length = c.vectors.reshaped.rows.length ∧
        kind.add printable c.externalIds c.vectors c.collection st.registry st.adapter =
          (.ok labels, reg,
            { a with
              client := kind.upsert (kind.key a.collection (st.target c.collection))
                c.vectors.reshaped.width (c.externalIds.zip c.vectors.reshaped.rows) a.client }) := by
  rw [add]
  by_cases hdim : (c.vectors.reshaped.width : ℤ) ≠ st.adapter.dim
  · rw [if_pos hdim]
    exact Or.inl ⟨_, rfl, Or.inl rfl⟩
  · rw [if_neg hdim]
    by_cases hlen : c.externalIds.length ≠ c.vectors.reshaped.rows.length
    · rw [if_pos hlen]
      exact Or.inl ⟨_, rfl, Or.inl rfl⟩
    · rw [if_neg hlen, MatrixState.target]
      rcases st.adapter.addRows printable
        ((c.collection.filter fun c => c ≠ "").getD st.adapter.collection)
        (c.externalIds.zip c.vectors.reshaped.rows) st.registry with ⟨e | labels, reg, a⟩
      · exact Or.inl ⟨e, rfl, Or.inr rfl⟩
      · simp only
        split
        · exact Or.inl ⟨_, rfl, Or.inr rfl⟩
        · exact Or.inr ⟨labels, reg, a, rfl, not_not.mp hlen, rfl⟩

/-- The client stores a batch under the collection as it was given. -/
theorem key_target {collection : Option String} {a : MatrixAdapter InMemoryQdrantClient}
    (hcoll : a.collection = st.adapter.collection) :
    (QdrantHardDeleteAdapter externalOf).key a.collection (st.target collection) =
      st.target collection := by
  show (if st.target collection = "" then a.collection else st.target collection) = _
  split
  · rename_i hempty
    rw [hempty, hcoll]
    -- only the adapter's own collection can be blank
    rcases hfilter : collection.filter fun c => c ≠ "" with _ | own
    · rw [MatrixState.target, hfilter] at hempty
      exact hempty
    · rw [MatrixState.target, hfilter] at hempty
      obtain ⟨-, hne⟩ := Option.filter_eq_some_iff.mp hfilter
      exact absurd hempty (by simpa using hne)
  · rfl

/-- **A call of `add`**, with the points that it upserts. -/
theorem traced_afterAdd (externalOf : String → ℤ → Option String) (printable : Char → Bool)
    (h : Traced st stored) (c : AddCall) :
    Traced (st.afterAdd (QdrantHardDeleteAdapter externalOf) printable c)
      (stored ++ match ((QdrantHardDeleteAdapter externalOf).add printable c.externalIds c.vectors
          c.collection st.registry st.adapter).1 with
        | .ok _ => c.externalIds.map fun ext => (st.target c.collection, ext)
        | .error _ => []) := by
  obtain ⟨hcons, hnamed, hclient, hcoll, hblank⟩ :=
    st.adapter.addRows_keeps printable (st.target c.collection)
      (c.externalIds.zip c.vectors.reshaped.rows) h.consistent h.named
  rw [MatrixState.afterAdd]
  rcases (QdrantHardDeleteAdapter externalOf).add_cases printable c st with
    ⟨e, he, hsame | hrows⟩ | ⟨labels, reg, a, hrows, hlen, hadd⟩
  · rw [he, hsame, List.append_nil]
    exact h
  · rw [he, hrows, List.append_nil]
    refine ⟨hcons, hnamed, h.nonblank, fun q hq => ?_⟩
    rw [hclient]
    exact h.held q hq
  · rw [hrows] at hcons hnamed hclient hcoll hblank
    have hfst : (c.externalIds.zip c.vectors.reshaped.rows).map Prod.fst = c.externalIds :=
      List.map_fst_zip hlen.le
    rw [hadd]
    simp only
    refine ⟨hcons, hnamed, fun q hq => ?_, fun q hq => ?_⟩
    · rcases List.mem_append.mp hq with hold | hnew
      · exact h.nonblank q hold
      · obtain ⟨ext, hext, rfl⟩ := List.mem_map.mp hnew
        rw [← hfst] at hext
        obtain ⟨point, hpoint, rfl⟩ := List.mem_map.mp hext
        exact hblank labels rfl point hpoint
    · show q.2 ∈ InMemoryQdrantClient.store q.1 (InMemoryQdrantClient.upsertPoints _ _ _ _)
      rw [key_target hcoll, InMemoryQdrantClient.store_upsertPoints, hclient]
      rcases List.mem_append.mp hq with hold | hnew
      · have hheld := h.held q hold
        split
        · rename_i hkey
          exact Dict.mem_putAll.mpr (Or.inr (hkey ▸ hheld))
        · exact hheld
      · obtain ⟨ext, hext, rfl⟩ := List.mem_map.mp hnew
        rw [if_pos rfl]
        exact Dict.mem_putAll.mpr (Or.inl (hfst.symm ▸ hext))

/-- **A run of `add`**, from a state without upserted points. -/
theorem traced_addAll (externalOf : String → ℤ → Option String) (printable : Char → Bool)
    (adds : List AddCall) (h : Traced st stored) :
    Traced (st.addAll (QdrantHardDeleteAdapter externalOf) printable adds)
      (stored ++ st.upserted (QdrantHardDeleteAdapter externalOf) printable adds) := by
  induction adds generalizing st stored with
  | nil =>
    rw [MatrixState.upserted, List.append_nil]
    exact h
  | cons c rest ih =>
    have hrest := ih (traced_afterAdd externalOf printable h c)
    rw [List.append_assoc] at hrest
    exact hrest

/-- A new adapter has upserted nothing. -/
theorem traced_new {ops : List Registry.Op} {dim : ℤ} {collection : String}
    {client : InMemoryQdrantClient} {ensureCollection : Bool} {reg : Registry}
    {a : MatrixAdapter InMemoryQdrantClient}
    (h : QdrantHardDeleteAdapter.new dim collection (Registry.history printable ops) client
      ensureCollection = .ok (reg, a)) : Traced ⟨reg, a⟩ [] := by
  obtain ⟨hdim, hblank⟩ := MatrixKind.args_of_start h
  rw [QdrantHardDeleteAdapter.new, MatrixKind.start_ok hdim hblank] at h
  obtain ⟨rfl, rfl⟩ := Prod.mk.inj (Except.ok.inj h)
  exact ⟨Registry.consistent_ensureCollection (Registry.kept_history ops).consistent _,
    fun l hl => absurd hl (AList.notMem_empty l), fun _ hq => absurd hq List.not_mem_nil,
    fun _ hq => absurd hq List.not_mem_nil⟩

end Adds

/-! ## A successful delete -/

/-- The spelling of an id that the adapter has for its label. -/
def MatrixState.remembered {κ : Type} (coll ext : String) (st : MatrixState κ) : Option String :=
  (st.registry.label? coll ext).bind fun l => st.adapter.labelToExt.lookup l

section Delete

open Service

variable {D : Type} [PyFloat D] {externalOf : String → ℤ → Option String} {cfg : MatrixConfig D}
  {policy : CompactCoalescePolicy D} {amb : Ambient (MatrixAdapter InMemoryQdrantClient) D}
  {call : DeleteCall} {st : MatrixState InMemoryQdrantClient} {receipt : ErasureReceipt D}

/-- Everything but an erase and a compaction leaves the adapter as it is. -/
theorem keeps_eq {κ : Type} (kind : MatrixKind κ) (cfg : MatrixConfig D) :
    Service.Keeps (cfg.service kind) Eq where
  refl _ := rfl
  trans _ _ _ h h' := h.trans h'
  getVector f hf label a := by
    obtain rfl := Option.some.inj hf
    rfl
  verifyZeroed _ _ _ := rfl
  receiptLog f hf receipt a := by
    obtain ⟨append, -, rfl⟩ := Option.map_eq_some_iff.mp hf
    rfl

/-- An erase of a label with a row reports success, and the row is zero. -/
theorem hardDeleteLabel_verified {κ : Type} (kind : MatrixKind κ) (collection : String) {l : ℤ}
    {a : MatrixAdapter κ} (hl : l ∈ a.labelToRow) :
    (kind.hardDeleteLabel collection l a).1.success = true ∧
      (kind.hardDeleteLabel collection l a).2.verifyZeroed l = true := by
  obtain ⟨i, hi⟩ := Option.isSome_iff_exists.mp (AList.lookup_isSome.mpr hl)
  simp only [MatrixKind.hardDeleteLabel, hi, MatrixAdapter.verifyZeroed, true_and]
  rw [List.getElem?_set]
  split
  · split
    · exact MatrixAdapter.zeroRow_zeros _
    · rfl
  · rename_i hne
    exact absurd rfl hne

/-- A verified turn of an id: its label has a row, which is erased. -/
theorem eraseId_verified {κ : Type} {kind : MatrixKind κ} {amb : Ambient (MatrixAdapter κ) D}
    {ext : String} {b b' : Batch (MatrixAdapter κ) D} (hs : strip ext = ext) (hne : ext ≠ "")
    (h : eraseId (cfg.service kind) amb call ext b = (none, b'))
    (hverified : ∀ v, b'.visits = b.visits ++ [v] → v.verified = true) :
    strip call.collection ≠ "" ∧ ∃ l,
      b.registry.label? (strip call.collection) ext = some l ∧ b'.labels = b.labels ++ [l] ∧
      l ∈ b.outside.labelToRow ∧
      b'.outside = (kind.hardDeleteLabel call.collection l b.outside).2 := by
  rcases Registry.resolve_cases call.collection hs hne with
    ⟨l, hl, hres⟩ | ⟨message, -, hres⟩ | ⟨message, -, hres⟩
  · rw [eraseId, hres] at h
    obtain rfl := (Prod.mk.inj h).2
    obtain ⟨originals, hsnap⟩ :=
      MatrixKind.snapshot_matrix kind cfg ((cfg.service kind).proofMode amb call) l b
    by_cases hin : l ∈ b.outside.labelToRow
    · refine ⟨?_, l, hl, ?_⟩
      · intro hblank
        rw [Registry.resolve, Registry.normCollection, if_pos hblank] at hres
        cases hres
      · obtain ⟨hsucc, hzero⟩ := hardDeleteLabel_verified kind call.collection hin
        have herase : (cfg.service kind).eraseLabel call l b.outside =
            (.ok ((kind.hardDeleteLabel call.collection l b.outside).1, none),
              (kind.hardDeleteLabel call.collection l b.outside).2) := rfl
        have hverify : (cfg.service kind).backend.verifyZeroed call.collection l
            (kind.hardDeleteLabel call.collection l b.outside).2 =
              (.ok true, (kind.hardDeleteLabel call.collection l b.outside).2) := by
          simp only [MatrixConfig.service, MatrixKind.backend, hzero]
        simp only [eraseResolved_ok hsnap herase hsucc hverify]
        rw [dropMapping_labels, dropMapping_outside]
        exact ⟨rfl, hin, rfl⟩
    · have hno : (cfg.service kind).eraseLabel call l b.outside =
          (.ok (⟨false, 0, some "unknown label"⟩, none), b.outside) := by
        simp only [eraseLabel, MatrixConfig.service, Option.bind_none, MatrixKind.backend,
          MatrixKind.hardDeleteLabel, AList.lookup_eq_none.mpr hin]
      have hbad := hverified ⟨ext, some l, some (.ok false), none⟩ (by
        simp only [eraseResolved, hsnap, hno, Bool.false_eq_true, if_false])
      cases hbad
  · rw [eraseId, hres] at h
    simp only at h
    split at h
    · obtain rfl := (Prod.mk.inj h).2
      cases hverified ⟨ext, none, none, none⟩ rfl
    · cases (Prod.mk.inj h).1
  · rw [eraseId, hres] at h
    cases (Prod.mk.inj h).1

/-- **A successful delete of one id, without compaction**: the erase of its label is all that
happened to the adapter. -/
theorem delete_one {κ : Type} {kind : MatrixKind κ} {amb : Ambient (MatrixAdapter κ) D}
    {st : MatrixState κ} {id : String} (hid : call.ids = [id])
    (hcompact : call.compact = some (.mode .never))
    (hres : (st.delete kind cfg policy amb call).result = .ok receipt)
    (hsucc : receipt.success = true) :
    strip id = "" ∧ receipt.labels = [] ∧
        (st.delete kind cfg policy amb call).state.outside = st.adapter ∨
      strip id ≠ "" ∧ strip call.collection ≠ "" ∧ ∃ l,
        st.registry.label? (strip call.collection) (strip id) = some l ∧ receipt.labels = [l] ∧
        l ∈ st.adapter.labelToRow ∧
        (st.delete kind cfg policy amb call).state.outside =
          (kind.hardDeleteLabel call.collection l st.adapter).2 := by
  have hids : call.extIds = if strip id = "" then [] else [strip id] := by
    rw [DeleteCall.extIds, batchIds, hid]
    by_cases hblank : strip id = ""
    · simp [hblank]
    · simp [hblank]
  rw [MatrixState.delete] at hres ⊢
  obtain ⟨mode, b, summary, o, hc⟩ := concluded_of_receipt hres
  have hnever : mode = .never := by
    have hmode := hc.compactMode
    simp only [compactMode, adaptCompact, hcompact, CompactArg.isAuto, Bool.false_eq_true, if_false,
      normalizeCompact] at hmode
    exact (Except.ok.inj hmode).symm
  subst hnever
  have hout : ((cfg.service kind).delete amb call ⟨st.registry, st.adapter, policy⟩).state.outside =
      b.outside := by
    have hdel : (cfg.service kind).delete amb call ⟨st.registry, st.adapter, policy⟩ =
        (cfg.service kind).conclude amb call .never policy b := by
      simp only [Service.delete, hc.compactMode, hc.loop]
    rw [hdel]
    exact (conclude_never (keeps_eq kind cfg) amb call policy b).symm
  have hlabels : receipt.labels = b.labels := by rw [hc.receipt]; rfl
  rw [hout, hlabels]
  have hloop := hc.loop
  by_cases hblank : strip id = ""
  · rw [hids, if_pos hblank, eraseAll] at hloop
    obtain ⟨-, rfl⟩ := Prod.mk.inj hloop
    exact Or.inl ⟨hblank, rfl, rfl⟩
  · refine Or.inr ⟨hblank, ?_⟩
    rw [if_neg hblank] at hids
    obtain ⟨-, -, -, hvisits⟩ := hc.complete (by rw [hids]; exact List.cons_ne_nil _ _) hsucc
    rw [hids, eraseAll] at hloop
    rcases hturn : eraseId (cfg.service kind) amb call (strip id)
      (Batch.start ⟨st.registry, st.adapter, policy⟩
        ((cfg.service kind).adaptCompact amb call ⟨st.registry, st.adapter, policy⟩).2) with
      ⟨_ | e, b₁⟩
    · rw [hturn] at hloop
      obtain rfl := (Prod.mk.inj hloop).2
      obtain ⟨hcoll, l, hl, hlab, hin, hafter⟩ := eraseId_verified (strip_strip id) hblank hturn
        fun v hv => hvisits v (by rw [hv]; simp)
      exact ⟨hcoll, l, hl, hlab, hin, hafter⟩
    · rw [hturn] at hloop
      cases (Prod.mk.inj hloop).1

/-- The erase deletes the one point that is remembered. -/
theorem store_hardDeleteLabel (externalOf : String → ℤ → Option String)
    {a : MatrixAdapter InMemoryQdrantClient} {collection ext : String} {l : ℤ}
    (hin : l ∈ a.labelToRow) (hext : a.labelToExt.lookup l = some ext) (hne : collection ≠ "")
    (key : String) :
    ((QdrantHardDeleteAdapter externalOf).hardDeleteLabel collection l a).2.client.store key =
      if key = collection then (a.client.store collection).erase ext
      else a.client.store key := by
  obtain ⟨i, hi⟩ := Option.isSome_iff_exists.mp (AList.lookup_isSome.mpr hin)
  simp only [MatrixKind.hardDeleteLabel, hi, MatrixKind.extOf, hext, QdrantHardDeleteAdapter,
    if_neg hne, InMemoryQdrantClient.store_deletePoints]
  rfl

/-- **When a successful delete leaves no point of an id.** Over every registry that a history
left, every run of `add` and every delete of one id without compaction that succeeds: the
client holds no point that was upserted under a spelling of the erased label's id if and only
if all of them were upserted in the collection that the delete names, and under the spelling
that the adapter has for the label. -/
theorem delete_removes_points_iff (printable : Char → Bool)
    (externalOf : String → ℤ → Option String) (ops : List Registry.Op) {dim : ℤ}
    {collection : String} {client : InMemoryQdrantClient} {ensureCollection : Bool}
    {reg : Registry} {a : MatrixAdapter InMemoryQdrantClient}
    (hnew : QdrantHardDeleteAdapter.new dim collection (Registry.history printable ops) client
      ensureCollection = .ok (reg, a)) (adds : List AddCall)
    (hst : st = MatrixState.addAll (QdrantHardDeleteAdapter externalOf) printable adds ⟨reg, a⟩)
    {id : String} (hid : call.ids = [id]) (hcompact : call.compact = some (.mode .never))
    (hres : (st.delete (QdrantHardDeleteAdapter externalOf) cfg policy amb call).result =
      .ok receipt) (hsucc : receipt.success = true) :
    (∀ q ∈ MatrixState.upserted (QdrantHardDeleteAdapter externalOf) printable adds ⟨reg, a⟩,
        ∀ l ∈ receipt.labels, strip q.1 = strip call.collection →
          st.registry.label? (strip q.1) (strip q.2) = some l →
          q.2 ∉ (st.delete (QdrantHardDeleteAdapter externalOf) cfg policy amb
            call).state.outside.client.store q.1) ↔
      ∀ q ∈ MatrixState.upserted (QdrantHardDeleteAdapter externalOf) printable adds ⟨reg, a⟩,
        strip q.1 = strip call.collection → strip q.2 = strip id →
          q.1 = call.collection ∧
            st.remembered (strip call.collection) (strip id) = some q.2 := by
  have htraced := traced_addAll externalOf printable adds (traced_new hnew)
  rw [List.nil_append, ← hst] at htraced
  rcases delete_one hid hcompact hres hsucc with
    ⟨hblank, hlabels, -⟩ | ⟨-, hcoll, l, hl, hlabels, hin, hout⟩
  · -- no label is erased, and no point has a blank id
    rw [hlabels]
    refine iff_of_true (fun q _ l hl => by cases hl) fun q hq _ hext => ?_
    exact absurd (hext.trans hblank) (htraced.nonblank q hq)
  · rw [hlabels, hout]
    obtain ⟨ext, hext⟩ := htraced.named l hin
    have hremembered : st.remembered (strip call.collection) (strip id) = some ext := by
      rw [MatrixState.remembered, hl]
      exact hext
    have hne : call.collection ≠ "" := by
      rintro hempty
      rw [hempty] at hcoll
      exact hcoll rfl
    refine forall₂_congr fun q hq => ?_
    have hheld := htraced.held q hq
    rw [hremembered, store_hardDeleteLabel externalOf hin hext hne]
    by_cases hsame : strip q.1 = strip call.collection
    · have hlabel : st.registry.label? (strip call.collection) (strip q.2) = some l ↔
          strip q.2 = strip id :=
        ⟨fun h => htraced.consistent.injective h hl, fun h => by rw [h, hl]⟩
      simp only [List.mem_singleton, forall_eq, hsame, hlabel, true_imp_iff]
      refine forall_congr' fun _ => ?_
      by_cases hkey : q.1 = call.collection
      · rw [if_pos hkey, and_iff_right hkey]
        by_cases hext : ext = q.2
        · refine iff_of_true (fun hmem => ?_) (congrArg some hext)
          rw [hext] at hmem
          exact absurd rfl (AList.mem_erase.mp hmem).1
        · refine iff_of_false (not_not.mpr ?_) fun h => hext (Option.some.inj h)
          rw [hkey] at hheld
          exact AList.mem_erase.mpr ⟨Ne.symm hext, hheld⟩
      · rw [if_neg hkey]
        exact iff_of_false (not_not.mpr hheld) fun h => hkey h.1
    · simp only [hsame, false_imp_iff, implies_true]

end Delete

/-! ## Two spellings of one id -/

/-- An adapter of a new client and a new registry. -/
def newDocs : Registry × MatrixAdapter InMemoryQdrantClient :=
  (Registry.empty.ensureCollection (strip "docs"),
    ⟨1, "docs", [], ∅, ∅, ∅, InMemoryQdrantClient.empty.recreateCollection "docs" 1⟩)

theorem new_docs : QdrantHardDeleteAdapter.new 1 "docs" (Registry.history (fun _ => true) [])
    .empty true = .ok (newDocs.1, newDocs.2) :=
  MatrixKind.start_ok (by decide) (by decide +kernel) _ _

/-- The kind of the adapter; its registry knows no other ids. -/
abbrev docsKind : MatrixKind InMemoryQdrantClient := QdrantHardDeleteAdapter fun _ _ => none

/-- Two rows are added, under these ids. -/
def twoAdded (ids : List String) : List AddCall :=
  [⟨ids, .matrix ⟨1, [[0x3f800000], [0x40800000]], by decide⟩, none⟩]

/-- The adapter after it. -/
def docsAdded (ids : List String) : MatrixState InMemoryQdrantClient :=
  MatrixState.addAll docsKind (fun _ => true) (twoAdded ids) ⟨newDocs.1, newDocs.2⟩

/-- `delete("docs", ["ann"], compact="never")` -/
def annDeleted (ids : List String) : Service.Deletion (MatrixAdapter InMemoryQdrantClient) ℚ :=
  (docsAdded ids).delete docsKind matrixConfig Service.twoUsers.policy
    (matrixAmbient InMemoryQdrantClient)
    { Service.plainCall "docs" ["ann"] with compact := some (.mode .never) }

/-- The points of one id are deleted, the other's are not. -/
theorem delete_removes_points_iff_ann : ∃ receipt,
    (annDeleted ["ann", "bob"]).result = .ok receipt ∧ receipt.labels = [0] ∧
      ∀ q ∈ MatrixState.upserted docsKind (fun _ => true) (twoAdded ["ann", "bob"])
          ⟨newDocs.1, newDocs.2⟩,
        ∀ l ∈ receipt.labels, strip q.1 = strip "docs" →
          (docsAdded ["ann", "bob"]).registry.label? (strip q.1) (strip q.2) = some l →
          q.2 ∉ (annDeleted ["ann", "bob"]).state.outside.client.store q.1 := by
  have hsome : (annDeleted ["ann", "bob"]).result.toOption.map
      (fun receipt => (receipt.success, receipt.labels)) = some (true, [0]) := by decide +kernel
  have hnamed : ∀ q ∈ MatrixState.upserted docsKind (fun _ => true) (twoAdded ["ann", "bob"])
      ⟨newDocs.1, newDocs.2⟩, strip q.1 = strip "docs" → strip q.2 = strip "ann" →
        q.1 = "docs" ∧
          (docsAdded ["ann", "bob"]).remembered (strip "docs") (strip "ann") = some q.2 := by
    decide +kernel
  rcases hres : (annDeleted ["ann", "bob"]).result with e | receipt
  · rw [hres] at hsome
    cases hsome
  · rw [hres] at hsome
    have hanswer := Option.some.inj hsome
    refine ⟨receipt, rfl, congrArg Prod.snd hanswer, ?_⟩
    have hst : docsAdded ["ann", "bob"] = MatrixState.addAll docsKind (fun _ => true)
        (twoAdded ["ann", "bob"]) ⟨newDocs.1, newDocs.2⟩ := rfl
    have hsucc : receipt.success = true := congrArg Prod.fst hanswer
    rw [annDeleted] at hres ⊢
    generalize docsAdded ["ann", "bob"] = st at hst hres hnamed ⊢
    exact (delete_removes_points_iff (fun _ => true) (fun _ _ => none) [] new_docs
      (twoAdded ["ann", "bob"]) hst rfl rfl hres hsucc).mpr hnamed

/-- **A second spelling keeps its point.** The id is added as `ann` and as ` ann`; the delete
of `ann` succeeds, and the point `ann` is still there. -/
theorem delete_leaves_point :
    ¬ ∀ (ids : List String) (receipt : ErasureReceipt ℚ),
      (annDeleted ids).result = .ok receipt → receipt.success = true →
      ∀ q ∈ MatrixState.upserted docsKind (fun _ => true) (twoAdded ids) ⟨newDocs.1, newDocs.2⟩,
        ∀ l ∈ receipt.labels, strip q.1 = strip "docs" →
          (docsAdded ids).registry.label? (strip q.1) (strip q.2) = some l →
          q.2 ∉ (annDeleted ids).state.outside.client.store q.1 := by
  intro h
  have hsome : (annDeleted ["ann", " ann"]).result.toOption.map
      (fun receipt => (receipt.success, receipt.labels)) = some (true, [0]) := by decide +kernel
  rcases hres : (annDeleted ["ann", " ann"]).result with e | receipt
  · rw [hres] at hsome
    cases hsome
  · rw [hres] at hsome
    obtain ⟨hsucc, hlabels⟩ := Prod.mk.inj (Option.some.inj hsome)
    have hpoint : ("docs", "ann") ∈ MatrixState.upserted docsKind (fun _ => true)
        (twoAdded ["ann", " ann"]) ⟨newDocs.1, newDocs.2⟩ := by decide +kernel
    have hlabel : (docsAdded ["ann", " ann"]).registry.label? (strip "docs") (strip "ann") =
        some 0 := by decide +kernel
    have hheld : "ann" ∈ (annDeleted ["ann", " ann"]).state.outside.client.store "docs" := by
      decide +kernel
    have hmem : (0 : ℤ) ∈ receipt.labels := hlabels ▸ List.mem_singleton.mpr rfl
    exact h ["ann", " ann"] receipt hres hsucc ("docs", "ann") hpoint 0 hmem rfl hlabel hheld

end Unlearning
