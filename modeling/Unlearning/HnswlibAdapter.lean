import Unlearning.Index
import Unlearning.MatrixAdapters

/-!
# The hnswlib adapter (`integrations/hnswlib_adapter.py`)

`add` registers the ids of a batch one by one and appends their rows as it goes; a rejected id
ends the loop where it is. The hnswlib index is filled after the loop, so a batch that is
rejected halfway leaves ids with a label and a row that no search finds.

hnswlib is a parameter: `add_items`, which may raise a `RuntimeError`. The mirror is the native
index.

* `Grown`: what the rows of a batch do to the store, however the loop ends;
* `add_unchanged_iff`: the rejections that leave everything as it was.
-/

namespace Unlearning

open PyText

/-- `hnswlib.Index.add_items` of rows under labels: what it raises, and the index afterwards. -/
structure HnswLib (I : Type) where
  addItems : List (Row × ℤ) → I → Option String × I

/-- The fields of `HnswlibHardDeleteAdapter`; the registry is apart. -/
structure HnswlibAdapter (I : Type) where
  dim : ℕ
  collection : String
  deleted : Finset ℤ
  labels : List ℤ
  vectors : List Row
  labelToRow : Dict ℤ ℕ
  rowToLabel : List ℤ
  /-- the hnswlib index -/
  index : I
  healMirror : Option Index
  /-- "dim must be positive" -/
  dim_pos : 0 < dim

/-- What `add` raises. -/
inductive AddError : Type where
  | value (message : String)
  | registry (e : RegistryError)
  /-- of hnswlib -/
  | runtime (text : String)
  /-- of the mirror -/
  | native (e : NativeError)

/-- It is a `ValueError`, as `std::invalid_argument` is across the binding. -/
def AddError.IsValueError : AddError → Prop
  | value _ => True
  | registry e => ∃ message, e = .valueError message
  | runtime _ => False
  | native e => e.kind = .invalidArgument

namespace Index

/-- Neighbours in a ring, for these nodes of `n`. -/
def setRing (env : NativeEnv) (n : ℕ) : List ℕ → Index → Except NativeError Unit × Index
  | [], ix => (.ok (), ix)
  | i :: rest, ix =>
    let nbrs : List ℤ := [((i : ℤ) - 1) % n, ((i : ℤ) + 1) % n, ((i : ℤ) + 2) % n]
    match ix.setNeighbors env i 0 nbrs with
    | (.error e, ix) => (.error e, ix)
    | (.ok (), ix) => setRing env n rest ix

/-- `load_index` of a matrix with rows of this width, and a ring of neighbours. The rows that it
can allocate at all it does allocate. -/
def loadRing (env : NativeEnv) (d : ℕ) (rows : List Row) (ix : Index) :
    Except NativeError Unit × Index :=
  let n := rows.length
  if h : 4 * rows.flatten.length < 2 ^ 63 then
    match ix.loadIndex .ample (some ⟨rows.flatten, h⟩) d n with
    | (.error e, ix) => (.error e, ix)
    | (.ok (), ix) => setRing env n (List.range n) ix
  else (.error ⟨.badAlloc, "std::bad_alloc"⟩, ix)

end Index

namespace HnswlibAdapter

variable {I : Type}

/-! ## `add` -/

/-- `collection or self.collection` -/
def collectionOr (collection : Option String) (a : HnswlibAdapter I) : String :=
  (collection.filter fun c => c ≠ "").getD a.collection

/-- The label has a row, and is not deleted. -/
def Live (a : HnswlibAdapter I) (label : ℤ) : Prop := label ∈ a.labelToRow ∧ label ∉ a.deleted

instance (a : HnswlibAdapter I) (label : ℤ) : Decidable (a.Live label) :=
  inferInstanceAs (Decidable (_ ∧ _))

/-- `_append_row` -/
def appendRow (label : ℤ) (row : Row) (a : HnswlibAdapter I) : HnswlibAdapter I :=
  match a.labelToRow.lookup label with
  | some i => { a with vectors := a.vectors.set i row, deleted := a.deleted.erase label }
  | none =>
    { a with
      vectors := a.vectors ++ [row]
      labelToRow := a.labelToRow.insert label a.vectors.length
      rowToLabel := a.rowToLabel ++ [label]
      labels := a.labels ++ [label] }

/-- The loop of `add`. -/
def addRows (printable : Char → Bool) (coll : String) :
    List (String × Row) → Registry → HnswlibAdapter I →
      Except AddError (List ℤ) × Registry × HnswlibAdapter I
  | [], reg, a => (.ok [], reg, a)
  | (ext, row) :: rest, reg, a =>
    match reg.register printable coll ext none with
    | (.error e, reg) => (.error (.registry e), reg, a)
    | (.ok label, reg) =>
      if a.Live label then
        (.error (.value ("label " ++ toString label ++ " already present; drop or use new id")),
          reg, a)
      else
        match addRows printable coll rest reg (a.appendRow label row) with
        | (.ok labels, reg, a) => (.ok (label :: labels), reg, a)
        | (.error e, reg, a) => (.error e, reg, a)

/-- The rows for the mirror: those of deleted labels are zero. -/
def mirrorRows (a : HnswlibAdapter I) : List Row :=
  a.vectors.mapIdx fun i row =>
    if ∃ label ∈ a.deleted, a.labelToRow.lookup label = some i then row.map fun _ => 0 else row

/-- `_sync_heal_mirror` -/
def syncHealMirror (env : NativeEnv) (a : HnswlibAdapter I) :
    Except NativeError Unit × HnswlibAdapter I :=
  match a.healMirror with
  | none => (.ok (), a)
  | some mirror =>
    if a.vectors.length = 0 then (.ok (), a)
    else
      let (result, mirror) := mirror.loadRing env a.dim a.mirrorRows
      (result, { a with healMirror := some mirror })

/-- `add` -/
def add (lib : HnswLib I) (env : NativeEnv) (printable : Char → Bool) (externalIds : List String)
    (vectors : VectorsArg) (collection : Option String) (reg : Registry) (a : HnswlibAdapter I) :
    Except AddError (List ℤ) × Registry × HnswlibAdapter I :=
  let coll := a.collectionOr collection
  let vecs := vectors.reshaped
  if vecs.width ≠ a.dim then
    (.error (.value ("expected dim=" ++ toString a.dim ++ ", got " ++ toString vecs.width)), reg, a)
  else if externalIds.length ≠ vecs.rows.length then
    (.error (.value "external_ids and vectors length mismatch"), reg, a)
  else
    match addRows printable coll (externalIds.zip vecs.rows) reg a with
    | (.error e, reg, a) => (.error e, reg, a)
    | (.ok labels, reg, a) =>
      let active := labels.filter fun label => label ∉ a.deleted
      let rows := active.map fun label =>
        (((a.labelToRow.lookup label).bind fun i => a.vectors[i]?).getD [], label)
      let (failure, index) := if active = [] then (none, a.index) else lib.addItems rows a.index
      let a := { a with index := index }
      match failure with
      | some text => (.error (.runtime text), reg, a)
      | none =>
        match a.syncHealMirror env with
        | (.error e, a) => (.error (.native e), reg, a)
        | (.ok (), a) => (.ok labels, reg, a)

end HnswlibAdapter

/-! ## The mirror -/

namespace Index

theorem setNeighbors_not_invalidArgument {env : NativeEnv} {nodeId layer : ℤ}
    {neighbors : List ℤ} {ix : Index} {e : NativeError}
    (h : (ix.setNeighbors env nodeId layer neighbors).1 = .error e) :
    e.kind ≠ .invalidArgument := by
  have hensure : ∀ e', ix.ensureNode nodeId = .error e' → e'.kind ≠ .invalidArgument := by
    intro e' he'
    rw [Index.ensureNode] at he'
    split at he'
    · obtain rfl := Except.error.inj he'
      intro hkind
      cases hkind
    · split at he'
      · obtain rfl := Except.error.inj he'
        intro hkind
        cases hkind
      · cases he'
  rw [Index.setNeighbors] at h
  split at h
  · rename_i hnode
    obtain rfl := Except.error.inj h
    exact hensure _ hnode
  · split at h
    · obtain rfl := Except.error.inj h
      intro hkind
      cases hkind
    · split at h
      · obtain rfl := Except.error.inj h
        intro hkind
        cases hkind
      · dsimp only at h
        split at h
        · obtain rfl := Except.error.inj h
          intro hkind
          cases hkind
        · cases h

theorem setRing_not_invalidArgument {env : NativeEnv} {n : ℕ} {nodes : List ℕ} {ix : Index}
    {e : NativeError} (h : (Index.setRing env n nodes ix).1 = .error e) :
    e.kind ≠ .invalidArgument := by
  induction nodes generalizing ix with
  | nil => cases h
  | cons i rest ih =>
    rw [Index.setRing] at h
    split at h
    · rename_i e' ix' hset
      obtain rfl := Except.error.inj h
      exact setNeighbors_not_invalidArgument (congrArg Prod.fst hset)
    · exact ih h

theorem loadRing_not_invalidArgument {env : NativeEnv} {d : ℕ} (hd : 0 < d)
    {rows : List Row} {ix : Index} {e : NativeError}
    (h : (ix.loadRing env d rows).1 = .error e) : e.kind ≠ .invalidArgument := by
  have hload : ∀ source e', (ix.loadIndex .ample (some source) d rows.length).1 = .error e' →
      e'.kind ≠ .invalidArgument := by
    intro source e' he'
    rw [Index.loadIndex, Index.checkSource, if_neg (by simp),
      if_neg fun hzero => hd.ne' hzero.2] at he'
    dsimp only at he'
    split at he'
    · cases he'
    · split at he'
      · simp only [Memory.ample, Memory.assign, ite_self] at he'
        cases he'
      · obtain rfl := Except.error.inj he'
        intro hkind
        cases hkind
  rw [Index.loadRing] at h
  split at h
  · split at h
    · rename_i hloaded
      obtain rfl := Except.error.inj h
      exact hload _ _ (congrArg Prod.fst hloaded)
    · exact setRing_not_invalidArgument h
  · obtain rfl := Except.error.inj h
    intro hkind
    cases hkind

end Index

/-! ## The registry -/

theorem Dict.setDefault_eq_iff {α β : Type} [DecidableEq α] {d : Dict α β} {k : α} {v : β} :
    d.setDefault k v = d ↔ k ∈ d := by
  rw [Dict.setDefault]
  by_cases h : k ∈ d
  · rw [if_pos h]
    exact iff_of_true rfl h
  · rw [if_neg h]
    refine iff_of_false ?_ h
    intro heq
    exact h (heq ▸ (AList.mem_insert d).mpr (.inl rfl))

namespace Registry

variable {reg : Registry}

/-- `ensure_collection` has nothing to do. -/
def Has (reg : Registry) (coll : String) : Prop :=
  coll ∈ reg.forward ∧ coll ∈ reg.reverse ∧ coll ∈ reg.nextLabel

theorem ensureCollection_eq_iff {coll : String} :
    reg.ensureCollection coll = reg ↔ reg.Has coll := by
  rcases reg with ⟨forward, reverse, nextLabel⟩
  rw [ensureCollection, mk.injEq, Dict.setDefault_eq_iff, Dict.setDefault_eq_iff,
    Dict.setDefault_eq_iff]
  exact Iff.rfl

end Registry

namespace HnswlibAdapter

variable {I : Type} {printable : Char → Bool} {coll : String} {reg : Registry}
  {a a' : HnswlibAdapter I}

/-! ## The loop -/

/-- Labels keep their rows, and none is deleted. -/
structure Grown (a a' : HnswlibAdapter I) : Prop where
  labels : ∀ label ∈ a.labelToRow, label ∈ a'.labelToRow
  deleted : a'.deleted ⊆ a.deleted

theorem Grown.refl (a : HnswlibAdapter I) : Grown a a := ⟨fun _ h => h, fun _ h => h⟩

theorem Grown.trans {a'' : HnswlibAdapter I} (h : Grown a a') (h' : Grown a' a'') :
    Grown a a'' :=
  ⟨fun label hlabel => h'.labels label (h.labels label hlabel), h'.deleted.trans h.deleted⟩

theorem appendRow_grown (label : ℤ) (row : Row) : Grown a (a.appendRow label row) := by
  rw [appendRow]
  rcases a.labelToRow.lookup label with _ | i
  · exact ⟨fun _ h => (AList.mem_insert _).mpr (.inr h), fun _ h => h⟩
  · exact ⟨fun _ h => h, Finset.erase_subset _ _⟩

/-- **A row leaves its trace**: the label is new, or it was deleted and is no longer. -/
theorem appendRow_ne {label : ℤ} {row : Row} (hlive : ¬ a.Live label)
    (h : Grown (a.appendRow label row) a') : a' ≠ a := by
  rintro rfl
  rw [appendRow] at h
  rcases hlookup : a'.labelToRow.lookup label with _ | i
  · rw [hlookup] at h
    have hmem := h.labels label ((AList.mem_insert _).mpr (.inl rfl))
    exact AList.lookup_eq_none.mp hlookup hmem
  · rw [hlookup] at h
    have hmem : label ∈ a'.labelToRow := AList.lookup_isSome.mp (by rw [hlookup]; rfl)
    have hdeleted : label ∈ a'.deleted := by
      by_contra hnot
      exact hlive ⟨hmem, hnot⟩
    exact Finset.notMem_erase label a'.deleted (h.deleted hdeleted)

/-- The loop only adds, however it ends. -/
theorem addRows_grown (rows : List (String × Row)) (reg : Registry) (a : HnswlibAdapter I) :
    Grown a (addRows printable coll rows reg a).2.2 := by
  induction rows generalizing reg a with
  | nil => exact .refl a
  | cons row rows ih =>
    rw [addRows]
    rcases reg.register printable coll row.1 none with ⟨e | label, reg'⟩
    · exact .refl a
    · dsimp only
      split
      · exact .refl a
      · have hrest := ih reg' (a.appendRow label row.2)
        rcases hloop : addRows printable coll rows reg' (a.appendRow label row.2) with
          ⟨e | labels, reg'', a''⟩
        · rw [hloop] at hrest
          exact (appendRow_grown label row.2).trans hrest
        · rw [hloop] at hrest
          exact (appendRow_grown label row.2).trans hrest

/-- The id is rejected, and nothing comes of it: it is blank, or it is mapped to a live label. -/
def RejectsFirst (reg : Registry) (a : HnswlibAdapter I) (coll ext : String) : Prop :=
  (strip coll = "" ∨ strip ext = "") ∨
    ∃ label, reg.Has (strip coll) ∧ reg.label? (strip coll) (strip ext) = some label ∧ a.Live label

/-- Where the first id is accepted its row stays, whatever comes after it. -/
theorem addRows_accepted {ext : String} {row : Row} {rest : List (String × Row)} {e : AddError}
    {reg' : Registry} {label : ℤ} (hlive : ¬ a.Live label)
    (hok : (reg.register printable coll ext none).1 = .ok label)
    (h : addRows printable coll ((ext, row) :: rest) reg a = (.error e, reg', a')) : a' ≠ a := by
  rw [addRows] at h
  rcases hreg : reg.register printable coll ext none with ⟨result, reg₁⟩
  rw [hreg] at h hok
  dsimp only at hok
  subst hok
  dsimp only at h
  rw [if_neg hlive] at h
  have hgrown := @addRows_grown I printable coll rest reg₁ (a.appendRow label row)
  apply @appendRow_ne I a a' label row hlive
  rcases hloop : addRows printable coll rest reg₁ (a.appendRow label row) with
    ⟨e' | labels, reg₂, a₂⟩
  · rw [hloop] at h hgrown
    obtain ⟨-, hrest⟩ := Prod.mk.inj h
    obtain ⟨-, rfl⟩ := Prod.mk.inj hrest
    exact hgrown
  · rw [hloop] at h
    cases (Prod.mk.inj h).1

/-- **A loop that raises** leaves everything as it was exactly if it raises for the first id,
and did not register it. -/
theorem addRows_error {ext : String} {row : Row} {rest : List (String × Row)} {e : AddError}
    {reg' : Registry}
    (h : addRows printable coll ((ext, row) :: rest) reg a = (.error e, reg', a')) :
    (reg' = reg ∧ a' = a) ↔ RejectsFirst reg a coll ext := by
  have hregistering := @Registry.registering printable reg coll ext none
  have haccepted : ∀ label, ¬ a.Live label →
      (reg.register printable coll ext none).1 = .ok label → a' ≠ a :=
    fun label hlive hok => addRows_accepted hlive hok h
  rw [addRows] at h
  revert hregistering haccepted h
  rcases reg.register printable coll ext none with ⟨result, reg₁⟩
  intro h hregistering haccepted
  rcases hregistering with ⟨message, hblank⟩ | ⟨hnamed, existing, hmapped, -⟩ |
    ⟨-, existing, message, -, hlabel⟩ | ⟨hnamed, label, next, hnew, -⟩ |
    ⟨-, label, owner, message, -, hlabel, -⟩
  · obtain ⟨-, hrest⟩ := Prod.mk.inj h
    obtain ⟨rfl, rfl⟩ := Prod.mk.inj hrest
    exact iff_of_true ⟨rfl, rfl⟩ (.inl hblank)
  · by_cases hlive : a.Live existing
    · dsimp only at h
      rw [if_pos hlive] at h
      obtain ⟨-, hrest⟩ := Prod.mk.inj h
      obtain ⟨rfl, rfl⟩ := Prod.mk.inj hrest
      constructor
      · rintro ⟨hreg, -⟩
        exact .inr ⟨existing, Registry.ensureCollection_eq_iff.mp hreg, hmapped, hlive⟩
      · rintro (hblank | ⟨label, hhas, -⟩)
        · exact absurd hblank (not_or.mpr hnamed)
        · exact ⟨Registry.ensureCollection_eq_iff.mpr hhas, rfl⟩
    · refine iff_of_false (fun hsame => haccepted existing hlive rfl hsame.2) ?_
      rintro (hblank | ⟨label, -, hlabel, hlive'⟩)
      · exact absurd hblank (not_or.mpr hnamed)
      · obtain rfl := Option.some.inj (hmapped.symm.trans hlabel)
        exact hlive hlive'
  · exact absurd (.inl rfl) hlabel
  · refine iff_of_false ?_ ?_
    · rintro ⟨hreg, ha⟩
      by_cases hlive : a.Live label
      · -- rejected, but registered
        dsimp only at h
        rw [if_pos hlive] at h
        obtain ⟨-, hrest⟩ := Prod.mk.inj h
        obtain ⟨rfl, -⟩ := Prod.mk.inj hrest
        have hmapped : reg.label? (strip coll) (strip ext) = some label := by
          rw [← hreg, Registry.label?_assign, if_pos ⟨rfl, rfl⟩]
        rw [hnew] at hmapped
        cases hmapped
      · exact haccepted label hlive rfl ha
    · rintro (hblank | ⟨label', -, hlabel, -⟩)
      · exact absurd hblank (not_or.mpr hnamed)
      · rw [hnew] at hlabel
        cases hlabel
  · cases hlabel

/-- The mirror does not raise a `ValueError`: its sizes are those of the matrix. -/
theorem syncHealMirror_not_invalidArgument {env : NativeEnv} {e : NativeError}
    (h : (a.syncHealMirror env).1 = .error e) : e.kind ≠ .invalidArgument := by
  rw [syncHealMirror] at h
  split at h
  · cases h
  · split at h
    · cases h
    · exact Index.loadRing_not_invalidArgument a.dim_pos h

/-! ## A rejected `add` -/

/-- **A rejected `add` leaves everything as it was** exactly if the dimension or the lengths are
rejected, or the first id is, and it was not registered by the call. -/
theorem add_unchanged_iff {lib : HnswLib I} {env : NativeEnv} {externalIds : List String}
    {vectors : VectorsArg} {collection : Option String} {reg' : Registry} {e : AddError}
    (h : a.add lib env printable externalIds vectors collection reg = (.error e, reg', a'))
    (he : e.IsValueError) :
    (reg' = reg ∧ a' = a) ↔
      vectors.reshaped.width ≠ a.dim ∨ externalIds.length ≠ vectors.reshaped.rows.length ∨
        ∃ ext rest, externalIds = ext :: rest ∧
          RejectsFirst reg a (a.collectionOr collection) ext := by
  rw [add] at h
  dsimp only at h
  split at h
  · obtain ⟨-, hrest⟩ := Prod.mk.inj h
    obtain ⟨rfl, rfl⟩ := Prod.mk.inj hrest
    exact iff_of_true ⟨rfl, rfl⟩ (.inl ‹_›)
  rename_i hwidth
  split at h
  · obtain ⟨-, hrest⟩ := Prod.mk.inj h
    obtain ⟨rfl, rfl⟩ := Prod.mk.inj hrest
    exact iff_of_true ⟨rfl, rfl⟩ (.inr (.inl ‹_›))
  rename_i hlength
  rw [or_iff_right hwidth, or_iff_right hlength]
  split at h
  · rename_i e' reg₁ a₁ hloop
    obtain ⟨-, hrest⟩ := Prod.mk.inj h
    obtain ⟨rfl, rfl⟩ := Prod.mk.inj hrest
    rcases externalIds with _ | ⟨ext, rest⟩
    · cases (Prod.mk.inj hloop).1
    · rcases hrows : vectors.reshaped.rows with _ | ⟨row, rows⟩
      · rw [hrows] at hlength
        exact absurd hlength (by simp)
      · rw [hrows, List.zip_cons_cons] at hloop
        rw [addRows_error hloop]
        constructor
        · intro hfirst
          exact ⟨ext, rest, rfl, hfirst⟩
        · rintro ⟨ext', rest', heq, hfirst⟩
          obtain ⟨rfl, -⟩ := List.cons.inj heq
          exact hfirst
  · -- past the loop nothing raises a `ValueError`
    exfalso
    split at h
    · obtain rfl := Except.error.inj (Prod.mk.inj h).1
      exact he
    · split at h
      · rename_i hsync
        obtain rfl := Except.error.inj (Prod.mk.inj h).1
        exact syncHealMirror_not_invalidArgument (congrArg Prod.fst hsync) he
      · cases (Prod.mk.inj h).1

/-! ## Two rejected batches -/

section Batches

/-- An hnswlib index that is the list of its items. -/
def listLib : HnswLib (List (Row × ℤ)) := ⟨fun rows items => (none, items ++ rows)⟩

/-- The registry of a new adapter for `docs`. -/
def docsRegistry : Registry := Registry.empty.ensureCollection "docs"

/-- An adapter without rows. -/
def newAdapter : HnswlibAdapter (List (Row × ℤ)) :=
  ⟨1, "docs", ∅, [], [], ∅, [], [], none, Nat.one_pos⟩

/-- Two rows of one component. -/
def twoRows : VectorsArg :=
  .matrix ⟨1, [[0x3f800000], [0x40a00000]], by simp⟩

/-- After `add(["a"], …)`. -/
def oneAdded : Registry × HnswlibAdapter (List (Row × ℤ)) :=
  (newAdapter.add listLib .calm (fun _ => true) ["a"] (.vector [0x3f800000]) none docsRegistry).2

/-- A batch that starts with a live id changes nothing. -/
theorem add_unchanged_iff_live :
    ∃ e reg' a', oneAdded.2.add listLib .calm (fun _ => true) ["a", "b"] twoRows none oneAdded.1 =
      (.error e, reg', a') ∧ reg' = oneAdded.1 ∧ a' = oneAdded.2 := by
  have hadd : oneAdded.2.add listLib .calm (fun _ => true) ["a", "b"] twoRows none oneAdded.1 =
      (.error (.value "label 0 already present; drop or use new id"), oneAdded.1, oneAdded.2) := rfl
  have hhas : oneAdded.1.Has (strip "docs") := ⟨by decide, by decide, by decide⟩
  have hlive : oneAdded.2.Live 0 := by decide
  have hsame := (add_unchanged_iff hadd trivial).mpr
    (.inr (.inr ⟨"a", ["b"], rfl, .inr ⟨0, hhas, rfl, hlive⟩⟩))
  exact ⟨_, _, _, hadd, hsame⟩

/-- An id that is repeated is registered and stored, and not in the index. -/
theorem repeated_id_stays :
    ∃ e reg' a', newAdapter.add listLib .calm (fun _ => true) ["a", "a"] twoRows none docsRegistry =
        (.error e, reg', a') ∧ e.IsValueError ∧
      reg'.label? "docs" "a" = some 0 ∧ a'.vectors = [[0x3f800000]] ∧ a'.index = [] ∧
      ¬ (reg' = docsRegistry ∧ a' = newAdapter) := by
  refine ⟨_, _, _, rfl, trivial, rfl, rfl, rfl, ?_⟩
  rintro ⟨-, ha⟩
  cases congrArg HnswlibAdapter.vectors ha

end Batches

end HnswlibAdapter

end Unlearning
