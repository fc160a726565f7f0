import Unlearning.DenseStore

/-!
# Runs of the hnswlib adapter (`integrations/hnswlib_adapter.py`)

`hard_delete_label` marks the label in the hnswlib index, so that no search returns it, and
zeroes the row of the matrix; the floats stay in the index until `compact`. A `RuntimeError` of
`mark_deleted` is dropped; any other exception ends the call when the row is zero already, but
the label is neither marked nor deleted.

hnswlib is a parameter, as in `HnswlibAdapter`: `HnswVendor` adds the calls of a delete and of a
compaction, `entries`, the rows that an index stores, and `searchable`, those that are not marked.

`hits_current`: through every run, what a search may return is the current row of a live label,
and what the index stores is that or the row of a label that was deleted since the last
compaction.
-/

namespace Unlearning

open PyText

/-- What `mark_deleted` raises. -/
inductive MarkError : Type where
  | runtime (text : String)
  | other (text : String)

/-- What the adapter calls of hnswlib. -/
structure HnswVendor (I : Type) extends HnswLib I where
  /-- the rows that an index stores, under their labels -/
  entries : I → List (Row × ℤ)
  /-- those that are not marked -/
  searchable : I → List (Row × ℤ)
  /-- `Index(…)` -/
  blank : I
  /-- `Index(…)` and `init_index(max_elements, …)` -/
  initIndex : ℤ → I
  /-- `mark_deleted` -/
  markDeleted : ℤ → I → Except MarkError Unit × I
  /-- the labels that `knn_query` finds -/
  knnQuery : Row → ℤ → I → Except String (List ℤ)

namespace HnswVendor

variable {I : Type}

/-- The documented behaviour. -/
structure Lawful (lib : HnswVendor I) : Prop where
  blank : lib.entries lib.blank = []
  init : ∀ cap, lib.entries (lib.initIndex cap) = []
  searchable : ∀ ix, lib.searchable ix ⊆ lib.entries ix
  /-- a label that is there gets the new row, and is unmarked -/
  added : ∀ rows ix, (rows.map Prod.snd).Nodup → (lib.addItems rows ix).1 = none →
    ∀ e, (e ∈ lib.entries (lib.addItems rows ix).2 ↔
        e ∈ rows ∨ e ∈ lib.entries ix ∧ e.2 ∉ rows.map Prod.snd) ∧
      (e ∈ lib.searchable (lib.addItems rows ix).2 ↔
        e ∈ rows ∨ e ∈ lib.searchable ix ∧ e.2 ∉ rows.map Prod.snd)
  /-- what a call that raises leaves -/
  addRaised : ∀ rows ix, lib.entries (lib.addItems rows ix).2 ⊆ lib.entries ix ++ rows ∧
    lib.searchable (lib.addItems rows ix).2 ⊆ lib.searchable ix ++ rows
  /-- a `RuntimeError` says that the label is not there, or is marked -/
  marked : ∀ label ix, lib.entries (lib.markDeleted label ix).2 = lib.entries ix ∧
    ((∀ text, (lib.markDeleted label ix).1 ≠ .error (.other text)) →
      lib.searchable (lib.markDeleted label ix).2 =
        (lib.searchable ix).filter fun e => e.2 ≠ label)
  markRaised : ∀ label ix, lib.searchable (lib.markDeleted label ix).2 ⊆ lib.searchable ix
  found : ∀ query k ix labels, lib.knnQuery query k ix = .ok labels → ∀ l ∈ labels,
    ∃ row, (row, l) ∈ lib.searchable ix

/-- `add_items`, if there is anything to add. -/
def addAny (lib : HnswVendor I) (rows : List (Row × ℤ)) (ix : I) : Option String × I :=
  if rows = [] then (none, ix) else lib.addItems rows ix

end HnswVendor

namespace HnswlibAdapter

variable {I : Type}

/-- The matrix, with its labels. -/
def dense (a : HnswlibAdapter I) : DenseStore := ⟨a.vectors, a.labelToRow, a.deleted⟩

/-- `hard_delete_label`; the collection is dropped. What it raises is text. -/
def hardDeleteLabel (lib : HnswVendor I) (D : Type) [FloatArith D] (env : MirrorEnv)
    (label maxM : ℤ) (a : HnswlibAdapter I) : Except String BackendEraseResult × HnswlibAdapter I :=
  match a.labelToRow.lookup label with
  | none => (.ok ⟨false, 0, some "unknown label"⟩, a)
  | some i =>
    let original := a.vectors[i]?.getD []
    let zeroed := { a with vectors := a.vectors.set i (original.map fun _ => 0) }
    let marked := if label ∉ a.deleted then lib.markDeleted label a.index else (.ok (), a.index)
    match marked.1 with
    | .error (.other text) => (.error text, { zeroed with index := marked.2 })
    | _ =>
      let healed := healRow D env i maxM a.healMirror
      (.ok ⟨true, 4 * original.length, some ("zeroed+mark_deleted" ++ healed.1)⟩,
        { zeroed with
          index := marked.2
          deleted := insert label a.deleted
          healMirror := healed.2 })

/-- `compact`; `maxElements` is `max_elements`. -/
def compact (lib : HnswVendor I) (env : NativeEnv) (maxElements : ℤ) (a : HnswlibAdapter I) :
    Except AddError ℕ × HnswlibAdapter I :=
  let live := a.dense.liveRows
  let filled := lib.addAny live (lib.initIndex (max maxElements (live.length + 1)))
  let a := { a with index := filled.2 }
  match filled.1 with
  | some text => (.error (.runtime text), a)
  | none =>
    match a.syncHealMirror env with
    | (.error e, a) => (.error (.native e), a)
    | (.ok (), a) => (.ok live.length, a)

/-- `query`: the labels it returns. -/
def query (lib : HnswVendor I) (vector : Row) (k : ℤ) (a : HnswlibAdapter I) :
    Except String (List ℤ) :=
  lib.knnQuery vector k a.index

/-- `HnswlibHardDeleteAdapter(dim, …)`, with or without a mirror. -/
def new (lib : HnswVendor I) (dim : ℕ) (hdim : 0 < dim) (maxElements : ℤ) (collection : String)
    (healMirror : Bool) : HnswlibAdapter I :=
  ⟨dim, collection, ∅, [], [], ∅, [], lib.initIndex maxElements,
    if healMirror then some .empty else none, hdim⟩

/-- `load_index`, from what reading the file gives; the index is a blank one when that raises. -/
def loadIndex (lib : HnswVendor I) (read : Except String I) (a : HnswlibAdapter I) :
    Except String Unit × HnswlibAdapter I :=
  match read with
  | .error text => (.error text, { a with index := lib.blank })
  | .ok index => (.ok (), { a with index := index })

end HnswlibAdapter

/-! ## Runs -/

/-- A call on the adapter; `reg` is the registry that an `add` finds. -/
inductive HnswlibCall (I : Type) : Type where
  | add (env : NativeEnv) (printable : Char → Bool) (reg : Registry) (externalIds : List String)
      (vectors : VectorsArg) (collection : Option String) : HnswlibCall I
  | hardDelete (env : MirrorEnv) (label maxM : ℤ) : HnswlibCall I
  | compact (env : NativeEnv) (maxElements : ℤ) : HnswlibCall I
  | loadIndex (read : Except String I) : HnswlibCall I

/-- What it answers. -/
inductive HnswlibAnswer : Type where
  | added (r : Except AddError (List ℤ)) : HnswlibAnswer
  | erased (r : Except String BackendEraseResult) : HnswlibAnswer
  | compacted (r : Except AddError ℕ) : HnswlibAnswer
  | loaded (r : Except String Unit) : HnswlibAnswer

/-- What a call answers, and the adapter that it leaves. -/
def HnswlibCall.run {I : Type} (lib : HnswVendor I) (D : Type) [FloatArith D] :
    HnswlibCall I → HnswlibAdapter I → HnswlibAnswer × HnswlibAdapter I
  | add env printable reg externalIds vectors collection, a =>
    let r := a.add lib.toHnswLib env printable externalIds vectors collection reg
    (.added r.1, r.2.2)
  | hardDelete env label maxM, a =>
    let r := a.hardDeleteLabel lib D env label maxM
    (.erased r.1, r.2)
  | compact env maxElements, a =>
    let r := a.compact lib env maxElements
    (.compacted r.1, r.2)
  | loadIndex read, a =>
    let r := a.loadIndex lib read
    (.loaded r.1, r.2)

/-- What the answers leave open: the labels whose old rows the index may store, those whose old
rows a search may find, and those whose heal failed. -/
structure HnswBooks where
  owed : Set ℤ
  exposed : Set ℤ
  unhealed : Set ℤ

/-- The books after one more answer. -/
def HnswBooks.next {I : Type} (books : HnswBooks) : HnswlibCall I → HnswlibAnswer → HnswBooks
  | .hardDelete _ label _, .erased (.ok r) =>
    if r.success then
      { books with
        owed := insert label books.owed
        unhealed := {l | if l = label then r.Says "zeroed+mark_deleted+heal_error("
          else l ∈ books.unhealed} }
    else books
  -- the row is zero, but the label is not deleted
  | .hardDelete _ label _, .erased (.error _) =>
    { books with owed := insert label books.owed, exposed := insert label books.exposed }
  | .add .., .added (.ok _) => { books with unhealed := ∅ }
  | .compact .., .compacted (.ok _) => ⟨∅, ∅, ∅⟩
  | .compact .., .compacted (.error _) => { books with owed := ∅, exposed := ∅ }
  -- a file may hold anything
  | .loadIndex _, .loaded (.ok _) => { books with owed := Set.univ, exposed := Set.univ }
  | _, _ => books

/-- The adapter after a run, and the books. -/
def HnswlibCall.runAll {I : Type} (lib : HnswVendor I) (D : Type) [FloatArith D]
    (calls : List (HnswlibCall I)) (a : HnswlibAdapter I) (books : HnswBooks) :
    HnswlibAdapter I × HnswBooks :=
  calls.foldl (fun st call =>
    let r := call.run lib D st.1
    (r.2, st.2.next call r.1)) (a, books)

/-! ## The invariant -/

namespace HnswlibAdapter

variable {I D : Type} [FloatArith D] {lib : HnswVendor I} {a : HnswlibAdapter I}
  {books : HnswBooks}

/-- The books account for every old row. -/
structure Kept (lib : HnswVendor I) (books : HnswBooks) (a : HnswlibAdapter I) : Prop where
  sound : a.dense.Sound a.dim
  mirrored : ∀ ix, a.healMirror = some ix → DenseStore.Mirrored books.unhealed a.dense ix
  stored : ∀ row l, (row, l) ∈ lib.entries a.index → l ∈ books.owed ∨ a.dense.contents l = some row
  hits : ∀ row l, (row, l) ∈ lib.searchable a.index →
    l ∈ books.exposed ∨ a.dense.contents l = some row

theorem dense_appendRow (label : ℤ) (row : Row) (a : HnswlibAdapter I) :
    (a.appendRow label row).dense = a.dense.appendRow label row := by
  rcases h : a.labelToRow.lookup label with _ | i
  · simp only [appendRow, DenseStore.appendRow, dense, h]
  · simp only [appendRow, DenseStore.appendRow, dense, h]

/-- The sync of the mirror is that of the store. -/
theorem syncHealMirror_eq (env : NativeEnv) (a : HnswlibAdapter I) :
    a.syncHealMirror env =
      ((a.dense.syncMirror env a.dim a.healMirror).1,
        { a with healMirror := (a.dense.syncMirror env a.dim a.healMirror).2 }) := by
  rcases a with
    ⟨dim, collection, deleted, labels, vectors, labelToRow, rowToLabel, index, mirror, _⟩
  rcases mirror with _ | ix
  · rfl
  · simp only [dense]
    by_cases hempty : vectors.length = 0
    · have hstore : (DenseStore.mk vectors labelToRow deleted).syncMirror env dim (some ix) =
          (.ok (), some ix) := if_pos hempty
      rw [hstore]
      exact if_pos hempty
    · have hstore : (DenseStore.mk vectors labelToRow deleted).syncMirror env dim (some ix) =
          ((ix.loadRing env dim (DenseStore.mk vectors labelToRow deleted).mirrorRows).1,
            some (ix.loadRing env dim (DenseStore.mk vectors labelToRow deleted).mirrorRows).2) :=
        if_neg hempty
      rw [hstore]
      exact if_neg hempty

/-- **The loop of `add`** leaves live labels alone, and deletes none, however it ends. -/
theorem addRows_dense {dim : ℕ} (printable : Char → Bool) (coll : String)
    {rows : List (String × Row)} (hwide : ∀ p ∈ rows, p.2.length = dim) (reg : Registry)
    (h : a.dense.Sound dim) :
    let r := addRows printable coll rows reg a
    r.2.2.dense.Sound dim ∧ r.2.2.dim = a.dim ∧ r.2.2.index = a.index ∧
      r.2.2.healMirror = a.healMirror ∧
      (∀ l row, a.dense.contents l = some row → r.2.2.dense.contents l = some row) ∧
      (∀ unhealed ix, DenseStore.Mirrored unhealed a.dense ix →
        DenseStore.Mirrored unhealed r.2.2.dense ix) ∧
      ∀ labels, r.1 = .ok labels → ∀ l ∈ labels, l ∈ r.2.2.labelToRow := by
  induction rows generalizing reg a with
  | nil =>
    refine ⟨h, rfl, rfl, rfl, fun _ _ h => h, fun _ _ h => h, fun labels heq l hl => ?_⟩
    obtain rfl := Except.ok.inj heq
    exact absurd hl List.not_mem_nil
  | cons p rest ih =>
    dsimp only
    rw [addRows]
    rcases reg.register printable coll p.1 none with ⟨e | label, reg'⟩
    · exact ⟨h, rfl, rfl, rfl, fun _ _ h => h, fun _ _ h => h, by rintro _ ⟨⟩⟩
    dsimp only
    split
    · exact ⟨h, rfl, rfl, rfl, fun _ _ h => h, fun _ _ h => h, by rintro _ ⟨⟩⟩
    rename_i hlive
    have hrow := hwide p List.mem_cons_self
    have hdense := dense_appendRow label p.2 a
    obtain ⟨hsound, hmem, -, -⟩ := h.appendRow label hrow
    rw [← hdense] at hsound hmem
    have hgrown := @addRows_grown I printable coll rest reg' (a.appendRow label p.2)
    obtain ⟨hsound', hdim, hindex, hmirror, hcontents, hmirrored, hlabels⟩ :=
      ih (fun q hq => hwide q (List.mem_cons_of_mem p hq)) reg' hsound
    have hframe : (a.appendRow label p.2).dim = a.dim ∧ (a.appendRow label p.2).index = a.index ∧
        (a.appendRow label p.2).healMirror = a.healMirror := by
      rw [appendRow]
      split
      · exact ⟨rfl, rfl, rfl⟩
      · exact ⟨rfl, rfl, rfl⟩
    -- a live label is not the one that is appended
    have hkeep : ∀ l row, a.dense.contents l = some row →
        (a.appendRow label p.2).dense.contents l = some row := by
      intro l row hl
      rw [hdense, h.contents_appendRow label hrow, if_neg]
      · exact hl
      · rintro rfl
        exact hlive (DenseStore.live_of_contents hl)
    have hkeepMirrored : ∀ unhealed ix, DenseStore.Mirrored unhealed a.dense ix →
        DenseStore.Mirrored unhealed (a.appendRow label p.2).dense ix := by
      intro unhealed ix hm
      rw [hdense]
      exact hm.appendRow h label hrow
    have hall := fun l row hl => hcontents l row (hkeep l row hl)
    have hallMirrored := fun unhealed ix hm => hmirrored unhealed ix (hkeepMirrored unhealed ix hm)
    rcases hloop : addRows printable coll rest reg' (a.appendRow label p.2) with
      ⟨e | labels, reg'', a''⟩
    · rw [hloop] at hsound' hdim hindex hmirror hall hallMirrored
      exact ⟨hsound', hdim.trans hframe.1, hindex.trans hframe.2.1, hmirror.trans hframe.2.2, hall,
        hallMirrored, by rintro _ ⟨⟩⟩
    · rw [hloop] at hsound' hdim hindex hmirror hall hallMirrored hlabels hgrown
      refine ⟨hsound', hdim.trans hframe.1, hindex.trans hframe.2.1, hmirror.trans hframe.2.2, hall,
        hallMirrored, fun labels' heq l hl => ?_⟩
      obtain rfl := Except.ok.inj heq
      rcases List.mem_cons.mp hl with rfl | hrest
      · exact hgrown.labels l ((hmem l).mpr (.inl rfl))
      · exact hlabels labels rfl l hrest

/-- `_sync_heal_mirror`, for the books. -/
theorem Kept.syncHealMirror (h : Kept lib books a) (env : NativeEnv) :
    Kept lib books (a.syncHealMirror env).2 ∧ ((a.syncHealMirror env).1 = .ok () →
      Kept lib { books with unhealed := ∅ } (a.syncHealMirror env).2) := by
  have hmirror := DenseStore.Mirrored.syncMirror a.dim_pos h.sound h.mirrored env
  rw [syncHealMirror_eq]
  exact ⟨⟨h.sound, fun ix hix => (hmirror ix hix).1, h.stored, h.hits⟩,
    fun hok => ⟨h.sound, fun ix hix => (hmirror ix hix).2 hok, h.stored, h.hits⟩⟩

/-- After the loop of `add`. -/
theorem Kept.grown (h : Kept lib books a) {a' : HnswlibAdapter I}
    (hsound : a'.dense.Sound a.dim) (hdim : a'.dim = a.dim) (hindex : a'.index = a.index)
    (hmirror : a'.healMirror = a.healMirror)
    (hcontents : ∀ l row, a.dense.contents l = some row → a'.dense.contents l = some row)
    (hmirrored : ∀ unhealed ix, DenseStore.Mirrored unhealed a.dense ix →
      DenseStore.Mirrored unhealed a'.dense ix) : Kept lib books a' where
  sound := hdim ▸ hsound
  mirrored ix hix := hmirrored _ ix (h.mirrored ix (hmirror ▸ hix))
  stored row l hrow := (h.stored row l (hindex ▸ hrow)).imp_right (hcontents l row)
  hits row l hrow := (h.hits row l (hindex ▸ hrow)).imp_right (hcontents l row)

/-- After `add_items` of rows of live labels, whatever it raised. -/
theorem Kept.fill (hlib : lib.Lawful) (h : Kept lib books a) {labels : List ℤ}
    (hlive : ∀ l ∈ labels, l ∈ a.labelToRow ∧ l ∉ a.deleted) :
    Kept lib books
      { a with
        index := (if labels = [] then (none, a.index) else lib.addItems (labels.map fun label =>
          (((a.labelToRow.lookup label).bind fun i => a.vectors[i]?).getD [], label))
          a.index).2 } := by
  have hcurrent : ∀ row l, (row, l) ∈ (labels.map fun label =>
      (((a.labelToRow.lookup label).bind fun i => a.vectors[i]?).getD [], label)) →
      a.dense.contents l = some row := by
    intro row l hrow
    obtain ⟨label, hlabel, heq⟩ := List.mem_map.mp hrow
    obtain ⟨rfl, rfl⟩ := Prod.mk.inj heq
    obtain ⟨hmem, hnot⟩ := hlive label hlabel
    obtain ⟨i, hi⟩ := Option.isSome_iff_exists.mp (AList.lookup_isSome.mpr hmem)
    obtain ⟨row, hat, hrow⟩ := h.sound.row hi
    show (if label ∈ a.deleted then none else a.dense.row? label) =
      some ((a.dense.row? label).getD [])
    rw [if_neg hnot, hrow, Option.getD_some]
  split
  · exact h
  · obtain ⟨hstored, hhits⟩ := hlib.addRaised (labels.map fun label =>
      (((a.labelToRow.lookup label).bind fun i => a.vectors[i]?).getD [], label)) a.index
    refine ⟨h.sound, h.mirrored, fun row l hrow => ?_, fun row l hrow => ?_⟩
    · rcases List.mem_append.mp (hstored hrow) with hold | hnew
      · exact h.stored row l hold
      · exact .inr (hcurrent row l hnew)
    · rcases List.mem_append.mp (hhits hrow) with hold | hnew
      · exact h.hits row l hold
      · exact .inr (hcurrent row l hnew)

theorem kept_add (hlib : lib.Lawful) (h : Kept lib books a) (env : NativeEnv)
    (printable : Char → Bool) (reg : Registry) (externalIds : List String) (vectors : VectorsArg)
    (collection : Option String) :
    Kept lib (books.next (.add env printable reg externalIds vectors collection : HnswlibCall I)
        (.added (a.add lib.toHnswLib env printable externalIds vectors collection reg).1))
      (a.add lib.toHnswLib env printable externalIds vectors collection reg).2.2 := by
  rw [add]
  dsimp only
  split
  · exact h
  · split
    · exact h
    · rename_i hwidth _
      have hwide : ∀ p ∈ externalIds.zip vectors.reshaped.rows, p.2.length = a.dim :=
        fun p hp => (vectors.reshaped.rows_width p.2 (List.of_mem_zip hp).2).trans
          (of_not_not hwidth)
      obtain ⟨hsound, hdim, hindex, hmirror, hcontents, hmirrored, hlabels⟩ :=
        addRows_dense printable (a.collectionOr collection) hwide reg h.sound
      rcases hloop : addRows printable (a.collectionOr collection)
        (externalIds.zip vectors.reshaped.rows) reg a with ⟨e | labels, reg', a'⟩
      · rw [hloop] at hsound hdim hindex hmirror hcontents hmirrored
        exact h.grown hsound hdim hindex hmirror hcontents hmirrored
      · rw [hloop] at hsound hdim hindex hmirror hcontents hmirrored hlabels
        have hgrown := h.grown hsound hdim hindex hmirror hcontents hmirrored
        have hlive : ∀ l ∈ labels.filter fun label => label ∉ a'.deleted,
            l ∈ a'.labelToRow ∧ l ∉ a'.deleted := by
          intro l hl
          obtain ⟨hmem, hlive⟩ := List.mem_filter.mp hl
          exact ⟨hlabels labels rfl l hmem, of_decide_eq_true hlive⟩
        have hfilled := hgrown.fill hlib hlive
        obtain ⟨hsynced, hclean⟩ := hfilled.syncHealMirror env
        dsimp only at hfilled hsynced hclean ⊢
        split
        · exact hfilled
        · split
          · rename_i heq
            rw [heq] at hsynced
            exact hsynced
          · rename_i heq
            rw [heq] at hclean
            exact hclean rfl

/-- `mark_deleted`, unless the label is deleted: who may still be found. -/
theorem Kept.mark (hlib : lib.Lawful) (h : Kept lib books a) (label : ℤ) :
    let marked := if label ∉ a.deleted then lib.markDeleted label a.index else (.ok (), a.index)
    lib.entries marked.2 = lib.entries a.index ∧
      lib.searchable marked.2 ⊆ lib.searchable a.index ∧
      ((∀ text, marked.1 ≠ .error (.other text)) → ∀ row l, (row, l) ∈ lib.searchable marked.2 →
        l ∈ books.exposed ∨ l ≠ label ∧ a.dense.contents l = some row) := by
  obtain ⟨hentries, hmarked⟩ := hlib.marked label a.index
  dsimp only
  split
  · refine ⟨hentries, hlib.markRaised label a.index, fun hno row l hrow => ?_⟩
    rw [hmarked hno] at hrow
    obtain ⟨hfound, hne⟩ := List.mem_filter.mp hrow
    exact (h.hits row l hfound).imp_right fun hcontents => ⟨of_decide_eq_true hne, hcontents⟩
  · rename_i hdeleted
    refine ⟨rfl, List.Subset.refl _, fun _ row l hrow => (h.hits row l hrow).imp_right ?_⟩
    refine fun hcontents => ⟨?_, hcontents⟩
    rintro rfl
    exact hdeleted (DenseStore.live_of_contents hcontents).2

theorem kept_hardDelete (hlib : lib.Lawful) (h : Kept lib books a) (env : MirrorEnv)
    (label maxM : ℤ) :
    Kept lib (books.next (.hardDelete env label maxM : HnswlibCall I)
        (.erased (a.hardDeleteLabel lib D env label maxM).1))
      (a.hardDeleteLabel lib D env label maxM).2 := by
  rw [hardDeleteLabel]
  rcases hi : a.labelToRow.lookup label with _ | i
  · exact h
  have hmirror := DenseStore.Mirrored.healRow (D := D) h.mirrored hi env maxM
  obtain ⟨hentries, hsub, hhits⟩ := h.mark hlib label
  dsimp only
  generalize (if label ∉ a.deleted then lib.markDeleted label a.index else (.ok (), a.index)) =
    marked at hentries hsub hhits
  -- where the label is deleted
  have hdone : (∀ text, marked.1 ≠ .error (.other text)) →
      Kept lib
        { books with
          owed := insert label books.owed
          unhealed := DenseStore.nextUnhealed label (healRow D env i maxM a.healMirror).1
            books.unhealed }
        { a with
          vectors := a.vectors.set i ((a.vectors[i]?.getD []).map fun _ => 0)
          index := marked.2
          deleted := insert label a.deleted
          healMirror := (healRow D env i maxM a.healMirror).2 } := by
    intro hno
    refine ⟨h.sound.zeroRowAt hi, hmirror, fun row l hrow => ?_, fun row l hrow => ?_⟩
    · by_cases hl : l = label
      · exact .inl (.inl hl)
      · refine (h.stored row l (hentries ▸ hrow)).imp .inr fun hcontents => ?_
        exact (h.sound.contents_blank hi hl).2.trans hcontents
    · refine (hhits hno row l hrow).imp_right fun ⟨hl, hcontents⟩ => ?_
      exact (h.sound.contents_blank hi hl).2.trans hcontents
  have hreturned : (∀ text, marked.1 ≠ .error (.other text)) → ∀ bytes : ℤ,
      Kept lib (books.next (.hardDelete env label maxM : HnswlibCall I)
        (.erased (.ok ⟨true, bytes,
          some ("zeroed+mark_deleted" ++ (healRow D env i maxM a.healMirror).1)⟩)))
        { a with
          vectors := a.vectors.set i ((a.vectors[i]?.getD []).map fun _ => 0)
          index := marked.2
          deleted := insert label a.deleted
          healMirror := (healRow D env i maxM a.healMirror).2 } := by
    intro hno bytes
    have hstart : "zeroed+mark_deleted+heal_error(" = "zeroed+mark_deleted" ++ "+heal_error(" := by
      decide
    rw [HnswBooks.next, if_pos rfl, hstart, BackendEraseResult.says_append _ rfl]
    exact hdone hno
  rcases marked with ⟨(text | text) | ⟨⟩, index⟩
  · exact hreturned (fun _ heq => nomatch heq) _
  · -- the row is zero, the label is as it was
    refine ⟨(h.sound.blankRow hi).1, fun ix hix => ?_, fun row l hrow => ?_, fun row l hrow => ?_⟩
    · exact ⟨(h.mirrored ix hix).wellFormed, (h.mirrored ix hix).zero⟩
    · by_cases hl : l = label
      · exact .inl (.inl hl)
      · exact (h.stored row l (hentries ▸ hrow)).imp .inr
          fun hcontents => (h.sound.contents_blank hi hl).1.trans hcontents
    · by_cases hl : l = label
      · exact .inl (.inl hl)
      · exact (h.hits row l (hsub hrow)).imp .inr
          fun hcontents => (h.sound.contents_blank hi hl).1.trans hcontents
  · exact hreturned (fun _ heq => nomatch heq) _

/-- An index that was made anew stores live rows only. -/
theorem addAny_init (hlib : lib.Lawful) (h : a.dense.Sound a.dim) (cap : ℤ) :
    let filled := lib.addAny a.dense.liveRows (lib.initIndex cap)
    (∀ row l, (row, l) ∈ lib.entries filled.2 → a.dense.contents l = some row) ∧
      (filled.1 = none → ∀ e, (e ∈ lib.entries filled.2 ↔ e ∈ a.dense.liveRows) ∧
        (e ∈ lib.searchable filled.2 ↔ e ∈ a.dense.liveRows)) := by
  have hnone : ∀ e, e ∉ lib.entries (lib.initIndex cap) := by
    intro e
    rw [hlib.init]
    exact List.not_mem_nil
  have hnone' : ∀ e, e ∉ lib.searchable (lib.initIndex cap) := fun e he =>
    hnone e (hlib.searchable _ he)
  rw [HnswVendor.addAny]
  dsimp only
  split
  · rename_i hlive
    rw [hlive]
    refine ⟨fun row l hrow => absurd hrow (hnone _), fun _ e => ⟨?_, ?_⟩⟩
    · exact iff_of_false (hnone e) List.not_mem_nil
    · exact iff_of_false (hnone' e) List.not_mem_nil
  · refine ⟨fun row l hrow => ?_, fun hok e => ?_⟩
    · rcases List.mem_append.mp ((hlib.addRaised _ _).1 hrow) with hold | hnew
      · exact absurd hold (hnone _)
      · exact ((DenseStore.mem_liveRows h).mp hnew).1
    · obtain ⟨hentries, hsearchable⟩ := hlib.added _ _ a.dense.nodup_liveRows hok e
      exact ⟨hentries.trans (or_iff_left fun hold => hnone e hold.1),
        hsearchable.trans (or_iff_left fun hold => hnone' e hold.1)⟩

theorem kept_compact (hlib : lib.Lawful) (h : Kept lib books a) (env : NativeEnv)
    (maxElements : ℤ) :
    Kept lib (books.next (.compact env maxElements : HnswlibCall I)
        (.compacted (a.compact lib env maxElements).1))
      (a.compact lib env maxElements).2 := by
  obtain ⟨hcurrent, -⟩ := addAny_init hlib h.sound (max maxElements (a.dense.liveRows.length + 1))
  have hfilled : Kept lib { books with owed := ∅, exposed := ∅ }
      { a with index := (lib.addAny a.dense.liveRows
        (lib.initIndex (max maxElements (a.dense.liveRows.length + 1)))).2 } :=
    ⟨h.sound, h.mirrored, fun row l hrow => .inr (hcurrent row l hrow),
      fun row l hrow => .inr (hcurrent row l (hlib.searchable _ hrow))⟩
  obtain ⟨hsynced, hclean⟩ := hfilled.syncHealMirror env
  rw [compact]
  split
  · exact hfilled
  · split
    · rename_i heq
      rw [heq] at hsynced
      exact hsynced
    · rename_i heq
      rw [heq] at hclean
      exact hclean rfl

/-- **One call** keeps the books. -/
theorem kept_run (hlib : lib.Lawful) (h : Kept lib books a) (call : HnswlibCall I) :
    Kept lib (books.next call (call.run lib D a).1) (call.run lib D a).2 := by
  cases call with
  | add env printable reg externalIds vectors collection =>
    exact kept_add hlib h env printable reg externalIds vectors collection
  | hardDelete env label maxM => exact kept_hardDelete hlib h env label maxM
  | compact env maxElements => exact kept_compact hlib h env maxElements
  | loadIndex read =>
    rcases read with text | index
    · have hnone : ∀ e, e ∉ lib.entries lib.blank := by
        intro e
        rw [hlib.blank]
        exact List.not_mem_nil
      exact ⟨h.sound, h.mirrored, fun row l hrow => absurd hrow (hnone _),
        fun row l hrow => absurd (hlib.searchable _ hrow) (hnone _)⟩
    · exact ⟨h.sound, h.mirrored, fun _ _ _ => .inl (Set.mem_univ _),
        fun _ _ _ => .inl (Set.mem_univ _)⟩

theorem kept_runAll (hlib : lib.Lawful) (h : Kept lib books a) (calls : List (HnswlibCall I)) :
    Kept lib (HnswlibCall.runAll lib D calls a books).2
      (HnswlibCall.runAll lib D calls a books).1 := by
  induction calls generalizing a books with
  | nil => exact h
  | cons call rest ih => exact ih (kept_run hlib h call)

theorem kept_new (hlib : lib.Lawful) {dim : ℕ} (hdim : 0 < dim) (maxElements : ℤ)
    (collection : String) (healMirror : Bool) :
    Kept lib ⟨∅, ∅, ∅⟩ (new lib dim hdim maxElements collection healMirror) := by
  have hnone : ∀ e, e ∉ lib.entries (lib.initIndex maxElements) := by
    intro e
    rw [hlib.init]
    exact List.not_mem_nil
  refine ⟨DenseStore.sound_empty, fun ix hix => ?_, fun row l hrow => absurd hrow (hnone _),
    fun row l hrow => absurd (hlib.searchable _ hrow) (hnone _)⟩
  cases healMirror with
  | true =>
    obtain rfl := Option.some.inj hix
    exact ⟨Index.wellFormed_unloaded false 0, fun l hl => absurd hl (Finset.notMem_empty l)⟩
  | false => cases hix

/-- A compaction that returns: the live rows are stored and can be found, and nothing else. -/
theorem Kept.compact_ok (hlib : lib.Lawful) (h : Kept lib books a) (env : NativeEnv)
    (maxElements : ℤ) :
    (∀ row l, (row, l) ∈ lib.entries (a.compact lib env maxElements).2.index →
      a.dense.contents l = some row) ∧
    ∀ n, (a.compact lib env maxElements).1 = .ok n → n = a.dense.liveRows.length ∧
      ∀ e, (e ∈ lib.entries (a.compact lib env maxElements).2.index ↔ e ∈ a.dense.liveRows) ∧
        (e ∈ lib.searchable (a.compact lib env maxElements).2.index ↔ e ∈ a.dense.liveRows) := by
  obtain ⟨hcurrent, hexact⟩ :=
    addAny_init hlib h.sound (max maxElements (a.dense.liveRows.length + 1))
  rw [compact]
  split
  · exact ⟨hcurrent, fun n hn => nomatch hn⟩
  · rename_i hfilled
    rw [syncHealMirror_eq]
    split
    · rename_i hsync
      obtain ⟨-, rfl⟩ := Prod.mk.inj hsync
      exact ⟨hcurrent, fun n hn => nomatch hn⟩
    · rename_i hsync
      obtain ⟨-, rfl⟩ := Prod.mk.inj hsync
      exact ⟨hcurrent, fun n hn => ⟨(Except.ok.inj hn).symm, hexact hfilled⟩⟩

/-- **What searches find and what is stored**, after every run of a new adapter, whatever its calls
raised. The row of a deleted label is zero and verifies, and its row in the mirror too unless its
heal failed. A search finds current rows of live labels, unless a delete raised halfway or an index
was read from a file since the last compaction. The index stores current rows, and the rows of
labels that were deleted since the last compaction. A compaction, even one that raises, leaves
nothing but current rows, and one that returns all of the live rows. -/
theorem hits_current (hlib : lib.Lawful) {dim : ℕ} (hdim : 0 < dim) (maxElements : ℤ)
    (collection : String) (healMirror : Bool) (calls : List (HnswlibCall I)) :
    let (a, books) := HnswlibCall.runAll lib D calls
      (new lib dim hdim maxElements collection healMirror) ⟨∅, ∅, ∅⟩
    (∀ l ∈ a.deleted, a.dense.verifyZeroed l = true ∧
      ∃ row, a.dense.getVector l = .ok row ∧ ∀ w ∈ row, w = 0) ∧
    (∀ ix, a.healMirror = some ix → ∀ l ∈ a.deleted, l ∉ books.unhealed →
      ∀ i, a.labelToRow.lookup l = some i → ix.RowZero i) ∧
    (∀ row l, (row, l) ∈ lib.searchable a.index →
      l ∈ books.exposed ∨ a.dense.contents l = some row) ∧
    (∀ vector k labels, a.query lib vector k = .ok labels → ∀ l ∈ labels,
      l ∈ books.exposed ∨ a.Live l) ∧
    (∀ row l, (row, l) ∈ lib.entries a.index → l ∈ books.owed ∨ a.dense.contents l = some row) ∧
    ∀ env cap, (∀ row l, (row, l) ∈ lib.entries (a.compact lib env cap).2.index →
        a.dense.contents l = some row) ∧
      ∀ n, (a.compact lib env cap).1 = .ok n → n = a.dense.liveRows.length ∧
        ∀ e, (e ∈ lib.entries (a.compact lib env cap).2.index ↔ e ∈ a.dense.liveRows) ∧
          (e ∈ lib.searchable (a.compact lib env cap).2.index ↔ e ∈ a.dense.liveRows) := by
  have h := kept_runAll (D := D) hlib (kept_new hlib hdim maxElements collection healMirror) calls
  generalize HnswlibCall.runAll lib D calls (new lib dim hdim maxElements collection healMirror)
    ⟨∅, ∅, ∅⟩ = st at h
  obtain ⟨a, books⟩ := st
  refine ⟨fun l hl => ⟨h.sound.verifyZeroed hl, h.sound.getVector_deleted hl⟩,
    fun ix hix => (h.mirrored ix hix).zero, h.hits, fun vector k labels hfound l hl => ?_, h.stored,
    h.compact_ok hlib⟩
  obtain ⟨row, hrow⟩ := hlib.found vector k a.index labels hfound l hl
  exact (h.hits row l hrow).imp_right DenseStore.live_of_contents

/-- An hnswlib index that is the list of its rows, with their marks. -/
def marking : HnswVendor (List ((Row × ℤ) × Bool)) where
  addItems rows ix :=
    (none, (ix.filter fun e => e.1.2 ∉ rows.map Prod.snd) ++ rows.map fun e => (e, false))
  entries ix := ix.map Prod.fst
  searchable ix := (ix.filter fun e => !e.2).map Prod.fst
  blank := []
  initIndex _ := []
  markDeleted label ix :=
    if ix.any fun e => e.1.2 = label && !e.2 then
      (.ok (), ix.map fun e => if e.1.2 = label then (e.1, true) else e)
    else (.error (.runtime "Label not found"), ix)
  knnQuery _ k ix := .ok (((ix.filter fun e => !e.2).map fun e => e.1.2).take k.toNat)

/-- `mark_deleted` in such an index: nothing is removed, and the label is not found any more. -/
theorem marking_markDeleted (label : ℤ) (ix : List ((Row × ℤ) × Bool)) :
    marking.entries (marking.markDeleted label ix).2 = marking.entries ix ∧
      marking.searchable (marking.markDeleted label ix).2 =
        (marking.searchable ix).filter fun e => e.2 ≠ label := by
  simp only [marking]
  split
  · rename_i hsome
    clear hsome
    constructor
    · rw [List.map_map]
      refine List.map_congr_left fun e _ => ?_
      dsimp only [Function.comp_apply]
      split <;> rfl
    · induction ix with
      | nil => rfl
      | cons e rest ih =>
        rcases e with ⟨⟨row, l⟩, mark⟩
        by_cases hl : l = label <;> cases mark <;> simpa [hl] using ih
  · rename_i hnone
    refine ⟨rfl, (List.filter_eq_self.mpr fun e he => ?_).symm⟩
    obtain ⟨p, hp, rfl⟩ := List.mem_map.mp he
    obtain ⟨hmem, hunmarked⟩ := List.mem_filter.mp hp
    simp only [List.any_eq_true, not_exists, not_and] at hnone
    have hno := hnone p hmem
    simpa [hunmarked] using hno

theorem lawful_marking : marking.Lawful where
  blank := rfl
  init _ := rfl
  searchable ix e he := by
    simp only [marking, List.mem_map, List.mem_filter] at he ⊢
    obtain ⟨p, ⟨hp, -⟩, rfl⟩ := he
    exact ⟨p, hp, rfl⟩
  added rows ix _ _ e := by
    constructor
    · simp only [marking, List.map_append, List.map_map, List.mem_append, List.mem_map,
        List.mem_filter, decide_eq_true_eq]
      grind
    · simp only [marking, List.filter_append, List.map_append, List.mem_append, List.mem_map,
        List.mem_filter, decide_eq_true_eq, Bool.not_eq_true']
      grind
  addRaised rows ix := by
    constructor
    · intro e
      simp only [marking, List.map_append, List.map_map, List.mem_append, List.mem_map,
        List.mem_filter, decide_eq_true_eq]
      grind
    · intro e
      simp only [marking, List.filter_append, List.map_append, List.mem_append, List.mem_map,
        List.mem_filter, decide_eq_true_eq, Bool.not_eq_true']
      grind
  marked label ix := ⟨(marking_markDeleted label ix).1, fun _ => (marking_markDeleted label ix).2⟩
  markRaised label ix := by
    rw [(marking_markDeleted label ix).2]
    exact List.filter_subset_self _
  found query k ix labels h l hl := by
    obtain rfl := Except.ok.inj h
    obtain ⟨⟨⟨row, l'⟩, mark⟩, hmem, rfl⟩ := List.mem_map.mp (List.mem_of_mem_take hl)
    exact ⟨row, List.mem_map.mpr ⟨_, hmem, rfl⟩⟩

/-- Two rows, and the first one deleted. -/
def oneMarked : List (HnswlibCall (List ((Row × ℤ) × Bool))) :=
  [.add .calm (fun _ => true) docsRegistry ["a", "b"] twoRows none, .hardDelete ⟨.calm, ""⟩ 0 16]

/-- Its floats are still stored, and the books say so; a search does not find it. -/
theorem hits_current_oneMarked :
    let (a, books) := HnswlibCall.runAll marking Float oneMarked
      (new marking 1 Nat.one_pos 10 "docs" false) ⟨∅, ∅, ∅⟩
    a.dense.verifyZeroed 0 = true ∧ a.query marking [0x3f800000] 2 = .ok [1] ∧
      ([0x3f800000], 0) ∈ marking.entries a.index ∧ 0 ∈ books.owed := by
  have hdeleted : 0 ∈ (HnswlibCall.runAll marking Float oneMarked
      (new marking 1 Nat.one_pos 10 "docs" false) ⟨∅, ∅, ∅⟩).1.deleted := by decide
  have hstored : ([0x3f800000], 0) ∈ marking.entries (HnswlibCall.runAll marking Float oneMarked
      (new marking 1 Nat.one_pos 10 "docs" false) ⟨∅, ∅, ∅⟩).1.index := by decide
  obtain ⟨hzero, -, -, -, hstill, -⟩ := hits_current (D := Float) lawful_marking Nat.one_pos 10
    "docs" false oneMarked
  refine ⟨(hzero 0 hdeleted).1, rfl, hstored, (hstill _ 0 hstored).resolve_right fun hcurrent => ?_⟩
  exact (DenseStore.live_of_contents hcurrent).2 hdeleted

end HnswlibAdapter

end Unlearning
