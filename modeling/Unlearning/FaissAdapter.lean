import Unlearning.DenseStore

/-!
# The FAISS adapter (`integrations/faiss_adapter.py`)

`hard_delete_label` zeroes the row of the matrix and asks the FAISS index to remove the label. An
HNSW index may refuse; the floats then stay in it until `compact`, and the answer says
`+pending_compact`. The mirror is healed last, and its failure is in the answer too.

FAISS is a parameter: `FaissLib` has the calls that the adapter makes, and `entries`, the rows
that an index stores; `Lawful` is what its documentation says of them. `Books` is what a caller
can tell from the answers: the labels with a compaction due, and those with a heal due.

`residue_accounted`: through every run, the floats of a deleted label are in the FAISS index only
if its compaction is due, and in the mirror only if its heal is.
-/

namespace Unlearning

open PyText

/-- What the adapter calls of FAISS. -/
structure FaissLib (I : Type) where
  /-- the rows that an index stores, under their labels -/
  entries : I → List (Row × ℤ)
  /-- `IndexIDMap2(IndexHNSWFlat(…))` -/
  new : I
  /-- `add_with_ids`: what it raises, and the index afterwards -/
  addWithIds : List (Row × ℤ) → I → Option String × I
  /-- `remove_ids` of one label: how many it removed -/
  removeIds : ℤ → I → Except String ℕ × I
  /-- the labels that `search` finds -/
  search : Row → ℤ → I → Except String (List ℤ)

namespace FaissLib

variable {I : Type}

/-- The documented behaviour. -/
structure Lawful (lib : FaissLib I) : Prop where
  new : lib.entries lib.new = []
  added : ∀ rows ix, (lib.addWithIds rows ix).1 = none →
    lib.entries (lib.addWithIds rows ix).2 = lib.entries ix ++ rows
  /-- what a call that raises leaves -/
  addRaised : ∀ rows ix, lib.entries (lib.addWithIds rows ix).2 ⊆ lib.entries ix ++ rows
  removed : ∀ label ix n, (lib.removeIds label ix).1 = .ok n →
    lib.entries (lib.removeIds label ix).2 = (lib.entries ix).filter fun e => e.2 ≠ label
  removeRaised : ∀ label ix, lib.entries (lib.removeIds label ix).2 ⊆ lib.entries ix
  /-- `-1` stands for a hit that is missing -/
  found : ∀ query k ix labels, lib.search query k ix = .ok labels → ∀ l ∈ labels,
    l = -1 ∨ ∃ row, (row, l) ∈ lib.entries ix

/-- `add_with_ids`, if there is anything to add. -/
def addAny (lib : FaissLib I) (rows : List (Row × ℤ)) (ix : I) : Option String × I :=
  if rows = [] then (none, ix) else lib.addWithIds rows ix

theorem Lawful.addAny {lib : FaissLib I} (hlib : lib.Lawful) (rows : List (Row × ℤ)) (ix : I) :
    lib.entries (lib.addAny rows ix).2 ⊆ lib.entries ix ++ rows ∧
      ((lib.addAny rows ix).1 = none →
        lib.entries (lib.addAny rows ix).2 = lib.entries ix ++ rows) := by
  rw [FaissLib.addAny]
  split
  · rename_i hrows
    rw [hrows, List.append_nil]
    exact ⟨List.Subset.refl _, fun _ => rfl⟩
  · exact ⟨hlib.addRaised rows ix, hlib.added rows ix⟩

end FaissLib

/-- The fields of `FaissHNSWHardDeleteAdapter`; the registry is apart. -/
structure FaissAdapter (I : Type) extends DenseStore where
  dim : ℕ
  collection : String
  /-- the FAISS index -/
  index : I
  healMirror : Option Index
  /-- "dim must be positive" -/
  dim_pos : 0 < dim

namespace FaissAdapter

variable {I : Type}

/-- `collection or self.collection` -/
def collectionOr (collection : Option String) (a : FaissAdapter I) : String :=
  (collection.filter fun c => c ≠ "").getD a.collection

/-- The loop of `add`: the labels, and the rows for the index. -/
def addRows (printable : Char → Bool) (coll : String) :
    List (String × Row) → Registry → DenseStore →
      Except AddError (List ℤ × List (Row × ℤ)) × Registry × DenseStore
  | [], reg, s => (.ok ([], []), reg, s)
  | (ext, row) :: rest, reg, s =>
    match reg.register printable coll ext none with
    | (.error e, reg) => (.error (.registry e), reg, s)
    | (.ok label, reg) =>
      let s := s.appendRow label row
      let kept := if label ∉ s.deleted then [(row, label)] else []
      match addRows printable coll rest reg s with
      | (.ok (labels, rows), reg, s) => (.ok (label :: labels, kept ++ rows), reg, s)
      | (.error e, reg, s) => (.error e, reg, s)

/-- `_sync_heal_mirror` -/
def syncHealMirror (env : NativeEnv) (a : FaissAdapter I) :
    Except NativeError Unit × FaissAdapter I :=
  let synced := a.toDenseStore.syncMirror env a.dim a.healMirror
  (synced.1, { a with healMirror := synced.2 })

/-- `add` -/
def add (lib : FaissLib I) (env : NativeEnv) (printable : Char → Bool)
    (externalIds : List String) (vectors : VectorsArg) (collection : Option String)
    (reg : Registry) (a : FaissAdapter I) :
    Except AddError (List ℤ) × Registry × FaissAdapter I :=
  let coll := a.collectionOr collection
  let vecs := vectors.reshaped
  if vecs.width ≠ a.dim then
    (.error (.value ("expected dim=" ++ toString a.dim ++ ", got " ++ toString vecs.width)), reg, a)
  else if externalIds.length ≠ vecs.rows.length then
    (.error (.value "external_ids and vectors length mismatch"), reg, a)
  else
    match addRows printable coll (externalIds.zip vecs.rows) reg a.toDenseStore with
    | (.error e, reg, s) => (.error e, reg, { a with toDenseStore := s })
    | (.ok (labels, rows), reg, s) =>
      let a := { a with toDenseStore := s }
      let filled := lib.addAny rows a.index
      let a := { a with index := filled.2 }
      match filled.1 with
      | some text => (.error (.runtime text), reg, a)
      | none =>
        match a.syncHealMirror env with
        | (.error e, a) => (.error (.native e), reg, a)
        | (.ok (), a) => (.ok labels, reg, a)

/-- `hard_delete_label`; the collection is dropped. -/
def hardDeleteLabel (lib : FaissLib I) (D : Type) [FloatArith D] (env : MirrorEnv) (label maxM : ℤ)
    (a : FaissAdapter I) : BackendEraseResult × FaissAdapter I :=
  match a.labelToRow.lookup label with
  | none => (⟨false, 0, some "unknown label"⟩, a)
  | some i =>
    let original := a.vectors[i]?.getD []
    let dropped := lib.removeIds label a.index
    let removed := match dropped.1 with
      | .ok n => decide (0 < n)
      | .error _ => false
    let msg := if removed then "zeroed+remove_ids" else "zeroed+pending_compact"
    let healed := healRow D env i maxM a.healMirror
    (⟨true, 4 * original.length, some (msg ++ healed.1)⟩,
      { a with
        toDenseStore := a.toDenseStore.zeroRowAt label i
        index := dropped.2
        healMirror := healed.2 })

/-- `compact` -/
def compact (lib : FaissLib I) (env : NativeEnv) (a : FaissAdapter I) :
    Except AddError ℕ × FaissAdapter I :=
  let live := a.liveRows
  let filled := lib.addAny live lib.new
  let a := { a with index := filled.2 }
  match filled.1 with
  | some text => (.error (.runtime text), a)
  | none =>
    match a.syncHealMirror env with
    | (.error e, a) => (.error (.native e), a)
    | (.ok (), a) => (.ok live.length, a)

/-- `query`: the labels it returns. -/
def query (lib : FaissLib I) (vector : Row) (k : ℤ) (a : FaissAdapter I) : Except String (List ℤ) :=
  lib.search vector k a.index

/-- `load_index`, from what reading the file gives. -/
def loadIndex (read : Except String I) (a : FaissAdapter I) :
    Except String Unit × FaissAdapter I :=
  match read with
  | .error text => (.error text, a)
  | .ok index => (.ok (), { a with index := index })

/-- `FaissHNSWHardDeleteAdapter(dim, …)`, with or without a mirror. -/
def new (lib : FaissLib I) (dim : ℕ) (hdim : 0 < dim) (collection : String) (healMirror : Bool) :
    FaissAdapter I :=
  ⟨⟨[], ∅, ∅⟩, dim, collection, lib.new, if healMirror then some .empty else none, hdim⟩

end FaissAdapter

/-! ## Runs -/

/-- A call on the adapter; `reg` is the registry that an `add` finds. -/
inductive FaissCall (I : Type) : Type where
  | add (env : NativeEnv) (printable : Char → Bool) (reg : Registry) (externalIds : List String)
      (vectors : VectorsArg) (collection : Option String) : FaissCall I
  | hardDelete (env : MirrorEnv) (label maxM : ℤ) : FaissCall I
  | compact (env : NativeEnv) : FaissCall I
  | loadIndex (read : Except String I) : FaissCall I

/-- What it answers. -/
inductive FaissAnswer : Type where
  | added (r : Except AddError (List ℤ)) : FaissAnswer
  | erased (r : BackendEraseResult) : FaissAnswer
  | compacted (r : Except AddError ℕ) : FaissAnswer
  | loaded (r : Except String Unit) : FaissAnswer

/-- What a call answers, and the adapter that it leaves. -/
def FaissCall.run {I : Type} (lib : FaissLib I) (D : Type) [FloatArith D] :
    FaissCall I → FaissAdapter I → FaissAnswer × FaissAdapter I
  | add env printable reg externalIds vectors collection, a =>
    let r := a.add lib env printable externalIds vectors collection reg
    (.added r.1, r.2.2)
  | hardDelete env label maxM, a =>
    let r := a.hardDeleteLabel lib D env label maxM
    (.erased r.1, r.2)
  | compact env, a =>
    let r := a.compact lib env
    (.compacted r.1, r.2)
  | loadIndex read, a =>
    let r := a.loadIndex read
    (.loaded r.1, r.2)

/-- What the answers leave due: the labels whose floats a compaction must still remove from the
index of the vendor, and those whose heal failed. -/
structure Books where
  owed : Set ℤ
  unhealed : Set ℤ

/-- The books after one more answer. -/
def Books.next {I : Type} (books : Books) : FaissCall I → FaissAnswer → Books
  | .hardDelete _ label _, .erased r =>
    if r.success then
      { owed := {l | if l = label then r.Says "zeroed+pending_compact" else l ∈ books.owed}
        unhealed := {l | if l = label then
            r.Says "zeroed+remove_ids+heal_error(" ∨ r.Says "zeroed+pending_compact+heal_error("
          else l ∈ books.unhealed} }
    else books
  | .add .., .added (.ok _) => { books with unhealed := ∅ }
  | .compact _, .compacted (.ok _) => ⟨∅, ∅⟩
  | .compact _, .compacted (.error _) => { books with owed := ∅ }
  -- a file may hold anything
  | .loadIndex _, .loaded (.ok _) => { books with owed := Set.univ }
  | _, _ => books

/-- The adapter after a run, and the books. -/
def FaissCall.runAll {I : Type} (lib : FaissLib I) (D : Type) [FloatArith D]
    (calls : List (FaissCall I)) (a : FaissAdapter I) (books : Books) : FaissAdapter I × Books :=
  calls.foldl (fun st call =>
    let r := call.run lib D st.1
    (r.2, st.2.next call r.1)) (a, books)

/-! ## The invariant -/

namespace FaissAdapter

variable {I D : Type} [FloatArith D] {lib : FaissLib I} {a : FaissAdapter I} {books : Books}

/-- The books account for the floats of deleted labels. -/
structure Kept (lib : FaissLib I) (books : Books) (a : FaissAdapter I) : Prop where
  sound : a.toDenseStore.Sound a.dim
  mirrored : ∀ ix, a.healMirror = some ix →
    DenseStore.Mirrored books.unhealed a.toDenseStore ix
  stored : ∀ row l, (row, l) ∈ lib.entries a.index → l ∈ a.deleted → l ∈ books.owed

/-- **The loop of `add`** revives labels and deletes none, however it ends. -/
theorem addRows_sound {dim : ℕ} (printable : Char → Bool) (coll : String)
    {rows : List (String × Row)} (hwide : ∀ p ∈ rows, p.2.length = dim) (reg : Registry)
    {s : DenseStore} (h : s.Sound dim) :
    (addRows printable coll rows reg s).2.2.Sound dim ∧
      (addRows printable coll rows reg s).2.2.deleted ⊆ s.deleted ∧
      (∀ unhealed ix, DenseStore.Mirrored unhealed s ix →
        DenseStore.Mirrored unhealed (addRows printable coll rows reg s).2.2 ix) ∧
      ∀ labels kept, (addRows printable coll rows reg s).1 = .ok (labels, kept) →
        ∀ p ∈ kept, p.2 ∉ (addRows printable coll rows reg s).2.2.deleted := by
  induction rows generalizing reg s with
  | nil => exact ⟨h, subset_rfl, fun _ _ h => h, fun _ _ heq p hp => by
      obtain ⟨-, rfl⟩ := Prod.mk.inj (Except.ok.inj heq)
      exact absurd hp List.not_mem_nil⟩
  | cons p rest ih =>
    rw [addRows]
    rcases reg.register printable coll p.1 none with ⟨e | label, reg'⟩
    · exact ⟨h, subset_rfl, fun _ _ h => h, fun _ _ heq => nomatch heq⟩
    have hrow := hwide p List.mem_cons_self
    obtain ⟨hsound, -, hdeleted, -⟩ := h.appendRow label hrow
    obtain ⟨hsound', hsub, hmirrored, hkept⟩ :=
      ih (fun q hq => hwide q (List.mem_cons_of_mem p hq)) reg' hsound
    have hsub' := hsub.trans (hdeleted ▸ Finset.erase_subset label s.deleted)
    have hmirrored' := fun unhealed ix (hm : DenseStore.Mirrored unhealed s ix) =>
      hmirrored unhealed ix (hm.appendRow h label hrow)
    dsimp only
    rcases hloop : addRows printable coll rest reg' (s.appendRow label p.2) with
      ⟨e | ⟨labels, rows⟩, reg'', s''⟩
    · rw [hloop] at hsound' hsub' hmirrored'
      exact ⟨hsound', hsub', hmirrored', fun _ _ heq => nomatch heq⟩
    · rw [hloop] at hsound' hsub hsub' hmirrored' hkept
      refine ⟨hsound', hsub', hmirrored', fun labels' kept heq q hq => ?_⟩
      obtain ⟨-, rfl⟩ := Prod.mk.inj (Except.ok.inj heq)
      rcases List.mem_append.mp hq with hfirst | hrest
      · split at hfirst
        · rename_i hlive
          rw [List.mem_singleton.mp hfirst]
          exact fun hdel => hlive (hsub hdel)
        · exact absurd hfirst List.not_mem_nil
      · exact hkept labels rows rfl q hrest

/-- `_sync_heal_mirror`, for the books. -/
theorem Kept.syncHealMirror (h : Kept lib books a) (env : NativeEnv) :
    Kept lib books (a.syncHealMirror env).2 ∧ ((a.syncHealMirror env).1 = .ok () →
      Kept lib { books with unhealed := ∅ } (a.syncHealMirror env).2) :=
  have hmirror := DenseStore.Mirrored.syncMirror a.dim_pos h.sound h.mirrored env
  ⟨⟨h.sound, fun ix hix => (hmirror ix hix).1, h.stored⟩,
    fun hok => ⟨h.sound, fun ix hix => (hmirror ix hix).2 hok, h.stored⟩⟩

theorem kept_add (hlib : lib.Lawful) (h : Kept lib books a) (env : NativeEnv)
    (printable : Char → Bool) (reg : Registry) (externalIds : List String) (vectors : VectorsArg)
    (collection : Option String) :
    Kept lib (books.next (.add env printable reg externalIds vectors collection : FaissCall I)
        (.added (a.add lib env printable externalIds vectors collection reg).1))
      (a.add lib env printable externalIds vectors collection reg).2.2 := by
  rw [add]
  dsimp only
  split
  · exact h
  · split
    · exact h
    · rename_i hwidth _
      have hwide : ∀ p ∈ externalIds.zip vectors.reshaped.rows, p.2.length = a.dim :=
        fun p hp => (vectors.reshaped.rows_width p.2 (List.of_mem_zip hp).2).trans
          (of_not_not hwidth)
      obtain ⟨hsound, hsub, hmirrored, hkept⟩ := addRows_sound printable
        (a.collectionOr collection) hwide reg h.sound
      rcases hloop : addRows printable (a.collectionOr collection)
        (externalIds.zip vectors.reshaped.rows) reg a.toDenseStore with
        ⟨e | ⟨labels, rows⟩, reg', s⟩
      · rw [hloop] at hsound hsub hmirrored
        exact ⟨hsound, fun ix hix => hmirrored _ ix (h.mirrored ix hix),
          fun row l hrow hl => h.stored row l hrow (hsub hl)⟩
      · rw [hloop] at hsound hsub hmirrored hkept
        dsimp only
        have hadded := hlib.addAny rows a.index
        have hfilled : Kept lib books
            { a with toDenseStore := s, index := (lib.addAny rows a.index).2 } := by
          refine ⟨hsound, fun ix hix => hmirrored _ ix (h.mirrored ix hix), fun row l hrow hl => ?_⟩
          rcases List.mem_append.mp (hadded.1 hrow) with hold | hnew
          · exact h.stored row l hold (hsub hl)
          · exact absurd hl (hkept labels rows rfl (row, l) hnew)
        obtain ⟨hsynced, hclean⟩ := hfilled.syncHealMirror env
        split
        · exact hfilled
        · split
          · rename_i heq
            rw [heq] at hsynced
            exact hsynced
          · rename_i heq
            rw [heq] at hclean
            exact hclean rfl

/-! ### What the messages say -/

/-- The two messages, and where each says that the heal failed. -/
theorem says_healError {removed : Bool} {suffix : String} (r : BackendEraseResult)
    (hmessage : r.message = some ((if removed then "zeroed+remove_ids"
      else "zeroed+pending_compact") ++ suffix)) :
    (r.Says "zeroed+remove_ids+heal_error(" ∨ r.Says "zeroed+pending_compact+heal_error(") ↔
      HealFailed suffix := by
  cases removed with
  | true =>
    have hremoved : r.message = some ("zeroed+remove_ids" ++ suffix) := hmessage
    rw [or_iff_left (r.not_says (by decide) (by decide) hremoved)]
    have hstart : "zeroed+remove_ids+heal_error(" = "zeroed+remove_ids" ++ "+heal_error(" := by
      decide
    rw [hstart, r.says_append hremoved]
    exact Iff.rfl
  | false =>
    have hpending : r.message = some ("zeroed+pending_compact" ++ suffix) := hmessage
    rw [or_iff_right (r.not_says (by decide) (by decide) hpending)]
    have hstart : "zeroed+pending_compact+heal_error(" =
        "zeroed+pending_compact" ++ "+heal_error(" := by
      decide
    rw [hstart, r.says_append hpending]
    exact Iff.rfl

theorem kept_hardDelete (hlib : lib.Lawful) (h : Kept lib books a) (env : MirrorEnv)
    (label maxM : ℤ) :
    Kept lib (books.next (.hardDelete env label maxM : FaissCall I)
        (.erased (a.hardDeleteLabel lib D env label maxM).1))
      (a.hardDeleteLabel lib D env label maxM).2 := by
  rw [hardDeleteLabel]
  rcases hi : a.labelToRow.lookup label with _ | i
  · exact h
  · have hmirror := DenseStore.Mirrored.healRow (D := D) h.mirrored hi env maxM
    have hsub := hlib.removeRaised label a.index
    have hremoved := hlib.removed label a.index
    dsimp only
    generalize hanswer : (match (lib.removeIds label a.index).1 with
      | .ok n => decide (0 < n)
      | .error _ => false) = removed
    refine ⟨h.sound.zeroRowAt hi, fun ix hix => ?_, fun row l hrow hl => ?_⟩
    · have hnext := hmirror ix hix
      rw [Books.next, if_pos rfl, says_healError _ rfl]
      exact hnext
    · rw [Books.next, if_pos rfl, Set.mem_ofPred_eq]
      split
      · rename_i heq
        cases removed with
        | true =>
          -- FAISS has removed the label
          rcases hcall : (lib.removeIds label a.index).1 with text | n
          · rw [hcall] at hanswer
            cases hanswer
          · rw [hremoved n hcall] at hrow
            exact absurd heq (of_decide_eq_true (List.mem_filter.mp hrow).2)
        | false => exact ⟨_, (String.toList_append ..).symm⟩
      · rename_i hne
        exact h.stored row l (hsub hrow) ((Finset.mem_insert.mp hl).resolve_left hne)

theorem kept_compact (hlib : lib.Lawful) (h : Kept lib books a) (env : NativeEnv) :
    Kept lib (books.next (.compact env : FaissCall I) (.compacted (a.compact lib env).1))
      (a.compact lib env).2 := by
  have hadded := hlib.addAny a.liveRows lib.new
  rw [hlib.new, List.nil_append] at hadded
  have hfilled : Kept lib { books with owed := ∅ }
      { a with index := (lib.addAny a.liveRows lib.new).2 } := by
    refine ⟨h.sound, h.mirrored, fun row l hrow hl => ?_⟩
    have hlive := ((DenseStore.mem_liveRows h.sound).mp (hadded.1 hrow)).1
    rw [DenseStore.contents, if_pos hl] at hlive
    cases hlive
  obtain ⟨hsynced, hclean⟩ := hfilled.syncHealMirror env
  rw [compact]
  split
  · exact hfilled
  · split
    · rename_i heq
      rw [heq] at hsynced
      exact hsynced
    · rename_i heq
      rw [heq] at hclean
      exact hclean rfl

theorem kept_new (hlib : lib.Lawful) {dim : ℕ} (hdim : 0 < dim) (collection : String)
    (healMirror : Bool) : Kept lib ⟨∅, ∅⟩ (new lib dim hdim collection healMirror) where
  sound := DenseStore.sound_empty
  mirrored ix hix := by
    cases healMirror with
    | true =>
      obtain rfl := Option.some.inj hix
      exact ⟨Index.wellFormed_unloaded false 0, fun l hl => absurd hl (Finset.notMem_empty l)⟩
    | false => cases hix
  stored row l hrow := by
    have hnone : (row, l) ∈ lib.entries lib.new := hrow
    rw [hlib.new] at hnone
    exact absurd hnone List.not_mem_nil

/-- **One call** keeps the books. -/
theorem kept_run (hlib : lib.Lawful) (h : Kept lib books a) (call : FaissCall I) :
    Kept lib (books.next call (call.run lib D a).1) (call.run lib D a).2 := by
  cases call with
  | add env printable reg externalIds vectors collection =>
    exact kept_add hlib h env printable reg externalIds vectors collection
  | hardDelete env label maxM => exact kept_hardDelete hlib h env label maxM
  | compact env => exact kept_compact hlib h env
  | loadIndex read =>
    rcases read with text | index
    · exact h
    · exact ⟨h.sound, h.mirrored, fun _ _ _ _ => Set.mem_univ _⟩

theorem kept_runAll (hlib : lib.Lawful) (h : Kept lib books a) (calls : List (FaissCall I)) :
    Kept lib (FaissCall.runAll lib D calls a books).2 (FaissCall.runAll lib D calls a books).1 := by
  induction calls generalizing a books with
  | nil => exact h
  | cons call rest ih => exact ih (kept_run hlib h call)

/-- A compaction that returns: the live rows are stored, once each, and nothing else. -/
theorem Kept.compact_ok (hlib : lib.Lawful) (h : Kept lib books a) (env : NativeEnv) :
    (∀ row l, (row, l) ∈ lib.entries (a.compact lib env).2.index →
      a.toDenseStore.contents l = some row) ∧
    ∀ n, (a.compact lib env).1 = .ok n → n = a.liveRows.length ∧
      lib.entries (a.compact lib env).2.index = a.liveRows := by
  have hadded := hlib.addAny a.liveRows lib.new
  rw [hlib.new, List.nil_append] at hadded
  have hsub : ∀ row l, (row, l) ∈ lib.entries (lib.addAny a.liveRows lib.new).2 →
      a.toDenseStore.contents l = some row :=
    fun row l hrow => ((DenseStore.mem_liveRows h.sound).mp (hadded.1 hrow)).1
  rw [compact]
  split
  · exact ⟨hsub, fun n hn => nomatch hn⟩
  · rename_i hfilled
    split
    · rename_i hsync
      obtain ⟨-, rfl⟩ := Prod.mk.inj hsync
      exact ⟨hsub, fun n hn => nomatch hn⟩
    · rename_i hsync
      obtain ⟨-, rfl⟩ := Prod.mk.inj hsync
      exact ⟨hsub, fun n hn => ⟨(Except.ok.inj hn).symm, hadded.2 hfilled⟩⟩

/-- **What is left of a deleted label**, after every run of a new adapter, whatever its calls
raised: its row is zero and verifies; the mirror has its floats only if its heal failed, and the
FAISS index only if its compaction is due, so a query returns it only then. A compaction, even
one that raises, leaves nothing but current rows in the index, and one that returns all of the
live rows. -/
theorem residue_accounted (hlib : lib.Lawful) {dim : ℕ} (hdim : 0 < dim) (collection : String)
    (healMirror : Bool) (calls : List (FaissCall I)) :
    let (a, books) := FaissCall.runAll lib D calls (new lib dim hdim collection healMirror) ⟨∅, ∅⟩
    (∀ l ∈ a.deleted, a.verifyZeroed l = true ∧
      ∃ row, a.getVector l = .ok row ∧ ∀ w ∈ row, w = 0) ∧
    (∀ ix, a.healMirror = some ix → ∀ l ∈ a.deleted, l ∉ books.unhealed →
      ∀ i, a.labelToRow.lookup l = some i → ix.RowZero i) ∧
    (∀ row l, (row, l) ∈ lib.entries a.index → l ∈ a.deleted → l ∈ books.owed) ∧
    (∀ vector k labels, a.query lib vector k = .ok labels → ∀ l ∈ labels,
      l = -1 ∨ l ∉ a.deleted ∨ l ∈ books.owed) ∧
    ∀ env, (∀ row l, (row, l) ∈ lib.entries (a.compact lib env).2.index →
        a.toDenseStore.contents l = some row) ∧
      ∀ n, (a.compact lib env).1 = .ok n → n = a.liveRows.length ∧
        lib.entries (a.compact lib env).2.index = a.liveRows := by
  have h := kept_runAll (D := D) hlib (kept_new hlib hdim collection healMirror) calls
  generalize FaissCall.runAll lib D calls (new lib dim hdim collection healMirror) ⟨∅, ∅⟩ = st at h
  obtain ⟨a, books⟩ := st
  refine ⟨fun l hl => ⟨h.sound.verifyZeroed hl, h.sound.getVector_deleted hl⟩,
    fun ix hix => (h.mirrored ix hix).zero, h.stored, fun vector k labels hfound l hl => ?_,
    h.compact_ok hlib⟩
  rcases hlib.found vector k a.index labels hfound l hl with hmissing | ⟨row, hstored⟩
  · exact .inl hmissing
  · by_cases hdeleted : l ∈ a.deleted
    · exact .inr (.inr (h.stored row l hstored hdeleted))
    · exact .inr (.inl hdeleted)

/-- A FAISS index that is the list of its rows, and that refuses to remove any. -/
def refusing : FaissLib (List (Row × ℤ)) where
  entries := id
  new := []
  addWithIds rows ix := (none, ix ++ rows)
  removeIds _ ix := (.error "remove_ids not implemented for this type of index", ix)
  search _ k ix := .ok ((ix.map Prod.snd).take k.toNat)

theorem lawful_refusing : refusing.Lawful where
  new := rfl
  added _ _ _ := rfl
  addRaised _ _ := List.Subset.refl _
  removed _ _ _ h := nomatch h
  removeRaised _ _ := List.Subset.refl _
  found _ _ ix labels h l hl := by
    obtain rfl := Except.ok.inj h
    obtain ⟨⟨row, l'⟩, hmem, rfl⟩ := List.mem_map.mp (List.mem_of_mem_take hl)
    exact .inr ⟨row, hmem⟩

/-- Two rows, and the first one deleted. -/
def oneRefused : List (FaissCall (List (Row × ℤ))) :=
  [.add .calm (fun _ => true) HnswlibAdapter.docsRegistry ["a", "b"] HnswlibAdapter.twoRows none,
    .hardDelete ⟨.calm, ""⟩ 0 16]

/-- Its floats are still in the index, and the books say so. -/
theorem residue_accounted_refused :
    let (a, books) := FaissCall.runAll refusing Float oneRefused
      (new refusing 1 Nat.one_pos "docs" false) ⟨∅, ∅⟩
    a.verifyZeroed 0 = true ∧ ([0x3f800000], 0) ∈ refusing.entries a.index ∧ 0 ∈ books.owed := by
  have hdeleted : 0 ∈ (FaissCall.runAll refusing Float oneRefused
      (new refusing 1 Nat.one_pos "docs" false) ⟨∅, ∅⟩).1.deleted := by decide
  have hstored : ([0x3f800000], 0) ∈ refusing.entries (FaissCall.runAll refusing Float oneRefused
      (new refusing 1 Nat.one_pos "docs" false) ⟨∅, ∅⟩).1.index := by decide
  obtain ⟨hzero, -, hstill, -⟩ := residue_accounted (D := Float) lawful_refusing Nat.one_pos "docs"
    false oneRefused
  exact ⟨(hzero 0 hdeleted).1, hstored, hstill _ 0 hstored hdeleted⟩

end FaissAdapter

end Unlearning
