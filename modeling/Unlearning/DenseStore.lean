import Unlearning.Calls
import Unlearning.HnswlibAdapter
import Unlearning.MatrixRefinement
import Unlearning.StoreInv

/-!
# The dense store of the HNSW adapters

The hnswlib and the FAISS adapter both keep the floats three times: in a `float32` matrix, in the
index of the vendor, and in the mirror that is healed. `DenseStore` is the matrix with its labels
and the deleted ones, `Mirror` the operations on the mirror; both adapters have the same code for
them.

* `Sound`: labels do not share rows, and the row of a deleted label is zero;
* `mem_liveRows`, `nodup_liveRows`: what a compaction keeps;
* `Unhealed`: the deleted labels whose floats may still be in the mirror.
-/

namespace Unlearning

/-- `_vectors`, `_label_to_row` and `_deleted`. -/
structure DenseStore where
  vectors : List Row
  labelToRow : Dict ℤ ℕ
  deleted : Finset ℤ

namespace DenseStore

/-- `_vectors[_label_to_row[label]]`; `none` for a label without a row. -/
def row? (s : DenseStore) (label : ℤ) : Option Row :=
  (s.labelToRow.lookup label).bind fun i => s.vectors[i]?

/-- `_append_row` -/
def appendRow (label : ℤ) (row : Row) (s : DenseStore) : DenseStore :=
  match s.labelToRow.lookup label with
  | some i => { s with vectors := s.vectors.set i row, deleted := s.deleted.erase label }
  | none =>
    { s with
      vectors := s.vectors ++ [row]
      labelToRow := s.labelToRow.insert label s.vectors.length }

/-- The row at `i` is zeroed. -/
def blankRow (i : ℕ) (s : DenseStore) : DenseStore :=
  { s with vectors := s.vectors.set i ((s.vectors[i]?.getD []).map fun _ => 0) }

/-- The row at `i` is zeroed, and its label deleted. -/
def zeroRowAt (label : ℤ) (i : ℕ) (s : DenseStore) : DenseStore :=
  { s.blankRow i with deleted := insert label s.deleted }

/-- `verify_zeroed` -/
def verifyZeroed (label : ℤ) (s : DenseStore) : Bool :=
  match s.labelToRow.lookup label with
  | none => false
  | some i => zeroRow (s.vectors[i]?.getD [])

/-- `get_vector`; a `KeyError` shows the label. -/
def getVector (label : ℤ) (s : DenseStore) : Except String Row :=
  match s.labelToRow.lookup label with
  | none => .error (toString label)
  | some i => .ok (s.vectors[i]?.getD [])

/-- What `compact` keeps of one item of `_label_to_row`. -/
def liveRow? (s : DenseStore) (item : ℤ × ℕ) : Option (Row × ℤ) :=
  let row := s.vectors[item.2]?.getD []
  if item.1 ∈ s.deleted then none
  else if zeroRow row then none
  else some (row, item.1)

/-- `live_rows` and `live_labels`, side by side. A label enters `_label_to_row` once, so the
items are in the order of insertion. -/
def liveRows (s : DenseStore) : List (Row × ℤ) := s.labelToRow.items.reverse.filterMap s.liveRow?

/-- `data` in `_sync_heal_mirror`: the rows of deleted labels are zero. -/
def mirrorRows (s : DenseStore) : List Row :=
  s.vectors.mapIdx fun i row =>
    if ∃ label ∈ s.deleted, s.labelToRow.lookup label = some i then row.map fun _ => 0 else row

/-! ## The invariant -/

/-- The matrix and its labels as those of an adapter without points. -/
def matrix (s : DenseStore) : MatrixAdapter Unit :=
  ⟨0, "", s.vectors, s.labelToRow, ∅, s.deleted, ()⟩

/-- Labels do not share rows, what is deleted is known and zero, and rows have one width. -/
structure Sound (dim : ℕ) (s : DenseStore) : Prop where
  indexed : s.matrix.Indexed
  known : ∀ l ∈ s.deleted, l ∈ s.labelToRow
  wiped : ∀ l ∈ s.deleted, ∀ row, s.row? l = some row → ∀ w ∈ row, w = 0
  wide : ∀ row ∈ s.vectors, row.length = dim

/-- The vector of a live label. -/
def contents (s : DenseStore) (label : ℤ) : Option Row :=
  if label ∈ s.deleted then none else s.row? label

variable {dim : ℕ} {s : DenseStore} {l : ℤ} {i : ℕ}

theorem sound_empty : Sound dim ⟨[], ∅, ∅⟩ where
  indexed := ⟨fun _ _ _ h => (nomatch h), fun _ _ h => (nomatch h)⟩
  known _ h := absurd h (Finset.notMem_empty _)
  wiped _ h := absurd h (Finset.notMem_empty _)
  wide _ h := absurd h List.not_mem_nil

theorem row?_eq (hi : s.labelToRow.lookup l = some i) : s.row? l = s.vectors[i]? := by
  rw [row?, hi]
  rfl

theorem Sound.row (h : s.Sound dim) (hi : s.labelToRow.lookup l = some i) :
    ∃ row, s.vectors[i]? = some row ∧ s.row? l = some row := by
  have hlt : i < s.vectors.length := h.indexed.inRange l i hi
  exact ⟨s.vectors[i], List.getElem?_eq_getElem hlt, by
    rw [row?_eq hi, List.getElem?_eq_getElem hlt]⟩

/-- **`_append_row`**: the label has the row and is live, nothing else changes. -/
theorem Sound.appendRow (h : s.Sound dim) (l : ℤ) {row : Row} (hrow : row.length = dim) :
    (s.appendRow l row).Sound dim ∧
      (∀ l', l' ∈ (s.appendRow l row).labelToRow ↔ l' = l ∨ l' ∈ s.labelToRow) ∧
      (s.appendRow l row).deleted = s.deleted.erase l ∧
      ∀ l', (s.appendRow l row).row? l' = if l' = l then some row else s.row? l' := by
  unfold DenseStore.appendRow
  rcases hi : s.labelToRow.lookup l with _ | i
  · have hnew : l ∉ s.deleted := fun hdel =>
      AList.lookup_eq_none.mp hi (h.known l hdel)
    obtain ⟨hindexed, hrows⟩ := h.indexed.append l row
    refine ⟨⟨⟨hindexed.injective, hindexed.inRange⟩, fun l' hl' => ?_, fun l' hl' row' hrow' => ?_,
      fun row' hrow' => ?_⟩, fun l' => AList.mem_insert _, (Finset.erase_eq_of_notMem hnew).symm,
      hrows⟩
    · exact (AList.mem_insert _).mpr (.inr (h.known l' hl'))
    · have hne : l' ≠ l := fun heq => hnew (heq ▸ hl')
      have hold := (hrows l').symm.trans hrow'
      rw [if_neg hne] at hold
      exact h.wiped l' hl' row' hold
    · rcases List.mem_append.mp hrow' with hold | hlast
      · exact h.wide row' hold
      · rw [List.mem_singleton.mp hlast, hrow]
  · have hmem : l ∈ s.labelToRow := AList.lookup_isSome.mp (by rw [hi]; rfl)
    have hindexed := h.indexed.set i row
    have hrows := h.indexed.row?_set hi row
    refine ⟨⟨⟨hindexed.injective, hindexed.inRange⟩, fun l' hl' => ?_, fun l' hl' row' hrow' => ?_,
      fun row' hrow' => ?_⟩, fun l' => ⟨.inr, ?_⟩, rfl, hrows⟩
    · exact h.known l' (Finset.mem_of_mem_erase hl')
    · have hold := (hrows l').symm.trans hrow'
      rw [if_neg (Finset.ne_of_mem_erase hl')] at hold
      exact h.wiped l' (Finset.mem_of_mem_erase hl') row' hold
    · rcases List.mem_or_eq_of_mem_set hrow' with hold | rfl
      · exact h.wide row' hold
      · exact hrow
    · rintro (rfl | hold)
      · exact hmem
      · exact hold

/-- The contents after it. -/
theorem Sound.contents_appendRow (h : s.Sound dim) (l : ℤ) {row : Row} (hrow : row.length = dim)
    (l' : ℤ) : (s.appendRow l row).contents l' = if l' = l then some row else s.contents l' := by
  obtain ⟨-, -, hdeleted, hrows⟩ := h.appendRow l hrow
  rw [contents, contents, hdeleted, hrows]
  by_cases hl : l' = l
  · rw [if_pos hl, if_pos hl, if_neg (by simp [hl])]
  · rw [if_neg hl, if_neg hl]
    simp [hl]

/-- **A row is zeroed**, and no other. -/
theorem Sound.blankRow (h : s.Sound dim) (hi : s.labelToRow.lookup l = some i) :
    (s.blankRow i).Sound dim ∧
      (∀ row, (s.blankRow i).row? l = some row → ∀ w ∈ row, w = 0) ∧
      ∀ l', l' ≠ l → (s.blankRow i).row? l' = s.row? l' := by
  have hrow := h.indexed.row?_set hi ((s.vectors[i]?.getD []).map fun _ => 0)
  have hindexed := h.indexed.set i ((s.vectors[i]?.getD []).map fun _ => 0)
  have hzero : ∀ row, (s.blankRow i).row? l = some row → ∀ w ∈ row, w = 0 := by
    intro row hrow' w hw
    have hnow := (hrow l).symm.trans hrow'
    rw [if_pos rfl] at hnow
    obtain rfl := Option.some.inj hnow
    obtain ⟨_, -, rfl⟩ := List.mem_map.mp hw
    rfl
  refine ⟨⟨⟨hindexed.injective, hindexed.inRange⟩, h.known, fun l' hl' row' hrow' => ?_,
    fun row' hrow' => ?_⟩, hzero, fun l' hne => (hrow l').trans (if_neg hne)⟩
  · by_cases hl : l' = l
    · exact hzero row' (hl ▸ hrow')
    · exact h.wiped l' hl' row' (((hrow l').trans (if_neg hl)).symm.trans hrow')
  · obtain ⟨original, horiginal, -⟩ := h.row hi
    rcases List.mem_or_eq_of_mem_set hrow' with hold | rfl
    · exact h.wide row' hold
    · rw [horiginal, Option.getD_some, List.length_map]
      exact h.wide original (List.mem_of_getElem? horiginal)

/-- **A row is zeroed and its label deleted.** -/
theorem Sound.zeroRowAt (h : s.Sound dim) (hi : s.labelToRow.lookup l = some i) :
    (s.zeroRowAt l i).Sound dim := by
  obtain ⟨hblank, hzero, hrow⟩ := h.blankRow hi
  refine ⟨⟨hblank.indexed.injective, hblank.indexed.inRange⟩, fun l' hl' => ?_,
    fun l' hl' row' hrow' => ?_, hblank.wide⟩
  · rcases Finset.mem_insert.mp hl' with rfl | hold
    · exact AList.lookup_isSome.mp (Option.isSome_of_eq_some hi)
    · exact h.known l' hold
  · rcases Finset.mem_insert.mp hl' with rfl | hold
    · exact hzero row' hrow'
    · exact hblank.wiped l' hold row' hrow'

/-- The contents after either. -/
theorem Sound.contents_blank (h : s.Sound dim) (hi : s.labelToRow.lookup l = some i) {l' : ℤ}
    (hne : l' ≠ l) :
    (s.blankRow i).contents l' = s.contents l' ∧ (s.zeroRowAt l i).contents l' = s.contents l' := by
  have hrow := (h.blankRow hi).2.2 l' hne
  refine ⟨?_, ?_⟩
  · rw [contents, contents, hrow]
    rfl
  · show (if l' ∈ insert l s.deleted then none else (s.blankRow i).row? l') = _
    rw [contents, hrow]
    simp [hne]

/-- A deleted label verifies. -/
theorem Sound.verifyZeroed (h : s.Sound dim) (hl : l ∈ s.deleted) : s.verifyZeroed l = true := by
  obtain ⟨i, hi⟩ := Option.isSome_iff_exists.mp (AList.lookup_isSome.mpr (h.known l hl))
  obtain ⟨row, hrow, hat⟩ := h.row hi
  simp only [DenseStore.verifyZeroed, hi, hrow, Option.getD_some, zeroRow, List.all_eq_true]
  intro w hw
  rw [h.wiped l hl row hat w hw]
  rfl

theorem Sound.getVector_deleted (h : s.Sound dim) (hl : l ∈ s.deleted) :
    ∃ row, s.getVector l = .ok row ∧ ∀ w ∈ row, w = 0 := by
  obtain ⟨i, hi⟩ := Option.isSome_iff_exists.mp (AList.lookup_isSome.mpr (h.known l hl))
  obtain ⟨row, hat, hrow⟩ := h.row hi
  refine ⟨row, ?_, h.wiped l hl row hrow⟩
  simp only [getVector, hi, hat, Option.getD_some]

/-- What has contents is known, and not deleted. -/
theorem live_of_contents {row : Row} (hl : s.contents l = some row) :
    l ∈ s.labelToRow ∧ l ∉ s.deleted := by
  rw [contents] at hl
  split at hl
  · cases hl
  · rename_i hdeleted
    obtain ⟨i, hi, -⟩ := Option.bind_eq_some_iff.mp hl
    exact ⟨AList.lookup_isSome.mp (Option.isSome_of_eq_some hi), hdeleted⟩

/-- The matrix needs no zeroing for the mirror. -/
theorem Sound.mirrorRows (h : s.Sound dim) : s.mirrorRows = s.vectors := by
  apply List.ext_getElem?
  intro i
  rw [DenseStore.mirrorRows, List.getElem?_mapIdx]
  rcases hrow : s.vectors[i]? with _ | row
  · rfl
  · rw [Option.map_some]
    split
    · rename_i hdeleted
      obtain ⟨l, hl, hi⟩ := hdeleted
      have hzero := h.wiped l hl row ((row?_eq hi).trans hrow)
      rw [List.map_congr_left (g := id) fun w hw => (hzero w hw).symm, List.map_id]
    · rfl

/-! ## What a compaction keeps -/

/-- **The live rows**: those of the live labels that are not zero. -/
theorem mem_liveRows (h : s.Sound dim) {row : Row} :
    (row, l) ∈ s.liveRows ↔ s.contents l = some row ∧ zeroRow row = false := by
  rw [liveRows, List.mem_filterMap, contents]
  constructor
  · rintro ⟨⟨l', i⟩, hitem, hlive⟩
    have hi : s.labelToRow.lookup l' = some i := Dict.mem_items.mp (List.mem_reverse.mp hitem)
    obtain ⟨row', hrow', hat⟩ := h.row hi
    rw [liveRow?] at hlive
    simp only [hrow', Option.getD_some] at hlive
    split at hlive
    · cases hlive
    · split at hlive
      · cases hlive
      · rename_i hdeleted hzero
        obtain ⟨rfl, rfl⟩ := Prod.mk.inj (Option.some.inj hlive)
        exact ⟨(if_neg hdeleted).trans hat, by simpa using hzero⟩
  · rintro ⟨hcontents, hzero⟩
    split at hcontents
    · cases hcontents
    · rename_i hdeleted
      obtain ⟨i, hi, hrow⟩ := Option.bind_eq_some_iff.mp hcontents
      refine ⟨(l, i), List.mem_reverse.mpr (Dict.mem_items.mpr hi), ?_⟩
      rw [liveRow?]
      simp only [hrow, Option.getD_some, if_neg hdeleted, hzero]
      rfl

/-- No label is kept twice. -/
theorem nodup_liveRows (s : DenseStore) : (s.liveRows.map Prod.snd).Nodup := by
  have hkeys : s.labelToRow.items.reverse.Pairwise fun p q => p.1 ≠ q.1 := by
    have hnd := s.labelToRow.nodup_keys_items
    rw [← List.nodup_reverse, ← List.map_reverse] at hnd
    exact List.pairwise_map.mp hnd
  have hlabel : ∀ item pair, s.liveRow? item = some pair → pair.2 = item.1 := by
    intro item pair hpair
    simp only [liveRow?] at hpair
    split at hpair
    · cases hpair
    · split at hpair
      · cases hpair
      · obtain rfl := Option.some.inj hpair
        rfl
  rw [liveRows, List.Nodup, List.pairwise_map, List.pairwise_filterMap]
  refine hkeys.imp fun {p q} hne r hr r' hr' heq => hne ?_
  rw [← hlabel p r hr, ← hlabel q r' hr', heq]

end DenseStore

/-! ## The mirror -/

/-- What calls of the mirror see of the outside: the locks, and the text of the `TypeError` for a
degree that is no `int`. -/
structure MirrorEnv extends NativeEnv where
  typeError : String

/-- `erase_node` of a zeroed row in the mirror, and what it adds to the message. -/
def healRow (D : Type) [FloatArith D] (env : MirrorEnv) (i : ℕ) (maxM : ℤ) :
    Option Index → String × Option Index
  | none => ("", none)
  | some mirror =>
    if mirror.isLoaded ∧ i < mirror.numElements then
      if maxM < -2 ^ 31 ∨ 2 ^ 31 ≤ maxM then ("+heal_error(" ++ env.typeError ++ ")", some mirror)
      else match mirror.eraseNode D env.toNativeEnv i maxM with
        | (.ok _, mirror) => ("+mn_ru_heal", some mirror)
        | (.error e, mirror) => ("+heal_error(" ++ e.what ++ ")", some mirror)
    else ("", some mirror)

/-- `_sync_heal_mirror` -/
def DenseStore.syncMirror (env : NativeEnv) (dim : ℕ) (s : DenseStore) :
    Option Index → Except NativeError Unit × Option Index
  | none => (.ok (), none)
  | some mirror =>
    if s.vectors.length = 0 then (.ok (), some mirror)
    else
      let loaded := mirror.loadRing env dim s.mirrorRows
      (loaded.1, some loaded.2)

namespace Index

variable {ix : Index}

theorem row_setNeighbors (env : NativeEnv) (v layer : ℤ) (nbrs : List ℤ) (i : ℕ) :
    (ix.setNeighbors env v layer nbrs).2.row i = ix.row i := by
  rw [Index.setNeighbors]
  split
  · rfl
  · split
    · rfl
    · split
      · rfl
      · dsimp only
        split
        · exact row_congr rfl rfl i
        · exact row_congr rfl rfl i

/-- The ring leaves the rows alone, also where it is not finished. -/
theorem setRing_rows (env : NativeEnv) (n : ℕ) (nodes : List ℕ) (h : ix.WellFormed) :
    (setRing env n nodes ix).2.WellFormed ∧ ∀ i, (setRing env n nodes ix).2.row i = ix.row i := by
  induction nodes generalizing ix with
  | nil => exact ⟨h, fun _ => rfl⟩
  | cons v rest ih =>
    rw [setRing]
    have hset := h.setNeighbors env v 0 [((v : ℤ) - 1) % n, ((v : ℤ) + 1) % n, ((v : ℤ) + 2) % n]
    have hrows := fun i => @row_setNeighbors ix env v 0
      [((v : ℤ) - 1) % n, ((v : ℤ) + 1) % n, ((v : ℤ) + 2) % n] i
    split
    · rename_i heq
      rw [heq] at hset hrows
      exact ⟨hset, hrows⟩
    · rename_i heq
      rw [heq] at hset hrows
      obtain ⟨hwell, hrest⟩ := ih hset
      exact ⟨hwell, fun i => (hrest i).trans (hrows i)⟩

/-- The row of a node lies in the rows that were loaded, one after the other. -/
theorem drop_take_flatten {rows : List Row} {d : ℕ} (hwide : ∀ row ∈ rows, row.length = d) (i : ℕ) :
    (rows.flatten.drop (i * d)).take d = rows[i]?.getD [] := by
  induction rows generalizing i with
  | nil => simp
  | cons row rest ih =>
    have hrow := hwide row List.mem_cons_self
    rw [List.flatten_cons]
    cases i with
    | zero => simp [← hrow]
    | succ i =>
      have hpast : (i + 1) * d = row.length + i * d := by
        rw [hrow]
        ring
      rw [hpast, ← List.drop_drop, List.drop_left,
        ih fun r hr => hwide r (List.mem_cons_of_mem _ hr)]
      rfl

theorem length_flatten_wide {rows : List Row} {d : ℕ} (hwide : ∀ row ∈ rows, row.length = d) :
    rows.flatten.length = d * rows.length := by
  induction rows with
  | nil => rfl
  | cons row rest ih =>
    rw [List.flatten_cons, List.length_append, hwide row List.mem_cons_self,
      ih fun r hr => hwide r (List.mem_cons_of_mem _ hr), List.length_cons]
    ring

/-- **`load_index` and a ring**: it raises and nothing happened, or the rows are in the mirror. -/
theorem loadRing_rows (env : NativeEnv) {d : ℕ} (hd : 0 < d) {rows : List Row} (hsome : rows ≠ [])
    (hwide : ∀ row ∈ rows, row.length = d) (h : ix.WellFormed) :
    (ix.loadRing env d rows).2.WellFormed ∧
      ((ix.loadRing env d rows).2 = ix ∧ (∃ e, (ix.loadRing env d rows).1 = .error e) ∨
        ∀ i, (ix.loadRing env d rows).2.row i = rows[i]?.getD []) := by
  have hlen := length_flatten_wide hwide
  have hrows : 0 < rows.length := List.length_pos_of_ne_nil hsome
  have hpos := Nat.mul_pos hd hrows
  rw [loadRing]
  split
  · rename_i hfits
    have hwrap : d * rows.length < 2 ^ 64 := by omega
    have hwell : (ix.loadIndex .ample (some ⟨rows.flatten, hfits⟩) d rows.length).2.WellFormed :=
      h.loadIndex hwrap (fun b hb => by rw [← Option.some.inj hb, hlen]) fun _ => ⟨rfl, rfl⟩
    have htotal : sizeMul d rows.length = d * rows.length := Nat.mod_eq_of_lt hwrap
    have hload : ∃ ix', ix.loadIndex .ample (some ⟨rows.flatten, hfits⟩) d rows.length =
        (.ok (), ix') ∧ ix'.dim = d ∧ ix'.words = rows.flatten := by
      rw [Index.loadIndex, checkSource, if_neg (by simp), if_neg (by omega)]
      simp only [htotal, if_neg hpos.ne', dif_pos (show 4 * (d * rows.length) < 2 ^ 63 by omega),
        Memory.ample, Memory.assign, ite_self]
      refine ⟨_, rfl, rfl, ?_⟩
      simp [Index.words, withNodes, Buffer.copy, ← hlen]
    obtain ⟨ix', hix', hdim, hwords⟩ := hload
    rw [hix'] at hwell ⊢
    obtain ⟨hring, hsame⟩ := setRing_rows env rows.length (List.range rows.length) hwell
    refine ⟨hring, .inr fun i => ?_⟩
    rw [hsame, Index.row, Index.vectorPtr, hdim, hwords, drop_take_flatten hwide]
  · exact ⟨h, .inl ⟨rfl, _, rfl⟩⟩

end Index

/-- A row that the index does not have. -/
theorem Index.WellFormed.row_eq_nil {ix : Index} (h : ix.WellFormed) {i : ℕ}
    (hno : ¬ (ix.isLoaded = true ∧ i < ix.numElements)) : ix.row i = [] := by
  have hlen : ix.words.length ≤ i * ix.dim := by
    by_cases hlt : i < ix.numElements
    · have hdata : ix.data = none := by
        have hpos : 0 < ix.numElements := by omega
        simpa [Index.isLoaded, hpos, hlt] using hno
      rw [Index.words, hdata]
      exact Nat.zero_le _
    · rw [h.words]
      exact Nat.mul_le_mul_right _ (Nat.le_of_not_lt hlt)
  rw [Index.row, Index.vectorPtr, List.drop_eq_nil_of_le hlen, List.take_nil]

/-! ## What messages say -/

/-- The message starts so. -/
def BackendEraseResult.Says (r : BackendEraseResult) (start : String) : Prop :=
  start.toList <+: (r.message.getD "").toList

/-- A start that another message does not have is not said by it. -/
theorem BackendEraseResult.not_says {base start suffix : String} (r : BackendEraseResult)
    (hlen : base.toList.length ≤ start.toList.length) (hbase : ¬ base.toList <+: start.toList)
    (hmessage : r.message = some (base ++ suffix)) : ¬ r.Says start := by
  intro hsays
  rw [BackendEraseResult.Says, hmessage, Option.getD_some, String.toList_append] at hsays
  exact hbase (List.prefix_of_prefix_length_le (List.prefix_append _ _) hsays hlen)

theorem BackendEraseResult.says_append {base start suffix : String} (r : BackendEraseResult)
    (hmessage : r.message = some (base ++ suffix)) :
    r.Says (base ++ start) ↔ start.toList <+: suffix.toList := by
  rw [BackendEraseResult.Says, hmessage, Option.getD_some, String.toList_append,
    String.toList_append, List.prefix_append_right_inj]

/-! ## Deleted labels in the mirror -/

/-- The heal of a row raised, by what it added to the message. -/
def HealFailed (suffix : String) : Prop := "+heal_error(".toList <+: suffix.toList

namespace DenseStore

variable {dim : ℕ} {s : DenseStore} {l : ℤ} {i : ℕ} {unhealed : Set ℤ} {mirror : Option Index}

/-- The rows of deleted labels are zero in the mirror too, apart from some labels. -/
structure Mirrored (unhealed : Set ℤ) (s : DenseStore) (ix : Index) : Prop where
  wellFormed : ix.WellFormed
  zero : ∀ l ∈ s.deleted, l ∉ unhealed → ∀ i, s.labelToRow.lookup l = some i → ix.RowZero i

theorem lookup_appendRow {l' : ℤ} (hl' : l' ∈ s.labelToRow) (l : ℤ) (row : Row) :
    (s.appendRow l row).labelToRow.lookup l' = s.labelToRow.lookup l' := by
  unfold DenseStore.appendRow
  rcases hi : s.labelToRow.lookup l with _ | i
  · have hne : l' ≠ l := by
      rintro rfl
      exact AList.lookup_eq_none.mp hi hl'
    exact AList.lookup_insert_ne hne
  · rfl

/-- A row that is appended, or that revives its label. -/
theorem Mirrored.appendRow {ix : Index} (h : s.Sound dim) (hm : Mirrored unhealed s ix) (l : ℤ)
    {row : Row} (hrow : row.length = dim) : Mirrored unhealed (s.appendRow l row) ix where
  wellFormed := hm.wellFormed
  zero l' hl' hhealed i hi := by
    rw [(h.appendRow l hrow).2.2.1] at hl'
    have hold := Finset.mem_of_mem_erase hl'
    rw [lookup_appendRow (h.known l' hold)] at hi
    exact hm.zero l' hold hhealed i hi

/-- The labels whose heal is owed after one more. -/
def nextUnhealed (l : ℤ) (suffix : String) (unhealed : Set ℤ) : Set ℤ :=
  {l' | if l' = l then HealFailed suffix else l' ∈ unhealed}

theorem healFailed_error (text : String) : HealFailed ("+heal_error(" ++ text ++ ")") := by
  rw [HealFailed, String.toList_append, String.toList_append, List.append_assoc]
  exact List.prefix_append _ _

/-- One more deleted label: the others stay as they were. -/
theorem Mirrored.insert {ix ix' : Index} (hm : Mirrored unhealed s ix)
    (hwell : ix'.WellFormed) (hshadows : Index.Shadows ix ix')
    (hi : s.labelToRow.lookup l = some i) {suffix : String}
    (hl : ¬ HealFailed suffix → ix'.RowZero i) :
    Mirrored (nextUnhealed l suffix unhealed) (s.zeroRowAt l i) ix' where
  wellFormed := hwell
  zero l' hl' hhealed j hj := by
    by_cases heq : l' = l
    · subst heq
      obtain rfl := Option.some.inj (hi.symm.trans hj)
      refine hl fun hfailed => hhealed ?_
      rw [nextUnhealed, Set.mem_ofPred_eq, if_pos rfl]
      exact hfailed
    · have hold : l' ∉ unhealed := fun hin =>
        hhealed (by rw [nextUnhealed, Set.mem_ofPred_eq, if_neg heq]; exact hin)
      exact hshadows.zero j
        (hm.zero l' ((Finset.mem_insert.mp hl').resolve_left heq) hold j hj)

/-- **A row that was zeroed is healed.** Other rows only become zero. -/
theorem Mirrored.healRow {D : Type} [FloatArith D]
    (hm : ∀ ix, mirror = some ix → Mirrored unhealed s ix)
    (hi : s.labelToRow.lookup l = some i) (env : MirrorEnv) (maxM : ℤ) :
    ∀ ix, (Unlearning.healRow D env i maxM mirror).2 = some ix →
      Mirrored (nextUnhealed l (Unlearning.healRow D env i maxM mirror).1 unhealed)
        (s.zeroRowAt l i) ix := by
  rcases mirror with _ | ix
  · exact fun ix h => nomatch h
  have hix := hm ix rfl
  rw [Unlearning.healRow]
  split
  · split
    · intro _ hmirror
      obtain rfl := Option.some.inj hmirror
      exact hix.insert hix.wellFormed (.refl ix) hi fun hno => absurd (healFailed_error _) hno
    · have hwell := hix.wellFormed.eraseNode (D := D) env.toNativeEnv i maxM
      split
      · rename_i r ix' hcall
        rw [hcall] at hwell
        obtain ⟨hshadows, -, -, hok⟩ := Index.eraseNode_rows hcall
        obtain ⟨-, -, n, hn, -, hzero⟩ := hok r rfl
        obtain rfl := Int.natCast_inj.mp hn
        intro _ hmirror
        obtain rfl := Option.some.inj hmirror
        exact hix.insert hwell hshadows hi fun _ => hzero
      · rename_i e ix' hcall
        rw [hcall] at hwell
        obtain ⟨hshadows, -⟩ := Index.eraseNode_rows hcall
        intro _ hmirror
        obtain rfl := Option.some.inj hmirror
        exact hix.insert hwell hshadows hi fun hno => absurd (healFailed_error _) hno
  · rename_i hno
    intro _ hmirror
    obtain rfl := Option.some.inj hmirror
    refine hix.insert hix.wellFormed (.refl ix) hi fun _ w hw => ?_
    rw [hix.wellFormed.row_eq_nil hno] at hw
    exact absurd hw List.not_mem_nil

/-- **`_sync_heal_mirror`**: once it returns, no deleted label is in the mirror. -/
theorem Mirrored.syncMirror (hdim : 0 < dim) (h : s.Sound dim)
    (hm : ∀ ix, mirror = some ix → Mirrored unhealed s ix) (env : NativeEnv) :
    ∀ ix, (s.syncMirror env dim mirror).2 = some ix →
      Mirrored unhealed s ix ∧ ((s.syncMirror env dim mirror).1 = .ok () → Mirrored ∅ s ix) := by
  rcases mirror with _ | ix
  · exact fun ix h => nomatch h
  have hix := hm ix rfl
  -- a mirror with the rows of the matrix
  have hrows : ∀ ix' : Index, ix'.WellFormed → (∀ i, ix'.row i = s.vectors[i]?.getD []) →
      Mirrored ∅ s ix' := by
    refine fun ix' hwell hrow => ⟨hwell, fun l hl _ i hi w hw => ?_⟩
    obtain ⟨row, hat, hrow'⟩ := h.row hi
    rw [hrow, hat] at hw
    exact h.wiped l hl row hrow' w hw
  rw [DenseStore.syncMirror]
  split
  · rename_i hempty
    intro _ hmirror
    obtain rfl := Option.some.inj hmirror
    refine ⟨hix, fun _ => ⟨hix.wellFormed, fun l hl _ i hi => ?_⟩⟩
    obtain ⟨row, hat, -⟩ := h.row hi
    rw [List.length_eq_zero_iff.mp hempty] at hat
    cases hat
  · rename_i hsome
    rw [h.mirrorRows]
    obtain ⟨hwell, hcase⟩ := Index.loadRing_rows env hdim (List.ne_nil_of_length_pos
      (Nat.pos_of_ne_zero hsome)) h.wide hix.wellFormed
    intro _ hmirror
    obtain rfl := Option.some.inj hmirror
    rcases hcase with ⟨hsame, e, he⟩ | hrow
    · rw [hsame] at hwell ⊢
      exact ⟨hix, fun hok => by rw [he] at hok; cases hok⟩
    · have hclean := hrows _ hwell hrow
      exact ⟨⟨hwell, fun l hl _ => hclean.zero l hl (Set.notMem_empty l)⟩, fun _ => hclean⟩

end DenseStore

end Unlearning
