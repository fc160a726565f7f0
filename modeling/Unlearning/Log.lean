import Mathlib.Data.List.Induction
import Unlearning.Wal

/-!
# The log as a list of records

`PersistenceEngine` uses the write-ahead log through whole appends and whole
scans. This module is that view of it: `Log` holds the records and the counter,
its operations are those of `WriteAheadLog` with the bytes left out.
`Represents` relates the two, and every operation keeps it and returns the same
result (`represents_openLog`, `represents_appendBeginDelete`,
`represents_appendCommit`, `iterRecords_of_represents`).

The rest says what `uncommitted_deletes` selects.
-/

namespace Unlearning

/-- The records of an open log and `_tx_counter`. -/
structure Log where
  records : List Record
  txCounter : ℤ

namespace Log

variable (H : Sha256)

/-- The log of a new `WriteAheadLog` on the same file. -/
def reopen (log : Log) : Log :=
  { log with txCounter := log.records.foldl (fun maxId r => max maxId (r.transactionId : ℤ)) 0 }

/-- `append_begin_delete` without an explicit transaction id. -/
def appendBeginDelete (targetNodeId maxM timestamp : ℤ) (log : Log) :
    Except WalError BeginDeleteRecord × Log :=
  if targetNodeId < 0 then (.error .negativeTarget, log)
  else if maxM < 1 then (.error .nonPositiveMaxM, log)
  else
    match packBegin H timestamp (log.txCounter + 1) targetNodeId maxM with
    | .error e => (.error e, { log with txCounter := log.txCounter + 1 })
    | .ok (r, _) => (.ok r, ⟨log.records ++ [.begin r], log.txCounter + 1⟩)

/-- `append_commit` -/
def appendCommit (transactionId timestamp : ℤ) (log : Log) : Except WalError CommitRecord × Log :=
  match packCommit H timestamp transactionId with
  | .error e => (.error e, log)
  | .ok (r, _) => (.ok r, { log with records := log.records ++ [.commit r] })

/-! ## The byte file behind it -/

/-- The file is the concatenation of the records' encodings. -/
structure Represents (wal : WriteAheadLog) (log : Log) : Prop where
  file : wal.file = log.records.flatMap Record.encode
  valid : ∀ r ∈ log.records, r.Valid H
  counter : wal.txCounter = log.txCounter

variable {H} {wal : WriteAheadLog} {log : Log}

theorem iterRecords_of_represents (h : Represents H wal log) :
    iterRecords H wal.file = .ok log.records := by
  have hiter := iterRecords_append h.valid scanStep_nil
  rwa [List.append_nil, ← h.file] at hiter

/-- Opening the file again gives the log with its counter recovered. -/
theorem represents_openLog (h : Represents H wal log) :
    ∃ wal', WriteAheadLog.openLog H wal.file = .ok wal' ∧ Represents H wal' log.reopen := by
  refine ⟨⟨wal.file, log.reopen.txCounter⟩, ?_, ⟨h.file, h.valid, rfl⟩⟩
  rw [WriteAheadLog.openLog, recoverMaxTxId, iterRecords_of_represents h]
  rfl

theorem represents_append {wal' : WriteAheadLog} {r : Record} {c : ℤ} (h : Represents H wal log)
    (hr : r.Valid H) (hfile : wal'.file = wal.file ++ r.encode) (hc : wal'.txCounter = c) :
    Represents H wal' ⟨log.records ++ [r], c⟩ where
  file := by rw [hfile, h.file, List.flatMap_append, List.flatMap_cons, List.flatMap_nil,
    List.append_nil]
  valid := by
    intro r' hr'
    rcases List.mem_append.mp hr' with hold | hnew
    · exact h.valid r' hold
    · rwa [List.mem_singleton.mp hnew]
  counter := hc

/-- **Appending a BEGIN**: same result, same records. -/
theorem represents_appendBeginDelete (h : Represents H wal log) (node m ts : ℤ) :
    (wal.appendBeginDelete H node m none ts).1 = (log.appendBeginDelete H node m ts).1 ∧
      Represents H (wal.appendBeginDelete H node m none ts).2
        (log.appendBeginDelete H node m ts).2 := by
  rw [appendBeginDelete, WriteAheadLog.appendBeginDelete]
  by_cases hnode : node < 0
  · rw [if_pos hnode, if_pos hnode]
    exact ⟨rfl, h⟩
  · rw [if_neg hnode, if_neg hnode]
    by_cases hm : m < 1
    · rw [if_pos hm, if_pos hm]
      exact ⟨rfl, h⟩
    · rw [if_neg hm, if_neg hm]
      simp only [Option.getD_none, h.counter]
      rcases hp : packBegin H ts (log.txCounter + 1) node m with e | ⟨r, blob⟩
      · exact ⟨rfl, h.file, h.valid, rfl⟩
      · obtain ⟨hvalid, hblob, -⟩ := packBegin_eq_ok hp
        exact ⟨rfl, represents_append h hvalid (by rw [hblob]) rfl⟩

/-- **Appending a COMMIT**: same result, same records. -/
theorem represents_appendCommit (h : Represents H wal log) (tx ts : ℤ) :
    (wal.appendCommit H tx ts).1 = (log.appendCommit H tx ts).1 ∧
      Represents H (wal.appendCommit H tx ts).2 (log.appendCommit H tx ts).2 := by
  rw [appendCommit, WriteAheadLog.appendCommit]
  rcases hp : packCommit H ts tx with e | ⟨r, blob⟩
  · exact ⟨rfl, h⟩
  · obtain ⟨hvalid, hblob, -⟩ := packCommit_eq_ok hp
    exact ⟨rfl, represents_append h hvalid (by rw [hblob]) h.counter⟩

/-! ## Outcomes of the appends -/

/-- A BEGIN with the next transaction id, or an exception and the old records. -/
theorem appendBeginDelete_cases (node m ts : ℤ) (log : Log) :
    (∃ r : BeginDeleteRecord, (r.transactionId : ℤ) = log.txCounter + 1 ∧
        r.transactionId < 256 ^ 8 ∧ (r.targetNodeId : ℤ) = node ∧ (r.maxM : ℤ) = m ∧
        r.targetNodeId < 256 ^ 8 ∧ r.maxM < 256 ^ 4 ∧ 1 ≤ r.maxM ∧
        log.appendBeginDelete H node m ts =
          (.ok r, ⟨log.records ++ [.begin r], log.txCounter + 1⟩)) ∨
      ∃ e c, log.txCounter ≤ c ∧ c ≤ log.txCounter + 1 ∧
        log.appendBeginDelete H node m ts = (.error e, ⟨log.records, c⟩) := by
  rw [appendBeginDelete]
  by_cases hnode : node < 0
  · rw [if_pos hnode]
    exact Or.inr ⟨_, log.txCounter, le_rfl, by omega, rfl⟩
  · rw [if_neg hnode]
    by_cases hm : m < 1
    · rw [if_pos hm]
      exact Or.inr ⟨_, log.txCounter, le_rfl, by omega, rfl⟩
    · rw [if_neg hm]
      rcases hp : packBegin H ts (log.txCounter + 1) node m with e | ⟨r, blob⟩
      · exact Or.inr ⟨e, log.txCounter + 1, by omega, le_rfl, rfl⟩
      · obtain ⟨hvalid, -, htx, htarget, hmaxM⟩ := packBegin_eq_ok hp
        exact Or.inl
          ⟨r, htx, hvalid.2.1, htarget, hmaxM, hvalid.2.2.1, hvalid.2.2.2.1, by omega, rfl⟩

/-- A BEGIN is appended when every field fits. -/
theorem appendBeginDelete_of_fits {node m ts : ℕ} (hm : 1 ≤ m) (hts : ts < 256 ^ 8)
    (hnode : node < 256 ^ 8) (hmw : m < 256 ^ 4) (h0 : 0 ≤ log.txCounter)
    (htx : log.txCounter + 1 < 256 ^ 8) :
    ∃ r, (log.appendBeginDelete H node m ts).1 = .ok r := by
  obtain ⟨c, hc⟩ := Int.eq_ofNat_of_zero_le (show 0 ≤ log.txCounter + 1 by omega)
  have hcw : c < 256 ^ 8 := by
    have : (c : ℤ) < 256 ^ 8 := by rw [← hc]; exact htx
    exact_mod_cast this
  rw [appendBeginDelete, if_neg (by omega), if_neg (by omega), hc]
  have hsum : checksumBegin H ts c node m =
      .ok (H.digest (leBytes 8 ts ++ leBytes 8 c ++ leBytes 8 node ++ leBytes 4 m)) := by
    rw [checksumBegin, packField_natCast hts, packField_natCast hcw, packField_natCast hnode,
      packField_natCast hmw]
    rfl
  have hpad : packField 4 0 = .ok (leBytes 4 0) := packField_natCast (n := 0) (by norm_num)
  rw [packBegin, hsum, packField_natCast hts, packField_natCast hcw, packField_natCast hnode,
    packField_natCast hmw, hpad]
  exact ⟨_, rfl⟩

theorem appendCommit_cases (tx ts : ℤ) (log : Log) :
    (∃ r : CommitRecord, (r.transactionId : ℤ) = tx ∧
        log.appendCommit H tx ts = (.ok r, { log with records := log.records ++ [.commit r] })) ∨
      ∃ e, log.appendCommit H tx ts = (.error e, log) := by
  rw [appendCommit]
  rcases hp : packCommit H ts tx with e | ⟨r, blob⟩
  · exact Or.inr ⟨e, rfl⟩
  · exact Or.inl ⟨r, (packCommit_eq_ok hp).2.2, rfl⟩

theorem appendCommit_of_fits {tx ts : ℕ} (hts : ts < 256 ^ 8) (htx : tx < 256 ^ 8) :
    ∃ r, (log.appendCommit H tx ts).1 = .ok r := by
  have hsum : checksumCommit H ts tx = .ok (H.digest (leBytes 8 ts ++ leBytes 8 tx)) := by
    rw [checksumCommit, packField_natCast hts, packField_natCast htx]
    rfl
  rw [appendCommit, packCommit, hsum, packField_natCast hts, packField_natCast htx]
  exact ⟨_, rfl⟩

end Log

/-! ## What `uncommitted_deletes` selects -/

/-- The BEGIN records of a log, in order. -/
def begins (records : List Record) : List BeginDeleteRecord := records.filterMap Record.begin?

/-- The transaction ids that have a COMMIT. -/
def committed (records : List Record) : List ℕ := records.filterMap Record.committed?

/-- A log in which no two BEGINs share a transaction id. -/
def DistinctIds (records : List Record) : Prop :=
  ((begins records).map BeginDeleteRecord.transactionId).Nodup

theorem begins_append (rs rs' : List Record) : begins (rs ++ rs') = begins rs ++ begins rs' :=
  List.filterMap_append

theorem committed_append (rs rs' : List Record) :
    committed (rs ++ rs') = committed rs ++ committed rs' := List.filterMap_append

theorem begins_concat_begin (rs : List Record) (b : BeginDeleteRecord) :
    begins (rs ++ [.begin b]) = begins rs ++ [b] := begins_append _ _

theorem begins_concat_commit (rs : List Record) (c : CommitRecord) :
    begins (rs ++ [.commit c]) = begins rs := by
  rw [begins_append]
  exact List.append_nil _

theorem committed_concat_begin (rs : List Record) (b : BeginDeleteRecord) :
    committed (rs ++ [.begin b]) = committed rs := by
  rw [committed_append]
  exact List.append_nil _

theorem committed_concat_commit (rs : List Record) (c : CommitRecord) :
    committed (rs ++ [.commit c]) = committed rs ++ [c.transactionId] := committed_append _ _

theorem mem_begins {records : List Record} {r : BeginDeleteRecord} :
    r ∈ begins records ↔ Record.begin r ∈ records := by
  rw [begins, List.mem_filterMap]
  constructor
  · rintro ⟨r', hr', heq⟩
    cases r' with
    | begin b => rwa [← Option.some.inj heq]
    | commit c => cases heq
  · exact fun h => ⟨_, h, rfl⟩

theorem mem_committed {records : List Record} {tx : ℕ} :
    tx ∈ committed records ↔
      ∃ c : CommitRecord, Record.commit c ∈ records ∧ c.transactionId = tx := by
  rw [committed, List.mem_filterMap]
  constructor
  · rintro ⟨r', hr', heq⟩
    cases r' with
    | begin b => cases heq
    | commit c => exact ⟨c, hr', Option.some.inj heq⟩
  · rintro ⟨c, hc, rfl⟩
    exact ⟨_, hc, rfl⟩

/-- What `_recover_max_tx_id` folds is a bound for every id. -/
theorem le_foldl_max_tx {records : List Record} {m : ℤ} :
    m ≤ records.foldl (fun maxId r => max maxId (r.transactionId : ℤ)) m ∧
      ∀ r ∈ records,
        (r.transactionId : ℤ) ≤ records.foldl (fun maxId r => max maxId (r.transactionId : ℤ)) m := by
  induction records generalizing m with
  | nil => exact ⟨le_rfl, fun r hr => by cases hr⟩
  | cons a rest ih =>
    obtain ⟨hm, hall⟩ := ih (m := max m a.transactionId)
    refine ⟨(le_max_left _ _).trans hm, fun r hr => ?_⟩
    rcases List.mem_cons.mp hr with rfl | hr
    · exact (le_max_right _ _).trans hm
    · exact hall r hr

section Uncommitted

open BeginDeleteRecord (transactionId)

/-- The dictionary `begins` of the scan. -/
def beginDict (l : List BeginDeleteRecord) : AList fun _ : ℕ => BeginDeleteRecord :=
  l.foldl (fun d r => d.insert r.transactionId r) ∅

theorem beginDict_concat (l : List BeginDeleteRecord) (r : BeginDeleteRecord) :
    beginDict (l ++ [r]) = (beginDict l).insert r.transactionId r := by
  rw [beginDict, List.foldl_append]
  rfl

theorem of_lookup_beginDict {l : List BeginDeleteRecord} {tx : ℕ} {r : BeginDeleteRecord}
    (h : (beginDict l).lookup tx = some r) : r ∈ l ∧ r.transactionId = tx := by
  induction l using List.reverseRecOn with
  | nil => cases h
  | append_singleton l b ih =>
    rw [beginDict_concat] at h
    by_cases htx : tx = b.transactionId
    · subst htx
      rw [AList.lookup_insert] at h
      obtain rfl := Option.some.inj h
      exact ⟨List.mem_append_right l List.mem_cons_self, rfl⟩
    · rw [AList.lookup_insert_ne htx] at h
      exact ⟨List.mem_append_left _ (ih h).1, (ih h).2⟩

/-- With distinct ids the dictionary holds every BEGIN. -/
theorem lookup_beginDict {l : List BeginDeleteRecord} (hnodup : (l.map transactionId).Nodup)
    {r : BeginDeleteRecord} (hr : r ∈ l) : (beginDict l).lookup r.transactionId = some r := by
  induction l using List.reverseRecOn with
  | nil => cases hr
  | append_singleton l b ih =>
    rw [List.map_append, List.map_cons, List.map_nil] at hnodup
    rw [beginDict_concat]
    rcases List.mem_append.mp hr with hold | hnew
    · have hne : r.transactionId ≠ b.transactionId := fun heq =>
        (List.nodup_append.mp hnodup).2.2 _ (List.mem_map_of_mem hold) _ List.mem_cons_self heq
      rw [AList.lookup_insert_ne hne]
      exact ih (List.nodup_append.mp hnodup).1 hold
    · rw [List.mem_singleton.mp hnew, AList.lookup_insert]

theorem uncommittedDeletes_eq (records : List Record) :
    uncommittedDeletes records =
      (((beginDict (begins records)).keys.insertionSort (· ≤ ·)).filter
        fun tx => tx ∉ committed records).filterMap (beginDict (begins records)).lookup := rfl

theorem of_mem_uncommittedDeletes {records : List Record} {r : BeginDeleteRecord}
    (h : r ∈ uncommittedDeletes records) :
    r ∈ begins records ∧ r.transactionId ∉ committed records := by
  rw [uncommittedDeletes_eq, List.mem_filterMap] at h
  obtain ⟨tx, htx, hlook⟩ := h
  obtain ⟨hr, rfl⟩ := of_lookup_beginDict hlook
  exact ⟨hr, by simpa using (List.mem_filter.mp htx).2⟩

/-- **The pending deletes** of a log with distinct ids: the BEGINs without a COMMIT. -/
theorem mem_uncommittedDeletes {records : List Record} (hd : DistinctIds records)
    {r : BeginDeleteRecord} :
    r ∈ uncommittedDeletes records ↔
      r ∈ begins records ∧ r.transactionId ∉ committed records := by
  refine ⟨of_mem_uncommittedDeletes, ?_⟩
  rintro ⟨hr, hnot⟩
  have hlook := lookup_beginDict hd hr
  rw [uncommittedDeletes_eq, List.mem_filterMap]
  refine ⟨r.transactionId, List.mem_filter.mpr ⟨?_, by simpa using hnot⟩, hlook⟩
  rw [List.mem_insertionSort, ← AList.mem_keys, ← AList.lookup_isSome, hlook]
  rfl

theorem length_uncommittedDeletes_le (records : List Record) :
    (uncommittedDeletes records).length ≤ records.length := by
  have hkeys : (beginDict (begins records)).keys.length ≤ (begins records).length := by
    have hsub : (beginDict (begins records)).keys ⊆ (begins records).map transactionId := by
      intro tx htx
      obtain ⟨r, hr⟩ := Option.isSome_iff_exists.mp
        (AList.lookup_isSome.mpr (AList.mem_keys.mpr htx))
      obtain ⟨hmem, rfl⟩ := of_lookup_beginDict hr
      exact List.mem_map_of_mem hmem
    have := (List.subperm_of_subset (AList.keys_nodup _) hsub).length_le
    rwa [List.length_map] at this
  calc (uncommittedDeletes records).length
      ≤ (((beginDict (begins records)).keys.insertionSort (· ≤ ·)).filter
          fun tx => tx ∉ committed records).length := by
        rw [uncommittedDeletes_eq]
        exact List.length_filterMap_le _ _
    _ ≤ ((beginDict (begins records)).keys.insertionSort (· ≤ ·)).length := List.length_filter_le _ _
    _ = (beginDict (begins records)).keys.length := List.length_insertionSort _ _
    _ ≤ (begins records).length := hkeys
    _ ≤ records.length := List.length_filterMap_le _ _

end Uncommitted

end Unlearning
