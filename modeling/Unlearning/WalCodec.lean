import Unlearning.TornTail

/-!
# The codec of the log, in both directions (`api/wal.py`)

Records of two sizes follow each other without framing, so what a scan yields
from a file cut anywhere has to be read off the records themselves:

* `iterRecords_take` — on the first `n` bytes of a log the scan yields exactly
  the records that lie within them, wherever the cut falls;
* `scanStep_yield` — conversely, a record the scan yields from arbitrary bytes
  packs to the bytes it was read from, the reserved bytes aside: these are
  written as zeroes and never looked at.
-/

namespace Unlearning

/-! ## Writing a list of records -/

/-- The call that appends a record with these fields. -/
def Record.call : Record → AppendCall
  | begin r => .beginDelete r.targetNodeId r.maxM (some r.transactionId) r.timestamp
  | commit r => .commit r.transactionId r.timestamp

/-- The fields of a call are in the range of their formats, `max_m` positive. -/
def AppendCall.Fits : AppendCall → Prop
  | beginDelete node m tx ts =>
    (0 ≤ node ∧ node < 2 ^ 64) ∧ (1 ≤ m ∧ m < 2 ^ 32) ∧
      (∃ t, tx = some t ∧ 0 ≤ t ∧ t < 2 ^ 64) ∧ 0 ≤ ts ∧ ts < 2 ^ 64
  | commit tx ts => (0 ≤ tx ∧ tx < 2 ^ 64) ∧ 0 ≤ ts ∧ ts < 2 ^ 64

/-- A sequence of append calls: the records returned, each with the bytes its call
added to the file, and the log left. A call that raises returns no record. -/
def appendAll (H : Sha256) : List AppendCall → WriteAheadLog →
    List (Record × List UInt8) × WriteAheadLog
  | [], wal => ([], wal)
  | call :: calls, wal =>
    match call.run H wal with
    | (.error _, wal') => appendAll H calls wal'
    | (.ok r, wal') =>
      let written := appendAll H calls wal'
      ((r, wal'.file.drop wal.file.length) :: written.1, written.2)

/-- The records whose bytes lie entirely within the first `n` bytes. -/
def wholeWithin : ℕ → List (Record × List UInt8) → List Record
  | _, [] => []
  | n, (r, blob) :: rest =>
    if blob.length ≤ n then r :: wholeWithin (n - blob.length) rest else []

/-- `struct.pack` of the fields of a record, with the digest computed again. -/
def Record.pack (H : Sha256) : Record → Except WalError (Record × List UInt8)
  | begin r => (fun p => (.begin p.1, p.2)) <$>
      packBegin H r.timestamp r.transactionId r.targetNodeId r.maxM
  | commit r => (fun p => (.commit p.1, p.2)) <$> packCommit H r.timestamp r.transactionId

/-- The bytes of a record with the reserved ones zeroed: bytes 5 to 7 of the header,
and the padding word 36 to 39 of a BEGIN. -/
def Record.blankReserved : Record → List UInt8 → List UInt8
  | begin _, blob =>
    blob.take 5 ++ [0, 0, 0] ++ (blob.drop 8).take 28 ++ [0, 0, 0, 0] ++ blob.drop 40
  | commit _, blob => blob.take 5 ++ [0, 0, 0] ++ blob.drop 8

section Codec

variable {H : Sha256}

/-! ## From records to bytes, cut anywhere -/

/-- Every call adds the encoding of the record it returns, or nothing. -/
theorem appendAll_spec (calls : List AppendCall) (wal : WriteAheadLog) :
    (appendAll H calls wal).2.file = wal.file ++ ((appendAll H calls wal).1.map Prod.snd).flatten ∧
      ∀ w ∈ (appendAll H calls wal).1, w.1.Valid H ∧ w.2 = w.1.encode := by
  induction calls generalizing wal with
  | nil => simp [appendAll]
  | cons call calls ih =>
    rcases call.run_cases H wal with ⟨r, wal', hrun, hr, hfile⟩ | ⟨e, wal', hrun, hfile⟩
    · obtain ⟨ihfile, ihall⟩ := ih wal'
      have hblob : wal'.file.drop wal.file.length = r.encode := by rw [hfile, List.drop_left]
      simp only [appendAll, hrun, hblob]
      refine ⟨?_, ?_⟩
      · rw [ihfile, hfile]
        simp
      · exact List.forall_mem_cons.mpr ⟨⟨hr, rfl⟩, ihall⟩
    · obtain ⟨ihfile, ihall⟩ := ih wal'
      simp only [appendAll, hrun]
      exact ⟨by rw [ihfile, hfile], ihall⟩

/-- A valid record packs to itself and its encoding. -/
theorem Record.Valid.pack {r : Record} (hr : r.Valid H) : r.pack H = .ok (r, r.encode) := by
  cases r with
  | begin r =>
    obtain ⟨hts, htx, hnode, hm, hsum⟩ := id hr
    have hpad : packField 4 0 = .ok (leBytes 4 0) := rfl
    simp only [Record.pack, packBegin, checksumBegin_valid hr, packField_natCast hts,
      packField_natCast htx, packField_natCast hnode, packField_natCast hm, hpad]
    rfl
  | commit r =>
    obtain ⟨hts, htx, hsum⟩ := id hr
    simp only [Record.pack, packCommit, checksumCommit_valid hr, packField_natCast hts,
      packField_natCast htx]
    rfl

/-- A call with fields in range returns, and the record has these fields. -/
theorem AppendCall.Fits.run {call : AppendCall} (h : call.Fits) (wal : WriteAheadLog) :
    ∃ r wal', call.run H wal = (.ok r, wal') ∧ r.call = call := by
  cases call with
  | beginDelete node m tx ts =>
    obtain ⟨⟨node0, hnode⟩, ⟨m1, hm⟩, ⟨tx, rfl, tx0, htx⟩, ts0, hts⟩ := h
    lift node to ℕ using node0
    lift m to ℕ using by omega
    lift tx to ℕ using tx0
    lift ts to ℕ using ts0
    obtain ⟨r, hr⟩ : ∃ r : BeginDeleteRecord, r = ⟨ts, tx, node, m,
      H.digest (leBytes 8 ts ++ leBytes 8 tx ++ leBytes 8 node ++ leBytes 4 m)⟩ := ⟨_, rfl⟩
    have hvalid : (Record.begin r).Valid H := by
      rw [hr]
      exact ⟨by norm_num; omega, by norm_num; omega, by norm_num; omega, by norm_num; omega, rfl⟩
    have hpack : packBegin H ts tx node m = .ok (r, (Record.begin r).encode) := by
      have h := hvalid.pack
      rw [hr] at h ⊢
      rcases hp : packBegin H ts tx node m with e | ⟨r', blob⟩
      · simp [Record.pack, hp] at h
      · simpa [Record.pack, hp] using h
    refine ⟨.begin r, ⟨wal.file ++ (Record.begin r).encode, max wal.txCounter tx⟩, ?_, ?_⟩
    · have hnode0 : ¬ (node : ℤ) < 0 := by omega
      have hm0 : ¬ (m : ℤ) < 1 := by omega
      simp only [AppendCall.run, WriteAheadLog.appendBeginDelete, hnode0, hm0, if_false,
        Option.getD_some, hpack]
      rfl
    · rw [hr]
      rfl
  | commit tx ts =>
    obtain ⟨⟨tx0, htx⟩, ts0, hts⟩ := h
    lift tx to ℕ using tx0
    lift ts to ℕ using ts0
    obtain ⟨r, hr⟩ : ∃ r : CommitRecord, r = ⟨ts, tx,
      H.digest (leBytes 8 ts ++ leBytes 8 tx)⟩ := ⟨_, rfl⟩
    have hvalid : (Record.commit r).Valid H := by
      rw [hr]
      exact ⟨by norm_num; omega, by norm_num; omega, rfl⟩
    have hpack : packCommit H ts tx = .ok (r, (Record.commit r).encode) := by
      have h := hvalid.pack
      rw [hr] at h ⊢
      rcases hp : packCommit H ts tx with e | ⟨r', blob⟩
      · simp [Record.pack, hp] at h
      · simpa [Record.pack, hp] using h
    refine ⟨.commit r, { wal with file := wal.file ++ (Record.commit r).encode }, ?_, ?_⟩
    · simp [AppendCall.run, WriteAheadLog.appendCommit, hpack]
    · rw [hr]
      rfl

theorem appendAll_call {calls : List AppendCall} (h : ∀ call ∈ calls, call.Fits)
    (wal : WriteAheadLog) : (appendAll H calls wal).1.map (fun w => w.1.call) = calls := by
  induction calls generalizing wal with
  | nil => rfl
  | cons call calls ih =>
    obtain ⟨hcall, hcalls⟩ := List.forall_mem_cons.mp h
    obtain ⟨r, wal', hrun, hr⟩ := hcall.run (H := H) wal
    simp only [appendAll, hrun, List.map_cons, hr, ih hcalls wal']

/-- A cut log is the records before the cut and a tail the scan stops at. -/
theorem take_eq_wholeWithin {written : List (Record × List UInt8)}
    (h : ∀ w ∈ written, w.1.Valid H ∧ w.2 = w.1.encode) (n : ℕ) :
    ∃ tail, ((written.map Prod.snd).flatten).take n =
        (wholeWithin n written).flatMap Record.encode ++ tail ∧ scanStep H tail = .stop ∧
      ∀ r ∈ wholeWithin n written, r.Valid H := by
  induction written generalizing n with
  | nil => exact ⟨[], by simp [wholeWithin], scanStep_nil, by simp [wholeWithin]⟩
  | cons w written ih =>
    obtain ⟨⟨hr, hblob⟩, hrest⟩ := List.forall_mem_cons.mp h
    obtain ⟨r, blob⟩ := w
    dsimp only at hr hblob
    subst hblob
    rw [List.map_cons, List.flatten_cons, wholeWithin]
    split
    · -- the record is before the cut
      rename_i hle
      obtain ⟨tail, htake, hstop, hvalid⟩ := ih hrest (n - r.encode.length)
      refine ⟨tail, ?_, hstop, by simpa using ⟨hr, hvalid⟩⟩
      rw [List.take_append, List.take_of_length_le hle, htake, List.flatMap_cons,
        List.append_assoc]
    · -- the cut is inside the record
      rename_i hlt
      have hcut : (r.encode ++ (written.map Prod.snd).flatten).take n = r.encode.take n :=
        List.take_append_of_le_length (by omega)
      refine ⟨r.encode.take n, hcut, ?_, by simp⟩
      · apply scanStep_torn hr (List.take_prefix n r.encode)
        rw [List.length_take]
        omega

theorem iterRecords_take {written : List (Record × List UInt8)}
    (h : ∀ w ∈ written, w.1.Valid H ∧ w.2 = w.1.encode) (n : ℕ) :
    iterRecords H (((written.map Prod.snd).flatten).take n) = .ok (wholeWithin n written) := by
  obtain ⟨tail, htake, hstop, hvalid⟩ := take_eq_wholeWithin h n
  rw [htake]
  exact iterRecords_append hvalid hstop

/-! ## From bytes to records -/

/-- The fields read from a whole BEGIN body, written back. -/
theorem encode_unpackBegin {body : List UInt8} (h : body.length = 64) :
    (Record.begin (unpackBegin body)).encode =
      magicBegin ++ [recBeginDelete] ++ [0, 0, 0] ++ body.take 28 ++ [0, 0, 0, 0] ++
        body.drop 32 := by
  have hword : ∀ i w, i + w ≤ 64 →
      leBytes w (leNat ((body.drop i).take w)) = (body.drop i).take w := by
    intro i w hi
    apply leBytes_leNat_of_length
    rw [List.length_take, List.length_drop]
    omega
  have hts := hword 0 8 (by omega)
  have hsplit : body.take 28 = body.take 8 ++ ((body.drop 8).take 8 ++
      ((body.drop 16).take 8 ++ (body.drop 24).take 4)) := by
    rw [show 28 = 8 + (8 + (8 + 4)) from rfl, List.take_add, List.take_add, List.take_add,
      List.drop_drop, List.drop_drop]
  have hsum : (body.drop 32).take 32 = body.drop 32 :=
    List.take_of_length_le (by rw [List.length_drop]; omega)
  rw [List.drop_zero] at hts
  simp only [Record.encode, unpackBegin, hts, hword 8 8 (by omega), hword 16 8 (by omega),
    hword 24 4 (by omega), hsum, hsplit, List.append_assoc]
  rfl

theorem encode_unpackCommit {body : List UInt8} (h : body.length = 48) :
    (Record.commit (unpackCommit body)).encode =
      magicCommit ++ [recCommit] ++ [0, 0, 0] ++ body := by
  have hword : ∀ i, i + 8 ≤ 48 →
      leBytes 8 (leNat ((body.drop i).take 8)) = (body.drop i).take 8 := by
    intro i hi
    apply leBytes_leNat_of_length
    rw [List.length_take, List.length_drop]
    omega
  have hts := hword 0 (by omega)
  have hsplit : body = body.take 8 ++ ((body.drop 8).take 8 ++ (body.drop 16).take 32) := by
    conv_lhs => rw [← List.take_of_length_le (show body.length ≤ 8 + (8 + 32) by omega),
      List.take_add, List.take_add, List.drop_drop]
  rw [List.drop_zero] at hts
  simp only [Record.encode, unpackCommit, hts, hword 8 (by omega), List.append_assoc]
  rw [← hsplit]

/-- A digest that could be computed and is the record's own makes it valid. -/
theorem valid_of_checksumBegin {r : BeginDeleteRecord}
    (h : checksumBegin H r.timestamp r.transactionId r.targetNodeId r.maxM = .ok r.checksum) :
    (Record.begin r).Valid H := by
  obtain ⟨bts, hts, h⟩ := except_bind_eq_ok h
  obtain ⟨btx, htx, h⟩ := except_bind_eq_ok h
  obtain ⟨bnode, hnode, h⟩ := except_bind_eq_ok h
  obtain ⟨bm, hm, h⟩ := except_bind_eq_ok h
  obtain ⟨-, tslt, rfl⟩ := packField_eq_ok hts
  obtain ⟨-, txlt, rfl⟩ := packField_eq_ok htx
  obtain ⟨-, nodelt, rfl⟩ := packField_eq_ok hnode
  obtain ⟨-, mlt, rfl⟩ := packField_eq_ok hm
  exact ⟨tslt, txlt, nodelt, mlt, (Except.ok.inj h).symm⟩

theorem valid_of_checksumCommit {r : CommitRecord}
    (h : checksumCommit H r.timestamp r.transactionId = .ok r.checksum) :
    (Record.commit r).Valid H := by
  obtain ⟨bts, hts, h⟩ := except_bind_eq_ok h
  obtain ⟨btx, htx, h⟩ := except_bind_eq_ok h
  obtain ⟨-, tslt, rfl⟩ := packField_eq_ok hts
  obtain ⟨-, txlt, rfl⟩ := packField_eq_ok htx
  exact ⟨tslt, txlt, (Except.ok.inj h).symm⟩

/-- The part of the header that the scan looks at: the magic and the type. -/
theorem take_five {bs magic : List UInt8} {recType : UInt8} (hlen : ¬ (bs.take 8).length < 8)
    (hmagic : (bs.take 8).take 4 = magic) (htype : (bs.take 8).getD 4 0 = recType) :
    bs.take 5 = magic ++ [recType] := by
  rw [List.length_take] at hlen
  have h4 : 4 < bs.length := by omega
  rw [List.take_take] at hmagic
  rw [List.getD_eq_getElem?_getD, List.getElem?_take_of_lt (by omega),
    List.getElem?_eq_getElem h4, Option.getD_some] at htype
  rw [List.take_succ_eq_append_getElem h4, htype]
  exact congrArg (· ++ [recType]) hmagic

theorem scanBegin_yield {bs rest : List UInt8} {r : Record}
    (hhead : bs.take 5 = magicBegin ++ [recBeginDelete]) (h : scanBegin H bs = .yield r rest) :
    ∃ blob, bs = blob ++ rest ∧ r.Valid H ∧ r.encode = r.blankReserved blob := by
  have hbody : (bs.take beginSize).drop 8 = (bs.drop 8).take (beginSize - 8) := by
    rw [List.drop_take]
  have hfive : (bs.take beginSize).take 5 = magicBegin ++ [recBeginDelete] := by
    rw [List.take_take]
    exact hhead
  have hend : (bs.take beginSize).drop 40 = ((bs.drop 8).take (beginSize - 8)).drop 32 := by
    rw [← hbody, List.drop_drop]
  rw [scanBegin] at h
  dsimp only at h
  split at h
  · cases h
  · rename_i hlen
    split at h
    · cases h
    · rename_i expect hsum
      split at h
      · cases h
      · rename_i heq
        obtain ⟨rfl, rfl⟩ := ScanStep.yield.inj h
        refine ⟨bs.take beginSize, (List.take_append_drop beginSize bs).symm, ?_, ?_⟩
        · apply valid_of_checksumBegin
          rw [hsum, not_not.mp heq]
        · have hfull : ((bs.drop 8).take (beginSize - 8)).length = 64 := by
            rw [List.length_take, beginSize] at hlen ⊢
            omega
          rw [encode_unpackBegin hfull, Record.blankReserved, hfive, hbody, hend]

theorem scanCommit_yield {bs rest : List UInt8} {r : Record}
    (hhead : bs.take 5 = magicCommit ++ [recCommit]) (h : scanCommit H bs = .yield r rest) :
    ∃ blob, bs = blob ++ rest ∧ r.Valid H ∧ r.encode = r.blankReserved blob := by
  have hbody : (bs.take commitSize).drop 8 = (bs.drop 8).take (commitSize - 8) := by
    rw [List.drop_take]
  have hfive : (bs.take commitSize).take 5 = magicCommit ++ [recCommit] := by
    rw [List.take_take]
    exact hhead
  rw [scanCommit] at h
  dsimp only at h
  split at h
  · cases h
  · rename_i hlen
    split at h
    · cases h
    · rename_i expect hsum
      split at h
      · cases h
      · rename_i heq
        obtain ⟨rfl, rfl⟩ := ScanStep.yield.inj h
        refine ⟨bs.take commitSize, (List.take_append_drop commitSize bs).symm, ?_, ?_⟩
        · apply valid_of_checksumCommit
          rw [hsum, not_not.mp heq]
        · have hfull : ((bs.drop 8).take (commitSize - 8)).length = 48 := by
            rw [List.length_take, commitSize] at hlen ⊢
            omega
          rw [encode_unpackCommit hfull, Record.blankReserved, hfive, hbody]

/-- **One round of the scan, read backwards**: the record it yields is valid, and
its encoding is the bytes it was read from up to the reserved ones. -/
theorem scanStep_yield {bs rest : List UInt8} {r : Record} (h : scanStep H bs = .yield r rest) :
    ∃ blob, bs = blob ++ rest ∧ r.Valid H ∧ r.encode = r.blankReserved blob := by
  rw [scanStep] at h
  dsimp only at h
  split at h
  · cases h
  · rename_i hlen
    split at h
    · rename_i hbegin
      exact scanBegin_yield (take_five hlen hbegin.1 hbegin.2) h
    · split at h
      · rename_i hcommit
        exact scanCommit_yield (take_five hlen hcommit.1 hcommit.2) h
      · cases h

/-- The whole scan, read backwards, by induction on its rounds. The bytes behind
the last record are those the loop breaks on. -/
theorem scanRecords_ok {fuel : ℕ} {bs : List UInt8} {records : List Record}
    (hfuel : bs.length ≤ fuel) (h : scanRecords H fuel bs = .ok records) :
    ∃ blobs rest, bs = blobs.flatten ++ rest ∧ scanStep H rest = .stop ∧
      List.Forall₂ (fun r blob => r.pack H = .ok (r, r.blankReserved blob)) records blobs := by
  induction fuel generalizing bs records with
  | zero =>
    obtain rfl : bs = [] := List.length_eq_zero_iff.mp (by omega)
    obtain rfl := Except.ok.inj h
    exact ⟨[], [], rfl, scanStep_nil, .nil⟩
  | succ fuel ih =>
    rw [scanRecords] at h
    rcases hstep : scanStep H bs with _ | e | ⟨r, rest⟩
    · rw [hstep] at h
      obtain rfl := Except.ok.inj h
      exact ⟨[], bs, rfl, hstep, .nil⟩
    · rw [hstep] at h
      cases h
    · rw [hstep] at h
      obtain ⟨tail, htail, hmap⟩ := except_bind_eq_ok (f := fun t => .ok (r :: t)) h
      obtain rfl := Except.ok.inj hmap
      obtain ⟨blob, rfl, hr, hblob⟩ := scanStep_yield hstep
      have hlong : 0 < blob.length := by
        have h56 := Record.le_length_encode hr
        rcases blob with _ | ⟨b, blob⟩
        · rw [hblob] at h56
          cases r <;> simp [Record.blankReserved] at h56
        · exact Nat.succ_pos _
      rw [List.length_append] at hfuel
      obtain ⟨blobs, rest', hrest, hstop, hall⟩ := ih (by omega) htail
      refine ⟨blob :: blobs, rest', ?_, hstop, .cons ?_ hall⟩
      · rw [hrest, List.flatten_cons, List.append_assoc]
      · rw [hr.pack, hblob]

/-- **The codec.** From records to bytes: a sequence of append calls on an empty
log leaves the concatenation of the blobs of the records returned — one for each
call whose fields are in range, with these fields — and a scan of the file cut at
any `n` raises nothing and yields exactly the records whose blobs lie within the
cut. From bytes to records: whenever a scan of arbitrary bytes raises nothing, the
bytes before the tail it stops at are those of the yielded records packed again,
up to the reserved ones. -/
theorem walCodec (H : Sha256) :
    (∀ calls : List AppendCall, let written := appendAll H calls ⟨[], 0⟩
      written.2.file = (written.1.map Prod.snd).flatten ∧
      ((∀ call ∈ calls, call.Fits) → written.1.map (fun w => w.1.call) = calls) ∧
      ∀ n ≤ written.2.file.length,
        iterRecords H (written.2.file.take n) = .ok (wholeWithin n written.1)) ∧
    ∀ bs records, iterRecords H bs = .ok records →
      ∃ blobs rest, bs = blobs.flatten ++ rest ∧ scanStep H rest = .stop ∧
        List.Forall₂ (fun r blob => r.pack H = .ok (r, r.blankReserved blob)) records blobs := by
  refine ⟨fun calls => ?_, fun bs records h => scanRecords_ok le_rfl h⟩
  obtain ⟨hfile, hall⟩ := appendAll_spec (H := H) calls ⟨[], 0⟩
  rw [List.nil_append] at hfile
  refine ⟨hfile, fun hfit => appendAll_call hfit _, fun n _ => ?_⟩
  rw [hfile]
  exact iterRecords_take hall n

/-- A digest of zeroes. -/
def Sha256.zeroes : Sha256 := ⟨fun _ => List.replicate 32 0, fun _ => List.length_replicate⟩

/-- A BEGIN and its COMMIT, written; and a COMMIT with non-zero reserved bytes, read. -/
theorem walCodec_begin_commit :
    (appendAll .zeroes [.beginDelete 3 16 (some 1) 5, .commit 1 6] ⟨[], 0⟩).1.map
        (fun w => w.1.call) = [.beginDelete 3 16 (some 1) 5, .commit 1 6] ∧
      ∃ blobs rest, magicCommit ++ [2, 7, 7, 7] ++ List.replicate 49 0 =
          blobs.flatten ++ rest ∧ scanStep .zeroes rest = .stop ∧
        List.Forall₂ (fun r blob => Record.pack .zeroes r = .ok (r, r.blankReserved blob))
          [.commit ⟨0, 0, List.replicate 32 0⟩] blobs := by
  refine ⟨((walCodec .zeroes).1 _).2.1 ?_, (walCodec .zeroes).2 _ _ (by decide +kernel)⟩
  intro call hcall
  simp only [List.mem_cons, List.not_mem_nil, or_false] at hcall
  rcases hcall with rfl | rfl
  · exact ⟨by decide, by decide, ⟨1, rfl, by decide⟩, by decide⟩
  · exact ⟨by decide, by decide⟩

end Codec

end Unlearning
