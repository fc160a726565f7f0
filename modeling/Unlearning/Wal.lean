import Mathlib.Data.List.AList
import Mathlib.Data.List.Sort
import Unlearning.Bytes
import Unlearning.Sha256

/-!
# The write-ahead log (`api/wal.py`)

`index.wal` is an append-only file of fixed-size records: BEGIN (72 bytes) and
COMMIT (56 bytes), each with a magic, a type byte, little-endian fields and the
SHA-256 digest of its payload. This module embeds

* the record codec — `packBegin` / `packCommit` (`struct.pack` with its range
  errors) and the scan `iterRecords` with every exit it has: end of file, torn
  header, torn body, checksum mismatch, unknown magic;
* the `WriteAheadLog` object — `openLog`, `appendBeginDelete`, `appendCommit`
  with the transaction counter they keep — and `uncommittedDeletes`.

SHA-256 is any function to 32 bytes (`Sha256`), of which the real one is
`Sha256.hashlib`. A file that does not exist is the empty byte string:
`iter_records` and `_recover_max_tx_id` treat them alike.
-/

namespace Unlearning

/-- `hashlib.sha256`, of which only the digest length is used. -/
structure Sha256 where
  /-- the digest of a byte string -/
  digest : List UInt8 → List UInt8
  /-- a digest has 32 bytes -/
  length_digest : ∀ payload, (digest payload).length = 32

/-- The function itself. -/
def Sha256.hashlib : Sha256 := ⟨Sha2.sha256, Sha2.length_sha256⟩

/-- What the log raises. All but `structError` are Python `ValueError`s. -/
inductive WalError : Type where
  /-- `target_node_id must be non-negative` -/
  | negativeTarget : WalError
  /-- `max_m must be positive` -/
  | nonPositiveMaxM : WalError
  /-- `struct.error`: a field does not fit its format -/
  | structError : WalError
  /-- `WAL checksum mismatch on BEGIN tx=…` -/
  | beginChecksum (tx : ℕ) : WalError
  /-- `WAL checksum mismatch on COMMIT tx=…` -/
  | commitChecksum (tx : ℕ) : WalError
  /-- `WAL corrupt: unknown magic/type …` -/
  | unknownMagic (magic : List UInt8) (recType : UInt8) : WalError
  deriving DecidableEq

/-- `BeginDeleteRecord` -/
structure BeginDeleteRecord where
  timestamp : ℕ
  transactionId : ℕ
  targetNodeId : ℕ
  maxM : ℕ
  checksum : List UInt8
  deriving DecidableEq

/-- `CommitRecord` -/
structure CommitRecord where
  timestamp : ℕ
  transactionId : ℕ
  checksum : List UInt8
  deriving DecidableEq

/-- A record as `iter_records` yields it. -/
inductive Record : Type where
  | begin (rec : BeginDeleteRecord) : Record
  | commit (rec : CommitRecord) : Record
  deriving DecidableEq

namespace Record

/-- The id of either kind. -/
def transactionId : Record → ℕ
  | begin r => r.transactionId
  | commit r => r.transactionId

/-- The BEGIN record, if it is one. -/
def begin? : Record → Option BeginDeleteRecord
  | begin r => some r
  | commit _ => none

/-- The transaction id a COMMIT retires. -/
def committed? : Record → Option ℕ
  | begin _ => none
  | commit r => some r.transactionId

end Record

/-! ## The codec -/

/-- `b"WDEL"` -/
def magicBegin : List UInt8 := [0x57, 0x44, 0x45, 0x4C]

/-- `b"WCMT"` -/
def magicCommit : List UInt8 := [0x57, 0x43, 0x4D, 0x54]

/-- `REC_BEGIN_DELETE` -/
def recBeginDelete : UInt8 := 1

/-- `REC_COMMIT` -/
def recCommit : UInt8 := 2

/-- `BEGIN_SIZE` -/
def beginSize : ℕ := 72

/-- `COMMIT_SIZE` -/
def commitSize : ℕ := 56

/-- One unsigned field of `w` bytes in `struct.pack`: out of range raises. -/
def packField (w : ℕ) (x : ℤ) : Except WalError (List UInt8) :=
  if 0 ≤ x ∧ x.toNat < 256 ^ w then .ok (leBytes w x.toNat) else .error .structError

section Codec

variable (H : Sha256)

/-- `_checksum_begin` -/
def checksumBegin (timestamp transactionId targetNodeId maxM : ℤ) :
    Except WalError (List UInt8) := do
  let ts ← packField 8 timestamp
  let tx ← packField 8 transactionId
  let node ← packField 8 targetNodeId
  let m ← packField 4 maxM
  pure (H.digest (ts ++ tx ++ node ++ m))

/-- `_checksum_commit` -/
def checksumCommit (timestamp transactionId : ℤ) : Except WalError (List UInt8) := do
  let ts ← packField 8 timestamp
  let tx ← packField 8 transactionId
  pure (H.digest (ts ++ tx))

/-- The BEGIN blob: digest of the payload, then `struct.pack(BEGIN_FMT, …)`. -/
def packBegin (timestamp transactionId targetNodeId maxM : ℤ) :
    Except WalError (BeginDeleteRecord × List UInt8) := do
  let digest ← checksumBegin H timestamp transactionId targetNodeId maxM
  let ts ← packField 8 timestamp
  let tx ← packField 8 transactionId
  let node ← packField 8 targetNodeId
  let m ← packField 4 maxM
  let pad ← packField 4 0
  let blob := magicBegin ++ [recBeginDelete] ++ [0, 0, 0] ++ ts ++ tx ++ node ++ m ++ pad ++ digest
  pure (⟨timestamp.toNat, transactionId.toNat, targetNodeId.toNat, maxM.toNat, digest⟩, blob)

/-- The COMMIT blob. -/
def packCommit (timestamp transactionId : ℤ) :
    Except WalError (CommitRecord × List UInt8) := do
  let digest ← checksumCommit H timestamp transactionId
  let ts ← packField 8 timestamp
  let tx ← packField 8 transactionId
  let blob := magicCommit ++ [recCommit] ++ [0, 0, 0] ++ ts ++ tx ++ digest
  pure (⟨timestamp.toNat, transactionId.toNat, digest⟩, blob)

/-- `struct.unpack(BEGIN_FMT, …)` on the 64 bytes after the header. -/
def unpackBegin (body : List UInt8) : BeginDeleteRecord where
  timestamp := leNat (body.take 8)
  transactionId := leNat ((body.drop 8).take 8)
  targetNodeId := leNat ((body.drop 16).take 8)
  maxM := leNat ((body.drop 24).take 4)
  checksum := (body.drop 32).take 32

/-- `struct.unpack(COMMIT_FMT, …)` on the 48 bytes after the header. -/
def unpackCommit (body : List UInt8) : CommitRecord where
  timestamp := leNat (body.take 8)
  transactionId := leNat ((body.drop 8).take 8)
  checksum := (body.drop 16).take 32

/-- What one round of the scan loop does with the bytes that are left. -/
inductive ScanStep : Type where
  /-- `break`: end of file, or a torn header or body -/
  | stop : ScanStep
  /-- `raise ValueError` -/
  | fault (e : WalError) : ScanStep
  /-- `yield` a record; these bytes are left -/
  | yield (r : Record) (rest : List UInt8) : ScanStep

/-- The BEGIN branch of the loop body, after the header. -/
def scanBegin (bs : List UInt8) : ScanStep :=
  let rest := (bs.drop 8).take (beginSize - 8)
  -- torn BEGIN body: not durable, stop scanning
  if rest.length < beginSize - 8 then .stop
  else
    let r := unpackBegin rest
    match checksumBegin H r.timestamp r.transactionId r.targetNodeId r.maxM with
    | .error e => .fault e
    | .ok expect =>
      if r.checksum ≠ expect then .fault (.beginChecksum r.transactionId)
      else .yield (.begin r) (bs.drop beginSize)

/-- The COMMIT branch of the loop body, after the header. -/
def scanCommit (bs : List UInt8) : ScanStep :=
  let rest := (bs.drop 8).take (commitSize - 8)
  if rest.length < commitSize - 8 then .stop
  else
    let r := unpackCommit rest
    match checksumCommit H r.timestamp r.transactionId with
    | .error e => .fault e
    | .ok expect =>
      if r.checksum ≠ expect then .fault (.commitChecksum r.transactionId)
      else .yield (.commit r) (bs.drop commitSize)

/-- The loop body of `iter_records`: read the 8-byte header, dispatch on magic
and type. -/
def scanStep (bs : List UInt8) : ScanStep :=
  let head := bs.take 8
  if head.length < 8 then .stop
  else
    let magic := head.take 4
    let recType := head.getD 4 0
    if magic = magicBegin ∧ recType = recBeginDelete then scanBegin H bs
    else if magic = magicCommit ∧ recType = recCommit then scanCommit H bs
    else .fault (.unknownMagic magic recType)

/-- The loop of `iter_records`. Fuel counts the rounds; a round that yields
consumes at least 56 bytes, so the length of the file is enough. -/
def scanRecords : ℕ → List UInt8 → Except WalError (List Record)
  | 0, _ => .ok []
  | fuel + 1, bs =>
    match scanStep H bs with
    | .stop => .ok []
    | .fault e => .error e
    | .yield r rest => (r :: ·) <$> scanRecords fuel rest

/-- `list(wal.iter_records())` on the content of the file. -/
def iterRecords (file : List UInt8) : Except WalError (List Record) :=
  scanRecords H file.length file

/-- `_recover_max_tx_id` -/
def recoverMaxTxId (file : List UInt8) : Except WalError ℤ := do
  let records ← iterRecords H file
  pure (records.foldl (fun maxId r => max maxId (r.transactionId : ℤ)) 0)

end Codec

/-! ## The log object -/

/-- An open `WriteAheadLog`: the content of its file and `_tx_counter`. -/
structure WriteAheadLog where
  file : List UInt8
  txCounter : ℤ
  deriving DecidableEq

namespace WriteAheadLog

variable (H : Sha256)

/-- `WriteAheadLog.__init__` on a path with this content. -/
def openLog (file : List UInt8) : Except WalError WriteAheadLog := do
  let txCounter ← recoverMaxTxId H file
  pure ⟨file, txCounter⟩

/-- `append_begin_delete`. The counter moves before `struct.pack` can raise. -/
def appendBeginDelete (targetNodeId maxM : ℤ) (transactionId : Option ℤ) (timestamp : ℤ)
    (wal : WriteAheadLog) : Except WalError BeginDeleteRecord × WriteAheadLog :=
  if targetNodeId < 0 then (.error .negativeTarget, wal)
  else if maxM < 1 then (.error .nonPositiveMaxM, wal)
  else
    let tx := transactionId.getD (wal.txCounter + 1)
    let counter := match transactionId with
      | none => tx
      | some tx => max wal.txCounter tx
    match packBegin H timestamp tx targetNodeId maxM with
    | .error e => (.error e, { wal with txCounter := counter })
    | .ok (r, blob) => (.ok r, ⟨wal.file ++ blob, counter⟩)

/-- `append_commit` -/
def appendCommit (transactionId timestamp : ℤ) (wal : WriteAheadLog) :
    Except WalError CommitRecord × WriteAheadLog :=
  match packCommit H timestamp transactionId with
  | .error e => (.error e, wal)
  | .ok (r, blob) => (.ok r, { wal with file := wal.file ++ blob })

end WriteAheadLog

/-- `uncommitted_deletes` on the records of the file: the BEGIN of every
transaction without a COMMIT, by ascending transaction id. -/
def uncommittedDeletes (records : List Record) : List BeginDeleteRecord :=
  let committed := records.filterMap Record.committed?
  let begins : AList fun _ : ℕ => BeginDeleteRecord :=
    (records.filterMap Record.begin?).foldl (fun d r => d.insert r.transactionId r) ∅
  ((begins.keys.insertionSort (· ≤ ·)).filter fun tx => tx ∉ committed).filterMap begins.lookup

/-! ## What the two append functions write

`encode` is the layout of a record whose fields fit; `Valid` adds that they do
fit and that the checksum is the digest of the payload. The blobs of
`packBegin` and `packCommit` are encodings of valid records. -/

namespace Record

/-- The bytes of a record. -/
def encode : Record → List UInt8
  | begin r =>
    magicBegin ++ [recBeginDelete] ++ [0, 0, 0] ++ leBytes 8 r.timestamp ++
      leBytes 8 r.transactionId ++ leBytes 8 r.targetNodeId ++ leBytes 4 r.maxM ++
      leBytes 4 0 ++ r.checksum
  | commit r =>
    magicCommit ++ [recCommit] ++ [0, 0, 0] ++ leBytes 8 r.timestamp ++
      leBytes 8 r.transactionId ++ r.checksum

/-- The fields fit their formats and the checksum is the payload's digest. -/
def Valid (H : Sha256) : Record → Prop
  | begin r =>
    r.timestamp < 256 ^ 8 ∧ r.transactionId < 256 ^ 8 ∧ r.targetNodeId < 256 ^ 8 ∧
      r.maxM < 256 ^ 4 ∧
      r.checksum = H.digest (leBytes 8 r.timestamp ++ leBytes 8 r.transactionId ++
        leBytes 8 r.targetNodeId ++ leBytes 4 r.maxM)
  | commit r =>
    r.timestamp < 256 ^ 8 ∧ r.transactionId < 256 ^ 8 ∧
      r.checksum = H.digest (leBytes 8 r.timestamp ++ leBytes 8 r.transactionId)

/-- The size of a record on disk. -/
def size : Record → ℕ
  | begin _ => beginSize
  | commit _ => commitSize

theorem length_encode {H : Sha256} {r : Record} (hr : r.Valid H) : r.encode.length = r.size := by
  cases r with
  | begin r =>
    obtain ⟨-, -, -, -, hsum⟩ := hr
    simp [encode, size, magicBegin, beginSize, hsum, H.length_digest]
  | commit r =>
    obtain ⟨-, -, hsum⟩ := hr
    simp [encode, size, magicCommit, commitSize, hsum, H.length_digest]

theorem le_length_encode {H : Sha256} {r : Record} (hr : r.Valid H) : 56 ≤ r.encode.length := by
  rw [length_encode hr]
  cases r with
  | begin r => exact (by decide : 56 ≤ beginSize)
  | commit r => exact (by decide : 56 ≤ commitSize)

end Record

theorem packField_eq_ok {w : ℕ} {x : ℤ} {bs : List UInt8} (h : packField w x = .ok bs) :
    0 ≤ x ∧ x.toNat < 256 ^ w ∧ bs = leBytes w x.toNat := by
  rw [packField] at h
  by_cases hx : 0 ≤ x ∧ x.toNat < 256 ^ w
  · rw [if_pos hx] at h
    exact ⟨hx.1, hx.2, (Except.ok.inj h).symm⟩
  · rw [if_neg hx] at h
    cases h

theorem packField_natCast {w n : ℕ} (h : n < 256 ^ w) :
    packField w (n : ℤ) = .ok (leBytes w n) := by
  rw [packField, Int.toNat_natCast, if_pos ⟨Int.natCast_nonneg n, h⟩]

section Codec

variable {H : Sha256}

theorem packBegin_eq_ok {ts tx node m : ℤ} {r : BeginDeleteRecord} {blob : List UInt8}
    (h : packBegin H ts tx node m = .ok (r, blob)) :
    (Record.begin r).Valid H ∧ blob = (Record.begin r).encode ∧
      (r.transactionId : ℤ) = tx ∧ (r.targetNodeId : ℤ) = node ∧ (r.maxM : ℤ) = m := by
  obtain ⟨digest, hd, h⟩ := except_bind_eq_ok h
  obtain ⟨bts, hts, h⟩ := except_bind_eq_ok h
  obtain ⟨btx, htx, h⟩ := except_bind_eq_ok h
  obtain ⟨bnode, hnode, h⟩ := except_bind_eq_ok h
  obtain ⟨bm, hm, h⟩ := except_bind_eq_ok h
  obtain ⟨bpad, hpad, h⟩ := except_bind_eq_ok h
  simp only [checksumBegin, hts, htx, hnode, hm] at hd
  obtain ⟨ts0, tslt, rfl⟩ := packField_eq_ok hts
  obtain ⟨tx0, txlt, rfl⟩ := packField_eq_ok htx
  obtain ⟨node0, nodelt, rfl⟩ := packField_eq_ok hnode
  obtain ⟨m0, mlt, rfl⟩ := packField_eq_ok hm
  obtain ⟨-, -, rfl⟩ := packField_eq_ok hpad
  obtain ⟨rfl, rfl⟩ := Prod.mk.inj (Except.ok.inj h)
  exact ⟨⟨tslt, txlt, nodelt, mlt, (Except.ok.inj hd).symm⟩, rfl, Int.toNat_of_nonneg tx0,
    Int.toNat_of_nonneg node0, Int.toNat_of_nonneg m0⟩

theorem packCommit_eq_ok {ts tx : ℤ} {r : CommitRecord} {blob : List UInt8}
    (h : packCommit H ts tx = .ok (r, blob)) :
    (Record.commit r).Valid H ∧ blob = (Record.commit r).encode ∧
      (r.transactionId : ℤ) = tx := by
  obtain ⟨digest, hd, h⟩ := except_bind_eq_ok h
  obtain ⟨bts, hts, h⟩ := except_bind_eq_ok h
  obtain ⟨btx, htx, h⟩ := except_bind_eq_ok h
  simp only [checksumCommit, hts, htx] at hd
  obtain ⟨ts0, tslt, rfl⟩ := packField_eq_ok hts
  obtain ⟨tx0, txlt, rfl⟩ := packField_eq_ok htx
  obtain ⟨rfl, rfl⟩ := Prod.mk.inj (Except.ok.inj h)
  exact ⟨⟨tslt, txlt, (Except.ok.inj hd).symm⟩, rfl, Int.toNat_of_nonneg tx0⟩

/-! ## Scanning what was written -/

theorem unpackBegin_fields {r : BeginDeleteRecord} (hr : (Record.begin r).Valid H) :
    unpackBegin (leBytes 8 r.timestamp ++ leBytes 8 r.transactionId ++
      leBytes 8 r.targetNodeId ++ leBytes 4 r.maxM ++ leBytes 4 0 ++ r.checksum) = r := by
  obtain ⟨hts, htx, hnode, hm, hsum⟩ := hr
  have hlen : r.checksum.length ≤ 32 := by rw [hsum, H.length_digest]
  simp [unpackBegin, List.drop_append, List.take_of_length_le hlen,
    leNat_leBytes_of_lt hts, leNat_leBytes_of_lt htx, leNat_leBytes_of_lt hnode,
    leNat_leBytes_of_lt hm]

theorem unpackCommit_fields {r : CommitRecord} (hr : (Record.commit r).Valid H) :
    unpackCommit (leBytes 8 r.timestamp ++ leBytes 8 r.transactionId ++ r.checksum) = r := by
  obtain ⟨hts, htx, hsum⟩ := hr
  have hlen : r.checksum.length ≤ 32 := by rw [hsum, H.length_digest]
  simp [unpackCommit, List.drop_append, List.take_of_length_le hlen,
    leNat_leBytes_of_lt hts, leNat_leBytes_of_lt htx]

theorem checksumBegin_valid {r : BeginDeleteRecord} (hr : (Record.begin r).Valid H) :
    checksumBegin H r.timestamp r.transactionId r.targetNodeId r.maxM = .ok r.checksum := by
  obtain ⟨hts, htx, hnode, hm, hsum⟩ := hr
  rw [checksumBegin, packField_natCast hts, packField_natCast htx, packField_natCast hnode,
    packField_natCast hm, hsum]
  rfl

theorem checksumCommit_valid {r : CommitRecord} (hr : (Record.commit r).Valid H) :
    checksumCommit H r.timestamp r.transactionId = .ok r.checksum := by
  obtain ⟨hts, htx, hsum⟩ := hr
  rw [checksumCommit, packField_natCast hts, packField_natCast htx, hsum]
  rfl

theorem scanStep_of_begin_header {bs : List UInt8}
    (h : bs.take 8 = [0x57, 0x44, 0x45, 0x4C, 1, 0, 0, 0]) : scanStep H bs = scanBegin H bs := by
  simp only [scanStep, h]
  rw [if_neg (by decide), if_pos (by decide)]

theorem scanStep_of_commit_header {bs : List UInt8}
    (h : bs.take 8 = [0x57, 0x43, 0x4D, 0x54, 2, 0, 0, 0]) : scanStep H bs = scanCommit H bs := by
  simp only [scanStep, h]
  rw [if_neg (by decide), if_neg (by decide), if_pos (by decide)]

/-- **One round of the scan on a whole record**: the record is yielded and the
scan goes on behind it. -/
theorem scanStep_encode_append {r : Record} (hr : r.Valid H) (rest : List UInt8) :
    scanStep H (r.encode ++ rest) = .yield r rest := by
  have hsize : r.encode.length = r.size := Record.length_encode hr
  cases r with
  | begin r =>
    let body := leBytes 8 r.timestamp ++ leBytes 8 r.transactionId ++
      leBytes 8 r.targetNodeId ++ leBytes 4 r.maxM ++ leBytes 4 0 ++ r.checksum
    have hbs : (Record.begin r).encode =
        [0x57, 0x44, 0x45, 0x4C, 1, 0, 0, 0] ++ body := by
      simp only [Record.encode, body, List.append_assoc]
      rfl
    have hbody : body.length = beginSize - 8 := by
      rw [hbs, List.length_append] at hsize
      simp only [List.length_cons, List.length_nil, Record.size, beginSize] at hsize ⊢
      omega
    have hrest : (body ++ rest).take (beginSize - 8) = body := List.take_left' hbody
    have hnext : ((Record.begin r).encode ++ rest).drop beginSize = rest := List.drop_left' hsize
    have hscan : scanStep H ((Record.begin r).encode ++ rest) =
        scanBegin H ((Record.begin r).encode ++ rest) :=
      scanStep_of_begin_header (by rw [hbs]; rfl)
    have hdrop : List.drop 8 ((Record.begin r).encode ++ rest) = body ++ rest := by
      rw [hbs]
      rfl
    rw [hscan, scanBegin]
    simp only [hdrop, hrest, hbody, hnext, lt_irrefl, if_false]
    rw [unpackBegin_fields hr, checksumBegin_valid hr]
    exact if_neg (by simp)
  | commit r =>
    let body := leBytes 8 r.timestamp ++ leBytes 8 r.transactionId ++ r.checksum
    have hbs : (Record.commit r).encode =
        [0x57, 0x43, 0x4D, 0x54, 2, 0, 0, 0] ++ body := by
      simp only [Record.encode, body, List.append_assoc]
      rfl
    have hbody : body.length = commitSize - 8 := by
      rw [hbs, List.length_append] at hsize
      simp only [List.length_cons, List.length_nil, Record.size, commitSize] at hsize ⊢
      omega
    have hrest : (body ++ rest).take (commitSize - 8) = body := List.take_left' hbody
    have hnext : ((Record.commit r).encode ++ rest).drop commitSize = rest := List.drop_left' hsize
    have hscan : scanStep H ((Record.commit r).encode ++ rest) =
        scanCommit H ((Record.commit r).encode ++ rest) :=
      scanStep_of_commit_header (by rw [hbs]; rfl)
    have hdrop : List.drop 8 ((Record.commit r).encode ++ rest) = body ++ rest := by
      rw [hbs]
      rfl
    rw [hscan, scanCommit]
    simp only [hdrop, hrest, hbody, hnext, lt_irrefl, if_false]
    rw [unpackCommit_fields hr, checksumCommit_valid hr]
    exact if_neg (by simp)

/-- **A torn tail ends the scan**: on a proper prefix of a record the loop
breaks, it does not raise. -/
theorem scanStep_torn {r : Record} (hr : r.Valid H) {p : List UInt8} (hp : p <+: r.encode)
    (hlt : p.length < r.encode.length) : scanStep H p = .stop := by
  rw [Record.length_encode hr] at hlt
  by_cases h8 : p.length < 8
  · exact if_pos (by rw [List.length_take]; omega)
  · -- the header is whole, so the record's own branch is taken and its body is short
    have hhead : p.take 8 = r.encode.take 8 := by
      obtain ⟨t, ht⟩ := hp
      rw [← ht, List.take_append_of_le_length (by omega)]
    cases r with
    | begin r =>
      have hhead' : p.take 8 = [0x57, 0x44, 0x45, 0x4C, 1, 0, 0, 0] := by
        rw [hhead]
        simp only [Record.encode, List.append_assoc]
        rfl
      have hbody : ((p.drop 8).take (beginSize - 8)).length < beginSize - 8 := by
        simp only [Record.size, beginSize, List.length_take, List.length_drop] at hlt ⊢
        omega
      rw [scanStep_of_begin_header hhead', scanBegin]
      simp only [hbody, if_true]
    | commit r =>
      have hhead' : p.take 8 = [0x57, 0x43, 0x4D, 0x54, 2, 0, 0, 0] := by
        rw [hhead]
        simp only [Record.encode, List.append_assoc]
        rfl
      have hbody : ((p.drop 8).take (commitSize - 8)).length < commitSize - 8 := by
        simp only [Record.size, commitSize, List.length_take, List.length_drop] at hlt ⊢
        omega
      rw [scanStep_of_commit_header hhead', scanCommit]
      simp only [hbody, if_true]

theorem scanStep_nil : scanStep H [] = .stop := rfl

/-- **The scan of a log**: whole records are yielded in order and the scan goes
on behind them. -/
theorem scanRecords_flatMap_append (fuel : ℕ) (bs : List UInt8) :
    ∀ {records : List Record}, (∀ r ∈ records, r.Valid H) →
      scanRecords H (fuel + records.length) (records.flatMap Record.encode ++ bs) =
        (records ++ ·) <$> scanRecords H fuel bs
  | [], _ => by
    simp only [List.flatMap_nil, List.nil_append, List.length_nil, Nat.add_zero]
    exact (id_map _).symm
  | r :: records, hvalid => by
    have ih := scanRecords_flatMap_append fuel bs
      fun r' hr' => hvalid r' (List.mem_cons_of_mem _ hr')
    rw [List.flatMap_cons, List.append_assoc, List.length_cons, ← Nat.add_assoc, scanRecords,
      scanStep_encode_append (hvalid r (List.mem_cons_self ..))]
    simp only [ih, Functor.map_map]
    rfl

theorem length_le_length_flatMap_encode {records : List Record}
    (hvalid : ∀ r ∈ records, r.Valid H) :
    records.length ≤ (records.flatMap Record.encode).length := by
  induction records with
  | nil => simp
  | cons r records ih =>
    have hr := Record.le_length_encode (hvalid r (List.mem_cons_self ..))
    have ih := ih fun r' hr' => hvalid r' (List.mem_cons_of_mem _ hr')
    rw [List.flatMap_cons, List.length_append, List.length_cons]
    omega

/-- `iter_records` behind whole records, with the fuel that is left. -/
theorem iterRecords_flatMap_append {records : List Record} (bs : List UInt8)
    (hvalid : ∀ r ∈ records, r.Valid H) :
    ∃ fuel, bs.length ≤ fuel ∧ iterRecords H (records.flatMap Record.encode ++ bs) =
      (records ++ ·) <$> scanRecords H fuel bs := by
  have hlen := length_le_length_flatMap_encode hvalid
  have hfuel : (records.flatMap Record.encode ++ bs).length =
      (records.flatMap Record.encode).length - records.length + bs.length + records.length := by
    rw [List.length_append]
    omega
  refine ⟨(records.flatMap Record.encode).length - records.length + bs.length,
    Nat.le_add_left _ _, ?_⟩
  rw [iterRecords, hfuel]
  exact scanRecords_flatMap_append _ bs hvalid

/-- `iter_records` on whole records followed by a tail the loop breaks on. -/
theorem iterRecords_append {records : List Record} {tail : List UInt8}
    (hvalid : ∀ r ∈ records, r.Valid H) (htail : scanStep H tail = .stop) :
    iterRecords H (records.flatMap Record.encode ++ tail) = .ok records := by
  obtain ⟨fuel, -, hiter⟩ := iterRecords_flatMap_append tail hvalid
  have hstop : scanRecords H fuel tail = .ok [] := by
    cases fuel with
    | zero => rfl
    | succ fuel => rw [scanRecords, htail]
  rw [hiter, hstop]
  exact congrArg Except.ok (List.append_nil records)

end Codec

/-! ## The appends, as operations on records

Either the call raises and the file is as it was, or exactly the encoding of
the returned record is added. -/

namespace WriteAheadLog

variable {H : Sha256} {wal wal' : WriteAheadLog}

theorem appendBeginDelete_ok {node m : ℤ} {tx : Option ℤ} {ts : ℤ} {r : BeginDeleteRecord}
    (h : wal.appendBeginDelete H node m tx ts = (.ok r, wal')) :
    (Record.begin r).Valid H ∧ wal'.file = wal.file ++ (Record.begin r).encode := by
  rw [appendBeginDelete] at h
  by_cases hnode : node < 0
  · rw [if_pos hnode] at h
    cases h
  · rw [if_neg hnode] at h
    by_cases hm : m < 1
    · rw [if_pos hm] at h
      cases h
    · rw [if_neg hm] at h
      rcases hp : packBegin H ts (tx.getD (wal.txCounter + 1)) node m with e | ⟨r', blob⟩
      · simp only [hp] at h
        cases h
      · simp only [hp] at h
        cases h
        obtain ⟨hvalid, hblob, -⟩ := packBegin_eq_ok hp
        exact ⟨hvalid, by rw [hblob]⟩

theorem appendBeginDelete_error {node m : ℤ} {tx : Option ℤ} {ts : ℤ} {e : WalError}
    (h : wal.appendBeginDelete H node m tx ts = (.error e, wal')) : wal'.file = wal.file := by
  rw [appendBeginDelete] at h
  by_cases hnode : node < 0
  · rw [if_pos hnode] at h
    cases h
    rfl
  · rw [if_neg hnode] at h
    by_cases hm : m < 1
    · rw [if_pos hm] at h
      cases h
      rfl
    · rw [if_neg hm] at h
      rcases hp : packBegin H ts (tx.getD (wal.txCounter + 1)) node m with e' | ⟨r', blob⟩
      · simp only [hp] at h
        cases h
        rfl
      · simp only [hp] at h
        cases h

theorem appendCommit_ok {tx ts : ℤ} {r : CommitRecord}
    (h : wal.appendCommit H tx ts = (.ok r, wal')) :
    (Record.commit r).Valid H ∧ wal'.file = wal.file ++ (Record.commit r).encode := by
  rw [appendCommit] at h
  rcases hp : packCommit H ts tx with e | ⟨r', blob⟩
  · simp only [hp] at h
    cases h
  · simp only [hp] at h
    cases h
    obtain ⟨hvalid, hblob, -⟩ := packCommit_eq_ok hp
    exact ⟨hvalid, by rw [hblob]⟩

theorem appendCommit_error {tx ts : ℤ} {e : WalError}
    (h : wal.appendCommit H tx ts = (.error e, wal')) : wal'.file = wal.file := by
  rw [appendCommit] at h
  rcases hp : packCommit H ts tx with e' | ⟨r', blob⟩
  · simp only [hp] at h
    cases h
    rfl
  · simp only [hp] at h
    cases h

end WriteAheadLog

end Unlearning
