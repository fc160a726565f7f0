import Unlearning.Wal

/-!
# The log file across crashes and reopenings

A `LogWorld` is the log file, the instance that has it open (if any) and the
records whose append returned. A crash may leave any proper prefix of the
record being appended; reopening constructs a new `WriteAheadLog` on the same
path.

The scan stops silently at a torn tail, so a torn file still yields exactly
the returned records (`scanStep_torn`). Nothing truncates the tail, though:
bytes appended after a reopening land behind it and are read misaligned. Hence

* `tornTails_not_survivable` — one torn byte followed by one append makes
  `iter_records`, and every later construction, raise;
* `survives_of_careful` — as long as bytes are only ever added to a file that
  ends with a whole record, construction and scan never raise and the scan
  yields exactly the records whose append returned.
-/

namespace Unlearning

/-- A call of one of the two append functions. -/
inductive AppendCall : Type where
  | beginDelete (targetNodeId maxM : ℤ) (transactionId : Option ℤ) (timestamp : ℤ) : AppendCall
  | commit (transactionId timestamp : ℤ) : AppendCall

/-- Run the call on an open log. -/
def AppendCall.run (H : Sha256) (wal : WriteAheadLog) :
    AppendCall → Except WalError Record × WriteAheadLog
  | beginDelete node m tx ts =>
    let (r, wal') := wal.appendBeginDelete H node m tx ts
    (Record.begin <$> r, wal')
  | commit tx ts =>
    let (r, wal') := wal.appendCommit H tx ts
    (Record.commit <$> r, wal')

/-- What can happen to a log file. -/
inductive LogEvent : Type where
  /-- an append call on the open instance, returning or raising -/
  | append (call : AppendCall) : LogEvent
  /-- the process dies inside the call; up to `kept` bytes of the record, never
  all of it, are in the file -/
  | crash (call : AppendCall) (kept : ℕ) : LogEvent
  /-- a new `WriteAheadLog` on the same path -/
  | reopen : LogEvent

/-- The file, the counter of the instance that has it open, and the records
whose append returned, in append order. -/
structure LogWorld where
  file : List UInt8
  instance? : Option ℤ
  returned : List Record

namespace LogWorld

variable (H : Sha256)

/-- Before the first construction: no file, no instance. -/
def fresh : LogWorld := ⟨[], none, []⟩

/-- What an event leaves of the world. -/
def step (w : LogWorld) : LogEvent → LogWorld
  | .append call =>
    match w.instance? with
    | none => w
    | some counter =>
      match call.run H ⟨w.file, counter⟩ with
      | (.ok r, wal) => ⟨wal.file, some wal.txCounter, w.returned ++ [r]⟩
      | (.error _, wal) => ⟨wal.file, some wal.txCounter, w.returned⟩
  | .crash call kept =>
    match w.instance? with
    | none => w
    | some counter =>
      let blob := (call.run H ⟨w.file, counter⟩).2.file.drop w.file.length
      ⟨w.file ++ blob.dropLast.take kept, none, w.returned⟩
  | .reopen => { w with instance? := (WriteAheadLog.openLog H w.file).toOption.map (·.txCounter) }

/-- What events leave, one after the other. -/
def run (w : LogWorld) (events : List LogEvent) : LogWorld := events.foldl (step H) w

/-- Construction and scan do not raise, and the scan yields exactly the records
whose append returned. -/
def Survives (w : LogWorld) : Prop :=
  (∃ wal, WriteAheadLog.openLog H w.file = .ok wal) ∧ iterRecords H w.file = .ok w.returned

/-- The file is its returned records and nothing else: no torn tail. -/
def Whole (w : LogWorld) : Prop := w.file = w.returned.flatMap Record.encode

/-- Every event of the run that adds bytes finds a file without a torn tail. -/
def Careful : LogWorld → List LogEvent → Prop
  | _, [] => True
  | w, e :: events => ((w.step H e).file ≠ w.file → w.Whole) ∧ Careful (w.step H e) events

end LogWorld

/-! ## One append -/

/-- An append call either raises and leaves the file alone, or adds exactly the
bytes of the valid record it returns. -/
theorem AppendCall.run_cases (H : Sha256) (wal : WriteAheadLog) (call : AppendCall) :
    (∃ r wal', call.run H wal = (.ok r, wal') ∧ r.Valid H ∧ wal'.file = wal.file ++ r.encode) ∨
      ∃ e wal', call.run H wal = (.error e, wal') ∧ wal'.file = wal.file := by
  cases call with
  | beginDelete node m tx ts =>
    rcases h : wal.appendBeginDelete H node m tx ts with ⟨e | r, wal'⟩
    · exact Or.inr ⟨e, wal', by simp only [run, h]; rfl,
        WriteAheadLog.appendBeginDelete_error h⟩
    · obtain ⟨hvalid, hfile⟩ := WriteAheadLog.appendBeginDelete_ok h
      exact Or.inl ⟨.begin r, wal', by simp only [run, h]; rfl, hvalid, hfile⟩
  | commit tx ts =>
    rcases h : wal.appendCommit H tx ts with ⟨e | r, wal'⟩
    · exact Or.inr ⟨e, wal', by simp only [run, h]; rfl, WriteAheadLog.appendCommit_error h⟩
    · obtain ⟨hvalid, hfile⟩ := WriteAheadLog.appendCommit_ok h
      exact Or.inl ⟨.commit r, wal', by simp only [run, h]; rfl, hvalid, hfile⟩

theorem Record.encode_ne_nil (r : Record) : r.encode ≠ [] := by
  cases r <;> simp [encode, magicBegin, magicCommit]

/-! ## The file invariant

The returned records are valid and the file is their encoding followed by a
tail the scan stops at: empty, or a torn record. -/

namespace LogWorld

variable {H : Sha256}

/-- The file is the returned records followed by a tail the scan stops at. -/
def Sound (H : Sha256) (w : LogWorld) : Prop :=
  (∀ r ∈ w.returned, r.Valid H) ∧
    ∃ tail, w.file = w.returned.flatMap Record.encode ++ tail ∧ scanStep H tail = .stop

theorem step_reopen_file (w : LogWorld) : (w.step H .reopen).file = w.file := rfl

theorem sound_fresh : Sound H fresh :=
  ⟨fun _ hr => absurd hr List.not_mem_nil, [], rfl, scanStep_nil⟩

/-- A sound file survives: construction and scan read exactly the returned
records. -/
theorem Sound.survives {w : LogWorld} (hw : Sound H w) : Survives H w := by
  obtain ⟨hvalid, tail, hfile, htail⟩ := hw
  have hiter : iterRecords H w.file = .ok w.returned := by
    rw [hfile]
    exact iterRecords_append hvalid htail
  refine ⟨⟨⟨w.file, w.returned.foldl (fun m r => max m (r.transactionId : ℤ)) 0⟩, ?_⟩, hiter⟩
  rw [WriteAheadLog.openLog, recoverMaxTxId, hiter]
  rfl

/-- **Step lemma**: an event that adds bytes only to a file without torn tail
keeps the file sound. -/
theorem Sound.step {w : LogWorld} (hw : Sound H w) {e : LogEvent}
    (hcare : (w.step H e).file ≠ w.file → w.Whole) : Sound H (w.step H e) := by
  have hsame : ∀ instance?, Sound H { w with instance? := instance? } := fun _ => hw
  cases e with
  | reopen => exact hsame _
  | append call =>
    rcases hi : w.instance? with _ | counter
    · simp only [LogWorld.step, hi]
      exact hw
    · rcases call.run_cases H ⟨w.file, counter⟩ with
        ⟨r, wal', hrun, hr, hfile⟩ | ⟨e, wal', hrun, hfile⟩
      · -- the whole record went to the end of a file without torn tail
        simp only [LogWorld.step, hi, hrun] at hcare ⊢
        have hwhole : w.Whole := hcare (by
          rw [hfile]
          simpa using Record.encode_ne_nil r)
        refine ⟨?_, [], ?_, scanStep_nil⟩
        · intro r' hr'
          rcases List.mem_append.mp hr' with hr' | hr'
          · exact hw.1 r' hr'
          · rw [List.mem_singleton.mp hr']
            exact hr
        · rw [hfile, hwhole, List.flatMap_append, List.flatMap_singleton, List.append_nil]
      · simp only [LogWorld.step, hi, hrun, hfile]
        exact hw
  | crash call kept =>
    rcases hi : w.instance? with _ | counter
    · simp only [LogWorld.step, hi]
      exact hw
    · rcases call.run_cases H ⟨w.file, counter⟩ with
        ⟨r, wal', hrun, hr, hfile⟩ | ⟨e, wal', hrun, hfile⟩
      · simp only [LogWorld.step, hi, hrun, hfile, List.drop_left] at hcare ⊢
        by_cases hkept : r.encode.dropLast.take kept = []
        · rw [hkept, List.append_nil]
          exact hsame none
        · -- a non-empty proper prefix of the record: the scan stops there
          have hwhole : w.Whole := hcare (by simpa using hkept)
          refine ⟨hw.1, r.encode.dropLast.take kept, by rw [hwhole], ?_⟩
          refine scanStep_torn hr ((List.take_prefix _ _).trans (List.dropLast_prefix _)) ?_
          have hpos : 0 < r.encode.length := List.length_pos_of_ne_nil (Record.encode_ne_nil r)
          rw [List.length_take, List.length_dropLast]
          omega
      · simp only [LogWorld.step, hi, hrun, hfile, List.drop_length, List.dropLast_nil,
          List.take_nil, List.append_nil]
        exact hsame none

/-- **Run lemma**: a careful run keeps the file sound. -/
theorem Sound.run : ∀ (events : List LogEvent) {w : LogWorld},
    Sound H w → Careful H w events → Sound H (w.run H events)
  | [], _, hw, _ => hw
  | _ :: events, _, hw, hcare => Sound.run events (hw.step hcare.1) hcare.2

/-- **Torn tails are survivable while nothing is appended behind them.** In
every run of appends, crashes and reopenings in which bytes are added only to a
file that ends with a whole record, every state reached can be reopened and
scanned without raising, and the scan yields exactly the records whose append
returned, in append order. -/
theorem survives_of_careful (H : Sha256) (events : List LogEvent)
    (hcare : Careful H fresh events) : Survives H (run H fresh events) :=
  (Sound.run events sound_fresh hcare).survives

/-- A run that meets the condition: a BEGIN is appended, a crash leaves five
bytes of a second one, and the log is reopened. -/
theorem survives_torn_begin :
    let events : List LogEvent := [.reopen, .append (.beginDelete 3 16 none 0),
      .crash (.beginDelete 4 16 none 0) 5, .reopen]
    Careful .hashlib fresh events ∧ Survives .hashlib (run .hashlib fresh events) := by
  have hcare : Careful .hashlib fresh [.reopen, .append (.beginDelete 3 16 none 0),
      .crash (.beginDelete 4 16 none 0) 5, .reopen] :=
    ⟨fun _ => rfl, fun _ => rfl, fun _ => rfl, fun h => absurd (step_reopen_file _) h,
      trivial⟩
  exact ⟨hcare, survives_of_careful _ _ hcare⟩

/-! ## The defect

A torn tail of one to four bytes followed by any record is never read again:
the byte behind the tail is the record's `W`, which fits no header position
from one to four. -/

/-- A header with `W` at one of the positions one to four is refused. -/
theorem scanStep_misaligned {bs : List UInt8} {k : ℕ} (hk : 1 ≤ k) (hk4 : k ≤ 4)
    (hlen : 8 ≤ bs.length) (hW : bs[k]? = some 0x57) :
    ∃ e, scanStep H bs = .fault e := by
  have hk' : k = 1 ∨ k = 2 ∨ k = 3 ∨ k = 4 := by omega
  match bs, hlen with
  | b0 :: b1 :: b2 :: b3 :: b4 :: b5 :: b6 :: b7 :: rest, _ =>
    have hbegin : ¬ ([b0, b1, b2, b3] = magicBegin ∧ b4 = recBeginDelete) := by
      rintro ⟨hmagic, htype⟩
      simp only [magicBegin, recBeginDelete, List.cons.injEq, and_true] at hmagic htype
      obtain ⟨-, rfl, rfl, rfl⟩ := hmagic
      subst htype
      rcases hk' with rfl | rfl | rfl | rfl <;> simp at hW
    have hcommit : ¬ ([b0, b1, b2, b3] = magicCommit ∧ b4 = recCommit) := by
      rintro ⟨hmagic, htype⟩
      simp only [magicCommit, recCommit, List.cons.injEq, and_true] at hmagic htype
      obtain ⟨-, rfl, rfl, rfl⟩ := hmagic
      subst htype
      rcases hk' with rfl | rfl | rfl | rfl <;> simp at hW
    refine ⟨.unknownMagic [b0, b1, b2, b3] b4, ?_⟩
    have hhead : List.take 8 (b0 :: b1 :: b2 :: b3 :: b4 :: b5 :: b6 :: b7 :: rest) =
        [b0, b1, b2, b3, b4, b5, b6, b7] := rfl
    have hlen8 : ¬ [b0, b1, b2, b3, b4, b5, b6, b7].length < 8 := by simp
    simp only [scanStep, hhead, if_neg hlen8]
    exact (if_neg hbegin).trans (if_neg hcommit)

/-- **A short tear poisons the log**: with one to four bytes of a record torn
behind the whole records, any further append makes the scan raise for good. -/
theorem iterRecords_behind_tear {records : List Record} {r r' : Record} {k : ℕ}
    (hvalid : ∀ s ∈ records, s.Valid H) (hr : r.Valid H) (hr' : r'.Valid H)
    (hk : 1 ≤ k) (hk4 : k ≤ 4) (rest : List UInt8) :
    ∃ e, iterRecords H
      (records.flatMap Record.encode ++ (r.encode.take k ++ r'.encode ++ rest)) = .error e := by
  have hsize := Record.le_length_encode hr
  have hsize' := Record.le_length_encode hr'
  have hlenk : (r.encode.take k).length = k := by
    rw [List.length_take]
    omega
  have hlen : k + 56 ≤ (r.encode.take k ++ r'.encode ++ rest).length := by
    simp only [List.length_append, hlenk]
    omega
  have hW : (r.encode.take k ++ r'.encode ++ rest)[k]? = some 0x57 := by
    rw [List.append_assoc, List.getElem?_append_right hlenk.le, hlenk, Nat.sub_self]
    cases r' <;> rfl
  obtain ⟨e, hfault⟩ := scanStep_misaligned (H := H) hk hk4 (by omega) hW
  obtain ⟨fuel, hfuel, hiter⟩ := iterRecords_flatMap_append
    (r.encode.take k ++ r'.encode ++ rest) hvalid
  obtain ⟨fuel, rfl⟩ : ∃ f, fuel = f + 1 := ⟨fuel - 1, by omega⟩
  refine ⟨e, ?_⟩
  rw [hiter, scanRecords, hfault]
  rfl

/-- **Torn tails are not survivable in general**: one byte of a BEGIN left by a
crash, a reopening and one more append, and the log no longer scans. -/
theorem tornTails_not_survivable :
    ¬ ∃ H : Sha256, ∀ events : List LogEvent, Survives H (run H fresh events) := by
  rintro ⟨H, hall⟩
  obtain ⟨-, hiter⟩ := hall [.reopen, .crash (.beginDelete 0 1 none 0) 1, .reopen,
    .append (.beginDelete 0 1 none 0)]
  let r : Record := .begin ⟨0, 1, 0, 1,
    H.digest (leBytes 8 0 ++ leBytes 8 1 ++ leBytes 8 0 ++ leBytes 4 1)⟩
  have hr : r.Valid H := ⟨by norm_num, by norm_num, by norm_num, by norm_num, rfl⟩
  have hfile : (run H fresh [.reopen, .crash (.beginDelete 0 1 none 0) 1, .reopen,
      .append (.beginDelete 0 1 none 0)]).file = r.encode.take 1 ++ r.encode ++ [] := by
    rw [List.append_nil]
    rfl
  obtain ⟨e, he⟩ := iterRecords_behind_tear
    (fun _ hs => absurd hs List.not_mem_nil) hr hr (le_refl 1) (by decide) []
  rw [List.flatMap_nil, List.nil_append] at he
  rw [hfile, he] at hiter
  cases hiter

end LogWorld

end Unlearning
