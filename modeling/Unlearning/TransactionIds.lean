import Unlearning.Log
import Unlearning.TornTail

/-!
# Transaction ids and pending intents (`api/wal.py`)

In a run of whole appends, one instance of the log at a time, in which BEGINs take the next id of
the counter and COMMITs are of ids that an earlier BEGIN returned:

* the ids of the BEGINs ascend in file order, across restarts too, although a restart forgets the
  ids of calls that raised (`Numbered`): the counter is never below an id in the file;
* so the dictionary of `uncommitted_deletes` holds every BEGIN, and its order by id is the order
  of the file (`uncommittedDeletes_of_ascending`).
-/

namespace Unlearning

/-! ## What `uncommitted_deletes` returns -/

open BeginDeleteRecord (transactionId)

/-- The ids of the BEGINs ascend in file order. -/
def AscendingIds (records : List Record) : Prop :=
  ((begins records).map transactionId).Pairwise (· < ·)

/-- A BEGIN with an id above all others. -/
theorem AscendingIds.concat_begin {records : List Record} {b : BeginDeleteRecord}
    (h : AscendingIds records) (hlt : ∀ b' ∈ begins records, b'.transactionId < b.transactionId) :
    AscendingIds (records ++ [.begin b]) := by
  rw [AscendingIds, begins_concat_begin, List.map_append, List.pairwise_append]
  refine ⟨h, List.pairwise_singleton _ _, ?_⟩
  intro tx htx tx' htx'
  obtain ⟨b', hb', rfl⟩ := List.mem_map.mp htx
  rw [List.map_cons, List.map_nil, List.mem_singleton] at htx'
  rw [htx']
  exact hlt b' hb'

/-- With distinct ids the keys of the dictionary are the ids. -/
theorem keys_beginDict_perm {l : List BeginDeleteRecord} (hnodup : (l.map transactionId).Nodup) :
    (beginDict l).keys.Perm (l.map transactionId) := by
  induction l using List.reverseRecOn with
  | nil => exact .refl _
  | append_singleton l b ih =>
    rw [List.map_append, List.map_cons, List.map_nil] at hnodup ⊢
    obtain ⟨hl, -, hapart⟩ := List.nodup_append.mp hnodup
    have ih := ih hl
    have hfresh : b.transactionId ∉ (beginDict l).keys := fun hmem =>
      hapart _ (ih.mem_iff.mp hmem) _ List.mem_cons_self rfl
    rw [beginDict_concat, AList.keys_insert, List.erase_of_not_mem hfresh]
    exact (ih.cons _).trans (List.perm_append_singleton _ _).symm

/-- **The pending deletes of a log with ascending ids** are its BEGINs without a COMMIT, in file
order. -/
theorem uncommittedDeletes_of_ascending {records : List Record} (h : AscendingIds records) :
    uncommittedDeletes records =
      (begins records).filter fun b => b.transactionId ∉ committed records := by
  have hnodup : ((begins records).map transactionId).Nodup := h.imp Nat.ne_of_lt
  have hsorted : (beginDict (begins records)).keys.insertionSort (· ≤ ·) =
      (begins records).map transactionId :=
    ((List.perm_insertionSort _ _).trans (keys_beginDict_perm hnodup)).eq_of_pairwise'
      (List.pairwise_insertionSort _ _) (h.imp Nat.le_of_lt)
  rw [uncommittedDeletes_eq, hsorted, List.filter_map, List.filterMap_map]
  -- every BEGIN that is left is found under its id
  have hfound : ∀ b ∈ (begins records).filter
      ((fun tx => decide (tx ∉ committed records)) ∘ transactionId),
      ((beginDict (begins records)).lookup ∘ transactionId) b = some b :=
    fun b hb => lookup_beginDict hnodup (List.mem_filter.mp hb).1
  rw [List.filterMap_congr hfound, List.filterMap_some]
  rfl

namespace LogWorld

/-! ## Runs -/

/-- The events of the run: constructions, BEGINs without an explicit id, COMMITs of ids that a BEGIN
returned, and no crash inside an append. -/
def Orderly (w : LogWorld) : LogEvent → Prop
  | .reopen => True
  | .append (.beginDelete _ _ tx _) => tx = none
  | .append (.commit tx _) => ∃ b ∈ begins w.returned, (b.transactionId : ℤ) = tx
  | .crash _ _ => False

/-- Every event of the run is orderly where it happens. -/
def AllOrderly (H : Sha256) : LogWorld → List LogEvent → Prop
  | _, [] => True
  | w, e :: events => w.Orderly e ∧ AllOrderly H (w.step H e) events

/-- The log of the open instance. -/
def log (w : LogWorld) (counter : ℤ) : Log := ⟨w.returned, counter⟩

/-- **The invariant.** The file is its returned records, the ids of its BEGINs ascend, every COMMIT
is of one of them, and the counter of the open instance is at least each of them. -/
structure Numbered (H : Sha256) (w : LogWorld) : Prop where
  valid : ∀ r ∈ w.returned, r.Valid H
  whole : w.Whole
  ascending : AscendingIds w.returned
  begun : ∀ tx ∈ committed w.returned, ∃ b ∈ begins w.returned, b.transactionId = tx
  counter : ∀ c, w.instance? = some c → ∀ b ∈ begins w.returned, (b.transactionId : ℤ) ≤ c

section Steps

variable {H : Sha256} {w : LogWorld}

theorem numbered_fresh : Numbered H fresh where
  valid _ hr := absurd hr List.not_mem_nil
  whole := rfl
  ascending := List.Pairwise.nil
  begun _ htx := absurd htx List.not_mem_nil
  counter _ hc := by cases hc

theorem Numbered.represents (h : Numbered H w) (counter : ℤ) :
    Log.Represents H ⟨w.file, counter⟩ (w.log counter) := ⟨h.whole, h.valid, rfl⟩

/-- What a representing log looks like from the outside. -/
theorem Numbered.of_represents {wal : WriteAheadLog} {records : List Record} {c : ℤ}
    (h : Log.Represents H wal ⟨records, c⟩) (hasc : AscendingIds records)
    (hbegun : ∀ tx ∈ committed records, ∃ b ∈ begins records, b.transactionId = tx)
    (hle : ∀ b ∈ begins records, (b.transactionId : ℤ) ≤ c) :
    Numbered H ⟨wal.file, some wal.txCounter, records⟩ where
  valid := h.valid
  whole := h.file
  ascending := hasc
  begun := hbegun
  counter c' hc' b hb := by
    obtain rfl := Option.some.inj hc'
    rw [h.counter]
    exact hle b hb

/-- A construction recovers a counter that no id exceeds. -/
theorem Numbered.reopen (h : Numbered H w) : Numbered H (w.step H .reopen) := by
  obtain ⟨wal, hopen, hrep⟩ := Log.represents_openLog (h.represents 0)
  have hstep : w.step H .reopen = ⟨w.file, some wal.txCounter, w.returned⟩ := by
    rw [step, hopen]
    rfl
  rw [hstep]
  refine ⟨h.valid, h.whole, h.ascending, h.begun, fun c hc b hb => ?_⟩
  obtain rfl := Option.some.inj hc
  rw [hrep.counter]
  exact le_foldl_max_tx.2 _ (mem_begins.mp hb)

theorem step_append_ok {call : AppendCall} {c : ℤ} {r : Record} {wal : WriteAheadLog}
    (hi : w.instance? = some c) (h : call.run H ⟨w.file, c⟩ = (.ok r, wal)) :
    w.step H (.append call) = ⟨wal.file, some wal.txCounter, w.returned ++ [r]⟩ := by
  simp only [step, hi, h]

theorem step_append_error {call : AppendCall} {c : ℤ} {e : WalError} {wal : WriteAheadLog}
    (hi : w.instance? = some c) (h : call.run H ⟨w.file, c⟩ = (.error e, wal)) :
    w.step H (.append call) = ⟨wal.file, some wal.txCounter, w.returned⟩ := by
  simp only [step, hi, h]

/-- A BEGIN gets an id above all others, or the call raises and only the counter may move. -/
theorem Numbered.begin (h : Numbered H w) (node m ts : ℤ) :
    Numbered H (w.step H (.append (.beginDelete node m none ts))) := by
  rcases hi : w.instance? with _ | c
  · simpa only [step, hi] using h
  · have hle := h.counter c hi
    obtain ⟨hres, hrep⟩ := Log.represents_appendBeginDelete (h.represents c) node m ts
    rcases hcall : (WriteAheadLog.mk w.file c).appendBeginDelete H node m none ts with ⟨r, wal⟩
    rw [hcall] at hres hrep
    rcases Log.appendBeginDelete_cases (H := H) node m ts (w.log c) with
      ⟨b, htx, -, -, -, -, -, -, heq⟩ | ⟨e, c', hc, -, heq⟩
    · rw [heq] at hres hrep
      have hrun : AppendCall.run H ⟨w.file, c⟩ (.beginDelete node m none ts) =
          (.ok (.begin b), wal) := by
        rw [AppendCall.run, hcall, show r = .ok b from hres]
        rfl
      rw [step_append_ok hi hrun]
      refine .of_represents hrep (h.ascending.concat_begin fun b' hb' => ?_) ?_ ?_
      · have hlast := hle b' hb'
        have hid : (b.transactionId : ℤ) = c + 1 := htx
        omega
      · rw [begins_concat_begin, committed_concat_begin]
        intro tx htx'
        obtain ⟨b', hb', hid⟩ := h.begun tx htx'
        exact ⟨b', List.mem_append_left _ hb', hid⟩
      · rw [begins_concat_begin]
        intro b' hb'
        rcases List.mem_append.mp hb' with hold | hnew
        · exact (hle b' hold).trans (Int.le_add_one le_rfl)
        · rw [List.mem_singleton.mp hnew]
          exact htx.le
    · rw [heq] at hres hrep
      have hrun : AppendCall.run H ⟨w.file, c⟩ (.beginDelete node m none ts) = (.error e, wal) := by
        rw [AppendCall.run, hcall, show r = .error e from hres]
        rfl
      rw [step_append_error hi hrun]
      exact .of_represents hrep h.ascending h.begun fun b hb => (hle b hb).trans hc

/-- A COMMIT of an id in the file changes no BEGIN. -/
theorem Numbered.commit (h : Numbered H w) {tx : ℤ} (ts : ℤ)
    (htx : ∃ b ∈ begins w.returned, (b.transactionId : ℤ) = tx) :
    Numbered H (w.step H (.append (.commit tx ts))) := by
  rcases hi : w.instance? with _ | c
  · simpa only [step, hi] using h
  · obtain ⟨hres, hrep⟩ := Log.represents_appendCommit (h.represents c) tx ts
    rcases hcall : (WriteAheadLog.mk w.file c).appendCommit H tx ts with ⟨r, wal⟩
    rw [hcall] at hres hrep
    rcases Log.appendCommit_cases (H := H) tx ts (w.log c) with ⟨d, hid, heq⟩ | ⟨e, heq⟩
    · rw [heq] at hres hrep
      have hrun : AppendCall.run H ⟨w.file, c⟩ (.commit tx ts) = (.ok (.commit d), wal) := by
        rw [AppendCall.run, hcall, show r = .ok d from hres]
        rfl
      rw [step_append_ok hi hrun]
      refine .of_represents hrep ?_ ?_ ?_
      · rw [AscendingIds, begins_concat_commit]
        exact h.ascending
      · rw [begins_concat_commit, committed_concat_commit]
        intro tx' htx'
        rcases List.mem_append.mp htx' with hold | hnew
        · exact h.begun tx' hold
        · obtain ⟨b, hb, hbtx⟩ := htx
          rw [List.mem_singleton.mp hnew]
          exact ⟨b, hb, by exact_mod_cast hbtx.trans hid.symm⟩
      · rw [begins_concat_commit]
        exact h.counter c hi
    · rw [heq] at hres hrep
      have hrun : AppendCall.run H ⟨w.file, c⟩ (.commit tx ts) = (.error e, wal) := by
        rw [AppendCall.run, hcall, show r = .error e from hres]
        rfl
      rw [step_append_error hi hrun]
      exact .of_represents hrep h.ascending h.begun (h.counter c hi)

/-- **Step lemma.** -/
theorem Numbered.step (h : Numbered H w) {e : LogEvent} (he : w.Orderly e) :
    Numbered H (w.step H e) := by
  match e, he with
  | .reopen, _ => exact h.reopen
  | .append (.beginDelete node m _ ts), rfl => exact h.begin node m ts
  | .append (.commit _ ts), htx => exact h.commit ts htx

/-- **Run lemma.** -/
theorem Numbered.run {events : List LogEvent} (h : Numbered H w) (hrun : AllOrderly H w events) :
    Numbered H (w.run H events) := by
  induction events generalizing w with
  | nil => exact h
  | cons e events ih => exact ih (h.step hrun.1) hrun.2

end Steps

/-- **Transaction ids and pending intents.** In every state that an orderly run reaches, the file
can be constructed on and scanned, its records are those that were returned, the ids of its BEGINs
ascend strictly in file order, and `uncommitted_deletes` returns the BEGINs whose id has no
COMMIT, in file order. -/
theorem pending_intents_exact (H : Sha256) (events : List LogEvent)
    (h : AllOrderly H fresh events) :
    (∃ wal, WriteAheadLog.openLog H (run H fresh events).file = .ok wal) ∧
      ∃ records, iterRecords H (run H fresh events).file = .ok records ∧
        records = (run H fresh events).returned ∧
        ((begins records).map transactionId).Pairwise (· < ·) ∧
        uncommittedDeletes records =
          (begins records).filter fun b => b.transactionId ∉ committed records := by
  have hend := numbered_fresh.run h
  obtain ⟨wal, hopen, -⟩ := Log.represents_openLog (hend.represents 0)
  exact ⟨⟨wal, hopen⟩, (run H fresh events).returned,
    Log.iterRecords_of_represents (hend.represents 0), rfl, hend.ascending,
    uncommittedDeletes_of_ascending hend.ascending⟩

/-- Two BEGINs, a COMMIT of the second, a restart and a third BEGIN. -/
theorem pending_intents_exact_restart :
    let events : List LogEvent := [.reopen, .append (.beginDelete 3 16 none 0),
      .append (.beginDelete 4 16 none 0), .append (.commit 2 0), .reopen,
      .append (.beginDelete 5 16 none 0)]
    AllOrderly .hashlib fresh events ∧
      ∃ records, iterRecords .hashlib (run .hashlib fresh events).file = .ok records ∧
        records = (run .hashlib fresh events).returned ∧
        ((begins records).map transactionId).Pairwise (· < ·) ∧
        uncommittedDeletes records =
          (begins records).filter fun b => b.transactionId ∉ committed records := by
  have hrun : AllOrderly .hashlib fresh [.reopen, .append (.beginDelete 3 16 none 0),
      .append (.beginDelete 4 16 none 0), .append (.commit 2 0), .reopen,
      .append (.beginDelete 5 16 none 0)] :=
    ⟨trivial, rfl, rfl, ⟨_, .tail _ (.head _), rfl⟩, trivial, rfl, trivial⟩
  exact ⟨hrun, (pending_intents_exact _ _ hrun).2⟩

end LogWorld

end Unlearning
