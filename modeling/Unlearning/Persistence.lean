import Unlearning.Erase
import Unlearning.IndexFile
import Unlearning.Log
import Unlearning.Prog

/-!
# The persistence engine (`api/persistence.py`)

The engine's methods as programs over a shared store, and the world they run in.

* `Op` / `exec`: the atomic operations — WAL appends, native calls, the steps on
  `index.bin.tmp` and `index.bin`, the `_io_lock`. The environment decides lock
  contention, the clock and I/O failures.
* The programs, in the words of the source: `atomicFlushIndex`,
  `hardDeleteAndHeal`, `recoverUncommitted`, `replayOne`, `bootstrap`,
  `saveInitialCheckpoint`.
* `World`: any number of deletes interleaved step by step, crashes at any point,
  restarts whose `bootstrap` runs alone and may crash too, and ingests.

An index file holds the snapshot that `save_to_file` wrote: `IndexFile` shows
that reading it back gives the same index. The log is a list of records: `Log`
shows that the byte file behaves the same.
-/

namespace Unlearning

/-! ## State -/

/-- An index file; `torn` is what a failed save leaves. -/
inductive IndexFile : Type where
  | absent : IndexFile
  | torn : IndexFile
  | snapshot (ix : Index) : IndexFile

/-- What the engine's methods raise. -/
inductive PyError : Type where
  | wal (e : WalError) : PyError
  /-- a translated C++ exception; `LockContentionError` for a lock timeout -/
  | native (e : NativeError) : PyError
  /-- `TypeError`: the binding refuses an argument -/
  | typeError : PyError
  | runtimeError (message : String) : PyError
  | osError : PyError

/-- `LockContentionError` -/
def PyError.isContention : PyError → Bool
  | native e => e.kind = .lockTimeout
  | _ => false

/-- The default index, the data directory and the engine's own fields. -/
structure Store where
  live : Index
  bin : IndexFile
  tmp : IndexFile
  log : Log
  ioLock : Option ℕ
  /-- history: the targets requested since the last checkpointed load -/
  asked : List ℤ

/-- What the environment decides about one operation. -/
structure Env where
  native : NativeEnv
  clock : UInt64
  ioFails : Bool

/-- `HardDeleteResult` -/
structure HardDeleteResult where
  success : Bool
  nodeId : ℤ
  transactionId : ℕ
  message : Option String
  bytesWiped : ℕ
  recovered : Bool
  deriving DecidableEq

/-- The dictionary `bootstrap` returns, paths aside. -/
structure BootReport where
  indexLoaded : Bool
  recoveredTransactions : List HardDeleteResult
  deriving DecidableEq

/-! ## Operations -/

/-- The atomic operations of the engine. -/
inductive Op : Type where
  | appendBeginDelete (nodeId maxM : ℤ) : Op
  | appendCommit (transactionId : ℤ) : Op
  | eraseNode (nodeId maxM : ℤ) : Op
  | acquireIo : Op
  | releaseIo : Op
  | unlinkTmp : Op
  | saveIndex : Op
  | fsyncTmp : Op
  | replaceIndex : Op
  | indexPresent : Op
  | loadIndexFile : Op
  | uncommittedDeletes : Op
  | isLoaded : Op

/-- The results of the operations. -/
abbrev Res : Op → Type
  | .appendBeginDelete _ _ => BeginDeleteRecord
  | .appendCommit _ => CommitRecord
  | .eraseNode _ _ => ErasureResult
  | .indexPresent => Bool
  | .uncommittedDeletes => List BeginDeleteRecord
  | .isLoaded => Bool
  | _ => Unit

/-- The arguments of `erase_node(int64, int)` that the binding accepts. -/
def bindable (nodeId maxM : ℤ) : Bool :=
  decide (-2 ^ 63 ≤ nodeId ∧ nodeId < 2 ^ 63 ∧ -2 ^ 31 ≤ maxM ∧ maxM < 2 ^ 31)

/-- The index `load_from_file` makes of a saved one. -/
def Index.owned (ix : Index) : Index := { ix with ownsData := true }

section Exec

variable (H : Sha256) (D : Type) [FloatArith D]

/-- An append: `struct.pack` may raise, then the write may fail. -/
def execBegin (nodeId maxM : ℤ) (env : Env) (s : Store) :
    Except PyError BeginDeleteRecord × Store :=
  match s.log.appendBeginDelete H nodeId maxM env.clock.toNat with
  | (.error e, log) => (.error (.wal e), { s with log := log })
  | (.ok r, log) =>
    if env.ioFails then
      (.error .osError, { s with log := { s.log with txCounter := log.txCounter } })
    else (.ok r, { s with log := log })

/-- `append_commit` -/
def execCommit (transactionId : ℤ) (env : Env) (s : Store) : Except PyError CommitRecord × Store :=
  match s.log.appendCommit H transactionId env.clock.toNat with
  | (.error e, _) => (.error (.wal e), s)
  | (.ok r, log) => if env.ioFails then (.error .osError, s) else (.ok r, { s with log := log })

/-- `hnsw_healer.erase_node` -/
def execErase (nodeId maxM : ℤ) (env : Env) (s : Store) : Except PyError ErasureResult × Store :=
  if !bindable nodeId maxM then (.error .typeError, s)
  else match s.live.eraseNode D env.native nodeId maxM with
    | (.error e, ix) => (.error (.native e), { s with live := ix })
    | (.ok r, ix) => (.ok r, { s with live := ix })

/-- `hnsw_healer.save_index(index.bin.tmp)` -/
def execSave (env : Env) (s : Store) : Except PyError Unit × Store :=
  match s.live.saveToFile with
  | .error e => (.error (.native e), s)
  | .ok _ =>
    if env.ioFails then
      (.error (.native ⟨.runtimeError, "save_to_file: write failed"⟩), { s with tmp := .torn })
    else (.ok (), { s with tmp := .snapshot s.live.owned })

/-- `open` and `fsync` of the temporary file. -/
def execFsync (env : Env) (s : Store) : Except PyError Unit × Store :=
  match s.tmp with
  | .absent => (.error .osError, s)
  | _ => if env.ioFails then (.error .osError, s) else (.ok (), s)

/-- `os.replace` -/
def execReplace (env : Env) (s : Store) : Except PyError Unit × Store :=
  match s.tmp with
  | .absent => (.error .osError, s)
  | file =>
    if env.ioFails then (.error .osError, s)
    else (.ok (), { s with bin := file, tmp := .absent })

/-- `hnsw_healer.load_index_file(index.bin)` -/
def execLoad (s : Store) : Except PyError Unit × Store :=
  match s.bin with
  | .absent => (.error (.native ⟨.runtimeError, "load_from_file: cannot open"⟩), s)
  | .torn => (.error (.native ⟨.runtimeError, "load_from_file: truncated or corrupt file"⟩), s)
  | .snapshot ix => (.ok (), { s with live := ix })

/-- One operation of thread `i`. Only `acquireIo` can be blocked. -/
def exec (i : ℕ) : (o : Op) → Env → Store → Option (Except PyError (Res o) × Store)
  | .appendBeginDelete nodeId maxM, env, s => some (execBegin H nodeId maxM env s)
  | .appendCommit tx, env, s => some (execCommit H tx env s)
  | .eraseNode nodeId maxM, env, s => some (execErase D nodeId maxM env s)
  | .acquireIo, _, s =>
    if s.ioLock.isNone then some (.ok (), { s with ioLock := some i }) else none
  | .releaseIo, _, s => some (.ok (), { s with ioLock := none })
  | .unlinkTmp, env, s =>
    if env.ioFails then some (.error .osError, s) else some (.ok (), { s with tmp := .absent })
  | .saveIndex, env, s => some (execSave env s)
  | .fsyncTmp, env, s => some (execFsync env s)
  | .replaceIndex, env, s => some (execReplace env s)
  | .indexPresent, _, s => some (.ok (match s.bin with | .absent => false | _ => true), s)
  | .loadIndexFile, _, s => some (execLoad s)
  | .uncommittedDeletes, _, s => some (.ok (uncommittedDeletes s.log.records), s)
  | .isLoaded, _, s => some (.ok s.live.isLoaded, s)

/-- The engine's machine. -/
def machine : Machine Res PyError Env Store := ⟨exec H D⟩

end Exec

/-! ## The methods -/

/-- A method of the engine. -/
abbrev Method (α : Type) := Prog Res PyError α

/-- One operation, as a method. -/
abbrev perform (o : Op) : Method (Res o) := Prog.call o

section Methods

open Prog

/-- `with_lock_retry`, after the first attempt: `k` more on contention. -/
def lockRetry {α : Type} : ℕ → Method α → Method α
  | 0, p => p
  | k + 1, p => do
    match ← p.attempt with
    | .ok a => ret a
    | .error e => if e.isContention then lockRetry k p else raise e

variable (retries : ℕ)

/-- The body of `atomic_flush_index` under the lock. -/
def flushLocked : Method Unit := do
  perform .unlinkTmp
  lockRetry retries (perform .saveIndex)
  perform .fsyncTmp
  perform .replaceIndex

/-- `atomic_flush_index` -/
def atomicFlushIndex : Method Unit := do
  perform .acquireIo
  cleanup (flushLocked retries) (perform .releaseIo)

/-- The part of `hard_delete_and_heal` and `_replay_one` after their BEGIN: erase,
check the result, flush, retire the new transaction. -/
def eraseAndCommit (nodeId maxM : ℤ) (tx : ℕ) : Method ErasureResult := do
  let result ← lockRetry retries (perform (.eraseNode nodeId maxM))
  if !result.success then raise (.runtimeError result.message)
  else do
    atomicFlushIndex retries
    let _ ← perform (.appendCommit tx)
    ret result

/-- `hard_delete_and_heal` -/
def hardDeleteAndHeal (nodeId maxM : ℤ) : Method HardDeleteResult := do
  let begun ← perform (.appendBeginDelete nodeId maxM)
  let result ← eraseAndCommit retries nodeId maxM begun.transactionId
  ret ⟨true, nodeId, begun.transactionId, some result.message, result.bytesWiped, false⟩

/-- `_replay_one`: a new transaction, then the orphaned one is retired as well. -/
def replayOne (pending : BeginDeleteRecord) : Method HardDeleteResult := do
  let begun ← perform (.appendBeginDelete pending.targetNodeId pending.maxM)
  let result ← eraseAndCommit retries pending.targetNodeId pending.maxM begun.transactionId
  if pending.transactionId ≠ begun.transactionId then do
    let _ ← perform (.appendCommit pending.transactionId)
    ret ⟨true, pending.targetNodeId, begun.transactionId, some result.message, result.bytesWiped,
      true⟩
  else
    ret ⟨true, pending.targetNodeId, begun.transactionId, some result.message, result.bytesWiped,
      true⟩

/-- The loop of `recover_uncommitted`. -/
def replayAll : List BeginDeleteRecord → Method (List HardDeleteResult)
  | [] => ret []
  | pending :: rest => do
    let result ← replayOne retries pending
    let results ← replayAll rest
    ret (result :: results)

/-- `recover_uncommitted` -/
def recoverUncommitted : Method (List HardDeleteResult) := do
  let pending ← perform .uncommittedDeletes
  if pending = [] then ret []
  else do
    -- intent without a base checkpoint: recovery is deferred
    let loaded ← perform .isLoaded
    if loaded then replayAll retries pending else ret []

/-- `load_index_if_present` -/
def loadIndexIfPresent : Method Bool := do
  let present ← perform .indexPresent
  if present then do
    perform .loadIndexFile
    ret true
  else ret false

/-- `bootstrap` -/
def bootstrap : Method BootReport := do
  let loaded ← loadIndexIfPresent
  let recovered ← recoverUncommitted retries
  ret ⟨loaded, recovered⟩

/-- `save_initial_checkpoint` -/
def saveInitialCheckpoint : Method Unit := do
  let loaded ← perform .isLoaded
  if loaded then atomicFlushIndex retries
  else raise (.runtimeError "cannot checkpoint: no index loaded")

end Methods

/-! ## The world -/

/-- What the process does: nothing, `bootstrap`, or the deletes of its threads. -/
inductive Phase : Type where
  | down : Phase
  | booting (p : Method BootReport) : Phase
  | serving (threads : List (Method HardDeleteResult)) : Phase

/-- The files and the index, and the process on them. -/
structure World where
  store : Store
  phase : Phase

/-- What may happen next. -/
inductive Action : Type where
  | crash : Action
  /-- a new process: a new engine whose `bootstrap` starts -/
  | restart : Action
  /-- one operation of the running `bootstrap` -/
  | boot (env : Env) : Action
  /-- a `bootstrap` that returned lets requests in -/
  | serve : Action
  /-- a request `hard_delete_and_heal(nodeId, maxM)` -/
  | request (nodeId maxM : ℤ) : Action
  /-- one operation of a request's thread -/
  | advance (i : ℕ) (env : Env) : Action
  /-- `load_index` of a new matrix and `save_initial_checkpoint`, between requests -/
  | ingest (ix : Index) : Action

namespace World

/-- The store after the process died: files are kept. -/
def lost (s : Store) : Store := { s with live := .empty, ioLock := none }

/-- The store after an ingest of `ix`. -/
def loaded (ix : Index) (s : Store) : Store :=
  { s with live := ix, bin := .snapshot ix.owned, tmp := .absent, asked := [] }

variable (H : Sha256) (D : Type) [FloatArith D] (retries : ℕ)

/-- One action; it does nothing where it is not possible. -/
def step : Action → World → World
  | .crash, w => ⟨lost w.store, .down⟩
  | .restart, w => match w.phase with
    | .down => ⟨{ lost w.store with log := w.store.log.reopen }, .booting (bootstrap retries)⟩
    | _ => w
  | .boot env, w => match w.phase with
    | .booting p => match p.step (machine H D) 0 env w.store with
      | some (p', s') => ⟨s', .booting p'⟩
      | none => w
    | _ => w
  | .serve, w => match w.phase with
    | .booting (.ret _) => ⟨w.store, .serving []⟩
    | _ => w
  | .request nodeId maxM, w => match w.phase with
    | .serving threads =>
      ⟨{ w.store with asked := nodeId :: w.store.asked },
        .serving (threads ++ [hardDeleteAndHeal retries nodeId maxM])⟩
    | _ => w
  | .advance i env, w => match w.phase with
    | .serving threads => match threads[i]? with
      | none => w
      | some p => match p.step (machine H D) i env w.store with
        | some (p', s') => ⟨s', .serving (threads.set i p')⟩
        | none => w
    | _ => w
  | .ingest ix, w => match w.phase with
    | .serving threads =>
      if threads.all Prog.isDone && ix.isLoaded then ⟨loaded ix w.store, .serving threads⟩ else w
    | _ => w

/-- What one action can do, with the conditions under which it does it. -/
inductive Moves : Action → World → World → Prop where
  | stay (a : Action) (w : World) : Moves a w w
  | crash (w : World) : Moves .crash w ⟨lost w.store, .down⟩
  | restart (s : Store) : Moves .restart ⟨s, .down⟩
      ⟨{ lost s with log := s.log.reopen }, .booting (bootstrap retries)⟩
  | boot {env : Env} {p p' : Method BootReport} {s s' : Store}
      (hstep : p.step (machine H D) 0 env s = some (p', s')) :
      Moves (.boot env) ⟨s, .booting p⟩ ⟨s', .booting p'⟩
  | serve (s : Store) (report : BootReport) :
      Moves .serve ⟨s, .booting (.ret report)⟩ ⟨s, .serving []⟩
  | request (s : Store) (threads : List (Method HardDeleteResult)) (nodeId maxM : ℤ) :
      Moves (.request nodeId maxM) ⟨s, .serving threads⟩ ⟨{ s with asked := nodeId :: s.asked },
        .serving (threads ++ [hardDeleteAndHeal retries nodeId maxM])⟩
  | advance {i : ℕ} {env : Env} {threads : List (Method HardDeleteResult)}
      {p p' : Method HardDeleteResult} {s s' : Store} (hthread : threads[i]? = some p)
      (hstep : p.step (machine H D) i env s = some (p', s')) :
      Moves (.advance i env) ⟨s, .serving threads⟩ ⟨s', .serving (threads.set i p')⟩
  | ingest {ix : Index} {threads : List (Method HardDeleteResult)} (s : Store)
      (hdone : ∀ p ∈ threads, p.isDone = true) (hloaded : ix.isLoaded = true) :
      Moves (.ingest ix) ⟨s, .serving threads⟩ ⟨loaded ix s, .serving threads⟩

theorem moves_step (a : Action) (w : World) : Moves H D retries a w (step H D retries a w) := by
  obtain ⟨s, phase⟩ := w
  cases a with
  | crash => exact .crash _
  | restart =>
    rcases phase with _ | p | threads
    · exact .restart s
    · exact .stay _ _
    · exact .stay _ _
  | boot env =>
    rcases phase with _ | p | threads
    · exact .stay _ _
    · simp only [step]
      rcases hs : p.step (machine H D) 0 env s with _ | ⟨p', s'⟩
      · exact .stay _ _
      · exact .boot hs
    · exact .stay _ _
  | serve =>
    rcases phase with _ | (report | e | ⟨o, k⟩) | threads
    case booting.ret => exact .serve s report
    all_goals exact .stay _ _
  | request nodeId maxM =>
    rcases phase with _ | p | threads
    · exact .stay _ _
    · exact .stay _ _
    · exact .request s threads nodeId maxM
  | advance i env =>
    rcases phase with _ | p | threads
    · exact .stay _ _
    · exact .stay _ _
    · simp only [step]
      rcases hi : threads[i]? with _ | p
      · exact .stay _ _
      · simp only
        rcases hs : p.step (machine H D) i env s with _ | ⟨p', s'⟩
        · exact .stay _ _
        · exact .advance hi hs
  | ingest ix =>
    rcases phase with _ | p | threads
    · exact .stay _ _
    · exact .stay _ _
    · simp only [step]
      split
      · rename_i hcond
        obtain ⟨hdone, hloaded⟩ := Bool.and_eq_true_iff.mp hcond
        exact .ingest s (List.all_eq_true.mp hdone) hloaded
      · exact .stay _ _

/-- A run. -/
def run (actions : List Action) (w : World) : World :=
  actions.foldl (fun w a => step H D retries a w) w

/-- A serving process on a checkpointed index and an empty log. -/
def fromCheckpoint (ix : Index) : World where
  store := ⟨ix, .snapshot ix.owned, .absent, ⟨[], 0⟩, none, []⟩
  phase := .serving []

/-- A serving process on an empty data directory. -/
def fresh : World where
  store := ⟨.empty, .absent, .absent, ⟨[], 0⟩, none, []⟩
  phase := .serving []

end World

end Unlearning
