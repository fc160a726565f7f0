import Unlearning.Act
import Unlearning.Erase
import Unlearning.StdOrder

/-!
# Search under striped locks (`search_knn`, `src/neighborhood_locks.hpp`)

`search_knn` walks the graph with a cursor that holds one shared stripe lock at a time and
couples it hand over hand from node to node. The model is the code as an `Act`:

* the state of a search is its cursor, a clock, and the trace of what it did to locks and to
  the index: nothing in the code reads the trace, the theorems do;
* the environment decides which timed acquisitions succeed, and what the index is at every
  operation: other threads may write between two of them;
* a read outside a buffer is undefined in C++; here it ends the search with `undefined`, so
  "every index is in bounds" is "no search ends so". Both `while` loops take fuel;
* how `std::priority_queue` and `std::sort` order equal distances is a `StdOrder`.
-/

namespace Unlearning

/-! ## Locks -/

/-- `NeighborhoodLockManager`: the number of stripes and the timeout. -/
structure LockManager where
  stripes : ℕ
  timeoutMs : ℤ

/-- The constructor; a pool is never empty. -/
def LockManager.ofPool (poolSize : ℕ) (timeoutMs : ℤ) : LockManager :=
  ⟨if 0 < poolSize then poolSize else 1, timeoutMs⟩

/-- `stripe_of` -/
def LockManager.stripeOf (m : LockManager) (nodeId : ℤ) : ℕ :=
  asSize (if nodeId < 0 then -nodeId else nodeId) % m.stripes

/-- The locks a search takes, all of them shared. -/
inductive LockId : Type where
  | structureMu
  | stripe (s : ℕ)
  deriving DecidableEq

/-- What a search does to the locks and to the index. -/
inductive SearchEvent : Type where
  | locked (l : LockId)
  | timedOut (stripe : ℕ)
  | unlocked (l : LockId)
  /-- `advance` is called with the cursor on `current` -/
  | leaving (current : ℤ)
  /-- `enter` or `advance` has returned -/
  | arrived (node : ℤ)
  /-- `adjacency_[node].size()` -/
  | readLayers (node : ℤ)
  /-- `adjacency_[node][layer]` -/
  | readList (node : ℤ) (layer : ℕ)
  /-- the row of `node` -/
  | readVector (node : ℤ)
  deriving DecidableEq

/-- `SharedLockCursor`: the stripe its guard holds and the current node. -/
structure Cursor where
  guard : Option ℕ
  node : ℤ
  deriving DecidableEq

/-- The clock, the cursor of the thread, and what it has done so far. -/
structure SearchState where
  clock : ℕ
  cursor : Cursor
  trace : List SearchEvent

/-- What a search meets at each tick of its clock. -/
structure SearchEnv where
  acquires : ℕ → Bool
  index : ℕ → Index

/-- Nobody writes while the search runs. -/
def SearchEnv.fixed (acquires : ℕ → Bool) (ix : Index) : SearchEnv := ⟨acquires, fun _ => ix⟩

/-- How a search ends if it does not return. -/
inductive SearchExit : Type where
  | native (e : NativeError)
  /-- a read outside a buffer -/
  | undefined
  | outOfFuel
  deriving DecidableEq

/-- `SearchHit` -/
structure SearchHit (D : Type) where
  nodeId : ℤ
  distance : D

/-- The comparison of the heap and of the final sort. -/
def SearchHit.less (D : Type) [FloatArith D] (a b : SearchHit D) : Bool :=
  FloatArith.lt a.distance b.distance

/-- A step of a search: it may end the search, and it leaves its state. -/
abbrev Walk := Act SearchState SearchExit

/-- An event takes a tick. -/
def SearchState.log (e : SearchEvent) (s : SearchState) : SearchState :=
  { s with clock := s.clock + 1, trace := s.trace ++ [e] }

namespace Walk

variable (env : SearchEnv) (locks : LockManager)

/-- The index as it is now: its sizes, read under the structure lock. -/
def here : Walk Index := Act.reads fun s => env.index s.clock

/-- A read of the index, of what `f` says; `none` is outside a buffer. -/
def look {α : Type} (e : SearchEvent) (f : Index → Option α) : Walk α := fun s =>
  (match f (env.index s.clock) with
    | some a => .ok a
    | none => .error .undefined, s.log e)

/-- The text of `LockTimeoutError`. -/
def sharedTimeout (stripe : ℕ) : NativeError :=
  ⟨.lockTimeout, s!"shared lock contention timeout on stripe {stripe} (timeout_ms={locks.timeoutMs})"⟩

/-- The constructor of `SharedGuard`: take the stripe or throw. -/
def sharedGuard (stripe : ℕ) : Walk ℕ := fun s =>
  if env.acquires s.clock then (.ok stripe, s.log (.locked (.stripe stripe)))
  else (.error (.native (sharedTimeout locks stripe)), s.log (.timedOut stripe))

/-- `SharedGuard::release`, for the guard of the cursor. -/
def dropGuard (s : SearchState) : SearchState :=
  match s.cursor.guard with
  | some stripe => { s.log (.unlocked (.stripe stripe)) with cursor := ⟨none, s.cursor.node⟩ }
  | none => s

/-- `SharedLockCursor::release`, also its destructor. -/
def release (s : SearchState) : SearchState :=
  { dropGuard s with cursor := ⟨none, -1⟩ }

/-- The guard is moved into the cursor, which drops the one it had. -/
def moveGuard (stripe : ℕ) (node : ℤ) (s : SearchState) : SearchState :=
  { dropGuard s with cursor := ⟨some stripe, node⟩ }

/-- `SharedLockCursor::enter` -/
def enter (nodeId : ℤ) : Walk Unit := do
  Act.alter release
  let stripe ← sharedGuard env locks (locks.stripeOf nodeId)
  Act.alter (moveGuard stripe nodeId)
  Act.alter (SearchState.log (.arrived nodeId))

/-- Lock the next node, then drop the current one; one stripe may cover both. -/
def handOver (cursor : Cursor) (next : ℤ) : Walk Unit :=
  if cursor.guard.isSome ∧ locks.stripeOf cursor.node = locks.stripeOf next then
    Act.alter fun s => { s with cursor := ⟨s.cursor.guard, next⟩ }
  else do
    let stripe ← sharedGuard env locks (locks.stripeOf next)
    Act.alter (moveGuard stripe next)

/-- `SharedLockCursor::advance` -/
def advance (next : ℤ) : Walk Unit := do
  let cursor ← Act.reads SearchState.cursor
  Act.alter (SearchState.log (.leaving cursor.node))
  handOver env locks cursor next
  Act.alter (SearchState.log (.arrived next))

/-! ## Reads -/

/-- `adjacency_[node].size()`, guarded by `adjacency_.size()`. -/
def layers (node : ℤ) : Walk ℕ := do
  if asSize node < (← here env).adjacency.length then
    look env (.readLayers node) fun ix => (ix.adjacency[asSize node]?).map List.length
  else pure 0

/-- `adjacency_[node][layer]` -/
def list (node : ℤ) (layer : ℕ) : Walk (List ℤ) :=
  look env (.readList node layer) fun ix => (ix.adjacency[asSize node]?).bind (·[layer]?)

/-- The neighbours of a node at a layer, none if the node has no such layer. The base layer's
second test of the source, on the list it is about to copy, is always true. -/
def neighbors (node : ℤ) (layer : ℕ) : Walk (List ℤ) := do
  if layer < (← layers env node) then list env node layer else pure []

section Search

variable (D : Type) [FloatArith D]

open FloatArith

/-- `distance_query`: both vectors are read up to `dim`. -/
def distanceQuery (query : List UInt32) (node : ℤ) : Walk D :=
  look env (.readVector node) fun ix =>
    if ix.dim ≤ query.length ∧ asSize node * ix.dim + ix.dim ≤ ix.words.length then
      some (Index.l2Distance D query (ix.vectorPtr (asSize node)) ix.dim)
    else none

/-! ## The greedy descent -/

/-- The loop over the neighbours: the first that is closer, the cursor on it. -/
def greedyScan (query : List UInt32) (curr : ℤ) (bestDist : D) : List ℤ → Walk (Option ℤ)
  | [] => pure none
  | nb :: rest => do
    if (← here env).inRange nb then
      advance env locks nb
      let d ← distanceQuery env D query nb
      if lt d bestDist then pure (some nb)
      else
        advance env locks curr
        greedyScan query curr bestDist rest
    else greedyScan query curr bestDist rest

/-- `greedy_update_locked` -/
def greedyUpdateLocked (query : List UInt32) (layer : ℕ) : ℕ → ℤ → Walk ℤ
  | 0, _ => Act.raise .outOfFuel
  | fuel + 1, curr => do
    let bestDist ← distanceQuery env D query curr
    let nbrs ← neighbors env curr layer
    match ← greedyScan env locks D query curr bestDist nbrs with
    | some nb => greedyUpdateLocked query layer fuel nb
    | none => pure curr

/-- `for (lc = top_layer; lc > 0; --lc)` -/
def descend (query : List UInt32) (fuel : ℕ) : ℕ → ℤ → Walk ℤ
  | 0, curr => pure curr
  | lc + 1, curr => do
    let curr ← greedyUpdateLocked env locks D query (lc + 1) fuel curr
    descend query fuel lc curr

/-! ## The base layer -/

/-- The locals of the base-layer loop. -/
structure Beam where
  best : List (SearchHit D)
  visited : List Bool
  frontier : List ℤ

variable {D} (std : StdOrder (SearchHit.less D))

/-- A node and its distance are offered to the heap; what enters is explored later. -/
def Beam.offer (ef : ℕ) (nb : ℤ) (d : D) (b : Beam D) : Beam D :=
  if b.best.length < ef ∨ b.best.head?.any (fun top => lt d top.distance) then
    let pushed := std.push b.best ⟨nb, d⟩
    { b with
      best := if ef < pushed.length then std.pop pushed else pushed
      frontier := b.frontier ++ [nb] }
  else b

/-- The loop over the neighbours of `u`. -/
def scan (query : List UInt32) (ef : ℕ) (u : ℤ) : List ℤ → Beam D → Walk (Beam D)
  | [], b => pure b
  | nb :: rest, b => do
    if (← here env).inRange nb then
      match b.visited[asSize nb]? with
      | none => Act.raise .undefined
      | some true => scan query ef u rest b
      | some false =>
        advance env locks nb
        let d ← distanceQuery env D query nb
        let b := Beam.offer std ef nb d { b with visited := b.visited.set (asSize nb) true }
        advance env locks u
        scan query ef u rest b
    else scan query ef u rest b

/-- `while (!frontier.empty())` -/
def explore (query : List UInt32) (ef : ℕ) : ℕ → Beam D → Walk (Beam D)
  | 0, _ => Act.raise .outOfFuel
  | fuel + 1, b => match b.frontier with
    | [] => pure b
    | u :: frontier => do
      advance env locks u
      let nbrs ← neighbors env u 0
      let b ← scan env locks std query ef u nbrs { b with frontier := frontier }
      explore query ef fuel b

/-- The hits in the order they are returned. -/
def Beam.hits (k : ℕ) (b : Beam D) : List (SearchHit D) := (std.sort (std.drain b.best)).take k

/-- `base_layer_search_locked` -/
def baseLayerSearchLocked (query : List UInt32) (fuel : ℕ) (entry : ℤ) (k : ℕ) :
    Walk (List (SearchHit D)) := do
  let n := (← here env).numElements
  advance env locks entry
  if asSize entry < n then
    let d ← distanceQuery env D query entry
    let b ← explore env locks std query (max k 16) fuel
      { best := std.push [] ⟨entry, d⟩
        visited := (List.replicate n false).set (asSize entry) true
        frontier := [entry] }
    pure (b.hits std k)
  else Act.raise .undefined

/-! ## The whole search -/

/-- `top_layer`, read under a guard of its own. -/
def topLayer (curr : ℤ) : Walk ℕ := do
  let stripe ← sharedGuard env locks (locks.stripeOf curr)
  let count ← (layers env curr).withDestructor (SearchState.log (.unlocked (.stripe stripe)))
  pure (count - 1)

/-- The search under the structure lock. -/
def searchLocked (query : List UInt32) (fuel k : ℕ) (entryNode : ℤ) :
    Walk (List (SearchHit D)) := do
  let ix ← here env
  if !ix.isLoaded then
    Act.raise (.native ⟨.logicError, "search_knn: no index loaded; call load_index first"⟩)
  else
    let curr := ix.searchEntry entryNode
    let top ← topLayer env locks curr
    Act.withDestructor (do
      enter env locks curr
      let curr ← descend env locks D query fuel top curr
      baseLayerSearchLocked env locks std query fuel curr k) release

/-- `search_knn`; `none` is a null query. -/
def searchKnn (query : Option (List UInt32)) (fuel k : ℕ) (entryNode : ℤ) :
    Walk (List (SearchHit D)) :=
  match query with
  | none => Act.raise (.native ⟨.invalidArgument, "search_knn: query is null"⟩)
  | some query =>
    if k = 0 then pure []
    else do
      Act.alter (SearchState.log (.locked .structureMu))
      (searchLocked env locks std query fuel k entryNode).withDestructor
        (SearchState.log (.unlocked .structureMu))

/-- A search starts with no locks and an empty trace. -/
def start : SearchState := ⟨0, ⟨none, -1⟩, []⟩

end Search

end Walk

end Unlearning
