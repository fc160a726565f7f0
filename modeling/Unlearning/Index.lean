import Mathlib.Data.List.Basic
import Mathlib.Tactic.Ring
import Unlearning.Layered

/-!
# The in-memory index (`src/hnsw_helper.hpp`, `HNSWIndexProxy`)

The proxy's state, its loaders, its checked accessors and the two single-node
mutations `overwrite_vector` and `prune_adjacency`. Healing is in `Heal`.

Modelling decisions:

* vector components are `float32` bit patterns (`UInt32`); `double` arithmetic
  is an interface `FloatArith`, instantiated with Lean's IEEE `Float`, so that
  nothing below depends on rounding unless it says so;
* a data buffer is at most `PTRDIFF_MAX` bytes long — the language's own limit
  on objects — and carries that bound (`Buffer.fits`); sizes are `size_t`, so
  products are taken modulo `2 ^ 64` (`sizeMul`);
* labels are `int64` values (`ℤ`); `asSize` and `asInt` are the casts to
  `size_t` and `int`;
* every timed lock acquisition is a `LockSite` whose outcome the environment
  decides; a failed one throws `LockTimeoutError`;
* a mutation returns its result or exception together with the state it leaves.
-/

namespace Unlearning

/-! ## Machine numbers -/

/-- What the code uses of `float` and `double`. -/
class FloatArith (D : Type) where
  /-- a `float` bit pattern, widened to `double` -/
  ofFloat32 : UInt32 → D
  zero : D
  one : D
  negOne : D
  add : D → D → D
  sub : D → D → D
  mul : D → D → D
  div : D → D → D
  sqrt : D → D
  lt : D → D → Bool
  eq : D → D → Bool

instance : FloatArith Float where
  ofFloat32 w := (Float32.ofBits w).toFloat
  zero := 0
  one := 1
  negOne := -1
  add := (· + ·)
  sub := (· - ·)
  mul := (· * ·)
  div := (· / ·)
  sqrt := Float.sqrt
  lt a b := decide (a < b)
  eq := (· == ·)

/-- `size_t` multiplication. -/
def sizeMul (a b : ℕ) : ℕ := a * b % 2 ^ 64

/-- `static_cast<std::size_t>` of a label. -/
def asSize (x : ℤ) : ℕ := if x < 0 then (x + 2 ^ 64).toNat else x.toNat

/-- `static_cast<int>` of a size. -/
def asInt (n : ℕ) : ℤ := (n : ℤ).bmod (2 ^ 32)

/-- A sum of `int`s. Past their range it wraps; the language leaves that undefined. -/
def wrapInt (x : ℤ) : ℤ := x.bmod (2 ^ 32)

/-! ## State -/

/-- A contiguous `float` buffer. -/
structure Buffer where
  words : List UInt32
  /-- an object has at most `PTRDIFF_MAX` bytes -/
  fits : 4 * words.length < 2 ^ 63

/-- `new float[total]` filled by `memcpy` from a source. -/
def Buffer.copy (source : List UInt32) (total : ℕ) (h : 4 * total < 2 ^ 63) : Buffer where
  words := source.take total
  fits := by
    have := List.length_take_le total source
    omega

/-- `secure_wipe_floats(dest, count)` on the words of a buffer. -/
def Buffer.wipe (b : Buffer) (dest count : ℕ) : Buffer where
  words := b.words.mapIdx fun i w => if dest ≤ i ∧ i < dest + count then 0 else w
  fits := by
    rw [List.length_mapIdx]
    exact b.fits

/-- The fields of `HNSWIndexProxy` (locks aside). -/
structure Index where
  data : Option Buffer
  ownsData : Bool
  dim : ℕ
  numElements : ℕ
  entrypoint : ℤ
  adjacency : Layered ℤ

/-- The classes of the exceptions that the proxy throws. -/
inductive NativeErrorKind : Type where
  | invalidArgument
  | outOfRange
  | logicError
  | runtimeError
  | lockTimeout
  | badAlloc
  deriving DecidableEq

/-- A C++ exception: its class and `what()`. -/
structure NativeError where
  kind : NativeErrorKind
  what : String
  deriving DecidableEq

/-- The places that take timed stripe locks. -/
inductive LockSite : Type where
  | getVector
  | setNeighbors
  | overwrite
  | prune
  /-- heal: the exclusive lock on `q` alone -/
  | healNode
  /-- heal: the exclusive lock on the collected region -/
  | healRegion
  /-- heal: the lock on the region collected again, if it differs -/
  | healRegrown
  deriving DecidableEq

/-- What a native call sees of the outside: which of its timed acquisitions
succeed, and the time it took, as text. -/
structure NativeEnv where
  acquires : LockSite → Bool
  elapsedMs : String

/-- No contention. -/
def NativeEnv.calm : NativeEnv := ⟨fun _ => true, "0.000000"⟩

/-- What `new float[total]` and `adjacency_.assign` throw, if they do, of a number of elements. -/
structure Memory where
  newThrows : ℕ → Option NativeError
  assignThrows : ℕ → Option NativeError

/-- Nothing throws. -/
def Memory.ample : Memory := ⟨fun _ => none, fun _ => none⟩

/-- `adjacency_.assign(n, {})` on an empty adjacency; no elements need no memory. -/
def Memory.assign (memory : Memory) (n : ℕ) : Option NativeError :=
  if n = 0 then none else memory.assignThrows n

/-- What a failed exclusive acquisition is taken to throw; the guard itself is in
`ExclusiveLocks`. -/
def lockTimeout : NativeError := ⟨.lockTimeout, "exclusive lock contention timeout"⟩

namespace Index

/-- A freshly constructed proxy. -/
def empty : Index := ⟨none, false, 0, 0, -1, []⟩

/-- The words of the buffer; none without one. -/
def words (ix : Index) : List UInt32 := match ix.data with
  | none => []
  | some b => b.words

/-- The words from `data_ + node_id * dim_` on. -/
def vectorPtr (ix : Index) (n : ℕ) : List UInt32 := ix.words.drop (n * ix.dim)

/-- The vector of a node. -/
def row (ix : Index) (n : ℕ) : List UInt32 := (ix.vectorPtr n).take ix.dim

/-- `is_loaded` -/
def isLoaded (ix : Index) : Bool := 0 < ix.numElements && ix.data.isSome

/-- `release_data`: the wiped buffer is gone, the fields are reset. -/
def releaseData (ix : Index) : Index :=
  { ix with data := none, ownsData := false, dim := 0, numElements := 0, entrypoint := -1 }

/-- `ensure_node` -/
def ensureNode (ix : Index) (nodeId : ℤ) : Except NativeError Unit :=
  if !ix.isLoaded then
    .error ⟨.logicError, "HNSWIndexProxy: no index loaded; call load_index first"⟩
  else if nodeId < 0 ∨ ix.numElements ≤ asSize nodeId then
    .error ⟨.outOfRange, s!"node_id {nodeId} out of range [0, {ix.numElements})"⟩
  else .ok ()

/-- `ensure_layer_slot` -/
def ensureLayerSlot (numElements : ℕ) (adj : Layered ℤ) (node layer : ℕ) : Layered ℤ :=
  Layered.slot (Layered.resize numElements adj) node layer

/-! ## Loading -/

/-- The end of a load: a node without layers for each element, and the entrypoint. -/
def withNodes (ix : Index) : Index :=
  { ix with
    adjacency := List.replicate ix.numElements []
    entrypoint := if 0 < ix.numElements then 0 else -1 }

/-- The checks `load_index` and `attach_index` share; `none` is a null pointer. -/
def checkSource (who : String) (source : Option Buffer) (dimensions numElements : ℕ) :
    Except NativeError Unit :=
  if 0 < numElements ∧ source.isNone then
    .error ⟨.invalidArgument, who ++ ": source pointer is null but num_elements > 0"⟩
  else if 0 < numElements ∧ dimensions = 0 then
    .error ⟨.invalidArgument, who ++ ": dimensions must be > 0 when num_elements > 0"⟩
  else .ok ()

/-- `load_index`: copy `dimensions * num_elements` floats. An allocation that throws leaves the
sizes that were set before it, and no adjacency. -/
def loadIndex (memory : Memory) (source : Option Buffer) (dimensions numElements : ℕ)
    (ix : Index) : Except NativeError Unit × Index :=
  match checkSource "load_index" source dimensions numElements with
  | .error e => (.error e, ix)
  | .ok () =>
    let cleared := { ix.releaseData with
      adjacency := [], dim := dimensions, numElements := numElements, ownsData := true }
    let total := sizeMul dimensions numElements
    if total = 0 then (.ok (), cleared)
    else if h : 4 * total < 2 ^ 63 then
      match memory.newThrows total with
      | some e => (.error e, cleared)
      | none =>
        let copied := { cleared with
          data := some (.copy ((source.map Buffer.words).getD []) total h) }
        match memory.assign numElements with
        | some e => (.error e, copied)
        | none => (.ok (), copied.withNodes)
    else (.error ⟨.badAlloc, "std::bad_array_new_length"⟩, cleared)

/-- `attach_index`: use the caller's buffer in place. -/
def attachIndex (memory : Memory) (source : Option Buffer) (dimensions numElements : ℕ)
    (ix : Index) : Except NativeError Unit × Index :=
  match checkSource "attach_index" source dimensions numElements with
  | .error e => (.error e, ix)
  | .ok () =>
    let attached := { ix.releaseData with
      adjacency := [], data := source, dim := dimensions, numElements := numElements
      ownsData := false }
    match memory.assign numElements with
    | some e => (.error e, attached)
    | none => (.ok (), attached.withNodes)

/-- A label is in range `[0, num_elements)`. -/
def inRange (ix : Index) (nb : ℤ) : Bool := 0 ≤ nb && asSize nb < ix.numElements

/-- `load_adjacency` -/
def loadAdjacency (adjacency : Layered ℤ) (ix : Index) : Except NativeError Unit × Index :=
  if ix.numElements = 0 then
    (.error ⟨.logicError, "load_adjacency: no index loaded; call load_index first"⟩, ix)
  else if adjacency.length ≠ ix.numElements then
    (.error ⟨.invalidArgument, s!"load_adjacency: outer length must equal num_elements ({ix.numElements}), got {adjacency.length}"⟩, ix)
  else match (adjacency.flatten.flatten).find? fun nb => !ix.inRange nb with
    | some nb =>
      (.error ⟨.outOfRange, s!"load_adjacency: neighbor label {nb} out of range [0, {ix.numElements})"⟩, ix)
    | none => (.ok (), { ix with adjacency := adjacency })

/-- `set_neighbors`. The layer slot is made before the labels are checked. -/
def setNeighbors (env : NativeEnv) (nodeId layer : ℤ) (neighbors : List ℤ) (ix : Index) :
    Except NativeError Unit × Index :=
  match ix.ensureNode nodeId with
  | .error e => (.error e, ix)
  | .ok () =>
    if layer < 0 then
      (.error ⟨.outOfRange, s!"set_neighbors: layer must be non-negative, got {layer}"⟩, ix)
    else if !env.acquires .setNeighbors then (.error lockTimeout, ix)
    else
      let n := asSize nodeId
      let L := asSize layer
      let slotted := { ix with adjacency := ensureLayerSlot ix.numElements ix.adjacency n L }
      match neighbors.find? fun nb => !ix.inRange nb with
      | some nb =>
        (.error ⟨.outOfRange, s!"set_neighbors: neighbor label {nb} out of range [0, {ix.numElements})"⟩, slotted)
      | none => (.ok (), { slotted with adjacency := slotted.adjacency.put n L neighbors })

/-! ## Accessors -/

/-- `get_vector` -/
def getVector (env : NativeEnv) (nodeId : ℤ) (ix : Index) : Except NativeError (List UInt32) :=
  match ix.ensureNode nodeId with
  | .error e => .error e
  | .ok () =>
    if !env.acquires .getVector then .error ⟨.lockTimeout, "shared lock contention timeout"⟩
    else .ok (ix.row (asSize nodeId))

/-- The shared stripe lock that the accessors of a node take. -/
def withShared {α : Type} (env : NativeEnv) (nodeId : ℤ) (ix : Index)
    (read : Except NativeError α) : Except NativeError α :=
  match ix.ensureNode nodeId with
  | .error e => .error e
  | .ok () =>
    if !env.acquires .getVector then .error ⟨.lockTimeout, "shared lock contention timeout"⟩
    else read

/-- `get_neighbors` -/
def getNeighbors (env : NativeEnv) (nodeId layer : ℤ) (ix : Index) :
    Except NativeError (List ℤ) :=
  match ix.ensureNode nodeId with
  | .error e => .error e
  | .ok () =>
    if layer < 0 then
      .error ⟨.outOfRange, s!"get_neighbors: layer must be non-negative, got {layer}"⟩
    else withShared env nodeId ix (match (ix.adjacency.layersOf (asSize nodeId))[asSize layer]? with
      | some nbrs => .ok nbrs
      | none => .error ⟨.outOfRange, s!"get_neighbors: layer {layer} is out of range for node_id {nodeId} (node has {(ix.adjacency.layersOf (asSize nodeId)).length} layer(s))"⟩)

/-- `num_layers` -/
def numLayers (env : NativeEnv) (nodeId : ℤ) (ix : Index) : Except NativeError ℕ :=
  withShared env nodeId ix (.ok (ix.adjacency.layersOf (asSize nodeId)).length)

/-! ## Single-node mutations -/

/-- Zero the row of a node. -/
def wipeRow (ix : Index) (n : ℕ) : Index :=
  { ix with data := ix.data.map fun b => Buffer.wipe b (n * ix.dim) ix.dim }

/-- `overwrite_vector` -/
def overwriteVector (env : NativeEnv) (nodeId : ℤ) (ix : Index) :
    Except NativeError Unit × Index :=
  match ix.ensureNode nodeId with
  | .error e => (.error e, ix)
  | .ok () =>
    if !env.acquires .overwrite then (.error lockTimeout, ix)
    else (.ok (), ix.wipeRow (asSize nodeId))

/-- `prune_adjacency`: drop the label from every list, then clear the node's own
lists. -/
def pruneAdjacency (env : NativeEnv) (nodeId : ℤ) (ix : Index) :
    Except NativeError Unit × Index :=
  match ix.ensureNode nodeId with
  | .error e => (.error e, ix)
  | .ok () =>
    if !env.acquires .prune then (.error lockTimeout, ix)
    else
      let pruned := ix.adjacency.map fun perNode => perNode.map fun l => l.filter (· ≠ nodeId)
      let cleared := pruned.modify (asSize nodeId) fun perNode => perNode.map fun _ => []
      (.ok (), { ix with adjacency := cleared })

/-! ## Distances -/

section Distance

variable (D : Type) [FloatArith D]

open FloatArith in
/-- `l2_distance` -/
def l2Distance (a b : List UInt32) (dim : ℕ) : D :=
  let acc := (List.range dim).foldl (fun acc i =>
    let d := sub (ofFloat32 (D := D) (a[i]?.getD 0)) (ofFloat32 (b[i]?.getD 0))
    add acc (mul d d)) zero
  sqrt acc

/-- `distance` -/
def distance (ix : Index) (a b : ℤ) : D :=
  l2Distance D (ix.vectorPtr (asSize a)) (ix.vectorPtr (asSize b)) ix.dim

end Distance

/-! ## Basic facts -/

theorem asSize_of_nonneg {x : ℤ} (h : 0 ≤ x) : asSize x = x.toNat := if_neg (by omega)

@[simp] theorem asSize_natCast (n : ℕ) : asSize (n : ℤ) = n := by
  rw [asSize_of_nonneg (Int.natCast_nonneg n), Int.toNat_natCast]

theorem ensureNode_eq_ok {ix : Index} {nodeId : ℤ} :
    ix.ensureNode nodeId = .ok () ↔
      ix.isLoaded = true ∧ 0 ≤ nodeId ∧ asSize nodeId < ix.numElements := by
  rw [ensureNode]
  by_cases hl : ix.isLoaded = true
  · rw [if_neg (by simp [hl])]
    by_cases hr : nodeId < 0 ∨ ix.numElements ≤ asSize nodeId
    · rw [if_pos hr]
      refine iff_of_false (by simp) ?_
      rintro ⟨-, h0, hlt⟩
      omega
    · rw [if_neg hr]
      exact iff_of_true rfl ⟨hl, by omega, by omega⟩
  · rw [if_pos (by simpa using hl)]
    exact iff_of_false (by simp) fun h => hl h.1

/-- Every word of the row of `n` is zero: what `verify_zeroed` looks for. -/
def RowZero (ix : Index) (n : ℕ) : Prop := ∀ w ∈ ix.row n, w = 0

instance (ix : Index) (n : ℕ) : Decidable (ix.RowZero n) :=
  inferInstanceAs (Decidable (∀ w ∈ ix.row n, w = 0))

theorem row_congr {ix ix' : Index} (hd : ix'.data = ix.data) (hdim : ix'.dim = ix.dim) (n : ℕ) :
    ix'.row n = ix.row n := by
  rw [row, row, vectorPtr, vectorPtr, words, words, hd, hdim]

@[simp] theorem wipeRow_numElements (ix : Index) (n : ℕ) :
    (ix.wipeRow n).numElements = ix.numElements := rfl

@[simp] theorem wipeRow_dim (ix : Index) (n : ℕ) : (ix.wipeRow n).dim = ix.dim := rfl

@[simp] theorem wipeRow_adjacency (ix : Index) (n : ℕ) :
    (ix.wipeRow n).adjacency = ix.adjacency := rfl

@[simp] theorem wipeRow_entrypoint (ix : Index) (n : ℕ) :
    (ix.wipeRow n).entrypoint = ix.entrypoint := rfl

@[simp] theorem wipeRow_isLoaded (ix : Index) (n : ℕ) : (ix.wipeRow n).isLoaded = ix.isLoaded := by
  rw [isLoaded, isLoaded, wipeRow_numElements, wipeRow, Option.isSome_map]

theorem words_wipeRow (ix : Index) (n : ℕ) :
    (ix.wipeRow n).words =
      ix.words.mapIdx fun i w => if n * ix.dim ≤ i ∧ i < n * ix.dim + ix.dim then 0 else w := by
  rcases h : ix.data with _ | b
  · simp [words, wipeRow, h]
  · simp [words, wipeRow, h, Buffer.wipe]

theorem getElem?_row (ix : Index) (n i : ℕ) :
    (ix.row n)[i]? = if i < ix.dim then ix.words[n * ix.dim + i]? else none := by
  rw [row, vectorPtr, List.getElem?_take, List.getElem?_drop]

/-- The wiped row is zero. -/
theorem rowZero_wipeRow (ix : Index) (n : ℕ) : (ix.wipeRow n).RowZero n := by
  intro w hw
  obtain ⟨i, hi⟩ := List.mem_iff_getElem?.mp hw
  rw [getElem?_row, words_wipeRow, List.getElem?_mapIdx, wipeRow_dim] at hi
  by_cases hlt : i < ix.dim
  · rw [if_pos hlt] at hi
    obtain ⟨w', -, hw'⟩ := Option.map_eq_some_iff.mp hi
    rw [if_pos ⟨by omega, by omega⟩] at hw'
    exact hw'.symm
  · rw [if_neg hlt] at hi
    cases hi

/-- **Frame**: wiping a row leaves every other row alone. -/
theorem row_wipeRow_ne (ix : Index) {n m : ℕ} (h : m ≠ n) : (ix.wipeRow n).row m = ix.row m := by
  apply List.ext_getElem?
  intro i
  rw [getElem?_row, getElem?_row, words_wipeRow, List.getElem?_mapIdx, wipeRow_dim]
  by_cases hlt : i < ix.dim
  · rw [if_pos hlt, if_pos hlt]
    have hout : ¬ (n * ix.dim ≤ m * ix.dim + i ∧ m * ix.dim + i < n * ix.dim + ix.dim) := by
      rintro ⟨hlo, hhi⟩
      rcases Nat.lt_or_gt_of_ne h with hmn | hmn
      · have := Nat.mul_le_mul_right ix.dim (Nat.succ_le_of_lt hmn)
        rw [Nat.succ_mul] at this
        omega
      · have := Nat.mul_le_mul_right ix.dim (Nat.succ_le_of_lt hmn)
        rw [Nat.succ_mul] at this
        omega
    rcases ix.words[m * ix.dim + i]? with _ | w
    · rfl
    · exact congrArg some (if_neg hout)
  · rw [if_neg hlt, if_neg hlt]

/-- Wiping a row keeps every zero row zero. -/
theorem RowZero.wipeRow {ix : Index} {m : ℕ} (h : ix.RowZero m) (n : ℕ) :
    (ix.wipeRow n).RowZero m := by
  by_cases hmn : m = n
  · subst hmn
    exact ix.rowZero_wipeRow m
  · intro w hw
    rw [row_wipeRow_ne ix hmn] at hw
    exact h w hw

/-! ## The representation invariant -/

/-- Every label of every list is in `[0, N)`. -/
def LabelsIn (numElements : ℕ) (adj : Layered ℤ) : Prop :=
  ∀ v L, ∀ nb ∈ adj.nbrs v L, 0 ≤ nb ∧ nb < numElements

theorem labelsIn_iff {N : ℕ} {adj : Layered ℤ} :
    LabelsIn N adj ↔ ∀ nb ∈ adj.flatten.flatten, 0 ≤ nb ∧ nb < N := by
  simp only [Layered.mem_flatten_flatten]
  constructor
  · rintro h nb ⟨v, L, hnb⟩
    exact h v L nb hnb
  · intro h v L nb hnb
    exact h nb ⟨v, L, hnb⟩

/-- **The representation invariant.** What the unchecked pointer reads of the C++
code rely on. -/
structure WellFormed (ix : Index) : Prop where
  /-- the buffer holds exactly `N * dim` words -/
  words : ix.words.length = ix.numElements * ix.dim
  /-- the adjacency has exactly `N` entries -/
  nodes : ix.adjacency.length = ix.numElements
  /-- every neighbour label, at every layer, is in `[0, N)` -/
  labels : LabelsIn ix.numElements ix.adjacency
  entrypoint : ix.entrypoint < 0 ∨ ix.entrypoint < ix.numElements

/-- The outcomes of `overwrite_vector`: the row is wiped, or it throws and
nothing changed. -/
theorem overwriteVector_cases (env : NativeEnv) (nodeId : ℤ) (ix : Index) :
    (ix.ensureNode nodeId = .ok () ∧ env.acquires .overwrite = true ∧
        ix.overwriteVector env nodeId = (.ok (), ix.wipeRow (asSize nodeId))) ∨
      ∃ e, ix.overwriteVector env nodeId = (.error e, ix) := by
  rcases hn : ix.ensureNode nodeId with e | u
  · exact Or.inr ⟨e, by rw [overwriteVector, hn]⟩
  · by_cases hl : env.acquires .overwrite = true
    · exact Or.inl ⟨rfl, hl, by simp only [overwriteVector, hn, hl]; rfl⟩
    · exact Or.inr ⟨lockTimeout, by simp only [overwriteVector, hn, hl]; rfl⟩

/-- The index a successful overwrite leaves. -/
theorem eq_wipeRow_of_overwriteVector {ix ix' : Index} {env : NativeEnv} {q : ℕ}
    (h : ix.overwriteVector env q = (.ok (), ix')) : ix' = ix.wipeRow q := by
  rcases overwriteVector_cases env (q : ℤ) ix with ⟨-, -, hok⟩ | ⟨e, herr⟩
  · rw [hok, asSize_natCast] at h
    exact (Prod.mk.inj h).2.symm
  · rw [herr] at h
    cases (Prod.mk.inj h).1

end Index

end Unlearning
