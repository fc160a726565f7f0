import Mathlib.Data.Finset.Insert
import Mathlib.Data.Finset.Erase
import Unlearning.EraseService
import Unlearning.RegistryFile

/-!
# Matrix adapters (`integrations/qdrant_adapter.py`, `integrations/weaviate_adapter.py`)

`QdrantHardDeleteAdapter` and `WeaviateHardDeleteAdapter` keep a `float32` matrix beside the
points of a vector store: `add` writes both, `hard_delete_label` zeroes the row and deletes
the point, `compact` rebuilds the points from the rows that are left. They differ in what they
call the collection, in whom they ask for an id that they do not know, and in their client.

* `InMemoryQdrantClient`, `InMemoryWeaviateClient`: the clients without a server;
* `MatrixAdapter`: the fields that both adapters have, and `MatrixKind`, what is their own;
* `MatrixState.step`: one `add`, `ErasureService.delete` or `compact`, on the adapter and the
  registry it shares with the service.

A row is its words. The in-memory clients do not raise, so the branches for a client that does
are left out, as are payloads, properties and the distance, which these clients drop.
-/

namespace Unlearning

open PyText FloatArith PyFloat

/-- A `float32` row, as words. -/
abbrev Row := List UInt32

/-- `np.all(row == 0.0)`: both zeros are zero. -/
def zeroRow (row : Row) : Bool := row.all fun w => w = 0 || w = 0x80000000

/-- A two-dimensional `float32` array. -/
structure FloatMatrix where
  width : ℕ
  rows : List Row
  rows_width : ∀ row ∈ rows, row.length = width

/-- The `vectors` argument after `asarray`. -/
inductive VectorsArg : Type where
  | vector (row : Row) : VectorsArg
  | matrix (m : FloatMatrix) : VectorsArg

/-- `vecs.reshape(1, -1)`, where there is one dimension. -/
def VectorsArg.reshaped : VectorsArg → FloatMatrix
  | vector row => ⟨row.length, [row], fun _ h => by rw [List.mem_singleton.mp h]⟩
  | matrix m => m

namespace Dict

variable {α β : Type} [DecidableEq α]

/-- Assignments in order. -/
def putAll (d : Dict α β) (l : List (α × β)) : Dict α β := l.foldl (fun d p => d.insert p.1 p.2) d

/-- `pop(key, None)` of every key. -/
def popAll (d : Dict α β) (l : List α) : Dict α β := l.foldl (fun d k => d.erase k) d

end Dict

/-! ## Clients -/

/-- The fields of `InMemoryQdrantClient`. -/
structure InMemoryQdrantClient where
  data : Dict String (Dict String Row)
  dims : Dict String ℤ

namespace InMemoryQdrantClient

/-- `InMemoryQdrantClient()` -/
def empty : InMemoryQdrantClient := ⟨∅, ∅⟩

/-- `_data.get(collection, {})` -/
def store (collection : String) (client : InMemoryQdrantClient) : Dict String Row :=
  (client.data.lookup collection).getD ∅

/-- `recreate_collection` -/
def recreateCollection (collection : String) (dim : ℤ) (client : InMemoryQdrantClient) :
    InMemoryQdrantClient where
  data := client.data.insert collection ∅
  dims := client.dims.insert collection dim

/-- `upsert_points`; `dim` is `vecs.shape[1]`. -/
def upsertPoints (collection : String) (dim : ℤ) (points : List (String × Row))
    (client : InMemoryQdrantClient) : InMemoryQdrantClient :=
  let client :=
    if collection ∈ client.data then client else client.recreateCollection collection dim
  { client with
    data := client.data.insert collection (Dict.putAll (client.store collection) points) }

/-- `delete_points`; of a collection that is not there, from a dictionary that is dropped. -/
def deletePoints (collection : String) (ids : List String) (client : InMemoryQdrantClient) :
    InMemoryQdrantClient :=
  match client.data.lookup collection with
  | none => client
  | some store => { client with data := client.data.insert collection (Dict.popAll store ids) }

/-- `get_point_vector` -/
def getPointVector (collection pointId : String) (client : InMemoryQdrantClient) : Option Row :=
  (client.store collection).lookup pointId

end InMemoryQdrantClient

/-- The fields of `InMemoryWeaviateClient`. -/
structure InMemoryWeaviateClient where
  objs : Dict String (Dict String Row)
  dims : Dict String ℤ

namespace InMemoryWeaviateClient

/-- `InMemoryWeaviateClient()` -/
def empty : InMemoryWeaviateClient := ⟨∅, ∅⟩

/-- `_objs.get(class_name, {})` -/
def store (className : String) (client : InMemoryWeaviateClient) : Dict String Row :=
  (client.objs.lookup className).getD ∅

/-- `ensure_class` -/
def ensureClass (className : String) (dim : ℤ) (client : InMemoryWeaviateClient) :
    InMemoryWeaviateClient where
  objs := client.objs.setDefault className ∅
  dims := client.dims.insert className dim

/-- `upsert_objects`; `dim` is `vecs.shape[1]`. -/
def upsertObjects (className : String) (dim : ℤ) (objects : List (String × Row))
    (client : InMemoryWeaviateClient) : InMemoryWeaviateClient :=
  let client := client.ensureClass className dim
  { client with
    objs := client.objs.insert className (Dict.putAll (client.store className) objects) }

/-- `delete_objects` -/
def deleteObjects (className : String) (ids : List String) (client : InMemoryWeaviateClient) :
    InMemoryWeaviateClient :=
  match client.objs.lookup className with
  | none => client
  | some store => { client with objs := client.objs.insert className (Dict.popAll store ids) }

/-- `clear_class` -/
def clearClass (className : String) (client : InMemoryWeaviateClient) : InMemoryWeaviateClient :=
  let dim := (client.dims.lookup className).getD 0
  { objs := client.objs.insert className ∅
    dims := if dim ≠ 0 then client.dims.insert className dim else client.dims }

/-- `count` -/
def count (className : String) (client : InMemoryWeaviateClient) : ℕ :=
  (client.store className).items.length

end InMemoryWeaviateClient

/-! ## The adapter -/

/-- What the two adapters do not share. -/
structure MatrixKind (κ : Type) where
  /-- what the client calls the collection: from the adapter's own and the argument -/
  key : String → String → String
  upsert : String → ℤ → List (String × Row) → κ → κ
  delete : String → List String → κ → κ
  /-- what `compact` empties the collection with -/
  rebuild : String → ℤ → κ → κ
  /-- what is asked for the id of a label that has none: the collection, the label -/
  externalOf : String → ℤ → Option String
  /-- the message of an erase -/
  erased : String
  /-- `_data.get(key, {})` -/
  points : String → κ → Dict String Row

/-- The fields of an adapter; the registry is in `MatrixState`. -/
structure MatrixAdapter (κ : Type) where
  dim : ℤ
  collection : String
  vectors : List Row
  labelToRow : Dict ℤ ℕ
  labelToExt : Dict ℤ String
  deleted : Finset ℤ
  client : κ

namespace MatrixAdapter

variable {κ : Type}

/-- `_vectors[_label_to_row[label]]`; `none` for a label without a row. -/
def row? (a : MatrixAdapter κ) (label : ℤ) : Option Row :=
  (a.labelToRow.lookup label).bind fun i => a.vectors[i]?

/-- `_append_row`, which Weaviate's `add` has inline, and the two assignments after it. -/
def place (label : ℤ) (ext : String) (row : Row) (a : MatrixAdapter κ) : MatrixAdapter κ :=
  let a := match a.labelToRow.lookup label with
    | some i => { a with vectors := a.vectors.set i row }
    | none =>
      { a with
        vectors := a.vectors ++ [row]
        labelToRow := a.labelToRow.insert label a.vectors.length }
  { a with labelToExt := a.labelToExt.insert label ext, deleted := a.deleted.erase label }

/-- The loop of `add`. -/
def addRows (printable : Char → Bool) (coll : String) :
    List (String × Row) → Registry → MatrixAdapter κ →
      Except RegistryError (List ℤ) × Registry × MatrixAdapter κ
  | [], reg, a => (.ok [], reg, a)
  | (ext, row) :: rest, reg, a => match reg.register printable coll ext none with
    | (.error e, reg) => (.error e, reg, a)
    | (.ok label, reg) => match addRows printable coll rest reg (a.place label ext row) with
      | (.ok labels, reg, a) => (.ok (label :: labels), reg, a)
      | (.error e, reg, a) => (.error e, reg, a)

/-- `verify_zeroed` -/
def verifyZeroed (label : ℤ) (a : MatrixAdapter κ) : Bool :=
  match a.labelToRow.lookup label with
  | none => false
  | some i => zeroRow (a.vectors[i]?.getD [])

/-- `get_vector`; a `KeyError` shows the label. -/
def getVector (label : ℤ) (a : MatrixAdapter κ) : Except String Row :=
  match a.labelToRow.lookup label with
  | none => .error (toString label)
  | some i => .ok (a.vectors[i]?.getD [])

/-- What `compact` keeps of one item of `_label_to_row`. -/
def liveRow? (a : MatrixAdapter κ) (item : ℤ × ℕ) : Option (String × Row) :=
  let row := a.vectors[item.2]?.getD []
  if item.1 ∈ a.deleted then none
  else if zeroRow row then none
  else some ((a.labelToExt.lookup item.1).getD (toString item.1), row)

/-- `live_ids` and `live_rows`, side by side. A label enters `_label_to_row` once, so the
items are in the order of insertion. -/
def liveRows (a : MatrixAdapter κ) : List (String × Row) :=
  a.labelToRow.items.reverse.filterMap a.liveRow?

end MatrixAdapter

namespace MatrixKind

variable {κ : Type} (kind : MatrixKind κ)

/-- The end of the constructor: `ensure_collection`, and the client prepared. -/
def start (dim : ℤ) (collection : String) (reg : Registry) (client : κ) :
    Except RegistryError (Registry × MatrixAdapter κ) :=
  if dim ≤ 0 then .error (.valueError "dim must be positive")
  else match Registry.normCollection collection with
    | .error e => .error e
    | .ok coll => .ok (reg.ensureCollection coll, ⟨dim, collection, [], ∅, ∅, ∅, client⟩)

/-- `add` -/
def add (printable : Char → Bool) (externalIds : List String) (vectors : VectorsArg)
    (collection : Option String) (reg : Registry) (a : MatrixAdapter κ) :
    Except RegistryError (List ℤ) × Registry × MatrixAdapter κ :=
  let coll := (collection.filter fun c => c ≠ "").getD a.collection
  let vecs := vectors.reshaped
  if (vecs.width : ℤ) ≠ a.dim then
    (.error (.valueError ("expected dim=" ++ toString a.dim ++ ", got " ++ toString vecs.width)),
      reg, a)
  else if externalIds.length ≠ vecs.rows.length then
    (.error (.valueError "external_ids and vectors length mismatch"), reg, a)
  else match a.addRows printable coll (externalIds.zip vecs.rows) reg with
    | (.error e, reg, a) => (.error e, reg, a)
    | (.ok labels, reg, a) =>
      -- `np.stack([])`
      if externalIds = [] then (.error (.valueError "need at least one array to stack"), reg, a)
      else
        (.ok labels, reg,
          { a with
            client := kind.upsert (kind.key a.collection coll) vecs.width
              (externalIds.zip vecs.rows) a.client })

/-- The id of a label that is erased, and `_label_to_ext` with what was asked for. -/
def extOf (collection : String) (label : ℤ) (a : MatrixAdapter κ) : String × Dict ℤ String :=
  match a.labelToExt.lookup label with
  | some ext => (ext, a.labelToExt)
  | none => match kind.externalOf collection label with
    | some ext => (ext, a.labelToExt.insert label ext)
    | none => (toString label, a.labelToExt)

/-- `hard_delete_label` -/
def hardDeleteLabel (collection : String) (label : ℤ) (a : MatrixAdapter κ) :
    BackendEraseResult × MatrixAdapter κ :=
  match a.labelToRow.lookup label with
  | none => (⟨false, 0, some "unknown label"⟩, a)
  | some i =>
    let original := a.vectors[i]?.getD []
    let named := kind.extOf collection label a
    (⟨true, 4 * original.length, some kind.erased⟩,
      { a with
        vectors := a.vectors.set i (original.map fun _ => 0)
        deleted := insert label a.deleted
        labelToExt := named.2
        client := kind.delete (kind.key a.collection collection) [named.1] a.client })

/-- `compact`; every row is `dim` wide. -/
def compact (a : MatrixAdapter κ) : ℕ × MatrixAdapter κ :=
  let live := a.liveRows
  let key := kind.key a.collection a.collection
  let client := kind.rebuild key a.dim a.client
  (live.length,
    { a with client := if live = [] then client else kind.upsert key a.dim live client })

/-- The adapter as the backend of the service; it has no `_heal_mirror`. -/
def backend (D : Type) [PyFloat D] : Backend (MatrixAdapter κ) D where
  hardDeleteLabel collection label _ a :=
    (.ok (kind.hardDeleteLabel collection label a).1, (kind.hardDeleteLabel collection label a).2)
  verifyZeroed _ label a := (.ok (a.verifyZeroed label), a)
  getVector := some fun label a => ((a.getVector label).map fun row => row.map ofFloat32, a)
  compact := some fun a => (.ok ((kind.compact a).1 : ℤ), (kind.compact a).2)
  vectorRows := some fun a => .ok a.vectors.length
  healMirror := false

end MatrixKind

/-! ## The two adapters -/

/-- `QdrantHardDeleteAdapter`, over the in-memory client; `registry.external_of` is asked for
an id that the adapter does not have. -/
def QdrantHardDeleteAdapter (externalOf : String → ℤ → Option String) :
    MatrixKind InMemoryQdrantClient where
  key own collection := if collection = "" then own else collection
  upsert := InMemoryQdrantClient.upsertPoints
  delete := InMemoryQdrantClient.deletePoints
  rebuild := InMemoryQdrantClient.recreateCollection
  externalOf := externalOf
  erased := "zeroed+qdrant_delete"
  points := InMemoryQdrantClient.store

/-- `QdrantHardDeleteAdapter(dim, …)` -/
def QdrantHardDeleteAdapter.new (dim : ℤ) (collection : String) (reg : Registry)
    (client : InMemoryQdrantClient) (ensureCollection : Bool) :
    Except RegistryError (Registry × MatrixAdapter InMemoryQdrantClient) :=
  MatrixKind.start dim collection reg
    (if ensureCollection then client.recreateCollection collection dim else client)

/-- `class_name`; `upper` is `str.upper` of one character. -/
def className (upper : Char → List Char) (collection : String) : String :=
  match collection.toList with
  | [] => "Document"
  | c :: rest => String.ofList (upper c ++ rest)

/-- `WeaviateHardDeleteAdapter`, over the in-memory client; an id that it does not have is the
label's text. -/
def WeaviateHardDeleteAdapter (upper : Char → List Char) : MatrixKind InMemoryWeaviateClient where
  key own _ := className upper own
  upsert := InMemoryWeaviateClient.upsertObjects
  delete := InMemoryWeaviateClient.deleteObjects
  rebuild name dim client := (client.clearClass name).ensureClass name dim
  externalOf _ _ := none
  erased := "zeroed+weaviate_delete"
  points := InMemoryWeaviateClient.store

/-- `WeaviateHardDeleteAdapter(dim, …)` -/
def WeaviateHardDeleteAdapter.new (upper : Char → List Char) (dim : ℤ) (collection : String)
    (reg : Registry) (client : InMemoryWeaviateClient) :
    Except RegistryError (Registry × MatrixAdapter InMemoryWeaviateClient) :=
  MatrixKind.start dim collection reg (client.ensureClass (className upper collection) dim)

/-! ## Runs -/

/-- The settings of a service over a matrix adapter. -/
structure MatrixConfig (D : Type) where
  dropMappings : Bool
  defaultCompact : CompactMode
  defaultResidualProof : Option ProofMode
  receiptLog : Option (ErasureReceipt D → Option LogFailure)
  signingKey : List UInt8

/-- `ErasureService(registry, adapter, …)`, without a persistence engine. -/
def MatrixConfig.service {κ D : Type} [PyFloat D] (kind : MatrixKind κ) (cfg : MatrixConfig D) :
    Service (MatrixAdapter κ) D where
  backend := kind.backend D
  persistence := none
  dropMappings := cfg.dropMappings
  defaultCompact := cfg.defaultCompact
  defaultResidualProof := cfg.defaultResidualProof
  receiptLog := cfg.receiptLog.map fun append receipt a => (append receipt, a)
  signingKey := cfg.signingKey

/-- A call on the adapter or on a service over it. -/
inductive MatrixCall (κ D : Type) [PyFloat D] : Type where
  | add (externalIds : List String) (vectors : VectorsArg) (collection : Option String) :
    MatrixCall κ D
  /-- by a service with these settings, in the state of its policy at the time -/
  | delete (cfg : MatrixConfig D) (policy : CompactCoalescePolicy D)
      (amb : Ambient (MatrixAdapter κ) D) (call : DeleteCall) : MatrixCall κ D
  | compact : MatrixCall κ D

/-- The registry, and the adapter that shares it with the services. -/
structure MatrixState (κ : Type) where
  registry : Registry
  adapter : MatrixAdapter κ

namespace MatrixState

variable {κ D : Type} [PyFloat D]

/-- `delete`, by a service with these settings. -/
def delete (kind : MatrixKind κ) (cfg : MatrixConfig D) (policy : CompactCoalescePolicy D)
    (amb : Ambient (MatrixAdapter κ) D) (call : DeleteCall) (st : MatrixState κ) :
    Service.Deletion (MatrixAdapter κ) D :=
  (cfg.service kind).delete amb call ⟨st.registry, st.adapter, policy⟩

/-- The state after a call, whether or not it raised. -/
def step (kind : MatrixKind κ) (printable : Char → Bool) (st : MatrixState κ) :
    MatrixCall κ D → MatrixState κ
  | .add externalIds vectors collection =>
    let after := (kind.add printable externalIds vectors collection st.registry st.adapter).2
    ⟨after.1, after.2⟩
  | .delete cfg policy amb call =>
    let after := (st.delete kind cfg policy amb call).state
    ⟨after.registry, after.outside⟩
  | .compact => ⟨st.registry, (kind.compact st.adapter).2⟩

/-- The state after a run. -/
def run (kind : MatrixKind κ) (printable : Char → Bool) (calls : List (MatrixCall κ D))
    (st : MatrixState κ) : MatrixState κ :=
  calls.foldl (step kind printable) st

end MatrixState

end Unlearning
