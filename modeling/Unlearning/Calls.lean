import Unlearning.Checked
import Unlearning.Reached

/-!
# The proxy as a state machine

Every public call that changes the index, as a `Call`; a client is a list of them, successful or
throwing. On a well-formed index no row, list or `visited` index of the search, the heal or the
save is out of bounds. The loads say what they load before they allocate it: `WellFormed` holds
after every call of a list exactly if no allocation of a load throws.
-/

namespace Unlearning

namespace Index

/-- A call that may change the index, with what it meets. -/
inductive Call : Type where
  | loadIndex (memory : Memory) (source : Option Buffer) (dimensions numElements : ℕ)
  | attachIndex (memory : Memory) (source : Option Buffer) (dimensions numElements : ℕ)
  | loadAdjacency (adjacency : Layered ℤ)
  | setNeighbors (env : NativeEnv) (nodeId layer : ℤ) (neighbors : List ℤ)
  | overwriteVector (env : NativeEnv) (nodeId : ℤ)
  | pruneAdjacency (env : NativeEnv) (nodeId : ℤ)
  | healGraphStructure (env : NativeEnv) (nodeId : ℕ) (maxM : ℤ)
  | eraseNode (env : NativeEnv) (nodeId maxM : ℤ)
  | loadFromFile (path : String) (file : Option (List UInt8))

/-- What a call returns. -/
inductive Answer : Type where
  | done
  | metrics (m : HealingMetrics)
  | erasure (r : ErasureResult)

/-- A call, and the index that it leaves. -/
def Call.apply (D : Type) [FloatArith D] (ix : Index) : Call → Except NativeError Answer × Index
  | loadIndex memory source d n => (ix.loadIndex memory source d n).map (·.map fun _ => .done) id
  | attachIndex memory source d n =>
    (ix.attachIndex memory source d n).map (·.map fun _ => .done) id
  | loadAdjacency adj => (ix.loadAdjacency adj).map (·.map fun _ => .done) id
  | setNeighbors env v L nbrs => (ix.setNeighbors env v L nbrs).map (·.map fun _ => .done) id
  | overwriteVector env v => (ix.overwriteVector env v).map (·.map fun _ => .done) id
  | pruneAdjacency env v => (ix.pruneAdjacency env v).map (·.map fun _ => .done) id
  | healGraphStructure env n maxM => (ix.healGraphStructure D env n maxM).map (·.map .metrics) id
  | eraseNode env v maxM => (ix.eraseNode D env v maxM).map (·.map .erasure) id
  | loadFromFile path file => (ix.loadFromFile path file).map (·.map fun _ => .done) id

/-- The index after a list of calls. -/
def runCalls (D : Type) [FloatArith D] (calls : List Call) (ix : Index) : Index :=
  calls.foldl (fun ix c => (c.apply D ix).2) ix

/-- The product of the sizes does not wrap, and the buffer has that length. -/
def Call.Fitting : Call → Prop
  | loadIndex _ source d n => d * n < 2 ^ 64 ∧ ∀ b, source = some b → b.words.length = d * n
  | attachIndex _ source d n => d * n < 2 ^ 64 ∧ ∀ b, source = some b → b.words.length = d * n
  | _ => True

/-- Something is to be loaded, and the checks let it through. -/
def Loads (source : Option Buffer) (d n : ℕ) : Prop := source.isSome = true ∧ 0 < d ∧ 0 < n

/-- The allocations of a load do not throw, where it comes to them. -/
def Call.Backed : Call → Prop
  | loadIndex memory source d n =>
    Loads source d n → memory.newThrows (d * n) = none ∧ memory.assignThrows n = none
  | attachIndex memory source d n => Loads source d n → memory.assignThrows n = none
  | _ => True

/-! ## Each call keeps the invariant -/

section Preserves

variable {ix : Index}

theorem WellFormed.sized (h : ix.WellFormed) : Checked.Sized ix.numElements ix.adjacency :=
  ⟨h.nodes, h.labels⟩

/-- A fresh adjacency has no labels. -/
theorem labelsIn_replicate (N n : ℕ) : LabelsIn N (List.replicate n []) :=
  labelsIn_iff.mpr (by simp)

/-- What the shared checks of the loaders let through. -/
theorem checkSource_ok {who : String} {source : Option Buffer} {d n : ℕ}
    (h : checkSource who source d n = .ok ()) : n = 0 ∨ 0 < d ∧ ∃ b, source = some b := by
  rcases Nat.eq_zero_or_pos n with hn | hn
  · exact Or.inl hn
  · simp only [checkSource, hn, true_and] at h
    split at h
    · cases h
    · split at h
      · cases h
      · rename_i hsource hd
        refine Or.inr ⟨by omega, ?_⟩
        rcases source with _ | b
        · simp at hsource
        · exact ⟨b, rfl⟩

/-- Nothing is loaded: no words, no nodes. -/
theorem wellFormed_unloaded (ownsData : Bool) (dim : ℕ) :
    WellFormed ⟨none, ownsData, dim, 0, -1, []⟩ where
  words := by simp [Index.words]
  nodes := rfl
  labels := labelsIn_replicate 0 0
  entrypoint := Or.inl (by decide : (-1 : ℤ) < 0)

/-- What a load that is over leaves. -/
theorem wellFormed_withNodes (hwords : ix.words.length = ix.numElements * ix.dim) :
    ix.withNodes.WellFormed where
  words := hwords
  nodes := by simp [withNodes]
  labels := labelsIn_replicate _ _
  entrypoint := by
    rw [withNodes]
    dsimp only
    split <;> omega

theorem checkSource_loads {who : String} {source : Option Buffer} {d n : ℕ}
    (h : Loads source d n) : checkSource who source d n = .ok () := by
  obtain ⟨hsource, hd, -⟩ := h
  obtain ⟨b, rfl⟩ := Option.isSome_iff_exists.mp hsource
  rw [checkSource, if_neg (by simp), if_neg (by omega)]

/-- A load of nothing, or one that its checks refuse. -/
theorem WellFormed.loadIndex_of_not_loads (h : ix.WellFormed) (memory : Memory)
    {source : Option Buffer} {d n : ℕ} (hwrap : d * n < 2 ^ 64) (hno : ¬ Loads source d n) :
    (ix.loadIndex memory source d n).2.WellFormed := by
  have htotal : sizeMul d n = d * n := Nat.mod_eq_of_lt hwrap
  simp only [Index.loadIndex, htotal]
  split
  · exact h
  · rename_i hok
    rcases checkSource_ok hok with rfl | ⟨hd, b, rfl⟩
    · exact wellFormed_unloaded true d
    · obtain rfl : n = 0 := Nat.eq_zero_of_not_pos fun hn => hno ⟨rfl, hd, hn⟩
      exact wellFormed_unloaded true d

/-- What a load leaves after its allocations, and after each that throws. -/
theorem loadIndex_of_loads (ix : Index) (memory : Memory) {source : Option Buffer} {d n : ℕ}
    (hloads : Loads source d n) (hwrap : d * n < 2 ^ 64)
    (hlen : ∀ b, source = some b → b.words.length = d * n) :
    ∃ words : Buffer, words.words.length = d * n ∧
      ix.loadIndex memory source d n =
        match memory.newThrows (d * n), memory.assignThrows n with
        | some e, _ => (.error e, ⟨none, true, d, n, -1, []⟩)
        | none, some e => (.error e, ⟨some words, true, d, n, -1, []⟩)
        | none, none => (.ok (), (⟨some words, true, d, n, -1, []⟩ : Index).withNodes) := by
  have htotal : sizeMul d n = d * n := Nat.mod_eq_of_lt hwrap
  have hcheck := @checkSource_loads "load_index" _ _ _ hloads
  obtain ⟨hsource, hd, hn⟩ := hloads
  obtain ⟨b, rfl⟩ := Option.isSome_iff_exists.mp hsource
  -- the source is a buffer of this length, so the copy fits too
  have hb := hlen b rfl
  have hfits : 4 * (d * n) < 2 ^ 63 := hb ▸ b.fits
  have hpos := Nat.mul_pos hd hn
  refine ⟨.copy b.words (d * n) hfits, by simp [Buffer.copy, hb], ?_⟩
  simp only [Index.loadIndex, hcheck, htotal, if_neg hpos.ne', dif_pos hfits, Memory.assign,
    if_neg hn.ne', Option.map_some, Option.getD_some]
  rcases memory.newThrows (d * n) with _ | e
  · rcases memory.assignThrows n with _ | e
    · rfl
    · rfl
  · rfl

/-- **A load keeps the invariant** if its allocations do not throw. -/
theorem WellFormed.loadIndex (h : ix.WellFormed) {memory : Memory} {source : Option Buffer}
    {d n : ℕ} (hwrap : d * n < 2 ^ 64) (hlen : ∀ b, source = some b → b.words.length = d * n)
    (hbacked : (Call.loadIndex memory source d n).Backed) :
    (ix.loadIndex memory source d n).2.WellFormed := by
  by_cases hloads : Loads source d n
  · obtain ⟨words, hwords, heq⟩ := loadIndex_of_loads ix memory hloads hwrap hlen
    obtain ⟨hnew, hassign⟩ := hbacked hloads
    rw [heq, hnew, hassign]
    exact wellFormed_withNodes (hwords.trans (Nat.mul_comm d n))
  · exact h.loadIndex_of_not_loads memory hwrap hloads

/-- An attach of nothing, or one that its checks refuse. -/
theorem WellFormed.attachIndex_of_not_loads (h : ix.WellFormed) (memory : Memory)
    {source : Option Buffer} {d n : ℕ} (hlen : ∀ b, source = some b → b.words.length = d * n)
    (hno : ¬ Loads source d n) : (ix.attachIndex memory source d n).2.WellFormed := by
  rw [Index.attachIndex]
  split
  · exact h
  · rename_i hok
    obtain rfl : n = 0 := by
      rcases checkSource_ok hok with hn | ⟨hd, b, rfl⟩
      · exact hn
      · exact Nat.eq_zero_of_not_pos fun hn => hno ⟨rfl, hd, hn⟩
    rw [Memory.assign, if_pos rfl]
    refine wellFormed_withNodes ?_
    rcases source with _ | b
    · simp [Index.words]
    · simp [Index.words, hlen b rfl]

/-- What an attach leaves after its allocation, and after one that throws. -/
theorem attachIndex_of_loads (ix : Index) (memory : Memory) {source : Option Buffer} {d n : ℕ}
    (hloads : Loads source d n) :
    ix.attachIndex memory source d n =
      match memory.assignThrows n with
      | some e => (.error e, ⟨source, false, d, n, -1, []⟩)
      | none => (.ok (), (⟨source, false, d, n, -1, []⟩ : Index).withNodes) := by
  have hcheck := @checkSource_loads "attach_index" _ _ _ hloads
  obtain ⟨-, -, hn⟩ := hloads
  simp only [Index.attachIndex, hcheck, Memory.assign, if_neg hn.ne']
  rcases memory.assignThrows n with _ | e
  · rfl
  · rfl

/-- **An attach keeps the invariant** if its allocation does not throw. -/
theorem WellFormed.attachIndex (h : ix.WellFormed) {memory : Memory} {source : Option Buffer}
    {d n : ℕ} (hlen : ∀ b, source = some b → b.words.length = d * n)
    (hbacked : (Call.attachIndex memory source d n).Backed) :
    (ix.attachIndex memory source d n).2.WellFormed := by
  by_cases hloads : Loads source d n
  · rw [attachIndex_of_loads ix memory hloads, hbacked hloads]
    refine wellFormed_withNodes ?_
    obtain ⟨b, rfl⟩ := Option.isSome_iff_exists.mp hloads.1
    exact (hlen b rfl).trans (Nat.mul_comm d n)
  · exact h.attachIndex_of_not_loads memory hlen hloads

/-- Elements without an adjacency break the invariant. -/
theorem not_wellFormed_of_no_nodes (hn : 0 < ix.numElements) (hadj : ix.adjacency = []) :
    ¬ ix.WellFormed := by
  intro h
  have hnodes := h.nodes
  rw [hadj, List.length_nil] at hnodes
  omega

/-- Labels that pass the range check. -/
theorem forall_of_find?_inRange {l : List ℤ}
    (h : (l.find? fun nb => !ix.inRange nb) = none) : ∀ nb ∈ l, 0 ≤ nb ∧ nb < ix.numElements := by
  intro nb hnb
  have hin := List.find?_eq_none.mp h nb hnb
  obtain ⟨v, rfl, hv⟩ := inRange_iff.mp (by simpa using hin)
  exact ⟨by omega, by omega⟩

theorem WellFormed.loadAdjacency (h : ix.WellFormed) (adj : Layered ℤ) :
    (ix.loadAdjacency adj).2.WellFormed := by
  rw [Index.loadAdjacency]
  split
  · exact h
  · split
    · exact h
    · rename_i hlen
      split
      · exact h
      · rename_i hnone
        exact ⟨h.words, by simpa using hlen,
          labelsIn_iff.mpr (forall_of_find?_inRange hnone), h.entrypoint⟩

theorem WellFormed.setNeighbors (h : ix.WellFormed) (env : NativeEnv) (nodeId layer : ℤ)
    (neighbors : List ℤ) : (ix.setNeighbors env nodeId layer neighbors).2.WellFormed := by
  rw [Index.setNeighbors]
  split
  · exact h
  · rename_i hnode
    obtain ⟨-, -, hlt⟩ := ensureNode_eq_ok.mp hnode
    have hslot := Checked.inside_ensureLayerSlot h.sized hlt (asSize layer)
    split
    · exact h
    · split
      · exact h
      · simp only
        split
        · exact ⟨h.words, hslot.sized.nodes, hslot.sized.labels, h.entrypoint⟩
        · rename_i hnone
          have hput := Checked.inside_put hslot.sized (asSize nodeId) (asSize layer)
            (forall_of_find?_inRange hnone)
          exact ⟨h.words, hput.sized.nodes, hput.sized.labels, h.entrypoint⟩

theorem WellFormed.wipeRow (h : ix.WellFormed) (n : ℕ) : (ix.wipeRow n).WellFormed where
  words := by rw [words_wipeRow, List.length_mapIdx]; exact h.words
  nodes := h.nodes
  labels := h.labels
  entrypoint := h.entrypoint

theorem WellFormed.overwriteVector (h : ix.WellFormed) (env : NativeEnv) (nodeId : ℤ) :
    (ix.overwriteVector env nodeId).2.WellFormed := by
  rcases overwriteVector_cases env nodeId ix with ⟨-, -, heq⟩ | ⟨e, heq⟩
  · rw [heq]
    exact h.wipeRow _
  · rw [heq]
    exact h

theorem WellFormed.pruneAdjacency (h : ix.WellFormed) (env : NativeEnv) (nodeId : ℤ) :
    (ix.pruneAdjacency env nodeId).2.WellFormed := by
  rw [Index.pruneAdjacency]
  split
  · exact h
  · split
    · exact h
    · refine ⟨h.words, by simpa using h.nodes, fun v L nb hnb => ?_, h.entrypoint⟩
      rw [Layered.nbrs_clear] at hnb
      split at hnb
      · cases hnb
      · rw [Layered.nbrs_map (by rfl)] at hnb
        exact h.labels v L nb (List.mem_filter.mp hnb).1

theorem retireEntrypoint_bound {n : ℕ} {ep : ℤ} (h : ep < 0 ∨ ep < ix.numElements) :
    ix.retireEntrypoint ep n < 0 ∨ ix.retireEntrypoint ep n < ix.numElements := by
  rw [retireEntrypoint]
  split
  · split
    · rename_i i hfind
      have hi := List.mem_range.mp (List.mem_of_find?_eq_some hfind)
      exact Or.inr (by omega)
    · exact Or.inl (by decide)
  · exact h

variable {D : Type} [FloatArith D]

theorem WellFormed.healed (h : ix.WellFormed) {n : ℕ} {maxM : ℤ} (hpos : 0 < maxM)
    (hn : n < ix.numElements) : (ix.healed D n maxM).WellFormed := by
  obtain ⟨-, hs⟩ := Checked.healLocked_eq_some (D := D) h.words hpos hn h.sized
  exact ⟨h.words, hs.nodes, hs.labels, retireEntrypoint_bound h.entrypoint⟩

theorem WellFormed.healGraphStructure (h : ix.WellFormed) (env : NativeEnv) (n : ℕ) (maxM : ℤ) :
    (ix.healGraphStructure D env n maxM).2.WellFormed := by
  rcases healGraphStructure_cases (D := D) ix env n maxM with
    ⟨⟨hpos, -, hn, -⟩, hm, -, heq⟩ | ⟨-, e, heq⟩
  · rw [heq]
    exact h.healed hpos hn
  · rw [heq]
    exact h

theorem WellFormed.eraseNode (h : ix.WellFormed) (env : NativeEnv) (nodeId maxM : ℤ) :
    (ix.eraseNode D env nodeId maxM).2.WellFormed := by
  rcases eraseNode_cases (D := D) ix env nodeId maxM with
    ⟨hok, r, -, heq⟩ | ⟨-, e, heq⟩ | ⟨-, -, e, heq⟩
  · rw [heq]
    exact (h.wipeRow _).healed hok.maxM_pos hok.lt
  · rw [heq]
    exact h
  · rw [heq]
    exact h.wipeRow _

theorem WellFormed.loadFromFile (h : ix.WellFormed) (path : String)
    (file : Option (List UInt8)) : (ix.loadFromFile path file).2.WellFormed := by
  rcases loadFromFile_cases path file ix with ⟨e, heq⟩ | ⟨img, hsound, heq⟩
  · rw [heq]
    exact h
  · rw [heq]
    exact hsound.wellFormed_install ix

/-- **One call**, returning or throwing, keeps the invariant if no allocation of a load throws. -/
theorem WellFormed.apply (h : ix.WellFormed) {c : Call} (hc : c.Fitting) (hbacked : c.Backed) :
    (c.apply D ix).2.WellFormed := by
  cases c with
  | loadIndex memory source d n => exact h.loadIndex hc.1 hc.2 hbacked
  | attachIndex memory source d n => exact h.attachIndex hc.2 hbacked
  | loadAdjacency adj => exact h.loadAdjacency adj
  | setNeighbors env v L nbrs => exact h.setNeighbors env v L nbrs
  | overwriteVector env v => exact h.overwriteVector env v
  | pruneAdjacency env v => exact h.pruneAdjacency env v
  | healGraphStructure env n maxM => exact h.healGraphStructure env n maxM
  | eraseNode env v maxM => exact h.eraseNode env v maxM
  | loadFromFile path file => exact h.loadFromFile path file

/-- **One load** whose allocation throws leaves elements without an adjacency. -/
theorem backed_of_wellFormed_apply {c : Call} (hc : c.Fitting)
    (h : (c.apply D ix).2.WellFormed) : c.Backed := by
  cases c with
  | loadIndex memory source d n =>
    intro hloads
    obtain ⟨words, -, heq⟩ := loadIndex_of_loads ix memory hloads hc.1 hc.2
    rw [Call.apply, heq] at h
    rcases hnew : memory.newThrows (d * n) with _ | e
    · rcases hassign : memory.assignThrows n with _ | e
      · exact ⟨rfl, rfl⟩
      · rw [hnew, hassign] at h
        exact absurd h (not_wellFormed_of_no_nodes hloads.2.2 rfl)
    · rw [hnew] at h
      exact absurd h (not_wellFormed_of_no_nodes hloads.2.2 rfl)
  | attachIndex memory source d n =>
    intro hloads
    rw [Call.apply, attachIndex_of_loads ix memory hloads] at h
    rcases hassign : memory.assignThrows n with _ | e
    · rfl
    · rw [hassign] at h
      exact absurd h (not_wellFormed_of_no_nodes hloads.2.2 rfl)
  | loadAdjacency | setNeighbors | overwriteVector | pruneAdjacency | healGraphStructure |
    eraseNode | loadFromFile => trivial

theorem runCalls_append (before after : List Call) :
    ix.runCalls D (before ++ after) = (ix.runCalls D before).runCalls D after :=
  List.foldl_append

/-- A list of calls. -/
theorem WellFormed.runCalls {calls : List Call} (hcalls : ∀ c ∈ calls, c.Fitting)
    (hbacked : ∀ c ∈ calls, c.Backed) (h : ix.WellFormed) : (ix.runCalls D calls).WellFormed :=
  List.foldlRecOn (motive := fun ix : Index => ix.WellFormed) calls _ h
    fun _ hix c hc => hix.apply (hcalls c hc) (hbacked c hc)

/-- **Every list of calls**: the invariant holds after each of them exactly if no allocation of a
load throws. -/
theorem wellFormed_runCalls_iff {calls : List Call} (hcalls : ∀ c ∈ calls, c.Fitting)
    (h : ix.WellFormed) :
    (∀ before, before <+: calls → (ix.runCalls D before).WellFormed) ↔
      ∀ c ∈ calls, c.Backed := by
  constructor
  · intro hall c hc
    obtain ⟨before, after, rfl⟩ := List.append_of_mem hc
    have hlast := hall (before ++ [c]) ⟨after, by simp⟩
    rw [runCalls_append] at hlast
    exact backed_of_wellFormed_apply (hcalls c hc) hlast
  · intro hbacked before hbefore
    exact h.runCalls (fun c hc => hcalls c (hbefore.subset hc))
      fun c hc => hbacked c (hbefore.subset hc)

end Preserves

/-! ## No index is out of bounds -/

section Bounds

variable {D : Type} [FloatArith D] {ix : Index}

/-- The labels in range are closed under every list. -/
theorem closed_inRange (ix : Index) (L : ℕ) : Walk.Closed ix L {x | ix.inRange x = true} :=
  ⟨fun _ hx => hx, fun _ _ _ _ hr => hr⟩

theorem inRange_searchEntry (hloaded : ix.isLoaded = true) (entryNode : ℤ) :
    ix.inRange (ix.searchEntry entryNode) = true := by
  have hpos : 0 < ix.numElements := by
    rw [isLoaded, Bool.and_eq_true, decide_eq_true_iff] at hloaded
    exact hloaded.1
  simp only [searchEntry]
  generalize (if entryNode < 0 then ix.entrypoint else entryNode) = curr
  split
  · exact inRange_iff.mpr ⟨0, rfl, hpos⟩
  · rename_i hin
    rw [inRange]
    simp
    omega

/-- **The search stays in bounds** on a well-formed index. -/
theorem WellFormed.searchKnn_ne_undefined (h : ix.WellFormed) {query : List UInt32}
    (hquery : query.length = ix.dim) (acquires : ℕ → Bool) (locks : LockManager)
    (std : StdOrder (SearchHit.less D)) (fuel k : ℕ) (entryNode : ℤ) (s : SearchState) :
    (Walk.searchKnn (.fixed acquires ix) locks std (some query) fuel k entryNode s).1 ≠
      .error .undefined := by
  have hsafe : Walk.Gives
      (Walk.searchKnn (.fixed acquires ix) locks std (some query) fuel k entryNode)
      (fun _ => True) fun e => e ≠ .undefined := by
    by_cases hloaded : ix.isLoaded = true
    · refine (Walk.gives_searchKnn h.words hquery.ge hloaded (closed_inRange ix)
        (inRange_searchEntry hloaded entryNode) fuel k).mono (fun _ _ => trivial) ?_
      rintro _ he rfl
      exact he
    · rw [Walk.searchKnn]
      split
      · exact Walk.gives_pure trivial
      · refine (Walk.gives_alter _).bind fun _ _ => Walk.Gives.withDestructor ?_ _
        refine Walk.gives_here.bind ?_
        rintro _ rfl
        rw [if_pos (by simpa using hloaded)]
        exact Walk.gives_raise (by simp)
  rcases hsafe s trivial with ⟨hits, s', heq, -⟩ | ⟨e, s', heq, he⟩
  · rw [heq]
    simp
  · rw [heq]
    simpa using he

/-- **The representation invariant**, and what rests on it: no row, list or `visited` index that
the heal, the save or the search (with a query of length `dim`) computes is out of bounds. -/
structure InBounds (D : Type) [FloatArith D] (ix : Index) : Prop where
  wellFormed : ix.WellFormed
  heal : ∀ env n maxM, Checked.healGraphStructure D ix env n maxM =
    some (ix.healGraphStructure D env n maxM)
  save : Checked.saveToFile ix = some ix.saveToFile
  search : ∀ acquires locks (std : StdOrder (SearchHit.less D)) query fuel k entryNode,
    query.length = ix.dim →
    (Walk.searchKnn (.fixed acquires ix) locks std (some query) fuel k entryNode Walk.start).1 ≠
      .error .undefined

theorem WellFormed.inBounds (h : ix.WellFormed) : InBounds D ix where
  wellFormed := h
  heal env n maxM := Checked.healGraphStructure_eq_some h.words h.sized env n maxM
  save := Checked.saveToFile_eq_some h
  search acquires locks std _ fuel k entryNode hquery :=
    h.searchKnn_ne_undefined hquery acquires locks std fuel k entryNode _

/-- **The representation invariant holds after every call** of a list from a fresh proxy, successful
or throwing, exactly if the allocations of its loads do not throw; the loaders are given buffers
of the size they are told. -/
theorem runCalls_inBounds_iff {calls : List Call} (hcalls : ∀ c ∈ calls, c.Fitting) :
    (∀ before, before <+: calls → InBounds D (runCalls D before empty)) ↔
      ∀ c ∈ calls, c.Backed := by
  rw [← wellFormed_runCalls_iff (D := D) hcalls (wellFormed_unloaded false 0)]
  exact forall₂_congr fun before _ => ⟨InBounds.wellFormed, WellFormed.inBounds⟩

end Bounds

/-- Three rows, a star, the centre erased. -/
def starErased : List Call :=
  [.loadIndex .ample (some ⟨[1073741824, 1065353216, 1077936128], by simp⟩) 1 3,
    .loadAdjacency [[[1, 2]], [[0]], [[0]]], .eraseNode .calm 0 16]

theorem runCalls_inBounds_starErased :
    InBounds Float (runCalls Float (starErased.take 2) empty) ∧
      InBounds Float (runCalls Float starErased empty) := by
  have hfitting : ∀ c ∈ starErased, c.Fitting := by
    simp [starErased, Call.Fitting]
  have hbacked : ∀ c ∈ starErased, c.Backed := by
    simp [starErased, Call.Backed, Memory.ample]
  have hall := (runCalls_inBounds_iff (D := Float) hfitting).mpr hbacked
  exact ⟨hall _ (List.take_prefix 2 starErased), hall _ (List.prefix_refl starErased)⟩

/-- The words fit in memory, the two nodes do not. -/
def tightMemory : Memory := ⟨fun _ => none, fun _ => some ⟨.badAlloc, "std::bad_alloc"⟩⟩

/-- Two rows. -/
def loadedTight : List Call :=
  [.loadIndex tightMemory (some ⟨[1073741824, 1065353216], by simp⟩) 1 2]

/-- **Nodes without an adjacency**: the proxy says that it is loaded, with two elements, and a heal
reads past the end of `adjacency_`. -/
theorem loadedTight_not_inBounds :
    (∀ c ∈ loadedTight, c.Fitting) ∧ ¬ InBounds Float (runCalls Float loadedTight empty) ∧
      (runCalls Float loadedTight empty).isLoaded = true ∧
      (runCalls Float loadedTight empty).numElements = 2 ∧
      (runCalls Float loadedTight empty).adjacency = [] := by
  refine ⟨by simp [loadedTight, Call.Fitting], fun h => ?_, rfl, rfl, rfl⟩
  exact not_wellFormed_of_no_nodes Nat.two_pos rfl h.wellFormed

end Index

end Unlearning
