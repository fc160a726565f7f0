import Mathlib.Tactic.NormNum
import Unlearning.Bytes
import Unlearning.Index

/-!
# `index.bin` (`src/hnsw_helper.hpp`, `save_to_file` and `load_from_file`)

The file is a header, the vector words, and one length-prefixed block per node.
The writer casts its counts to `uint32`, the reader checks every label, so the
round trip needs the bounds in `Savable`; within them it is exact.

Stream failures are not modelled here: a save that fails half way is a fault of
the persistence layer, which only ever saves to a temporary file.
-/

namespace Unlearning

namespace Index

/-! ## Writing -/

/-- The magic number `HNSW`. -/
def fileMagic : List UInt8 := [0x48, 0x4E, 0x53, 0x57]

/-- One neighbour list: its degree as `uint32`, then the labels. -/
def encodeList (nbrs : List ℤ) : List UInt8 :=
  leBytes 4 nbrs.length ++ nbrs.flatMap fun nb => leBytes 8 (i64Bits nb)

/-- One node: the number of layers as `uint32`, then that many lists. -/
def encodeNode (layers : List (List ℤ)) : List UInt8 :=
  leBytes 4 layers.length ++ (layers.take (layers.length % 2 ^ 32)).flatMap encodeList

/-- `save_to_file`: the bytes of the file. -/
def saveToFile (ix : Index) : Except NativeError (List UInt8) :=
  if !ix.isLoaded then
    .error ⟨.logicError, "save_to_file: no index loaded; call load_index first"⟩
  else .ok (fileMagic ++ (leBytes 4 1 ++ (leBytes 8 ix.numElements ++ (leBytes 8 ix.dim ++
    (leBytes 8 (i64Bits ix.entrypoint) ++
    ((ix.words.take (sizeMul ix.numElements ix.dim)).flatMap (fun w => leBytes 4 w.toNat) ++
    ((List.range ix.numElements).map ix.adjacency.layersOf).flatMap encodeNode))))))

/-! ## Reading -/

/-- What `load_from_file` has read before it touches the index. -/
structure FileImage where
  n : ℕ
  d : ℕ
  ep : ℤ
  vectors : Option Buffer
  adj : Layered ℤ

/-- `read_pod`, for an unsigned word. -/
def readPod (path : String) (w : ℕ) : Reader NativeError ℕ :=
  Reader.word ⟨.runtimeError, "load_from_file: truncated or corrupt file " ++ path⟩ w

/-- The first field is not the magic number. -/
def badMagic : NativeError :=
  ⟨.runtimeError, "load_from_file: bad magic (not an HNSW index blob)"⟩

/-- The file ends within the vectors. -/
def badPayload : NativeError := ⟨.runtimeError, "load_from_file: truncated vector payload"⟩

/-- A label of a list is not a node. -/
def badNeighbor : NativeError := ⟨.runtimeError, "load_from_file: neighbor out of range"⟩

/-- The magic number. A short read leaves zeroes and is a bad magic too. -/
def readMagic : Reader NativeError Unit := fun bs =>
  if bs.take 4 = fileMagic then .ok ((), bs.drop 4) else .error badMagic

/-- The vector payload: a buffer of `total` floats, filled from the file. -/
def readVectors (total : ℕ) : Reader NativeError (Option Buffer) :=
  if total = 0 then pure none
  else if h : 4 * total < 2 ^ 63 then do
    let ws ← Reader.times (Reader.word badPayload 4) total
    pure (some (.copy (ws.map UInt32.ofNat) total h))
  else throw ⟨.badAlloc, "std::bad_array_new_length"⟩

/-- One label, checked against the number of elements. -/
def readLabel (path : String) (n : ℕ) : Reader NativeError ℤ := do
  let bits ← readPod path 8
  Reader.failIf (i64OfBits bits < 0 ∨ n ≤ asSize (i64OfBits bits)) badNeighbor
  pure (i64OfBits bits)

/-- One neighbour list. -/
def readList (path : String) (n : ℕ) : Reader NativeError (List ℤ) := do
  let degree ← readPod path 4
  Reader.times (readLabel path n) degree

/-- The layers of one node. -/
def readNode (path : String) (n : ℕ) : Reader NativeError (List (List ℤ)) := do
  let nLayers ← readPod path 4
  Reader.times (readList path n) nLayers

/-- The whole file. -/
def readImage (path : String) : Reader NativeError FileImage := do
  readMagic
  let version ← readPod path 4
  Reader.failIf (version ≠ 1) ⟨.runtimeError, s!"load_from_file: unsupported version {version}"⟩
  let n ← readPod path 8
  let d ← readPod path 8
  let ep ← readPod path 8
  Reader.failIf (0 < n ∧ d = 0)
    ⟨.runtimeError, "load_from_file: dim == 0 with non-zero element count"⟩
  Reader.failIf (d ≠ 0 ∧ (2 ^ 64 - 1) / d < n)
    ⟨.runtimeError, "load_from_file: vector buffer overflow"⟩
  let vectors ← readVectors (sizeMul n d)
  let adj ← Reader.times (readNode path n) n
  pure ⟨n, d, i64OfBits ep, vectors, adj⟩

/-- Replacing the index by what was read. -/
def install (img : FileImage) (ix : Index) : Index :=
  { ix.releaseData with
    dim := img.d
    numElements := img.n
    ownsData := true
    data := img.vectors
    adjacency := img.adj
    entrypoint :=
      if 0 ≤ img.ep ∧ img.n ≤ asSize img.ep then (if 0 < img.n then 0 else -1) else img.ep }

/-- `load_from_file`; `none` is a path that cannot be opened. -/
def loadFromFile (path : String) (file : Option (List UInt8)) (ix : Index) :
    Except NativeError Unit × Index :=
  match file with
  | none => (.error ⟨.runtimeError, "load_from_file: cannot open " ++ path⟩, ix)
  | some bytes => match (readImage path).run bytes with
    | .error e => (.error e, ix)
    | .ok (img, _) => (.ok (), ix.install img)

/-! ## The round trip -/

/-- An index within the bounds of the file format. -/
structure Savable (ix : Index) : Prop where
  numElements_pos : 0 < ix.numElements
  dim_pos : 0 < ix.dim
  data : ∃ b, ix.data = some b ∧ b.words.length = ix.numElements * ix.dim
  nodes : ix.adjacency.length = ix.numElements
  layers : ∀ perNode ∈ ix.adjacency, perNode.length < 2 ^ 32
  degrees : ∀ perNode ∈ ix.adjacency, ∀ l ∈ perNode, l.length < 2 ^ 32
  labels : ∀ perNode ∈ ix.adjacency, ∀ l ∈ perNode, ∀ nb ∈ l,
    0 ≤ nb ∧ nb < ix.numElements
  entrypoint : ix.entrypoint = -1 ∨ 0 ≤ ix.entrypoint ∧ ix.entrypoint < ix.numElements

section RoundTrip

open Reader

variable {path : String} {n : ℕ}

theorem decodes_readPod {w x : ℕ} (h : x < 256 ^ w) :
    Decodes (readPod path w) (leBytes w x) x := Decodes.word _ h

theorem decodes_readMagic : Decodes readMagic fileMagic () := by
  intro rest
  have htake : (fileMagic ++ rest).take 4 = fileMagic := List.take_left' rfl
  have hdrop : (fileMagic ++ rest).drop 4 = rest := List.drop_left' rfl
  show readMagic (fileMagic ++ rest) = _
  rw [readMagic, if_pos htake, hdrop]

theorem decodes_readLabel {nb : ℤ} (h0 : 0 ≤ nb) (hlt : nb < n) (hn : n < 2 ^ 63) :
    Decodes (readLabel path n) (leBytes 8 (i64Bits nb)) nb := by
  have hback : i64OfBits (i64Bits nb) = nb := i64OfBits_i64Bits (by omega) (by omega)
  have hin : ¬ (i64OfBits (i64Bits nb) < 0 ∨ n ≤ asSize (i64OfBits (i64Bits nb))) := by
    rw [hback, asSize_of_nonneg h0]
    omega
  rw [readLabel, ← List.append_nil (leBytes 8 _)]
  refine (decodes_readPod (i64Bits_lt nb)).bind ?_
  refine (Decodes.failIf badNeighbor hin).seq ?_
  rw [hback]
  exact Decodes.pure nb

theorem decodes_readList {nbrs : List ℤ} (hdeg : nbrs.length < 2 ^ 32)
    (hlab : ∀ nb ∈ nbrs, 0 ≤ nb ∧ nb < n) (hn : n < 2 ^ 63) :
    Decodes (readList path n) (encodeList nbrs) nbrs :=
  (decodes_readPod hdeg).bind
    (Decodes.times fun nb hnb => decodes_readLabel (hlab nb hnb).1 (hlab nb hnb).2 hn)

theorem decodes_readNode {layers : List (List ℤ)} (hlen : layers.length < 2 ^ 32)
    (hdeg : ∀ l ∈ layers, l.length < 2 ^ 32) (hlab : ∀ l ∈ layers, ∀ nb ∈ l, 0 ≤ nb ∧ nb < n)
    (hn : n < 2 ^ 63) : Decodes (readNode path n) (encodeNode layers) layers := by
  rw [encodeNode, Nat.mod_eq_of_lt hlen, List.take_length]
  exact (decodes_readPod hlen).bind
    (Decodes.times fun l hl => decodes_readList (hdeg l hl) (hlab l hl) hn)

/-- The payload of a non-empty buffer. -/
theorem decodes_readVectors (b : Buffer) (hpos : 0 < b.words.length) :
    Decodes (readVectors b.words.length) (b.words.flatMap fun w => leBytes 4 w.toNat)
      (some b) := by
  have hwords : Decodes (Reader.times (Reader.word badPayload 4) (b.words.map UInt32.toNat).length)
      ((b.words.map UInt32.toNat).flatMap (leBytes 4)) (b.words.map UInt32.toNat) := by
    refine Decodes.times fun x hx => ?_
    obtain ⟨w, -, rfl⟩ := List.mem_map.mp hx
    exact Decodes.word _ w.toNat_lt
  rw [List.length_map, List.flatMap_map] at hwords
  have hback : (b.words.map UInt32.toNat).map UInt32.ofNat = b.words := by
    rw [List.map_map]
    conv_rhs => rw [← List.map_id b.words]
    exact List.map_congr_left fun w _ => UInt32.ofNat_toNat
  have hcopy :
      Buffer.copy ((b.words.map UInt32.toNat).map UInt32.ofNat) b.words.length b.fits = b := by
    rcases b with ⟨ws, hf⟩
    simp only [Buffer.copy, Buffer.mk.injEq]
    exact (congrArg (List.take ws.length) hback).trans List.take_length
  rw [readVectors, if_neg (by omega), dif_pos b.fits, ← List.append_nil (b.words.flatMap _)]
  refine hwords.bind ?_
  rw [hcopy]
  exact Decodes.pure (some b)

/-- The sizes of a savable index fit the header's words. -/
theorem Savable.sizes {ix : Index} (h : Savable ix) :
    ix.numElements * ix.dim < 2 ^ 61 ∧ ix.numElements < 2 ^ 61 ∧ ix.dim < 2 ^ 61 := by
  obtain ⟨b, -, hlen⟩ := h.data
  have hfits := b.fits
  have hprod : ix.numElements * ix.dim < 2 ^ 61 := by omega
  exact ⟨hprod, lt_of_le_of_lt (Nat.le_mul_of_pos_right _ h.dim_pos) hprod,
    lt_of_le_of_lt (Nat.le_mul_of_pos_left _ h.numElements_pos) hprod⟩

/-- The node blocks. -/
theorem Savable.decodes_nodes {ix : Index} (h : Savable ix) :
    Decodes (Reader.times (readNode path ix.numElements) ix.numElements)
      (((List.range ix.numElements).map ix.adjacency.layersOf).flatMap encodeNode)
      ix.adjacency := by
  have hrange : (List.range ix.numElements).map ix.adjacency.layersOf = ix.adjacency := by
    rw [← h.nodes]
    apply List.ext_getElem
    · rw [List.length_map, List.length_range]
    · intro i h₁ h₂
      rw [List.getElem_map, List.getElem_range, Layered.layersOf, List.getElem?_eq_getElem h₂]
      rfl
  have hN : ix.numElements < 2 ^ 63 := by
    have := h.sizes
    omega
  have hall : Decodes (Reader.times (readNode path ix.numElements) ix.adjacency.length)
      (ix.adjacency.flatMap encodeNode) ix.adjacency :=
    Decodes.times fun perNode hp =>
      decodes_readNode (h.layers perNode hp) (h.degrees perNode hp) (h.labels perNode hp) hN
  rw [hrange]
  rwa [h.nodes] at hall

/-- The whole file. -/
theorem Savable.decodes_readImage (path : String) {ix : Index} (h : Savable ix) {b : Buffer}
    (hb : ix.data = some b) (hlen : b.words.length = ix.numElements * ix.dim) :
    Decodes (readImage path) (fileMagic ++ (leBytes 4 1 ++ (leBytes 8 ix.numElements ++
      (leBytes 8 ix.dim ++ (leBytes 8 (i64Bits ix.entrypoint) ++
      ((ix.words.take (sizeMul ix.numElements ix.dim)).flatMap (fun w => leBytes 4 w.toNat) ++
      ((List.range ix.numElements).map ix.adjacency.layersOf).flatMap encodeNode))))))
      ⟨ix.numElements, ix.dim, ix.entrypoint, some b, ix.adjacency⟩ := by
  obtain ⟨hprod, hN, hd⟩ := h.sizes
  have htotal : sizeMul ix.numElements ix.dim = b.words.length := by
    rw [hlen, sizeMul, Nat.mod_eq_of_lt (by omega)]
  have hwords : ix.words.take b.words.length = b.words := by
    rw [words, hb, List.take_length]
  have hpos : 0 < b.words.length := by
    rw [hlen]
    exact Nat.mul_pos h.numElements_pos h.dim_pos
  have hep : i64OfBits (i64Bits ix.entrypoint) = ix.entrypoint := by
    have := h.entrypoint
    exact i64OfBits_i64Bits (by omega) (by omega)
  have hguard : ¬ (ix.dim ≠ 0 ∧ (2 ^ 64 - 1) / ix.dim < ix.numElements) := by
    rintro ⟨-, hlt⟩
    rw [Nat.div_lt_iff_lt_mul h.dim_pos] at hlt
    omega
  rw [readImage, htotal, hwords]
  refine decodes_readMagic.bind ?_
  refine (decodes_readPod (by norm_num)).bind ?_
  refine (Decodes.failIf _ (by simp)).seq ?_
  refine (decodes_readPod (by norm_num; omega)).bind ?_
  refine (decodes_readPod (by norm_num; omega)).bind ?_
  refine (decodes_readPod (i64Bits_lt _)).bind ?_
  refine (Decodes.failIf _ (by have := h.dim_pos; omega)).seq ?_
  refine (Decodes.failIf _ hguard).seq ?_
  rw [htotal, hep]
  refine (decodes_readVectors b hpos).bind ?_
  rw [← List.append_nil (List.flatMap encodeNode _)]
  exact h.decodes_nodes.bind (Decodes.pure _)

/-- **Round trip.** A savable index is written, and reading the file into any
index gives back its sizes, words, adjacency and entrypoint. -/
theorem loadFromFile_saveToFile {ix : Index} (h : Savable ix) :
    ∃ bytes, ix.saveToFile = .ok bytes ∧ ∀ (path : String) (prior : Index),
      prior.loadFromFile path (some bytes) = (.ok (), { ix with ownsData := true }) := by
  obtain ⟨b, hb, hlen⟩ := h.data
  have hloaded : ix.isLoaded = true := by
    rw [isLoaded, hb]
    simpa using h.numElements_pos
  refine ⟨_, by rw [saveToFile, if_neg (by simp [hloaded])], fun path prior => ?_⟩
  have hread := h.decodes_readImage path hb hlen []
  rw [List.append_nil] at hread
  simp only [loadFromFile, hread]
  -- the clamp on the entrypoint does not fire
  have hclamp : ¬ (0 ≤ ix.entrypoint ∧ ix.numElements ≤ asSize ix.entrypoint) := by
    rintro ⟨h0, hge⟩
    rw [asSize_of_nonneg h0] at hge
    have := h.entrypoint
    omega
  rw [install, if_neg hclamp, ← hb]

/-- Two nodes, two layers on the first, a duplicate label, no entrypoint. -/
def twoLayers : Index where
  data := some ⟨[1065353216, 0, 3, 4], by decide⟩
  ownsData := false
  dim := 2
  numElements := 2
  entrypoint := -1
  adjacency := [[[1, 1], [0]], []]

theorem loadFromFile_saveToFile_twoLayers :
    ∃ bytes, twoLayers.saveToFile = .ok bytes ∧ ∀ (path : String) (prior : Index),
      prior.loadFromFile path (some bytes) = (.ok (), { twoLayers with ownsData := true }) :=
  loadFromFile_saveToFile
    { numElements_pos := by decide
      dim_pos := by decide
      data := ⟨_, rfl, by decide⟩
      nodes := by decide
      layers := by decide
      degrees := by decide
      labels := by decide
      entrypoint := Or.inl rfl }

end RoundTrip

/-! ## Arbitrary files -/

/-- What every image read from a file has, whatever the file holds. -/
structure FileImage.Sound (img : FileImage) : Prop where
  vectors : (img.vectors.elim [] Buffer.words).length = img.n * img.d
  nodes : img.adj.length = img.n
  labels : LabelsIn img.n img.adj

section Arbitrary

open Reader

variable {path : String} {n : ℕ}

theorem yields_readVectors (total : ℕ) :
    Yields (readVectors total) fun vectors => (vectors.elim [] Buffer.words).length = total := by
  rw [readVectors]
  split
  · rename_i h
    exact Yields.pure h.symm
  · split
    · refine ((Yields.trivial _).times total).bind fun ws hws => Yields.pure ?_
      simp [Buffer.copy, hws.1]
    · exact Yields.throw _

theorem yields_readLabel : Yields (readLabel path n) fun nb => 0 ≤ nb ∧ nb < n := by
  refine (Yields.trivial _).bind fun bits _ => (Yields.failIf badNeighbor).bind fun _ hin => ?_
  apply Yields.pure
  obtain ⟨h0, hlt⟩ := not_or.mp hin
  rw [asSize_of_nonneg (by omega)] at hlt
  omega

theorem yields_readNode : Yields (readNode path n) fun layers =>
    ∀ nb ∈ layers.flatten, 0 ≤ nb ∧ nb < n := by
  have hlist : Yields (readList path n) fun l => ∀ nb ∈ l, 0 ≤ nb ∧ nb < n :=
    (Yields.trivial _).bind fun degree _ => (yields_readLabel.times degree).mono fun _ h => h.2
  refine (Yields.trivial _).bind fun nLayers _ => (hlist.times nLayers).mono ?_
  intro layers h nb hnb
  obtain ⟨l, hl, hnb⟩ := List.mem_flatten.mp hnb
  exact h.2 l hl nb hnb

/-- The overflow guard of the reader keeps the product below `2 ^ 64`. -/
theorem sizeMul_of_guard {d : ℕ} (h : ¬ (d ≠ 0 ∧ (2 ^ 64 - 1) / d < n)) : sizeMul n d = n * d := by
  rcases Nat.eq_zero_or_pos d with rfl | hd
  · simp [sizeMul]
  · have hle : n ≤ (2 ^ 64 - 1) / d := by
      by_contra hlt
      exact h ⟨by omega, by omega⟩
    rw [Nat.le_div_iff_mul_le hd] at hle
    exact Nat.mod_eq_of_lt (by omega)

theorem yields_readImage : Yields (readImage path) FileImage.Sound := by
  refine (Yields.trivial _).bind fun _ _ => (Yields.trivial _).bind fun version _ => ?_
  refine (Yields.trivial _).bind fun _ _ => (Yields.trivial _).bind fun n _ => ?_
  refine (Yields.trivial _).bind fun d _ => (Yields.trivial _).bind fun ep _ => ?_
  refine (Yields.trivial _).bind fun _ _ => (Yields.failIf _).bind fun _ hguard => ?_
  rw [sizeMul_of_guard hguard]
  refine (yields_readVectors _).bind fun vectors hvec => ?_
  refine (yields_readNode.times n).bind fun adj hadj => Yields.pure ⟨hvec, hadj.1, ?_⟩
  rw [labelsIn_iff]
  intro nb hnb
  rw [List.mem_flatten] at hnb
  obtain ⟨l, hl, hnb⟩ := hnb
  obtain ⟨layers, hlayers, hl⟩ := List.mem_flatten.mp hl
  exact hadj.2 layers hlayers nb (List.mem_flatten.mpr ⟨l, hl, hnb⟩)

/-- Installing a sound image, over any index, gives a well-formed one. -/
theorem FileImage.Sound.wellFormed_install {img : FileImage} (h : img.Sound) (ix : Index) :
    (ix.install img).WellFormed where
  words := by
    have hvec := h.vectors
    rcases hv : img.vectors with _ | b <;> simpa [words, install, hv] using hvec
  nodes := h.nodes
  labels := h.labels
  entrypoint := by
    simp only [install]
    split
    · split <;> omega
    · rename_i hin
      by_cases h0 : 0 ≤ img.ep
      · rw [asSize_of_nonneg h0] at hin
        omega
      · exact Or.inl (by omega)

/-- The outcomes of `load_from_file`: an exception and the index as it was, or a
sound image installed. -/
theorem loadFromFile_cases (path : String) (file : Option (List UInt8)) (ix : Index) :
    (∃ e, ix.loadFromFile path file = (.error e, ix)) ∨
      ∃ img : FileImage, img.Sound ∧ ix.loadFromFile path file = (.ok (), ix.install img) := by
  rcases file with _ | bytes
  · exact Or.inl ⟨_, rfl⟩
  · rw [loadFromFile]
    rcases hread : (readImage path).run bytes with e | ⟨img, rest⟩
    · exact Or.inl ⟨e, rfl⟩
    · exact Or.inr ⟨img, yields_readImage bytes img rest hread, rfl⟩

/-- **Safety on arbitrary files.** Whatever the bytes and whatever the index was,
`load_from_file` throws and leaves the index as it was, or installs a well-formed
index. -/
theorem loadFromFile_safe (path : String) (file : Option (List UInt8)) (ix : Index) :
    (∃ e, ix.loadFromFile path file = (.error e, ix)) ∨
      ∃ ix', ix.loadFromFile path file = (.ok (), ix') ∧ ix'.WellFormed := by
  rcases loadFromFile_cases path file ix with herr | ⟨img, hsound, hok⟩
  · exact Or.inl herr
  · exact Or.inr ⟨_, hok, hsound.wellFormed_install ix⟩

end Arbitrary

end Index

end Unlearning
