import Unlearning.Calls
import Unlearning.EraseRetry

/-!
# Buffers across the binding (`src/healer.cpp`)

`load_index` and `attach_index` are given a NumPy array beside the sizes it is meant to have. A 2-D
array states its sizes; a flat one only its length, which is compared with the product of the sizes
as `size_t` has it. `FloatArray.Wraps` is the case in which that product is not the one of the
numbers: the index then has rows that lie outside of the buffer.
-/

namespace Unlearning

/-- An axis of an array: its extent, and its stride in bytes. -/
structure Axis where
  extent : ℕ
  stride : ℤ

/-- A `float32` array as `request` describes it, its elements in C order. -/
structure FloatArray where
  axes : List Axis
  writable : Bool
  elements : Buffer
  size : elements.words.length = (axes.map Axis.extent).foldr (· * ·) 1

namespace FloatArray

/-- The checks of `proxy_load_index_buffer`. The `info.size` of a flat array is its extent. -/
def checkLoad (a : FloatArray) (dimensions numElements : ℕ) : Except NativeError Unit :=
  match a.axes with
  | [rows, cols] =>
    if rows.extent ≠ numElements ∨ cols.extent ≠ dimensions then
      .error ⟨.invalidArgument, s!"load_index: 2-D shape ({rows.extent}, {cols.extent}) does not "
        ++ s!"match num_elements={numElements}, dimensions={dimensions}"⟩
    else .ok ()
  | [flat] =>
    let expected := sizeMul dimensions numElements
    if flat.extent ≠ expected then
      .error ⟨.invalidArgument, s!"load_index: flat length {flat.extent} does not equal "
        ++ s!"dimensions * num_elements ({expected})"⟩
    else .ok ()
  | _ => .error ⟨.invalidArgument, "load_index: float array must be 1-D (flat) or 2-D (N x D)"⟩

/-- The checks of `proxy_attach_index_buffer`; `request` refuses an array that is read-only. -/
def checkAttach (a : FloatArray) (dimensions numElements : ℕ) : Except NativeError Unit :=
  let sizeMismatch : NativeError :=
    ⟨.invalidArgument, "attach_index: size mismatch vs dimensions * num_elements"⟩
  let expected := sizeMul dimensions numElements
  if !a.writable then .error ⟨.runtimeError, "buffer source array is read-only"⟩
  else match a.axes with
  | [rows, cols] =>
    if a.elements.words.length ≠ expected then .error sizeMismatch
    else if rows.extent ≠ numElements ∨ cols.extent ≠ dimensions then
      .error ⟨.invalidArgument, "attach_index: 2-D shape mismatch"⟩
    else if asSize cols.stride ≠ 4 ∨ asSize rows.stride ≠ sizeMul dimensions 4 then
      .error ⟨.invalidArgument, "attach_index: array must be C-contiguous float32"⟩
    else .ok ()
  | [flat] =>
    if a.elements.words.length ≠ expected then .error sizeMismatch
    else if asSize flat.stride ≠ 4 then
      .error ⟨.invalidArgument, "attach_index: flat array must be contiguous float32"⟩
    else .ok ()
  | _ => .error ⟨.invalidArgument, "attach_index: float array must be 1-D (flat) or 2-D (N x D)"⟩

end FloatArray

namespace Index

/-- `proxy_load_index_buffer`; the array that is copied from is never a null pointer. -/
def proxyLoadIndexBuffer (memory : Memory) (a : FloatArray) (dimensions numElements : ℕ)
    (ix : Index) : Except NativeError Unit × Index :=
  match a.checkLoad dimensions numElements with
  | .error e => (.error e, ix)
  | .ok () => ix.loadIndex memory (some a.elements) dimensions numElements

/-- `proxy_attach_index_buffer` -/
def proxyAttachIndexBuffer (memory : Memory) (a : FloatArray) (dimensions numElements : ℕ)
    (ix : Index) : Except NativeError Unit × Index :=
  match a.checkAttach dimensions numElements with
  | .error e => (.error e, ix)
  | .ok () => ix.attachIndex memory (some a.elements) dimensions numElements

end Index

/-! ## What the checks let through -/

namespace FloatArray

variable {a : FloatArray} {d n : ℕ}

/-- The sizes are those of a 2-D array. -/
def Shaped (a : FloatArray) (d n : ℕ) : Prop :=
  ∃ rows cols, a.axes = [rows, cols] ∧ rows.extent = n ∧ cols.extent = d

/-- The array is flat, and as long as the product in `size_t`. -/
def Flat (a : FloatArray) (d n : ℕ) : Prop := ∃ flat, a.axes = [flat] ∧ flat.extent = sizeMul d n

/-- The array may be attached in place as a flat one. -/
def InPlace (a : FloatArray) : Prop := a.writable = true ∧ ∀ axis ∈ a.axes, asSize axis.stride = 4

/-- **The wrap**: a flat array is as long as the product in `size_t`, but not as the product. -/
def Wraps (a : FloatArray) (d n : ℕ) : Prop := a.Flat d n ∧ 2 ^ 64 ≤ d * n

theorem Shaped.length (h : a.Shaped d n) : a.elements.words.length = d * n := by
  obtain ⟨rows, cols, haxes, rfl, rfl⟩ := h
  rw [a.size, haxes]
  simp [Nat.mul_comm]

/-- No array is so large that the product of its sizes wraps. -/
theorem Shaped.sizeMul_eq (h : a.Shaped d n) : sizeMul d n = d * n := by
  have hfits := a.elements.fits
  rw [h.length] at hfits
  exact Nat.mod_eq_of_lt (by omega)

theorem Flat.length (h : a.Flat d n) : a.elements.words.length = sizeMul d n := by
  obtain ⟨flat, haxes, hflat⟩ := h
  rw [a.size, haxes]
  simp [hflat]

theorem checkLoad_eq_ok : a.checkLoad d n = .ok () ↔ a.Shaped d n ∨ a.Flat d n := by
  rw [checkLoad]
  split
  · rename_i rows cols haxes
    simp [Shaped, Flat, haxes]
  · rename_i flat haxes
    simp [Shaped, Flat, haxes]
  · rename_i h2 h1
    constructor
    · intro h
      cases h
    · rintro (⟨rows, cols, haxes, -⟩ | ⟨flat, haxes, -⟩)
      · exact absurd haxes (h2 rows cols)
      · exact absurd haxes (h1 flat)

/-- What `attach_index` accepts is one of the two; a flat array may be attached in place. -/
theorem shaped_or_flat_of_checkAttach (h : a.checkAttach d n = .ok ()) :
    a.Shaped d n ∨ a.Flat d n ∧ a.InPlace := by
  rw [checkAttach] at h
  split at h
  · cases h
  rename_i hwritable
  split at h
  · rename_i rows cols haxes
    refine Or.inl ⟨rows, cols, haxes, ?_⟩
    by_contra hshape
    split at h
    · cases h
    · rw [if_pos (not_and_or.mp hshape)] at h
      cases h
  · rename_i flat haxes
    have hsize : a.elements.words.length = flat.extent := by
      rw [a.size, haxes]
      simp
    split at h
    · cases h
    rename_i hlen
    split at h
    · cases h
    rename_i hstride
    refine Or.inr ⟨⟨flat, haxes, hsize ▸ not_not.mp hlen⟩, by simpa using hwritable, ?_⟩
    intro axis haxis
    rw [haxes, List.mem_singleton] at haxis
    rw [haxis]
    exact not_not.mp hstride
  · cases h

theorem checkAttach_flat (hflat : a.Flat d n) (hin : a.InPlace) : a.checkAttach d n = .ok () := by
  have hlen := hflat.length
  obtain ⟨flat, haxes, -⟩ := hflat
  have hstride := hin.2 flat (by rw [haxes]; exact List.mem_singleton_self flat)
  rw [checkAttach, if_neg (by simp [hin.1]), haxes]
  simp [hlen, hstride]

end FloatArray

/-! ## What a load leaves -/

namespace Index

variable {memory : Memory} {a : FloatArray} {d n : ℕ} {ix : Index}

/-- The buffer has a word for each component, and a row for each node that `ensure_node` accepts;
products are those of the numbers. -/
structure Holds (ix : Index) (dimensions numElements : ℕ) : Prop where
  words : ix.words.length = dimensions * numElements
  rows (nodeId : ℤ) :
    ix.ensureNode nodeId = .ok () → (asSize nodeId + 1) * ix.dim ≤ ix.words.length

/-- A load that returns leaves an index whose buffer is as large as its sizes say. -/
def LoadsWhole (dimensions numElements : ℕ) (result : Except NativeError Unit × Index) : Prop :=
  result.1 = .ok () → result.2.Holds dimensions numElements

theorem holds_of_words (hd : ix.dim = d) (hn : ix.numElements = n)
    (hwords : ix.words.length = d * n) : ix.Holds d n where
  words := hwords
  rows nodeId hnode := by
    obtain ⟨-, -, hlt⟩ := ensureNode_eq_ok.mp hnode
    rw [hwords, hd, Nat.mul_comm d n]
    exact Nat.mul_le_mul_right d (hn ▸ hlt)

/-- What a load that returns leaves of a source as long as the product in `size_t`. -/
structure Loaded (ix : Index) (d n : ℕ) : Prop where
  dim : ix.dim = d
  numElements : ix.numElements = n
  words : ix.words.length = sizeMul d n

/-- The buffer is as large as the sizes say if the product does not wrap. -/
theorem Loaded.holds_iff (h : ix.Loaded d n) : ix.Holds d n ↔ sizeMul d n = d * n := by
  constructor
  · intro hholds
    rw [← h.words, hholds.words]
  · intro hprod
    exact holds_of_words h.dim h.numElements (h.words.trans hprod)

theorem loaded_loadIndex {b : Buffer} (hlen : b.words.length = sizeMul d n)
    (h : (ix.loadIndex memory (some b) d n).1 = .ok ()) :
    (ix.loadIndex memory (some b) d n).2.Loaded d n := by
  have hfits := b.fits
  rw [loadIndex] at h ⊢
  split at h
  · cases h
  · by_cases htotal : sizeMul d n = 0
    · dsimp only
      rw [if_pos htotal]
      exact ⟨rfl, rfl, htotal.symm⟩
    · dsimp only at h ⊢
      rw [if_neg htotal, dif_pos (by omega)] at h ⊢
      split at h
      · cases h
      · split at h
        · cases h
        · refine ⟨rfl, rfl, ?_⟩
          simp [words, withNodes, Buffer.copy, hlen]

theorem loaded_attachIndex {b : Buffer} (hlen : b.words.length = sizeMul d n)
    (h : (ix.attachIndex memory (some b) d n).1 = .ok ()) :
    (ix.attachIndex memory (some b) d n).2.Loaded d n := by
  rw [attachIndex] at h ⊢
  split at h
  · cases h
  · dsimp only at h ⊢
    split at h
    · cases h
    · exact ⟨rfl, rfl, hlen⟩

/-- Sizes whose product wraps are both positive. -/
theorem pos_of_wraps (h : 2 ^ 64 ≤ d * n) : d ≠ 0 ∧ n ≠ 0 := by
  constructor
  · rintro rfl
    simp at h
  · rintro rfl
    simp at h

theorem checkSource_of_le {who : String} {b : Buffer} (h : 2 ^ 64 ≤ d * n) :
    checkSource who (some b) d n = .ok () := by
  simp [checkSource, (pos_of_wraps h).1]

/-- A load returns if its product wraps, unless an allocation throws. -/
theorem proxyLoadIndexBuffer_of_wraps (ix : Index) (h : a.Wraps d n) :
    (ix.proxyLoadIndexBuffer memory a d n).1 = .ok () ↔
      sizeMul d n = 0 ∨ memory.newThrows (sizeMul d n) = none ∧ memory.assignThrows n = none := by
  have hlen := h.1.length
  have hfits := a.elements.fits
  rw [proxyLoadIndexBuffer, FloatArray.checkLoad_eq_ok.mpr (Or.inr h.1)]
  dsimp only
  rw [loadIndex, checkSource_of_le h.2]
  dsimp only
  by_cases htotal : sizeMul d n = 0
  · rw [if_pos htotal]
    exact iff_of_true rfl (Or.inl htotal)
  · rw [if_neg htotal, dif_pos (by omega), Memory.assign, if_neg (pos_of_wraps h.2).2]
    rcases memory.newThrows (sizeMul d n) with _ | e
    · rcases memory.assignThrows n with _ | e
      · simp
      · simp [htotal]
    · simp [htotal]

theorem proxyAttachIndexBuffer_of_wraps (ix : Index) (h : a.Wraps d n) (hin : a.InPlace) :
    (ix.proxyAttachIndexBuffer memory a d n).1 = .ok () ↔ memory.assignThrows n = none := by
  rw [proxyAttachIndexBuffer, FloatArray.checkAttach_flat h.1 hin]
  dsimp only
  rw [attachIndex, checkSource_of_le h.2]
  dsimp only
  rw [Memory.assign, if_neg (pos_of_wraps h.2).2]
  rcases memory.assignThrows n with _ | e
  · simp
  · simp

/-- What `load_index` leaves when it returns. -/
theorem loaded_of_proxyLoadIndexBuffer
    (h : (ix.proxyLoadIndexBuffer memory a d n).1 = .ok ()) :
    (a.Shaped d n ∨ a.Flat d n) ∧ (ix.proxyLoadIndexBuffer memory a d n).2.Loaded d n := by
  rw [proxyLoadIndexBuffer] at h ⊢
  split at h
  · cases h
  · rename_i hcheck
    have haccepted := FloatArray.checkLoad_eq_ok.mp hcheck
    refine ⟨haccepted, loaded_loadIndex ?_ h⟩
    rcases haccepted with hshape | hflat
    · rw [hshape.length, hshape.sizeMul_eq]
    · exact hflat.length

/-- What `attach_index` leaves when it returns. -/
theorem loaded_of_proxyAttachIndexBuffer
    (h : (ix.proxyAttachIndexBuffer memory a d n).1 = .ok ()) :
    (a.Shaped d n ∨ a.Flat d n ∧ a.InPlace) ∧
      (ix.proxyAttachIndexBuffer memory a d n).2.Loaded d n := by
  rw [proxyAttachIndexBuffer] at h ⊢
  split at h
  · cases h
  · rename_i hcheck
    have haccepted := FloatArray.shaped_or_flat_of_checkAttach hcheck
    refine ⟨haccepted, loaded_attachIndex ?_ h⟩
    rcases haccepted with hshape | hflat
    · rw [hshape.length, hshape.sizeMul_eq]
    · exact hflat.1.length

/-- An accepted array whose product wraps is flat. -/
theorem sizeMul_eq_or_wraps (h : a.Shaped d n ∨ a.Flat d n) :
    sizeMul d n = d * n ∨ a.Wraps d n := by
  rcases h with hshape | hflat
  · exact Or.inl hshape.sizeMul_eq
  · rcases Nat.lt_or_ge (d * n) (2 ^ 64) with hlt | hle
    · exact Or.inl (Nat.mod_eq_of_lt hlt)
    · exact Or.inr ⟨hflat, hle⟩

theorem sizeMul_ne_of_wraps (h : a.Wraps d n) : sizeMul d n ≠ d * n := by
  have hlt : sizeMul d n < 2 ^ 64 := Nat.mod_lt _ (by positivity)
  exact (hlt.trans_le h.2).ne

theorem loadsWhole_load_iff : LoadsWhole d n (ix.proxyLoadIndexBuffer memory a d n) ↔
    ¬(a.Wraps d n ∧ (sizeMul d n = 0 ∨
      memory.newThrows (sizeMul d n) = none ∧ memory.assignThrows n = none)) := by
  constructor
  · rintro hwhole ⟨hwraps, hreturns⟩
    have hok := (proxyLoadIndexBuffer_of_wraps ix hwraps).mpr hreturns
    obtain ⟨-, hloaded⟩ := loaded_of_proxyLoadIndexBuffer hok
    exact sizeMul_ne_of_wraps hwraps (hloaded.holds_iff.mp (hwhole hok))
  · intro hcond hok
    obtain ⟨haccepted, hloaded⟩ := loaded_of_proxyLoadIndexBuffer hok
    rcases sizeMul_eq_or_wraps haccepted with hprod | hwraps
    · exact hloaded.holds_iff.mpr hprod
    · exact absurd ⟨hwraps, (proxyLoadIndexBuffer_of_wraps ix hwraps).mp hok⟩ hcond

theorem loadsWhole_attach_iff : LoadsWhole d n (ix.proxyAttachIndexBuffer memory a d n) ↔
    ¬(a.Wraps d n ∧ a.InPlace ∧ memory.assignThrows n = none) := by
  constructor
  · rintro hwhole ⟨hwraps, hin, hreturns⟩
    have hok := (proxyAttachIndexBuffer_of_wraps ix hwraps hin).mpr hreturns
    obtain ⟨-, hloaded⟩ := loaded_of_proxyAttachIndexBuffer hok
    exact sizeMul_ne_of_wraps hwraps (hloaded.holds_iff.mp (hwhole hok))
  · intro hcond hok
    obtain ⟨haccepted, hloaded⟩ := loaded_of_proxyAttachIndexBuffer hok
    rcases sizeMul_eq_or_wraps (haccepted.imp_right And.left) with hprod | hwraps
    · exact hloaded.holds_iff.mpr hprod
    · have hin : a.InPlace := by
        rcases haccepted with hshape | hflat
        · exact absurd hshape.sizeMul_eq (sizeMul_ne_of_wraps hwraps)
        · exact hflat.2
      exact absurd ⟨hwraps, hin, (proxyAttachIndexBuffer_of_wraps ix hwraps hin).mp hok⟩ hcond

/-- **Loads**: a load that returns leaves a buffer of the size it says, exactly when it is not a
flat array whose length is the product only in `size_t`. -/
theorem loadsWhole_iff (memory : Memory) (a : FloatArray) (d n : ℕ) (ix : Index) :
    (LoadsWhole d n (ix.proxyLoadIndexBuffer memory a d n) ↔
      ¬(a.Wraps d n ∧ (sizeMul d n = 0 ∨
        memory.newThrows (sizeMul d n) = none ∧ memory.assignThrows n = none))) ∧
    (LoadsWhole d n (ix.proxyAttachIndexBuffer memory a d n) ↔
      ¬(a.Wraps d n ∧ a.InPlace ∧ memory.assignThrows n = none)) :=
  ⟨loadsWhole_load_iff, loadsWhole_attach_iff⟩

/-- A flat array of two floats. -/
def twoFloats : FloatArray := ⟨[⟨2, 4⟩], true, ⟨[1073741824, 1065353216], by decide⟩, by decide⟩

/-- Two nodes of dimension `2 ^ 63 + 1`. -/
theorem twoFloats_not_whole :
    ¬LoadsWhole (2 ^ 63 + 1) 2
      (empty.proxyLoadIndexBuffer .ample twoFloats (2 ^ 63 + 1) 2) ∧
    ¬LoadsWhole (2 ^ 63 + 1) 2
      (empty.proxyAttachIndexBuffer .ample twoFloats (2 ^ 63 + 1) 2) := by
  have hwraps : twoFloats.Wraps (2 ^ 63 + 1) 2 :=
    ⟨⟨⟨2, 4⟩, rfl, by norm_num [sizeMul]⟩, by norm_num⟩
  have hin : twoFloats.InPlace := ⟨rfl, fun axis haxis => by
    rw [List.mem_singleton.mp haxis]
    rfl⟩
  rw [loadsWhole_load_iff, loadsWhole_attach_iff, not_not, not_not]
  exact ⟨⟨hwraps, Or.inr ⟨rfl, rfl⟩⟩, hwraps, hin, rfl⟩

end Index

end Unlearning
