import Unlearning.Bytes
import Unlearning.Strategy

/-!
# Residual proofs (`compliance/residual.py`)

After an erase the live row is read back and compared with zero, and the
checkpoint file, if one is given, is searched for the `float32` bytes of the
original row. The tolerance `atol` is `0.0` in every call and left out.
-/

namespace Unlearning

open FloatArith PyFloat

/-- The result of a residual scan of one erased embedding. -/
structure ResidualProof (D : Type) where
  labelOrId : String
  liveAllZeros : Bool
  filePatternAbsent : Option Bool
  originalNorm : D
  details : String

/-- `ResidualProof.passed` -/
def ResidualProof.passed {D : Type} (proof : ResidualProof D) : Bool :=
  match proof.filePatternAbsent with
  | none => proof.liveAllZeros
  | some absent => proof.liveAllZeros && absent

/-- A file to scan: its path as `str(Path(path))` shows it, and what reading it
gives if it is a regular file. -/
structure Checkpoint where
  path : String
  file : Option (Except String (List UInt8))

section

variable {D : Type} [PyFloat D]

/-- `vector_all_zeros` -/
def vectorAllZeros (vec : List D) : Bool := vec.all fun x => eq x (ofInt 0)

/-- `float32_pattern_bytes` -/
def float32PatternBytes (vector : List D) : List UInt8 :=
  vector.flatMap fun x => leBytes 4 (toFloat32 x).toNat

/-- `pattern in data` -/
def bytesIn (pattern data : List UInt8) : Bool := data.tails.any pattern.isPrefixOf

/-- `file_contains_bytes` -/
def fileContainsBytes (file : Option (Except String (List UInt8))) (pattern : List UInt8) :
    Except String Bool :=
  match file with
  | none => .ok false
  | some contents =>
    if pattern = [] then .ok false
    else contents.map (bytesIn pattern)

/-- The scan of the checkpoint: whether the pattern is absent, and what to say. -/
def scanCheckpoint (original : Option (List D)) (checkpoint : Option Checkpoint) :
    Except String (Option Bool × List String) :=
  match checkpoint, original with
  | some cp, some vector =>
    -- a zero pattern matches anywhere
    if eq (norm vector) (ofInt 0) then
      .ok (some true, ["original was zero; file scan skipped"])
    else if cp.file.isNone then .ok (none, ["checkpoint missing: " ++ cp.path])
    else match fileContainsBytes cp.file (float32PatternBytes vector) with
      | .error e => .error e
      | .ok present => .ok (some !present,
          [if present then "ORIGINAL PATTERN STILL PRESENT in checkpoint"
            else "original float32 pattern ABSENT from checkpoint"])
  | _, _ => .ok (none, [])

/-- `prove_vector_erased` -/
def proveVectorErased (labelOrId : String) (liveVector : List D) (original : Option (List D))
    (checkpoint : Option Checkpoint) : Except String (ResidualProof D) :=
  let liveOk := vectorAllZeros liveVector
  match scanCheckpoint original checkpoint with
  | .error e => .error e
  | .ok (fileOk, said) => .ok
    { labelOrId := labelOrId
      liveAllZeros := liveOk
      filePatternAbsent := fileOk
      originalNorm := match original with
        | none => ofInt 0
        | some vector => norm vector
      details := "; ".intercalate
        ((if liveOk then "live vector is all zeros"
          else "live vector still has non-zero components") :: said) }

end

end Unlearning
