import Unlearning.Index
import Unlearning.PyText

/-!
# When to compact (`integrations/delete_strategy.py`, `integrations/compact_policy.py`)

`recommend_delete_strategy` looks at the fraction of an index that a batch
deletes, `apply_strategy_to_delete_kwargs` turns the recommendation into a
`compact` argument, and `CompactCoalescePolicy` defers compactions until enough
deletes are pending or the oldest of them is old enough.

Fractions and times are `float`s, so this module is over `PyFloat`. The
thresholds `0.01`, `0.05` and `0.10` are the nearest doubles to `1 / 100`,
`1 / 20` and `1 / 10`, which is what the correctly rounded divisions give. The
free texts in `details` are read by nobody and left out.
-/

namespace Unlearning

open PyText

/-- What the Python side uses of `float`, beyond the arithmetic. -/
class PyFloat (D : Type) extends FloatArith D where
  /-- `float(n)` -/
  ofInt : ℤ → D
  /-- the bits of `numpy.float32(x)` -/
  toFloat32 : D → UInt32
  /-- `numpy.linalg.norm` -/
  norm : List D → D
  /-- `repr(x)` -/
  repr : D → String
  /-- `format(x, ".2f")` -/
  fixed2 : D → String

open FloatArith PyFloat

/-- `os.environ` -/
abbrev Environ := String → Option String

/-- `os.environ.get(name, default).strip().lower()` -/
def Environ.word (environ : Environ) (name default : String) : String :=
  lower (strip ((environ name).getD default))

/-! ## The `compact` argument -/

/-- `compact`: `"auto"`, `"always"` or `"never"`. -/
inductive CompactMode : Type where
  | auto
  | always
  | never
  deriving DecidableEq

/-- The text of a mode. -/
def CompactMode.text : CompactMode → String
  | auto => "auto"
  | always => "always"
  | never => "never"

/-- What a caller may pass as `compact`. -/
inductive CompactArg : Type where
  | mode (m : CompactMode) : CompactArg
  | flag (b : Bool) : CompactArg
  /-- any other text -/
  | other (text : String) : CompactArg
  deriving DecidableEq

/-- `compact in ("auto", True)` -/
def CompactArg.isAuto : CompactArg → Bool
  | mode .auto => true
  | flag true => true
  | _ => false

/-- `_normalize_compact`; the error is the text of the `ValueError`. -/
def normalizeCompact (printable : Char → Bool) : CompactArg → Except String CompactMode
  | .flag true => .ok .always
  | .flag false => .ok .never
  | .mode m => .ok m
  | .other text =>
    .error ("compact must be auto|always|never|bool, got " ++ PyText.repr printable text)

/-! ## Recommendations -/

/-- `StrategyAction` -/
inductive StrategyAction : Type where
  | wipeOnly
  | wipeAndHeal
  | wipeAndCompact
  | wipeHealAndCompact
  | fullRebuildRecommended
  deriving DecidableEq

/-- The text of an action. -/
def StrategyAction.text : StrategyAction → String
  | wipeOnly => "wipe_only"
  | wipeAndHeal => "wipe_and_heal"
  | wipeAndCompact => "wipe_and_compact"
  | wipeHealAndCompact => "wipe_heal_and_compact"
  | fullRebuildRecommended => "full_rebuild_recommended"

/-- `StrategyRecommendation` -/
structure StrategyRecommendation (D : Type) where
  action : StrategyAction
  reason : String
  deleteFraction : D
  preferCompact : Bool
  preferHeal : Bool
  preferFullRebuild : Bool

section Strategy

variable {D : Type} [PyFloat D]

/-- `a >= b` -/
def atLeast (a b : D) : Bool := !lt a b

/-- The default of `low_frac`. -/
def lowFrac : D := div (ofInt 1) (ofInt 100)

/-- The default of `high_frac`. -/
def highFrac : D := div (ofInt 1) (ofInt 20)

/-- The default of `critical_frac`. -/
def criticalFrac : D := div (ofInt 1) (ofInt 10)

/-- `heal_allowed_by_env` -/
def healAllowedByEnv (environ : Environ) : Bool :=
  environ.word "HEALER_ALLOW_HEAL" "" ∈ ["1", "true", "yes", "on"]

/-- The fraction of the index that a batch deletes. -/
def deleteFraction (deleteCount indexSize : ℕ) : D :=
  if indexSize = 0 then (if 0 < deleteCount then ofInt 1 else ofInt 0)
  else div (ofInt deleteCount) (ofInt indexSize)

/-- `recommend_delete_strategy`, with its default thresholds. -/
def recommendDeleteStrategy (environ : Environ) (deleteCount indexSize : ℕ)
    (supportsCompact supportsHeal : Bool) : StrategyRecommendation D :=
  let allowHeal := healAllowedByEnv environ
  let frac : D := deleteFraction deleteCount indexSize
  if deleteCount = 0 then ⟨.wipeOnly, "empty_batch", frac, false, false, false⟩
  else if !supportsCompact then
    if allowHeal && supportsHeal then
      ⟨.wipeAndHeal, "no_compact_backend_heal_opt_in", frac, false, true, false⟩
    else ⟨.wipeOnly, "no_compact_backend", frac, false, false, false⟩
  else if atLeast frac criticalFrac then
    ⟨.fullRebuildRecommended, "critical_delete_fraction", frac, true, false, true⟩
  else if atLeast frac highFrac then
    ⟨.wipeAndCompact, "elevated_delete_fraction", frac, true, false, true⟩
  else if allowHeal && supportsHeal && lt frac lowFrac then
    ⟨.wipeHealAndCompact, "tiny_batch_heal_opt_in", frac, true, true, false⟩
  else ⟨.wipeAndCompact, "default_product_path", frac, true, false, false⟩

/-- `compact_mode_for_recommendation`, coalescing allowed. -/
def compactModeForRecommendation (r : StrategyRecommendation D) : CompactMode :=
  if r.preferFullRebuild then .always
  else if r.preferCompact then
    if atLeast r.deleteFraction highFrac then .always else .auto
  else .never

/-- The `compact` entry of `apply_strategy_to_delete_kwargs`, and its
recommendation. -/
def applyStrategyToDeleteKwargs (environ : Environ) (deleteCount indexSize : ℕ)
    (supportsCompact supportsHeal : Bool) (compact : Option CompactArg) :
    CompactArg × StrategyRecommendation D :=
  let adaptive :=
    environ.word "HEALER_ADAPTIVE_COMPACT" "1" ∈ ["1", "true", "yes", "on", ""]
  let recommended : StrategyRecommendation D :=
    recommendDeleteStrategy environ deleteCount indexSize supportsCompact supportsHeal
  match compact with
  | some arg =>
    if !arg.isAuto then (arg, recommended)
    else if !adaptive then (arg, recommended)
    else (.mode (compactModeForRecommendation recommended), recommended)
  | none =>
    if !adaptive then (.mode .auto, recommended)
    else (.mode (compactModeForRecommendation recommended), recommended)

end Strategy

/-! ## Coalescing -/

/-- The name of a policy. -/
inductive CompactPolicyName : Type where
  | always
  | never
  | coalesce
  deriving DecidableEq

/-- `CompactCoalescePolicy`; its constructor checks the two bounds. -/
structure CompactCoalescePolicy (D : Type) [PyFloat D] where
  mode : CompactPolicyName
  everyN : ℕ
  maxAgeS : D
  pending : ℕ
  firstPendingMono : Option D
  everyN_pos : 1 ≤ everyN
  maxAgeS_nonneg : lt maxAgeS (ofInt 0) = false

/-- `CompactDecision` -/
structure CompactDecision where
  shouldCompact : Bool
  reason : String
  pendingDeletes : ℕ
  deriving DecidableEq

namespace CompactCoalescePolicy

variable {D : Type} [PyFloat D]

/-- `note_deletes` at time `now` -/
def noteDeletes (n : ℕ) (now : D) (policy : CompactCoalescePolicy D) : CompactCoalescePolicy D :=
  if n = 0 then policy
  else
    { policy with
      pending := policy.pending + n
      firstPendingMono := if policy.pending = 0 then some now else policy.firstPendingMono }

/-- `decide` at time `now` -/
def decide (policy : CompactCoalescePolicy D) (force : Bool) (now : D) : CompactDecision :=
  let pending := policy.pending
  if force || policy.mode = .always then ⟨true, if force then "force" else "always", pending⟩
  else if policy.mode = .never then ⟨false, "never", pending⟩
  else if pending = 0 then ⟨false, "no_pending", 0⟩
  else if policy.everyN ≤ pending then ⟨true, "every_n>=" ++ toString policy.everyN, pending⟩
  else
    let age := match policy.firstPendingMono with
      | none => ofInt 0
      | some first => sub now first
    if lt (ofInt 0) policy.maxAgeS && atLeast age policy.maxAgeS then
      ⟨true, "max_age>=" ++ PyFloat.repr policy.maxAgeS ++ "s", pending⟩
    else
      ⟨false, "waiting pending=" ++ toString pending ++ " age=" ++ fixed2 age ++ "s", pending⟩

/-- `mark_compacted` -/
def markCompacted (policy : CompactCoalescePolicy D) : CompactCoalescePolicy D :=
  { policy with pending := 0, firstPendingMono := none }

end CompactCoalescePolicy

end Unlearning
