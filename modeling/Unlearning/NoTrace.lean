import Unlearning.Calls

/-!
# An erased vector leaves no trace

Two indexes that differ at most in the row of `q` are the same index once `erase_node(q)` has
succeeded on both: the row is wiped before the heal ranks anything. Then nothing that is done
with them later can tell them apart. The one field that may differ is who owns the buffer; the
code reads it only to free the buffer, and `apply_withOwner` says that no call's answer depends
on it.
-/

namespace Unlearning

namespace Index

/-- What a client reads off an index without changing it. -/
inductive Read (D : Type) [FloatArith D] : Type where
  | isLoaded
  | dimensions
  | numElements
  | getVector (env : NativeEnv) (nodeId : ℤ)
  | getNeighbors (env : NativeEnv) (nodeId layer : ℤ)
  | numLayers (env : NativeEnv) (nodeId : ℤ)
  | saveToFile
  | searchKnn (acquires : ℕ → Bool) (locks : LockManager) (std : StdOrder (SearchHit.less D))
      (query : Option (List UInt32)) (fuel k : ℕ) (entryNode : ℤ)

/-- What a read answers. -/
inductive Seen (D : Type) : Type where
  | flag (b : Bool)
  | size (n : ℕ)
  | vector (r : Except NativeError (List UInt32))
  | labels (r : Except NativeError (List ℤ))
  | count (r : Except NativeError ℕ)
  | bytes (r : Except NativeError (List UInt8))
  | hits (r : Except SearchExit (List (SearchHit D)))

/-- What a read sees of an index. -/
def Read.eval {D : Type} [FloatArith D] (ix : Index) : Read D → Seen D
  | isLoaded => .flag ix.isLoaded
  | dimensions => .size ix.dim
  | numElements => .size ix.numElements
  | getVector env v => .vector (ix.getVector env v)
  | getNeighbors env v L => .labels (ix.getNeighbors env v L)
  | numLayers env v => .count (ix.numLayers env v)
  | saveToFile => .bytes ix.saveToFile
  | searchKnn acquires locks std query fuel k entryNode =>
    .hits (Walk.searchKnn (.fixed acquires ix) locks std query fuel k entryNode Walk.start).1

/-- The answers of a list of calls. -/
def answers (D : Type) [FloatArith D] : List Call → Index → List (Except NativeError Answer)
  | [], _ => []
  | c :: rest, ix => (c.apply D ix).1 :: answers D rest (c.apply D ix).2

/-- The same index, the buffer owned or not. -/
def withOwner (ix : Index) (owns : Bool) : Index := { ix with ownsData := owns }

section Owner

variable {D : Type} [FloatArith D]

theorem candidates_withOwner (ix : Index) (owns : Bool) (orphans : List ℤ) :
    (ix.withOwner owns).candidates D orphans = ix.candidates D orphans := by
  induction orphans with
  | nil => rfl
  | cons u rest ih =>
    rw [candidates, candidates, ih]
    rfl

theorem healLayer_withOwner (ix : Index) (owns : Bool) (q : ℤ) (region : List ℤ) (maxM : ℤ) :
    (ix.withOwner owns).healLayer D q region maxM = ix.healLayer D q region maxM := by
  funext s L
  simp only [healLayer, rankedCandidates, candidates_withOwner]
  rfl

theorem healLocked_withOwner (ix : Index) (owns : Bool) (n : ℕ) (region : List ℤ) (maxM : ℤ) :
    (ix.withOwner owns).healLocked D n region maxM = ix.healLocked D n region maxM := by
  simp only [healLocked, healLayer_withOwner]
  rfl

theorem healGraphStructure_withOwner (ix : Index) (owns : Bool) (env : NativeEnv) (n : ℕ)
    (maxM : ℤ) :
    (ix.withOwner owns).healGraphStructure D env n maxM =
      ((ix.healGraphStructure D env n maxM).1,
        (ix.healGraphStructure D env n maxM).2.withOwner owns) := by
  have hregion : (ix.withOwner owns).lockRegion env n = ix.lockRegion env n := rfl
  have hloaded : (ix.withOwner owns).isLoaded = ix.isLoaded := rfl
  have hsize : (ix.withOwner owns).numElements = ix.numElements := rfl
  simp only [healGraphStructure, hregion, hloaded, hsize, healLocked_withOwner]
  split
  · rfl
  · split
    · rfl
    · split
      · rfl
      · split <;> rfl

theorem overwriteVector_withOwner (ix : Index) (owns : Bool) (env : NativeEnv) (v : ℤ) :
    (ix.withOwner owns).overwriteVector env v =
      ((ix.overwriteVector env v).1, (ix.overwriteVector env v).2.withOwner owns) := by
  have hnode : (ix.withOwner owns).ensureNode v = ix.ensureNode v := rfl
  simp only [overwriteVector, hnode]
  split
  · rfl
  · split <;> rfl

theorem eraseNode_withOwner (ix : Index) (owns : Bool) (env : NativeEnv) (v maxM : ℤ) :
    (ix.withOwner owns).eraseNode D env v maxM =
      ((ix.eraseNode D env v maxM).1, (ix.eraseNode D env v maxM).2.withOwner owns) := by
  rw [eraseNode, eraseNode, overwriteVector_withOwner]
  rcases ix.overwriteVector env v with ⟨e | u, ix'⟩
  · rfl
  · simp only [healGraphStructure_withOwner]
    rcases ix'.healGraphStructure D env (asSize v) maxM with ⟨e | hm, ix''⟩ <;> rfl

/-- **No answer depends on the owner**, and the index a call leaves does so at most in its
owner. -/
theorem apply_withOwner (ix : Index) (owns : Bool) (c : Call) :
    ∃ owns', c.apply D (ix.withOwner owns) =
      ((c.apply D ix).1, (c.apply D ix).2.withOwner owns') := by
  cases c with
  | loadIndex memory source d n =>
    simp only [Call.apply, loadIndex]
    split
    · exact ⟨owns, rfl⟩
    · refine ⟨true, ?_⟩
      split
      · rfl
      · split
        · split
          · rfl
          · split <;> rfl
        · rfl
  | attachIndex memory source d n =>
    simp only [Call.apply, attachIndex]
    split
    · exact ⟨owns, rfl⟩
    · refine ⟨false, ?_⟩
      split <;> rfl
  | loadAdjacency adj =>
    refine ⟨owns, ?_⟩
    have hsize : (ix.withOwner owns).numElements = ix.numElements := rfl
    have hin : (ix.withOwner owns).inRange = ix.inRange := rfl
    simp only [Call.apply, loadAdjacency, hsize, hin]
    split
    · rfl
    · split
      · rfl
      · split <;> rfl
  | setNeighbors env v L nbrs =>
    refine ⟨owns, ?_⟩
    have hnode : (ix.withOwner owns).ensureNode v = ix.ensureNode v := rfl
    have hin : (ix.withOwner owns).inRange = ix.inRange := rfl
    simp only [Call.apply, setNeighbors, hnode, hin]
    split
    · rfl
    · split
      · rfl
      · split
        · rfl
        · split <;> rfl
  | overwriteVector env v =>
    exact ⟨owns, by simp only [Call.apply, overwriteVector_withOwner]; rfl⟩
  | pruneAdjacency env v =>
    refine ⟨owns, ?_⟩
    have hnode : (ix.withOwner owns).ensureNode v = ix.ensureNode v := rfl
    simp only [Call.apply, pruneAdjacency, hnode]
    split
    · rfl
    · split <;> rfl
  | healGraphStructure env n maxM =>
    exact ⟨owns, by simp only [Call.apply, healGraphStructure_withOwner]; rfl⟩
  | eraseNode env v maxM => exact ⟨owns, by simp only [Call.apply, eraseNode_withOwner]; rfl⟩
  | loadFromFile path file =>
    rcases hfile : file with _ | bytes
    · exact ⟨owns, rfl⟩
    · simp only [Call.apply, loadFromFile]
      rcases (readImage path).run bytes with e | ⟨img, rest⟩
      · exact ⟨owns, rfl⟩
      · exact ⟨true, rfl⟩

/-- Nothing that is done later tells the owner. -/
theorem later_withOwner (later : List Call) (ix : Index) (owns : Bool) :
    answers D later (ix.withOwner owns) = answers D later ix ∧
      ∃ owns', runCalls D later (ix.withOwner owns) = (runCalls D later ix).withOwner owns' := by
  induction later generalizing ix owns with
  | nil => exact ⟨rfl, owns, rfl⟩
  | cons c rest ih =>
    obtain ⟨owns', heq⟩ := apply_withOwner (D := D) ix owns c
    obtain ⟨hanswers, hrun⟩ := ih (c.apply D ix).2 owns'
    simp only [answers, runCalls, List.foldl_cons, heq] at hrun ⊢
    exact ⟨by rw [hanswers], hrun⟩

end Owner

/-! ## A search does not read the owner -/

section Search

open Walk

variable {D : Type} [FloatArith D] {acquires : ℕ → Bool} {ix : Index} (owns : Bool)
  {locks : LockManager} {std : StdOrder (SearchHit.less D)} {query : List UInt32}

theorem here_bind {α : Type} (f : Index → Walk α) :
    (here (.fixed acquires ix) >>= f) = f ix := rfl

theorem advance_withOwner : advance (.fixed acquires (ix.withOwner owns)) locks =
    advance (.fixed acquires ix) locks := rfl

theorem neighbors_withOwner : neighbors (.fixed acquires (ix.withOwner owns)) =
    neighbors (.fixed acquires ix) := rfl

theorem distanceQuery_withOwner : distanceQuery (.fixed acquires (ix.withOwner owns)) D =
    distanceQuery (.fixed acquires ix) D := rfl

theorem inRange_withOwner : (ix.withOwner owns).inRange = ix.inRange := rfl

theorem greedyScan_withOwner (curr : ℤ) (bestDist : D) (nbrs : List ℤ) :
    greedyScan (.fixed acquires (ix.withOwner owns)) locks D query curr bestDist nbrs =
      greedyScan (.fixed acquires ix) locks D query curr bestDist nbrs := by
  induction nbrs with
  | nil => rfl
  | cons nb rest ih =>
    simp only [greedyScan, here_bind, inRange_withOwner, advance_withOwner,
      distanceQuery_withOwner, ih]
    rfl

theorem greedyUpdateLocked_withOwner (layer fuel : ℕ) (curr : ℤ) :
    greedyUpdateLocked (.fixed acquires (ix.withOwner owns)) locks D query layer fuel curr =
      greedyUpdateLocked (.fixed acquires ix) locks D query layer fuel curr := by
  induction fuel generalizing curr with
  | zero => rfl
  | succ fuel ih =>
    simp only [greedyUpdateLocked, distanceQuery_withOwner, neighbors_withOwner,
      greedyScan_withOwner, ih]

theorem descend_withOwner (fuel lc : ℕ) (curr : ℤ) :
    descend (.fixed acquires (ix.withOwner owns)) locks D query fuel lc curr =
      descend (.fixed acquires ix) locks D query fuel lc curr := by
  induction lc generalizing curr with
  | zero => rfl
  | succ lc ih => simp only [descend, greedyUpdateLocked_withOwner, ih]

theorem scan_withOwner (ef : ℕ) (u : ℤ) (nbrs : List ℤ) (b : Beam D) :
    scan (.fixed acquires (ix.withOwner owns)) locks std query ef u nbrs b =
      scan (.fixed acquires ix) locks std query ef u nbrs b := by
  induction nbrs generalizing b with
  | nil => rfl
  | cons nb rest ih =>
    simp only [scan, here_bind, inRange_withOwner, advance_withOwner, distanceQuery_withOwner,
      ih]
    rfl

theorem explore_withOwner (ef fuel : ℕ) (b : Beam D) :
    explore (.fixed acquires (ix.withOwner owns)) locks std query ef fuel b =
      explore (.fixed acquires ix) locks std query ef fuel b := by
  induction fuel generalizing b with
  | zero => rfl
  | succ fuel ih => simp only [explore, advance_withOwner, neighbors_withOwner, scan_withOwner, ih]

theorem searchKnn_withOwner (query : Option (List UInt32)) (fuel k : ℕ) (entryNode : ℤ) :
    searchKnn (.fixed acquires (ix.withOwner owns)) locks std query fuel k entryNode =
      searchKnn (.fixed acquires ix) locks std query fuel k entryNode := by
  cases query with
  | none => rfl
  | some query =>
    have hloaded : (ix.withOwner owns).isLoaded = ix.isLoaded := rfl
    have hentry : (ix.withOwner owns).searchEntry entryNode = ix.searchEntry entryNode := rfl
    have htop : topLayer (.fixed acquires (ix.withOwner owns)) locks =
        topLayer (.fixed acquires ix) locks := rfl
    have henter : enter (.fixed acquires (ix.withOwner owns)) locks =
        enter (.fixed acquires ix) locks := rfl
    have hsize : (ix.withOwner owns).numElements = ix.numElements := rfl
    simp only [searchKnn, searchLocked, baseLayerSearchLocked, here_bind, hloaded, hentry, htop,
      henter, hsize, descend_withOwner, explore_withOwner, advance_withOwner,
      distanceQuery_withOwner]

theorem eval_withOwner (r : Read D) : r.eval (ix.withOwner owns) = r.eval ix := by
  cases r with
  | searchKnn acquires locks std query fuel k entryNode =>
    simp only [Read.eval, searchKnn_withOwner]
  | _ => rfl

end Search

/-! ## The erased row -/

section Erased

variable {D : Type} [FloatArith D]

/-- The two indexes agree on everything but the row of `q` and the owner of the buffer. -/
structure AgreeExcept (q : ℕ) (ix₁ ix₂ : Index) : Prop where
  numElements : ix₁.numElements = ix₂.numElements
  dim : ix₁.dim = ix₂.dim
  adjacency : ix₁.adjacency = ix₂.adjacency
  entrypoint : ix₁.entrypoint = ix₂.entrypoint
  rows : ∀ n < ix₁.numElements, n ≠ q → ix₁.row n = ix₂.row n

/-- A word of the buffer belongs to a row. -/
theorem getElem?_words {ix : Index} (h : ix.words.length = ix.numElements * ix.dim) {i : ℕ}
    (hi : i < ix.words.length) :
    0 < ix.dim ∧ i / ix.dim < ix.numElements ∧
      ix.words[i]? = (ix.row (i / ix.dim))[i % ix.dim]? := by
  have hdim : 0 < ix.dim := by
    rcases Nat.eq_zero_or_pos ix.dim with h0 | hpos
    · rw [h, h0] at hi
      omega
    · exact hpos
  refine ⟨hdim, (Nat.div_lt_iff_lt_mul hdim).mpr (h ▸ hi), ?_⟩
  rw [getElem?_row, if_pos (Nat.mod_lt i hdim), Nat.mul_comm, Nat.div_add_mod]

section Agree

variable {q : ℕ} {ix₁ ix₂ : Index} (h : AgreeExcept q ix₁ ix₂)
  (h₁ : ix₁.words.length = ix₁.numElements * ix₁.dim)
  (h₂ : ix₂.words.length = ix₂.numElements * ix₂.dim)
include h h₁ h₂

/-- **The wiped words agree**: outside the row of `q` the words did, inside they are zero. -/
theorem AgreeExcept.words_wipeRow : (ix₁.wipeRow q).words = (ix₂.wipeRow q).words := by
  have hlen : ix₁.words.length = ix₂.words.length := by rw [h₁, h₂, h.numElements, h.dim]
  apply List.ext_getElem?
  intro i
  rw [Index.words_wipeRow, Index.words_wipeRow, List.getElem?_mapIdx, List.getElem?_mapIdx, h.dim]
  by_cases hi : i < ix₁.words.length
  · by_cases hq : q * ix₂.dim ≤ i ∧ i < q * ix₂.dim + ix₂.dim
    · rw [List.getElem?_eq_getElem hi, List.getElem?_eq_getElem (hlen ▸ hi)]
      simp [hq]
    · obtain ⟨hdim, hn, hw₁⟩ := getElem?_words h₁ hi
      obtain ⟨-, -, hw₂⟩ := getElem?_words h₂ (hlen ▸ hi)
      have hne : i / ix₁.dim ≠ q := by
        rintro rfl
        apply hq
        have hdiv := Nat.div_add_mod' i ix₁.dim
        have hmod := Nat.mod_lt i hdim
        rw [← h.dim]
        exact ⟨by omega, by omega⟩
      rw [hw₁, hw₂, h.rows _ hn hne, h.dim]
  · rw [List.getElem?_eq_none (by omega), List.getElem?_eq_none (by omega)]

/-- Once the row is wiped, the two indexes are one. -/
theorem AgreeExcept.wipeRow_eq (hl₁ : ix₁.isLoaded = true) (hl₂ : ix₂.isLoaded = true) :
    ix₂.wipeRow q = (ix₁.wipeRow q).withOwner ix₂.ownsData := by
  have hwords := h.words_wipeRow h₁ h₂
  obtain ⟨b₁, hb₁⟩ : ∃ b, (ix₁.wipeRow q).data = some b := by
    rw [← wipeRow_isLoaded ix₁ q, isLoaded, Bool.and_eq_true] at hl₁
    exact Option.isSome_iff_exists.mp hl₁.2
  obtain ⟨b₂, hb₂⟩ : ∃ b, (ix₂.wipeRow q).data = some b := by
    rw [← wipeRow_isLoaded ix₂ q, isLoaded, Bool.and_eq_true] at hl₂
    exact Option.isSome_iff_exists.mp hl₂.2
  have hbuffer : b₁ = b₂ := by
    simp only [Index.words, hb₁, hb₂] at hwords
    rcases b₁ with ⟨w₁, f₁⟩
    rcases b₂ with ⟨w₂, f₂⟩
    simpa using hwords
  have hfields : ∀ a b : Index, a.data = b.data → a.dim = b.dim → a.numElements = b.numElements →
      a.entrypoint = b.entrypoint → a.adjacency = b.adjacency → b = a.withOwner b.ownsData := by
    rintro ⟨⟩ ⟨⟩ rfl rfl rfl rfl rfl
    rfl
  exact hfields _ _ (by rw [hb₁, hb₂, hbuffer]) h.dim h.numElements h.entrypoint h.adjacency

end Agree

/-- The message of a successful erasure: the edges removed and added, and the time. -/
def eraseMessage (work : HealWork) (elapsedMs : String) : String :=
  s!"vector zeroed; graph healed (removed={wrapInt work.edgesRemoved}, added={wrapInt work.edgesAdded}, {elapsedMs} ms)"

/-- A heal that succeeds: its counters and the index it leaves, whatever it met. -/
theorem healGraphStructure_ok {ix ix' : Index} {env : NativeEnv} {n : ℕ} {maxM : ℤ}
    {hm : HealingMetrics} (h : ix.healGraphStructure D env n maxM = (.ok hm, ix')) :
    hm = (ix.healLocked D n (ix.collectHealRegionUnlocked n) maxM).metrics env.elapsedMs ∧
      ix' = ix.healed D n maxM := by
  rw [healGraphStructure] at h
  split at h
  · cases h
  · split at h
    · cases h
    · split at h
      · cases h
      · rcases lockRegion_cases ix env n with ⟨-, hok⟩ | ⟨-, herr⟩
        · rw [hok] at h
          cases h
          exact ⟨rfl, rfl⟩
        · rw [herr] at h
          cases h

/-- An erasure that succeeds: what it reports and the index it leaves. -/
theorem eraseNode_ok {ix ix' : Index} {env : NativeEnv} {q : ℕ} {maxM : ℤ} {r : ErasureResult}
    (h : ix.eraseNode D env q maxM = (.ok r, ix')) :
    ix' = (ix.wipeRow q).healed D q maxM ∧
      r.message = eraseMessage
        ((ix.wipeRow q).healLocked D q ((ix.wipeRow q).collectHealRegionUnlocked q) maxM)
        env.elapsedMs := by
  rcases overwriteVector_cases env (q : ℤ) ix with ⟨-, -, hov⟩ | ⟨e, hov⟩
  · rw [eraseNode, hov, asSize_natCast] at h
    simp only at h
    rcases hheal : (ix.wipeRow q).healGraphStructure D env q maxM with ⟨e | hm, ix''⟩
    · rw [hheal] at h
      cases h
    · obtain ⟨rfl, hix⟩ := healGraphStructure_ok hheal
      simp only [hheal, Prod.mk.injEq, Except.ok.injEq] at h
      obtain ⟨rfl, rfl⟩ := h
      exact ⟨hix, rfl⟩
  · rw [eraseNode, hov] at h
    cases h

/-- **An erased vector leaves no trace.** Two loaded indexes that agree on everything but the row
of `q`: an erasure of `q` that meets the same outside answers the same on both. After erasures
that succeed the two indexes are the same one (the owner of the buffer aside), the edges reported
removed and added are the same, and so are the answers of all later calls and of every read after
them. -/
theorem eraseNode_no_trace {q : ℕ} {ix₁ ix₂ : Index} (hl₁ : ix₁.isLoaded = true)
    (hl₂ : ix₂.isLoaded = true) (h₁ : ix₁.words.length = ix₁.numElements * ix₁.dim)
    (h₂ : ix₂.words.length = ix₂.numElements * ix₂.dim) (h : AgreeExcept q ix₁ ix₂) (maxM : ℤ) :
    (∀ env, (ix₁.eraseNode D env q maxM).1 = (ix₂.eraseNode D env q maxM).1) ∧
      ∀ env₁ env₂ r₁ r₂ ix₁' ix₂', ix₁.eraseNode D env₁ q maxM = (.ok r₁, ix₁') →
        ix₂.eraseNode D env₂ q maxM = (.ok r₂, ix₂') →
        ix₂' = { ix₁' with ownsData := ix₂.ownsData } ∧
        (∃ work, r₁.message = eraseMessage work env₁.elapsedMs ∧
          r₂.message = eraseMessage work env₂.elapsedMs) ∧
        ∀ later, answers D later ix₁' = answers D later ix₂' ∧
          ∀ read : Read D, read.eval (runCalls D later ix₁') =
            read.eval (runCalls D later ix₂') := by
  have hwiped := h.wipeRow_eq h₁ h₂ hl₁ hl₂
  refine ⟨fun env => ?_, ?_⟩
  · have hnode : ix₁.ensureNode q = ix₂.ensureNode q := by
      simp only [ensureNode, hl₁, hl₂, h.numElements]
    rw [eraseNode, eraseNode, overwriteVector, overwriteVector, hnode]
    rcases ix₂.ensureNode q with e | u
    · rfl
    · by_cases hlock : env.acquires .overwrite = true
      · simp only [hlock, Bool.not_true, Bool.false_eq_true, if_false, asSize_natCast, hwiped,
          healGraphStructure_withOwner]
        rcases (ix₁.wipeRow q).healGraphStructure D env q maxM with ⟨e | hm, ix'⟩ <;> rfl
      · simp only [hlock, Bool.not_false, if_true]
  · intro env₁ env₂ r₁ r₂ ix₁' ix₂' he₁ he₂
    obtain ⟨rfl, hm₁⟩ := eraseNode_ok he₁
    obtain ⟨rfl, hm₂⟩ := eraseNode_ok he₂
    have hstate : (ix₂.wipeRow q).healed D q maxM =
        ((ix₁.wipeRow q).healed D q maxM).withOwner ix₂.ownsData := by
      rw [hwiped, healed, healed, healLocked_withOwner]
      rfl
    have hwork : (ix₂.wipeRow q).healLocked D q ((ix₂.wipeRow q).collectHealRegionUnlocked q) maxM =
        (ix₁.wipeRow q).healLocked D q ((ix₁.wipeRow q).collectHealRegionUnlocked q) maxM := by
      rw [hwiped, healLocked_withOwner]
      rfl
    refine ⟨hstate, ⟨_, hm₁, by rw [hm₂, hwork]⟩, fun later => ?_⟩
    rw [hstate]
    obtain ⟨hanswers, owns, hrun⟩ :=
      later_withOwner (D := D) later ((ix₁.wipeRow q).healed D q maxM) ix₂.ownsData
    exact ⟨hanswers.symm, fun read => by rw [hrun, eval_withOwner]⟩

end Erased

/-- A star whose centre has the given vector. -/
def starOf (centre : UInt32) : Index where
  data := some ⟨[centre, 1073741824, 1077936128], by simp⟩
  ownsData := true
  dim := 1
  numElements := 3
  entrypoint := 0
  adjacency := [[[1, 2]], [[0]], [[0]]]

/-- Whatever the centre was, the index without it is the same. -/
theorem eraseNode_no_trace_starOf :
    ∃ r₁ r₂ ix₁ ix₂, (starOf 1065353216).eraseNode Float .calm (0 : ℕ) 16 = (.ok r₁, ix₁) ∧
      (starOf 1091567616).eraseNode Float .calm (0 : ℕ) 16 = (.ok r₂, ix₂) ∧
      ix₂ = { ix₁ with ownsData := true } ∧ r₁.message = r₂.message := by
  have hagree : AgreeExcept 0 (starOf 1065353216) (starOf 1091567616) := by
    refine ⟨rfl, rfl, rfl, rfl, fun n hn hne => ?_⟩
    have hn3 : n < 3 := hn
    have hcases : n = 1 ∨ n = 2 := by omega
    rcases hcases with rfl | rfl <;> rfl
  obtain ⟨r₁, ix₁, he₁⟩ : ∃ r ix, (starOf 1065353216).eraseNode Float .calm (0 : ℕ) 16 =
      (.ok r, ix) := ⟨_, _, rfl⟩
  obtain ⟨r₂, ix₂, he₂⟩ : ∃ r ix, (starOf 1091567616).eraseNode Float .calm (0 : ℕ) 16 =
      (.ok r, ix) := ⟨_, _, rfl⟩
  obtain ⟨hstate, ⟨work, hm₁, hm₂⟩, -⟩ := (eraseNode_no_trace (D := Float) rfl rfl rfl rfl hagree
    16).2 .calm .calm r₁ r₂ ix₁ ix₂ he₁ he₂
  exact ⟨r₁, r₂, ix₁, ix₂, he₁, he₂, hstate, hm₁.trans hm₂.symm⟩

end Index

end Unlearning
