import Mathlib.Logic.Relation
import Unlearning.Erase

/-!
# Erasure under contention (`src/hnsw_helper.hpp`, `api/main.py`)

`erase_node` is two locked phases: the row is wiped, then the graph is healed. A heal that throws,
at whichever of its locks, has changed nothing yet, so an attempt that times out leaves the index
as it was or with the row wiped. Wiping the row again changes nothing, so the attempt that succeeds
ends where a single one would have.

`withLockRetry` is the loop around `fn` in `with_lock_retry`; the sleeps and the counter are left
out.
-/

namespace Unlearning

/-! ## The retry loop -/

section Retry

variable {S E α : Type}

/-- The attempts from number `k` on, with `left` of them after this one. -/
def lockAttempts (isContention : E → Bool) (fn : ℕ → S → Except E α × S) :
    ℕ → ℕ → S → Except E α × S
  | 0, k, s => fn k s
  | left + 1, k, s => match fn k s with
    | (.error e, s') =>
      if isContention e then lockAttempts isContention fn left (k + 1) s' else (.error e, s')
    | (.ok a, s') => (.ok a, s')

/-- `with_lock_retry`: `fn k` is the call of `fn` in attempt `k`. -/
def withLockRetry (isContention : E → Bool) (fn : ℕ → S → Except E α × S) (maxAttempts : ℤ)
    (s : S) : Except E α × S :=
  let attempts := if maxAttempts < 1 then 1 else maxAttempts
  lockAttempts isContention fn (attempts.toNat - 1) 0 s

/-- A call that throws a contention error. -/
def Contends (isContention : E → Bool) (fn : ℕ → S → Except E α × S) (s s' : S) : Prop :=
  ∃ k e, isContention e = true ∧ fn k s = (.error e, s')

/-- **What the loop returns** is what one call returned, after calls that met contention. -/
theorem lockAttempts_ok {isContention : E → Bool} {fn : ℕ → S → Except E α × S} {left k : ℕ}
    {s s' : S} {a : α} (h : lockAttempts isContention fn left k s = (.ok a, s')) :
    ∃ t j, Relation.ReflTransGen (Contends isContention fn) s t ∧ fn j t = (.ok a, s') := by
  induction left generalizing k s with
  | zero => exact ⟨s, k, .refl, h⟩
  | succ left ih =>
    rw [lockAttempts] at h
    rcases hcall : fn k s with ⟨e | b, s₁⟩
    · rw [hcall] at h
      dsimp only at h
      split at h
      · rename_i hcont
        obtain ⟨t, j, hrun, hok⟩ := ih h
        exact ⟨t, j, .head ⟨k, e, hcont, hcall⟩ hrun, hok⟩
      · cases (Prod.mk.inj h).1
    · rw [hcall] at h
      exact ⟨s, k, .refl, hcall.trans h⟩

end Retry

/-- `LockContentionError`, the Python name of `LockTimeoutError`. -/
def NativeError.isContention (e : NativeError) : Bool := e.kind = .lockTimeout

namespace Index

section Attempts

variable {D : Type} [FloatArith D] {ix ix' ix₁ : Index} {env : NativeEnv} {q maxM : ℤ}

/-- Wiping a row twice is wiping it once. -/
theorem wipeRow_wipeRow (ix : Index) (n : ℕ) : (ix.wipeRow n).wipeRow n = ix.wipeRow n := by
  rcases hdata : ix.data with _ | b
  · simp [wipeRow, hdata]
  · simp only [wipeRow, hdata, Option.map_some, Index.mk.injEq, Option.some.injEq, and_true]
    simp only [Buffer.wipe, List.mapIdx_mapIdx, Buffer.mk.injEq]
    congr 1
    funext i w
    rw [Function.comp_apply]
    split <;> rfl

/-- On a row that is wiped already, `overwrite_vector` ends as on the index before. -/
theorem overwriteVector_wipeRow (h : (ix.wipeRow (asSize q)).overwriteVector env q = (.ok (), ix')) :
    ix.overwriteVector env q = (.ok (), ix') := by
  rcases overwriteVector_cases env q (ix.wipeRow (asSize q)) with ⟨hnode, hlock, hok⟩ | ⟨e, herr⟩
  · rw [hok, wipeRow_wipeRow] at h
    obtain ⟨hl, h0, hlt⟩ := ensureNode_eq_ok.mp hnode
    rw [wipeRow_isLoaded] at hl
    rw [← (Prod.mk.inj h).2, overwriteVector, ensureNode_eq_ok.mpr ⟨hl, h0, hlt⟩]
    simp [hlock]
  · rw [herr] at h
    cases (Prod.mk.inj h).1

/-- An attempt that succeeds after the row was wiped succeeds as the first one would have. -/
theorem eraseNode_wipeRow {r : ErasureResult}
    (h : (ix.wipeRow (asSize q)).eraseNode D env q maxM = (.ok r, ix')) :
    ix.eraseNode D env q maxM = (.ok r, ix') := by
  rcases hover : (ix.wipeRow (asSize q)).overwriteVector env q with ⟨e | u, wiped⟩
  · rw [eraseNode, hover] at h
    cases (Prod.mk.inj h).1
  · have hsame := overwriteVector_wipeRow hover
    rw [eraseNode, hover] at h
    rw [eraseNode, hsame]
    exact h

/-- The attempts of `erase_node(q, max_m)`; `envs k` is what attempt `k` meets. -/
def eraseAttempt (D : Type) [FloatArith D] (envs : ℕ → NativeEnv) (q maxM : ℤ) (k : ℕ)
    (ix : Index) : Except NativeError ErasureResult × Index :=
  ix.eraseNode D (envs k) q maxM

/-- **What failed attempts leave**: the index as it was, or with the row wiped. -/
theorem eq_or_wiped_of_attempts {envs : ℕ → NativeEnv}
    (h : Relation.ReflTransGen (Contends NativeError.isContention (eraseAttempt D envs q maxM))
      ix ix₁) : ix₁ = ix ∨ ix₁ = ix.wipeRow (asSize q) := by
  induction h with
  | refl => exact Or.inl rfl
  | @tail b c _ hstep ih =>
    obtain ⟨k, e, -, hcall⟩ := hstep
    have hleft : c = b ∨ c = b.wipeRow (asSize q) := by
      rw [eraseAttempt] at hcall
      rcases eraseNode_cases (D := D) b (envs k) q maxM with
        ⟨-, r, -, hok⟩ | ⟨-, e', herr⟩ | ⟨-, -, e', herr⟩
      · rw [hok] at hcall
        cases (Prod.mk.inj hcall).1
      · rw [herr] at hcall
        exact Or.inl (Prod.mk.inj hcall).2.symm
      · rw [herr] at hcall
        exact Or.inr (Prod.mk.inj hcall).2.symm
    rcases ih with rfl | rfl
    · exact hleft
    · refine Or.inr ?_
      rcases hleft with heq | heq
      · exact heq
      · rw [heq, wipeRow_wipeRow]

/-- **A single erasure**: after failed attempts, an attempt that succeeds returns what it would
have returned on the initial index, and leaves the same index. -/
theorem eraseNode_of_attempts {envs : ℕ → NativeEnv} {r : ErasureResult}
    (hrun : Relation.ReflTransGen (Contends NativeError.isContention (eraseAttempt D envs q maxM))
      ix ix₁) (hok : ix₁.eraseNode D env q maxM = (.ok r, ix')) :
    ix.eraseNode D env q maxM = (.ok r, ix') := by
  rcases eq_or_wiped_of_attempts hrun with rfl | rfl
  · exact hok
  · exact eraseNode_wipeRow hok

/-- Two erasures of one node of one index, whatever they met, leave the same index. -/
theorem eraseNode_deterministic {env' : NativeEnv} {r r' : ErasureResult} {ix'' : Index}
    (h : ix.eraseNode D env q maxM = (.ok r, ix'))
    (h' : ix.eraseNode D env' q maxM = (.ok r', ix'')) : ix'' = ix' := by
  rw [eq_healed_of_eraseNode h, eq_healed_of_eraseNode h']

/-- A heal that throws has changed nothing. -/
theorem eq_of_healGraphStructure_error {n : ℕ} {e : NativeError}
    (h : ix.healGraphStructure D env n maxM = (.error e, ix')) : ix' = ix := by
  rcases healGraphStructure_cases (D := D) ix env n maxM with ⟨-, hm, -, hok⟩ | ⟨-, e', herr⟩
  · rw [hok] at h
    cases (Prod.mk.inj h).1
  · rw [herr] at h
    exact (Prod.mk.inj h).2.symm

end Attempts

/-- **A failed heal changes nothing and erasure is retry-safe**, whatever each attempt meets at
its locks, for any number of attempts, and as `with_lock_retry` drives them. -/
theorem eraseNode_retry_safe (D : Type) [FloatArith D] (ix : Index) (q maxM : ℤ) :
    (∀ env n e ix', ix.healGraphStructure D env n maxM = (.error e, ix') → ix' = ix) ∧
      (∀ envs env ix₁ r ix',
        Relation.ReflTransGen (Contends NativeError.isContention (eraseAttempt D envs q maxM))
          ix ix₁ →
        ix₁.eraseNode D env q maxM = (.ok r, ix') →
        ix.eraseNode D env q maxM = (.ok r, ix') ∧
          ∀ env' r' ix'', ix.eraseNode D env' q maxM = (.ok r', ix'') → ix'' = ix') ∧
      ∀ envs maxAttempts r ix',
        withLockRetry NativeError.isContention (eraseAttempt D envs q maxM) maxAttempts ix =
          (.ok r, ix') →
        (∃ k, ix.eraseNode D (envs k) q maxM = (.ok r, ix')) ∧
          ∀ env' r' ix'', ix.eraseNode D env' q maxM = (.ok r', ix'') → ix'' = ix' := by
  refine ⟨fun env n e ix' h => eq_of_healGraphStructure_error h,
    fun envs env ix₁ r ix' hrun hok => ?_, fun envs maxAttempts r ix' h => ?_⟩
  · have hsingle := eraseNode_of_attempts hrun hok
    exact ⟨hsingle, fun env' r' ix'' h' => eraseNode_deterministic hsingle h'⟩
  · obtain ⟨ix₁, k, hrun, hok⟩ := lockAttempts_ok h
    have hsingle := eraseNode_of_attempts hrun hok
    exact ⟨⟨k, hsingle⟩, fun env' r' ix'' h' => eraseNode_deterministic hsingle h'⟩

/-- What an attempt meets when another call holds a stripe of the region. -/
def regionBusy : NativeEnv := ⟨fun site => decide (site ≠ .healRegion), "0.000000"⟩

/-- On `oneArc`: the first attempt wipes the row and times out at the region, the second heals. -/
theorem eraseNode_retry_safe_oneArc : ∃ r ix',
    withLockRetry NativeError.isContention
        (eraseAttempt Float (fun k => if k = 0 then regionBusy else .calm) 0 16) 3 oneArc =
      (.ok r, ix') ∧
      ∀ env' r' ix'', oneArc.eraseNode Float env' 0 16 = (.ok r', ix'') → ix'' = ix' := by
  have hok : ∃ r ix', withLockRetry NativeError.isContention
      (eraseAttempt Float (fun k => if k = 0 then regionBusy else .calm) 0 16) 3 oneArc =
        (.ok r, ix') := ⟨_, _, rfl⟩
  obtain ⟨r, ix', h⟩ := hok
  exact ⟨r, ix', h, ((eraseNode_retry_safe Float oneArc 0 16).2.2 _ _ _ _ h).2⟩

end Index

end Unlearning
