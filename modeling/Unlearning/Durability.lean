import Unlearning.Recovery

/-!
# What recovery guarantees

Two results about every run of the world, read off the invariant of `Recovery`:

* `World.no_resurrection`: from a checkpoint and an empty log, whatever the
  interleaving and wherever the crashes fall, a committed delete is in
  `index.bin`, and when `bootstrap` returns every logged delete is in both
  stores;
* `World.bootstrap_keeps_unrequested`: `bootstrap` leaves alone the rows that no
  request named since the last checkpointed load — provided no load happens
  while the log still holds an uncommitted BEGIN for a row that is not zero in
  the new matrix. The log is not tied to the checkpoint, so without that
  condition an old intent is applied to new data
  (`World.bootstrap_erases_new_row`).
-/

namespace Unlearning

open Prog Store

namespace World

variable {H : Sha256} {D : Type} [FloatArith D] {retries : ℕ}

/-! ## No resurrection -/

/-- A run of deletes in range, without reloads. -/
def DeletesOnly (N : ℕ) : Action → Prop
  | .request nodeId maxM => 0 ≤ nodeId ∧ nodeId < N ∧ 1 ≤ maxM
  | .ingest _ => False
  | _ => True

/-- The plan of such a run. -/
def deletePlan (N : ℕ) : Plan := ⟨some N, fun n _ => n < N, none⟩

theorem inv_fromCheckpoint {ix : Index} (h : ix.isLoaded = true) {P : Plan}
    (hfix : ∀ N, P.fixed = some N → N = ix.numElements) (hbase : P.base = none) :
    Inv H D P (fromCheckpoint ix) where
  store :=
    { not_torn := by simp [fromCheckpoint]
      loaded := by
        intro b hb
        obtain rfl := IndexFile.snapshot.inj hb
        exact h
      covers := fun _ => ⟨ix.owned, rfl, ix.owned_shadows⟩
      distinct := List.nodup_nil
      nonneg := le_rfl
      ids := fun r hr => by cases hr
      admitted := fun r hr => by cases hr
      pending := fun r hr => by cases hr
      fixed := fun N hN => ⟨⟨ix.owned, rfl, (hfix N hN).symm⟩, fun r hr => by cases hr⟩
      kept := fun b₀ hb₀ => by rw [hbase] at hb₀; cases hb₀ }
  booting := fun p hp => by cases hp
  serving := by
    intro threads ht
    obtain rfl := Phase.serving.inj ht
    exact fun i p hp => by cases hp

theorem allAllowed_of_deletesOnly {N : ℕ} {actions : List Action}
    (h : ∀ a ∈ actions, DeletesOnly N a) (w : World) :
    AllAllowed H D (deletePlan N) retries actions w := by
  refine allAllowed_of_forall (fun a ha w => ?_) w
  have hdel := h a ha
  cases a with
  | request nodeId maxM =>
    intro n m hn hm _ _ _
    have hlt : nodeId < N := hdel.2.1
    show n < N
    omega
  | ingest ix => exact hdel.elim
  | crash => trivial
  | restart => trivial
  | boot env => trivial
  | serve => trivial
  | advance i env => trivial

/-- Row `n` of `index.bin` exists and is zero. -/
def BinErased (w : World) (n : ℕ) : Prop :=
  ∃ b, w.store.bin = .snapshot b ∧ n < b.numElements ∧ b.RowZero n

/-- Row `n` of the live index exists and is zero. -/
def LiveErased (w : World) (n : ℕ) : Prop :=
  w.store.live.isLoaded = true ∧ n < w.store.live.numElements ∧ w.store.live.RowZero n

/-- **No resurrection.** In every state of every run of in-range deletes from a
checkpoint: (a) a BEGIN whose transaction has a COMMIT is erased in `index.bin`;
(b) when `bootstrap` has returned, every BEGIN of the log is erased in the live
index and in `index.bin`, and nothing is left to replay. -/
theorem no_resurrection {ix : Index} (hix : ix.isLoaded = true) {actions : List Action}
    (hact : ∀ a ∈ actions, DeletesOnly ix.numElements a) :
    (∀ r ∈ begins (run H D retries actions (fromCheckpoint ix)).store.log.records,
      r.transactionId ∈ committed (run H D retries actions (fromCheckpoint ix)).store.log.records →
        BinErased (run H D retries actions (fromCheckpoint ix)) r.targetNodeId) ∧
    ∀ rep, (run H D retries actions (fromCheckpoint ix)).phase = .booting (.ret rep) →
      (∀ r ∈ begins (run H D retries actions (fromCheckpoint ix)).store.log.records,
        LiveErased (run H D retries actions (fromCheckpoint ix)) r.targetNodeId ∧
          BinErased (run H D retries actions (fromCheckpoint ix)) r.targetNodeId) ∧
      uncommittedDeletes (run H D retries actions (fromCheckpoint ix)).store.log.records = [] := by
  have hinv : Inv H D (deletePlan ix.numElements) (run H D retries actions (fromCheckpoint ix)) :=
    inv_run (inv_fromCheckpoint hix (fun N hN => (Option.some.inj hN).symm) rfl)
      (allAllowed_of_deletesOnly hact _)
  generalize run H D retries actions (fromCheckpoint ix) = w at hinv ⊢
  obtain ⟨⟨b, hb, hbN⟩, hcom⟩ := hinv.store.fixed ix.numElements rfl
  have hbin : ∀ r ∈ begins w.store.log.records, w.store.BinZero r.targetNodeId →
      BinErased w r.targetNodeId := by
    rintro r hr ⟨b', hb', hz⟩
    obtain rfl := IndexFile.snapshot.inj (hb.symm.trans hb')
    exact ⟨b, hb, by rw [hbN]; exact hinv.store.admitted r hr, hz⟩
  refine ⟨fun r hr hc => hbin r hr (hcom r hr hc), fun rep hrep => ?_⟩
  obtain ⟨hlive, hset⟩ := hinv.booting _ hrep rep rfl rfl
  refine ⟨fun r hr => ⟨?_, hbin r hr (hset r hr).2⟩, ?_⟩
  · obtain ⟨b', hb', hsh⟩ := hinv.store.covers hlive
    obtain rfl := IndexFile.snapshot.inj (hb.symm.trans hb')
    refine ⟨hlive, ?_, (hinv.store.liveZero hlive (hset r hr).2).2⟩
    rw [hsh.numElements, hbN]
    exact hinv.store.admitted r hr
  · refine List.eq_nil_iff_forall_not_mem.mpr fun r hr => ?_
    obtain ⟨hmem, hnot⟩ := of_mem_uncommittedDeletes hr
    exact hnot (hset r hmem).1

/-- Nothing fails. -/
def calmEnv : Env := ⟨.calm, 0, false⟩

/-- A delete that crashes between its erase and its flush, and the `bootstrap` that replays it. -/
def crashedDelete : List Action :=
  [.request 1 16, .advance 0 calmEnv, .advance 0 calmEnv, .crash, .restart] ++
    List.replicate 14 (.boot calmEnv)

/-- The world after it. -/
def recovered : World := run .hashlib Float 0 crashedDelete (fromCheckpoint Index.threeNodes)

theorem no_resurrection_crashedDelete :
    (∃ rep, recovered.phase = .booting (.ret rep)) ∧
      (begins recovered.store.log.records).map BeginDeleteRecord.targetNodeId = [1, 1] ∧
      LiveErased recovered 1 ∧ BinErased recovered 1 ∧
      uncommittedDeletes recovered.store.log.records = [] := by
  have hdeletes : ∀ a ∈ crashedDelete, DeletesOnly Index.threeNodes.numElements a := by
    simp [crashedDelete, DeletesOnly, Index.threeNodes]
  have hreturned : ∃ rep, recovered.phase = .booting (.ret rep) := ⟨_, rfl⟩
  have htargets : (begins recovered.store.log.records).map BeginDeleteRecord.targetNodeId =
      [1, 1] := rfl
  obtain ⟨rep, hrep⟩ := hreturned
  obtain ⟨-, hrecovered⟩ := @no_resurrection .hashlib Float _ 0 Index.threeNodes rfl
    crashedDelete hdeletes
  obtain ⟨herased, hnone⟩ := hrecovered rep hrep
  obtain ⟨r, hr, hnode⟩ : ∃ r ∈ begins recovered.store.log.records, r.targetNodeId = 1 :=
    List.mem_map.mp (htargets ▸ List.mem_cons_self)
  obtain ⟨hlive, hbin⟩ := herased r hr
  rw [hnode] at hlive hbin
  exact ⟨⟨rep, hrep⟩, htargets, hlive, hbin, hnone⟩

/-! ## Recovery and reloads -/

/-- A load that no uncommitted BEGIN can reach: its target is out of range of the
new matrix, or zero there already. -/
def CarefulLoad (w : World) : Action → Prop
  | .ingest ix => ∀ r ∈ uncommittedDeletes w.store.log.records, ix.RowZero r.targetNodeId
  | _ => True

instance (w : World) (a : Action) : Decidable (CarefulLoad w a) := match a with
  | .ingest ix =>
    inferInstanceAs
      (Decidable (∀ r ∈ uncommittedDeletes w.store.log.records, ix.RowZero r.targetNodeId))
  | .crash | .restart | .boot _ | .serve | .request _ _ | .advance _ _ =>
    inferInstanceAs (Decidable True)

/-- Every load of a run is careful. -/
def CarefulRun (H : Sha256) (D : Type) [FloatArith D] (retries : ℕ) : List Action → World → Prop
  | [], _ => True
  | a :: rest, w => CarefulLoad w a ∧ CarefulRun H D retries rest (step H D retries a w)

instance decidableCarefulRun : (actions : List Action) → (w : World) →
    Decidable (CarefulRun H D retries actions w)
  | [], _ => inferInstanceAs (Decidable True)
  | a :: rest, w => @instDecidableAnd _ _ _ (decidableCarefulRun rest (step H D retries a w))

/-- The plan of such a run. -/
def loadPlan : Plan := ⟨none, fun _ _ => True, none⟩

theorem allAllowed_of_carefulRun {actions : List Action} {w : World}
    (h : CarefulRun H D retries actions w) : AllAllowed H D loadPlan retries actions w := by
  induction actions generalizing w with
  | nil => trivial
  | cons a rest ih =>
    refine ⟨?_, ih h.2⟩
    cases a with
    | ingest ix => exact ⟨rfl, rfl, h.1⟩
    | request nodeId maxM => exact fun _ _ _ _ _ _ _ => trivial
    | crash => trivial
    | restart => trivial
    | boot env => trivial
    | serve => trivial
    | advance i env => trivial

theorem inv_fresh : Inv H D loadPlan fresh where
  store :=
    { not_torn := by simp [fresh]
      loaded := fun b hb => by cases hb
      covers := fun hl => by cases hl
      distinct := List.nodup_nil
      nonneg := le_rfl
      ids := fun r hr => by cases hr
      admitted := fun r hr => by cases hr
      pending := fun r hr => by cases hr
      fixed := fun N hN => by cases hN
      kept := fun b₀ hb₀ => by cases hb₀ }
  booting := fun p hp => by cases hp
  serving := by
    intro threads ht
    obtain rfl := Phase.serving.inj ht
    exact fun i p hp => by cases hp

/-- A process that restarts from checkpoint `b₀`: nothing differs from it yet. -/
theorem inv_restarted {w : World} (h : Inv H D loadPlan w) {b₀ : Index}
    (hb : w.store.bin = .snapshot b₀) :
    Inv H D { loadPlan with base := some b₀ } (run H D retries [.crash, .restart] w) := by
  have hs := inv_reopen (inv_lost h.store)
  have hs' : Store.Inv { loadPlan with base := some b₀ }
      { lost w.store with log := w.store.log.reopen } :=
    ⟨hs.not_torn, hs.loaded, hs.covers, hs.distinct, hs.nonneg, hs.ids, hs.admitted, hs.pending,
      fun N hN => (by cases hN), fun b hb₀ => by
        obtain rfl := Option.some.inj hb₀
        refine ⟨fun hl => (by cases hl), fun b' hb' => ?_⟩
        obtain rfl := IndexFile.snapshot.inj (hb.symm.trans hb')
        exact fun _ _ => rfl⟩
  refine ⟨hs', fun p hp => ?_, fun t ht => (by cases ht)⟩
  obtain rfl := Phase.booting.inj hp
  exact wp_bootstrap retries hs'

/-- The operations of `bootstrap` are no requests. -/
theorem asked_boots (envs : List Env) (w : World) :
    (run H D retries (envs.map .boot) w).store.asked = w.store.asked := by
  induction envs generalizing w with
  | nil => rfl
  | cons env rest ih =>
    refine (ih (step H D retries (.boot env) w)).trans ?_
    have hmoves := moves_step H D retries (.boot env) w
    generalize step H D retries (.boot env) w = w' at hmoves ⊢
    cases hmoves with
    | stay => rfl
    | boot hstep => exact (step_log hstep).1

theorem allAllowed_boots {P : Plan} (envs : List Env) (w : World) :
    AllAllowed H D P retries (envs.map .boot) w := by
  refine allAllowed_of_forall (fun a ha w => ?_) w
  obtain ⟨env, -, rfl⟩ := List.mem_map.mp ha
  trivial

/-- **Recovery keeps what nobody asked to delete.** In every run of loads, requests
and restarts whose loads are careful: from any state, a restart and any number
of operations of `bootstrap` leave row `n` as it was in `index.bin`, unless `n`
was requested since the last checkpointed load. -/
theorem bootstrap_keeps_unrequested {actions : List Action}
    (hcare : CarefulRun H D retries actions fresh) {b₀ : Index}
    (hbin : (run H D retries actions fresh).store.bin = .snapshot b₀) (envs : List Env) {n : ℕ}
    (hn : (n : ℤ) ∉ (run H D retries actions fresh).store.asked) :
    ((run H D retries (actions ++ [.crash, .restart] ++ envs.map .boot) fresh).store.live.isLoaded =
        true →
      (run H D retries (actions ++ [.crash, .restart] ++ envs.map .boot) fresh).store.live.row n =
        b₀.row n) ∧
    ∀ b, (run H D retries (actions ++ [.crash, .restart] ++ envs.map .boot) fresh).store.bin =
        .snapshot b → b.row n = b₀.row n := by
  have hrun : ∀ as bs w, run H D retries (as ++ bs) w = run H D retries bs (run H D retries as w) :=
    fun as bs w => List.foldl_append
  have hinv : Inv H D { loadPlan with base := some b₀ }
      (run H D retries (actions ++ [.crash, .restart] ++ envs.map .boot) fresh) := by
    rw [hrun, hrun]
    exact inv_run (inv_restarted (inv_run inv_fresh (allAllowed_of_carefulRun hcare)) hbin)
      (allAllowed_boots envs _)
  have hasked : (run H D retries (actions ++ [.crash, .restart] ++ envs.map .boot)
      fresh).store.asked = (run H D retries actions fresh).store.asked := by
    rw [hrun, hrun, asked_boots]
    rfl
  obtain ⟨hlive, hsnap⟩ := hinv.store.kept b₀ rfl
  rw [← hasked] at hn
  exact ⟨fun hl => hlive hl n hn, fun b hb => hsnap b hb n hn⟩

/-- The disk is full. -/
def fullDiskEnv : Env := ⟨.calm, 0, true⟩

/-- A delete whose flush fails, and a second load. -/
def failedThenReloaded : List Action :=
  [.ingest Index.threeNodes, .request 0 16] ++ List.replicate 4 (.advance 0 calmEnv) ++
    [.advance 0 fullDiskEnv, .advance 0 calmEnv, .ingest Index.threeNodes]

/-- The same delete, carried through before the second load. -/
def deletedThenReloaded : List Action :=
  [.ingest Index.threeNodes, .request 0 16] ++ List.replicate 9 (.advance 0 calmEnv) ++
    [.ingest Index.threeNodes]

theorem bootstrap_keeps_unrequested_deletedThenReloaded :
    ((run .hashlib Float 0 (deletedThenReloaded ++ [.crash, .restart] ++
        (List.replicate 6 calmEnv).map .boot) fresh).store.live.isLoaded = true →
      (run .hashlib Float 0 (deletedThenReloaded ++ [.crash, .restart] ++
        (List.replicate 6 calmEnv).map .boot) fresh).store.live.row 0 =
        Index.threeNodes.owned.row 0) ∧
    ∀ b, (run .hashlib Float 0 (deletedThenReloaded ++ [.crash, .restart] ++
        (List.replicate 6 calmEnv).map .boot) fresh).store.bin = .snapshot b →
      b.row 0 = Index.threeNodes.owned.row 0 :=
  bootstrap_keeps_unrequested (by decide) rfl _ (by decide)

/-- **An old intent erases new data.** The delete of row `0` erased it and failed to save the
index; the second load came after it, and the next `bootstrap` zeroes row `0` of the new
matrix. -/
theorem bootstrap_erases_new_row :
    ¬ ∀ (actions : List Action) (envs : List Env) (b₀ : Index) (n : ℕ),
      (run .hashlib Float 0 actions fresh).store.bin = .snapshot b₀ →
      (n : ℤ) ∉ (run .hashlib Float 0 actions fresh).store.asked →
      (run .hashlib Float 0 (actions ++ [.crash, .restart] ++ envs.map .boot)
        fresh).store.live.isLoaded = true →
      (run .hashlib Float 0 (actions ++ [.crash, .restart] ++ envs.map .boot)
        fresh).store.live.row n = b₀.row n := by
  intro h
  have hrow := h failedThenReloaded (List.replicate 6 calmEnv) Index.threeNodes.owned 0 rfl
    (by decide) (by decide)
  revert hrow
  decide

end World

end Unlearning
