import Unlearning.Persistence

/-!
# The invariant of the store

Rows only ever become zero: `Index.Shadows b ix` says that `ix` is `b` with more
rows erased. The invariant ties the three stores together:

* the live index shadows `index.bin`, so that a snapshot of it may replace it;
* transaction ids are distinct and bounded by the counter, so that a COMMIT
  retires one BEGIN;
* a BEGIN without a COMMIT was requested since the last checkpointed load, or
  its row is zero already;
* in a run that never reloads, a BEGIN with a COMMIT has its row zero in
  `index.bin`.

Each kind of change an operation makes is shown to keep it (`Inv.setLive`,
`Inv.begin`, `Inv.commit`, `Inv.replace`), and to be a step other threads can
rely on (`Rely`).
-/

namespace Unlearning

/-! ## Erasing more rows -/

namespace Index

/-- `ix` is `b` with more rows zero. -/
structure Shadows (b ix : Index) : Prop where
  numElements : ix.numElements = b.numElements
  isLoaded : ix.isLoaded = b.isLoaded
  zero : ∀ n, b.RowZero n → ix.RowZero n

/-- An index shadows itself. -/
theorem Shadows.refl (ix : Index) : Shadows ix ix := ⟨rfl, rfl, fun _ h => h⟩

/-- Shadowed by way of a third. -/
theorem Shadows.trans {a b c : Index} (h : Shadows a b) (h' : Shadows b c) : Shadows a c :=
  ⟨h'.numElements.trans h.numElements, h'.isLoaded.trans h.isLoaded,
    fun n hn => h'.zero n (h.zero n hn)⟩

/-- Rows are the same whoever owns the buffer. -/
theorem row_owned (ix : Index) (n : ℕ) : ix.owned.row n = ix.row n := row_congr rfl rfl n

/-- Taking the buffer over zeroes nothing and brings nothing back. -/
theorem shadows_owned (ix : Index) : Shadows ix ix.owned :=
  ⟨rfl, rfl, fun n hn w hw => hn w (by rwa [row_owned] at hw)⟩

/-- Nor does giving it away. -/
theorem owned_shadows (ix : Index) : Shadows ix.owned ix :=
  ⟨rfl, rfl, fun n hn w hw => hn w (by rwa [row_owned])⟩

/-- Zeroing a row brings none back. -/
theorem shadows_wipeRow (ix : Index) (n : ℕ) : Shadows ix (ix.wipeRow n) :=
  ⟨rfl, wipeRow_isLoaded ix n, fun _ hm => hm.wipeRow n⟩

section Erase

variable {D : Type} [FloatArith D]

/-- A heal changes no row. -/
theorem row_healed (ix : Index) (n : ℕ) (maxM : ℤ) (m : ℕ) :
    (ix.healed D n maxM).row m = ix.row m := row_congr rfl rfl m

/-- So a heal brings none back. -/
theorem shadows_healed (ix : Index) (n : ℕ) (maxM : ℤ) : Shadows ix (ix.healed D n maxM) :=
  ⟨rfl, rfl, fun m hm w hw => hm w (by rwa [row_healed] at hw)⟩

/-- What `erase_node` does to the rows, whether it returns or throws: the index
is shadowed, only the target's row may differ, and after a success it is zero. -/
theorem eraseNode_rows {ix ix' : Index} {env : NativeEnv} {nodeId maxM : ℤ}
    {r : Except NativeError ErasureResult} (h : ix.eraseNode D env nodeId maxM = (r, ix')) :
    Shadows ix ix' ∧ (∀ m : ℕ, (m : ℤ) ≠ nodeId → ix'.row m = ix.row m) ∧
      (∀ m : ℕ, (m : ℤ) = nodeId → ix.RowZero m → ix'.row m = ix.row m) ∧
      ∀ res, r = .ok res → res.success = true ∧ ix.isLoaded = true ∧
        ∃ n : ℕ, nodeId = n ∧ n < ix.numElements ∧ ix'.RowZero n := by
  have hwipe_ne : ∀ m : ℕ, (m : ℤ) ≠ nodeId → 0 ≤ nodeId →
      (ix.wipeRow (asSize nodeId)).row m = ix.row m := by
    intro m hm h0
    refine row_wipeRow_ne ix fun heq => hm ?_
    rw [heq, asSize_of_nonneg h0, Int.toNat_of_nonneg h0]
  -- a row of zeroes is wiped to itself
  have hwipe_zero : ∀ n m : ℕ, ix.RowZero m → (ix.wipeRow n).row m = ix.row m := by
    intro n m hz
    have hz' := hz.wipeRow n
    have hlen : ((ix.wipeRow n).row m).length = (ix.row m).length := by
      simp only [row, vectorPtr, wipeRow_dim, List.length_take, List.length_drop, words_wipeRow,
        List.length_mapIdx]
    rw [List.eq_replicate_of_mem hz, List.eq_replicate_of_mem hz', hlen]
  rcases eraseNode_cases (D := D) ix env nodeId maxM with
    ⟨hok, res, hsucc, heq⟩ | ⟨-, e, heq⟩ | ⟨-, h0, e, heq⟩
  · rw [heq] at h
    obtain ⟨rfl, rfl⟩ := Prod.mk.inj h
    have hnode : nodeId = (asSize nodeId : ℕ) := by
      rw [asSize_of_nonneg hok.nonneg, Int.toNat_of_nonneg hok.nonneg]
    refine ⟨(shadows_wipeRow ix _).trans (shadows_healed _ _ _), ?_, ?_, ?_⟩
    · intro m hm
      rw [row_healed, hwipe_ne m hm hok.nonneg]
    · intro m _ hz
      rw [row_healed, hwipe_zero _ m hz]
    · intro res' hres
      obtain rfl := Except.ok.inj hres
      refine ⟨hsucc, hok.loaded, asSize nodeId, hnode, hok.lt, fun w hw => ?_⟩
      rw [row_healed] at hw
      exact rowZero_wipeRow ix _ w hw
  · rw [heq] at h
    obtain ⟨rfl, rfl⟩ := Prod.mk.inj h
    exact ⟨.refl ix, fun _ _ => rfl, fun _ _ _ => rfl, fun res hres => by cases hres⟩
  · rw [heq] at h
    obtain ⟨rfl, rfl⟩ := Prod.mk.inj h
    exact ⟨shadows_wipeRow ix _, fun m hm => hwipe_ne m hm h0, fun m _ hz => hwipe_zero _ m hz,
      fun res hres => by cases hres⟩

end Erase

end Index

/-! ## The invariant -/

/-- What is assumed of a run. -/
structure Plan where
  /-- the number of nodes, in a run that starts from a checkpoint and never reloads -/
  fixed : Option ℕ
  /-- the targets and degrees that requests may log -/
  admits : ℕ → ℕ → Prop
  /-- the checkpoint a `bootstrap` started from, while it runs -/
  base : Option Index

namespace Store

/-- Row `n` of `index.bin` is zero. -/
def BinZero (s : Store) (n : ℕ) : Prop := ∃ b, s.bin = .snapshot b ∧ b.RowZero n

/-- Row `n` of the live index is zero. -/
def LiveZero (s : Store) (n : ℕ) : Prop := s.live.isLoaded = true ∧ s.live.RowZero n

/-- A target that may be erased: it was requested, or nothing is left of it. -/
def Erasable (s : Store) (nodeId : ℤ) : Prop :=
  nodeId ∈ s.asked ∨ ∃ n : ℕ, nodeId = n ∧ s.BinZero n

/-- The rows that were not requested are those of `b₀`. -/
def Kept (s : Store) (b₀ ix : Index) : Prop := ∀ n : ℕ, (n : ℤ) ∉ s.asked → ix.row n = b₀.row n

/-- The store with one more record. -/
def addRecord (s : Store) (r : Record) (c : ℤ) : Store :=
  { s with log := ⟨s.log.records ++ [r], c⟩ }

/-- A BEGIN is one more BEGIN. -/
theorem begins_addBegin (s : Store) (b : BeginDeleteRecord) (c : ℤ) :
    begins (s.addRecord (.begin b) c).log.records = begins s.log.records ++ [b] :=
  begins_concat_begin _ _

/-- It commits nothing. -/
theorem committed_addBegin (s : Store) (b : BeginDeleteRecord) (c : ℤ) :
    committed (s.addRecord (.begin b) c).log.records = committed s.log.records :=
  committed_concat_begin _ _

/-- A COMMIT begins nothing. -/
theorem begins_addCommit (s : Store) (r : CommitRecord) (c : ℤ) :
    begins (s.addRecord (.commit r) c).log.records = begins s.log.records :=
  begins_concat_commit _ _

/-- It is one more COMMIT. -/
theorem committed_addCommit (s : Store) (r : CommitRecord) (c : ℤ) :
    committed (s.addRecord (.commit r) c).log.records =
      committed s.log.records ++ [r.transactionId] := committed_concat_commit _ _

/-- **The invariant.** -/
structure Inv (P : Plan) (s : Store) : Prop where
  not_torn : s.bin ≠ .torn
  loaded : ∀ b, s.bin = .snapshot b → b.isLoaded = true
  covers : s.live.isLoaded = true → ∃ b, s.bin = .snapshot b ∧ b.Shadows s.live
  distinct : DistinctIds s.log.records
  nonneg : 0 ≤ s.log.txCounter
  ids : ∀ r ∈ s.log.records, (r.transactionId : ℤ) ≤ s.log.txCounter
  admitted : ∀ r ∈ begins s.log.records, P.admits r.targetNodeId r.maxM
  pending : ∀ r ∈ begins s.log.records, r.transactionId ∉ committed s.log.records →
    s.Erasable r.targetNodeId
  fixed : ∀ N, P.fixed = some N → (∃ b, s.bin = .snapshot b ∧ b.numElements = N) ∧
    ∀ r ∈ begins s.log.records, r.transactionId ∈ committed s.log.records →
      s.BinZero r.targetNodeId
  kept : ∀ b₀, P.base = some b₀ →
    (s.live.isLoaded = true → s.Kept b₀ s.live) ∧ ∀ b, s.bin = .snapshot b → s.Kept b₀ b

variable {P : Plan} {s : Store}

/-- A row that is zero in the snapshot is zero in memory. -/
theorem Inv.liveZero (h : Inv P s) (hl : s.live.isLoaded = true) {n : ℕ} (hz : s.BinZero n) :
    s.LiveZero n := by
  obtain ⟨b, hb, hrow⟩ := hz
  obtain ⟨b', hb', hsh⟩ := h.covers hl
  rw [hb] at hb'
  obtain rfl := IndexFile.snapshot.inj hb'
  exact ⟨hl, hsh.zero n hrow⟩

/-- The lock and the temporary file are not part of it. -/
theorem Inv.setTmp (h : Inv P s) (t : IndexFile) (l : Option ℕ) :
    Inv P { s with tmp := t, ioLock := l } :=
  ⟨h.not_torn, h.loaded, h.covers, h.distinct, h.nonneg, h.ids, h.admitted, h.pending, h.fixed,
    h.kept⟩

/-- A failed append only moves the counter. -/
theorem Inv.setCounter (h : Inv P s) {c : ℤ} (hc : s.log.txCounter ≤ c) :
    Inv P { s with log := ⟨s.log.records, c⟩ } :=
  ⟨h.not_torn, h.loaded, h.covers, h.distinct, h.nonneg.trans hc,
    fun r hr => (h.ids r hr).trans hc, h.admitted, h.pending, h.fixed, h.kept⟩

/-- A live index with more rows zero, none of them unrequested. -/
theorem Inv.setLive (h : Inv P s) {ix : Index} (hsh : s.live.Shadows ix)
    (hkept : ∀ n : ℕ, (n : ℤ) ∉ s.asked → s.live.isLoaded = true → ix.row n = s.live.row n) :
    Inv P { s with live := ix } where
  not_torn := h.not_torn
  loaded := h.loaded
  covers hl := by
    obtain ⟨b, hb, hbl⟩ := h.covers (hsh.isLoaded ▸ hl)
    exact ⟨b, hb, hbl.trans hsh⟩
  distinct := h.distinct
  nonneg := h.nonneg
  ids := h.ids
  admitted := h.admitted
  pending := h.pending
  fixed := h.fixed
  kept b₀ hb₀ := by
    refine ⟨fun hl n hn => ?_, (h.kept b₀ hb₀).2⟩
    have hl' : s.live.isLoaded = true := hsh.isLoaded ▸ hl
    exact (hkept n hn hl').trans ((h.kept b₀ hb₀).1 hl' n hn)

/-- Loading `index.bin`. -/
theorem Inv.load (h : Inv P s) {b : Index} (hb : s.bin = .snapshot b) :
    Inv P { s with live := b } where
  not_torn := h.not_torn
  loaded := h.loaded
  covers _ := ⟨b, hb, .refl b⟩
  distinct := h.distinct
  nonneg := h.nonneg
  ids := h.ids
  admitted := h.admitted
  pending := h.pending
  fixed := h.fixed
  kept b₀ hb₀ := ⟨fun _ => (h.kept b₀ hb₀).2 b hb, (h.kept b₀ hb₀).2⟩

/-- A BEGIN with the next transaction id. -/
theorem Inv.begin (h : Inv P s) {r : BeginDeleteRecord}
    (htx : (r.transactionId : ℤ) = s.log.txCounter + 1) (hadm : P.admits r.targetNodeId r.maxM)
    (her : s.Erasable r.targetNodeId) : Inv P (s.addRecord (.begin r) (s.log.txCounter + 1)) := by
  have hnew : ∀ r' ∈ s.log.records, r'.transactionId ≠ r.transactionId := by
    intro r' hr' heq
    have := h.ids r' hr'
    omega
  have hbegins := begins_addBegin s r (s.log.txCounter + 1)
  have hcommitted := committed_addBegin s r (s.log.txCounter + 1)
  refine
    { not_torn := h.not_torn, loaded := h.loaded, covers := h.covers, distinct := ?_
      nonneg := by have := h.nonneg; simp only [addRecord]; omega
      ids := ?_, admitted := ?_, pending := ?_, fixed := ?_, kept := h.kept }
  · rw [DistinctIds, hbegins, List.map_append, List.map_cons, List.map_nil]
    refine List.nodup_append.mpr ⟨h.distinct, List.nodup_singleton _, ?_⟩
    intro tx htx' tx' htx'' heq
    obtain ⟨r', hr', rfl⟩ := List.mem_map.mp htx'
    rw [List.mem_singleton] at htx''
    exact hnew _ (mem_begins.mp hr') (heq.trans htx'')
  · intro r' hr'
    rcases List.mem_append.mp hr' with hold | hr'
    · have := h.ids r' hold
      simp only [addRecord]
      omega
    · rw [List.mem_singleton.mp hr']
      exact le_of_eq htx
  · intro r' hr'
    rw [hbegins] at hr'
    rcases List.mem_append.mp hr' with hold | hr'
    · exact h.admitted r' hold
    · rw [List.mem_singleton.mp hr']
      exact hadm
  · intro r' hr' hnot
    rw [hbegins] at hr'
    rw [hcommitted] at hnot
    rcases List.mem_append.mp hr' with hold | hr'
    · exact h.pending r' hold hnot
    · rw [List.mem_singleton.mp hr']
      exact her
  · intro N hN
    refine ⟨(h.fixed N hN).1, fun r' hr' hcom => ?_⟩
    rw [hbegins] at hr'
    rw [hcommitted] at hcom
    rcases List.mem_append.mp hr' with hold | hr'
    · exact (h.fixed N hN).2 r' hold hcom
    · -- the id is new, so no COMMIT carries it
      exfalso
      obtain ⟨c, hc, hctx⟩ := mem_committed.mp hcom
      rw [List.mem_singleton.mp hr'] at hctx
      exact hnew _ hc hctx

/-- A COMMIT of a transaction whose row is zero in `index.bin`. -/
theorem Inv.commit (h : Inv P s) {c : CommitRecord} (hid : (c.transactionId : ℤ) ≤ s.log.txCounter)
    (hzero : ∀ r ∈ begins s.log.records, r.transactionId = c.transactionId →
      s.BinZero r.targetNodeId) : Inv P (s.addRecord (.commit c) s.log.txCounter) := by
  have hbegins := begins_addCommit s c s.log.txCounter
  have hcommitted := committed_addCommit s c s.log.txCounter
  refine
    { not_torn := h.not_torn, loaded := h.loaded, covers := h.covers, nonneg := h.nonneg
      distinct := by rw [DistinctIds, hbegins]; exact h.distinct
      ids := ?_, admitted := by rw [hbegins]; exact h.admitted
      pending := ?_, fixed := ?_, kept := h.kept }
  · intro r' hr'
    rcases List.mem_append.mp hr' with hold | hr'
    · exact h.ids r' hold
    · rw [List.mem_singleton.mp hr']
      exact hid
  · intro r hr hnot
    rw [hbegins] at hr
    rw [hcommitted] at hnot
    exact h.pending r hr fun hcom => hnot (List.mem_append_left _ hcom)
  · intro N hN
    refine ⟨(h.fixed N hN).1, fun r hr hcom => ?_⟩
    rw [hbegins] at hr
    rw [hcommitted] at hcom
    rcases List.mem_append.mp hcom with hold | hnew
    · exact (h.fixed N hN).2 r hr hold
    · exact hzero r hr (List.mem_singleton.mp hnew)

/-- A snapshot that may be published: between `index.bin` and the live index. -/
structure Publishable (P : Plan) (s : Store) (x : Index) : Prop where
  above : ∃ b, s.bin = .snapshot b ∧ b.Shadows x
  below : x.Shadows s.live
  kept : ∀ b₀, P.base = some b₀ → s.Kept b₀ x

/-- A publishable index in the snapshot's place keeps its zeroed rows. -/
theorem Publishable.binZero {x : Index} (hx : Publishable P s x) {s' : Store}
    (hbin : s'.bin = .snapshot x) {n : ℕ} (hz : s.BinZero n) : s'.BinZero n := by
  obtain ⟨b, hb, hrow⟩ := hz
  obtain ⟨b', hb', hsh⟩ := hx.above
  rw [hb] at hb'
  obtain rfl := IndexFile.snapshot.inj hb'
  exact ⟨x, hbin, hsh.zero n hrow⟩

/-- Publishing a snapshot. -/
theorem Inv.replace (h : Inv P s) {x : Index} (hx : Publishable P s x) :
    Inv P { s with bin := .snapshot x, tmp := .absent } := by
  have hzero : ∀ n, s.BinZero n → BinZero { s with bin := .snapshot x, tmp := .absent } n :=
    fun n hz => hx.binZero rfl hz
  obtain ⟨b, hb, hsh⟩ := hx.above
  refine
    { not_torn := by simp, loaded := ?_, covers := fun _ => ⟨x, rfl, hx.below⟩
      distinct := h.distinct, nonneg := h.nonneg, ids := h.ids, admitted := h.admitted
      pending := ?_, fixed := ?_, kept := ?_ }
  · intro b' hb'
    obtain rfl := IndexFile.snapshot.inj hb'
    rw [hsh.isLoaded]
    exact h.loaded b hb
  · intro r hr hnot
    rcases h.pending r hr hnot with hasked | ⟨n, hn, hz⟩
    · exact Or.inl hasked
    · exact Or.inr ⟨n, hn, hzero n hz⟩
  · intro N hN
    obtain ⟨⟨b', hb', hN'⟩, hcom⟩ := h.fixed N hN
    rw [hb] at hb'
    obtain rfl := IndexFile.snapshot.inj hb'
    exact ⟨⟨x, rfl, hsh.numElements.trans hN'⟩, fun r hr hc => hzero _ (hcom r hr hc)⟩
  · intro b₀ hb₀
    refine ⟨(h.kept b₀ hb₀).1, fun b' hb' => ?_⟩
    obtain rfl := IndexFile.snapshot.inj hb'
    exact hx.kept b₀ hb₀

/-- A snapshot of the live index may be published. -/
theorem Inv.publishable (h : Inv P s) (hl : s.live.isLoaded = true) :
    Publishable P s s.live.owned where
  above := by
    obtain ⟨b, hb, hsh⟩ := h.covers hl
    exact ⟨b, hb, hsh.trans (Index.shadows_owned _)⟩
  below := Index.owned_shadows _
  kept b₀ hb₀ n hn := (Index.row_owned _ n).trans ((h.kept b₀ hb₀).1 hl n hn)

/-! ## What other threads can rely on -/

/-- The steps that thread `i` may see the others make. -/
structure Rely (i : ℕ) (s s' : Store) : Prop where
  live : s.live.Shadows s'.live
  bin : ∀ n, s.BinZero n → s'.BinZero n
  log : s.log.records <+: s'.log.records
  counter : s.log.txCounter ≤ s'.log.txCounter
  asked : s.asked ⊆ s'.asked
  lock : s.ioLock = some i → s'.ioLock = some i ∧ s'.tmp = s.tmp ∧ s'.bin = s.bin

/-- The steps thread `i` makes. -/
def Guar (i : ℕ) (s s' : Store) : Prop := ∀ j, j ≠ i → Rely j s s'

/-- Others may do nothing. -/
theorem Rely.refl (i : ℕ) (s : Store) : Rely i s s :=
  ⟨.refl _, fun _ h => h, List.prefix_rfl, le_rfl, fun _ h => h, fun h => ⟨h, rfl, rfl⟩⟩

/-- Others may do one thing after the other. -/
theorem Rely.trans {i : ℕ} {a b c : Store} (h : Rely i a b) (h' : Rely i b c) : Rely i a c where
  live := h.live.trans h'.live
  bin n hn := h'.bin n (h.bin n hn)
  log := h.log.trans h'.log
  counter := h.counter.trans h'.counter
  asked n hn := h'.asked (h.asked hn)
  lock hl := by
    obtain ⟨h₁, ht, hb⟩ := h.lock hl
    obtain ⟨h₁', ht', hb'⟩ := h'.lock h₁
    exact ⟨h₁', ht'.trans ht, hb'.trans hb⟩

/-- Others may put an index in the place of one it shadows. -/
theorem rely_setLive (j : ℕ) {ix : Index} (hsh : s.live.Shadows ix) :
    Rely j s { s with live := ix } :=
  ⟨hsh, fun _ h => h, List.prefix_rfl, le_rfl, fun _ h => h, fun h => ⟨h, rfl, rfl⟩⟩

/-- Others may move the counter up. -/
theorem rely_setCounter (j : ℕ) {c : ℤ} (hc : s.log.txCounter ≤ c) :
    Rely j s { s with log := ⟨s.log.records, c⟩ } :=
  ⟨.refl _, fun _ h => h, List.prefix_rfl, hc, fun _ h => h, fun h => ⟨h, rfl, rfl⟩⟩

/-- Others may append a record. -/
theorem rely_addRecord (j : ℕ) (r : Record) {c : ℤ} (hc : s.log.txCounter ≤ c) :
    Rely j s (s.addRecord r c) :=
  ⟨.refl _, fun _ h => h, List.prefix_append _ _, hc, fun _ h => h, fun h => ⟨h, rfl, rfl⟩⟩

/-- Others may ask for a delete. -/
theorem rely_ask (j : ℕ) (nodeId : ℤ) : Rely j s { s with asked := nodeId :: s.asked } :=
  ⟨.refl _, fun _ h => h, List.prefix_rfl, le_rfl, fun _ h => List.mem_cons_of_mem _ h,
    fun h => ⟨h, rfl, rfl⟩⟩

/-- Taking the free lock. -/
theorem guar_acquire (i : ℕ) (h : s.ioLock = none) : Guar i s { s with ioLock := some i } :=
  fun _ _ => ⟨.refl _, fun _ h => h, List.prefix_rfl, le_rfl, fun _ h => h,
    fun hl => by rw [h] at hl; cases hl⟩

/-- Under the lock a thread may change the files and the lock. -/
theorem guar_locked {i : ℕ} (h : s.ioLock = some i) {b t : IndexFile} {l : Option ℕ}
    (hb : ∀ n, s.BinZero n → BinZero { s with bin := b, tmp := t, ioLock := l } n) :
    Guar i s { s with bin := b, tmp := t, ioLock := l } :=
  fun j hj => ⟨.refl _, hb, List.prefix_rfl, le_rfl, fun _ h => h,
    fun hl => by rw [h] at hl; exact absurd (Option.some.inj hl).symm hj⟩

end Store

end Unlearning
