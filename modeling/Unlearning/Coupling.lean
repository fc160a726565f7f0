import Unlearning.Search

/-!
# The lock discipline of a search

The trace of a search says which locks it held at every point (`heldAfter`). A trace is
`Disciplined` if at every read of a node, and whenever the cursor rests on a node between two
operations, exactly the shared lock on the stripe of that node and the structure lock are held.

`At x` is the loop invariant of every loop of the search: the cursor is on `x` and owns the one
stripe lock that is held. `Owned` is what is left when a step throws: whatever is held is what
the destructors will release.
-/

namespace Unlearning

/-- The node an event is about: the one it reads, or the one the cursor is on. -/
def SearchEvent.node? : SearchEvent → Option ℤ
  | leaving x => some x
  | arrived x => some x
  | readLayers x => some x
  | readList x _ => some x
  | readVector x => some x
  | _ => none

/-- The locks held after an event; `none` if a lock is taken twice or one that is not held
is released. -/
def SearchEvent.hold (held : List LockId) : SearchEvent → Option (List LockId)
  | locked l => if l ∈ held then none else some (l :: held)
  | unlocked l => if l ∈ held then some (held.erase l) else none
  | _ => some held

/-- The locks held after a trace, from none. -/
def heldAfter (trace : List SearchEvent) : Option (List LockId) :=
  trace.foldlM SearchEvent.hold []

/-- The locks held after one more event. -/
theorem heldAfter_concat (trace : List SearchEvent) (e : SearchEvent) :
    heldAfter (trace ++ [e]) = (heldAfter trace).bind fun held => e.hold held := by
  rw [heldAfter, List.foldlM_append, heldAfter]
  congr 1
  funext held
  simp

namespace Walk

section Coupling

variable (locks : LockManager)

/-- The locks of a search that is on node `x`. -/
def locksAt (x : ℤ) : List LockId := [.stripe (locks.stripeOf x), .structureMu]

/-- At every event about a node, exactly the locks for that node are held. -/
def Disciplined (trace : List SearchEvent) : Prop :=
  ∀ before e after x, trace = before ++ e :: after → e.node? = some x →
    heldAfter before = some (locksAt locks x)

variable {locks}

/-- Nothing was read, so nothing unlocked. -/
theorem Disciplined.nil : Disciplined locks [] := by
  intro before e after x h
  simp at h

/-- One more event, with the lock of its node held. -/
theorem Disciplined.concat {trace : List SearchEvent} {e : SearchEvent}
    (h : Disciplined locks trace)
    (he : ∀ x, e.node? = some x → heldAfter trace = some (locksAt locks x)) :
    Disciplined locks (trace ++ [e]) := by
  intro before e' after x heq hx
  rcases List.eq_nil_or_concat after with rfl | ⟨after', last, rfl⟩
  · obtain ⟨rfl, hlast⟩ := List.append_inj' heq rfl
    obtain rfl := List.singleton_inj.mp hlast
    exact he x hx
  · rw [List.concat_eq_append, ← List.cons_append, ← List.append_assoc] at heq
    exact h before e' after' x (List.append_inj_left' heq rfl) hx

variable (locks)

/-- The trace is disciplined and these locks are held. -/
structure Holds (held : List LockId) (s : SearchState) : Prop where
  held : heldAfter s.trace = some held
  disciplined : Disciplined locks s.trace

/-- The locks for `x` are held, and the cursor is `c`. -/
structure Rests (x : ℤ) (c : Cursor) (s : SearchState) : Prop where
  holds : Holds locks (locksAt locks x) s
  cursor : s.cursor = c

/-- The cursor is on `x` and owns the lock. -/
abbrev At (x : ℤ) : SearchState → Prop := Rests locks x ⟨some (locks.stripeOf x), x⟩

/-- What is held is the structure lock and what the cursor owns. -/
def Owned (s : SearchState) : Prop :=
  Holds locks (s.cursor.guard.toList.map LockId.stripe ++ [.structureMu]) s

variable {locks} {s : SearchState} {held held' : List LockId} {x y : ℤ}

/-- Logging an event keeps the books, if the locks it needs are held. -/
theorem Holds.log (h : Holds locks held s) {e : SearchEvent} (hhold : e.hold held = some held')
    (hnode : ∀ x, e.node? = some x → held = locksAt locks x) : Holds locks held' (s.log e) := by
  refine ⟨?_, h.disciplined.concat fun x hx => ?_⟩
  · show heldAfter (s.trace ++ [e]) = _
    rw [heldAfter_concat, h.held]
    exact hhold
  · rw [h.held, hnode x hx]

/-- Whoever rests at a node owns its guard. -/
theorem Rests.owned (h : At locks x s) : Owned locks s := by
  rw [Owned, h.cursor]
  exact h.holds

/-- An event about the node whose locks are held. -/
theorem Rests.log {c : Cursor} (h : Rests locks x c s) {e : SearchEvent}
    (hnode : e.node? = some x) : Rests locks x c (s.log e) := by
  refine ⟨h.holds.log ?_ fun y hy => ?_, h.cursor⟩
  · cases e with
    | locked l => cases hnode
    | unlocked l => cases hnode
    | _ => rfl
  · rw [hnode] at hy
    rw [Option.some.inj hy]

/-! ## The cursor -/

section Moves

variable {env : SearchEnv}

/-- Taking a stripe that is not held: it is held, or nothing changed. -/
theorem triple_sharedGuard (env : SearchEnv) {P : SearchState → Prop} {stripe : ℕ}
    (hholds : ∀ s, P s → Holds locks held s) (hnot : .stripe stripe ∉ held) :
    Act.Triple P (sharedGuard env locks stripe)
      (fun a t => a = stripe ∧ ∃ s, P s ∧ t.cursor = s.cursor ∧
        Holds locks (.stripe stripe :: held) t)
      fun _ t => ∃ s, P s ∧ t.cursor = s.cursor ∧ Holds locks held t := by
  intro s hs
  rw [sharedGuard]
  split
  · refine Or.inl ⟨_, _, rfl, rfl, s, hs, rfl, (hholds s hs).log ?_ (by simp [SearchEvent.node?])⟩
    rw [SearchEvent.hold, if_neg hnot]
  · exact Or.inr ⟨_, _, rfl, s, hs, rfl, (hholds s hs).log rfl (by simp [SearchEvent.node?])⟩

/-- Moving a fresh guard into the cursor drops the one it had. -/
theorem rests_moveGuard {t : SearchState} (hx : s.cursor = ⟨some (locks.stripeOf x), x⟩)
    (ht : t.cursor = s.cursor) (hne : locks.stripeOf x ≠ locks.stripeOf y)
    (h : Holds locks (.stripe (locks.stripeOf y) :: locksAt locks x) t) :
    At locks y (moveGuard (locks.stripeOf y) y t) := by
  have hdrop : dropGuard t = { t.log (.unlocked (.stripe (locks.stripeOf x))) with
      cursor := ⟨none, x⟩ } := by
    rw [dropGuard, ht, hx]
  refine ⟨?_, rfl⟩
  have hlog : Holds locks (locksAt locks y) (t.log (.unlocked (.stripe (locks.stripeOf x)))) := by
    refine h.log ?_ (by simp [SearchEvent.node?])
    simp [SearchEvent.hold, locksAt, hne.symm]
  rw [Walk.moveGuard, hdrop]
  exact ⟨hlog.held, hlog.disciplined⟩

/-- **Hand over hand**: from a node to any other. -/
theorem triple_handOver {c : Cursor} (x y : ℤ) :
    Act.Triple (fun s => At locks x s ∧ c = s.cursor) (handOver env locks c y)
      (fun _ => At locks y) fun _ => Owned locks := by
  rw [handOver]
  split
  · rename_i hsame
    apply Act.triple_alter
    rintro s ⟨hat, rfl⟩
    obtain ⟨-, heq⟩ := hsame
    rw [hat.cursor] at heq
    refine ⟨?_, ?_⟩
    · rw [locksAt, ← heq]
      exact ⟨hat.holds.held, hat.holds.disciplined⟩
    · simp [hat.cursor, heq]
  · rename_i hother
    by_cases hne : locks.stripeOf x = locks.stripeOf y
    · -- the cursor holds the stripe, so the first branch was taken
      rintro s ⟨hat, rfl⟩
      exact absurd ⟨by rw [hat.cursor]; rfl, by rw [hat.cursor]; exact hne⟩ hother
    · have htake := triple_sharedGuard env (P := fun s => At locks x s ∧ c = s.cursor)
        (fun s hs => hs.1.holds) (by simpa [locksAt] using Ne.symm hne)
      have hfail : ∀ t, (∃ s, (At locks x s ∧ c = s.cursor) ∧ t.cursor = s.cursor ∧
          Holds locks (locksAt locks x) t) → Owned locks t := by
        rintro t ⟨s, ⟨hat, -⟩, hcur, hholds⟩
        have ht : At locks x t := ⟨hholds, hcur.trans hat.cursor⟩
        exact ht.owned
      refine (htake.mono (fun _ hs => hs) (fun _ _ hs => hs) fun _ => hfail).bind fun a => ?_
      apply Act.triple_alter
      rintro t ⟨rfl, s, ⟨hat, -⟩, hcur, hholds⟩
      exact rests_moveGuard hat.cursor hcur hne hholds

/-- **`advance`** brings the cursor from any node to the next, or leaves it where it is and
throws. -/
theorem triple_advance (x y : ℤ) :
    Act.Triple (At locks x) (advance env locks y) (fun _ => At locks y) fun _ => Owned locks := by
  refine (Act.triple_reads (Q := fun c s => At locks x s ∧ c = s.cursor)
    fun s hs => ⟨hs, rfl⟩).bind fun c => ?_
  refine (Act.triple_alter (Q := fun _ s => At locks x s ∧ c = s.cursor) ?_).bind fun _ => ?_
  · rintro s ⟨hat, rfl⟩
    exact ⟨hat.log (by simp [SearchEvent.node?, hat.cursor]), rfl⟩
  · refine (triple_handOver x y).bind fun _ => Act.triple_alter fun s hs => ?_
    exact hs.log rfl

end Moves

/-! ## Reads -/

section Reads

variable {env : SearchEnv}

/-- The computation reads only node `x` and leaves the cursor there. -/
def Stays {α : Type} (locks : LockManager) (x : ℤ) (w : Walk α) : Prop :=
  Act.Triple (At locks x) w (fun _ => At locks x) fun _ => Owned locks

/-- A computation that does nothing stays. -/
theorem stays_pure {α : Type} (a : α) : Stays locks x (pure a : Walk α) :=
  Act.triple_pure fun _ hs => hs

/-- So does one that raises. -/
theorem stays_raise {α : Type} (e : SearchExit) : Stays locks x (Act.raise e : Walk α) :=
  Act.triple_raise fun _ hs => hs.owned

/-- So does one that asks for the index. -/
theorem stays_here : Stays locks x (here env) := Act.triple_reads fun _ hs => hs

/-- So do two in a row. -/
theorem Stays.bind {α β : Type} {w : Walk α} {f : α → Walk β} (hw : Stays locks x w)
    (hf : ∀ a, Stays locks x (f a)) : Stays locks x (w >>= f) := Act.Triple.bind hw hf

/-- Looking at the node whose lock is held changes no lock. -/
theorem triple_look {α : Type} {c : Cursor} {e : SearchEvent} {f : Index → Option α}
    (hnode : e.node? = some x) :
    Act.Triple (Rests locks x c) (look env e f) (fun _ => Rests locks x c)
      fun _ => Rests locks x c := by
  intro s hs
  rw [look]
  have hlog := hs.log hnode
  split
  · exact Or.inl ⟨_, _, rfl, hlog⟩
  · exact Or.inr ⟨_, _, rfl, hlog⟩

/-- Looking at the node keeps the walk there. -/
theorem stays_look {α : Type} {e : SearchEvent} {f : Index → Option α} (hnode : e.node? = some x) :
    Stays locks x (look env e f) :=
  (triple_look hnode).mono (fun _ hs => hs) (fun _ _ hs => hs) fun _ _ hs => hs.owned

/-- So does reading its layers. -/
theorem triple_layers {c : Cursor} :
    Act.Triple (Rests locks x c) (layers env x) (fun _ => Rests locks x c)
      fun _ => Rests locks x c := by
  refine (Act.triple_reads (Q := fun _ => Rests locks x c) fun _ hs => hs).bind fun ix => ?_
  split
  · exact triple_look rfl
  · exact Act.triple_pure fun _ hs => hs

/-- Reading its layers keeps the walk there. -/
theorem stays_layers : Stays locks x (layers env x) :=
  triple_layers.mono (fun _ hs => hs) (fun _ _ hs => hs) fun _ _ hs => hs.owned

/-- So does reading its neighbours. -/
theorem stays_neighbors (layer : ℕ) : Stays locks x (neighbors env x layer) := by
  refine stays_layers.bind fun count => ?_
  split
  · exact stays_look rfl
  · exact stays_pure []

variable {D : Type} [FloatArith D]

/-- So does measuring its distance. -/
theorem stays_distanceQuery (query : List UInt32) : Stays locks x (distanceQuery env D query x) :=
  stays_look rfl

end Reads

/-! ## The loops -/

section Loops

variable {env : SearchEnv} {D : Type} [FloatArith D] {std : StdOrder (SearchHit.less D)}
  {query : List UInt32}

/-- The scan ends on the node it reports, or where it started. -/
theorem triple_greedyScan (curr : ℤ) (bestDist : D) (nbrs : List ℤ) :
    Act.Triple (At locks curr) (greedyScan env locks D query curr bestDist nbrs)
      (fun r => At locks (r.getD curr)) fun _ => Owned locks := by
  induction nbrs with
  | nil => exact Act.triple_pure fun _ hs => hs
  | cons nb rest ih =>
    refine Act.Triple.bind stays_here fun ix => ?_
    split
    · refine (triple_advance curr nb).bind fun _ => ?_
      refine Act.Triple.bind (stays_distanceQuery query) fun d => ?_
      split
      · exact Act.triple_pure fun s hs => hs
      · exact (triple_advance nb curr).bind fun _ => ih
    · exact ih

/-- The greedy descent hands its lock from node to node. -/
theorem triple_greedyUpdateLocked (layer fuel : ℕ) (curr : ℤ) :
    Act.Triple (At locks curr) (greedyUpdateLocked env locks D query layer fuel curr)
      (fun r => At locks r) fun _ => Owned locks := by
  induction fuel generalizing curr with
  | zero => exact Act.triple_raise fun _ hs => hs.owned
  | succ fuel ih =>
    refine Act.Triple.bind (stays_distanceQuery query) fun bestDist => ?_
    refine Act.Triple.bind (stays_neighbors layer) fun nbrs => ?_
    refine (triple_greedyScan curr bestDist nbrs).bind fun r => ?_
    cases r with
    | none => exact Act.triple_pure fun s hs => hs
    | some nb => exact ih nb

/-- So do the layers of the descent, one after the other. -/
theorem triple_descend (fuel lc : ℕ) (curr : ℤ) :
    Act.Triple (At locks curr) (descend env locks D query fuel lc curr)
      (fun r => At locks r) fun _ => Owned locks := by
  induction lc generalizing curr with
  | zero => exact Act.triple_pure fun s hs => hs
  | succ lc ih => exact (triple_greedyUpdateLocked (lc + 1) fuel curr).bind ih

/-- The scan of a node's neighbours keeps its lock. -/
theorem stays_scan (ef : ℕ) (u : ℤ) (nbrs : List ℤ) (b : Beam D) :
    Stays locks u (scan env locks std query ef u nbrs b) := by
  induction nbrs generalizing b with
  | nil => exact stays_pure b
  | cons nb rest ih =>
    refine stays_here.bind fun ix => ?_
    split
    · split
      · exact stays_raise _
      · exact ih b
      · refine (triple_advance u nb).bind fun _ => ?_
        refine Act.Triple.bind (stays_distanceQuery query) fun d => ?_
        exact (triple_advance nb u).bind fun _ => ih _
    · exact ih b

/-- The frontier loop leaves the cursor on some node. -/
theorem triple_explore (ef fuel : ℕ) (u : ℤ) (b : Beam D) :
    Act.Triple (At locks u) (explore env locks std query ef fuel b)
      (fun _ s => ∃ v, At locks v s) fun _ => Owned locks := by
  induction fuel generalizing u b with
  | zero => exact Act.triple_raise fun _ hs => hs.owned
  | succ fuel ih =>
    rw [explore]
    split
    · exact Act.triple_pure fun s hs => ⟨u, hs⟩
    · rename_i v frontier _
      refine (triple_advance u v).bind fun _ => ?_
      refine Act.Triple.bind (stays_neighbors 0) fun nbrs => ?_
      exact Act.Triple.bind (stays_scan ef v nbrs _) fun b' => ih v b'

/-- The search of the base layer holds the lock of the node it expands. -/
theorem triple_baseLayerSearchLocked (fuel : ℕ) (entry : ℤ) (k : ℕ) :
    Act.Triple (At locks entry) (baseLayerSearchLocked env locks std query fuel entry k)
      (fun _ => Owned locks) fun _ => Owned locks := by
  refine Act.Triple.bind stays_here fun ix => ?_
  refine (triple_advance entry entry).bind fun _ => ?_
  split
  · refine Act.Triple.bind (stays_distanceQuery query) fun d => ?_
    refine (triple_explore _ fuel entry _).bind fun b => ?_
    exact Act.triple_pure fun s ⟨v, hs⟩ => hs.owned
  · exact Act.triple_raise fun _ hs => hs.owned

end Loops

/-! ## The whole search -/

section Whole

variable (locks) in
/-- Only the structure lock is held. -/
structure Idle (s : SearchState) : Prop where
  holds : Holds locks [.structureMu] s
  guard : s.cursor.guard = none

/-- Whoever holds nothing owns all that is held. -/
theorem Idle.owned (h : Idle locks s) : Owned locks s := by
  rw [Owned, h.guard]
  exact h.holds

/-- A release gives back all that is held. -/
theorem Owned.release (h : Owned locks s) : Idle locks (release s) := by
  refine ⟨?_, rfl⟩
  rw [Owned] at h
  rcases hguard : s.cursor.guard with _ | stripe
  · rw [hguard] at h
    have hdrop : dropGuard s = s := by rw [dropGuard, hguard]
    rw [Walk.release, hdrop]
    exact ⟨h.held, h.disciplined⟩
  · rw [hguard] at h
    have hdrop : dropGuard s = { s.log (.unlocked (.stripe stripe)) with
        cursor := ⟨none, s.cursor.node⟩ } := by rw [dropGuard, hguard]
    have hlog : Holds locks [.structureMu] (s.log (.unlocked (.stripe stripe))) :=
      h.log (by simp [SearchEvent.hold]) (by simp [SearchEvent.node?])
    rw [Walk.release, hdrop]
    exact ⟨hlog.held, hlog.disciplined⟩

variable {env : SearchEnv} {D : Type} [FloatArith D] {std : StdOrder (SearchHit.less D)}
  {query : List UInt32}

/-- From no lock to the one of the node, or to none where it raises. -/
theorem triple_sharedGuard_idle (x : ℤ) :
    Act.Triple (Idle locks) (sharedGuard env locks (locks.stripeOf x))
      (fun a s => a = locks.stripeOf x ∧ Holds locks (locksAt locks x) s ∧ s.cursor.guard = none)
      fun _ => Idle locks := by
  refine (triple_sharedGuard env (fun s hs => hs.holds) (by simp)).mono (fun _ hs => hs) ?_ ?_
  · rintro a t ⟨rfl, s, hs, hcur, hholds⟩
    exact ⟨rfl, hholds, by rw [hcur, hs.guard]⟩
  · rintro e t ⟨s, hs, hcur, hholds⟩
    exact ⟨hholds, by rw [hcur, hs.guard]⟩

/-- Finding the top layer gives its lock back. -/
theorem triple_topLayer (curr : ℤ) :
    Act.Triple (Idle locks) (topLayer env locks curr) (fun _ => Idle locks)
      fun _ => Idle locks := by
  refine (triple_sharedGuard_idle curr).bind fun a => ?_
  have hunlock : ∀ (c : Cursor) s, Rests locks curr c s → c.guard = none →
      Idle locks (s.log (.unlocked (.stripe (locks.stripeOf curr)))) := by
    intro c s hs hc
    refine ⟨hs.holds.log (by simp [SearchEvent.hold, locksAt]) (by simp [SearchEvent.node?]), ?_⟩
    rw [← hc, ← hs.cursor]
    rfl
  refine Act.Triple.bind (Q := fun _ => Idle locks) ?_ fun count => Act.triple_pure fun _ hs => hs
  rintro s ⟨rfl, hholds, hguard⟩
  refine (triple_layers (c := s.cursor)).withDestructor ?_ ?_ s ⟨hholds, rfl⟩
  · exact fun _ t ht => hunlock _ t ht hguard
  · exact fun _ t ht => hunlock _ t ht hguard

/-- Entering at a node takes its lock. -/
theorem triple_enter (x : ℤ) :
    Act.Triple (Idle locks) (enter env locks x) (fun _ => At locks x) fun _ => Owned locks := by
  refine (Act.triple_alter (Q := fun _ => Idle locks) fun s hs => hs.owned.release).bind
    fun _ => ?_
  refine ((triple_sharedGuard_idle x).mono (fun _ hs => hs) (fun _ _ hs => hs)
    fun _ _ hs => hs.owned).bind fun a => ?_
  refine (Act.triple_alter (Q := fun _ => At locks x) ?_).bind
    fun _ => Act.triple_alter fun s hs => hs.log rfl
  rintro s ⟨rfl, hholds, hguard⟩
  have hdrop : dropGuard s = s := by rw [dropGuard, hguard]
  refine ⟨?_, rfl⟩
  rw [moveGuard, hdrop]
  exact ⟨hholds.held, hholds.disciplined⟩

/-- The locked search gives back all it took, on every exit. -/
theorem triple_searchLocked (fuel k : ℕ) (entryNode : ℤ) :
    Act.Triple (Idle locks) (searchLocked env locks std query fuel k entryNode)
      (fun _ => Idle locks) fun _ => Idle locks := by
  refine (Act.triple_reads (Q := fun _ => Idle locks) fun _ hs => hs).bind fun ix => ?_
  split
  · exact Act.triple_raise fun _ hs => hs
  · refine (triple_topLayer _).bind fun top => ?_
    refine Act.Triple.withDestructor ?_ (fun _ _ hs => Owned.release hs)
      fun _ _ hs => Owned.release hs
    refine (triple_enter _).bind fun _ => ?_
    refine (triple_descend fuel top _).bind fun curr => ?_
    exact triple_baseLayerSearchLocked fuel curr k

/-- **The whole search**, with nothing held before it. -/
theorem triple_searchKnn (query : Option (List UInt32)) (fuel k : ℕ) (entryNode : ℤ) :
    Act.Triple (fun s => Holds locks [] s ∧ s.cursor.guard = none)
      (searchKnn env locks std query fuel k entryNode) (fun _ => Holds locks [])
      fun _ => Holds locks [] := by
  cases query with
  | none => exact Act.triple_raise fun _ hs => hs.1
  | some query =>
    rw [searchKnn]
    split
    · exact Act.triple_pure fun _ hs => hs.1
    · have hunlock : ∀ s, Idle locks s → Holds locks [] (s.log (.unlocked .structureMu)) :=
        fun s hs => hs.holds.log (by simp [SearchEvent.hold]) (by simp [SearchEvent.node?])
      refine (Act.triple_alter (Q := fun _ => Idle locks) fun s hs => ?_).bind fun _ => ?_
      · exact ⟨hs.1.log rfl (by simp [SearchEvent.node?]), hs.2⟩
      · exact (triple_searchLocked fuel k entryNode).withDestructor (fun _ => hunlock)
          fun _ => hunlock

/-- **Every read in a search is covered by its lock.** Whatever the index is at each of its
operations, whatever the query, `k` and the entry node, and whichever acquisitions time out:
whenever the search reads the vector or a list of a node, and whenever its cursor is on a node
between two operations, it holds exactly one stripe lock, the one of that node; and however it
ends, every lock it took has been released, each exactly once. -/
theorem searchKnn_disciplined (env : SearchEnv) (locks : LockManager)
    (std : StdOrder (SearchHit.less D)) (query : Option (List UInt32)) (fuel k : ℕ)
    (entryNode : ℤ) :
    let trace := (searchKnn env locks std query fuel k entryNode start).2.trace
    (∀ before e after x, trace = before ++ e :: after → e.node? = some x →
        heldAfter before = some [.stripe (locks.stripeOf x), .structureMu]) ∧
      heldAfter trace = some [] := by
  intro trace
  have hstart : Holds locks [] start ∧ start.cursor.guard = none := ⟨⟨rfl, .nil⟩, rfl⟩
  have hlast : Holds locks [] (searchKnn env locks std query fuel k entryNode start).2 :=
    (triple_searchKnn query fuel k entryNode).state hstart
  exact ⟨hlast.disciplined, hlast.held⟩

end Whole

end Coupling

end Walk

end Unlearning
