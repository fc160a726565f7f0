import Unlearning.Search

/-!
# What a search reaches

On an index that does not change, a search stays within every set of labels that is closed under
the lists it follows (`Closed`), whatever the distances are: it reads only nodes of the set, so no
index is out of bounds, and its hits are in the set. `Exits` says how it can end otherwise: an
acquisition timed out, or the fuel was short; the base-layer loop is not short of fuel when it
has a unit for every node it may still pop.
-/

namespace Unlearning

namespace Walk

/-- The exits of a search that stays in bounds; `short` says when fuel can run out. -/
def Exits (env : SearchEnv) (locks : LockManager) (short : Prop) : SearchExit → Prop
  | .native e => (∃ stripe, e = sharedTimeout locks stripe) ∧ ∃ t, env.acquires t = false
  | .undefined => False
  | .outOfFuel => short

theorem Exits.imp {env : SearchEnv} {locks : LockManager} {short short' : Prop}
    (h : short → short') (e : SearchExit) (he : Exits env locks short e) :
    Exits env locks short' e := by
  cases e with
  | outOfFuel => exact h he
  | _ => exact he

/-- The computation returns something in `Q` or exits in `R`, from any state. -/
def Gives {α : Type} (w : Walk α) (Q : α → Prop) (R : SearchExit → Prop) : Prop :=
  Act.Triple (fun _ => True) w (fun a _ => Q a) fun e _ => R e

section Rules

variable {α β : Type} {Q Q' : α → Prop} {R R' : SearchExit → Prop} {w : Walk α}

theorem gives_pure {a : α} (h : Q a) : Gives (pure a) Q R := Act.triple_pure fun _ _ => h

theorem gives_raise {e : SearchExit} (h : R e) : Gives (Act.raise e : Walk α) Q R :=
  Act.triple_raise fun _ _ => h

theorem gives_alter (f : SearchState → SearchState) : Gives (Act.alter f) (fun _ => True) R :=
  Act.triple_alter fun _ _ => trivial

theorem Gives.bind {f : α → Walk β} {Q' : β → Prop} (hw : Gives w Q R)
    (hf : ∀ a, Q a → Gives (f a) Q' R) : Gives (w >>= f) Q' R := by
  refine Act.Triple.bind hw fun a => ?_
  intro s hs
  exact hf a hs s trivial

theorem Gives.mono (hw : Gives w Q R) (hQ : ∀ a, Q a → Q' a) (hR : ∀ e, R e → R' e) :
    Gives w Q' R' :=
  Act.Triple.mono hw (fun _ h => h) (fun a _ => hQ a) fun e _ => hR e

theorem Gives.withDestructor (hw : Gives w Q R) (destroy : SearchState → SearchState) :
    Gives (w.withDestructor destroy) Q R :=
  Act.Triple.withDestructor hw (fun _ _ h => h) fun _ _ h => h

end Rules

/-- The labels are in range and the lists of layer `L` do not lead out of the set. -/
structure Closed (ix : Index) (L : ℕ) (S : Set ℤ) : Prop where
  inRange : ∀ x ∈ S, ix.inRange x = true
  nbrs : ∀ x ∈ S, ∀ nb ∈ ix.adjacency.nbrs (asSize x) L, ix.inRange nb = true → nb ∈ S

section Reads

variable {acquires : ℕ → Bool} {ix : Index} {locks : LockManager} {short : Prop}

theorem gives_here {R : SearchExit → Prop} :
    Gives (here (.fixed acquires ix)) (fun a => ix = a) R := Act.triple_reads fun _ _ => rfl

theorem gives_look {α : Type} {R : SearchExit → Prop} {e : SearchEvent} {f : Index → Option α}
    {a : α} (h : f ix = some a) : Gives (look (.fixed acquires ix) e f) (fun b => b = a) R := by
  intro s _
  refine Or.inl ⟨a, s.log e, ?_, rfl⟩
  simp [look, SearchEnv.fixed, h]

theorem gives_layers {R : SearchExit → Prop} (node : ℤ) :
    Gives (layers (.fixed acquires ix) node)
      (fun n => n = (ix.adjacency.layersOf (asSize node)).length) R := by
  refine gives_here.bind ?_
  rintro _ rfl
  split
  · rename_i hlt
    exact gives_look (by simp [Layered.layersOf, hlt])
  · rename_i hge
    refine gives_pure ?_
    rw [Layered.layersOf_eq_nil (by omega)]
    rfl

theorem gives_neighbors {R : SearchExit → Prop} (node : ℤ) (layer : ℕ) :
    Gives (neighbors (.fixed acquires ix) node layer)
      (fun l => l = ix.adjacency.nbrs (asSize node) layer) R := by
  refine (gives_layers node).bind ?_
  rintro _ rfl
  split
  · rename_i hlt
    refine gives_look ?_
    rw [Layered.nbrs, Layered.layersOf]
    rw [Layered.layersOf] at hlt
    rcases hv : ix.adjacency[asSize node]? with _ | perNode
    · simp [hv] at hlt
    · rw [hv, Option.getD_some] at hlt
      simp [hlt]
  · rename_i hge
    refine gives_pure ?_
    rw [Layered.nbrs, List.getElem?_eq_none (by omega)]
    rfl

theorem gives_sharedGuard {env : SearchEnv} (stripe : ℕ) :
    Gives (sharedGuard env locks stripe) (fun _ => True) (Exits env locks short) := by
  intro s _
  rw [sharedGuard]
  split
  · exact Or.inl ⟨_, _, rfl, trivial⟩
  · rename_i hfail
    exact Or.inr ⟨_, _, rfl, ⟨stripe, rfl⟩, s.clock, by simpa using hfail⟩

theorem gives_advance {env : SearchEnv} (next : ℤ) :
    Gives (advance env locks next) (fun _ => True) (Exits env locks short) := by
  refine Gives.bind (Act.triple_reads (Q := fun _ _ => True) fun _ _ => trivial) fun c _ => ?_
  refine (gives_alter _).bind fun _ _ => ?_
  refine Gives.bind (Q := fun _ => True) ?_ fun _ _ => gives_alter _
  rw [handOver]
  split
  · exact gives_alter _
  · exact (gives_sharedGuard _).bind fun _ _ => gives_alter _

theorem gives_enter {env : SearchEnv} (nodeId : ℤ) :
    Gives (enter env locks nodeId) (fun _ => True) (Exits env locks short) :=
  (gives_alter _).bind fun _ _ => (gives_sharedGuard _).bind fun _ _ =>
    (gives_alter _).bind fun _ _ => gives_alter _

end Reads

/-! ## The loops -/

section Loops

variable {acquires : ℕ → Bool} {ix : Index} {locks : LockManager} {short : Prop}
  {D : Type} [FloatArith D] {std : StdOrder (SearchHit.less D)} {query : List UInt32} {S : Set ℤ}
  (hrows : ix.words.length = ix.numElements * ix.dim) (hquery : ix.dim ≤ query.length)

include hrows hquery in
theorem gives_distanceQuery {R : SearchExit → Prop} {node : ℤ} (h : ix.inRange node = true) :
    Gives (distanceQuery (.fixed acquires ix) D query node)
      (fun d => d = Index.l2Distance D query (ix.vectorPtr (asSize node)) ix.dim) R := by
  refine gives_look (if_pos ⟨hquery, ?_⟩)
  obtain ⟨v, rfl, hv⟩ := Index.inRange_iff.mp h
  have hend := Nat.mul_le_mul_right ix.dim (Nat.succ_le_of_lt hv)
  rw [Nat.succ_mul] at hend
  rw [Index.asSize_natCast]
  omega

include hrows hquery in
theorem gives_greedyScan {curr : ℤ} {bestDist : D} {nbrs : List ℤ}
    (hnbrs : ∀ nb ∈ nbrs, ix.inRange nb = true → nb ∈ S) :
    Gives (greedyScan (.fixed acquires ix) locks D query curr bestDist nbrs)
      (fun r => ∀ nb, r = some nb → nb ∈ S) (Exits (.fixed acquires ix) locks short) := by
  induction nbrs with
  | nil => exact gives_pure (by simp)
  | cons nb rest ih =>
    have hrest := ih fun x hx => hnbrs x (List.mem_cons_of_mem nb hx)
    refine gives_here.bind ?_
    rintro _ rfl
    split
    · rename_i hr
      refine (gives_advance nb).bind fun _ _ => ?_
      refine (gives_distanceQuery hrows hquery hr).bind fun d _ => ?_
      split
      · refine gives_pure fun x hx => ?_
        rw [← Option.some.inj hx]
        exact hnbrs nb List.mem_cons_self hr
      · exact (gives_advance curr).bind fun _ _ => hrest
    · exact hrest

include hrows hquery in
/-- The greedy moves stay within a closed set. -/
theorem gives_greedyUpdateLocked {layer : ℕ} (hS : Closed ix layer S) (fuel : ℕ) {curr : ℤ}
    (hcurr : curr ∈ S) :
    Gives (greedyUpdateLocked (.fixed acquires ix) locks D query layer fuel curr)
      (fun r => r ∈ S) (Exits (.fixed acquires ix) locks True) := by
  induction fuel generalizing curr with
  | zero => exact gives_raise trivial
  | succ fuel ih =>
    refine (gives_distanceQuery hrows hquery (hS.inRange curr hcurr)).bind fun bestDist _ => ?_
    refine (gives_neighbors curr layer).bind ?_
    rintro _ rfl
    refine (gives_greedyScan hrows hquery (hS.nbrs curr hcurr)).bind fun r hr => ?_
    cases r with
    | none => exact gives_pure hcurr
    | some nb => exact ih (hr nb rfl)

include hrows hquery in
/-- The descent; without upper layers there is none. -/
theorem gives_descend (hS : ∀ L, Closed ix L S) (fuel lc : ℕ) {curr : ℤ} (hcurr : curr ∈ S) :
    Gives (descend (.fixed acquires ix) locks D query fuel lc curr)
      (fun r => r ∈ S) (Exits (.fixed acquires ix) locks (0 < lc)) := by
  cases lc with
  | zero => exact gives_pure hcurr
  | succ lc =>
    suffices h : ∀ lc, ∀ curr ∈ S, Gives (descend (.fixed acquires ix) locks D query fuel lc curr)
        (fun r => r ∈ S) (Exits (.fixed acquires ix) locks True) by
      exact (h (lc + 1) curr hcurr).mono (fun _ hr => hr) (Exits.imp fun _ => Nat.succ_pos lc)
    intro lc
    induction lc with
    | zero => exact fun curr hcurr => gives_pure hcurr
    | succ lc ih =>
      intro curr hcurr
      exact (gives_greedyUpdateLocked hrows hquery (hS (lc + 1)) fuel hcurr).bind ih

/-- The invariant of the base-layer loop. -/
structure Beam.Within (ix : Index) (S : Set ℤ) (b : Beam D) : Prop where
  best : ∀ h ∈ b.best, h.nodeId ∈ S
  visited : b.visited.length = ix.numElements
  frontier : ∀ u ∈ b.frontier, u ∈ S

/-- The nodes that may still be popped. -/
def Beam.pending (b : Beam D) : ℕ := b.frontier.length + b.visited.count false

/-- An offer adds at most the node that is offered. -/
theorem Beam.pending_offer (std : StdOrder (SearchHit.less D)) (ef : ℕ) (nb : ℤ) (d : D)
    (b : Beam D) : (Beam.offer std ef nb d b).pending ≤ b.pending + 1 := by
  rw [Beam.offer]
  split
  · simp only [Beam.pending, List.length_append, List.length_singleton]
    omega
  · exact Nat.le_succ _

omit [FloatArith D] in
/-- A node that is marked was unvisited. -/
theorem Beam.pending_mark {b : Beam D} {i : ℕ} (hi : b.visited[i]? = some false) :
    ({ b with visited := b.visited.set i true } : Beam D).pending + 1 = b.pending := by
  obtain ⟨hlt, hget⟩ := List.getElem?_eq_some_iff.mp hi
  have hpos : 0 < b.visited.count false := List.count_pos_iff.mpr (hget ▸ List.getElem_mem hlt)
  simp only [Beam.pending, List.count_set hlt, hget]
  simp
  omega

omit [FloatArith D] in
/-- At the start every node is pending once: the entry in the frontier, the others unvisited. -/
theorem Beam.pending_start (best : List (SearchHit D)) {n : ℕ} {entry : ℤ} (h : asSize entry < n) :
    ({ best := best
       visited := (List.replicate n false).set (asSize entry) true
       frontier := [entry] } : Beam D).pending = n := by
  have hlt : asSize entry < (List.replicate n false).length := by
    rwa [List.length_replicate]
  simp only [Beam.pending, List.count_set hlt]
  simp
  omega

theorem Beam.Within.offer {b : Beam D} (hb : b.Within ix S)
    (std : StdOrder (SearchHit.less D)) {nb : ℤ} (hnb : nb ∈ S) (ef : ℕ) (d : D) :
    (Beam.offer std ef nb d b).Within ix S := by
  rw [Beam.offer]
  split
  · have hpush : ∀ h ∈ std.push b.best ⟨nb, d⟩, h.nodeId ∈ S := by
      intro h hh
      rcases List.mem_cons.mp ((std.push_perm _ _).mem_iff.mp hh) with rfl | hold
      · exact hnb
      · exact hb.best h hold
    refine ⟨?_, hb.visited, ?_⟩
    · simp only
      split
      · exact fun h hh => hpush h (std.mem_of_mem_pop hh)
      · exact hpush
    · intro u hu
      rcases List.mem_append.mp hu with hold | hnew
      · exact hb.frontier u hold
      · rw [List.mem_singleton.mp hnew]
        exact hnb
  · exact hb

omit [FloatArith D] in
/-- Marking a node visited. -/
theorem Beam.Within.mark {b : Beam D} (hb : b.Within ix S) (i : ℕ) :
    ({ b with visited := b.visited.set i true } : Beam D).Within ix S :=
  ⟨hb.best, by simpa using hb.visited, hb.frontier⟩

include hrows hquery in
theorem gives_scan {nbrs : List ℤ} (hnbrs : ∀ nb ∈ nbrs, ix.inRange nb = true → nb ∈ S) (ef : ℕ)
    (u : ℤ) {b : Beam D} (hb : b.Within ix S) :
    Gives (scan (.fixed acquires ix) locks std query ef u nbrs b)
      (fun b' => b'.Within ix S ∧ b'.pending ≤ b.pending)
      (Exits (.fixed acquires ix) locks short) := by
  induction nbrs generalizing b with
  | nil => exact gives_pure ⟨hb, le_rfl⟩
  | cons nb rest ih =>
    have hrest : ∀ x ∈ rest, ix.inRange x = true → x ∈ S :=
      fun x hx => hnbrs x (List.mem_cons_of_mem nb hx)
    refine gives_here.bind ?_
    rintro _ rfl
    split
    · rename_i hr
      have hnb := hnbrs nb List.mem_cons_self hr
      split
      · -- a label in range is an index of `visited`
        rename_i hnone
        obtain ⟨v, rfl, hv⟩ := Index.inRange_iff.mp hr
        rw [Index.asSize_natCast, List.getElem?_eq_none_iff, hb.visited] at hnone
        omega
      · exact ih hrest hb
      · rename_i hfresh
        have hcount := Beam.pending_mark hfresh
        refine (gives_advance nb).bind fun _ _ => ?_
        refine (gives_distanceQuery hrows hquery hr).bind fun d _ => ?_
        have hpending := Beam.pending_offer std ef nb d
          { b with visited := b.visited.set (asSize nb) true }
        refine (gives_advance u).bind fun _ _ => ?_
        exact (ih hrest ((hb.mark (asSize nb)).offer std hnb ef d)).mono (fun b' h => ⟨h.1, by omega⟩) fun _ h => h
    · exact ih hrest hb

include hrows hquery in
/-- **The frontier loop** stays within a closed set, and its fuel is not short if there is a
unit for every pending node. -/
theorem gives_explore (hS : Closed ix 0 S) (ef fuel : ℕ) {b : Beam D} (hb : b.Within ix S) :
    Gives (explore (.fixed acquires ix) locks std query ef fuel b) (fun b' => b'.Within ix S)
      (Exits (.fixed acquires ix) locks (fuel ≤ b.pending)) := by
  induction fuel generalizing b with
  | zero => exact gives_raise (Nat.zero_le _)
  | succ fuel ih =>
    rw [explore]
    split
    · exact gives_pure hb
    · rename_i u frontier hfrontier
      have hu : u ∈ S := hb.frontier u (hfrontier ▸ List.mem_cons_self)
      have hpop : ({ b with frontier := frontier } : Beam D).Within ix S :=
        ⟨hb.best, hb.visited, fun x hx => hb.frontier x (hfrontier ▸ List.mem_cons_of_mem u hx)⟩
      have hcount : ({ b with frontier := frontier } : Beam D).pending + 1 = b.pending := by
        simp only [Beam.pending, hfrontier, List.length_cons]
        omega
      refine (gives_advance u).bind fun _ _ => ?_
      refine (gives_neighbors u 0).bind ?_
      rintro _ rfl
      refine (gives_scan hrows hquery (hS.nbrs u hu) ef u hpop).bind fun b' hb' => ?_
      refine (ih hb'.1).mono (fun _ h => h) (Exits.imp fun hshort => ?_)
      have hpending := hb'.2
      omega

variable (ix) in
/-- The beam that the loop starts with. -/
theorem Beam.within_start (std : StdOrder (SearchHit.less D)) {entry : ℤ} (hentry : entry ∈ S)
    (d : D) :
    ({ best := std.push [] ⟨entry, d⟩
       visited := (List.replicate ix.numElements false).set (asSize entry) true
       frontier := [entry] } : Beam D).Within ix S := by
  refine ⟨fun h hh => ?_, by simp, by simpa using hentry⟩
  rw [List.mem_singleton.mp ((std.push_perm _ _).mem_iff.mp hh)]
  exact hentry

include hrows hquery in
theorem gives_baseLayerSearchLocked (hS : Closed ix 0 S) (fuel : ℕ) {entry : ℤ} (hentry : entry ∈ S)
    (k : ℕ) :
    Gives (baseLayerSearchLocked (.fixed acquires ix) locks std query fuel entry k)
      (fun hits => ∀ h ∈ hits, h.nodeId ∈ S)
      (Exits (.fixed acquires ix) locks (fuel ≤ ix.numElements)) := by
  have hr := hS.inRange entry hentry
  obtain ⟨v, hv, hlt⟩ := Index.inRange_iff.mp hr
  have hentrylt : asSize entry < ix.numElements := by rwa [hv, Index.asSize_natCast]
  refine gives_here.bind ?_
  rintro _ rfl
  refine (gives_advance entry).bind fun _ _ => ?_
  rw [if_pos hentrylt]
  refine (gives_distanceQuery hrows hquery hr).bind fun d _ => ?_
  have hstart := Beam.within_start ix std hentry d
  have hpending := Beam.pending_start (std.push [] ⟨entry, d⟩) hentrylt
  refine ((gives_explore hrows hquery hS (max k 16) fuel hstart).mono (fun _ h => h)
    (Exits.imp fun hshort => by omega)).bind fun b hb => gives_pure fun h hh => hb.best h ?_
  have hdrained := (std.sort_perm _).mem_iff.mp (List.mem_of_mem_take hh)
  exact (std.drain_perm _).mem_iff.mp hdrained

theorem gives_topLayer (curr : ℤ) :
    Gives (topLayer (.fixed acquires ix) locks curr)
      (fun top => top = (ix.adjacency.layersOf (asSize curr)).length - 1)
      (Exits (.fixed acquires ix) locks short) := by
  refine (gives_sharedGuard _).bind fun _ _ => ?_
  refine ((gives_layers curr).withDestructor _).bind ?_
  rintro _ rfl
  exact gives_pure rfl

include hrows hquery in
/-- **The search** stays within a closed set that holds its entry: it goes out of bounds nowhere
and returns hits of the set. It ends otherwise only when a lock times out, or when the fuel does
not cover the nodes, or for a descent through upper layers. -/
theorem gives_searchKnn (hloaded : ix.isLoaded = true) (hS : ∀ L, Closed ix L S) {entryNode : ℤ}
    (hentry : ix.searchEntry entryNode ∈ S) (fuel k : ℕ) :
    Gives (searchKnn (.fixed acquires ix) locks std (some query) fuel k entryNode)
      (fun hits => ∀ h ∈ hits, h.nodeId ∈ S)
      (Exits (.fixed acquires ix) locks (fuel ≤ ix.numElements ∨
        1 < (ix.adjacency.layersOf (asSize (ix.searchEntry entryNode))).length)) := by
  rw [searchKnn]
  split
  · exact gives_pure (by simp)
  · refine (gives_alter _).bind fun _ _ => Gives.withDestructor ?_ _
    refine gives_here.bind ?_
    rintro _ rfl
    rw [if_neg (by simp [hloaded])]
    refine (gives_topLayer _).bind ?_
    rintro _ rfl
    refine Gives.withDestructor ?_ _
    refine (gives_enter _).bind fun _ _ => ?_
    refine ((gives_descend hrows hquery hS fuel _ hentry).mono (fun _ h => h)
      (Exits.imp fun hshort => Or.inr (by omega))).bind fun curr hcurr => ?_
    exact (gives_baseLayerSearchLocked hrows hquery (hS 0) fuel hcurr k).mono (fun _ h => h)
      (Exits.imp Or.inl)

end Loops

end Walk

end Unlearning
