import Unlearning.Calls
import Unlearning.Capped
import Unlearning.Reached
import Unlearning.Rewiring

/-!
# A search while nodes are erased (`search_knn` beside `erase_node`)

Other threads erase nodes while a search runs: at every tick of its clock the search may find
other lists, other vectors and another entrypoint. Whatever it finds, it stays in a set that at
no moment has a list leading out of it (`NeverLeads`). On a capped graph there are two such sets:
the labels that were not erased before the search began, and any one label that was, whose lists
are empty for good.
-/

namespace Unlearning

namespace Walk

/-- At no moment does a list of a node of `S` lead out of `S`. -/
def NeverLeads (env : SearchEnv) (S : Set ℤ) : Prop :=
  ∀ t, ∀ x ∈ S, ∀ L, ∀ nb ∈ (env.index t).adjacency.nbrs (asSize x) L, nb ∈ S

/-- If the computation returns, it returns something in `Q`. -/
abbrev Yields {α : Type} (w : Walk α) (Q : α → Prop) : Prop := Gives w Q fun _ => True

section Reads

variable {env : SearchEnv} {locks : LockManager} {S : Set ℤ}

theorem yields_here : Yields (here env) fun _ => True := Act.triple_reads fun _ _ => trivial

theorem yields_look {α : Type} {Q : α → Prop} {e : SearchEvent} {f : Index → Option α}
    (h : ∀ t a, f (env.index t) = some a → Q a) : Yields (look env e f) Q := by
  intro s _
  rw [look]
  cases hf : f (env.index s.clock) with
  | some a => exact Or.inl ⟨a, _, rfl, h _ a hf⟩
  | none => exact Or.inr ⟨_, _, rfl, trivial⟩

theorem yields_layers (node : ℤ) : Yields (layers env node) fun _ => True := by
  refine yields_here.bind fun ix _ => ?_
  split
  · exact yields_look fun _ _ _ => trivial
  · exact gives_pure trivial

/-- The number of layers and the list are two reads; the list is the one of its own moment. -/
theorem yields_neighbors (hS : NeverLeads env S) {node : ℤ} (hnode : node ∈ S) (layer : ℕ) :
    Yields (neighbors env node layer) fun l => ∀ nb ∈ l, nb ∈ S := by
  refine (yields_layers node).bind fun count _ => ?_
  split
  · refine yields_look fun t l hl nb hnb => hS t node hnode layer nb ?_
    obtain ⟨perNode, hper, hlist⟩ := Option.bind_eq_some_iff.mp hl
    rw [Layered.nbrs, Layered.layersOf, hper, Option.getD_some, hlist, Option.getD_some]
    exact hnb
  · exact gives_pure (by simp)

theorem yields_sharedGuard (stripe : ℕ) : Yields (sharedGuard env locks stripe) fun _ => True := by
  have h : Gives _ _ (Exits env locks True) := gives_sharedGuard stripe
  exact h.mono (fun _ _ => trivial) fun _ _ => trivial

theorem yields_advance (next : ℤ) : Yields (advance env locks next) fun _ => True := by
  have h : Gives _ _ (Exits env locks True) := gives_advance next
  exact h.mono (fun _ _ => trivial) fun _ _ => trivial

theorem yields_enter (node : ℤ) : Yields (enter env locks node) fun _ => True := by
  have h : Gives _ _ (Exits env locks True) := gives_enter node
  exact h.mono (fun _ _ => trivial) fun _ _ => trivial

end Reads

/-! ## The loops -/

section Loops

variable {env : SearchEnv} {locks : LockManager} {D : Type} [FloatArith D]
  {std : StdOrder (SearchHit.less D)} {query : List UInt32} {S : Set ℤ}

theorem yields_distanceQuery (node : ℤ) : Yields (distanceQuery env D query node) fun _ => True :=
  yields_look fun _ _ _ => trivial

theorem yields_greedyScan {curr : ℤ} {bestDist : D} {nbrs : List ℤ} (hnbrs : ∀ nb ∈ nbrs, nb ∈ S) :
    Yields (greedyScan env locks D query curr bestDist nbrs)
      fun r => ∀ nb, r = some nb → nb ∈ S := by
  induction nbrs with
  | nil => exact gives_pure (by simp)
  | cons nb rest ih =>
    obtain ⟨hnb, hrest⟩ := List.forall_mem_cons.mp hnbrs
    refine yields_here.bind fun ix _ => ?_
    split
    · refine (yields_advance nb).bind fun _ _ => ?_
      refine (yields_distanceQuery nb).bind fun d _ => ?_
      split
      · refine gives_pure fun x hx => ?_
        rw [← Option.some.inj hx]
        exact hnb
      · exact (yields_advance curr).bind fun _ _ => ih hrest
    · exact ih hrest

theorem yields_greedyUpdateLocked (hS : NeverLeads env S) (layer fuel : ℕ) {curr : ℤ}
    (hcurr : curr ∈ S) :
    Yields (greedyUpdateLocked env locks D query layer fuel curr) fun r => r ∈ S := by
  induction fuel generalizing curr with
  | zero => exact gives_raise trivial
  | succ fuel ih =>
    refine (yields_distanceQuery curr).bind fun bestDist _ => ?_
    refine (yields_neighbors hS hcurr layer).bind fun nbrs hnbrs => ?_
    refine (yields_greedyScan hnbrs).bind fun r hr => ?_
    cases r with
    | none => exact gives_pure hcurr
    | some nb => exact ih (hr nb rfl)

theorem yields_descend (hS : NeverLeads env S) (fuel lc : ℕ) {curr : ℤ} (hcurr : curr ∈ S) :
    Yields (descend env locks D query fuel lc curr) fun r => r ∈ S := by
  induction lc generalizing curr with
  | zero => exact gives_pure hcurr
  | succ lc ih =>
    exact (yields_greedyUpdateLocked hS (lc + 1) fuel hcurr).bind fun r hr => ih hr

/-- The invariant of the base-layer loop: what is kept and what is still to be explored. -/
structure Beam.Inside (S : Set ℤ) (b : Beam D) : Prop where
  best : ∀ h ∈ b.best, h.nodeId ∈ S
  frontier : ∀ u ∈ b.frontier, u ∈ S

theorem Beam.Inside.offer {b : Beam D} (hb : b.Inside S) {nb : ℤ} (hnb : nb ∈ S) (ef : ℕ) (d : D) :
    (Beam.offer std ef nb d b).Inside S := by
  rw [Beam.offer]
  split
  · have hpush : ∀ h ∈ std.push b.best ⟨nb, d⟩, h.nodeId ∈ S := by
      intro h hh
      rcases List.mem_cons.mp ((std.push_perm _ _).mem_iff.mp hh) with rfl | hold
      · exact hnb
      · exact hb.best h hold
    refine ⟨?_, List.forall_mem_append.mpr ⟨hb.frontier, by simpa using hnb⟩⟩
    simp only
    split
    · exact fun h hh => hpush h (std.mem_of_mem_pop hh)
    · exact hpush
  · exact hb

theorem yields_scan {nbrs : List ℤ} (hnbrs : ∀ nb ∈ nbrs, nb ∈ S) (ef : ℕ) (u : ℤ) {b : Beam D}
    (hb : b.Inside S) :
    Yields (scan env locks std query ef u nbrs b) fun b' => b'.Inside S := by
  induction nbrs generalizing b with
  | nil => exact gives_pure hb
  | cons nb rest ih =>
    obtain ⟨hnb, hrest⟩ := List.forall_mem_cons.mp hnbrs
    refine yields_here.bind fun ix _ => ?_
    split
    · split
      · exact gives_raise trivial
      · exact ih hrest hb
      · refine (yields_advance nb).bind fun _ _ => ?_
        refine (yields_distanceQuery nb).bind fun d _ => ?_
        refine (yields_advance u).bind fun _ _ => ih hrest ?_
        have hmark : ({ b with visited := b.visited.set (asSize nb) true } : Beam D).Inside S :=
          ⟨hb.best, hb.frontier⟩
        exact hmark.offer hnb ef d
    · exact ih hrest hb

theorem yields_explore (hS : NeverLeads env S) (ef fuel : ℕ) {b : Beam D} (hb : b.Inside S) :
    Yields (explore env locks std query ef fuel b) fun b' => b'.Inside S := by
  induction fuel generalizing b with
  | zero => exact gives_raise trivial
  | succ fuel ih =>
    rw [explore]
    split
    · exact gives_pure hb
    · rename_i u frontier hfrontier
      obtain ⟨hu, hrest⟩ := List.forall_mem_cons.mp (hfrontier ▸ hb.frontier)
      have hpop : ({ b with frontier := frontier } : Beam D).Inside S := ⟨hb.best, hrest⟩
      refine (yields_advance u).bind fun _ _ => ?_
      refine (yields_neighbors hS hu 0).bind fun nbrs hnbrs => ?_
      exact (yields_scan hnbrs ef u hpop).bind fun b' hb' => ih hb'

theorem yields_baseLayerSearchLocked (hS : NeverLeads env S) (fuel : ℕ) {entry : ℤ}
    (hentry : entry ∈ S) (k : ℕ) :
    Yields (baseLayerSearchLocked env locks std query fuel entry k)
      fun hits => ∀ h ∈ hits, h.nodeId ∈ S := by
  refine yields_here.bind fun ix _ => ?_
  refine (yields_advance entry).bind fun _ _ => ?_
  split
  · refine (yields_distanceQuery entry).bind fun d _ => ?_
    have hstart : ({ best := std.push [] ⟨entry, d⟩
                     visited := (List.replicate ix.numElements false).set (asSize entry) true
                     frontier := [entry] } : Beam D).Inside S := by
      refine ⟨fun h hh => ?_, by simpa using hentry⟩
      rw [List.mem_singleton.mp ((std.push_perm _ _).mem_iff.mp hh)]
      exact hentry
    refine (yields_explore hS (max k 16) fuel hstart).bind fun b hb => gives_pure fun h hh => ?_
    have hdrained := (std.sort_perm _).mem_iff.mp (List.mem_of_mem_take hh)
    exact hb.best h ((std.drain_perm _).mem_iff.mp hdrained)
  · exact gives_raise trivial

theorem yields_topLayer (curr : ℤ) : Yields (topLayer env locks curr) fun _ => True := by
  refine (yields_sharedGuard _).bind fun _ _ => ?_
  exact ((yields_layers curr).withDestructor _).bind fun _ _ => gives_pure trivial

/-- The entry is chosen on the index found with the structure lock taken. -/
theorem triple_searchLocked_inside (hS : NeverLeads env S) (fuel k : ℕ) (entryNode : ℤ) :
    Act.Triple (fun s => (env.index s.clock).searchEntry entryNode ∈ S)
      (searchLocked env locks std query fuel k entryNode)
      (fun hits _ => ∀ h ∈ hits, h.nodeId ∈ S) fun _ _ => True := by
  refine (Act.triple_reads (Q := fun (ix : Index) _ => ix.searchEntry entryNode ∈ S)
    fun s hs => hs).bind fun ix => ?_
  intro s hentry
  refine (?_ : Yields _ fun hits : List (SearchHit D) => ∀ h ∈ hits, h.nodeId ∈ S) s trivial
  split
  · exact gives_raise trivial
  · refine (yields_topLayer _).bind fun top _ => Gives.withDestructor ?_ _
    refine (yields_enter _).bind fun _ _ => ?_
    refine (yields_descend hS fuel top hentry).bind fun curr hcurr => ?_
    exact yields_baseLayerSearchLocked hS fuel hcurr k

/-- **A search stays where no list ever leads out**: every hit is in the set if the entry is. -/
theorem hits_inside (hS : NeverLeads env S) {query : Option (List UInt32)} {fuel k : ℕ}
    {entryNode : ℤ} (hentry : (env.index 1).searchEntry entryNode ∈ S)
    {hits : List (SearchHit D)} {s' : SearchState}
    (hrun : searchKnn env locks std query fuel k entryNode start = (.ok hits, s')) :
    ∀ h ∈ hits, h.nodeId ∈ S := by
  suffices h : Act.Triple (fun s => s = start) (searchKnn env locks std query fuel k entryNode)
      (fun hits _ => ∀ h ∈ hits, h.nodeId ∈ S) fun _ _ => True by
    rcases h start rfl with ⟨hits', s'', heq, hall⟩ | ⟨e, s'', heq, -⟩
    · rw [hrun] at heq
      cases heq
      exact hall
    · rw [hrun] at heq
      cases heq
  cases query with
  | none => exact Act.triple_raise fun _ _ => trivial
  | some query =>
    rw [searchKnn]
    split
    · exact Act.triple_pure fun _ _ => by simp
    · refine (Act.triple_alter (Q := fun _ s => (env.index s.clock).searchEntry entryNode ∈ S)
        ?_).bind fun _ => (triple_searchLocked_inside hS fuel k entryNode).withDestructor
          (fun _ _ h => h) fun _ _ h => h
      rintro s rfl
      exact hentry

end Loops

end Walk

/-! ## Beside erasures -/

section Erasures

open Index

variable {D : Type} [FloatArith D] {ix : Index} {maxM : ℤ}

/-- What a run has erased, it has erased however it continues. -/
theorem erased_subset_append (done more : List (NativeEnv × ℤ)) {q : ℤ}
    (hq : q ∈ (eraseEach D maxM done ix).2) : q ∈ (eraseEach D maxM (done ++ more) ix).2 := by
  induction done generalizing ix with
  | nil => cases hq
  | cons c rest ih =>
    obtain ⟨env, q'⟩ := c
    simp only [List.cons_append, eraseEach] at hq ⊢
    rcases hres : (ix.eraseNode D env q' maxM).1 with e | r
    · rw [hres] at hq
      exact ih hq
    · rw [hres] at hq
      rcases List.mem_cons.mp hq with rfl | hq
      · exact List.mem_cons_self
      · exact List.mem_cons_of_mem _ (ih hq)

variable {env : SearchEnv} {locks : LockManager} {std : StdOrder (SearchHit.less D)}

/-- **No search returns a node that was erased before it began**, save the one it starts on, and
then it returns nothing else. The graph is capped, as every sequence of erasures leaves it; while
the search runs, other threads go on erasing: at every tick it finds the lists that some
continuation of the run leaves, and any vectors, sizes and entrypoint at all. -/
theorem search_skips_erased (hmax : maxM < 2 ^ 31) (h : Capped ix.numElements maxM ix.adjacency)
    (done : List (NativeEnv × ℤ))
    (hsees : ∀ t, ∃ more,
      (env.index t).adjacency = (eraseEach D maxM (done ++ more) ix).1.adjacency)
    {query : Option (List UInt32)} {fuel k : ℕ} {entryNode : ℤ} {hits : List (SearchHit D)}
    {s' : SearchState}
    (hrun : Walk.searchKnn env locks std query fuel k entryNode Walk.start = (.ok hits, s')) :
    let erased := (eraseEach D maxM done ix).2
    let entry := (env.index 1).searchEntry entryNode
    (entry ∉ erased → ∀ hit ∈ hits, hit.nodeId ∉ erased) ∧
      (entry ∈ erased → ∀ hit ∈ hits, hit.nodeId = entry) := by
  intro erased entry
  have hgone : ∀ t, ∀ q ∈ erased, (∀ L, (env.index t).adjacency.nbrs (asSize q) L = []) ∧
      Absent (env.index t).adjacency q := by
    intro t q hq
    obtain ⟨more, hmore⟩ := hsees t
    obtain ⟨hcapped, -, habsent⟩ := capped_eraseEach (D := D) hmax (done ++ more) h
    obtain ⟨hnonneg, habs⟩ := habsent q (erased_subset_append done more hq)
    rw [hmore]
    exact ⟨hcapped.nbrs_eq_nil hnonneg habs, habs⟩
  refine ⟨fun hentry => ?_, fun hentry => ?_⟩
  · refine Walk.hits_inside (S := {x | x ∉ erased}) ?_ hentry hrun
    intro t x _ L nb hnb herased
    exact (hgone t nb herased).2 _ L hnb
  · refine Walk.hits_inside (S := {entry}) ?_ rfl hrun
    rintro t x rfl L nb hnb
    rw [(hgone t _ hentry).1 L] at hnb
    cases hnb

/-- One of the spokes has been erased; the other is, once the list of the middle has been read. -/
def erasedMeanwhile : SearchEnv where
  acquires _ := true
  index t := (eraseEach ℚ 2 ([(.calm, 1)] ++ if t < 13 then [] else [(.calm, 2)]) twoSpokes).1

/-- The spoke that was there when the search began may be a hit, the other one is not. -/
theorem search_skips_erased_twoSpokes : ∃ hits s',
    Walk.searchKnn erasedMeanwhile (.ofPool 64 50) (.reference (SearchHit.less ℚ))
        (some [1073741824]) 4 3 (-1) Walk.start = (.ok hits, s') ∧
      hits.map SearchHit.nodeId = [0, 2] ∧ ∀ hit ∈ hits, hit.nodeId ∉ [1] := by
  obtain ⟨hits, s', hrun, hids⟩ : ∃ hits s',
      Walk.searchKnn erasedMeanwhile (.ofPool 64 50) (.reference (SearchHit.less ℚ))
        (some [1073741824]) 4 3 (-1) Walk.start = (.ok hits, s') ∧
      hits.map SearchHit.nodeId = [0, 2] := ⟨_, _, rfl, by decide +kernel⟩
  have herased : (eraseEach ℚ 2 [(.calm, 1)] twoSpokes).2 = [1] := rfl
  have hskips := search_skips_erased (by decide) capped_twoSpokes [(.calm, 1)]
    (fun _ => ⟨_, rfl⟩) hrun
  rw [herased] at hskips
  exact ⟨hits, s', hrun, hids, hskips.1 (by decide)⟩

end Erasures

end Unlearning
