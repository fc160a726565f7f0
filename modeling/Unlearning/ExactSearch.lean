import Mathlib.Data.Set.Card
import Mathlib.Logic.Relation
import Unlearning.BestQueue
import Unlearning.Calls
import Unlearning.Rewiring

/-!
# What a search finds (`src/hnsw_helper.hpp`, `search_knn`)

With distances in a linear order, on an index that nobody writes to:

* the greedy descent ends, since every move is to a node that is closer (`closer`), and hands a node
  to the base layer;
* the base layer keeps the best `max(k, 16)` of what it visits (`Finds`), and visits nothing but
  what can be reached from that node. While it has visited no more than it can keep, every visited
  node is explored, so if no more can be reached, all of it is visited.

A hit is a node and its distance, so two hits of one node are equal.
-/

namespace Unlearning

namespace Index

/-- The true distance of a node to a query. -/
def queryDistance (D : Type) [FloatArith D] (ix : Index) (query : List UInt32) (x : ℤ) : D :=
  l2Distance D query (ix.vectorPtr (asSize x)) ix.dim

/-- A base-layer list leads from a node to another that the index has. -/
def Follows (ix : Index) (x y : ℤ) : Prop :=
  y ∈ ix.adjacency.nbrs (asSize x) 0 ∧ ix.inRange y = true

/-- What can be reached along the base-layer lists. -/
def reachable (ix : Index) (b : ℤ) : Set ℤ := {x | Relation.ReflTransGen ix.Follows b x}

/-- The nodes that are marked. -/
def marked (ix : Index) (visited : List Bool) : Set ℤ :=
  {x | ix.inRange x = true ∧ visited[asSize x]? = some true}

end Index

namespace Walk

section Phases

variable (env : SearchEnv) (locks : LockManager) (D : Type) [FloatArith D]

/-- `search_knn` up to the base layer: the node that the greedy descent hands on. -/
def handOn (query : List UInt32) (fuel : ℕ) (entryNode : ℤ) : Walk ℤ := do
  Act.alter (SearchState.log (.locked .structureMu))
  let ix ← here env
  let curr := ix.searchEntry entryNode
  let top ← topLayer env locks curr
  enter env locks curr
  descend env locks D query fuel top curr

variable {D}

/-- `base_layer_search_locked` up to the end of its loop. -/
def baseLayerBeam (std : StdOrder (SearchHit.less D)) (query : List UInt32) (fuel : ℕ) (entry : ℤ)
    (k : ℕ) : Walk (Beam D) := do
  let n := (← here env).numElements
  advance env locks entry
  if asSize entry < n then
    let d ← distanceQuery env D query entry
    explore env locks std query (max k 16) fuel
      { best := std.push [] ⟨entry, d⟩
        visited := (List.replicate n false).set (asSize entry) true
        frontier := [entry] }
  else Act.raise .undefined

theorem baseLayerSearchLocked_eq (std : StdOrder (SearchHit.less D)) (query : List UInt32)
    (fuel : ℕ) (entry : ℤ) (k : ℕ) :
    baseLayerSearchLocked env locks std query fuel entry k =
      baseLayerBeam env locks std query fuel entry k >>= fun b => pure (b.hits std k) := by
  rw [baseLayerBeam, Act.bind_assoc]
  refine congrArg _ (funext fun ix => ?_)
  rw [Act.bind_assoc]
  dsimp only
  refine congrArg _ (funext fun _ => ?_)
  split
  · rw [Act.bind_assoc]
  · rfl

/-- A search ends as its two phases do. -/
theorem searchKnn_fst {acquires : ℕ → Bool} {ix : Index} (hloaded : ix.isLoaded = true)
    (std : StdOrder (SearchHit.less D)) (query : List UInt32) (fuel : ℕ) {k : ℕ} (hk : k ≠ 0)
    (entryNode : ℤ) (s : SearchState) :
    (searchKnn (.fixed acquires ix) locks std (some query) fuel k entryNode s).1 =
      ((handOn (.fixed acquires ix) locks D query fuel entryNode >>= fun b =>
        baseLayerSearchLocked (.fixed acquires ix) locks std query fuel b k) s).1 := by
  have hlog : Act.alter (SearchState.log (.locked .structureMu)) s =
      ((.ok (), s.log (.locked .structureMu)) : Except SearchExit Unit × SearchState) := rfl
  rw [searchKnn, if_neg hk, handOn, Act.bind_assoc, Act.bind_ok hlog, Act.bind_ok hlog]
  clear hlog
  generalize s.log (.locked .structureMu) = s
  have hhere : here (.fixed acquires ix) s = (.ok ix, s) := rfl
  rw [Act.bind_assoc, Act.bind_ok hhere]
  change (searchLocked (.fixed acquires ix) locks std query fuel k entryNode s).1 = _
  rw [searchLocked, Act.bind_ok hhere, if_neg (by simp [hloaded]), Act.bind_assoc]
  rcases htop : topLayer (.fixed acquires ix) locks (ix.searchEntry entryNode) s with
    ⟨e | top, s'⟩
  · rw [Act.bind_error htop, Act.bind_error htop]
  · rw [Act.bind_ok htop, Act.bind_ok htop, Act.bind_assoc]
    rfl

end Phases

/-! ## The greedy descent ends -/

/-- Two facts about one computation. -/
theorem Gives.and {α : Type} {w : Walk α} {Q Q' : α → Prop} {R R' : SearchExit → Prop}
    (h : Gives w Q R) (h' : Gives w Q' R') :
    Gives w (fun a => Q a ∧ Q' a) fun e => R e ∧ R' e := by
  intro s hs
  rcases h s hs with ⟨a, s₁, heq, hQ⟩ | ⟨e, s₁, heq, hR⟩
  · rcases h' s hs with ⟨a', s₂, heq', hQ'⟩ | ⟨e', s₂, heq', hR'⟩
    · obtain rfl : a = a' := Except.ok.inj (congrArg Prod.fst (heq.symm.trans heq'))
      exact Or.inl ⟨a, s₁, heq, hQ, hQ'⟩
    · cases congrArg Prod.fst (heq.symm.trans heq')
  · rcases h' s hs with ⟨a', s₂, heq', hQ'⟩ | ⟨e', s₂, heq', hR'⟩
    · cases congrArg Prod.fst (heq.symm.trans heq')
    · obtain rfl : e = e' := Except.error.inj (congrArg Prod.fst (heq.symm.trans heq'))
      exact Or.inr ⟨e, s₁, heq, hR, hR'⟩

section Descent

variable {D : Type} [FloatArith D] [LinearOrder D] {acquires : ℕ → Bool} {ix : Index}
  {locks : LockManager} {query : List UInt32} {short : Prop}

/-- The nodes that are closer to the query than a distance. -/
def closer (ix : Index) (query : List UInt32) (d : D) : List ℕ :=
  (List.range ix.numElements).filter fun v => ix.queryDistance D query v < d

theorem length_closer_lt {curr nb : ℤ} (hr : ix.inRange nb = true)
    (h : ix.queryDistance D query nb < ix.queryDistance D query curr) :
    (closer ix query (ix.queryDistance D query nb)).length <
      (closer ix query (ix.queryDistance D query curr)).length := by
  obtain ⟨v, rfl, hv⟩ := Index.inRange_iff.mp hr
  have hfilter : closer ix query (ix.queryDistance D query v) =
      (closer ix query (ix.queryDistance D query curr)).filter
        fun u : ℕ => ix.queryDistance D query u < ix.queryDistance D query v := by
    rw [closer, closer, List.filter_filter]
    refine List.filter_congr fun u _ => ?_
    rw [← Bool.decide_and, decide_eq_decide]
    exact ⟨fun hu => ⟨hu, hu.trans h⟩, And.left⟩
  rw [hfilter, List.length_filter_lt_length_iff_exists]
  exact ⟨v, List.mem_filter.mpr ⟨List.mem_range.mpr hv, by simpa using h⟩, by simp⟩

theorem length_closer_le (d : D) : (closer ix query d).length ≤ ix.numElements :=
  (List.length_filter_le _ _).trans (Nat.le_of_eq List.length_range)

variable (hlt : ∀ a b : D, FloatArith.lt a b = true ↔ a < b)
  (hrows : ix.words.length = ix.numElements * ix.dim) (hquery : ix.dim ≤ query.length)

include hlt hrows hquery in
/-- The scan moves to a node that is closer. -/
theorem gives_greedyScan_closer (curr : ℤ) (bestDist : D) (nbrs : List ℤ) :
    Gives (greedyScan (.fixed acquires ix) locks D query curr bestDist nbrs)
      (fun r => ∀ nb, r = some nb → ix.inRange nb = true ∧ ix.queryDistance D query nb < bestDist)
      (Exits (.fixed acquires ix) locks short) := by
  induction nbrs with
  | nil => exact gives_pure fun nb hnb => by cases hnb
  | cons nb rest ih =>
    refine gives_here.bind ?_
    rintro _ rfl
    split
    · rename_i hr
      refine (gives_advance nb).bind fun _ _ => ?_
      refine (gives_distanceQuery hrows hquery hr).bind fun d hd => ?_
      split
      · rename_i hless
        refine gives_pure fun x hx => ?_
        obtain rfl := Option.some.inj hx
        rw [hd, hlt] at hless
        exact ⟨hr, hless⟩
      · exact (gives_advance curr).bind fun _ _ => ih
    · exact ih

include hlt hrows hquery in
/-- **The greedy moves end**, with a unit of fuel for every node that is closer. -/
theorem gives_greedyUpdateLocked_closer (layer : ℕ) {fuel : ℕ} {curr : ℤ}
    (hcurr : ix.inRange curr = true)
    (hfuel : (closer ix query (ix.queryDistance D query curr)).length < fuel) :
    Gives (greedyUpdateLocked (.fixed acquires ix) locks D query layer fuel curr)
      (fun r => ix.inRange r = true) (Exits (.fixed acquires ix) locks short) := by
  induction fuel generalizing curr with
  | zero => exact absurd hfuel (Nat.not_lt_zero _)
  | succ fuel ih =>
    refine (gives_distanceQuery hrows hquery hcurr).bind ?_
    rintro _ rfl
    refine (gives_neighbors curr layer).bind fun nbrs _ => ?_
    refine (gives_greedyScan_closer hlt hrows hquery curr _ nbrs).bind fun r hr => ?_
    cases r with
    | none => exact gives_pure hcurr
    | some nb =>
      obtain ⟨hin, hless⟩ := hr nb rfl
      have hfewer := length_closer_lt hin hless
      exact ih hin (by omega)

include hlt hrows hquery in
theorem gives_descend_closer {fuel : ℕ} (hfuel : ix.numElements < fuel) (lc : ℕ) {curr : ℤ}
    (hcurr : ix.inRange curr = true) :
    Gives (descend (.fixed acquires ix) locks D query fuel lc curr)
      (fun r => ix.inRange r = true) (Exits (.fixed acquires ix) locks short) := by
  induction lc generalizing curr with
  | zero => exact gives_pure hcurr
  | succ lc ih =>
    refine (gives_greedyUpdateLocked_closer hlt hrows hquery (lc + 1) hcurr ?_).bind
      fun r hr => ih hr
    exact (length_closer_le _).trans_lt hfuel

variable (acquires locks) in
include hlt hrows hquery in
/-- **The descent** hands on a node of the index, unless a lock times out. -/
theorem gives_handOn (hloaded : ix.isLoaded = true) {fuel : ℕ} (hfuel : ix.numElements < fuel)
    (entryNode : ℤ) :
    Gives (handOn (.fixed acquires ix) locks D query fuel entryNode)
      (fun b => ix.inRange b = true) (Exits (.fixed acquires ix) locks False) := by
  refine (gives_alter _).bind fun _ _ => ?_
  refine gives_here.bind ?_
  rintro _ rfl
  refine (gives_topLayer _).bind fun top _ => ?_
  refine (gives_enter _).bind fun _ _ => ?_
  have hentry := Index.inRange_searchEntry hloaded entryNode
  exact gives_descend_closer hlt hrows hquery hfuel top hentry

end Descent

/-! ## The base layer -/

section BaseLayer

variable {D : Type} [FloatArith D] [LinearOrder D] {acquires : ℕ → Bool} {ix : Index}
  {locks : LockManager} {std : StdOrder (SearchHit.less D)} {query : List UInt32} {ef : ℕ} {b₀ : ℤ}
  {skip : Set ℤ} {seen : List (SearchHit D)} {b : Beam D} {nb : ℤ} {short : Prop}

/-- A comparison that is that of a linear order. -/
theorem strictWeak_less (hlt : ∀ a b : D, FloatArith.lt a b = true ↔ a < b) :
    StrictWeak (SearchHit.less D) where
  asymm a b h := by
    rw [SearchHit.less, ← Bool.not_eq_true, hlt]
    exact lt_asymm ((hlt _ _).mp h)
  negTrans a b c hab hbc := by
    rw [SearchHit.less, ← Bool.not_eq_true, hlt, not_lt] at hab hbc ⊢
    exact hab.trans hbc

omit [LinearOrder D] in
theorem offer_best (d : D) : (Beam.offer std ef nb d b).best = std.offer ef ⟨nb, d⟩ b.best := by
  rw [Beam.offer, StdOrder.offer]
  split
  · rw [if_pos (by assumption)]
  · rw [if_neg (by assumption)]

omit [LinearOrder D] in
theorem offer_visited (d : D) : (Beam.offer std ef nb d b).visited = b.visited := by
  rw [Beam.offer]
  split <;> rfl

variable (std ef nb b) in
omit [LinearOrder D] in
/-- What enters the heap is explored later. -/
theorem offer_frontier (d : D) : (Beam.offer std ef nb d b).frontier = b.frontier ++ [nb] ∨
    ef ≤ b.best.length ∧ (Beam.offer std ef nb d b).frontier = b.frontier := by
  rw [Beam.offer]
  split
  · exact Or.inl rfl
  · rename_i hout
    exact Or.inr ⟨Nat.le_of_not_lt fun h => hout (Or.inl h), rfl⟩

theorem mem_marked_set {visited : List Bool} (hr : ix.inRange nb = true)
    (hin : asSize nb < visited.length) {x : ℤ} :
    x ∈ ix.marked (visited.set (asSize nb) true) ↔ x = nb ∨ x ∈ ix.marked visited := by
  by_cases hx : x = nb
  · subst hx
    exact iff_of_true ⟨hr, by rw [List.getElem?_set_self hin]⟩ (Or.inl rfl)
  · constructor
    · rintro ⟨hxr, hmark⟩
      refine Or.inr ⟨hxr, ?_⟩
      rwa [List.getElem?_set_ne] at hmark
      intro hsame
      obtain ⟨v, rfl, -⟩ := Index.inRange_iff.mp hr
      obtain ⟨w, rfl, -⟩ := Index.inRange_iff.mp hxr
      rw [Index.asSize_natCast, Index.asSize_natCast] at hsame
      exact hx (congrArg _ hsame.symm)
    · rintro (rfl | ⟨hxr, hmark⟩)
      · exact absurd rfl hx
      · refine ⟨hxr, ?_⟩
        rw [List.getElem?_set]
        split
        · rfl
        · exact hmark

/-- **The invariant of the base layer.** `seen` lists what has been visited, with the distances; the
heap keeps the best of it. While everything is kept, a visited node is in the frontier, or skipped
for now, or its lists lead to visited nodes only. -/
structure Finds (ix : Index) (std : StdOrder (SearchHit.less D)) (query : List UInt32) (ef : ℕ)
    (b₀ : ℤ) (skip : Set ℤ) (seen : List (SearchHit D)) (b : Beam D) : Prop where
  marks : b.visited.length = ix.numElements
  keeps : Keeps std ef seen b.best
  nodup : (seen.map SearchHit.nodeId).Nodup
  known (x : ℤ) : x ∈ seen.map SearchHit.nodeId ↔ x ∈ ix.marked b.visited
  distances : ∀ h ∈ seen, h.distance = ix.queryDistance D query h.nodeId
  start : b₀ ∈ ix.marked b.visited
  reached : ix.marked b.visited ⊆ ix.reachable b₀
  frontier : ∀ u ∈ b.frontier, u ∈ ix.marked b.visited
  explored : seen.length ≤ ef → ∀ x ∈ ix.marked b.visited,
    x ∈ b.frontier ∨ x ∈ skip ∨ ∀ y, ix.Follows x y → y ∈ ix.marked b.visited

/-- **Offer**: a node that can be reached is visited. -/
theorem Finds.offer (hlt : ∀ a b : D, FloatArith.lt a b = true ↔ a < b) (hef : 0 < ef)
    (h : Finds ix std query ef b₀ skip seen b) (hr : ix.inRange nb = true)
    (hfresh : b.visited[asSize nb]? = some false) (hreach : nb ∈ ix.reachable b₀) :
    Finds ix std query ef b₀ skip (⟨nb, ix.queryDistance D query nb⟩ :: seen)
      (Beam.offer std ef nb (ix.queryDistance D query nb)
        { b with visited := b.visited.set (asSize nb) true }) := by
  obtain ⟨hin, hunmarked⟩ := List.getElem?_eq_some_iff.mp hfresh
  have hmem (x : ℤ) : x ∈ ix.marked (b.visited.set (asSize nb) true) ↔
      x = nb ∨ x ∈ ix.marked b.visited := mem_marked_set hr hin
  have hnew : nb ∉ ix.marked b.visited := by
    rintro ⟨-, hmark⟩
    rw [hfresh] at hmark
    cases hmark
  have hfront := offer_frontier std ef { b with visited := b.visited.set (asSize nb) true } nb
    (ix.queryDistance D query nb)
  refine ⟨?_, ?_, ?_, ?_, ?_, ?_, ?_, ?_, ?_⟩
  · rw [offer_visited, List.length_set, h.marks]
  · rw [offer_best]
    exact h.keeps.offer (strictWeak_less hlt) hef _
  · rw [List.map_cons, List.nodup_cons, h.known]
    exact ⟨hnew, h.nodup⟩
  · intro x
    rw [List.map_cons, List.mem_cons, h.known, offer_visited, hmem]
  · intro y hy
    rcases List.mem_cons.mp hy with rfl | hy
    · rfl
    · exact h.distances y hy
  · rw [offer_visited, hmem]
    exact Or.inr h.start
  · intro x hx
    rw [offer_visited, hmem] at hx
    rcases hx with rfl | hx
    · exact hreach
    · exact h.reached hx
  · intro u hu
    rw [offer_visited, hmem]
    rcases hfront with hpush | ⟨-, hsame⟩
    · rw [hpush, List.mem_append, List.mem_singleton] at hu
      rcases hu with hu | rfl
      · exact Or.inr (h.frontier u hu)
      · exact Or.inl rfl
    · rw [hsame] at hu
      exact Or.inr (h.frontier u hu)
  · intro hroom x hx
    rw [List.length_cons] at hroom
    have hlen := h.keeps.length
    rcases hfront with hpush | ⟨hfull, -⟩
    · rw [offer_visited, hmem] at hx
      rw [hpush, offer_visited, List.mem_append, List.mem_singleton]
      rcases hx with rfl | hx
      · exact Or.inl (Or.inr rfl)
      · refine (h.explored (by omega) x hx).imp Or.inl (Or.imp_right fun hdone y hy => ?_)
        exact (hmem y).mpr (Or.inr (hdone y hy))
    · -- with room in the heap nothing is left out of the frontier
      simp only at hfull
      omega

section Loops

variable (hlt : ∀ a b : D, FloatArith.lt a b = true ↔ a < b) (hef : 0 < ef)
  (hrows : ix.words.length = ix.numElements * ix.dim) (hquery : ix.dim ≤ query.length)

include hlt hef hrows hquery in
/-- **The scan** of lists that can be reached: what they lead to is visited. -/
theorem gives_scan_finds {nbrs : List ℤ}
    (hnbrs : ∀ nb ∈ nbrs, ix.inRange nb = true → nb ∈ ix.reachable b₀) (u : ℤ)
    (h : Finds ix std query ef b₀ skip seen b) :
    Gives (scan (.fixed acquires ix) locks std query ef u nbrs b)
      (fun b' => (∃ seen', Finds ix std query ef b₀ skip seen' b') ∧
        ix.marked b.visited ⊆ ix.marked b'.visited ∧
        ∀ nb ∈ nbrs, ix.inRange nb = true → nb ∈ ix.marked b'.visited)
      (Exits (.fixed acquires ix) locks short) := by
  induction nbrs generalizing b seen with
  | nil => exact gives_pure ⟨⟨seen, h⟩, subset_rfl, fun nb hnb => absurd hnb List.not_mem_nil⟩
  | cons nb rest ih =>
    have hrest : ∀ x ∈ rest, ix.inRange x = true → x ∈ ix.reachable b₀ :=
      fun x hx => hnbrs x (List.mem_cons_of_mem nb hx)
    refine gives_here.bind ?_
    rintro _ rfl
    split
    · rename_i hr
      split
      · -- a label in range is an index of `visited`
        rename_i hnone
        obtain ⟨v, rfl, hv⟩ := Index.inRange_iff.mp hr
        rw [Index.asSize_natCast, List.getElem?_eq_none_iff, h.marks] at hnone
        omega
      · rename_i hmark
        refine (ih hrest h).mono (fun b' hb' => ⟨hb'.1, hb'.2.1, fun x hx hxr => ?_⟩) fun _ he => he
        rcases List.mem_cons.mp hx with rfl | hx
        · exact hb'.2.1 ⟨hxr, hmark⟩
        · exact hb'.2.2 x hx hxr
      · rename_i hfresh
        have hoffer := h.offer hlt hef hr hfresh (hnbrs nb List.mem_cons_self hr)
        have hin : asSize nb < b.visited.length := (List.getElem?_eq_some_iff.mp hfresh).1
        have hmem (x : ℤ) : x ∈ ix.marked (b.visited.set (asSize nb) true) ↔
            x = nb ∨ x ∈ ix.marked b.visited := mem_marked_set hr hin
        refine (gives_advance nb).bind fun _ _ => ?_
        refine (gives_distanceQuery hrows hquery hr).bind ?_
        rintro _ rfl
        refine (gives_advance u).bind fun _ _ => ?_
        refine (ih hrest hoffer).mono (fun b' hb' => ⟨hb'.1, fun x hx => ?_, fun x hx hxr => ?_⟩)
          fun _ he => he
        · refine hb'.2.1 ?_
          rw [offer_visited, hmem]
          exact Or.inr hx
        · rcases List.mem_cons.mp hx with rfl | hx
          · refine hb'.2.1 ?_
            rw [offer_visited, hmem]
            exact Or.inl rfl
          · exact hb'.2.2 x hx hxr
    · rename_i hr
      refine (ih hrest h).mono (fun b' hb' => ⟨hb'.1, hb'.2.1, fun x hx hxr => ?_⟩) fun _ he => he
      rcases List.mem_cons.mp hx with rfl | hx
      · exact absurd hxr hr
      · exact hb'.2.2 x hx hxr

include hlt hef hrows hquery in
/-- **The frontier loop** ends with an empty frontier. -/
theorem gives_explore_finds (fuel : ℕ) (h : Finds ix std query ef b₀ ∅ seen b) :
    Gives (explore (.fixed acquires ix) locks std query ef fuel b)
      (fun b' => b'.frontier = [] ∧ ∃ seen', Finds ix std query ef b₀ ∅ seen' b')
      (Exits (.fixed acquires ix) locks True) := by
  induction fuel generalizing b seen with
  | zero => exact gives_raise trivial
  | succ fuel ih =>
    rw [explore]
    split
    · rename_i hnil
      exact gives_pure ⟨hnil, seen, h⟩
    · rename_i u frontier hfrontier
      have hu : u ∈ ix.marked b.visited := h.frontier u (hfrontier ▸ List.mem_cons_self)
      -- while its lists are scanned, the node that was popped is skipped
      have hpop : Finds ix std query ef b₀ {u} seen { b with frontier := frontier } := by
        refine ⟨h.marks, h.keeps, h.nodup, h.known, h.distances, h.start, h.reached,
          fun x hx => h.frontier x (hfrontier ▸ List.mem_cons_of_mem u hx), fun hroom x hx => ?_⟩
        rcases h.explored hroom x hx with hin | hskip | hdone
        · rw [hfrontier, List.mem_cons] at hin
          rcases hin with rfl | hin
          · exact Or.inr (Or.inl rfl)
          · exact Or.inl hin
        · exact absurd hskip (Set.notMem_empty x)
        · exact Or.inr (Or.inr hdone)
      have hreach : ∀ nb ∈ ix.adjacency.nbrs (asSize u) 0, ix.inRange nb = true →
          nb ∈ ix.reachable b₀ :=
        fun nb hnb hr => Relation.ReflTransGen.tail (h.reached hu) ⟨hnb, hr⟩
      refine (gives_advance u).bind fun _ _ => ?_
      refine (gives_neighbors u 0).bind ?_
      rintro _ rfl
      refine (gives_scan_finds hlt hef hrows hquery hreach u hpop).bind fun b' hb' => ?_
      obtain ⟨⟨seen', hfinds⟩, -, hlists⟩ := hb'
      have hnext : Finds ix std query ef b₀ ∅ seen' b' := by
        refine ⟨hfinds.marks, hfinds.keeps, hfinds.nodup, hfinds.known, hfinds.distances,
          hfinds.start, hfinds.reached, hfinds.frontier, fun hroom x hx => ?_⟩
        rcases hfinds.explored hroom x hx with hin | rfl | hdone
        · exact Or.inl hin
        · exact Or.inr (Or.inr fun y hy => hlists y hy.1 hy.2)
        · exact Or.inr (Or.inr hdone)
      exact ih hnext

variable (acquires locks std) in
include hlt hrows hquery in
/-- **The base layer** from a node of the index, with a unit of fuel for each node. -/
theorem gives_baseLayerBeam (hb₀ : ix.inRange b₀ = true) (fuel k : ℕ) :
    Gives (baseLayerBeam (.fixed acquires ix) locks std query fuel b₀ k)
      (fun beam => beam.frontier = [] ∧
        ∃ seen, Finds ix std query (max k 16) b₀ ∅ seen beam)
      (Exits (.fixed acquires ix) locks (fuel ≤ ix.numElements)) := by
  obtain ⟨v, hv, hvn⟩ := Index.inRange_iff.mp hb₀
  refine gives_here.bind ?_
  rintro _ rfl
  refine (gives_advance b₀).bind fun _ _ => ?_
  rw [if_pos (by rw [hv]; simpa using hvn)]
  refine (gives_distanceQuery hrows hquery hb₀).bind ?_
  rintro d rfl
  have hstart : Beam.Within ix {x | ix.inRange x = true} _ :=
    Beam.within_start ix std hb₀ (ix.queryDistance D query b₀)
  have hpending := Beam.pending_start (std.push [] ⟨b₀, ix.queryDistance D query b₀⟩)
    (show asSize b₀ < ix.numElements by rwa [hv, Index.asSize_natCast])
  have hef : 0 < max k 16 := by omega
  have hin : asSize b₀ < (List.replicate ix.numElements false).length := by
    rw [hv]
    simpa using hvn
  have hmem (x : ℤ) : x ∈ ix.marked ((List.replicate ix.numElements false).set (asSize b₀) true) ↔
      x = b₀ := by
    rw [mem_marked_set hb₀ hin, or_iff_left]
    rintro ⟨-, hmark⟩
    obtain ⟨_, hfalse⟩ := List.getElem?_eq_some_iff.mp hmark
    rw [List.getElem_replicate] at hfalse
    cases hfalse
  have hfinds : Finds ix std query (max k 16) b₀ ∅ [⟨b₀, ix.queryDistance D query b₀⟩]
      { best := std.push [] ⟨b₀, ix.queryDistance D query b₀⟩
        visited := (List.replicate ix.numElements false).set (asSize b₀) true
        frontier := [b₀] } := by
    refine ⟨by simp, .single std hef _, List.nodup_singleton _, fun x => ?_, fun h hh => ?_,
      (hmem b₀).mpr rfl, fun x hx => ?_, fun u hu => ?_, fun _ x hx => ?_⟩
    · rw [hmem]
      exact List.mem_singleton
    · rw [List.mem_singleton.mp hh]
    · rw [(hmem x).mp hx]
      exact Relation.ReflTransGen.refl
    · exact (hmem u).mpr (List.mem_singleton.mp hu)
    · exact Or.inl (List.mem_singleton.mpr ((hmem x).mp hx))
  have hends : Gives (explore (.fixed acquires ix) locks std query (max k 16) fuel _)
      (fun b => b.Within ix {x | ix.inRange x = true})
      (Exits (.fixed acquires ix) locks (fuel ≤ _)) :=
    gives_explore hrows hquery (Index.closed_inRange ix 0) (max k 16) fuel hstart
  refine ((gives_explore_finds hlt hef hrows hquery fuel hfinds).and hends).mono
    (fun _ h => h.1) fun e he => ?_
  exact Exits.imp (fun hshort => hshort.trans (Nat.le_of_eq hpending)) e he.2

end Loops

/-! ## The hits -/

/-- **What the hits are** among the visited nodes `V`, and what was visited. -/
structure Found (ix : Index) (query : List UInt32) (k : ℕ) (b₀ : ℤ) (V : Set ℤ)
    (hits : List (SearchHit D)) : Prop where
  length : hits.length = min k V.ncard
  distinct : (hits.map SearchHit.nodeId).Nodup
  sorted : hits.Pairwise fun g h => g.distance ≤ h.distance
  distances : ∀ h ∈ hits, h.distance = ix.queryDistance D query h.nodeId
  visited : ∀ h ∈ hits, h.nodeId ∈ V
  /-- no visited node left out is strictly closer -/
  nearest : ∀ x ∈ V, x ∉ hits.map SearchHit.nodeId →
    ∀ h ∈ hits, h.distance ≤ ix.queryDistance D query x
  start : b₀ ∈ V
  reached : V ⊆ ix.reachable b₀
  complete : (ix.reachable b₀).ncard ≤ max k 16 → V = ix.reachable b₀

/-- Only nodes of the index can be reached from one. -/
theorem finite_reachable (hb₀ : ix.inRange b₀ = true) : (ix.reachable b₀).Finite := by
  refine ((Set.finite_lt_nat ix.numElements).image (Nat.cast : ℕ → ℤ)).subset fun x hx => ?_
  have hr : ix.inRange x = true := by
    rcases Relation.ReflTransGen.cases_tail hx with rfl | ⟨y, -, hstep⟩
    · exact hb₀
    · exact hstep.2
  obtain ⟨v, rfl, hv⟩ := Index.inRange_iff.mp hr
  exact ⟨v, hv, rfl⟩

/-- The hits of a beam whose frontier is empty. -/
theorem Finds.found (hlt : ∀ a b : D, FloatArith.lt a b = true ↔ a < b) {k : ℕ}
    (h : Finds ix std query (max k 16) b₀ ∅ seen b) (hfrontier : b.frontier = [])
    (hb₀ : ix.inRange b₀ = true) :
    Found ix query k b₀ (ix.marked b.visited) (b.hits std k) := by
  obtain ⟨hlen, hsorted, others, hperm, hothers⟩ :=
    h.keeps.take (strictWeak_less hlt) (Nat.le_max_left k 16)
  have hmem : ∀ g ∈ b.hits std k, g ∈ seen := fun g hg =>
    hperm.mem_iff.mp (List.mem_append_left others hg)
  have hcard : (ix.marked b.visited).ncard = seen.length := by
    have hset : ix.marked b.visited = ((seen.map SearchHit.nodeId).toFinset : Set ℤ) := by
      ext x
      rw [← h.known x, List.coe_toFinset]
      rfl
    rw [hset, Set.ncard_coe_finset, List.toFinset_card_of_nodup h.nodup, List.length_map]
  refine ⟨?_, ?_, ?_, ?_, ?_, ?_, h.start, h.reached, fun hroom => ?_⟩
  · rw [hcard]
    exact hlen
  · have hnodup := ((hperm.map SearchHit.nodeId).nodup_iff).mpr h.nodup
    rw [List.map_append] at hnodup
    exact hnodup.of_append_left
  · refine hsorted.imp fun {g g'} hless => ?_
    rw [SearchHit.less, ← Bool.not_eq_true, hlt, not_lt] at hless
    exact hless
  · exact fun g hg => h.distances g (hmem g hg)
  · exact fun g hg => (h.known _).mp (List.mem_map_of_mem (hmem g hg))
  · intro x hx hout g hg
    obtain ⟨y, hy, rfl⟩ := List.mem_map.mp ((h.known x).mpr hx)
    rcases List.mem_append.mp (hperm.mem_iff.mpr hy) with hhit | hother
    · exact absurd (List.mem_map_of_mem hhit) hout
    · have hless := hothers y hother g hg
      rw [SearchHit.less, ← Bool.not_eq_true, hlt, not_lt, h.distances y hy] at hless
      exact hless
  · refine subset_antisymm h.reached fun x hx => ?_
    have hfits : seen.length ≤ max k 16 := by
      rw [← hcard]
      exact (Set.ncard_le_ncard h.reached (finite_reachable hb₀)).trans hroom
    induction hx with
    | refl => exact h.start
    | tail _ hstep ih =>
      rcases h.explored hfits _ ih with hin | hskip | hdone
      · rw [hfrontier] at hin
        exact absurd hin List.not_mem_nil
      · exact absurd hskip (Set.notMem_empty _)
      · exact hdone _ hstep

end BaseLayer

/-- **Search**: it times out at a lock, or returns the nearest of what the base layer visited. -/
theorem searchKnn_found {D : Type} [FloatArith D] [LinearOrder D]
    (hlt : ∀ a b : D, FloatArith.lt a b = true ↔ a < b) {ix : Index}
    (hloaded : ix.isLoaded = true) (hrows : ix.words.length = ix.numElements * ix.dim)
    {query : List UInt32} (hquery : query.length = ix.dim) (acquires : ℕ → Bool)
    (locks : LockManager) (std : StdOrder (SearchHit.less D)) {fuel : ℕ}
    (hfuel : ix.numElements < fuel) {k : ℕ} (hk : 1 ≤ k) (entryNode : ℤ) :
    ((∃ t, acquires t = false) ∧ ∃ stripe,
      (searchKnn (.fixed acquires ix) locks std (some query) fuel k entryNode start).1 =
        .error (.native (sharedTimeout locks stripe))) ∨
    ∃ b s₁ beam s₂,
      handOn (.fixed acquires ix) locks D query fuel entryNode start = (.ok b, s₁) ∧
      baseLayerBeam (.fixed acquires ix) locks std query fuel b k s₁ = (.ok beam, s₂) ∧
      (searchKnn (.fixed acquires ix) locks std (some query) fuel k entryNode start).1 =
        .ok (beam.hits std k) ∧
      Found ix query k b (ix.marked beam.visited) (beam.hits std k) := by
  have hquery' : ix.dim ≤ query.length := Nat.le_of_eq hquery.symm
  have hdescent := gives_handOn acquires locks hlt hrows hquery' hloaded hfuel entryNode
  rw [searchKnn_fst locks hloaded std query fuel (Nat.one_le_iff_ne_zero.mp hk) entryNode]
  have htimeout : ∀ {e : SearchExit} {short : Prop}, ¬short →
      Exits (.fixed acquires ix) locks short e →
      (∃ t, acquires t = false) ∧ ∃ stripe, e = .native (sharedTimeout locks stripe) := by
    intro e short hshort he
    cases e with
    | native e =>
      obtain ⟨⟨stripe, rfl⟩, hfail⟩ := he
      exact ⟨hfail, stripe, rfl⟩
    | undefined => exact he.elim
    | outOfFuel => exact absurd he hshort
  rcases hdescent start trivial with ⟨b, s₁, hhand, hb⟩ | ⟨e, s₁, hhand, he⟩
  · rw [Act.bind_ok hhand, baseLayerSearchLocked_eq]
    have hbase := gives_baseLayerBeam acquires locks std hlt hrows hquery' hb fuel k
    rcases hbase s₁ trivial with ⟨beam, s₂, hbeam, hfrontier, seen, hfinds⟩ | ⟨e, s₂, hbeam, he⟩
    · rw [Act.bind_ok hbeam]
      exact Or.inr ⟨b, s₁, beam, s₂, hhand, hbeam, rfl, hfinds.found hlt hfrontier hb⟩
    · obtain ⟨hfail, stripe, rfl⟩ := htimeout (Nat.not_le_of_lt hfuel) he
      rw [Act.bind_error hbeam]
      exact Or.inl ⟨hfail, stripe, rfl⟩
  · obtain ⟨hfail, stripe, rfl⟩ := htimeout not_false he
    rw [Act.bind_error hhand]
    exact Or.inl ⟨hfail, stripe, rfl⟩

/-- Two nodes, `1.0` and `3.0`, that lead to each other. -/
def twoNodes : Index :=
  ⟨some ⟨[1065353216, 1077936128], by decide⟩, true, 1, 2, 0, [[[1]], [[0]]]⟩

theorem searchKnn_found_twoNodes : ∃ b s₁ beam s₂,
    handOn (.fixed (fun _ => true) twoNodes) (.ofPool 64 50) ℚ [1073741824] 3 (-1) start =
      (.ok b, s₁) ∧
    baseLayerBeam (.fixed (fun _ => true) twoNodes) (.ofPool 64 50)
      (.reference (SearchHit.less ℚ)) [1073741824] 3 b 1 s₁ = (.ok beam, s₂) ∧
    (searchKnn (.fixed (fun _ => true) twoNodes) (.ofPool 64 50) (.reference (SearchHit.less ℚ))
      (some [1073741824]) 3 1 (-1) start).1 =
        .ok (beam.hits (.reference (SearchHit.less ℚ)) 1) ∧
    Found twoNodes [1073741824] 1 b (twoNodes.marked beam.visited)
      (beam.hits (.reference (SearchHit.less ℚ)) 1) :=
  (searchKnn_found (fun _ _ => decide_eq_true_iff) rfl rfl rfl (fun _ => true) (.ofPool 64 50)
    (.reference (SearchHit.less ℚ)) (by decide) le_rfl (-1)).resolve_left fun h => by
      obtain ⟨t, ht⟩ := h.1
      cases ht

end Walk

end Unlearning
