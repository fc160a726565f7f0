import Unlearning.Calls
import Unlearning.EraseRetry

/-!
# Queries across the binding and the API (`src/healer.cpp`, `api/main.py`)

`POST /search` and `proxy_search_knn` pass on a query of any length but zero, and the distance loop
runs to the dimension of the index. A query that is too short is read beyond its end at the first
distance. That distance is that of the entry, once the stripe of the entry has been acquired twice
(`Index.EntersEntry`): for the number of its layers, and for the cursor.
-/

namespace Unlearning

/-! ## The native search -/

/-- The components of the query that the distances of a search read. -/
def componentsRead (dim : ℕ) (trace : List SearchEvent) : List ℕ :=
  trace.flatMap fun
    | .readVector _ => List.range dim
    | _ => []

/-- `proxy_search_knn` -/
def Walk.proxySearchKnn (env : SearchEnv) (locks : LockManager) {D : Type} [FloatArith D]
    (std : StdOrder (SearchHit.less D)) (query : List UInt32) (fuel k : ℕ) (entryNode : ℤ) :
    Walk (List (SearchHit D)) :=
  if query.isEmpty then Act.raise (.native ⟨.invalidArgument, "search_knn: empty query"⟩)
  else searchKnn env locks std (some query) fuel k entryNode

/-! ## The endpoint -/

/-- `SearchRequest`; the query is the array that NumPy makes of it. -/
structure SearchRequest where
  query : List UInt32
  k : ℕ
  entryNode : ℤ
  k_pos : 1 ≤ k
  k_le : k ≤ 1000

/-- How the endpoint ends if it does not return: an `HTTPException`, or as the native search. -/
inductive EndpointExit : Type where
  | http (status : ℕ) (detail : String)
  | undefined
  | outOfFuel

/-- The `except` clauses of `search`; of the native exceptions `std::invalid_argument` is a
`ValueError`. -/
def SearchExit.toEndpoint : SearchExit → EndpointExit
  | .native ⟨.lockTimeout, what⟩ => .http 503 ("lock contention after retries: " ++ what)
  | .native ⟨.invalidArgument, what⟩ => .http 400 what
  | .native ⟨_, what⟩ => .http 500 ("native search failed: " ++ what)
  | .undefined => .undefined
  | .outOfFuel => .outOfFuel

/-- `LockContentionError` -/
def SearchExit.isContention : SearchExit → Bool
  | .native e => e.isContention
  | _ => false

section Endpoint

variable {D : Type} [FloatArith D] (locks : LockManager) (std : StdOrder (SearchHit.less D))

/-- `_search`, in attempt `j`; what the attempts do is kept. -/
def searchAttempt (acquires : ℕ → ℕ → Bool) (ix : Index) (fuel : ℕ) (body : SearchRequest)
    (j : ℕ) (trace : List SearchEvent) :
    Except SearchExit (List (SearchHit D)) × List SearchEvent :=
  let call := Walk.proxySearchKnn (.fixed (acquires j) ix) locks std body.query fuel body.k
    body.entryNode Walk.start
  (call.1, trace ++ call.2.trace)

/-- `search`. A number that is no label is refused by the binding with a `TypeError`, of text
`refusal`. -/
def searchEndpoint (acquires : ℕ → ℕ → Bool) (ix : Index) (maxAttempts : ℤ) (refusal : String)
    (fuel : ℕ) (body : SearchRequest) :
    Except EndpointExit (List (SearchHit D)) × List SearchEvent :=
  if !ix.isLoaded then (.error (.http 409 "no index loaded"), [])
  else if body.entryNode < -2 ^ 63 ∨ 2 ^ 63 ≤ body.entryNode then
    (.error (.http 500 ("native search failed: " ++ refusal)), [])
  else
    let result := withLockRetry SearchExit.isContention
      (searchAttempt locks std acquires ix fuel body) maxAttempts []
    (result.1.mapError SearchExit.toEndpoint, result.2)

end Endpoint

/-! ## The first distance -/

/-- Both acquisitions of the stripe of the entry succeed. Before the second a tick more has passed
if the entry has layers to count. -/
def Index.entersEntry (ix : Index) (acquires : ℕ → Bool) (entryNode : ℤ) : Bool :=
  acquires 1 &&
    acquires (if asSize (ix.searchEntry entryNode) < ix.adjacency.length then 4 else 3)

namespace Walk

section Overrun

variable {acquires : ℕ → Bool} {ix : Index} {locks : LockManager} {c : Cursor} {t : ℕ}

/-- The clock and the cursor of a search. -/
def Shows (t : ℕ) (c : Cursor) (s : SearchState) : Prop := s.clock = t ∧ s.cursor = c

/-- A vector has been read. -/
def HasRead (s : SearchState) : Prop := ∃ x, SearchEvent.readVector x ∈ s.trace

/-- A stripe timed out. -/
def TimedOut (locks : LockManager) (e : SearchExit) : Prop :=
  ∃ stripe, e = .native (sharedTimeout locks stripe)

theorem HasRead.log {s : SearchState} (h : HasRead s) (e : SearchEvent) : HasRead (s.log e) := by
  obtain ⟨x, hx⟩ := h
  exact ⟨x, List.mem_append_left [e] hx⟩

theorem HasRead.release {s : SearchState} (h : HasRead s) : HasRead (Walk.release s) := by
  rw [Walk.release, dropGuard]
  split
  · exact h.log _
  · exact h

/-- An acquisition at tick `t`. -/
theorem triple_sharedGuard_at (stripe : ℕ) :
    Act.Triple (Shows t c) (sharedGuard (.fixed acquires ix) locks stripe)
      (fun _ s => acquires t = true ∧ Shows (t + 1) c s)
      fun e _ => acquires t = false ∧ TimedOut locks e := by
  rintro s ⟨rfl, rfl⟩
  rw [sharedGuard, SearchEnv.fixed]
  split
  · rename_i hok
    exact Or.inl ⟨_, _, rfl, hok, rfl, rfl⟩
  · rename_i hfail
    exact Or.inr ⟨_, _, rfl, by simpa using hfail, stripe, rfl⟩

/-- The layers of a node are counted in a tick, or at once if it has none. -/
theorem triple_layers_at (node : ℤ) :
    Act.Triple (Shows t c) (layers (.fixed acquires ix) node)
      (fun _ => Shows (if asSize node < ix.adjacency.length then t + 1 else t) c)
      fun _ _ => False := by
  refine (Act.triple_reads (Q := fun a s => ix = a ∧ Shows t c s) fun s hs => ⟨rfl, hs⟩).bind
    fun a => ?_
  rintro s ⟨rfl, rfl, rfl⟩
  by_cases hlt : asSize node < ix.adjacency.length
  · rw [if_pos hlt, if_pos hlt]
    refine Or.inl ⟨ix.adjacency[asSize node].length, s.log (.readLayers node), ?_, rfl, rfl⟩
    simp [look, SearchEnv.fixed, hlt]
  · rw [if_neg hlt, if_neg hlt]
    exact Or.inl ⟨0, s, rfl, rfl, rfl⟩

variable {D : Type} [FloatArith D] {std : StdOrder (SearchHit.less D)} {query : List UInt32}
  (hover : query.length < ix.dim)

include hover in
/-- A query that is too short is read beyond its end. -/
theorem triple_distanceQuery_over {P : SearchState → Prop} (node : ℤ) :
    Act.Triple P (distanceQuery (.fixed acquires ix) D query node) (fun _ _ => False)
      fun e s => e = .undefined ∧ HasRead s := by
  intro s _
  have hout : ¬(ix.dim ≤ query.length ∧ asSize node * ix.dim + ix.dim ≤ ix.words.length) :=
    fun h => absurd h.1 (Nat.not_le_of_lt hover)
  refine Or.inr ⟨.undefined, s.log (.readVector node), ?_, rfl, node,
    List.mem_append_right s.trace (List.mem_singleton_self _)⟩
  rw [distanceQuery, look, SearchEnv.fixed]
  dsimp only
  rw [if_neg hout]

/-- The number of layers is read under a guard of its own, which a tick drops. -/
theorem triple_topLayer_at (curr : ℤ) :
    Act.Triple (Shows t c) (topLayer (.fixed acquires ix) locks curr)
      (fun _ s => acquires t = true ∧
        Shows (if asSize curr < ix.adjacency.length then t + 3 else t + 2) c s)
      fun e _ => acquires t = false ∧ TimedOut locks e := by
  refine (triple_sharedGuard_at (locks.stripeOf curr)).bind fun stripe => ?_
  have hcount : Act.Triple
      (fun s => acquires t = true ∧ Shows (t + 1) c s)
      ((layers (.fixed acquires ix) curr).withDestructor
        (SearchState.log (.unlocked (.stripe stripe))))
      (fun _ s => acquires t = true ∧
        Shows (if asSize curr < ix.adjacency.length then t + 3 else t + 2) c s)
      fun e _ => acquires t = false ∧ TimedOut locks e := by
    intro s hs
    refine Act.Triple.withDestructor (triple_layers_at curr) (fun _ s' hs' => ?_)
      (fun _ _ hs' => hs'.elim) s hs.2
    refine ⟨hs.1, ?_, hs'.2⟩
    have hclock := hs'.1
    change s'.clock + 1 = _
    rw [hclock]
    split <;> rfl
  exact hcount.bind fun _ => Act.triple_pure fun s hs => hs

/-- The cursor takes the stripe of the entry. -/
theorem triple_enter_at (curr : ℤ) :
    Act.Triple (Shows t ⟨none, -1⟩) (enter (.fixed acquires ix) locks curr)
      (fun _ s => acquires t = true ∧ s.cursor.guard.isSome = true ∧ s.cursor.node = curr)
      fun e _ => acquires t = false ∧ TimedOut locks e := by
  refine (Act.triple_alter (Q := fun _ => Shows t ⟨none, -1⟩) ?_).bind fun _ => ?_
  · rintro s ⟨hclock, hcursor⟩
    rw [Walk.release, dropGuard, hcursor]
    exact ⟨hclock, rfl⟩
  refine (triple_sharedGuard_at _).bind fun stripe => ?_
  refine (Act.triple_alter (Q := fun _ s => acquires t = true ∧ s.cursor.guard.isSome = true ∧
    s.cursor.node = curr) fun s hs => ⟨hs.1, rfl, rfl⟩).bind fun _ => ?_
  exact Act.triple_alter fun s hs => hs

/-- On its own node the cursor does not move. -/
theorem triple_advance_same (curr : ℤ) :
    Act.Triple (fun s => s.cursor.guard.isSome = true ∧ s.cursor.node = curr)
      (advance (.fixed acquires ix) locks curr) (fun _ _ => True) fun _ _ => False := by
  refine (Act.triple_reads (Q := fun (a : Cursor) _ => a.guard.isSome = true ∧ a.node = curr)
    fun _ hs => hs).bind fun a => ?_
  refine (Act.triple_alter (Q := fun _ _ => a.guard.isSome = true ∧ a.node = curr)
    fun _ hs => hs).bind fun _ => ?_
  refine Act.Triple.bind (Q := fun _ _ => True) ?_ fun _ => Act.triple_alter fun _ _ => trivial
  intro s hs
  rw [handOver, if_pos ⟨hs.1, by rw [hs.2]⟩]
  exact Or.inl ⟨(), _, rfl, trivial⟩

include hover in
/-- The first distance is that of the entry, at its top layer. -/
theorem triple_descent_over {curr : ℤ} (hr : ix.inRange curr = true) (top fuel k : ℕ) :
    Act.Triple (fun s => s.cursor.guard.isSome = true ∧ s.cursor.node = curr)
      (descend (.fixed acquires ix) locks D query (fuel + 1) top curr >>= fun curr =>
        baseLayerSearchLocked (.fixed acquires ix) locks std query (fuel + 1) curr k)
      (fun _ _ => False) fun e s => e = .undefined ∧ HasRead s := by
  cases top with
  | zero =>
    refine (Act.triple_pure (Q := fun a (s : SearchState) => a = curr ∧
      s.cursor.guard.isSome = true ∧ s.cursor.node = curr) fun s hs => ⟨rfl, hs⟩).bind fun a => ?_
    intro s hs
    obtain ⟨rfl, hcursor⟩ := hs
    obtain ⟨v, hv, hlt⟩ := Index.inRange_iff.mp hr
    have hin : asSize a < ix.numElements := by
      rw [hv, Index.asSize_natCast]
      exact hlt
    refine Act.Triple.bind (Q := fun b (s : SearchState) => ix = b ∧ s.cursor.guard.isSome = true ∧
      s.cursor.node = a) (Act.triple_reads fun s hs => ⟨rfl, hs⟩) (fun b => ?_) s hcursor
    rintro s ⟨rfl, hcursor⟩
    refine Act.Triple.bind ((triple_advance_same a).mono (fun _ h => h) (fun _ _ h => h)
      fun _ _ h => h.elim) (fun _ => ?_) s hcursor
    rw [if_pos hin]
    exact (triple_distanceQuery_over hover a).bind fun d s hs => hs.elim
  | succ lc =>
    refine Act.Triple.bind (Q := fun _ _ => False) ?_ fun a s hs => hs.elim
    refine Act.Triple.bind (Q := fun _ _ => False) ?_ fun a s hs => hs.elim
    exact (triple_distanceQuery_over hover curr).bind fun d s hs => hs.elim

variable (acquires locks std) in
include hover in
/-- **A query that is too short**: the search runs over its end, unless it times out before. -/
theorem triple_searchKnn_over (hloaded : ix.isLoaded = true) {k : ℕ} (hk : k ≠ 0) (fuel : ℕ)
    (entryNode : ℤ) :
    Act.Triple (· = start)
      (searchKnn (.fixed acquires ix) locks std (some query) (fuel + 1) k entryNode)
      (fun _ _ => False) fun e s =>
        if ix.entersEntry acquires entryNode then e = .undefined ∧ HasRead s
        else TimedOut locks e := by
  have hr := Index.inRange_searchEntry hloaded entryNode
  have hloaded' : ¬(!ix.isLoaded) = true := by simp [hloaded]
  rw [searchKnn, if_neg hk]
  refine (Act.triple_alter (Q := fun _ => Shows 1 ⟨none, -1⟩) ?_).bind fun _ => ?_
  · rintro s rfl
    exact ⟨rfl, rfl⟩
  refine Act.Triple.withDestructor (Q := fun _ _ => False) (R := fun e s =>
    if ix.entersEntry acquires entryNode then e = .undefined ∧ HasRead s
    else TimedOut locks e) ?_ (fun _ _ h => h) fun e s h => ?_
  · refine (Act.triple_reads (Q := fun b s => ix = b ∧ Shows 1 ⟨none, -1⟩ s)
      fun s hs => ⟨rfl, hs⟩).bind fun b => ?_
    rintro s ⟨rfl, hs⟩
    rw [if_neg hloaded']
    refine Act.Triple.bind ((triple_topLayer_at (ix.searchEntry entryNode)).mono (fun _ h => h)
      (fun _ _ h => h) fun e s h => ?_) (fun top => ?_) s hs
    · rw [Index.entersEntry, h.1]
      exact h.2
    · -- the second acquisition is at tick 4, or at tick 3
      rintro s ⟨hfirst, hs⟩
      refine Act.Triple.withDestructor (Q := fun _ _ => False) (R := fun e s =>
        (acquires (if asSize (ix.searchEntry entryNode) < ix.adjacency.length then 4 else 3) =
            true ∧ e = .undefined ∧ HasRead s) ∨
          acquires (if asSize (ix.searchEntry entryNode) < ix.adjacency.length then 4 else 3) =
            false ∧ TimedOut locks e)
        (Act.Triple.bind ((triple_enter_at _).mono (fun _ h => h) (fun _ _ h => h)
          fun e s h => Or.inr h) fun _ => ?_) (fun _ _ h => h) (fun e s h => ?_) s hs
      · rintro s ⟨hsecond, hcursor⟩
        exact ((triple_descent_over hover hr top fuel k).mono (fun _ h => h) (fun _ _ h => h)
          fun e s h => Or.inl ⟨hsecond, h⟩) s hcursor
      · rw [Index.entersEntry, hfirst, Bool.true_and]
        rcases h with ⟨hsecond, hundef, hread⟩ | ⟨hsecond, htimed⟩
        · rw [hsecond]
          exact ⟨hundef, hread.release⟩
        · rw [hsecond]
          exact htimed
  · split at h
    · rw [if_pos ‹_›]
      exact ⟨h.1, h.2.log _⟩
    · rw [if_neg ‹_›]
      exact h

end Overrun

end Walk

/-! ## Reads within the query -/

section Safe

variable {D : Type} [FloatArith D] {α : Type} {ix : Index} {locks : LockManager}
  {std : StdOrder (SearchHit.less D)} {query : List UInt32} {entryNode : ℤ} {fuel k : ℕ}

/-- The native call raises, or reads the query within its length. -/
def SearchExit.Safe (ix : Index) (query : List UInt32)
    (result : Except SearchExit α × SearchState) : Prop :=
  (∃ e, result.1 = .error (.native e)) ∨
    ∀ i ∈ componentsRead ix.dim result.2.trace, i < query.length

/-- The endpoint raises, or reads the query within its length. -/
def EndpointExit.Safe (ix : Index) (query : List UInt32)
    (result : Except EndpointExit α × List SearchEvent) : Prop :=
  (∃ status detail, result.1 = .error (.http status detail)) ∨
    ∀ i ∈ componentsRead ix.dim result.2, i < query.length

theorem componentsRead_lt {dim n : ℕ} (h : dim ≤ n) (trace : List SearchEvent) :
    ∀ i ∈ componentsRead dim trace, i < n := by
  intro i hi
  obtain ⟨e, -, hread⟩ := List.mem_flatMap.mp hi
  split at hread
  · exact (List.mem_range.mp hread).trans_le h
  · cases hread

/-- A distance reads up to the dimension. -/
theorem mem_componentsRead {dim n : ℕ} (h : n < dim) {trace : List SearchEvent} {x : ℤ}
    (hx : .readVector x ∈ trace) : n ∈ componentsRead dim trace :=
  List.mem_flatMap.mpr ⟨_, hx, List.mem_range.mpr h⟩

/-- A search of no index raises. -/
theorem searchKnn_unloaded {acquires : ℕ → Bool} (hloaded : ix.isLoaded = false) (hk : k ≠ 0) :
    ∃ e, (Walk.searchKnn (.fixed acquires ix) locks std (some query) fuel k entryNode
      Walk.start).1 = .error (.native e) := by
  have hraise : Act.Triple (· = Walk.start)
      (Walk.searchKnn (.fixed acquires ix) locks std (some query) fuel k entryNode)
      (fun _ _ => False) fun e _ => ∃ e', e = .native e' := by
    rw [Walk.searchKnn, if_neg hk]
    refine (Act.triple_alter (Q := fun _ _ => True) fun _ _ => trivial).bind fun _ => ?_
    refine Act.Triple.withDestructor (Q := fun _ _ => False) (R := fun e _ => ∃ e', e = .native e')
      ?_ (fun _ _ h => h) fun _ _ h => h
    refine (Act.triple_reads (Q := fun b _ => ix = b) fun _ _ => rfl).bind fun b => ?_
    rintro s rfl
    rw [if_pos (by simp [hloaded])]
    exact Or.inr ⟨_, _, rfl, _, rfl⟩
  rcases hraise Walk.start rfl with ⟨_, _, _, hfalse⟩ | ⟨_, _, heq, e', rfl⟩
  · exact hfalse.elim
  · exact ⟨e', by rw [heq]⟩

variable (locks std fuel entryNode) in
/-- How a search of a query that is too short ends. -/
theorem searchKnn_over (acquires : ℕ → Bool) (hover : query.length < ix.dim)
    (hloaded : ix.isLoaded = true) (hk : k ≠ 0) :
    ∃ e s, Walk.searchKnn (.fixed acquires ix) locks std (some query) (fuel + 1) k entryNode
        Walk.start = (.error e, s) ∧
      if ix.entersEntry acquires entryNode then e = .undefined ∧ Walk.HasRead s
      else Walk.TimedOut locks e := by
  have hends := Walk.triple_searchKnn_over acquires locks std hover hloaded hk fuel entryNode
  rcases hends Walk.start rfl with ⟨_, _, _, hfalse⟩ | hends
  · exact hfalse.elim
  · exact hends

/-- **The binding** passes on a query that is read within its length exactly if it is long enough,
or there is no distance. -/
theorem proxySearchKnn_safe_iff {acquires : ℕ → Bool} :
    SearchExit.Safe ix query (Walk.proxySearchKnn (.fixed acquires ix) locks std query (fuel + 1) k
        entryNode Walk.start) ↔
      ix.dim ≤ query.length ∨ query = [] ∨ k = 0 ∨ ix.isLoaded = false ∨
        ix.entersEntry acquires entryNode = false := by
  constructor
  · intro hsafe
    by_contra hcond
    push Not at hcond
    obtain ⟨hover, hquery, hk, hloaded, henters⟩ := hcond
    obtain ⟨e, s, heq, hends⟩ := searchKnn_over locks std entryNode fuel acquires hover
      (by simpa using hloaded) hk
    rw [if_pos (by simpa using henters)] at hends
    obtain ⟨rfl, x, hx⟩ := hends
    rw [Walk.proxySearchKnn, if_neg (by simpa using hquery), heq] at hsafe
    rcases hsafe with ⟨e, he⟩ | hreads
    · cases he
    · exact absurd (hreads _ (mem_componentsRead hover hx)) (Nat.lt_irrefl _)
  · intro hcond
    by_cases hlen : ix.dim ≤ query.length
    · exact Or.inr (componentsRead_lt hlen _)
    rw [Walk.proxySearchKnn]
    by_cases hquery : query = []
    · rw [if_pos (List.isEmpty_iff.mpr hquery)]
      exact Or.inl ⟨_, rfl⟩
    rw [if_neg fun h => hquery (List.isEmpty_iff.mp h)]
    by_cases hk : k = 0
    · rw [Walk.searchKnn, if_pos hk]
      exact Or.inr fun i hi => absurd hi List.not_mem_nil
    by_cases hloaded : ix.isLoaded = false
    · exact Or.inl (searchKnn_unloaded hloaded hk)
    · have hlocks := ((hcond.resolve_left hlen).resolve_left hquery).resolve_left hk
      have henters := hlocks.resolve_left hloaded
      obtain ⟨e, s, heq, hends⟩ := searchKnn_over locks std entryNode fuel acquires
        (Nat.lt_of_not_le hlen) (by simpa using hloaded) hk
      rw [if_neg (by simp [henters])] at hends
      obtain ⟨stripe, rfl⟩ := hends
      exact Or.inl ⟨_, congrArg Prod.fst heq⟩

/-- Any other exception ends the attempts. -/
theorem lockAttempts_of_error {S E β : Type} {isContention : E → Bool}
    {fn : ℕ → S → Except E β × S} {left j : ℕ} {s s' : S} {e : E} (h : fn j s = (.error e, s'))
    (he : isContention e = false) : lockAttempts isContention fn left j s = (.error e, s') := by
  cases left with
  | zero => exact h
  | succ left =>
    rw [lockAttempts, h]
    simp [he]

variable (locks std fuel) in
/-- **An attempt** of a query that is too short. -/
theorem searchAttempt_over (acquires : ℕ → ℕ → Bool) {body : SearchRequest}
    (hover : body.query.length < ix.dim) (hloaded : ix.isLoaded = true) (hquery : body.query ≠ [])
    (j : ℕ) (trace : List SearchEvent) :
    ∃ e trace', searchAttempt locks std acquires ix (fuel + 1) body j trace = (.error e, trace') ∧
      if ix.entersEntry (acquires j) body.entryNode then
        e = .undefined ∧ ∃ x, SearchEvent.readVector x ∈ trace'
      else Walk.TimedOut locks e := by
  obtain ⟨e, s, heq, hends⟩ := searchKnn_over locks std body.entryNode fuel (acquires j) hover
    hloaded (Nat.one_le_iff_ne_zero.mp body.k_pos)
  refine ⟨e, trace ++ s.trace, ?_, ?_⟩
  · rw [searchAttempt, Walk.proxySearchKnn, if_neg (by simpa using hquery), heq]
  · split at hends
    · rw [if_pos ‹_›]
      obtain ⟨hundef, x, hx⟩ := hends
      exact ⟨hundef, x, List.mem_append_right trace hx⟩
    · rw [if_neg ‹_›]
      exact hends

variable (locks std fuel) in
/-- **The attempts**: the first that gets to the entry runs over the query, and if none does, the
last one's timeout is what is left. -/
theorem lockAttempts_over (acquires : ℕ → ℕ → Bool) {body : SearchRequest}
    (hover : body.query.length < ix.dim) (hloaded : ix.isLoaded = true) (hquery : body.query ≠ [])
    (left j : ℕ) (trace : List SearchEvent) :
    ∃ e trace', lockAttempts SearchExit.isContention
        (searchAttempt locks std acquires ix (fuel + 1) body) left j trace = (.error e, trace') ∧
      ((∃ i ≤ left, ix.entersEntry (acquires (j + i)) body.entryNode = true) →
        e = .undefined ∧ ∃ x, SearchEvent.readVector x ∈ trace') ∧
      ((∀ i ≤ left, ix.entersEntry (acquires (j + i)) body.entryNode = false) →
        Walk.TimedOut locks e) := by
  induction left generalizing j trace with
  | zero =>
    obtain ⟨e, trace', heq, hends⟩ := searchAttempt_over locks std fuel acquires hover hloaded
      hquery j trace
    refine ⟨e, trace', heq, ?_, fun hnone => ?_⟩
    · rintro ⟨i, hi, henters⟩
      obtain rfl := Nat.le_zero.mp hi
      rw [Nat.add_zero] at henters
      rwa [if_pos henters] at hends
    · rwa [if_neg (by simpa using hnone 0 le_rfl)] at hends
  | succ left ih =>
    obtain ⟨e, trace', heq, hends⟩ := searchAttempt_over locks std fuel acquires hover hloaded
      hquery j trace
    rw [lockAttempts, heq]
    by_cases henters : ix.entersEntry (acquires j) body.entryNode = true
    · rw [if_pos henters] at hends
      obtain ⟨rfl, hread⟩ := hends
      refine ⟨_, trace', rfl, fun _ => ⟨rfl, hread⟩, fun hnone => ?_⟩
      exact absurd (hnone 0 (Nat.zero_le _)) (by simp [henters])
    · rw [if_neg henters] at hends
      obtain ⟨stripe, rfl⟩ := hends
      obtain ⟨e, trace'', hrest, hsome, hnone⟩ := ih (j + 1) trace'
      refine ⟨e, trace'', hrest, ?_, fun hall => hnone fun i hi => ?_⟩
      · rintro ⟨i, hi, hat⟩
        cases i with
        | zero => exact absurd hat henters
        | succ i =>
          refine hsome ⟨i, Nat.le_of_succ_le_succ hi, ?_⟩
          rwa [Nat.add_right_comm, Nat.add_assoc]
      · have hnext := hall (i + 1) (Nat.succ_le_succ hi)
        rwa [Nat.add_right_comm, Nat.add_assoc]

/-- **The endpoint** passes on a query that is read within its length exactly if it is long enough,
or there is no distance. -/
theorem searchEndpoint_safe_iff {acquires : ℕ → ℕ → Bool} {body : SearchRequest} {maxAttempts : ℤ}
    {refusal : String} :
    EndpointExit.Safe ix body.query
        (searchEndpoint locks std acquires ix maxAttempts refusal (fuel + 1) body) ↔
      ix.dim ≤ body.query.length ∨ body.query = [] ∨ ix.isLoaded = false ∨
        (body.entryNode < -2 ^ 63 ∨ 2 ^ 63 ≤ body.entryNode) ∨
        ∀ j : ℕ, (j : ℤ) < max 1 maxAttempts →
          ix.entersEntry (acquires j) body.entryNode = false := by
  have hcount (i : ℕ) : i ≤ (if maxAttempts < 1 then 1 else maxAttempts).toNat - 1 ↔
      (i : ℤ) < max 1 maxAttempts := by
    split <;> omega
  by_cases hlen : ix.dim ≤ body.query.length
  · exact iff_of_true (Or.inr (componentsRead_lt hlen _)) (Or.inl hlen)
  have hover := Nat.lt_of_not_le hlen
  rw [searchEndpoint]
  by_cases hloaded : ix.isLoaded = true
  case neg =>
    rw [if_pos (by simpa using hloaded)]
    exact iff_of_true (Or.inl ⟨_, _, rfl⟩) (Or.inr (Or.inr (Or.inl (by simpa using hloaded))))
  rw [if_neg (by simp [hloaded])]
  by_cases hlabel : body.entryNode < -2 ^ 63 ∨ 2 ^ 63 ≤ body.entryNode
  · rw [if_pos hlabel]
    exact iff_of_true (Or.inl ⟨_, _, rfl⟩) (Or.inr (Or.inr (Or.inr (Or.inl hlabel))))
  rw [if_neg hlabel, withLockRetry]
  by_cases hquery : body.query = []
  · have hempty : searchAttempt locks std acquires ix (fuel + 1) body 0 [] =
        (.error (.native ⟨.invalidArgument, "search_knn: empty query"⟩), []) := by
      rw [searchAttempt, Walk.proxySearchKnn, if_pos (List.isEmpty_iff.mpr hquery)]
      rfl
    rw [lockAttempts_of_error hempty rfl]
    exact iff_of_true (Or.inl ⟨_, _, rfl⟩) (Or.inr (Or.inl hquery))
  obtain ⟨e, trace, heq, hsome, hnone⟩ := lockAttempts_over locks std fuel acquires hover hloaded
    hquery ((if maxAttempts < 1 then 1 else maxAttempts).toNat - 1) 0 []
  rw [heq]
  simp only [Nat.zero_add, hcount] at hsome hnone
  constructor
  · intro hsafe
    refine Or.inr (Or.inr (Or.inr (Or.inr fun j hj => ?_)))
    by_contra henters
    obtain ⟨rfl, x, hx⟩ := hsome ⟨j, hj, by simpa using henters⟩
    rcases hsafe with ⟨status, detail, he⟩ | hreads
    · cases he
    · exact absurd (hreads _ (mem_componentsRead hover hx)) (Nat.lt_irrefl _)
  · intro hcond
    have hall := ((((hcond.resolve_left hlen).resolve_left hquery).resolve_left
      (by simp [hloaded])).resolve_left hlabel)
    obtain ⟨stripe, rfl⟩ := hnone hall
    exact Or.inl ⟨_, _, rfl⟩

/-- **Queries**: a search raises or reads its query within its length, exactly if the query is as
long as the index is wide, or no distance is computed. -/
theorem search_safe_iff (ix : Index) (locks : LockManager) (std : StdOrder (SearchHit.less D))
    (fuel : ℕ) :
    (∀ (acquires : ℕ → Bool) (query : List UInt32) (k : ℕ) (entryNode : ℤ),
      SearchExit.Safe ix query (Walk.proxySearchKnn (.fixed acquires ix) locks std query (fuel + 1)
          k entryNode Walk.start) ↔
        ix.dim ≤ query.length ∨ query = [] ∨ k = 0 ∨ ix.isLoaded = false ∨
          ix.entersEntry acquires entryNode = false) ∧
    ∀ (acquires : ℕ → ℕ → Bool) (body : SearchRequest) (maxAttempts : ℤ) (refusal : String),
      EndpointExit.Safe ix body.query
          (searchEndpoint locks std acquires ix maxAttempts refusal (fuel + 1) body) ↔
        ix.dim ≤ body.query.length ∨ body.query = [] ∨ ix.isLoaded = false ∨
          (body.entryNode < -2 ^ 63 ∨ 2 ^ 63 ≤ body.entryNode) ∨
          ∀ j : ℕ, (j : ℤ) < max 1 maxAttempts →
            ix.entersEntry (acquires j) body.entryNode = false :=
  ⟨fun _ _ _ _ => proxySearchKnn_safe_iff, fun _ _ _ _ => searchEndpoint_safe_iff⟩

/-- One node of dimension two. -/
def oneWideNode : Index :=
  ⟨some ⟨[1077936128, 1065353216], by decide⟩, true, 2, 1, 0, [[[]]]⟩

/-- A query of one component. -/
def shortQuery : SearchRequest := ⟨[1065353216], 1, -1, le_rfl, by decide⟩

theorem shortQuery_runs_over :
    ¬SearchExit.Safe oneWideNode shortQuery.query
      (Walk.proxySearchKnn (.fixed (fun _ => true) oneWideNode) (.ofPool 64 50)
        (.reference (SearchHit.less Float)) shortQuery.query 2 shortQuery.k shortQuery.entryNode
        Walk.start) ∧
    ¬EndpointExit.Safe oneWideNode shortQuery.query
      (searchEndpoint (.ofPool 64 50) (.reference (SearchHit.less Float)) (fun _ _ => true)
        oneWideNode 5 "" 2 shortQuery) := by
  have henters : oneWideNode.entersEntry (fun _ => true) shortQuery.entryNode = true := rfl
  constructor
  · rw [proxySearchKnn_safe_iff, henters]
    rintro (hlen | hquery | hk | hloaded | hlock)
    · exact absurd hlen (by decide)
    · cases hquery
    · cases hk
    · cases hloaded
    · cases hlock
  · rw [searchEndpoint_safe_iff]
    rintro (hlen | hquery | hloaded | hlabel | hlock)
    · exact absurd hlen (by decide)
    · cases hquery
    · cases hloaded
    · norm_num [shortQuery] at hlabel
    · exact absurd (hlock 0 (by decide)) (by rw [henters]; decide)

end Safe

end Unlearning
