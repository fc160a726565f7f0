import Unlearning.Frame
import Unlearning.MatrixAdapters

/-!
# A matrix adapter is a map

The registry, the rows and the deleted labels together say which vector an id has:
`MatrixAdapter.contents` reads a `VectorMap` off them. `Mirrors` is the invariant of runs: two
labels never share a row, the row of a deleted label is zero, and the points of the client are
the contents, but for points of zero rows, which a rebuild leaves out.

Each writer gets one lemma for both — what it keeps, and what it does to the contents:
`mirrors_add`, `mirrors_hardDelete`, `mirrors_drop`, `mirrors_compact`.
-/

namespace Unlearning

open PyText FloatArith PyFloat

/-! ## The map -/

/-- What an adapter stands for: the vector of each id that has one. -/
abbrev VectorMap := String → Option Row

namespace VectorMap

/-- Assignments in order. -/
def putAll (m : VectorMap) (points : List (String × Row)) : VectorMap :=
  points.foldl (fun m p => Function.update m p.1 (some p.2)) m

/-- The map without some ids. -/
def without (m : VectorMap) (exts : List String) : VectorMap :=
  fun ext => if ext ∈ exts then none else m ext

theorem without_nil (m : VectorMap) : m.without [] = m := by
  ext1 ext
  rw [without, if_neg List.not_mem_nil]

theorem without_concat (m : VectorMap) (exts : List String) (ext : String) :
    m.without (exts ++ [ext]) = Function.update (m.without exts) ext none := by
  ext1 e
  by_cases he : e = ext
  · subst he
    rw [Function.update_self, without, if_pos (by simp)]
  · rw [Function.update_of_ne he, without, without]
    simp [he]

end VectorMap

namespace Dict

variable {α β : Type} [DecidableEq α]

theorem popAll_empty (l : List α) : (∅ : Dict α β).popAll l = ∅ := by
  induction l with
  | nil => rfl
  | cons k rest ih => exact ih

/-- Assignments to new keys make the dictionary that much longer. -/
theorem length_items_putAll {l : List (α × β)} (hnd : (l.map Prod.fst).Nodup) {d : Dict α β}
    (hnew : ∀ k ∈ l.map Prod.fst, k ∉ d) :
    (d.putAll l).items.length = d.items.length + l.length := by
  induction l generalizing d with
  | nil => rfl
  | cons p rest ih =>
    obtain ⟨hp, hrest⟩ := List.nodup_cons.mp hnd
    have hlen : (items (d.insert p.1 p.2)).length = d.items.length + 1 := by
      rw [items, items, AList.entries_insert_of_notMem (hnew p.1 List.mem_cons_self)]
      simp
    have hnext : ∀ k ∈ rest.map Prod.fst, k ∉ d.insert p.1 p.2 := by
      intro k hk hmem
      rcases (AList.mem_insert _).mp hmem with rfl | hold
      · exact hp hk
      · exact hnew k (List.mem_cons_of_mem _ hk) hold
    show (putAll (d.insert p.1 p.2) rest).items.length = d.items.length + (rest.length + 1)
    rw [ih hrest hnext, hlen]
    omega

end Dict

/-! ## Rows -/

namespace MatrixAdapter

variable {κ : Type} {a : MatrixAdapter κ} {l : ℤ} {i : ℕ}

/-- `_label_to_row` is injective and in range. -/
structure Indexed (a : MatrixAdapter κ) : Prop where
  injective : ∀ l l' i, a.labelToRow.lookup l = some i → a.labelToRow.lookup l' = some i → l = l'
  inRange : ∀ l i, a.labelToRow.lookup l = some i → i < a.vectors.length

theorem row?_eq (hi : a.labelToRow.lookup l = some i) : a.row? l = a.vectors[i]? := by
  rw [row?, hi]
  rfl

theorem row?_eq_none (hl : l ∉ a.labelToRow) : a.row? l = none := by
  rw [row?, AList.lookup_eq_none.mpr hl]
  rfl

theorem mem_of_row? {row : Row} (h : a.row? l = some row) : l ∈ a.labelToRow := by
  by_contra hl
  rw [row?_eq_none hl] at h
  cases h

/-- A label in the index has a row. -/
theorem Indexed.row (h : a.Indexed) (hl : l ∈ a.labelToRow) :
    ∃ i row, a.labelToRow.lookup l = some i ∧ a.vectors[i]? = some row ∧ a.row? l = some row := by
  obtain ⟨i, hi⟩ := Option.isSome_iff_exists.mp (AList.lookup_isSome.mpr hl)
  have hlt := h.inRange l i hi
  refine ⟨i, a.vectors[i], hi, List.getElem?_eq_getElem hlt, ?_⟩
  rw [row?_eq hi, List.getElem?_eq_getElem hlt]

/-- Writing the row of one label. -/
theorem Indexed.row?_set (h : a.Indexed) (hi : a.labelToRow.lookup l = some i) (row : Row)
    (l' : ℤ) : { a with vectors := a.vectors.set i row }.row? l' =
      if l' = l then some row else a.row? l' := by
  have hlt := h.inRange l i hi
  by_cases hl : l' = l
  · rw [if_pos hl, hl, row?, hi]
    show (a.vectors.set i row)[i]? = some row
    rw [List.getElem?_set_self hlt]
  · rw [if_neg hl, row?, row?]
    refine Option.bind_congr fun j hj => ?_
    -- another label has another row
    have hne : i ≠ j := by
      rintro rfl
      exact hl (h.injective l' l i hj hi)
    rw [List.getElem?_set_ne hne]

theorem Indexed.set (h : a.Indexed) (i : ℕ) (row : Row) :
    { a with vectors := a.vectors.set i row }.Indexed where
  injective := h.injective
  inRange l j hj := by
    rw [List.length_set]
    exact h.inRange l j hj

/-- A new label gets the row at the end. -/
theorem Indexed.append (h : a.Indexed) (l : ℤ) (row : Row) :
    { a with vectors := a.vectors ++ [row],
             labelToRow := a.labelToRow.insert l a.vectors.length }.Indexed ∧
      ∀ l', { a with vectors := a.vectors ++ [row],
                     labelToRow := a.labelToRow.insert l a.vectors.length }.row? l' =
        if l' = l then some row else a.row? l' := by
  have hlook : ∀ l', (a.labelToRow.insert l a.vectors.length).lookup l' =
      if l' = l then some a.vectors.length else a.labelToRow.lookup l' := by
    intro l'
    by_cases hl' : l' = l
    · rw [if_pos hl', hl', AList.lookup_insert]
    · rw [if_neg hl', AList.lookup_insert_ne hl']
  refine ⟨⟨fun l₁ l₂ i h₁ h₂ => ?_, fun l' i hi => ?_⟩, fun l' => ?_⟩
  · simp only [hlook] at h₁ h₂
    split at h₁
    · split at h₂
      · rename_i e₁ e₂
        rw [e₁, e₂]
      · have hlt := h.inRange _ _ h₂
        have hi := Option.some.inj h₁
        omega
    · split at h₂
      · have hlt := h.inRange _ _ h₁
        have hi := Option.some.inj h₂
        omega
      · exact h.injective _ _ _ h₁ h₂
  · simp only [hlook] at hi
    rw [List.length_append, List.length_singleton]
    split at hi
    · have hi' := Option.some.inj hi
      omega
    · have hlt := h.inRange _ _ hi
      omega
  · simp only [row?, hlook]
    by_cases hl' : l' = l
    · rw [if_pos hl', if_pos hl']
      simp
    · rw [if_neg hl', if_neg hl']
      refine Option.bind_congr fun j hj => ?_
      rw [List.getElem?_append_left (h.inRange l' j hj)]

/-- **`place`**: one label has the new row. -/
theorem Indexed.place (h : a.Indexed) (l : ℤ) (ext : String) (row : Row) :
    (a.place l ext row).Indexed ∧
      (∀ l', (a.place l ext row).row? l' = if l' = l then some row else a.row? l') ∧
      ∀ l', l' ∈ (a.place l ext row).labelToRow ↔ l' = l ∨ l' ∈ a.labelToRow := by
  unfold MatrixAdapter.place
  rcases hi : a.labelToRow.lookup l with _ | i
  · obtain ⟨hix, hrow⟩ := h.append l row
    exact ⟨⟨hix.injective, hix.inRange⟩, hrow, fun l' => AList.mem_insert _⟩
  · have hl : l ∈ a.labelToRow := AList.lookup_isSome.mp (by rw [hi]; rfl)
    have hix := h.set i row
    refine ⟨⟨hix.injective, hix.inRange⟩, h.row?_set hi row, fun l' => ?_⟩
    refine ⟨Or.inr, ?_⟩
    rintro (rfl | hmem)
    · exact hl
    · exact hmem

end MatrixAdapter

/-! ## The invariant -/

namespace MatrixAdapter

variable {κ : Type}

/-- The vector of each id: of the label that the registry has for it, unless the label is
deleted. -/
def contents (reg : Registry) (a : MatrixAdapter κ) : VectorMap := fun ext =>
  (reg.label? (strip a.collection) ext).bind fun l =>
    if l ∈ a.deleted then none else a.row? l

/-- **The invariant of runs**, of the registry, the adapter and the points of its client. -/
structure Mirrors (reg : Registry) (a : MatrixAdapter κ) (p : Dict String Row) : Prop
    extends Indexed a where
  nonblank : strip a.collection ≠ ""
  consistent : reg.Consistent
  named : ∀ ext l, reg.label? (strip a.collection) ext = some l → l ∈ a.labelToRow →
    a.labelToExt.lookup l = some ext
  live : ∀ l ∈ a.labelToRow, l ∉ a.deleted →
    ∃ ext, reg.label? (strip a.collection) ext = some l
  wiped : ∀ l ∈ a.deleted, ∀ row, a.row? l = some row → zeroRow row = true
  points : ∀ ext row, p.lookup ext = some row → contents reg a ext = some row
  served : ∀ ext row, contents reg a ext = some row → zeroRow row = false →
    p.lookup ext = some row

variable {reg reg' : Registry} {a : MatrixAdapter κ} {p : Dict String Row}

theorem contents_eq {ext : String} {l : ℤ}
    (hl : reg.label? (strip a.collection) ext = some l) :
    contents reg a ext = if l ∈ a.deleted then none else a.row? l := by
  rw [contents, hl]
  rfl

/-- An id has a vector if its label is live. -/
theorem contents_eq_some {ext : String} {row : Row} :
    contents reg a ext = some row ↔
      ∃ l, reg.label? (strip a.collection) ext = some l ∧ l ∉ a.deleted ∧ a.row? l = some row := by
  rw [contents, Option.bind_eq_some_iff]
  refine exists_congr fun l => and_congr_right fun _ => ?_
  by_cases hdel : l ∈ a.deleted
  · rw [if_pos hdel]
    exact iff_of_false (by simp) fun h => h.1 hdel
  · rw [if_neg hdel]
    exact (and_iff_right hdel).symm

/-! ### `add` -/

@[simp]
theorem place_collection (l : ℤ) (ext : String) (row : Row) (a : MatrixAdapter κ) :
    (a.place l ext row).collection = a.collection := by
  unfold place
  split <;> rfl

@[simp]
theorem place_deleted (l : ℤ) (ext : String) (row : Row) (a : MatrixAdapter κ) :
    (a.place l ext row).deleted = a.deleted.erase l := by
  unfold place
  split <;> rfl

@[simp]
theorem place_labelToExt (l : ℤ) (ext : String) (row : Row) (a : MatrixAdapter κ) :
    (a.place l ext row).labelToExt = a.labelToExt.insert l ext := by
  unfold place
  split <;> rfl

@[simp]
theorem place_client (l : ℤ) (ext : String) (row : Row) (a : MatrixAdapter κ) :
    (a.place l ext row).client = a.client := by
  unfold place
  split <;> rfl

end MatrixAdapter

/-- **`register` without a label**: an id that is mapped keeps its label, another gets one. -/
theorem Registry.register_none (printable : Char → Bool) {reg : Registry} (h : reg.Consistent)
    {collection ext : String} (hc : strip collection ≠ "") (hs : strip ext = ext)
    (hne : ext ≠ "") :
    ∃ l reg', reg.register printable collection ext none = (.ok l, reg') ∧ reg'.Consistent ∧
      (∀ c e, reg'.label? c e = if c = strip collection ∧ e = ext then some l
        else reg.label? c e) ∧
      ∀ l', reg.label? (strip collection) ext = some l' → l' = l := by
  have hcons : (reg.register printable collection ext none).2.Consistent :=
    Registry.consistent_register h collection ext none
  rw [register, normCollection, if_neg hc, normExternal_of_strip hs hne] at hcons ⊢
  simp only [label?_ensureCollection] at hcons ⊢
  rcases hl : reg.label? (strip collection) ext with _ | l
  · simp only [hl, registerNew] at hcons ⊢
    refine ⟨_, _, rfl, hcons, fun c e => ?_, fun l' hl' => by cases hl'⟩
    rw [label?_assign, label?_ensureCollection]
  · simp only [hl, true_or, if_true] at hcons ⊢
    refine ⟨l, _, rfl, hcons, fun c e => ?_, fun l' hl' => (Option.some.inj hl').symm⟩
    rw [label?_ensureCollection]
    by_cases hce : c = strip collection ∧ e = ext
    · rw [if_pos hce, hce.1, hce.2, hl]
    · rw [if_neg hce]

/-! ### Writes at one id, in the points and in the map -/

section Updates

variable {α β : Type} [DecidableEq α]

theorem Dict.lookup_insert_update (d : Dict α β) (k : α) (v : β) (e : α) :
    (d.insert k v).lookup e = Function.update (fun e => d.lookup e) k (some v) e := by
  by_cases he : e = k
  · subst he
    rw [AList.lookup_insert, Function.update_self]
  · rw [AList.lookup_insert_ne he, Function.update_of_ne he]

theorem Dict.lookup_erase_update (d : Dict α β) (k e : α) :
    (d.erase k).lookup e = Function.update (fun e => d.lookup e) k none e := by
  by_cases he : e = k
  · subst he
    rw [AList.lookup_erase, Function.update_self]
  · rw [AList.lookup_erase_ne he, Function.update_of_ne he]

/-- What one map has of another it still has after one write to both. -/
theorem update_some_of_imp {f g : α → Option β} {P : β → Prop}
    (h : ∀ e r, f e = some r → P r → g e = some r) {k e : α} {o : Option β} {r : β}
    (hr : Function.update f k o e = some r) (hP : P r) : Function.update g k o e = some r := by
  by_cases he : e = k
  · subst he
    rwa [Function.update_self] at hr ⊢
  · rw [Function.update_of_ne he] at hr ⊢
    exact h e r hr hP

end Updates

namespace MatrixAdapter

variable {κ : Type} {reg reg' : Registry} {a : MatrixAdapter κ} {p : Dict String Row}

/-- **One turn of the loop of `add`**, with the point that the batch will upsert: the id has
the row. -/
theorem Mirrors.place (h : Mirrors reg a p) {ext : String} {l : ℤ} (hcons : reg'.Consistent)
    (hlabel : ∀ e, reg'.label? (strip a.collection) e =
      if e = ext then some l else reg.label? (strip a.collection) e)
    (hold : ∀ l', reg.label? (strip a.collection) ext = some l' → l' = l) (row : Row) :
    Mirrors reg' (a.place l ext row) (p.insert ext row) ∧
      contents reg' (a.place l ext row) = Function.update (contents reg a) ext (some row) := by
  obtain ⟨hix, hrow, hmem⟩ := h.toIndexed.place l ext row
  have hext : reg'.label? (strip a.collection) ext = some l := by rw [hlabel, if_pos rfl]
  -- the label of another id is another label
  have hother : ∀ e l', e ≠ ext → reg.label? (strip a.collection) e = some l' → l' ≠ l := by
    rintro e l' he hl' rfl
    have hl'' := hlabel e
    rw [if_neg he, hl'] at hl''
    exact he (hcons.injective hl'' hext)
  have hcontents : contents reg' (a.place l ext row) =
      Function.update (contents reg a) ext (some row) := by
    ext1 e
    rw [contents, place_collection, hlabel]
    by_cases he : e = ext
    · subst he
      rw [if_pos rfl, Function.update_self, Option.bind_some, place_deleted,
        if_neg (Finset.notMem_erase l _), hrow, if_pos rfl]
    · rw [if_neg he, Function.update_of_ne he, contents]
      refine Option.bind_congr fun l' hl' => ?_
      have hne := hother e l' he hl'
      rw [place_deleted, hrow, if_neg hne]
      simp only [Finset.mem_erase, hne, ne_eq, not_false_eq_true, true_and]
  refine ⟨⟨hix, ?_, hcons, ?_, ?_, ?_, ?_, ?_⟩, hcontents⟩
  · rw [place_collection]
    exact h.nonblank
  · intro e l' hl' hin
    rw [place_collection, hlabel] at hl'
    rw [place_labelToExt]
    by_cases he : e = ext
    · rw [if_pos he] at hl'
      rw [← Option.some.inj hl', he, AList.lookup_insert]
    · rw [if_neg he] at hl'
      have hne := hother e l' he hl'
      rw [AList.lookup_insert_ne hne]
      exact h.named e l' hl' (((hmem l').mp hin).resolve_left hne)
  · intro l' hin hdel
    rw [place_collection]
    by_cases hl : l' = l
    · exact ⟨ext, hl ▸ hext⟩
    · rw [place_deleted] at hdel
      obtain ⟨e, he⟩ := h.live l' (((hmem l').mp hin).resolve_left hl)
        fun hd => hdel (Finset.mem_erase.mpr ⟨hl, hd⟩)
      refine ⟨e, ?_⟩
      rw [hlabel, if_neg, he]
      rintro rfl
      exact hl (hold l' he)
  · intro l' hdel r hr
    rw [place_deleted] at hdel
    obtain ⟨hne, hd⟩ := Finset.mem_erase.mp hdel
    rw [hrow, if_neg hne] at hr
    exact h.wiped l' hd r hr
  · intro e r hr
    rw [Dict.lookup_insert_update] at hr
    rw [hcontents]
    exact update_some_of_imp (fun e r hr (_ : True) => h.points e r hr) hr trivial
  · intro e r hr hz
    rw [hcontents] at hr
    rw [Dict.lookup_insert_update]
    exact update_some_of_imp h.served hr hz

/-- An id that `add` takes as it is. -/
def Proper (ext : String) : Prop := strip ext = ext ∧ ext ≠ ""

/-- **The loop of `add`.** -/
theorem mirrors_addRows (printable : Char → Bool) {rows : List (String × Row)}
    (hids : ∀ q ∈ rows, Proper q.1) (h : Mirrors reg a p) :
    ∃ labels reg' a', a.addRows printable a.collection rows reg = (.ok labels, reg', a') ∧
      Mirrors reg' a' (p.putAll rows) ∧
      contents reg' a' = (contents reg a).putAll rows ∧
      a'.client = a.client ∧ a'.collection = a.collection := by
  induction rows generalizing reg a p with
  | nil => exact ⟨[], reg, a, rfl, h, rfl, rfl, rfl⟩
  | cons q rest ih =>
    obtain ⟨hs, hne⟩ := hids q List.mem_cons_self
    obtain ⟨l, reg₁, hreg, hcons, hlabel, hold⟩ :=
      Registry.register_none printable h.consistent h.nonblank hs hne
    obtain ⟨h₁, hc₁⟩ := h.place (a := a) hcons (fun e => by rw [hlabel]; simp) hold q.2
    obtain ⟨labels, reg', a', heq, h', hc', hclient, hcoll⟩ :=
      ih (fun q hq => hids q (List.mem_cons_of_mem _ hq)) h₁
    rw [place_collection] at heq hcoll
    rw [place_client] at hclient
    refine ⟨l :: labels, reg', a', ?_, h', ?_, hclient, hcoll⟩
    · rw [addRows, hreg]
      simp only [heq]
    · rw [hc', hc₁]
      rfl

end MatrixAdapter

namespace MatrixKind

variable {κ : Type} {kind : MatrixKind κ} {reg : Registry} {a : MatrixAdapter κ}

/-- What the client of a kind does to the points of one collection. -/
structure Lawful (kind : MatrixKind κ) : Prop where
  upsert : ∀ key dim l c,
    kind.points key (kind.upsert key dim l c) = (kind.points key c).putAll l
  delete : ∀ key ids c, kind.points key (kind.delete key ids c) = (kind.points key c).popAll ids
  rebuild : ∀ key dim c, kind.points key (kind.rebuild key dim c) = ∅

/-- The points of the collection of an adapter. -/
def pointsOf (kind : MatrixKind κ) (a : MatrixAdapter κ) : Dict String Row :=
  kind.points (kind.key a.collection a.collection) a.client

/-- The invariant, with the points of the adapter's own client. -/
abbrev Mirrored (kind : MatrixKind κ) (reg : Registry) (a : MatrixAdapter κ) : Prop :=
  a.Mirrors reg (kind.pointsOf a)

/-- The name of the collection, spelled as in the constructor or left out. -/
def Names (own : String) (collection : Option String) : Prop :=
  collection = none ∨ collection = some own

theorem resolved_collection {own : String} {collection : Option String}
    (h : Names own collection) :
    ((collection.filter fun c => c ≠ "").getD own) = own := by
  rcases h with rfl | rfl
  · rfl
  · by_cases hown : own = ""
    · simp [hown, Option.filter]
    · simp [hown, Option.filter]

/-- The points that a call of `add` upserts. -/
def batch (externalIds : List String) (vectors : VectorsArg) : List (String × Row) :=
  externalIds.zip vectors.reshaped.rows

/-- **`add`** puts its batch into the map, or it raises and changes nothing. -/
theorem mirrors_add (hkind : kind.Lawful) (h : kind.Mirrored reg a) (printable : Char → Bool)
    {externalIds : List String} (hids : ∀ ext ∈ externalIds, MatrixAdapter.Proper ext)
    (vectors : VectorsArg) {collection : Option String} (hcoll : Names a.collection collection) :
    (∃ labels reg' a',
        kind.add printable externalIds vectors collection reg a = (.ok labels, reg', a') ∧
        kind.Mirrored reg' a' ∧ a'.collection = a.collection ∧
        a'.contents reg' = (a.contents reg).putAll (batch externalIds vectors)) ∨
      ∃ message, kind.add printable externalIds vectors collection reg a =
        (.error (.valueError message), reg, a) := by
  rw [add, resolved_collection hcoll]
  by_cases hdim : (vectors.reshaped.width : ℤ) ≠ a.dim
  · rw [if_pos hdim]
    exact Or.inr ⟨_, rfl⟩
  · rw [if_neg hdim]
    by_cases hlen : externalIds.length ≠ vectors.reshaped.rows.length
    · rw [if_pos hlen]
      exact Or.inr ⟨_, rfl⟩
    · rw [if_neg hlen]
      have hproper : ∀ q ∈ batch externalIds vectors, MatrixAdapter.Proper q.1 := fun q hq =>
        hids q.1 (List.of_mem_zip hq).1
      obtain ⟨labels, reg', a', heq, h', hcontents, hclient, hown⟩ :=
        MatrixAdapter.mirrors_addRows printable hproper h
      rw [batch] at heq
      simp only [heq]
      by_cases hnil : externalIds = []
      · -- nothing was registered
        subst hnil
        rw [if_pos rfl]
        rw [List.zip_nil_left, MatrixAdapter.addRows] at heq
        obtain ⟨-, rfl, rfl⟩ := by simpa only [Prod.mk.injEq] using heq
        exact Or.inr ⟨_, rfl⟩
      · rw [if_neg hnil]
        refine Or.inl ⟨labels, reg', _, rfl, ?_, hown, hcontents⟩
        have hpoints : kind.pointsOf { a' with
            client := kind.upsert (kind.key a'.collection a.collection) vectors.reshaped.width
              (externalIds.zip vectors.reshaped.rows) a'.client } =
            (kind.pointsOf a).putAll (batch externalIds vectors) := by
          rw [pointsOf, pointsOf, hown, hkind.upsert, hclient]
          rfl
        rw [Mirrored, hpoints]
        exact ⟨⟨h'.injective, h'.inRange⟩, h'.nonblank, h'.consistent, h'.named, h'.live, h'.wiped,
          h'.points, h'.served⟩

end MatrixKind

/-! ### `hard_delete_label` and `drop` -/

namespace MatrixAdapter

variable {κ : Type} {reg reg' : Registry} {a : MatrixAdapter κ} {p : Dict String Row}

theorem zeroRow_zeros (row : Row) : zeroRow (row.map fun _ => 0) = true := by
  rw [zeroRow, List.all_map]
  exact List.all_eq_true.mpr fun _ _ => rfl

/-- **Zeroing the row of an id**, with its point: the id has no vector. -/
theorem Mirrors.wipe (h : Mirrors reg a p) {ext : String} {l : ℤ} {i : ℕ}
    (hl : reg.label? (strip a.collection) ext = some l) (hi : a.labelToRow.lookup l = some i)
    (row : Row) (c : κ) {a' : MatrixAdapter κ}
    (ha' : a' = { a with
      vectors := a.vectors.set i (row.map fun _ => 0)
      deleted := insert l a.deleted
      client := c }) :
    Mirrors reg a' (p.erase ext) ∧
      contents reg a' = Function.update (contents reg a) ext none := by
  subst ha'
  have hrow := h.toIndexed.row?_set hi (row.map fun _ => 0)
  have hset := h.toIndexed.set i (row.map fun _ => 0)
  have hcontents : contents reg { a with
      vectors := a.vectors.set i (row.map fun _ => 0)
      deleted := insert l a.deleted
      client := c } = Function.update (contents reg a) ext none := by
    ext1 e
    rw [contents]
    by_cases he : e = ext
    · subst he
      rw [Function.update_self, hl, Option.bind_some, if_pos (Finset.mem_insert_self l _)]
    · rw [Function.update_of_ne he, contents]
      refine Option.bind_congr fun l' hl' => ?_
      -- another id has another label
      have hne : l' ≠ l := by
        rintro rfl
        exact he (h.consistent.injective hl' hl)
      have hr := hrow l'
      rw [if_neg hne] at hr
      simp only [Finset.mem_insert, hne, false_or]
      exact congrArg (fun r => if l' ∈ a.deleted then none else r) hr
  refine ⟨⟨⟨hset.injective, hset.inRange⟩, h.nonblank, h.consistent, h.named, ?_, ?_, ?_, ?_⟩,
    hcontents⟩
  · intro l' hin hdel
    exact h.live l' hin fun hd => hdel (Finset.mem_insert_of_mem hd)
  · intro l' hdel r hr
    have hr' := (hrow l').symm.trans hr
    split at hr'
    · rw [← Option.some.inj hr']
      exact zeroRow_zeros row
    · rename_i hne
      exact h.wiped l' ((Finset.mem_insert.mp hdel).resolve_left hne) r hr'
  · intro e r hr
    rw [Dict.lookup_erase_update] at hr
    rw [hcontents]
    exact update_some_of_imp (fun e r hr (_ : True) => h.points e r hr) hr trivial
  · intro e r hr hz
    rw [hcontents] at hr
    rw [Dict.lookup_erase_update]
    exact update_some_of_imp h.served hr hz

/-- **Dropping the mapping** of a deleted label changes nothing that is seen. -/
theorem Mirrors.drop (h : Mirrors reg a p) {ext : String} {l : ℤ}
    (hl : reg.label? (strip a.collection) ext = some l) (hdel : l ∈ a.deleted)
    (hcons : reg'.Consistent)
    (hlabel : ∀ e, reg'.label? (strip a.collection) e =
      if e = ext then none else reg.label? (strip a.collection) e) :
    Mirrors reg' a p ∧ contents reg' a = contents reg a := by
  have hcontents : contents reg' a = contents reg a := by
    ext1 e
    by_cases he : e = ext
    · subst he
      rw [contents_eq hl, if_pos hdel, contents, hlabel, if_pos rfl]
      rfl
    · rw [contents, contents, hlabel, if_neg he]
  refine ⟨⟨h.toIndexed, h.nonblank, hcons, ?_, ?_, h.wiped, ?_, ?_⟩, hcontents⟩
  · intro e l' hl' hin
    rw [hlabel] at hl'
    split at hl'
    · cases hl'
    · exact h.named e l' hl' hin
  · intro l' hin hlive
    obtain ⟨e, he⟩ := h.live l' hin hlive
    refine ⟨e, ?_⟩
    rw [hlabel, if_neg, he]
    rintro rfl
    rw [hl] at he
    exact hlive (Option.some.inj he ▸ hdel)
  · intro e r hr
    rw [hcontents]
    exact h.points e r hr
  · intro e r hr hz
    rw [hcontents] at hr
    exact h.served e r hr hz

/-! ### `compact` -/

/-- What `compact` keeps of an item: the vector of a live id, unless it is zero. -/
theorem Mirrors.liveRow? (h : Mirrors reg a p) {item : ℤ × ℕ} (hitem : item ∈ a.labelToRow.items)
    {q : String × Row} :
    a.liveRow? item = some q ↔
      reg.label? (strip a.collection) q.1 = some item.1 ∧ item.1 ∉ a.deleted ∧
        a.row? item.1 = some q.2 ∧ zeroRow q.2 = false := by
  have hi : a.labelToRow.lookup item.1 = some item.2 := Dict.mem_items.mp hitem
  have hin : item.1 ∈ a.labelToRow := AList.lookup_isSome.mp (by rw [hi]; rfl)
  obtain ⟨i, row, hi', hrow, hrow?⟩ := h.toIndexed.row hin
  rw [hi] at hi'
  obtain rfl := Option.some.inj hi'
  simp only [MatrixAdapter.liveRow?, hrow, hrow?, Option.getD_some]
  by_cases hdel : item.1 ∈ a.deleted
  · rw [if_pos hdel]
    exact iff_of_false (by simp) fun hq => hq.2.1 hdel
  · rw [if_neg hdel]
    obtain ⟨ext, hext⟩ := h.live item.1 hin hdel
    rw [h.named ext item.1 hext hin, Option.getD_some]
    by_cases hz : zeroRow row = true
    · rw [if_pos hz]
      refine iff_of_false (by simp) fun hq => ?_
      rw [← Option.some.inj hq.2.2.1, hz] at hq
      cases hq.2.2.2
    · rw [if_neg hz]
      constructor
      · intro hq
        obtain rfl := Option.some.inj hq
        exact ⟨hext, hdel, rfl, by simpa using hz⟩
      · rintro ⟨hl, -, hr, -⟩
        rw [h.consistent.injective hext hl, Option.some.inj hr]

/-- **What is rebuilt**: the vectors that are not zero, -/
theorem Mirrors.mem_liveRows (h : Mirrors reg a p) {q : String × Row} :
    q ∈ a.liveRows ↔ contents reg a q.1 = some q.2 ∧ zeroRow q.2 = false := by
  rw [liveRows, List.mem_filterMap, contents_eq_some]
  constructor
  · rintro ⟨item, hmem, hq⟩
    obtain ⟨hl, hdel, hr, hz⟩ := (h.liveRow? (List.mem_reverse.mp hmem)).mp hq
    exact ⟨⟨item.1, hl, hdel, hr⟩, hz⟩
  · rintro ⟨⟨l, hl, hdel, hr⟩, hz⟩
    obtain ⟨i, row, hi, -, -⟩ := h.toIndexed.row (mem_of_row? hr)
    have hitem : (l, i) ∈ a.labelToRow.items := Dict.mem_items.mpr hi
    exact ⟨(l, i), List.mem_reverse.mpr hitem, (h.liveRow? hitem).mpr ⟨hl, hdel, hr, hz⟩⟩

/-- each under one id. -/
theorem Mirrors.nodup_liveRows (h : Mirrors reg a p) : (a.liveRows.map Prod.fst).Nodup := by
  have hkeys : a.labelToRow.items.reverse.Pairwise fun s t => s.1 ≠ t.1 := by
    have hnd := a.labelToRow.nodup_keys_items
    rw [← List.nodup_reverse, ← List.map_reverse] at hnd
    exact List.pairwise_map.mp hnd
  rw [liveRows, List.Nodup, List.pairwise_map, List.pairwise_filterMap]
  refine hkeys.imp_of_mem fun {s t} hs ht hne q hq q' hq' heq => ?_
  obtain ⟨hl, -⟩ := (h.liveRow? (List.mem_reverse.mp hs)).mp hq
  obtain ⟨hl', -⟩ := (h.liveRow? (List.mem_reverse.mp ht)).mp hq'
  rw [heq, hl'] at hl
  exact hne (Option.some.inj hl).symm

end MatrixAdapter

namespace MatrixKind

variable {κ : Type} {kind : MatrixKind κ} {reg : Registry} {a : MatrixAdapter κ}

theorem mirrors_hardDelete (hkind : kind.Lawful) (h : kind.Mirrored reg a) {ext : String} {l : ℤ}
    (hl : reg.label? (strip a.collection) ext = some l) (hin : l ∈ a.labelToRow) :
    ∃ br a', kind.hardDeleteLabel a.collection l a = (br, a') ∧ br.success = true ∧
      kind.Mirrored reg a' ∧ a'.collection = a.collection ∧ l ∈ a'.deleted ∧
      a'.verifyZeroed l = true ∧
      a'.contents reg = Function.update (a.contents reg) ext none := by
  obtain ⟨i, row, hi, hrow, -⟩ := h.toIndexed.row hin
  have hext : kind.extOf a.collection l a = (ext, a.labelToExt) := by
    rw [extOf, h.named ext l hl hin]
  obtain ⟨h', hcontents⟩ := h.wipe hl hi row
    (kind.delete (kind.key a.collection a.collection) [ext] a.client) rfl
  have hpoints : kind.points (kind.key a.collection a.collection)
      (kind.delete (kind.key a.collection a.collection) [ext] a.client) =
        (kind.pointsOf a).erase ext := hkind.delete _ [ext] _
  refine ⟨⟨true, 4 * row.length, some kind.erased⟩,
    { a with
      vectors := a.vectors.set i (row.map fun _ => 0)
      deleted := insert l a.deleted
      client := kind.delete (kind.key a.collection a.collection) [ext] a.client },
    ?_, rfl, ?_, rfl, Finset.mem_insert_self l _, ?_, hcontents⟩
  · simp only [hardDeleteLabel, hi, hrow, hext, Option.getD_some]
  · rw [Mirrored, pointsOf]
    simp only [hpoints]
    exact h'
  · simp only [MatrixAdapter.verifyZeroed, hi]
    rw [List.getElem?_set_self (h.inRange l i hi)]
    exact MatrixAdapter.zeroRow_zeros row

/-- **`compact`** keeps the map, leaves no points but those of its vectors, and returns
their number. -/
theorem mirrors_compact (hkind : kind.Lawful) (h : kind.Mirrored reg a) :
    kind.Mirrored reg (kind.compact a).2 ∧
      (kind.compact a).2.contents reg = a.contents reg ∧
      (kind.compact a).1 = (kind.pointsOf (kind.compact a).2).items.length := by
  have hpoints : kind.pointsOf (kind.compact a).2 = (∅ : Dict String Row).putAll a.liveRows := by
    rw [pointsOf, compact]
    simp only
    by_cases hnil : a.liveRows = []
    · rw [if_pos hnil, hkind.rebuild, hnil]
      rfl
    · rw [if_neg hnil, hkind.upsert, hkind.rebuild]
  have hlook : ∀ ext row, (kind.pointsOf (kind.compact a).2).lookup ext = some row ↔
      a.contents reg ext = some row ∧ zeroRow row = false := by
    intro ext row
    rw [hpoints]
    exact (Dict.lookup_ofItems h.nodup_liveRows).trans h.mem_liveRows
  refine ⟨⟨⟨h.injective, h.inRange⟩, h.nonblank, h.consistent, h.named, h.live, h.wiped, ?_, ?_⟩,
    rfl, ?_⟩
  · exact fun ext row hr => ((hlook ext row).mp hr).1
  · exact fun ext row hr hz => (hlook ext row).mpr ⟨hr, hz⟩
  · rw [hpoints, Dict.length_items_putAll h.nodup_liveRows fun k _ => AList.notMem_empty k]
    exact (Nat.zero_add _).symm

end MatrixKind

end Unlearning
