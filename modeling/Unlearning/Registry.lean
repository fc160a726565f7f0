import Mathlib.Data.List.AList
import Unlearning.PyText

/-!
# The id registry (`integrations/id_registry.py`)

`CollectionIdRegistry` maps business ids to labels, per collection, in two
dictionaries of dictionaries that are written one after the other. An operation
that raises may have written the first of them, so every operation returns its
result together with the registry it leaves.

* `Registry.label?` / `Registry.external?`: what the two sides map;
* `Registry.Consistent`: the two sides are inverse to each other. `register` and
  `drop` keep it (`consistent_run`), so that within a collection no two ids share
  a label.
-/

namespace Unlearning

open PyText

/-- A dictionary. -/
abbrev Dict (α β : Type) [DecidableEq α] := AList fun _ : α => β

/-- `d.setdefault(k, v)` -/
def Dict.setDefault {α β : Type} [DecidableEq α] (d : Dict α β) (k : α) (v : β) : Dict α β :=
  if k ∈ d then d else d.insert k v

/-- What the registry raises. -/
inductive RegistryError : Type where
  /-- `IdMappingError` -/
  | idMapping (message : String) : RegistryError
  | valueError (message : String) : RegistryError
  /-- `KeyError` of a dictionary, with the `repr` of the key -/
  | keyError (key : String) : RegistryError
  deriving DecidableEq

/-- `str(exc)`: an `IdMappingError` is a `KeyError`, which shows the `repr` of its
message. -/
def RegistryError.text (printable : Char → Bool) : RegistryError → String
  | idMapping message => repr printable message
  | valueError message => message
  | keyError key => key

/-- `ResolvedId` -/
structure ResolvedId where
  collection : String
  externalId : String
  label : ℤ
  deriving DecidableEq

/-- The fields of `CollectionIdRegistry`. -/
structure Registry where
  forward : Dict String (Dict String ℤ)
  reverse : Dict String (Dict ℤ String)
  nextLabel : Dict String ℤ

namespace Registry

/-- `CollectionIdRegistry()` -/
def empty : Registry := ⟨∅, ∅, ∅⟩

/-- `_forward[coll][ext]`, if there is one. -/
def label? (reg : Registry) (coll ext : String) : Option ℤ :=
  (reg.forward.lookup coll).bind fun m => m.lookup ext

/-- `_reverse[coll][label]`, if there is one. -/
def external? (reg : Registry) (coll : String) (label : ℤ) : Option String :=
  (reg.reverse.lookup coll).bind fun m => m.lookup label

/-! ## Operations -/

/-- `_norm_collection` -/
def normCollection (collection : String) : Except RegistryError String :=
  if strip collection = "" then .error (.valueError "collection must be a non-empty string")
  else .ok (strip collection)

/-- `_norm_external` -/
def normExternal (externalId : String) : Except RegistryError String :=
  if strip externalId = "" then .error (.valueError "external_id must be a non-empty string")
  else .ok (strip externalId)

/-- `ensure_collection`, of a normalised name. -/
def ensureCollection (coll : String) (reg : Registry) : Registry where
  forward := reg.forward.setDefault coll ∅
  reverse := reg.reverse.setDefault coll ∅
  nextLabel := reg.nextLabel.setDefault coll 0

/-- The two assignments at the end of `register`. -/
def assign (coll ext : String) (label next : ℤ) (reg : Registry) : Registry where
  forward := reg.forward.insert coll (((reg.forward.lookup coll).getD ∅).insert ext label)
  reverse := reg.reverse.insert coll (((reg.reverse.lookup coll).getD ∅).insert label ext)
  nextLabel := reg.nextLabel.insert coll next

section

variable (printable : Char → Bool)

/-- The part of `register` for an id that is not mapped yet. -/
def registerNew (coll ext : String) (label : Option ℤ) (reg : Registry) :
    Except RegistryError ℤ × Registry :=
  let next := (reg.nextLabel.lookup coll).getD 0
  match label with
  | none => (.ok next, reg.assign coll ext next (next + 1))
  | some label => match reg.external? coll label with
    | some owner =>
      (.error (.idMapping ("label " ++ toString label ++ " already used in " ++
        repr printable coll ++ " by " ++ repr printable owner)), reg)
    | none => (.ok label, reg.assign coll ext label (max next (label + 1)))

/-- `register` -/
def register (collection externalId : String) (label : Option ℤ) (reg : Registry) :
    Except RegistryError ℤ × Registry :=
  match normCollection collection, normExternal externalId with
  | .error e, _ => (.error e, reg)
  | .ok _, .error e => (.error e, reg)
  | .ok coll, .ok ext =>
    let reg := reg.ensureCollection coll
    match reg.label? coll ext with
    | some existing =>
      if label = none ∨ label = some existing then (.ok existing, reg)
      else (.error (.idMapping ("id " ++ repr printable ext ++ " already mapped to " ++
        toString existing ++ ", not " ++ toString (label.getD 0))), reg)
    | none => reg.registerNew printable coll ext label

/-- `resolve` -/
def resolve (reg : Registry) (collection externalId : String) : Except RegistryError ResolvedId :=
  match normCollection collection, normExternal externalId with
  | .error e, _ => .error e
  | .ok _, .error e => .error e
  | .ok coll, .ok ext => match reg.label? coll ext with
    | none => .error (.idMapping ("unknown id " ++ repr printable ext ++ " in collection " ++
        repr printable coll))
    | some label => .ok ⟨coll, ext, label⟩

/-- `del self._forward[coll][ext]` -/
def eraseForward (coll ext : String) (reg : Registry) : Registry :=
  { reg with
    forward := reg.forward.insert coll (((reg.forward.lookup coll).getD ∅).erase ext) }

/-- `del self._reverse[coll][label]` -/
def eraseReverse (coll : String) (label : ℤ) (reg : Registry) : Registry :=
  { reg with
    reverse := reg.reverse.insert coll (((reg.reverse.lookup coll).getD ∅).erase label) }

/-- `drop`: the two `del` statements, the second of which may raise. -/
def drop (collection externalId : String) (reg : Registry) : Except RegistryError ℤ × Registry :=
  match reg.resolve printable collection externalId with
  | .error e => (.error e, reg)
  | .ok resolved =>
    let reg := reg.eraseForward resolved.collection resolved.externalId
    match reg.reverse.lookup resolved.collection with
    | none => (.error (.keyError (repr printable resolved.collection)), reg)
    | some m =>
      if resolved.label ∈ m then
        (.ok resolved.label, reg.eraseReverse resolved.collection resolved.label)
      else (.error (.keyError (toString resolved.label)), reg)

end

/-- `labels`; only their number is used, so they are not sorted. -/
def labels (reg : Registry) (collection : String) : Except RegistryError (List ℤ) :=
  match normCollection collection with
  | .error e => .error e
  | .ok coll => .ok (((reg.reverse.lookup coll).map AList.keys).getD [])

/-! ## Lookups after the writes -/

variable {printable : Char → Bool} {reg : Registry}

/-- One entry of a dictionary of dictionaries changes. -/
theorem lookup_insert_bind {α β γ : Type} [DecidableEq α] [DecidableEq β] (d : Dict α (Dict β γ))
    (k a : α) (m : Dict β γ) (b : β) :
    ((d.insert k m).lookup a).bind (fun m => m.lookup b) =
      if a = k then m.lookup b else (d.lookup a).bind fun m => m.lookup b := by
  by_cases h : a = k
  · rw [if_pos h, h, AList.lookup_insert]
    rfl
  · rw [if_neg h, AList.lookup_insert_ne h]

theorem lookup_getD {α β γ : Type} [DecidableEq α] [DecidableEq β] (d : Dict α (Dict β γ)) (k : α)
    (b : β) : ((d.lookup k).getD ∅).lookup b = (d.lookup k).bind fun m => m.lookup b := by
  rcases d.lookup k with _ | m
  · exact AList.lookup_empty b
  · rfl

/-- `setdefault(k, {})` adds no entry. -/
theorem lookup_setDefault_bind {α β γ : Type} [DecidableEq α] [DecidableEq β] (d : Dict α (Dict β γ))
    (k a : α) (b : β) :
    ((d.setDefault k ∅).lookup a).bind (fun m => m.lookup b) =
      (d.lookup a).bind fun m => m.lookup b := by
  rw [Dict.setDefault]
  by_cases hk : k ∈ d
  · rw [if_pos hk]
  · rw [if_neg hk, lookup_insert_bind]
    by_cases h : a = k
    · rw [if_pos h, h, AList.lookup_eq_none.mpr hk]
      exact AList.lookup_empty b
    · rw [if_neg h]

theorem label?_assign (coll ext : String) (label next : ℤ) (c e : String) :
    (reg.assign coll ext label next).label? c e =
      if c = coll ∧ e = ext then some label else reg.label? c e := by
  rw [label?, assign, lookup_insert_bind, label?]
  by_cases hc : c = coll
  · by_cases he : e = ext
    · rw [if_pos hc, if_pos ⟨hc, he⟩, he, AList.lookup_insert]
    · rw [if_pos hc, if_neg (fun h => he h.2), AList.lookup_insert_ne he, lookup_getD, hc]
  · rw [if_neg hc, if_neg fun h => hc h.1]

theorem external?_assign (coll ext : String) (label next : ℤ) (c : String) (l : ℤ) :
    (reg.assign coll ext label next).external? c l =
      if c = coll ∧ l = label then some ext else reg.external? c l := by
  rw [external?, assign, lookup_insert_bind, external?]
  by_cases hc : c = coll
  · by_cases hl : l = label
    · rw [if_pos hc, if_pos ⟨hc, hl⟩, hl, AList.lookup_insert]
    · rw [if_pos hc, if_neg (fun h => hl h.2), AList.lookup_insert_ne hl, lookup_getD, hc]
  · rw [if_neg hc, if_neg fun h => hc h.1]

theorem label?_eraseForward (coll ext c e : String) :
    (reg.eraseForward coll ext).label? c e =
      if c = coll ∧ e = ext then none else reg.label? c e := by
  rw [label?, eraseForward, lookup_insert_bind, label?]
  by_cases hc : c = coll
  · by_cases he : e = ext
    · rw [if_pos hc, if_pos ⟨hc, he⟩, he, AList.lookup_erase]
    · rw [if_pos hc, if_neg (fun h => he h.2), AList.lookup_erase_ne he, lookup_getD, hc]
  · rw [if_neg hc, if_neg fun h => hc h.1]

theorem external?_eraseReverse (coll : String) (label : ℤ) (c : String) (l : ℤ) :
    (reg.eraseReverse coll label).external? c l =
      if c = coll ∧ l = label then none else reg.external? c l := by
  rw [external?, eraseReverse, lookup_insert_bind, external?]
  by_cases hc : c = coll
  · by_cases hl : l = label
    · rw [if_pos hc, if_pos ⟨hc, hl⟩, hl, AList.lookup_erase]
    · rw [if_pos hc, if_neg (fun h => hl h.2), AList.lookup_erase_ne hl, lookup_getD, hc]
  · rw [if_neg hc, if_neg fun h => hc h.1]

@[simp]
theorem label?_ensureCollection (coll c e : String) :
    (reg.ensureCollection coll).label? c e = reg.label? c e := lookup_setDefault_bind _ _ _ _

@[simp]
theorem external?_ensureCollection (coll c : String) (l : ℤ) :
    (reg.ensureCollection coll).external? c l = reg.external? c l := lookup_setDefault_bind _ _ _ _

@[simp]
theorem label?_eraseReverse (coll c e : String) (label : ℤ) :
    (reg.eraseReverse coll label).label? c e = reg.label? c e := rfl

@[simp]
theorem external?_eraseForward (coll ext c : String) (l : ℤ) :
    (reg.eraseForward coll ext).external? c l = reg.external? c l := rfl

/-! ## Outcomes -/

/-- A stripped name that is not blank is normal. -/
theorem normExternal_of_strip {ext : String} (hs : strip ext = ext) (hne : ext ≠ "") :
    normExternal ext = .ok ext := by
  rw [normExternal, hs, if_neg hne]

/-- The label of an id, `IdMappingError`, or `ValueError` for a blank collection. -/
theorem resolve_cases (collection : String) {ext : String} (hs : strip ext = ext) (hne : ext ≠ "") :
    (∃ label, reg.label? (strip collection) ext = some label ∧
        reg.resolve printable collection ext = .ok ⟨strip collection, ext, label⟩) ∨
      (∃ message, reg.label? (strip collection) ext = none ∧
        reg.resolve printable collection ext = .error (.idMapping message)) ∨
      ∃ message, strip collection = "" ∧
        reg.resolve printable collection ext = .error (.valueError message) := by
  rw [resolve, normCollection, normExternal_of_strip hs hne]
  by_cases hc : strip collection = ""
  · rw [if_pos hc]
    exact Or.inr (Or.inr ⟨_, hc, rfl⟩)
  · rw [if_neg hc]
    simp only
    rcases reg.label? (strip collection) ext with _ | label
    · exact Or.inr (Or.inl ⟨_, rfl, rfl⟩)
    · exact Or.inl ⟨label, rfl, rfl⟩

theorem label?_of_resolve {collection ext : String} {resolved : ResolvedId}
    (h : reg.resolve printable collection ext = .ok resolved) :
    reg.label? resolved.collection resolved.externalId = some resolved.label := by
  rw [resolve] at h
  split at h
  · cases h
  · cases h
  · split at h
    · cases h
    · rename_i hl
      cases h
      exact hl

/-- **What `drop` removes** from a registry that resolves the id, whether or not
it raises: the id on one side, its label on the other. -/
theorem drop_lookups {collection ext : String} {resolved : ResolvedId}
    (h : reg.resolve printable collection ext = .ok resolved) :
    (∀ c e, (reg.drop printable collection ext).2.label? c e =
        if c = resolved.collection ∧ e = resolved.externalId then none else reg.label? c e) ∧
      (∀ c l, (reg.drop printable collection ext).2.external? c l =
        if c = resolved.collection ∧ l = resolved.label then none else reg.external? c l) ∧
      (reg.drop printable collection ext).2.nextLabel = reg.nextLabel := by
  rw [drop, h]
  simp only
  rcases hm : (reg.eraseForward resolved.collection resolved.externalId).reverse.lookup
      resolved.collection with _ | m
  · refine ⟨fun c e => label?_eraseForward _ _ _ _, fun c l => ?_, rfl⟩
    by_cases hcl : c = resolved.collection ∧ l = resolved.label
    · rw [if_pos hcl, hcl.1, external?, hm]
      rfl
    · rw [if_neg hcl]
      rfl
  · simp only
    by_cases hlab : resolved.label ∈ m
    · rw [if_pos hlab]
      refine ⟨fun c e => ?_, fun c l => ?_, rfl⟩
      · rw [label?_eraseReverse, label?_eraseForward]
      · rw [external?_eraseReverse, external?_eraseForward]
    · rw [if_neg hlab]
      refine ⟨fun c e => label?_eraseForward _ _ _ _, fun c l => ?_, rfl⟩
      by_cases hcl : c = resolved.collection ∧ l = resolved.label
      · rw [if_pos hcl, hcl.1, hcl.2, external?, hm]
        exact AList.lookup_eq_none.mpr hlab
      · rw [if_neg hcl]
        rfl

/-- **What `register` does**, by the normal names: what it comes to, and the registry after. -/
inductive Registering (reg : Registry) (coll ext : String) (label : Option ℤ) :
    Except RegistryError ℤ × Registry → Prop where
  | blank (message : String) (hblank : coll = "" ∨ ext = "") :
      Registering reg coll ext label (.error (.valueError message), reg)
  | again (hnamed : coll ≠ "" ∧ ext ≠ "") (existing : ℤ)
      (hmapped : reg.label? coll ext = some existing)
      (hlabel : label = none ∨ label = some existing) :
      Registering reg coll ext label (.ok existing, reg.ensureCollection coll)
  | otherLabel (hnamed : coll ≠ "" ∧ ext ≠ "") (existing : ℤ) (message : String)
      (hmapped : reg.label? coll ext = some existing)
      (hlabel : ¬ (label = none ∨ label = some existing)) :
      Registering reg coll ext label (.error (.idMapping message), reg.ensureCollection coll)
  | new (hnamed : coll ≠ "" ∧ ext ≠ "") (l next : ℤ) (hnew : reg.label? coll ext = none)
      (hlabel : label = none ∨ label = some l ∧ reg.external? coll l = none) :
      Registering reg coll ext label (.ok l, (reg.ensureCollection coll).assign coll ext l next)
  | taken (hnamed : coll ≠ "" ∧ ext ≠ "") (l : ℤ) (owner message : String)
      (hnew : reg.label? coll ext = none) (hlabel : label = some l)
      (howner : reg.external? coll l = some owner) :
      Registering reg coll ext label (.error (.idMapping message), reg.ensureCollection coll)

theorem registering (collection externalId : String) (label : Option ℤ) :
    Registering reg (strip collection) (strip externalId) label
      (reg.register printable collection externalId label) := by
  rw [register, normCollection, normExternal]
  by_cases hc : strip collection = ""
  · rw [if_pos hc]
    exact .blank _ (.inl hc)
  by_cases he : strip externalId = ""
  · rw [if_neg hc, if_pos he]
    exact .blank _ (.inr he)
  rw [if_neg hc, if_neg he]
  dsimp only
  rcases hl : reg.label? (strip collection) (strip externalId) with _ | existing
  · rw [label?_ensureCollection, hl]
    dsimp only
    rcases label with _ | l
    · exact .new ⟨hc, he⟩ _ _ hl (.inl rfl)
    · rw [registerNew]
      rcases hown : reg.external? (strip collection) l with _ | owner
      · rw [external?_ensureCollection, hown]
        exact .new ⟨hc, he⟩ l _ hl (.inr ⟨rfl, hown⟩)
      · rw [external?_ensureCollection, hown]
        exact .taken ⟨hc, he⟩ l owner _ hl rfl hown
  · rw [label?_ensureCollection, hl]
    dsimp only
    split
    · exact .again ⟨hc, he⟩ existing hl ‹_›
    · exact .otherLabel ⟨hc, he⟩ existing _ hl ‹_›

/-! ## The two sides -/

/-- The two sides are inverse to each other, and new labels are above all of them. -/
structure Consistent (reg : Registry) : Prop where
  inverse : ∀ c e l, reg.label? c e = some l ↔ reg.external? c l = some e
  fresh : ∀ c e l, reg.label? c e = some l → l < (reg.nextLabel.lookup c).getD 0

/-- Within a collection no two ids share a label. -/
theorem Consistent.injective (h : reg.Consistent) {c e e' : String} {l : ℤ}
    (he : reg.label? c e = some l) (he' : reg.label? c e' = some l) : e = e' :=
  Option.some.inj (((h.inverse c e l).mp he).symm.trans ((h.inverse c e' l).mp he'))

theorem consistent_empty : empty.Consistent where
  inverse c e l := by
    constructor
    · intro h
      cases h
    · intro h
      cases h
  fresh c e l h := by cases h

theorem consistent_ensureCollection (h : reg.Consistent) (coll : String) :
    (reg.ensureCollection coll).Consistent where
  inverse c e l := by
    rw [label?_ensureCollection, external?_ensureCollection]
    exact h.inverse c e l
  fresh c e l hl := by
    rw [label?_ensureCollection] at hl
    have hlt := h.fresh c e l hl
    show l < ((reg.nextLabel.setDefault coll 0).lookup c).getD 0
    rw [Dict.setDefault]
    by_cases hk : coll ∈ reg.nextLabel
    · rw [if_pos hk]
      exact hlt
    · rw [if_neg hk]
      by_cases hc : c = coll
      · rw [hc, AList.lookup_eq_none.mpr hk] at hlt
        rw [hc, AList.lookup_insert]
        exact hlt
      · rw [AList.lookup_insert_ne hc]
        exact hlt

/-- A new id with a label that is not in use. -/
theorem consistent_assign (h : reg.Consistent) {coll ext : String} {label next : ℤ}
    (hext : reg.label? coll ext = none) (hlabel : reg.external? coll label = none)
    (hnext : (reg.nextLabel.lookup coll).getD 0 ≤ next) (hlt : label < next) :
    (reg.assign coll ext label next).Consistent where
  inverse c e l := by
    rw [label?_assign, external?_assign]
    by_cases hc : c = coll
    · subst hc
      by_cases he : e = ext
      · subst he
        rw [if_pos ⟨rfl, rfl⟩]
        by_cases hl : l = label
        · rw [if_pos ⟨rfl, hl⟩, hl]
          exact iff_of_true rfl rfl
        · rw [if_neg fun h => hl h.2]
          refine ⟨fun hs => absurd (Option.some.inj hs).symm hl, fun hs => ?_⟩
          rw [(h.inverse c e l).mpr hs] at hext
          cases hext
      · rw [if_neg fun h => he h.2]
        by_cases hl : l = label
        · subst hl
          rw [if_pos ⟨rfl, rfl⟩]
          refine ⟨fun hs => ?_, fun hs => absurd (Option.some.inj hs).symm he⟩
          rw [(h.inverse c e l).mp hs] at hlabel
          cases hlabel
        · rw [if_neg fun h => hl h.2]
          exact h.inverse c e l
    · rw [if_neg fun h => hc h.1, if_neg fun h => hc h.1]
      exact h.inverse c e l
  fresh c e l hl := by
    rw [label?_assign] at hl
    rw [assign]
    by_cases hc : c = coll
    · subst hc
      rw [AList.lookup_insert]
      by_cases he : e = ext
      · rw [if_pos ⟨rfl, he⟩] at hl
        rw [← Option.some.inj hl]
        exact hlt
      · rw [if_neg fun h => he h.2] at hl
        exact Int.lt_of_lt_of_le (h.fresh c e l hl) hnext
    · rw [if_neg fun h => hc h.1] at hl
      rw [AList.lookup_insert_ne hc]
      exact h.fresh c e l hl

theorem consistent_registerNew (h : reg.Consistent) {coll ext : String}
    (hext : reg.label? coll ext = none) (label : Option ℤ) :
    (reg.registerNew printable coll ext label).2.Consistent := by
  cases label with
  | none =>
    rw [registerNew]
    refine consistent_assign h hext ?_ (by omega) (by omega)
    -- the next label is above every label in use
    rcases hown : reg.external? coll ((reg.nextLabel.lookup coll).getD 0) with _ | owner
    · rfl
    · exact absurd (h.fresh coll owner _ ((h.inverse _ _ _).mpr hown)) (Int.lt_irrefl _)
  | some label =>
    rw [registerNew]
    rcases hown : reg.external? coll label with _ | owner
    · exact consistent_assign h hext hown (Int.le_max_left _ _) (by omega)
    · exact h

/-- **`register` keeps the two sides inverse**, also when it raises. -/
theorem consistent_register (h : reg.Consistent) (collection externalId : String)
    (label : Option ℤ) : (reg.register printable collection externalId label).2.Consistent := by
  rw [register]
  rcases normCollection collection with e | coll
  · exact h
  · rcases normExternal externalId with e | ext
    · exact h
    · have hens := consistent_ensureCollection h coll
      simp only
      rcases hl : (reg.ensureCollection coll).label? coll ext with _ | existing
      · exact consistent_registerNew hens hl label
      · simp only
        split
        · exact hens
        · exact hens

/-- **`drop` keeps the two sides inverse.** -/
theorem consistent_drop (h : reg.Consistent) (collection ext : String) :
    (reg.drop printable collection ext).2.Consistent := by
  rcases hres : reg.resolve printable collection ext with e | resolved
  · rw [drop, hres]
    exact h
  · obtain ⟨hlabel, hext, hnext⟩ := drop_lookups hres
    have hmap := label?_of_resolve hres
    refine ⟨fun c e l => ?_, fun c e l hl => ?_⟩
    · rw [hlabel, hext]
      by_cases hc : c = resolved.collection
      · subst hc
        by_cases he : e = resolved.externalId
        · subst he
          rw [if_pos ⟨rfl, rfl⟩]
          refine ⟨fun hs => (by cases hs), fun hs => ?_⟩
          split at hs
          · cases hs
          · rename_i hne
            have hl := (h.inverse _ _ _).mpr hs
            rw [hmap] at hl
            exact absurd ⟨rfl, (Option.some.inj hl).symm⟩ hne
        · rw [if_neg fun h => he h.2]
          by_cases hl : l = resolved.label
          · subst hl
            rw [if_pos ⟨rfl, rfl⟩]
            exact ⟨fun hs => absurd (h.injective hs hmap) he, fun hs => (by cases hs)⟩
          · rw [if_neg fun h => hl h.2]
            exact h.inverse _ e l
      · rw [if_neg fun h => hc h.1, if_neg fun h => hc h.1]
        exact h.inverse c e l
    · rw [hnext]
      rw [hlabel] at hl
      split at hl
      · cases hl
      · exact h.fresh c e l hl

/-- With the two sides inverse, `drop` of a mapped id does not raise. -/
theorem drop_ok (h : reg.Consistent) {collection ext : String} {resolved : ResolvedId}
    (hres : reg.resolve printable collection ext = .ok resolved) :
    ∃ label, (reg.drop printable collection ext).1 = .ok label := by
  have hown := (h.inverse _ _ _).mp (label?_of_resolve hres)
  rw [external?, Option.bind_eq_some_iff] at hown
  obtain ⟨m, hm, hlook⟩ := hown
  have hmem : resolved.label ∈ m := AList.lookup_isSome.mp (by rw [hlook]; rfl)
  refine ⟨resolved.label, ?_⟩
  have hm' : (reg.eraseForward resolved.collection resolved.externalId).reverse.lookup
      resolved.collection = some m := hm
  simp only [drop, hres, hm', if_pos hmem]

/-! ## Runs -/

/-- A call of the registry's interface. -/
inductive Call : Type where
  | register (collection externalId : String) (label : Option ℤ) : Call
  | drop (collection externalId : String) : Call

/-- The registry after a call, whether or not it raised. -/
def step (printable : Char → Bool) (reg : Registry) : Call → Registry
  | .register collection externalId label => (reg.register printable collection externalId label).2
  | .drop collection externalId => (reg.drop printable collection externalId).2

/-- The registry after a run of calls on a new one. -/
def run (printable : Char → Bool) (calls : List Call) : Registry :=
  calls.foldl (step printable) empty

/-- **Every run keeps the two sides inverse.** -/
theorem consistent_run (calls : List Call) : (run printable calls).Consistent := by
  have hfold : ∀ reg : Registry, reg.Consistent → (calls.foldl (step printable) reg).Consistent := by
    induction calls with
    | nil => exact fun _ h => h
    | cons call rest ih =>
      intro reg h
      refine ih _ ?_
      cases call with
      | register c e label => exact consistent_register h c e label
      | drop c e => exact consistent_drop h c e
  exact hfold empty consistent_empty

end Registry

end Unlearning
