import Mathlib.Data.List.Nodup
import Mathlib.Data.String.Basic
import Unlearning.Registry

/-!
# The id registry across restarts (`integrations/id_registry.py`, `save` and `load`)

`save` writes the forward maps and the counters as JSON with sorted keys; `load`
reads them into the registry and builds the reverse maps from the forward ones.
The JSON text itself is `json.dumps` followed by `json.loads`, which gives string
keys and integers back as they were; what the two functions do around it is the
order of the items, the rebuilt reverse maps and the default counters.

* `Registry.Kept`: the invariant of whole histories — the two sides are inverse,
  counters are above the labels in use, and the three dictionaries have the same
  collections;
* `same_load_save`: on such a registry, loading what was saved changes nothing;
* `labels_stay_fresh`: over every history, counters are above every label that
  was *ever* mapped.
-/

namespace Unlearning

namespace Dict

variable {α β : Type} [DecidableEq α]

/-- `d.items()` -/
def items (d : Dict α β) : List (α × β) := d.entries.map fun s => (s.1, s.2)

/-- A dictionary comprehension: later items win. -/
def ofItems (l : List (α × β)) : Dict α β := l.foldl (fun d p => d.insert p.1 p.2) ∅

/-- The items of a dict are what it maps. -/
theorem mem_items {d : Dict α β} {k : α} {v : β} : (k, v) ∈ d.items ↔ d.lookup k = some v := by
  rw [items, List.mem_map, ← Option.mem_def, AList.mem_lookup_iff]
  constructor
  · rintro ⟨⟨a, b⟩, hmem, heq⟩
    obtain ⟨rfl, rfl⟩ := Prod.mk.inj heq
    exact hmem
  · intro hmem
    exact ⟨⟨k, v⟩, hmem, rfl⟩

/-- No key occurs twice among them. -/
theorem nodup_keys_items (d : Dict α β) : (d.items.map Prod.fst).Nodup := by
  rw [items, List.map_map]
  exact d.nodupKeys

/-- Items inserted one after the other, over distinct keys. -/
theorem lookup_foldl_insert {l : List (α × β)} (hnd : (l.map Prod.fst).Nodup) (d : Dict α β)
    (k : α) (v : β) :
    (l.foldl (fun d p => d.insert p.1 p.2) d).lookup k = some v ↔
      (k, v) ∈ l ∨ k ∉ l.map Prod.fst ∧ d.lookup k = some v := by
  induction l generalizing d with
  | nil => simp
  | cons p rest ih =>
    obtain ⟨hp, hrest⟩ := List.nodup_cons.mp hnd
    rw [List.foldl_cons, ih hrest, List.map_cons, List.mem_cons, List.mem_cons]
    by_cases hk : k = p.1
    · subst hk
      rw [AList.lookup_insert]
      constructor
      · rintro (hmem | ⟨-, hv⟩)
        · exact absurd (List.mem_map_of_mem hmem) hp
        · exact Or.inl (Or.inl (by rw [← Option.some.inj hv]))
      · rintro ((heq | hmem) | ⟨hno, -⟩)
        · exact Or.inr ⟨hp, by rw [← heq]⟩
        · exact Or.inl hmem
        · exact absurd (Or.inl rfl) hno
    · rw [AList.lookup_insert_ne hk]
      have hne : (k, v) ≠ p := by
        rintro rfl
        exact hk rfl
      simp [hne, hk]

/-- With distinct keys, a comprehension maps exactly its items. -/
theorem lookup_ofItems {l : List (α × β)} (hnd : (l.map Prod.fst).Nodup) {k : α} {v : β} :
    (ofItems l).lookup k = some v ↔ (k, v) ∈ l := by
  rw [ofItems, lookup_foldl_insert hnd]
  simp

/-- A comprehension over the items of a dictionary. -/
theorem lookup_ofItems_map {γ : Type} (d : Dict α β) (f : β → γ) (k : α) :
    (ofItems (d.items.map fun p => (p.1, f p.2))).lookup k = (d.lookup k).map f := by
  apply Option.ext
  intro v
  rw [lookup_ofItems, Option.map_eq_some_iff, List.mem_map]
  · constructor
    · rintro ⟨⟨a, b⟩, hmem, heq⟩
      obtain ⟨rfl, rfl⟩ := Prod.mk.inj heq
      exact ⟨b, mem_items.mp hmem, rfl⟩
    · rintro ⟨b, hb, rfl⟩
      exact ⟨(k, b), mem_items.mpr hb, rfl⟩
  · rw [List.map_map]
    exact d.nodup_keys_items

/-- With distinct keys, the order of the items does not matter. -/
theorem lookup_ofItems_perm {l l' : List (α × β)} (hperm : l.Perm l')
    (hnd : (l'.map Prod.fst).Nodup) (k : α) : (ofItems l).lookup k = (ofItems l').lookup k := by
  have hnd' : (l.map Prod.fst).Nodup := (hperm.map Prod.fst).nodup_iff.mpr hnd
  apply Option.ext
  intro v
  rw [lookup_ofItems hnd, lookup_ofItems hnd', hperm.mem_iff]

/-- A default adds its key. -/
theorem mem_setDefault {d : Dict α β} {k a : α} {v : β} :
    a ∈ d.setDefault k v ↔ a = k ∨ a ∈ d := by
  rw [setDefault]
  split
  · rename_i hk
    constructor
    · exact Or.inr
    · rintro (rfl | ha)
      · exact hk
      · exact ha
  · exact AList.mem_insert _

/-- A default changes no value that is there. -/
theorem lookup_setDefault_of_lookup {d : Dict α β} {a : α} {b : β} (h : d.lookup a = some b)
    (k : α) (v : β) : (d.setDefault k v).lookup a = some b := by
  rw [setDefault]
  split
  · exact h
  · rename_i hk
    rw [AList.lookup_insert_ne, h]
    rintro rfl
    exact hk (AList.lookup_isSome.mp (by rw [h]; rfl))

/-- Defaults for keys that are there change nothing. -/
theorem foldl_setDefault {γ : Type} {l : List (α × γ)} {d : Dict α β} (f : γ → β)
    (h : ∀ p ∈ l, p.1 ∈ d) : l.foldl (fun d p => d.setDefault p.1 (f p.2)) d = d := by
  induction l with
  | nil => rfl
  | cons p rest ih =>
    obtain ⟨hp, hrest⟩ := List.forall_mem_cons.mp h
    rw [List.foldl_cons, setDefault, if_pos hp, ih hrest]

end Dict

namespace Registry

/-! ## Saving and loading -/

/-- The JSON document: objects as lists of members. -/
structure Payload where
  collections : List (String × List (String × ℤ))
  nextLabel : List (String × ℤ)

/-- `sort_keys=True` -/
def sortKeys {β : Type} (members : List (String × β)) : List (String × β) :=
  members.mergeSort fun a b => a.1 ≤ b.1

/-- `save`: the document written. -/
def save (reg : Registry) : Payload where
  collections := sortKeys (reg.forward.items.map fun p => (p.1, sortKeys p.2.items))
  nextLabel := sortKeys reg.nextLabel.items

/-- `max(m.values()) + 1`, or `0` for an empty map. -/
def defaultNext (m : Dict String ℤ) : ℤ :=
  match (m.items.map Prod.snd).max? with
  | some top => top + 1
  | none => 0

/-- `load`: every field is replaced. -/
def load (payload : Payload) : Registry :=
  let forward := Dict.ofItems (payload.collections.map fun p => (p.1, Dict.ofItems p.2))
  { forward := forward
    reverse := Dict.ofItems (forward.items.map fun p =>
      (p.1, Dict.ofItems (p.2.items.map fun q => (q.2, q.1))))
    nextLabel := forward.items.foldl (fun next p => next.setDefault p.1 (defaultNext p.2))
      (Dict.ofItems payload.nextLabel) }

/-! ## Histories -/

/-- What a history is made of. -/
inductive Op : Type where
  | ensureCollection (collection : String) : Op
  | register (collection externalId : String) (label : Option ℤ) : Op
  | drop (collection externalId : String) : Op
  /-- `save`, and `load` into a new registry -/
  | restart : Op

/-- The registry after an operation, whether or not it raised. -/
def perform (printable : Char → Bool) (reg : Registry) : Op → Registry
  | .ensureCollection collection => match normCollection collection with
    | .error _ => reg
    | .ok coll => reg.ensureCollection coll
  | .register collection externalId label => (reg.register printable collection externalId label).2
  | .drop collection externalId => (reg.drop printable collection externalId).2
  | .restart => load reg.save

/-- The registry after a history that starts with a new one. -/
def history (printable : Char → Bool) (ops : List Op) : Registry :=
  ops.foldl (perform printable) empty

/-- At some point of the history the label was mapped in the collection. -/
def EverMapped (printable : Char → Bool) (ops : List Op) (coll : String) (label : ℤ) : Prop :=
  ∃ before, before <+: ops ∧ ∃ ext, (history printable before).label? coll ext = some label

/-- The same maps and counters, as Python compares dictionaries. -/
structure Same (reg reg' : Registry) : Prop where
  forward : ∀ c, c ∈ reg.forward ↔ c ∈ reg'.forward
  label : ∀ c e, reg.label? c e = reg'.label? c e
  reverse : ∀ c, c ∈ reg.reverse ↔ c ∈ reg'.reverse
  external : ∀ c l, reg.external? c l = reg'.external? c l
  nextLabel : ∀ c, reg.nextLabel.lookup c = reg'.nextLabel.lookup c

/-- **The invariant of histories.** -/
structure Kept (reg : Registry) : Prop where
  consistent : reg.Consistent
  reverse : ∀ c, c ∈ reg.reverse ↔ c ∈ reg.forward
  nextLabel : ∀ c, c ∈ reg.nextLabel ↔ c ∈ reg.forward

/-- No counter goes back. -/
def CountersLe (reg reg' : Registry) : Prop :=
  ∀ c n, reg.nextLabel.lookup c = some n → ∃ n', reg'.nextLabel.lookup c = some n' ∧ n ≤ n'

section

variable {printable : Char → Bool} {reg reg' : Registry}

/-! ## Loading what was saved -/

/-- Sorted members are the members. -/
theorem sortKeys_perm {β : Type} (members : List (String × β)) :
    (sortKeys members).Perm members := List.mergeSort_perm _ _

/-- A collection's map is read back from its sorted members. -/
theorem lookup_forward_load (reg : Registry) (c : String) :
    (load reg.save).forward.lookup c =
      (reg.forward.lookup c).map fun m => Dict.ofItems (sortKeys m.items) := by
  have hperm : (reg.save.collections.map fun p => (p.1, Dict.ofItems p.2)).Perm
      (reg.forward.items.map fun p => (p.1, Dict.ofItems (sortKeys p.2.items))) := by
    have h := (sortKeys_perm (reg.forward.items.map fun p => (p.1, sortKeys p.2.items))).map
      fun p => (p.1, Dict.ofItems p.2)
    rwa [List.map_map] at h
  have hnd : ((reg.forward.items.map fun p => (p.1, Dict.ofItems (sortKeys p.2.items))).map
      Prod.fst).Nodup := by
    rw [List.map_map]
    exact reg.forward.nodup_keys_items
  rw [← Dict.lookup_ofItems_map]
  exact Dict.lookup_ofItems_perm hperm hnd c

/-- Sorting changes no lookup. -/
theorem lookup_ofItems_sortKeys {β : Type} (m : Dict String β) (k : String) :
    (Dict.ofItems (sortKeys m.items)).lookup k = m.lookup k := by
  apply Option.ext
  intro v
  have hperm := sortKeys_perm m.items
  have hnd : ((sortKeys m.items).map Prod.fst).Nodup :=
    (hperm.map Prod.fst).nodup_iff.mpr m.nodup_keys_items
  rw [Dict.lookup_ofItems hnd, hperm.mem_iff, Dict.mem_items]

/-- **The forward map is read back.** -/
theorem label?_load (reg : Registry) (c e : String) :
    (load reg.save).label? c e = reg.label? c e := by
  rw [label?, label?, lookup_forward_load]
  rcases reg.forward.lookup c with _ | m
  · rfl
  · exact lookup_ofItems_sortKeys m e

/-- A key is there exactly if it has a value. -/
theorem mem_iff_lookup {α β : Type} [DecidableEq α] {d : Dict α β} {k : α} :
    k ∈ d ↔ ∃ v, d.lookup k = some v := by
  rw [← AList.lookup_isSome, Option.isSome_iff_exists]

/-- The collections are read back. -/
theorem mem_forward_load (reg : Registry) (c : String) :
    c ∈ (load reg.save).forward ↔ c ∈ reg.forward := by
  rw [← AList.lookup_isSome, lookup_forward_load, Option.isSome_map, AList.lookup_isSome]

/-- The rebuilt reverse map of a forward map without shared labels. -/
theorem lookup_swapped {m : Dict String ℤ}
    (hinj : ∀ e e' l, m.lookup e = some l → m.lookup e' = some l → e = e') {l : ℤ} {e : String} :
    (Dict.ofItems (m.items.map fun q => (q.2, q.1))).lookup l = some e ↔ m.lookup e = some l := by
  have hnd : ((m.items.map fun q => (q.2, q.1)).map Prod.fst).Nodup := by
    rw [List.map_map]
    refine (List.Nodup.of_map _ m.nodup_keys_items).map_on ?_
    rintro ⟨e, l⟩ he ⟨e', l'⟩ he' heq
    obtain rfl : l = l' := heq
    rw [hinj e e' l (Dict.mem_items.mp he) (Dict.mem_items.mp he')]
  rw [Dict.lookup_ofItems hnd, List.mem_map, ← Dict.mem_items]
  constructor
  · rintro ⟨q, hq, heq⟩
    obtain ⟨rfl, rfl⟩ := Prod.mk.inj heq
    exact hq
  · intro h
    exact ⟨(e, l), h, rfl⟩

/-- The reverse map is rebuilt from the forward one. -/
theorem lookup_reverse_load (reg : Registry) (c : String) :
    (load reg.save).reverse.lookup c = ((load reg.save).forward.lookup c).map fun m =>
      Dict.ofItems (m.items.map fun q => (q.2, q.1)) := by
  rw [← Dict.lookup_ofItems_map]
  rfl

/-- **The reverse map is read back**, if it was the inverse. -/
theorem external?_load (h : reg.Consistent) (c : String) (l : ℤ) :
    (load reg.save).external? c l = reg.external? c l := by
  apply Option.ext
  intro e
  rw [← h.inverse, ← label?_load, external?, label?, lookup_reverse_load]
  rcases hm : (load reg.save).forward.lookup c with _ | m
  · simp
  · refine lookup_swapped ?_
    intro e e' l he he'
    have hlab : ∀ e, m.lookup e = reg.label? c e := by
      intro e
      rw [← label?_load, label?, hm]
      rfl
    exact h.injective ((hlab e).symm.trans he) ((hlab e').symm.trans he')

/-- **The counters are read back.** -/
theorem nextLabel_load (h : reg.Kept) (c : String) :
    (load reg.save).nextLabel.lookup c = reg.nextLabel.lookup c := by
  have hback : ∀ c, (Dict.ofItems reg.save.nextLabel).lookup c = reg.nextLabel.lookup c :=
    lookup_ofItems_sortKeys reg.nextLabel
  rw [← hback c]
  refine congrArg (AList.lookup c) (Dict.foldl_setDefault defaultNext ?_)
  rintro ⟨c', m⟩ hmem
  -- a collection with a forward map has a counter
  have hforward : c' ∈ (load reg.save).forward := mem_iff_lookup.mpr ⟨m, Dict.mem_items.mp hmem⟩
  rw [← AList.lookup_isSome, hback, AList.lookup_isSome, h.nextLabel, ← mem_forward_load]
  exact hforward

/-- **Loading what was saved changes nothing.** -/
theorem same_load_save (h : reg.Kept) : Same (load reg.save) reg where
  forward := mem_forward_load reg
  label := label?_load reg
  reverse c := by
    rw [h.reverse, ← mem_forward_load, ← AList.lookup_isSome, lookup_reverse_load,
      Option.isSome_map, AList.lookup_isSome]
  external := external?_load h.consistent
  nextLabel := nextLabel_load h

/-! ## Steps of a history -/

/-- Counters that did not move. -/
theorem CountersLe.of_eq (h : ∀ c, reg'.nextLabel.lookup c = reg.nextLabel.lookup c) :
    CountersLe reg reg' := fun c n hn => ⟨n, by rw [h c, hn], le_rfl⟩

/-- Consistency rests on what the dictionaries map. -/
theorem Same.kept (h : Same reg' reg) (hk : reg.Kept) : reg'.Kept where
  consistent :=
    { inverse := fun c e l => by
        rw [h.label, h.external]
        exact hk.consistent.inverse c e l
      fresh := fun c e l hl => by
        rw [h.nextLabel]
        rw [h.label] at hl
        exact hk.consistent.fresh c e l hl }
  reverse c := by rw [h.reverse, h.forward, hk.reverse]
  nextLabel c := by
    rw [h.forward, ← hk.nextLabel, ← AList.lookup_isSome, h.nextLabel, AList.lookup_isSome]

/-- The empty registry is consistent. -/
theorem kept_empty : empty.Kept where
  consistent := consistent_empty
  reverse c := by simp [empty]
  nextLabel c := by simp [empty]

/-- A new collection changes no mapping, and starts its counter. -/
theorem kept_ensureCollection (h : reg.Kept) (coll : String) :
    (reg.ensureCollection coll).Kept ∧ CountersLe reg (reg.ensureCollection coll) := by
  refine ⟨⟨consistent_ensureCollection h.consistent coll, fun c => ?_, fun c => ?_⟩, ?_⟩
  · simp only [ensureCollection, Dict.mem_setDefault, h.reverse]
  · simp only [ensureCollection, Dict.mem_setDefault, h.nextLabel]
  · intro c n hn
    exact ⟨n, Dict.lookup_setDefault_of_lookup hn coll 0, le_rfl⟩

/-- The two assignments, for a label that is not in use. -/
theorem kept_assign (h : reg.Kept) {coll ext : String} {label next : ℤ}
    (hext : reg.label? coll ext = none) (hlabel : reg.external? coll label = none)
    (hnext : (reg.nextLabel.lookup coll).getD 0 ≤ next) (hlt : label < next) :
    (reg.assign coll ext label next).Kept ∧ CountersLe reg (reg.assign coll ext label next) := by
  refine ⟨⟨consistent_assign h.consistent hext hlabel hnext hlt, fun c => ?_, fun c => ?_⟩, ?_⟩
  · simp only [assign, AList.mem_insert, h.reverse]
  · simp only [assign, AList.mem_insert, h.nextLabel]
  · intro c n hn
    by_cases hc : c = coll
    · subst hc
      refine ⟨next, AList.lookup_insert _, ?_⟩
      rwa [hn] at hnext
    · exact ⟨n, by rw [assign, AList.lookup_insert_ne hc, hn], le_rfl⟩

/-- A new id keeps the registry consistent, and the counters only grow. -/
theorem kept_registerNew (h : reg.Kept) {coll ext : String} (hext : reg.label? coll ext = none)
    (label : Option ℤ) :
    (reg.registerNew printable coll ext label).2.Kept ∧
      CountersLe reg (reg.registerNew printable coll ext label).2 := by
  cases label with
  | none =>
    rw [registerNew]
    refine kept_assign h hext ?_ (by omega) (by omega)
    rcases hown : reg.external? coll ((reg.nextLabel.lookup coll).getD 0) with _ | owner
    · rfl
    · have hlt := h.consistent.fresh coll owner _ ((h.consistent.inverse _ _ _).mpr hown)
      exact absurd hlt (Int.lt_irrefl _)
  | some label =>
    rw [registerNew]
    rcases hown : reg.external? coll label with _ | owner
    · exact kept_assign h hext hown (Int.le_max_left _ _) (by omega)
    · exact ⟨h, .of_eq fun _ => rfl⟩

/-- Counters grow over two steps. -/
theorem CountersLe.trans {reg'' : Registry} (h : CountersLe reg reg') (h' : CountersLe reg' reg'') :
    CountersLe reg reg'' := by
  intro c n hn
  obtain ⟨n', hn', hle⟩ := h c n hn
  obtain ⟨n'', hn'', hle'⟩ := h' c n' hn'
  exact ⟨n'', hn'', hle.trans hle'⟩

/-- `register` keeps the registry consistent, and the counters only grow, also where it raises. -/
theorem kept_register (h : reg.Kept) (collection externalId : String) (label : Option ℤ) :
    (reg.register printable collection externalId label).2.Kept ∧
      CountersLe reg (reg.register printable collection externalId label).2 := by
  rw [register]
  rcases normCollection collection with e | coll
  · exact ⟨h, .of_eq fun _ => rfl⟩
  · rcases normExternal externalId with e | ext
    · exact ⟨h, .of_eq fun _ => rfl⟩
    · obtain ⟨hens, hle⟩ := kept_ensureCollection h coll
      simp only
      rcases hl : (reg.ensureCollection coll).label? coll ext with _ | existing
      · exact (kept_registerNew hens hl label).imp_right hle.trans
      · simp only
        split
        · exact ⟨hens, hle⟩
        · exact ⟨hens, hle⟩

/-- Inserting at a key that is there adds no key. -/
theorem mem_insert_of_mem {α β : Type} [DecidableEq α] {d : Dict α β} {k : α} (hk : k ∈ d) (v : β)
    (a : α) : a ∈ d.insert k v ↔ a ∈ d := by
  rw [AList.mem_insert]
  constructor
  · rintro (rfl | ha)
    · exact hk
    · exact ha
  · exact Or.inr

/-- `drop` removes entries of maps, never a map. -/
theorem mem_drop {collection ext : String} {resolved : ResolvedId}
    (h : reg.resolve printable collection ext = .ok resolved) :
    (∀ c, c ∈ (reg.drop printable collection ext).2.forward ↔ c ∈ reg.forward) ∧
      ∀ c, c ∈ (reg.drop printable collection ext).2.reverse ↔ c ∈ reg.reverse := by
  have hforward : resolved.collection ∈ reg.forward := by
    obtain ⟨m, hm, -⟩ := Option.bind_eq_some_iff.mp (label?_of_resolve h)
    exact mem_iff_lookup.mpr ⟨m, hm⟩
  have herase : ∀ c, c ∈ (reg.eraseForward resolved.collection resolved.externalId).forward ↔
      c ∈ reg.forward := mem_insert_of_mem hforward _
  rw [drop, h]
  simp only
  rcases hm : (reg.eraseForward resolved.collection resolved.externalId).reverse.lookup
      resolved.collection with _ | m
  · exact ⟨herase, fun _ => Iff.rfl⟩
  · simp only
    split
    · exact ⟨herase, mem_insert_of_mem (mem_iff_lookup.mpr ⟨m, hm⟩) _⟩
    · exact ⟨herase, fun _ => Iff.rfl⟩

/-- `drop` keeps the registry consistent, and the counters. -/
theorem kept_drop (h : reg.Kept) (collection ext : String) :
    (reg.drop printable collection ext).2.Kept ∧
      CountersLe reg (reg.drop printable collection ext).2 := by
  have hcons : (reg.drop printable collection ext).2.Consistent :=
    consistent_drop h.consistent collection ext
  rcases hres : reg.resolve printable collection ext with e | resolved
  · rw [drop, hres]
    exact ⟨h, .of_eq fun _ => rfl⟩
  · obtain ⟨-, -, hnext⟩ := drop_lookups hres
    obtain ⟨hforward, hreverse⟩ := mem_drop hres
    refine ⟨⟨hcons, fun c => ?_, fun c => ?_⟩, .of_eq fun c => by rw [hnext]⟩
    · rw [hforward, hreverse, h.reverse]
    · rw [hforward, hnext, h.nextLabel]

/-- **One operation** keeps the invariant and takes no counter back. -/
theorem kept_perform (h : reg.Kept) (op : Op) :
    (reg.perform printable op).Kept ∧ CountersLe reg (reg.perform printable op) := by
  cases op with
  | ensureCollection collection =>
    rw [perform]
    rcases normCollection collection with e | coll
    · exact ⟨h, .of_eq fun _ => rfl⟩
    · exact kept_ensureCollection h coll
  | register collection externalId label => exact kept_register h collection externalId label
  | drop collection externalId => exact kept_drop h collection externalId
  | restart => exact ⟨(same_load_save h).kept h, .of_eq (nextLabel_load h)⟩

/-! ## Whole histories -/

/-- One more operation. -/
theorem history_append (ops : List Op) (op : Op) :
    history printable (ops ++ [op]) = (history printable ops).perform printable op := by
  rw [history, List.foldl_append]
  rfl

/-- **Every history leaves the registry consistent.** -/
theorem kept_history (ops : List Op) : (history printable ops).Kept := by
  induction ops using List.reverseRecOn with
  | nil => exact kept_empty
  | append_singleton ops op ih =>
    rw [history_append]
    exact (kept_perform ih op).1

/-- A label in use has a counter above it. -/
theorem Kept.counter_gt (h : reg.Kept) {c e : String} {l : ℤ} (hl : reg.label? c e = some l) :
    ∃ n, reg.nextLabel.lookup c = some n ∧ l < n := by
  obtain ⟨m, hm, -⟩ := Option.bind_eq_some_iff.mp hl
  obtain ⟨n, hn⟩ := mem_iff_lookup.mp ((h.nextLabel c).mpr (mem_iff_lookup.mpr ⟨m, hm⟩))
  have hlt := h.consistent.fresh c e l hl
  rw [hn] at hlt
  exact ⟨n, hn, hlt⟩

/-- **Counters are above every label ever mapped**, by induction on the history:
what the last operation maps is below the counter it leaves, and counters do not
go back. -/
theorem labels_stay_fresh {ops : List Op} {c : String} {l : ℤ} (h : EverMapped printable ops c l) :
    ∃ n, (history printable ops).nextLabel.lookup c = some n ∧ l < n := by
  induction ops using List.reverseRecOn with
  | nil =>
    obtain ⟨before, hbefore, e, he⟩ := h
    obtain rfl := List.prefix_nil.mp hbefore
    cases he
  | append_singleton ops op ih =>
    obtain ⟨before, hbefore, e, he⟩ := h
    rcases List.prefix_concat_iff.mp hbefore with rfl | hearlier
    · exact (kept_history _).counter_gt he
    · obtain ⟨n, hn, hlt⟩ := ih ⟨before, hearlier, e, he⟩
      obtain ⟨n', hn', hle⟩ := (kept_perform (kept_history ops) op).2 c n hn
      rw [history_append]
      exact ⟨n', hn', by omega⟩

/-- An automatic label for an id that is not mapped is the counter. -/
theorem register_none_ok {collection externalId : String} {l : ℤ}
    (h : reg.register printable collection externalId none = (.ok l, reg'))
    (hnew : reg.label? (PyText.strip collection) (PyText.strip externalId) = none) :
    l = ((reg.ensureCollection (PyText.strip collection)).nextLabel.lookup
      (PyText.strip collection)).getD 0 := by
  rw [register, normCollection, normExternal] at h
  split at h
  · cases h
  · cases h
  · rename_i coll ext hcoll hext
    split at hcoll
    · cases hcoll
    · split at hext
      · cases hext
      · obtain rfl := Except.ok.inj hcoll
        obtain rfl := Except.ok.inj hext
        simp only [label?_ensureCollection, hnew, registerNew] at h
        exact (Except.ok.inj (Prod.mk.inj h).1).symm

/-- **The registry over whole histories.** After every sequence of operations, in
every collection: the forward and the reverse map are inverse to each other; the
counter is greater than every label ever mapped; a label allocated automatically is
greater than every label ever mapped; and loading what is saved now gives the same
maps and counters. -/
theorem registry_history (printable : Char → Bool) (ops : List Op) :
    (∀ c e l, (history printable ops).label? c e = some l ↔
      (history printable ops).external? c l = some e) ∧
    (∀ c l, EverMapped printable ops c l →
      ∃ n, (history printable ops).nextLabel.lookup c = some n ∧ l < n) ∧
    (∀ collection externalId l reg',
      (history printable ops).register printable collection externalId none = (.ok l, reg') →
      (history printable ops).label? (PyText.strip collection) (PyText.strip externalId) = none →
      ∀ used, EverMapped printable ops (PyText.strip collection) used → used < l) ∧
    Same (load (history printable ops).save) (history printable ops) := by
  have hkept : (history printable ops).Kept := kept_history ops
  refine ⟨hkept.consistent.inverse, fun c l => labels_stay_fresh, ?_, same_load_save hkept⟩
  intro collection externalId l reg' hreg hnew used hused
  obtain ⟨n, hn, hlt⟩ := labels_stay_fresh hused
  rw [register_none_ok hreg hnew, ensureCollection]
  dsimp only
  rw [Dict.lookup_setDefault_of_lookup hn, Option.getD_some]
  exact hlt

/-- `alice` had label `0`, was dropped, and the registry was restarted. -/
def aliceDropped : List Op :=
  [.register "users" "alice" none, .drop "users" "alice", .restart]

/-- The next id of the collection does not get her label. -/
theorem registry_history_aliceDropped : EverMapped (fun _ => true) aliceDropped "users" 0 ∧
    ((history (fun _ => true) aliceDropped).register (fun _ => true) "users" "bob" none).1 = .ok 1 ∧
    (0 : ℤ) < 1 := by
  have hused : EverMapped (fun _ => true) aliceDropped "users" 0 :=
    ⟨[.register "users" "alice" none], List.cons_prefix_cons.mpr ⟨rfl, List.nil_prefix⟩,
      "alice", by decide +kernel⟩
  have hbob : ((history (fun _ => true) aliceDropped).register (fun _ => true) "users" "bob"
      none).1 = .ok 1 := by decide +kernel
  refine ⟨hused, hbob, ?_⟩
  have hnew : (history (fun _ => true) aliceDropped).label? (PyText.strip "users")
      (PyText.strip "bob") = none := by decide +kernel
  have hstrip : PyText.strip "users" = "users" := by decide +kernel
  exact (registry_history (fun _ => true) aliceDropped).2.2.1 "users" "bob" 1 _
    (Prod.ext hbob rfl) hnew 0 (by rwa [hstrip])

end

end Registry

end Unlearning
