import Mathlib.Data.Set.Function
import Unlearning.ErrorKinds
import Unlearning.RegistryFile

/-!
# Receipts and the spelling of ids

`_derive_status` reads off the texts of the errors what kind of errors they are, and
`f"{ext}: {exc}"`, the error of an id whose erase raised, begins with the id. So a
batch is run here twice: as it is, and with every id renamed by `ρ` in the registry
and in the call.

* `Registry.Respells`: what two registries have in common that differ in the names of
  their ids only;
* `Service.Alike`: what the loop keeps between the two runs;
* `Service.respelled_iff`: the two receipts have one status unless every requested id
  that is mapped raises, and the text `"skip "` begins these ids in one spelling only.
-/

namespace Unlearning

open PyText FloatArith PyFloat

/-! ## Renamed registries -/

/-- A dictionary of ids with its keys renamed. -/
def Dict.respellKeys (ρ : String → String) (m : Dict String ℤ) : Dict String ℤ :=
  .ofItems (m.items.map fun p => (ρ p.1, p.2))

/-- A dictionary to ids with its values renamed. -/
def Dict.respellValues (ρ : String → String) (m : Dict ℤ String) : Dict ℤ String :=
  .ofItems (m.items.map fun p => (p.1, ρ p.2))

/-- A key is found under its new spelling, if no two fall together. -/
theorem Dict.lookup_respellKeys {ρ : String → String} {m : Dict String ℤ} {ids : Set String}
    (hρ : Set.InjOn ρ ids) (hm : ∀ e l, m.lookup e = some l → e ∈ ids) {ext : String}
    (hext : ext ∈ ids) : (m.respellKeys ρ).lookup (ρ ext) = m.lookup ext := by
  have hnodup : ((m.items.map fun p => (ρ p.1, p.2)).map Prod.fst).Nodup := by
    rw [List.map_map]
    refine List.Nodup.map_on ?_ (List.Nodup.of_map _ m.nodup_keys_items)
    rintro ⟨e, l⟩ he ⟨e', l'⟩ he' heq
    have hl := Dict.mem_items.mp he
    have hl' := Dict.mem_items.mp he'
    obtain rfl := hρ (hm e l hl) (hm e' l' hl') heq
    rw [hl] at hl'
    rw [Option.some.inj hl']
  apply Option.ext
  intro l
  rw [Dict.respellKeys, Dict.lookup_ofItems hnodup, List.mem_map]
  constructor
  · rintro ⟨⟨e, l'⟩, he, heq⟩
    obtain ⟨hname, rfl⟩ := Prod.mk.inj heq
    have hl := Dict.mem_items.mp he
    rwa [← hρ (hm e l' hl) hext hname]
  · intro hl
    exact ⟨(ext, l), Dict.mem_items.mpr hl, rfl⟩

namespace Registry

/-- The registry with every id renamed. -/
def respell (ρ : String → String) (reg : Registry) : Registry where
  forward := .ofItems (reg.forward.items.map fun p => (p.1, Dict.respellKeys ρ p.2))
  reverse := .ofItems (reg.reverse.items.map fun p => (p.1, Dict.respellValues ρ p.2))
  nextLabel := reg.nextLabel

/-- The ids of a registry and of a request. -/
def spelt (reg : Registry) (requested : List String) : Set String :=
  {ext | ext ∈ requested ∨ ∃ coll label, reg.label? coll ext = some label}

/-- `reg'` is `reg` with its ids renamed, as far as it is asked about `ids`. -/
structure Respells (ids : Set String) (ρ : String → String) (reg reg' : Registry) : Prop where
  label? : ∀ coll, ∀ ext ∈ ids, reg'.label? coll (ρ ext) = reg.label? coll ext
  external? : ∀ coll label, reg'.external? coll label = (reg.external? coll label).map ρ

/-- An injective renaming renames. -/
theorem respells_respell {ρ : String → String} {reg : Registry} {requested : List String}
    (hρ : Set.InjOn ρ (reg.spelt requested)) :
    Respells (reg.spelt requested) ρ reg (reg.respell ρ) where
  label? coll ext hext := by
    rw [Registry.label?, Registry.label?, respell, Dict.lookup_ofItems_map]
    rcases hm : reg.forward.lookup coll with _ | m
    · rfl
    · refine Dict.lookup_respellKeys hρ (fun e l hl => .inr ⟨coll, l, ?_⟩) hext
      rw [Registry.label?, hm]
      exact hl
  external? coll label := by
    rw [Registry.external?, Registry.external?, respell, Dict.lookup_ofItems_map]
    rcases reg.reverse.lookup coll with _ | m
    · rfl
    · exact Dict.lookup_ofItems_map m ρ label

section

variable {ids : Set String} {ρ : String → String} {reg reg' : Registry}
  {printable : Char → Bool} {collection : String}

/-- The labels of a collection are those with an id. -/
theorem mem_labels (reg : Registry) (coll : String) (label : ℤ) :
    label ∈ ((reg.reverse.lookup coll).map AList.keys).getD [] ↔
      (reg.external? coll label).isSome = true := by
  rw [Registry.external?]
  rcases reg.reverse.lookup coll with _ | m
  · simp
  · rw [Option.map_some, Option.getD_some, Option.bind_some, AList.lookup_isSome]
    exact Iff.rfl

/-- No label is listed twice. -/
theorem nodup_labels (reg : Registry) (coll : String) :
    (((reg.reverse.lookup coll).map AList.keys).getD []).Nodup := by
  rcases reg.reverse.lookup coll with _ | m
  · exact List.nodup_nil
  · exact m.nodupKeys

/-- The registries have equally many labels. -/
theorem Respells.registrySize (h : Respells ids ρ reg reg') (collection : String) (count : ℕ) :
    Service.registrySize reg' collection count = Service.registrySize reg collection count := by
  rw [Service.registrySize, Service.registrySize, labels, labels]
  rcases normCollection collection with e | coll
  · rfl
  · have hperm : (((reg'.reverse.lookup coll).map AList.keys).getD []).Perm
        (((reg.reverse.lookup coll).map AList.keys).getD []) := by
      refine (List.perm_ext_iff_of_nodup (nodup_labels reg' coll) (nodup_labels reg coll)).mpr ?_
      intro label
      rw [mem_labels, mem_labels, h.external?, Option.isSome_map]
    simp only [hperm.length_eq]

/-- An id resolves in both registries to the same label, or raises the same exception
but for its text. -/
theorem Respells.resolve (h : Respells ids ρ reg reg') (printable : Char → Bool)
    (collection : String) {ext : String} (hs : strip ext = ext)
    (hne : ext ≠ "") (hs' : strip (ρ ext) = ρ ext) (hne' : ρ ext ≠ "") (hext : ext ∈ ids) :
    (∃ label, reg.resolve printable collection ext = .ok ⟨strip collection, ext, label⟩ ∧
        reg'.resolve printable collection (ρ ext) = .ok ⟨strip collection, ρ ext, label⟩) ∨
      (∃ m m', reg.resolve printable collection ext = .error (.idMapping m) ∧
        reg'.resolve printable collection (ρ ext) = .error (.idMapping m')) ∨
      ∃ m m', reg.resolve printable collection ext = .error (.valueError m) ∧
        reg'.resolve printable collection (ρ ext) = .error (.valueError m') := by
  rw [Registry.resolve, Registry.resolve, normExternal_of_strip hs hne,
    normExternal_of_strip hs' hne', normCollection]
  by_cases hc : strip collection = ""
  · rw [if_pos hc]
    exact .inr (.inr ⟨_, _, rfl, rfl⟩)
  · rw [if_neg hc]
    simp only [h.label? _ ext hext]
    rcases reg.label? (strip collection) ext with _ | label
    · exact .inr (.inl ⟨_, _, rfl, rfl⟩)
    · exact .inl ⟨label, rfl, rfl⟩

/-- `drop` of a mapped id returns where the other side of the registry has its label. -/
theorem drop_isOk {ext : String} {resolved : ResolvedId}
    (h : reg.resolve printable collection ext = .ok resolved) :
    (reg.drop printable collection ext).1.toBool =
      (reg.external? resolved.collection resolved.label).isSome := by
  rw [drop, h, Registry.external?]
  simp only
  rw [show (reg.eraseForward resolved.collection resolved.externalId).reverse = reg.reverse
    from rfl]
  rcases reg.reverse.lookup resolved.collection with _ | m
  · rfl
  · rw [Option.bind_some]
    rcases hl : m.lookup resolved.label with _ | owner
    · simp only [if_neg (AList.lookup_eq_none.mp hl)]
      rfl
    · simp only [if_pos (AList.lookup_isSome.mp (by rw [hl]; rfl))]
      rfl

/-- Dropping an id from both registries. -/
theorem Respells.drop (h : Respells ids ρ reg reg') (hρ : Set.InjOn ρ ids) {ext : String}
    {label : ℤ} (hext : ext ∈ ids)
    (hres : reg.resolve printable collection ext = .ok ⟨strip collection, ext, label⟩)
    (hres' : reg'.resolve printable collection (ρ ext) = .ok ⟨strip collection, ρ ext, label⟩) :
    Respells ids ρ (reg.drop printable collection ext).2
        (reg'.drop printable collection (ρ ext)).2 ∧
      (reg'.drop printable collection (ρ ext)).1.toBool =
        (reg.drop printable collection ext).1.toBool := by
  obtain ⟨hlabel, hexternal, -⟩ := drop_lookups hres
  obtain ⟨hlabel', hexternal', -⟩ := drop_lookups hres'
  refine ⟨⟨fun coll e he => ?_, fun coll l => ?_⟩, ?_⟩
  · rw [hlabel, hlabel', h.label? coll e he]
    simp only [hρ.eq_iff he hext]
  · rw [hexternal, hexternal', h.external?]
    split
    · rfl
    · rfl
  · rw [drop_isOk hres', drop_isOk hres, h.external?, Option.isSome_map]

end

end Registry

/-! ## Renamed calls -/

/-- The call with every id renamed. -/
def DeleteCall.respell (ρ : String → String) (call : DeleteCall) : DeleteCall :=
  { call with ids := call.ids.map ρ }

/-- Ids that are stripped and not empty are taken as they are. -/
theorem DeleteCall.extIds_eq_ids {call : DeleteCall} (h : ∀ ext ∈ call.ids, IsId ext) :
    call.extIds = call.ids := by
  have hstrip : call.ids.map strip = call.ids.map id :=
    List.map_congr_left fun ext he => (h ext he).1
  rw [extIds, batchIds, hstrip, List.map_id]
  exact List.filter_eq_self.mpr fun ext he => by simpa using (h ext he).2

/-- Ids that stay ids are respelled one by one. -/
theorem DeleteCall.extIds_respell {call : DeleteCall} {ρ : String → String}
    (h : ∀ ext ∈ call.ids, IsId ext) (hρ : ∀ ext ∈ call.ids, IsId (ρ ext)) :
    (call.respell ρ).extIds = call.extIds.map ρ := by
  rw [extIds_eq_ids h, extIds_eq_ids]
  · rfl
  · intro ext he
    obtain ⟨e, hmem, rfl⟩ := List.mem_map.mp he
    exact hρ e hmem

namespace Service

variable {σ D : Type} {svc : Service σ D} {amb : Ambient σ D} {call : DeleteCall}
  {ids : Set String} {ρ : String → String}

/-! ## The loop under two spellings -/

/-- The loops of the two runs are at one place: the world outside and the labels are
the same, the ids and the registries are renamed, and there are as many errors. -/
structure Alike (ids : Set String) (ρ : String → String) (b b' : Batch σ D) : Prop where
  registry : b.registry.Respells ids ρ b'.registry
  outside : b'.outside = b.outside
  labels : b'.labels = b.labels
  errors : b'.errors.length = b.errors.length
  erasedExt : b'.erasedExt = b.erasedExt.map ρ
  originals : b'.originals = b.originals

/-- The residual snapshot reads labels only. -/
theorem Alike.snapshot {b b' : Batch σ D} (h : Alike ids ρ b b') (svc : Service σ D)
    (mode : ProofMode) (label : ℤ) :
    Alike ids ρ (snapshot svc mode label b) (snapshot svc mode label b') := by
  obtain ⟨hreg, hout, hlabels, herrors, hext, horig⟩ := h
  unfold Service.snapshot
  split
  · exact ⟨hreg, hout, hlabels, herrors, hext, horig⟩
  · exact ⟨hreg, hout, hlabels, herrors, hext, horig⟩
  · rename_i getVector _ _
    rw [hout, horig]
    rcases getVector label b.outside with ⟨e | vec, o⟩
    · exact ⟨hreg, rfl, hlabels, herrors, hext, rfl⟩
    · exact ⟨hreg, rfl, hlabels, herrors, hext, rfl⟩

/-- Dropping a mapping, under either spelling. -/
theorem Alike.dropMapping {b b' : Batch σ D} (h : Alike ids ρ b b') (hρ : Set.InjOn ρ ids)
    {ext : String} {label : ℤ} (hext : ext ∈ ids)
    (hres : b.registry.resolve amb.printable call.collection ext =
      .ok ⟨strip call.collection, ext, label⟩)
    (hres' : b'.registry.resolve amb.printable call.collection (ρ ext) =
      .ok ⟨strip call.collection, ρ ext, label⟩) :
    Alike ids ρ (dropMapping svc amb call ext b)
      (dropMapping svc amb (call.respell ρ) (ρ ext) b') := by
  obtain ⟨hreg, hsame⟩ := h.registry.drop hρ hext hres hres'
  rw [Service.dropMapping, Service.dropMapping]
  rw [show (call.respell ρ).collection = call.collection from rfl]
  split
  · rcases hd : b.registry.drop amb.printable call.collection ext with ⟨e | l, reg⟩
    · rcases hd' : b'.registry.drop amb.printable call.collection (ρ ext) with ⟨e' | l', reg'⟩
      · rw [hd, hd'] at hreg
        refine ⟨hreg, h.outside, h.labels, ?_, h.erasedExt, h.originals⟩
        simp only [List.length_append, h.errors, List.length_singleton]
      · rw [hd, hd'] at hsame
        cases hsame
    · rcases hd' : b'.registry.drop amb.printable call.collection (ρ ext) with ⟨e' | l', reg'⟩
      · rw [hd, hd'] at hsame
        cases hsame
      · rw [hd, hd'] at hreg
        exact ⟨hreg, h.outside, h.labels, h.errors, h.erasedExt, h.originals⟩
  · exact h

/-- Verifying an id, under either spelling. -/
theorem Alike.verifyErased {b b' : Batch σ D} (h : Alike ids ρ b b') (hρ : Set.InjOn ρ ids)
    {ext : String} {label : ℤ} (hext : ext ∈ ids)
    (hres : b.registry.resolve amb.printable call.collection ext =
      .ok ⟨strip call.collection, ext, label⟩)
    (hres' : b'.registry.resolve amb.printable call.collection (ρ ext) =
      .ok ⟨strip call.collection, ρ ext, label⟩) (br : BackendEraseResult) :
    Alike ids ρ (verifyErased svc amb call ext label br b)
      (verifyErased svc amb (call.respell ρ) (ρ ext) label br b') := by
  rw [Service.verifyErased, Service.verifyErased]
  rw [show (call.respell ρ).collection = call.collection from rfl, h.outside]
  rcases svc.backend.verifyZeroed call.collection label b.outside with ⟨e | zeroed, o⟩
  · refine ⟨h.registry, rfl, h.labels, ?_, h.erasedExt, h.originals⟩
    simp only [List.length_append, h.errors, List.length_singleton]
  · rcases zeroed with _ | _
    · refine ⟨h.registry, rfl, h.labels, ?_, h.erasedExt, h.originals⟩
      simp only [List.length_append, h.errors, List.length_singleton]
    · have hcount : Alike ids ρ (count ext label br { b with outside := o })
          (count (ρ ext) label br { b' with outside := o }) := by
        refine ⟨h.registry, rfl, ?_, h.errors, ?_, h.originals⟩
        · simp only [count, h.labels]
        · simp only [count, h.erasedExt, List.map_append, List.map_cons, List.map_nil]
      exact hcount.dropMapping hρ hext hres hres'

/-- Erasing an id, under either spelling. -/
theorem Alike.eraseResolved {b b' : Batch σ D} (h : Alike ids ρ b b') (hρ : Set.InjOn ρ ids)
    {ext : String} {label : ℤ} (hext : ext ∈ ids)
    (hres : b.registry.resolve amb.printable call.collection ext =
      .ok ⟨strip call.collection, ext, label⟩)
    (hres' : b'.registry.resolve amb.printable call.collection (ρ ext) =
      .ok ⟨strip call.collection, ρ ext, label⟩) :
    Alike ids ρ (eraseResolved svc amb call ext label b)
      (eraseResolved svc amb (call.respell ρ) (ρ ext) label b') := by
  have hsnap := h.snapshot svc (svc.proofMode amb call) label
  obtain ⟨o, originals, heq⟩ := @snapshot_frame σ D svc (svc.proofMode amb call) label b
  obtain ⟨o', originals', heq'⟩ := @snapshot_frame σ D svc (svc.proofMode amb call) label b'
  rw [Service.eraseResolved, Service.eraseResolved]
  rw [show svc.proofMode amb (call.respell ρ) = svc.proofMode amb call from rfl]
  rw [heq, heq'] at hsnap ⊢
  obtain ⟨hreg, hout, hlabels, herrors, herased, horig⟩ := hsnap
  simp only at hout
  subst hout
  rw [show svc.eraseLabel (call.respell ρ) label = svc.eraseLabel call label from rfl]
  simp only
  rcases svc.eraseLabel call label o' with ⟨e | ⟨br, tx⟩, o₁⟩
  · refine ⟨hreg, rfl, hlabels, ?_, herased, horig⟩
    simp only [List.length_append, h.errors, List.length_singleton]
  · simp only
    split
    · have hopen : Alike ids ρ
          { b with outside := o₁, originals := originals, txIds := b.txIds ++ tx.toList }
          { b' with outside := o₁, originals := originals', txIds := b'.txIds ++ tx.toList } :=
        ⟨hreg, rfl, hlabels, herrors, herased, horig⟩
      exact hopen.verifyErased hρ hext hres hres' br
    · refine ⟨hreg, rfl, hlabels, ?_, herased, horig⟩
      simp only [List.length_append, h.errors, List.length_singleton]

/-- **The turn of one id**: it raises out of both runs, or leaves them alike. -/
theorem Alike.eraseId {b b' : Batch σ D} (h : Alike ids ρ b b') (svc : Service σ D)
    (amb : Ambient σ D) (call : DeleteCall) (hρ : Set.InjOn ρ ids) {ext : String}
    (hext : ext ∈ ids) (hid : IsId ext) (hid' : IsId (ρ ext)) :
    (∃ e e', eraseId svc amb call ext b = (some e, b) ∧
        eraseId svc amb (call.respell ρ) (ρ ext) b' = (some e', b')) ∨
      ∃ c c', eraseId svc amb call ext b = (none, c) ∧
        eraseId svc amb (call.respell ρ) (ρ ext) b' = (none, c') ∧ Alike ids ρ c c' := by
  have hcoll : (call.respell ρ).collection = call.collection := rfl
  have hidem : (call.respell ρ).idempotent = call.idempotent := rfl
  rw [Service.eraseId, Service.eraseId, hcoll, hidem]
  rcases h.registry.resolve amb.printable call.collection hid.1 hid.2 hid'.1 hid'.2 hext
    with ⟨label, hres, hres'⟩ | ⟨m, m', hres, hres'⟩ | ⟨m, m', hres, hres'⟩
  · rw [hres, hres']
    exact .inr ⟨_, _, rfl, rfl, h.eraseResolved hρ hext hres hres'⟩
  · rw [hres, hres']
    simp only
    split
    · refine .inr ⟨_, _, rfl, rfl, h.registry, h.outside, h.labels, ?_, h.erasedExt, h.originals⟩
      simp only [List.length_append, h.errors, List.length_singleton]
    · exact .inl ⟨_, _, rfl, rfl⟩
  · rw [hres, hres']
    exact .inl ⟨_, _, rfl, rfl⟩

/-- **The loop**: both runs raise, or both go through and are alike. -/
theorem Alike.eraseAll {requested : List String} {b b' : Batch σ D} (h : Alike ids ρ b b')
    (svc : Service σ D) (amb : Ambient σ D) (call : DeleteCall) (hρ : Set.InjOn ρ ids)
    (hids : ∀ ext ∈ requested, ext ∈ ids ∧ IsId ext ∧ IsId (ρ ext)) :
    (∃ e e' c c', eraseAll svc amb call requested b = (some e, c) ∧
        eraseAll svc amb (call.respell ρ) (requested.map ρ) b' = (some e', c')) ∨
      ∃ c c', eraseAll svc amb call requested b = (none, c) ∧
        eraseAll svc amb (call.respell ρ) (requested.map ρ) b' = (none, c') ∧
        Alike ids ρ c c' := by
  induction requested generalizing b b' with
  | nil => exact .inr ⟨b, b', rfl, rfl, h⟩
  | cons ext rest ih =>
    obtain ⟨hext, hid, hid'⟩ := hids ext List.mem_cons_self
    rw [List.map_cons, Service.eraseAll, Service.eraseAll]
    rcases h.eraseId svc amb call hρ hext hid hid'
      with ⟨e, e', hrun, hrun'⟩ | ⟨c, c', hrun, hrun', hc⟩
    · rw [hrun, hrun']
      exact .inl ⟨e, e', b, b', rfl, rfl⟩
    · rw [hrun, hrun']
      exact ih hc fun e he => hids e (List.mem_cons_of_mem ext he)

/-- Whether all erasures raise does not depend on the spelling. -/
theorem allRaise_respell {reg reg' : Registry} (hreg : reg.Respells ids ρ reg')
    {requested : List String} (hids : ∀ ext ∈ requested, ext ∈ ids) (o : σ) :
    svc.allRaise amb (call.respell ρ) reg' (requested.map ρ) o =
      svc.allRaise amb call reg requested o := by
  induction requested generalizing o with
  | nil => rfl
  | cons ext rest ih =>
    obtain ⟨hext, hrest⟩ := List.forall_mem_cons.mp hids
    rw [List.map_cons, allRaise, allRaise]
    rw [show (call.respell ρ).collection = call.collection from rfl, hreg.label? _ ext hext]
    rw [show svc.raising amb (call.respell ρ) = svc.raising amb call from rfl]
    simp only [ih hrest]

/-- Nor does which ids are mapped. -/
theorem mappedIds_respell {reg reg' : Registry} (hreg : reg.Respells ids ρ reg')
    {requested : List String} (hids : ∀ ext ∈ requested, ext ∈ ids) :
    mappedIds (call.respell ρ) reg' (requested.map ρ) = (mappedIds call reg requested).map ρ := by
  rw [mappedIds, mappedIds, List.filter_map]
  refine congrArg (List.map ρ) (List.filter_congr fun ext hext => ?_)
  exact congrArg Option.isSome (hreg.label? _ ext (hids ext hext))

/-- The receipt log raises nothing but an `OSError`. -/
def LogsQuietly (svc : Service σ D) : Prop :=
  ∀ append, svc.receiptLog = some append → ∀ receipt o text,
    (append receipt o).1 ≠ some (.other text)

/-- A log that does not raise returns the receipt. -/
theorem LogsQuietly.logReceipt (h : svc.LogsQuietly) (receipt : ErasureReceipt D) (o : σ) :
    (svc.logReceipt receipt o).1.toBool = true := by
  unfold Service.logReceipt
  split
  · rfl
  · rename_i append happ
    have hquiet := h append happ receipt o
    split
    · rename_i text o' heq
      rw [heq] at hquiet
      exact absurd rfl (hquiet text)
    · rfl

/-! ## After the loop -/

section Receipts

variable [PyFloat D]

/-- The adaptive strategy counts the ids. -/
theorem adaptCompact_respell {st : ServiceState σ D} {reg' : Registry}
    (hreg : st.registry.Respells ids ρ reg')
    (hlen : (call.respell ρ).extIds.length = call.extIds.length) :
    svc.adaptCompact amb (call.respell ρ) { st with registry := reg' } =
      svc.adaptCompact amb call st := by
  have hsize (count : ℕ) : svc.indexSize { st with registry := reg' } call.collection count =
      svc.indexSize st call.collection count := by
    rw [indexSize, indexSize, hreg.registrySize]
  rw [adaptCompact, adaptCompact, hlen]
  rw [show (call.respell ρ).collection = call.collection from rfl, hsize]
  rfl

end Receipts

end Service

/-- A proof record with its id renamed. -/
def ResidualProof.respell {D : Type} (ρ : String → String) (proof : ResidualProof D) :
    ResidualProof D :=
  { proof with labelOrId := ρ proof.labelOrId }

/-- The ids of the proofs in another spelling. -/
def ResidualProofSummary.respell {D : Type} (ρ : String → String)
    (summary : ResidualProofSummary D) : ResidualProofSummary D :=
  { summary with proofs := summary.proofs.map (.respell ρ) }

/-- A residual proof carries its id, and depends on it in nothing else. -/
theorem proveVectorErased_respell {D : Type} [PyFloat D] (ρ : String → String) (ext : String)
    (live : List D) (original : Option (List D)) (checkpoint : Option Checkpoint) :
    proveVectorErased (ρ ext) live original checkpoint =
      (proveVectorErased ext live original checkpoint).map (.respell ρ) := by
  unfold proveVectorErased
  rcases scanCheckpoint original checkpoint with e | ⟨fileOk, said⟩
  · rfl
  · rfl

namespace Service

/-- So does a summary. -/
theorem summarize_respell {D : Type} (ρ : String → String) (mode : ProofMode)
    (proofs : List (ResidualProof D)) :
    summarize mode (proofs.map (.respell ρ)) = (summarize mode proofs).respell ρ := by
  have hfailed : ((proofs.map (ResidualProof.respell ρ)).filter
      fun proof => !proof.passed).length = (proofs.filter fun proof => !proof.passed).length := by
    rw [List.filter_map, List.length_map]
    rfl
  rw [summarize, summarize, hfailed, List.length_map]
  simp only [List.map_eq_nil_iff]
  rfl

variable {σ D : Type} [PyFloat D] {svc : Service σ D} {amb : Ambient σ D} {call : DeleteCall}
  {ids : Set String} {ρ : String → String}

/-- So does the proof of one id. -/
theorem proveOne_respell (originals : Dict ℤ (List D)) (label : ℤ) (ext : String) (o : σ) :
    proveOne svc amb (call.respell ρ) originals label (ρ ext) o =
      ((proveOne svc amb call originals label ext o).1.map (.respell ρ),
        (proveOne svc amb call originals label ext o).2) := by
  rw [proveOne, proveOne]
  rw [show (call.respell ρ).collection = call.collection from rfl]
  rcases svc.liveRow call.collection label o with ⟨e | live, o'⟩
  · rfl
  · simp only [proveVectorErased_respell]
    rfl

/-- So do the proofs of all of them. -/
theorem proveAll_respell (originals : Dict ℤ (List D)) (erased : List (ℤ × String)) (o : σ) :
    proveAll svc amb (call.respell ρ) originals (erased.map (Prod.map id ρ)) o =
      ((proveAll svc amb call originals erased o).1.map (List.map (.respell ρ)),
        (proveAll svc amb call originals erased o).2) := by
  induction erased generalizing o with
  | nil => rfl
  | cons p rest ih =>
    obtain ⟨label, ext⟩ := p
    rw [List.map_cons, Prod.map_apply, id, proveAll, proveAll, proveOne_respell]
    rcases proveOne svc amb call originals label ext o with ⟨e | proof, o₁⟩
    · rfl
    · simp only [Except.map, ih]
      rcases proveAll svc amb call originals rest o₁ with ⟨e | proofs, o₂⟩
      · rfl
      · rfl

/-- The sample is chosen by position. -/
theorem sampled_map (mode : ProofMode) (erased : List (ℤ × String)) :
    sampled mode (erased.map (Prod.map id ρ)) = (sampled mode erased).map (Prod.map id ρ) := by
  rw [sampled, sampled, List.length_map]
  split
  · rw [List.map_filterMap]
    refine List.filterMap_congr fun i _ => ?_
    rw [List.getElem?_map]
  · rfl

/-- **The proofs** of the two runs differ in the ids that they name. -/
theorem Alike.runResidualProofs {b b' : Batch σ D} (h : Alike ids ρ b b') (svc : Service σ D)
    (amb : Ambient σ D) (call : DeleteCall) (mode : ProofMode) (o : σ) :
    svc.runResidualProofs amb (call.respell ρ) mode b' o =
      ((svc.runResidualProofs amb call mode b o).1.map (.respell ρ),
        (svc.runResidualProofs amb call mode b o).2) := by
  rw [Service.runResidualProofs, Service.runResidualProofs, h.labels]
  split
  · rfl
  · rw [h.originals, h.erasedExt, List.zip_map_right, sampled_map, proveAll_respell]
    rcases proveAll svc amb call b.originals (sampled mode (b.labels.zip b.erasedExt)) o
      with ⟨e | proofs, o'⟩
    · rfl
    · simp only [Except.map, summarize_respell]

end Service

/-- The state of the service with every id of its registry renamed. -/
def ServiceState.respell {σ D : Type} [PyFloat D] (ρ : String → String) (st : ServiceState σ D) :
    ServiceState σ D :=
  { st with registry := st.registry.respell ρ }

namespace Service

/-! ## The two calls -/

variable {σ D : Type} [PyFloat D] {svc : Service σ D} {amb : Ambient σ D} {call : DeleteCall}
  {st : ServiceState σ D} {ρ : String → String}

/-- An injective renaming of the ids of a call and of the registry. -/
structure Respelling (call : DeleteCall) (reg : Registry) (ρ : String → String) : Prop where
  requested : ∀ ext ∈ call.ids, IsId ext
  renamed : ∀ ext ∈ call.ids, IsId (ρ ext)
  injective : Set.InjOn ρ (reg.spelt call.ids)

/-- A respelling respells the ids of the call. -/
theorem Respelling.extIds {reg : Registry} (h : Respelling call reg ρ) :
    (call.respell ρ).extIds = call.extIds.map ρ :=
  DeleteCall.extIds_respell h.requested h.renamed

/-- It does not change what the strategy says. -/
theorem Respelling.adaptCompact (h : Respelling call st.registry ρ) :
    svc.adaptCompact amb (call.respell ρ) (st.respell ρ) = svc.adaptCompact amb call st :=
  adaptCompact_respell (Registry.respells_respell h.injective) (by rw [h.extIds, List.length_map])

/-- Nor the mode that comes out. -/
theorem Respelling.compactMode (h : Respelling call st.registry ρ) :
    svc.compactMode amb (call.respell ρ) (st.respell ρ) = svc.compactMode amb call st := by
  rw [Service.compactMode, Service.compactMode, h.adaptCompact]

/-- The loops of the two calls: both raise, or both go through and are alike. -/
theorem Respelling.loop (svc : Service σ D) (amb : Ambient σ D)
    (h : Respelling call st.registry ρ) (messages : List String) :
    (∃ e e' c c', eraseAll svc amb call call.extIds (Batch.start st messages) = (some e, c) ∧
        eraseAll svc amb (call.respell ρ) (call.respell ρ).extIds
          (Batch.start (st.respell ρ) messages) = (some e', c')) ∨
      ∃ c c', eraseAll svc amb call call.extIds (Batch.start st messages) = (none, c) ∧
        eraseAll svc amb (call.respell ρ) (call.respell ρ).extIds
          (Batch.start (st.respell ρ) messages) = (none, c') ∧
        Alike (st.registry.spelt call.ids) ρ c c' := by
  have hstart : Alike (st.registry.spelt call.ids) ρ (Batch.start st messages)
      (Batch.start (st.respell ρ) messages) :=
    ⟨Registry.respells_respell h.injective, rfl, rfl, rfl, rfl, rfl⟩
  rw [h.extIds]
  refine hstart.eraseAll svc amb call h.injective ?_
  rw [DeleteCall.extIds_eq_ids h.requested]
  exact fun ext he => ⟨.inl he, h.requested ext he, h.renamed ext he⟩

/-- What comes after the loop: it raises in both calls or in neither. -/
theorem Alike.conclude {ids : Set String} {b b' : Batch σ D} (h : Alike ids ρ b b')
    (hquiet : svc.LogsQuietly) (mode : CompactMode) (policy : CompactCoalescePolicy D) :
    (svc.conclude amb (call.respell ρ) mode policy b').result.toBool =
      (svc.conclude amb call mode policy b).result.toBool := by
  have hproofs := h.runResidualProofs svc amb call (svc.proofMode amb call)
    (svc.runCompaction amb mode b.labels b.outside policy).outside
  rw [Service.conclude, Service.conclude]
  rw [show svc.proofMode amb (call.respell ρ) = svc.proofMode amb call from rfl, h.labels,
    h.outside, hproofs]
  rcases svc.runResidualProofs amb call (svc.proofMode amb call) b
    (svc.runCompaction amb mode b.labels b.outside policy).outside with ⟨e | summary, o⟩
  · rfl
  · simp only [Except.map, hquiet.logReceipt]

/-- **The two calls**: both raise or neither does. -/
theorem Respelling.delete (h : Respelling call st.registry ρ) (hquiet : svc.LogsQuietly) :
    (svc.delete amb (call.respell ρ) (st.respell ρ)).result.toBool =
      (svc.delete amb call st).result.toBool := by
  rw [Service.delete, Service.delete, h.compactMode, h.adaptCompact]
  rcases svc.compactMode amb call st with message | mode
  · rfl
  · simp only
    rcases h.loop svc amb (svc.adaptCompact amb call st).2
      with ⟨e, e', c, c', hrun, hrun'⟩ | ⟨c, c', hrun, hrun', hc⟩
    · rw [hrun, hrun']
      rfl
    · rw [hrun, hrun']
      exact hc.conclude hquiet mode st.policy

/-- Where all mapped ids raise, their two spellings look like skips both or neither. -/
def SameKind (svc : Service σ D) (amb : Ambient σ D) (call : DeleteCall) (st : ServiceState σ D)
    (ρ : String → String) : Prop :=
  svc.allRaise amb call st.registry call.extIds st.outside = true →
    looksSkipped ((mappedIds call st.registry call.extIds).map ρ) =
      looksSkipped (mappedIds call st.registry call.extIds)

section TwoReceipts

variable {receipt receipt' : ErasureReceipt D} {mode mode' : CompactMode} {b b' : Batch σ D}
  {summary summary' : ResidualProofSummary D} {o o' : σ}

/-- What two receipts come from. -/
theorem Respelling.concluded (h : Respelling call st.registry ρ)
    (hc : Concluded svc amb call st receipt mode b summary o)
    (hc' : Concluded svc amb (call.respell ρ) (st.respell ρ) receipt' mode' b' summary' o') :
    mode' = mode ∧ Alike (st.registry.spelt call.ids) ρ b b' ∧
      summary'.passed = summary.passed := by
  have hmode := hc'.compactMode
  rw [h.compactMode, hc.compactMode] at hmode
  obtain rfl := Except.ok.inj hmode
  have hloop' := hc'.loop
  rw [h.adaptCompact] at hloop'
  rcases h.loop svc amb (svc.adaptCompact amb call st).2
    with ⟨e, e', c, c', hrun, -⟩ | ⟨c, c', hrun, hrun', halike⟩
  · rw [hc.loop] at hrun
    cases hrun
  · rw [hc.loop] at hrun
    rw [hloop'] at hrun'
    cases hrun
    cases hrun'
    refine ⟨rfl, halike, ?_⟩
    have hproofs' := hc'.proofs
    rw [halike.labels, halike.outside, halike.runResidualProofs,
      show svc.proofMode amb (call.respell ρ) = svc.proofMode amb call from rfl,
      show (st.respell ρ).policy = st.policy from rfl, hc.proofs] at hproofs'
    cases hproofs'
    rfl

/-- The errors of the two calls are none both or neither. -/
theorem Alike.allErrors {ids : Set String} (h : Alike ids ρ b b')
    (hpassed : summary'.passed = summary.passed) (mode : ProofMode) (c : Compaction σ D) :
    allErrors mode b' c summary' = [] ↔ allErrors mode b c summary = [] := by
  have herrors : b'.errors = [] ↔ b.errors = [] := by
    rw [← List.length_eq_zero_iff, h.errors, List.length_eq_zero_iff]
  rw [Service.allErrors, Service.allErrors, hpassed]
  rw [List.append_eq_nil_iff, List.append_eq_nil_iff, List.append_eq_nil_iff,
    List.append_eq_nil_iff, herrors]
  split
  · exact iff_of_false (fun h => by cases h.2) fun h => by cases h.2
  · exact Iff.rfl

/-- **The status** is the same exactly if the two spellings are of one kind. -/
theorem Respelling.status_iff (h : Respelling call st.registry ρ)
    (hc : Concluded svc amb call st receipt mode b summary o)
    (hc' : Concluded svc amb (call.respell ρ) (st.respell ρ) receipt' mode' b' summary' o') :
    receipt'.status = receipt.status ↔ svc.SameKind amb call st ρ := by
  obtain ⟨rfl, halike, hpassed⟩ := h.concluded hc hc'
  have hreg := Registry.respells_respell h.injective
  have hids : ∀ ext ∈ call.extIds, ext ∈ st.registry.spelt call.ids := by
    rw [DeleteCall.extIds_eq_ids h.requested]
    exact fun ext he => .inl he
  have hraise' : svc.allRaise amb (call.respell ρ) (st.respell ρ).registry (call.respell ρ).extIds
      (st.respell ρ).outside = svc.allRaise amb call st.registry call.extIds st.outside := by
    rw [h.extIds]
    exact allRaise_respell hreg hids st.outside
  have hmapped : mappedIds (call.respell ρ) (st.respell ρ).registry (call.respell ρ).extIds =
      (mappedIds call st.registry call.extIds).map ρ := by
    rw [h.extIds]
    exact mappedIds_respell hreg hids
  rw [SameKind]
  rcases hraise : svc.allRaise amb call st.registry call.extIds st.outside with _ | _
  · refine iff_of_true ?_ fun h => (by cases h)
    rw [hraise] at hraise'
    by_cases hnil : b.labels = []
    · rcases hc.status_answered hraise with hne | hfailed
      · exact absurd hnil hne
      · rcases hc'.status_answered hraise' with hne' | hfailed'
        · exact absurd (halike.labels.trans hnil) hne'
        · rw [hfailed, hfailed']
    · have hcount : b.labels.length ≠ 0 := fun h => hnil (List.eq_nil_of_length_eq_zero h)
      rw [hc.status.1, hc'.status.1, h.extIds, List.length_map, halike.labels, halike.outside,
        hpassed]
      exact deriveStatus_congr hcount _ (halike.allErrors hpassed _ _) _ _ _
  · rw [hraise] at hraise'
    rcases eq_or_ne call.extIds [] with hnil | hne
    · refine iff_of_true ?_ fun _ => ?_
      · rw [hc.status.1, hc'.status.1, h.extIds, hnil, List.map_nil, List.length_nil,
          deriveStatus_zero, deriveStatus_zero]
      · rw [hnil]
        rfl
    · have hne' : (call.respell ρ).extIds ≠ [] := by
        rw [h.extIds]
        exact fun h => hne (List.map_eq_nil_iff.mp h)
      rw [hc.status_raising hne hraise, hc'.status_raising hne' hraise', hmapped]
      rcases looksSkipped ((mappedIds call st.registry call.extIds).map ρ) with _ | _
      · rcases looksSkipped (mappedIds call st.registry call.extIds) with _ | _
        · exact iff_of_true rfl fun _ => rfl
        · exact iff_of_false (fun h => by cases h) fun h => by cases h rfl
      · rcases looksSkipped (mappedIds call st.registry call.extIds) with _ | _
        · exact iff_of_false (fun h => by cases h) fun h => by cases h rfl
        · exact iff_of_true rfl fun _ => rfl

end TwoReceipts

/-- **Receipts and the spelling of ids.** For every backend, registry and batch, and every
injective renaming of the ids: without a receipt log that raises, either both calls
return a receipt or none does; and two receipts have one status and one success exactly
where some mapped id does not raise, or where it is the same in both spellings whether
these ids all begin with `"skip "`. -/
theorem respelled_iff (svc : Service σ D) (amb : Ambient σ D) (call : DeleteCall)
    (st : ServiceState σ D) (ρ : String → String) (h : Respelling call st.registry ρ) :
    (svc.LogsQuietly →
      (svc.delete amb (call.respell ρ) (st.respell ρ)).result.toBool =
        (svc.delete amb call st).result.toBool) ∧
    ∀ receipt receipt', (svc.delete amb call st).result = .ok receipt →
      (svc.delete amb (call.respell ρ) (st.respell ρ)).result = .ok receipt' →
      (receipt'.status = receipt.status ∧ receipt'.success = receipt.success ↔
        svc.SameKind amb call st ρ) := by
  refine ⟨h.delete, fun receipt receipt' hres hres' => ?_⟩
  obtain ⟨mode, b, summary, o, hc⟩ := concluded_of_receipt hres
  obtain ⟨mode', b', summary', o', hc'⟩ := concluded_of_receipt hres'
  rw [← h.status_iff hc hc']
  refine ⟨And.left, fun hstatus => ⟨hstatus, ?_⟩⟩
  rw [hc.status.2, hc'.status.2, hstatus]

/-! ## Two spellings of one id -/

/-- `"skip "` before an id. -/
def skipped (ext : String) : String := "skip " ++ ext

/-- A delete of one id. -/
def annCall : DeleteCall := plainCall "users" ["ann"]

theorem respelling_skipped : Respelling annCall twoUsers.registry skipped where
  requested := List.forall_mem_singleton.mpr (by decide)
  renamed := List.forall_mem_singleton.mpr (by decide)
  injective := by
    intro e _ e' _ heq
    have hlist := congrArg String.toList heq
    rw [skipped, skipped, String.toList_append, String.toList_append] at hlist
    exact String.toList_inj.mp (List.append_cancel_left hlist)

theorem respelled_iff_ann :
    ∃ receipt receipt',
      ((listService fun _ => []).delete plainAmbient annCall twoUsers).result = .ok receipt ∧
      ((listService fun _ => []).delete plainAmbient (annCall.respell skipped)
        (twoUsers.respell skipped)).result = .ok receipt' ∧
      receipt'.status = receipt.status ∧ receipt'.success = receipt.success := by
  have h := respelled_iff (listService fun _ => []) plainAmbient annCall twoUsers skipped
    respelling_skipped
  have hok : ((listService fun _ => []).delete plainAmbient annCall twoUsers).result.toBool =
      true := by
    decide +kernel
  have hkind : SameKind (listService fun _ => []) plainAmbient annCall twoUsers skipped :=
    fun hraise => (by cases hraise)
  have hok' := h.1 fun append happ => (by cases happ)
  rw [hok] at hok'
  rcases hres : ((listService fun _ => []).delete plainAmbient annCall twoUsers).result
    with e | receipt
  · rw [hres] at hok
    cases hok
  · rcases hres' : ((listService fun _ => []).delete plainAmbient (annCall.respell skipped)
      (twoUsers.respell skipped)).result with e' | receipt'
    · rw [hres'] at hok'
      cases hok'
    · exact ⟨receipt, receipt', rfl, rfl, (h.2 receipt receipt' hres hres').mpr hkind⟩

/-- A service whose backend raises. -/
def timedOut : Service (List ℤ) ℚ :=
  { listService fun _ => [] with
    backend := { listBackend fun _ => [] with
      hardDeleteLabel := fun _ _ _ erased => (.error "timed out", erased) } }

/-- An id whose erase raises is a failure under one name and a skip under another. -/
theorem status_of_spelling :
    Respelling annCall twoUsers.registry skipped ∧
    (timedOut.delete plainAmbient annCall twoUsers).result.toOption.map ErasureReceipt.status =
      some .failed ∧
    (timedOut.delete plainAmbient (annCall.respell skipped)
      (twoUsers.respell skipped)).result.toOption.map ErasureReceipt.status = some .partially :=
  ⟨respelling_skipped, by decide +kernel, by decide +kernel⟩

end Service

end Unlearning
