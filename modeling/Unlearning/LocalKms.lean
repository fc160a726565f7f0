import Mathlib.Data.List.Sort
import Unlearning.PyText
import Unlearning.Registry
import Unlearning.Trace

/-!
# The file KMS (`compliance/kms_backends.py`, `LocalFileKMS`)

A `LocalFileKMS` wraps data keys under a master key and remembers which entities were
destroyed. It reads its file once, when it is constructed, and writes all it knows over the
file after every change; so two instances on one path do not see each other, and the last one
to write decides what a later instance starts from.

`AESGCM` is a parameter. JSON and base64 give back what they were given: a file is the record
that was written.

* `Keeps`: the step does not take an entity off the list of the destroyed on file
  (`keeps_iff_lists`);
* `destroyed_stays`: a run consists of such steps exactly if the entity is refused all along,
  by the instance that destroyed it, by those opened later and by the next one.
-/

namespace Unlearning

open PyText

/-- `AESGCM(key)`: `encrypt` and `decrypt` of a key, a nonce, a text and associated data;
`none` where they raise. -/
structure AesGcm where
  encrypt : List UInt8 → List UInt8 → List UInt8 → Option (List UInt8) → Option (List UInt8)
  decrypt : List UInt8 → List UInt8 → List UInt8 → Option (List UInt8) → Option (List UInt8)

/-- What the vaults and the KMS raise. -/
inductive CryptoError : Type where
  | runtimeError (message : String)
  | valueError (message : String)
  /-- `InvalidTag` of `AESGCM.decrypt` -/
  | invalidTag
  /-- what `AESGCM.encrypt` raises -/
  | notEncrypted
  deriving DecidableEq

/-- The fields of `LocalFileKMS`, which are also what it writes. -/
structure LocalFileKMS where
  master : List UInt8
  wrapped : Dict String (List UInt8)
  destroyed : List String

namespace LocalFileKMS

/-- `_persist`: what the file holds afterwards. -/
def persist (kms : LocalFileKMS) : LocalFileKMS :=
  { kms with destroyed := kms.destroyed.insertionSort (· ≤ ·) }

/-- `LocalFileKMS(path, master_key=master_key)`: the instance, and the file afterwards.
`generated` is `secrets.token_bytes(32)`. -/
def init (file : Option LocalFileKMS) (masterKey : Option (List UInt8))
    (generated : List UInt8) : Except CryptoError (LocalFileKMS × Option LocalFileKMS) :=
  match masterKey with
  | some key =>
    if key.length ≠ 32 then .error (.valueError "master_key must be 32 bytes")
    else
      let kms : LocalFileKMS := ⟨key, ∅, []⟩
      .ok (kms, some kms.persist)
  | none =>
    match file with
    | some raw => .ok (raw, some raw)
    | none =>
      let kms : LocalFileKMS := ⟨generated, ∅, []⟩
      .ok (kms, some kms.persist)

section Calls

variable (aes : AesGcm) (printable : Char → Bool)

/-- `RuntimeError(f"entity {eid!r} shredded")` -/
def shredded (entityId : String) : CryptoError :=
  .runtimeError ("entity " ++ repr printable entityId ++ " shredded")

/-- `entity_id.encode()` -/
def encode (entityId : String) : List UInt8 := entityId.toUTF8.toList

/-- `wrap_dek`, with the nonce that it draws: the blob, and the instance afterwards. -/
def wrapDek (nonce : List UInt8) (entityId : String) (dek : List UInt8) (kms : LocalFileKMS) :
    Except CryptoError (List UInt8 × LocalFileKMS) :=
  if entityId ∈ kms.destroyed then .error (shredded printable entityId)
  else
    match aes.encrypt kms.master nonce dek (some (encode entityId)) with
    | none => .error .notEncrypted
    | some ct =>
      .ok (nonce ++ ct, { kms with wrapped := kms.wrapped.insert entityId (nonce ++ ct) })

/-- `unwrap_dek` -/
def unwrapDek (entityId : String) (wrapped : List UInt8) (kms : LocalFileKMS) :
    Except CryptoError (List UInt8) :=
  if entityId ∈ kms.destroyed then .error (shredded printable entityId)
  else
    -- the stored wrap is preferred
    let blob := (kms.wrapped.lookup entityId).getD wrapped
    if blob.length < 13 then .error (.valueError "wrapped DEK too short")
    else
      match aes.decrypt kms.master (blob.take 12) (blob.drop 12) (some (encode entityId)) with
      | none => .error .invalidTag
      | some dek => .ok dek

/-- `destroy_entity_key` -/
def destroyEntityKey (entityId : String) (kms : LocalFileKMS) : LocalFileKMS :=
  { kms with
    wrapped := kms.wrapped.erase entityId
    destroyed := kms.destroyed.insert entityId }

end Calls

@[simp] theorem mem_persist_destroyed (kms : LocalFileKMS) (entityId : String) :
    entityId ∈ kms.persist.destroyed ↔ entityId ∈ kms.destroyed :=
  List.mem_insertionSort _

@[simp] theorem mem_destroyEntityKey (kms : LocalFileKMS) (entityId other : String) :
    other ∈ (kms.destroyEntityKey entityId).destroyed ↔
      other = entityId ∨ other ∈ kms.destroyed :=
  List.mem_insert_iff

/-- The instance refuses the entity. -/
def Refuses (aes : AesGcm) (printable : Char → Bool) (kms : LocalFileKMS) (entityId : String) :
    Prop :=
  (∀ nonce dek, kms.wrapDek aes printable nonce entityId dek =
    .error (shredded printable entityId)) ∧
  ∀ wrapped, kms.unwrapDek aes printable entityId wrapped = .error (shredded printable entityId)

section Refuses

variable {aes : AesGcm} {printable : Char → Bool} {kms : LocalFileKMS} {entityId : String}

/-- An instance refuses what it knows to be destroyed, and nothing else. -/
theorem refuses_iff : kms.Refuses aes printable entityId ↔ entityId ∈ kms.destroyed := by
  constructor
  · intro h
    by_contra hmem
    have hwrap := h.1 [] []
    rw [wrapDek, if_neg hmem, shredded] at hwrap
    split at hwrap <;> cases hwrap
  · intro h
    constructor
    · intro nonce dek
      rw [wrapDek, if_pos h]
    · intro wrapped
      rw [unwrapDek, if_pos h]

/-- What `wrap_dek` has done where it returns. -/
theorem wrapDek_ok {nonce dek blob : List UInt8} {kms' : LocalFileKMS}
    (h : kms.wrapDek aes printable nonce entityId dek = .ok (blob, kms')) :
    entityId ∉ kms.destroyed ∧
      ∃ ct, aes.encrypt kms.master nonce dek (some (encode entityId)) = some ct ∧
        blob = nonce ++ ct ∧ kms' = { kms with wrapped := kms.wrapped.insert entityId blob } := by
  rw [wrapDek] at h
  split at h
  · cases h
  · rename_i hmem
    split at h
    · cases h
    · rename_i ct hct
      obtain ⟨rfl, rfl⟩ := Prod.mk.inj (Except.ok.inj h)
      exact ⟨hmem, ct, hct, rfl, rfl⟩

/-- What is destroyed is the same for the instance that wraps. -/
theorem wrapDek_destroyed {nonce dek blob : List UInt8} {kms' : LocalFileKMS}
    (h : kms.wrapDek aes printable nonce entityId dek = .ok (blob, kms')) :
    kms'.destroyed = kms.destroyed := by
  obtain ⟨-, ct, -, -, rfl⟩ := wrapDek_ok h
  rfl

end Refuses

end LocalFileKMS

/-! ## Instances on one path -/

namespace KmsPath

/-- A file, if there is one, and the instances that were constructed on its path. -/
structure World where
  file : Option LocalFileKMS
  instances : List LocalFileKMS

/-- A path with no file. -/
def World.new : World := ⟨none, []⟩

/-- A construction over the file, or a call of instance `i`. -/
inductive Action : Type where
  | construct (masterKey : Option (List UInt8)) (generated : List UInt8)
  | wrap (i : ℕ) (entityId : String) (dek nonce : List UInt8)
  | unwrap (i : ℕ) (entityId : String) (wrapped : List UInt8)
  | destroy (i : ℕ) (entityId : String)

/-- Instance `i` has changed, and has persisted. -/
def World.write (w : World) (i : ℕ) (kms : LocalFileKMS) : World :=
  ⟨some kms.persist, w.instances.set i kms⟩

section Step

variable (aes : AesGcm) (printable : Char → Bool)

/-- What an action leaves; one that raises leaves everything as it is. -/
def World.perform (w : World) : Action → Option World
  | .construct masterKey generated =>
    match LocalFileKMS.init w.file masterKey generated with
    | .error _ => some w
    | .ok (kms, file) => some ⟨file, w.instances ++ [kms]⟩
  | .wrap i entityId dek nonce =>
    w.instances[i]?.map fun kms =>
      match kms.wrapDek aes printable nonce entityId dek with
      | .error _ => w
      | .ok (_, kms') => w.write i kms'
  | .unwrap i _ _ => w.instances[i]?.map fun _ => w
  | .destroy i entityId => w.instances[i]?.map fun kms => w.write i (kms.destroyEntityKey entityId)

/-- One step of a run. -/
def Step (w : World) (action : Action) (w' : World) : Prop :=
  w.perform aes printable action = some w'

end Step

/-- The file lists the entity as destroyed. -/
def World.Lists (w : World) (entityId : String) : Prop :=
  ∃ file, w.file = some file ∧ entityId ∈ file.destroyed

/-- Instance `i` knows that the entity was destroyed. -/
def World.Knows (w : World) (i : ℕ) (entityId : String) : Prop :=
  ∃ kms, w.instances[i]? = some kms ∧ entityId ∈ kms.destroyed

/-- Instance `i` raises when it is to wrap this. -/
def World.Rejects (aes : AesGcm) (w : World) (i : ℕ) (entityId : String)
    (dek nonce : List UInt8) : Prop :=
  ∃ kms, w.instances[i]? = some kms ∧ (entityId ∈ kms.destroyed ∨
    aes.encrypt kms.master nonce dek (some (LocalFileKMS.encode entityId)) = none)

/-- **What keeps an entity on the list**: no construction with a master key, and no write
through an instance that does not know of it. -/
def Keeps (aes : AesGcm) (entityId : String) (w : World) : Action → Prop
  | .construct (some key) _ => key.length ≠ 32
  | .construct none _ => True
  | .wrap i other dek nonce => w.Rejects aes i other dek nonce ∨ w.Knows i entityId
  | .unwrap _ _ _ => True
  | .destroy i other => other = entityId ∨ w.Knows i entityId

/-! ## Destroyed keys stay destroyed -/

section Destroyed

variable {aes : AesGcm} {printable : Char → Bool} {entityId : String} {w w' : World}

/-- The entity is listed, and is destroyed for the instances of a set. -/
structure Held (entityId : String) (holders : Set ℕ) (w : World) : Prop where
  listed : w.Lists entityId
  known : ∀ i ∈ holders, ∀ kms, w.instances[i]? = some kms → entityId ∈ kms.destroyed

variable {holders : Set ℕ}

/-- A write through an instance that knows of the entity. -/
theorem Held.write (h : Held entityId holders w) {kms : LocalFileKMS}
    (hkms : entityId ∈ kms.destroyed) (i : ℕ) : Held entityId holders (w.write i kms) where
  listed := ⟨kms.persist, rfl, by simp [hkms]⟩
  known j hj kms' hkms' := by
    by_cases heq : i = j
    · subst heq
      rw [World.write, List.getElem?_set_self'] at hkms'
      obtain ⟨_, _, rfl⟩ := Option.map_eq_some_iff.mp hkms'
      exact hkms
    · rw [World.write, List.getElem?_set_ne heq] at hkms'
      exact h.known j hj kms' hkms'

theorem known_of_lookup {i : ℕ} {kms : LocalFileKMS} (hkms : w.instances[i]? = some kms)
    (h : w.Knows i entityId) : entityId ∈ kms.destroyed := by
  obtain ⟨kms', hkms', hmem⟩ := h
  obtain rfl := Option.some.inj (hkms.symm.trans hkms')
  exact hmem

/-- A wrap writes unless it raises. -/
theorem perform_wrap {i : ℕ} {other : String} {dek nonce : List UInt8} {kms : LocalFileKMS}
    (hkms : w.instances[i]? = some kms)
    (hstep : w.perform aes printable (.wrap i other dek nonce) = some w') :
    w.Rejects aes i other dek nonce ∧ w' = w ∨
      ¬ w.Rejects aes i other dek nonce ∧
        ∃ kms', kms'.destroyed = kms.destroyed ∧ w' = w.write i kms' := by
  rw [World.perform, hkms, Option.map_some] at hstep
  obtain rfl := Option.some.inj hstep
  rcases hwrap : kms.wrapDek aes printable nonce other dek with e | ⟨blob, kms'⟩
  · refine .inl ⟨⟨kms, hkms, ?_⟩, rfl⟩
    by_contra hnot
    obtain ⟨hmem, hencrypt⟩ := not_or.mp hnot
    rw [LocalFileKMS.wrapDek, if_neg hmem] at hwrap
    split at hwrap
    · exact hencrypt ‹_›
    · cases hwrap
  · refine .inr ⟨?_, kms', LocalFileKMS.wrapDek_destroyed hwrap, rfl⟩
    rintro ⟨kms'', hkms'', hrejects⟩
    obtain rfl := Option.some.inj (hkms.symm.trans hkms'')
    obtain ⟨hmem, ct, hct, -⟩ := LocalFileKMS.wrapDek_ok hwrap
    rcases hrejects with hdestroyed | hencrypt
    · exact hmem hdestroyed
    · rw [hct] at hencrypt
      cases hencrypt

/-- What a write leaves listed. -/
theorem lists_write {i : ℕ} {kms : LocalFileKMS} :
    (w.write i kms).Lists entityId ↔ entityId ∈ kms.destroyed := by
  constructor
  · rintro ⟨file, hfile, hmem⟩
    obtain rfl := Option.some.inj hfile
    exact (LocalFileKMS.mem_persist_destroyed kms entityId).mp hmem
  · intro h
    exact ⟨_, rfl, (LocalFileKMS.mem_persist_destroyed kms entityId).mpr h⟩

/-- **What a step does**: nothing, or it reads the file, or writes it, or starts it anew. -/
theorem step_cases (entityId : String) {action : Action}
    (hstep : Step aes printable w action w') :
    (w' = w ∧ Keeps aes entityId w action) ∨
    (∃ kms, w.file = some kms ∧ w' = ⟨w.file, w.instances ++ [kms]⟩ ∧
      Keeps aes entityId w action) ∨
    (∃ i kms, w' = w.write i kms ∧ (Keeps aes entityId w action ↔ entityId ∈ kms.destroyed)) ∨
    (∃ kms : LocalFileKMS, kms.destroyed = [] ∧ w' = ⟨some kms.persist, w.instances ++ [kms]⟩ ∧
      (w.Lists entityId → ¬ Keeps aes entityId w action)) := by
  rcases action with ⟨_ | key, generated⟩ | ⟨i, other, dek, nonce⟩ | ⟨i, other, wrapped⟩ |
    ⟨i, other⟩
  · rcases hfile : w.file with _ | file
    · -- a fresh file, where none listed anything
      simp only [Step, World.perform, LocalFileKMS.init, hfile] at hstep
      refine .inr (.inr (.inr ⟨_, rfl, (Option.some.inj hstep).symm, ?_⟩))
      rintro ⟨file, hsome, -⟩
      rw [hfile] at hsome
      cases hsome
    · simp only [Step, World.perform, LocalFileKMS.init, hfile] at hstep
      exact .inr (.inl ⟨file, rfl, (Option.some.inj hstep).symm, trivial⟩)
  · by_cases hlength : key.length ≠ 32
    · simp only [Step, World.perform, LocalFileKMS.init, if_pos hlength] at hstep
      exact .inl ⟨(Option.some.inj hstep).symm, hlength⟩
    · -- with a master key the file is not read: it is written with an empty list
      simp only [Step, World.perform, LocalFileKMS.init, if_neg hlength] at hstep
      exact .inr (.inr (.inr ⟨_, rfl, (Option.some.inj hstep).symm, fun _ => hlength⟩))
  · rcases hkms : w.instances[i]? with _ | kms
    · simp only [Step, World.perform, hkms] at hstep
      cases hstep
    · rcases perform_wrap hkms hstep with ⟨hrejects, rfl⟩ | ⟨haccepts, kms', hdestroyed, rfl⟩
      · exact .inl ⟨rfl, .inl hrejects⟩
      · -- the list that is written is the one of the instance, not the one of the file
        refine .inr (.inr (.inl ⟨i, kms', rfl, ?_⟩))
        rw [hdestroyed]
        constructor
        · rintro (hrejects | hknows)
          · exact absurd hrejects haccepts
          · exact known_of_lookup hkms hknows
        · intro hmem
          exact .inr ⟨kms, hkms, hmem⟩
  · obtain ⟨kms, -, rfl⟩ := Option.map_eq_some_iff.mp hstep
    exact .inl ⟨rfl, trivial⟩
  · obtain ⟨kms, hkms, rfl⟩ := Option.map_eq_some_iff.mp hstep
    refine .inr (.inr (.inl ⟨i, _, rfl, ?_⟩))
    rw [LocalFileKMS.mem_destroyEntityKey]
    constructor
    · rintro (rfl | hknows)
      · exact .inl rfl
      · exact .inr (known_of_lookup hkms hknows)
    · rintro (rfl | hmem)
      · exact .inl rfl
      · exact .inr ⟨kms, hkms, hmem⟩

/-- A new instance reads the list. -/
theorem Held.read (h : Held entityId holders w) {kms : LocalFileKMS}
    (hfile : w.file = some kms) :
    Held entityId holders ⟨w.file, w.instances ++ [kms]⟩ := by
  obtain ⟨file, hsome, hmem⟩ := h.listed
  obtain rfl := Option.some.inj (hfile.symm.trans hsome)
  refine ⟨⟨kms, hfile, hmem⟩, ?_⟩
  intro i hi kms' hkms'
  rw [List.getElem?_append] at hkms'
  split at hkms'
  · exact h.known i hi kms' hkms'
  · rw [List.getElem?_singleton] at hkms'
    split at hkms'
    · obtain rfl := Option.some.inj hkms'
      exact hmem
    · cases hkms'

/-- **A step that keeps the entity on the list.** -/
theorem Held.step (h : Held entityId holders w) {action : Action}
    (hkeeps : Keeps aes entityId w action) (hstep : Step aes printable w action w') :
    Held entityId holders w' := by
  rcases step_cases entityId hstep with ⟨rfl, -⟩ | ⟨kms, hfile, rfl, -⟩ | ⟨i, kms, rfl, hiff⟩ |
    ⟨kms, -, -, hnot⟩
  · exact h
  · exact h.read hfile
  · exact h.write (hiff.mp hkeeps) i
  · exact absurd hkeeps (hnot h.listed)

/-- `Keeps` is exact. -/
theorem keeps_iff_lists (h : w.Lists entityId) {action : Action}
    (hstep : Step aes printable w action w') :
    Keeps aes entityId w action ↔ w'.Lists entityId := by
  rcases step_cases entityId hstep with ⟨rfl, hkeeps⟩ | ⟨kms, hfile, rfl, hkeeps⟩ |
    ⟨i, kms, rfl, hiff⟩ | ⟨kms, hempty, rfl, hnot⟩
  · exact iff_of_true hkeeps h
  · exact iff_of_true hkeeps h
  · rw [hiff, lists_write]
  · refine iff_of_false (hnot h) ?_
    rintro ⟨file, hfile, hmem⟩
    obtain rfl := Option.some.inj hfile
    rw [LocalFileKMS.mem_persist_destroyed, hempty] at hmem
    cases hmem

/-- The destroying instance, and all that are constructed later. -/
def holdersOf (k : ℕ) (w : World) : Set ℕ := {i | i = k ∨ w.instances.length ≤ i}

/-- `destroy_entity_key` has returned. -/
theorem held_destroy {k : ℕ} (hstep : Step aes printable w (.destroy k entityId) w') :
    Held entityId (holdersOf k w') w' := by
  obtain ⟨kms, hkms, rfl⟩ := Option.map_eq_some_iff.mp hstep
  have hmem : entityId ∈ (kms.destroyEntityKey entityId).destroyed :=
    (LocalFileKMS.mem_destroyEntityKey kms entityId entityId).mpr (.inl rfl)
  refine ⟨lists_write.mpr hmem, ?_⟩
  rintro i (rfl | hlength) kms' hkms'
  · rw [World.write, List.getElem?_set_self (List.getElem?_eq_some_iff.mp hkms).1] at hkms'
    obtain rfl := Option.some.inj hkms'
    exact hmem
  · rw [List.getElem?_eq_none hlength] at hkms'
    cases hkms'

/-- **What the destruction promises of a state**: the instance that destroyed the key, those
constructed since and the next one to read the file refuse the entity. -/
structure Permanent (aes : AesGcm) (printable : Char → Bool) (entityId : String)
    (holders : Set ℕ) (w : World) : Prop where
  holders : ∀ i ∈ holders, ∀ kms, w.instances[i]? = some kms →
    kms.Refuses aes printable entityId
  next : ∀ generated kms file, LocalFileKMS.init w.file none generated = .ok (kms, file) →
    kms.Refuses aes printable entityId

theorem Held.permanent (h : Held entityId holders w) :
    Permanent aes printable entityId holders w where
  holders i hi kms hkms := LocalFileKMS.refuses_iff.mpr (h.known i hi kms hkms)
  next generated kms file hinit := by
    obtain ⟨raw, hraw, hmem⟩ := h.listed
    rw [hraw, LocalFileKMS.init] at hinit
    obtain ⟨rfl, -⟩ := Prod.mk.inj (Except.ok.inj hinit)
    exact LocalFileKMS.refuses_iff.mpr hmem

theorem Permanent.lists (h : Permanent aes printable entityId holders w) :
    w.Lists entityId := by
  -- without a file the next construction would start with nothing destroyed
  rcases hfile : w.file with _ | raw
  · have hnext := h.next [] ⟨[], ∅, []⟩ (some (LocalFileKMS.persist ⟨[], ∅, []⟩)) (by
      rw [hfile]
      rfl)
    cases LocalFileKMS.refuses_iff.mp hnext
  · have hnext := h.next [] raw (some raw) (by
      rw [hfile]
      rfl)
    exact ⟨raw, hfile, LocalFileKMS.refuses_iff.mp hnext⟩

/-- A run all of whose states list the entity keeps it in every step. -/
theorem guarded_of_lists {later : List Action} (h : Trace (Step aes printable) w later w')
    (hlists : ∀ done rest w₂, later = done ++ rest → Trace (Step aes printable) w done w₂ →
      w₂.Lists entityId) :
    Trace (Guarded (Keeps aes entityId) (Step aes printable)) w later w' := by
  induction h with
  | nil w => exact .nil w
  | @cons s t u action rest hstep _ ih =>
    have hhere : s.Lists entityId := hlists [] _ s rfl (.nil s)
    have hthere : t.Lists entityId := hlists [action] rest t rfl (.single hstep)
    refine .cons ⟨(keeps_iff_lists hhere hstep).mpr hthere, hstep⟩ (ih ?_)
    rintro done rest' w₂ rfl htrace
    exact hlists (action :: done) rest' w₂ rfl (.cons hstep htrace)

/-- **Destroyed keys stay destroyed** through a run exactly if every step of it keeps the
entity on the list. -/
theorem destroyed_stays {later : List Action} {k : ℕ} {w₁ w₂ : World}
    (hdestroy : Step aes printable w (.destroy k entityId) w₁)
    (hlater : Trace (Step aes printable) w₁ later w₂) :
    (∀ done rest w', later = done ++ rest → Trace (Step aes printable) w₁ done w' →
      Permanent aes printable entityId (holdersOf k w₁) w') ↔
    Trace (Guarded (Keeps aes entityId) (Step aes printable)) w₁ later w₂ := by
  constructor
  · intro h
    exact guarded_of_lists hlater fun done rest w' heq htrace => (h done rest w' heq htrace).lists
  · rintro hguarded done rest w' rfl htrace
    -- the state of the prefix is one that the guarded run goes through
    obtain ⟨mid, hdone, -⟩ := hguarded.split
    have hmid : w' = mid := htrace.unique (hdone.mono fun _ _ _ hstep => hstep.2)
      fun _ _ _ _ h h' => Option.some.inj (h.symm.trans h')
    subst hmid
    have hheld : Held entityId (holdersOf k w₁) w' := by
      apply hdone.invariant ?_ (held_destroy hdestroy)
      rintro w action w' hheld ⟨hkeeps, hstep⟩
      exact hheld.step hkeeps hstep
    exact hheld.permanent

end Destroyed

section Reopened

/-- A stand-in for the cipher: a tag of zeros after the text. -/
def standIn : AesGcm :=
  ⟨fun _ _ text _ => some (text ++ List.replicate 16 0),
    fun _ _ ct _ => some (ct.take (ct.length - 16))⟩

/-- A master key. -/
def someKey : List UInt8 := List.replicate 32 7

/-- A file KMS with one instance. -/
def oneInstance : World :=
  ⟨some (LocalFileKMS.persist ⟨someKey, ∅, []⟩), [⟨someKey, ∅, []⟩]⟩

/-- The instance after it destroyed the key of `e`. -/
def destroyedInstance : LocalFileKMS := LocalFileKMS.destroyEntityKey "e" ⟨someKey, ∅, []⟩

/-- The path after the destruction, opened again without a key. -/
def reopened : World :=
  ⟨some destroyedInstance.persist, [destroyedInstance, destroyedInstance.persist]⟩

theorem destroyed_stays_reopened :
    Permanent standIn (fun _ => true) "e" (holdersOf 0 (oneInstance.write 0 destroyedInstance))
      reopened := by
  have hdestroy : Step standIn (fun _ => true) oneInstance (.destroy 0 "e")
      (oneInstance.write 0 destroyedInstance) := rfl
  have hopen : Step standIn (fun _ => true) (oneInstance.write 0 destroyedInstance)
      (.construct none []) reopened := rfl
  exact (destroyed_stays hdestroy (.single hopen)).mpr (.single ⟨trivial, hopen⟩)
    [.construct none []] [] reopened rfl (.single hopen)

end Reopened

/-! ## Runs that lose a destruction -/

section Revived

/-- A data key. -/
def someDek : List UInt8 := List.replicate 32 1

/-- A nonce. -/
def someNonce : List UInt8 := List.replicate 12 0

/-- What `wrap_dek("e", someDek)` returned. -/
def someBlob : List UInt8 := someNonce ++ (someDek ++ List.replicate 16 0)

/-- After the run instance `i` unwraps the key of `e`, and wraps for it. -/
def Revived (run : List Action) (i : ℕ) : Prop :=
  ∃ w kms, Trace (Step standIn fun _ => true) World.new run w ∧ w.instances[i]? = some kms ∧
    kms.unwrapDek standIn (fun _ => true) "e" someBlob = .ok someDek ∧
    ∃ blob kms', kms.wrapDek standIn (fun _ => true) someNonce "e" someDek = .ok (blob, kms')

/-- A second construction with the master key. -/
def masterKeyRun : List Action :=
  [.construct (some someKey) [], .wrap 0 "e" someDek someNonce, .destroy 0 "e",
    .construct (some someKey) []]

/-- A write through an instance that was constructed before the destruction. -/
def staleRun : List Action :=
  [.construct none someKey, .construct none [], .wrap 0 "e" someDek someNonce, .destroy 0 "e",
    .wrap 1 "f" someDek someNonce, .construct none []]

theorem destroyed_revived : Revived masterKeyRun 1 ∧ Revived staleRun 2 := by
  constructor
  · exact ⟨_, _, Trace.of_foldlM rfl, rfl, rfl, _, _, rfl⟩
  · exact ⟨_, _, Trace.of_foldlM rfl, rfl, rfl, _, _, rfl⟩

end Revived

end KmsPath

end Unlearning
