import Unlearning.CryptoShred

/-!
# Several vaults over one file KMS

`wrap_dek` hands out a blob and keeps it as the entity's, in the place of the one before;
`unwrap_dek` opens the blob that it keeps, whatever blob it is given. So what a blob unwraps to
is decided by the last `wrap_dek` of the entity, by whichever vault it came
(`exists_gives`), and the blobs of an entity are unwrapped to what they were made of exactly
if all were made of one key (`unwraps_iff_oneKey`).
-/

namespace Unlearning

open PyText CryptoShred

namespace CryptoShred

/-- The draw and the entity of a call that provisions. -/
def VaultCall.provisions : VaultCall → Option (Draw × String)
  | .provision draw entityId => some (draw, entityId)
  | .encrypt draw entityId _ _ => some (draw, entityId)
  | _ => none

end CryptoShred

namespace SharedKms

/-- What a `KmsCryptoShredVault` keeps beside its KMS. -/
structure Holdings where
  records : Dict String (List UInt8)
  shredded : List String

/-- A `LocalFileKMS`, and the vaults that were constructed over it. -/
structure World where
  kms : LocalFileKMS
  vaults : List Holdings

/-- A construction of a vault, a call of the KMS, or a call of vault `i`. -/
inductive Action : Type where
  | construct
  | wrap (draw : Draw) (entityId : String) (dek : List UInt8)
  | unwrap (entityId : String) (wrapped : List UInt8)
  | destroy (entityId : String)
  | call (i : ℕ) (call : VaultCall)

namespace World

/-- A KMS with no vault yet. -/
def onFile (kms : LocalFileKMS) : World := ⟨kms, []⟩

/-- Vault `i`, with the KMS as it is now. -/
def vault (w : World) (i : ℕ) : Option KmsCryptoShredVault :=
  w.vaults[i]?.map fun held => ⟨w.kms, held.records, held.shredded⟩

/-- Vault `i` has become `v`. -/
def leave (w : World) (i : ℕ) (v : KmsCryptoShredVault) : World :=
  ⟨v.kms, w.vaults.set i ⟨v.records, v.shredded⟩⟩

section Steps

variable (aes : AesGcm) (printable : Char → Bool)

/-- What an action leaves; a `wrap_dek` that raises leaves everything as it is. -/
def perform (w : World) : Action → World
  | .construct => { w with vaults := w.vaults ++ [⟨∅, []⟩] }
  | .wrap draw entityId dek =>
    match w.kms.wrapDek aes printable draw.wrapNonce entityId dek with
    | .error _ => w
    | .ok (_, kms) => { w with kms := kms }
  | .unwrap _ _ => w
  | .destroy entityId => { w with kms := w.kms.destroyEntityKey entityId }
  | .call i call =>
    match w.vault i with
    | none => w
    | some v => w.leave i ((KmsCryptoShredVault.system aes printable).apply v call)

/-- What actions leave, one after the other. -/
def run (w : World) (actions : List Action) : World := actions.foldl (perform aes printable) w

/-- The call of `wrap_dek` that an action comes to. -/
def wrapCall (w : World) : Action → Option (Draw × String × List UInt8)
  | .wrap draw entityId dek => some (draw, entityId, dek)
  | .call i call => do
    let v ← w.vault i
    let (draw, entityId) ← call.provisions
    let eid := strip entityId
    if eid = "" ∨ eid ∈ v.shredded ∨ eid ∈ v.records then none else some (draw, eid, draw.key)
  | _ => none

/-- The action wraps the key, and the blob is what `wrap_dek` returned. -/
def Wraps (w : World) (action : Action) (eid : String) (dek blob : List UInt8) : Prop :=
  ∃ draw kms, w.wrapCall action = some (draw, eid, dek) ∧
    w.kms.wrapDek aes printable draw.wrapNonce eid dek = .ok (blob, kms)

/-- `wrap_dek(eid, dek)` has returned the blob in the run. -/
def Wrapped (w : World) (actions : List Action) (eid : String) (dek blob : List UInt8) : Prop :=
  ∃ before action after, actions = before ++ action :: after ∧
    (w.run aes printable before).Wraps aes printable action eid dek blob

/-- Vault `i` has encrypted the text for the entity in the run. -/
def Sealed (w : World) (actions : List Action) (i : ℕ) (eid : String)
    (plaintext aad blob : List UInt8) : Prop :=
  ∃ before draw entityId after v,
    actions = before ++ .call i (.encrypt draw entityId plaintext aad) :: after ∧
    strip entityId = eid ∧ (w.run aes printable before).vault i = some v ∧
    (KmsCryptoShredVault.encrypt aes printable draw entityId plaintext aad v).1 = .ok blob

/-- Vault `i` decrypts the blob. -/
def Opens (w : World) (i : ℕ) (eid : String) (plaintext aad blob : List UInt8) : Prop :=
  ∃ v, w.vault i = some v ∧ ∀ entityId, strip entityId = eid →
    KmsCryptoShredVault.decrypt aes printable entityId blob aad v = .ok plaintext

/-- **What is promised of an entity after a run**: its blobs are unwrapped to what was wrapped,
and every vault decrypts what it has encrypted. -/
structure Unwraps (w : World) (actions : List Action) (eid : String) : Prop where
  unwrapped : ∀ dek blob, w.Wrapped aes printable actions eid dek blob →
    (w.run aes printable actions).kms.unwrapDek aes printable eid blob = .ok dek
  opened : ∀ i plaintext aad blob, w.Sealed aes printable actions i eid plaintext aad blob →
    (w.run aes printable actions).Opens aes printable i eid plaintext aad blob

/-- All that was wrapped for the entity is one key. -/
def OneKey (w : World) (actions : List Action) (eid : String) : Prop :=
  ∀ dek blob dek' blob', w.Wrapped aes printable actions eid dek blob →
    w.Wrapped aes printable actions eid dek' blob' → dek = dek'

/-- The KMS gives the key for the entity, whatever blob it is given. -/
def Gives (w : World) (eid : String) (dek : List UInt8) : Prop :=
  ∀ blob, w.kms.unwrapDek aes printable eid blob = .ok dek

end Steps

/-- Vault `i` has a record of the entity. -/
def Holds (w : World) (i : ℕ) (eid : String) : Prop :=
  ∃ held, w.vaults[i]? = some held ∧ eid ∉ held.shredded ∧ eid ∈ held.records

end World

open World

section Run

variable {aes : AesGcm} {printable : Char → Bool} {w : World} {eid : String}

@[simp] theorem run_nil : w.run aes printable [] = w := rfl

theorem run_concat (actions : List Action) (action : Action) :
    w.run aes printable (actions ++ [action]) =
      (w.run aes printable actions).perform aes printable action := by
  rw [World.run, List.foldl_append]
  rfl

theorem run_append (actions later : List Action) :
    w.run aes printable (actions ++ later) =
      (w.run aes printable actions).run aes printable later := by
  rw [World.run, List.foldl_append]
  rfl

/-- What is wrapped in a longer run. -/
theorem wrapped_concat {actions : List Action} {action : Action} {dek blob : List UInt8} :
    w.Wrapped aes printable (actions ++ [action]) eid dek blob ↔
      w.Wrapped aes printable actions eid dek blob ∨
        (w.run aes printable actions).Wraps aes printable action eid dek blob := by
  constructor
  · rintro ⟨before, action', after, heq, hwraps⟩
    rcases List.eq_nil_or_concat after with rfl | ⟨after', last, rfl⟩
    · obtain ⟨rfl, hlast⟩ := List.append_inj' heq rfl
      obtain rfl := List.head_eq_of_cons_eq hlast
      exact .inr hwraps
    · rw [List.concat_eq_append, ← List.cons_append, ← List.append_assoc] at heq
      obtain ⟨rfl, -⟩ := List.append_inj' heq rfl
      exact .inl ⟨before, action', after', rfl, hwraps⟩
  · rintro (⟨before, action', after, rfl, hwraps⟩ | hwraps)
    · exact ⟨before, action', after ++ [action], by simp, hwraps⟩
    · exact ⟨actions, action, [], rfl, hwraps⟩

theorem wrapped_append {actions : List Action} (later : List Action) {dek blob : List UInt8}
    (h : w.Wrapped aes printable actions eid dek blob) :
    w.Wrapped aes printable (actions ++ later) eid dek blob := by
  obtain ⟨before, action, after, rfl, hwraps⟩ := h
  exact ⟨before, action, after ++ later, by simp, hwraps⟩

end Run

/-! ## One action -/

section Action

variable {aes : AesGcm} {printable : Char → Bool} {w : World} {eid : String}

/-- A new key, where `wrap_dek` returns. -/
theorem provision_new {draw : Draw} {entityId : String} {v : KmsCryptoShredVault}
    {wrapped : List UInt8} {kms : LocalFileKMS}
    (hguard : ¬ (strip entityId = "" ∨ strip entityId ∈ v.shredded ∨
      strip entityId ∈ v.records))
    (hwrap : v.kms.wrapDek aes printable draw.wrapNonce (strip entityId) draw.key =
      .ok (wrapped, kms)) :
    KmsCryptoShredVault.provision aes printable draw entityId v =
      (.ok draw.key,
        { v with kms := kms, records := v.records.insert (strip entityId) wrapped }) := by
  obtain ⟨hblank, hrest⟩ := not_or.mp hguard
  obtain ⟨hshredded, hnew⟩ := not_or.mp hrest
  rw [KmsCryptoShredVault.provision, if_neg hblank, if_neg hshredded,
    AList.lookup_eq_none.mpr hnew]
  dsimp only
  rw [hwrap]

/-- `provision` wraps a new key, or it leaves its vault as it is. -/
theorem provision_cases (draw : Draw) (entityId : String) (v : KmsCryptoShredVault) :
    (∃ wrapped kms, ¬ (strip entityId = "" ∨ strip entityId ∈ v.shredded ∨
        strip entityId ∈ v.records) ∧
      v.kms.wrapDek aes printable draw.wrapNonce (strip entityId) draw.key =
          .ok (wrapped, kms)) ∨
    (KmsCryptoShredVault.provision aes printable draw entityId v).2 = v ∧
      ∀ key, (KmsCryptoShredVault.provision aes printable draw entityId v).1 = .ok key →
        strip entityId ∉ v.shredded ∧ ∃ wrapped, v.records.lookup (strip entityId) =
          some wrapped ∧ v.kms.unwrapDek aes printable (strip entityId) wrapped = .ok key := by
  rw [KmsCryptoShredVault.provision]
  split
  · exact .inr ⟨rfl, fun _ h => by cases h⟩
  · split
    · exact .inr ⟨rfl, fun _ h => by cases h⟩
    · rename_i hblank hshredded
      rcases hrecord : v.records.lookup (strip entityId) with _ | wrapped
      · have hnew : strip entityId ∉ v.records := AList.lookup_eq_none.mp hrecord
        dsimp only
        rcases hwrap : v.kms.wrapDek aes printable draw.wrapNonce (strip entityId) draw.key with
          e | ⟨wrapped, kms⟩
        · exact .inr ⟨rfl, fun _ h => by cases h⟩
        · refine .inl ⟨wrapped, kms, ?_, rfl⟩
          rintro (h | h | h)
          · exact hblank h
          · exact hshredded h
          · exact hnew h
      · exact .inr ⟨rfl, fun key hkey => ⟨hshredded, wrapped, rfl, hkey⟩⟩

/-- What a call that is not `shred` leaves is what `provision` leaves. -/
theorem apply_provisions {call : VaultCall} {draw : Draw} {entityId : String}
    (h : call.provisions = some (draw, entityId)) (v : KmsCryptoShredVault) :
    (KmsCryptoShredVault.system aes printable).apply v call =
      (KmsCryptoShredVault.provision aes printable draw entityId v).2 := by
  rcases call with ⟨draw', entityId'⟩ | ⟨draw', entityId', plaintext, aad⟩ | _ | _
  · obtain ⟨rfl, rfl⟩ := Prod.mk.inj (Option.some.inj h)
    rfl
  · obtain ⟨rfl, rfl⟩ := Prod.mk.inj (Option.some.inj h)
    rcases hresult : (KmsCryptoShredVault.provision aes printable draw' entityId' v).1 with
      e | key
    · simp only [VaultSystem.apply, KmsCryptoShredVault.system, KmsCryptoShredVault.encrypt]
      rw [sealUnder_error plaintext aad hresult]
    · simp only [VaultSystem.apply, KmsCryptoShredVault.system, KmsCryptoShredVault.encrypt]
      rw [sealUnder_ok plaintext aad hresult]
  · cases h
  · cases h

/-- **What a call does to its vault**: nothing, or it wraps a new key, or it shreds. -/
theorem apply_cases (v : KmsCryptoShredVault) (call : VaultCall) :
    (KmsCryptoShredVault.system aes printable).apply v call = v ∨
    (∃ draw entityId wrapped kms, call.provisions = some (draw, entityId) ∧
      ¬ (strip entityId = "" ∨ strip entityId ∈ v.shredded ∨ strip entityId ∈ v.records) ∧
      v.kms.wrapDek aes printable draw.wrapNonce (strip entityId) draw.key =
        .ok (wrapped, kms) ∧
      (KmsCryptoShredVault.system aes printable).apply v call =
        { v with kms := kms, records := v.records.insert (strip entityId) wrapped }) ∨
    ∃ now entityId, call = .shred now entityId := by
  rcases hprovisions : call.provisions with _ | ⟨draw, entityId⟩
  · rcases call with _ | _ | _ | ⟨now, entityId⟩
    · cases hprovisions
    · cases hprovisions
    · exact .inl rfl
    · exact .inr (.inr ⟨now, entityId, rfl⟩)
  · rw [apply_provisions hprovisions]
    rcases @provision_cases aes printable draw entityId v with
      ⟨wrapped, kms, hguard, hwrap⟩ | ⟨heq, -⟩
    · refine .inr (.inl ⟨draw, entityId, wrapped, kms, rfl, hguard, hwrap, ?_⟩)
      rw [provision_new hguard hwrap]
    · exact .inl heq

theorem holds_iff {i : ℕ} {v : KmsCryptoShredVault} (h : w.vault i = some v) :
    w.Holds i eid ↔ eid ∉ v.shredded ∧ eid ∈ v.records := by
  obtain ⟨held, hheld, rfl⟩ := Option.map_eq_some_iff.mp h
  constructor
  · rintro ⟨held', hheld', hholds⟩
    obtain rfl := Option.some.inj (hheld.symm.trans hheld')
    exact hholds
  · intro hholds
    exact ⟨held, hheld, hholds⟩

theorem vault_leave_self {i : ℕ} {v v' : KmsCryptoShredVault} (h : w.vault i = some v) :
    (w.leave i v').vault i = some v' := by
  obtain ⟨held, hheld, -⟩ := Option.map_eq_some_iff.mp h
  have hlt := (List.getElem?_eq_some_iff.mp hheld).1
  rw [World.vault, World.leave, List.getElem?_set_self hlt]
  rfl

theorem holds_leave_ne {i j : ℕ} {v' : KmsCryptoShredVault} (hne : i ≠ j) :
    (w.leave i v').Holds j eid ↔ w.Holds j eid := by
  rw [World.Holds, World.leave, List.getElem?_set_ne hne, World.Holds]

/-- The records that are left where one vault has changed. -/
theorem holds_leave {i : ℕ} {v v' : KmsCryptoShredVault} (h : w.vault i = some v)
    (hsame : eid ∉ v'.shredded ∧ eid ∈ v'.records ↔ eid ∉ v.shredded ∧ eid ∈ v.records)
    (j : ℕ) : (w.leave i v').Holds j eid ↔ w.Holds j eid := by
  by_cases heq : i = j
  · subst heq
    rw [holds_iff h, holds_iff (vault_leave_self h), hsame]
  · exact holds_leave_ne heq

/-- A new vault has no records. -/
theorem holds_construct (i : ℕ) :
    (w.perform aes printable .construct).Holds i eid ↔ w.Holds i eid := by
  constructor
  · rintro ⟨held, hheld, hshredded, hrecord⟩
    rw [World.perform, List.getElem?_append] at hheld
    split at hheld
    · exact ⟨held, hheld, hshredded, hrecord⟩
    · rw [List.getElem?_singleton] at hheld
      split at hheld
      · obtain rfl := Option.some.inj hheld
        cases hrecord
      · cases hheld
  · rintro ⟨held, hheld, hshredded, hrecord⟩
    refine ⟨held, ?_, hshredded, hrecord⟩
    rw [World.perform, List.getElem?_append_left (List.getElem?_eq_some_iff.mp hheld).1, hheld]

/-- **What an action does to an entity**: its key is wrapped anew, or destroyed, or what is
unwrapped for it and who has a record of it is as before. -/
theorem perform_cases (w : World) (action : Action) (eid : String) :
    (∃ dek blob, w.Wraps aes printable action eid dek blob) ∨
    eid ∈ (w.perform aes printable action).kms.destroyed ∨
    ((eid ∈ (w.perform aes printable action).kms.destroyed ↔ eid ∈ w.kms.destroyed) ∧
      (∀ blob, (w.perform aes printable action).kms.unwrapDek aes printable eid blob =
        w.kms.unwrapDek aes printable eid blob) ∧
      ∀ i, (w.perform aes printable action).Holds i eid ↔ w.Holds i eid) := by
  rcases action with _ | ⟨draw, entityId, dek⟩ | ⟨entityId, wrapped⟩ | entityId | ⟨i, call⟩
  · exact .inr (.inr ⟨Iff.rfl, fun _ => rfl, holds_construct⟩)
  · rcases hwrap : w.kms.wrapDek aes printable draw.wrapNonce entityId dek with e | ⟨blob, kms⟩
    · rw [World.perform, hwrap]
      exact .inr (.inr ⟨Iff.rfl, fun _ => rfl, fun _ => Iff.rfl⟩)
    · by_cases heq : eid = entityId
      · subst heq
        exact .inl ⟨dek, blob, draw, kms, rfl, hwrap⟩
      · rw [World.perform, hwrap]
        refine .inr (.inr ⟨?_, unwrapDek_wrapDek_ne heq hwrap, fun _ => Iff.rfl⟩)
        rw [LocalFileKMS.wrapDek_destroyed hwrap]
  · exact .inr (.inr ⟨Iff.rfl, fun _ => rfl, fun _ => Iff.rfl⟩)
  · by_cases heq : eid = entityId
    · subst heq
      exact .inr (.inl ((LocalFileKMS.mem_destroyEntityKey _ _ _).mpr (.inl rfl)))
    · refine .inr (.inr ⟨?_, unwrapDek_destroy_ne heq, fun _ => Iff.rfl⟩)
      exact (LocalFileKMS.mem_destroyEntityKey _ _ _).trans (or_iff_right heq)
  · rcases hvault : w.vault i with _ | v
    · rw [World.perform, hvault]
      exact .inr (.inr ⟨Iff.rfl, fun _ => rfl, fun _ => Iff.rfl⟩)
    · have hkms : v.kms = w.kms := by
        obtain ⟨held, -, rfl⟩ := Option.map_eq_some_iff.mp hvault
        rfl
      rw [World.perform, hvault]
      dsimp only
      rcases @apply_cases aes printable v call with heq |
        ⟨draw, entityId, wrapped, kms, hcall, hguard, hwrap, heq⟩ | ⟨now, entityId, rfl⟩
      · rw [heq]
        refine .inr (.inr ⟨?_, fun _ => ?_, holds_leave hvault Iff.rfl⟩)
        · rw [World.leave, hkms]
        · rw [World.leave, hkms]
      · rw [hkms] at hwrap
        by_cases hid : eid = strip entityId
        · -- a key for this entity: the call of `wrap_dek` is the vault's
          refine .inl ⟨draw.key, wrapped, draw, kms, ?_, by rw [hid]; exact hwrap⟩
          simp only [World.wrapCall, hvault, hcall, Option.bind_eq_bind, Option.bind_some]
          rw [if_neg hguard, hid]
        · rw [heq]
          refine .inr (.inr ⟨?_, unwrapDek_wrapDek_ne hid hwrap, holds_leave hvault ?_⟩)
          · rw [World.leave, LocalFileKMS.wrapDek_destroyed hwrap]
          · simp only [AList.mem_insert, hid, false_or]
      · by_cases hid : eid = strip entityId
        · refine .inr (.inl ((LocalFileKMS.mem_destroyEntityKey _ _ _).mpr (.inl hid)))
        · refine .inr (.inr ⟨?_, fun blob => ?_, holds_leave hvault ?_⟩)
          · rw [← hkms]
            exact (LocalFileKMS.mem_destroyEntityKey _ _ _).trans (or_iff_right hid)
          · rw [← hkms]
            exact unwrapDek_destroy_ne hid blob
          · have hmem : eid ∈ v.records.erase (strip entityId) ↔ eid ∈ v.records := by
              rw [AList.mem_erase]
              exact and_iff_right hid
            have hshredded : eid ∈ v.shredded.insert (strip entityId) ↔ eid ∈ v.shredded := by
              rw [List.mem_insert_iff, or_iff_right hid]
            exact and_congr (not_congr hshredded) hmem

/-- What a wrap leaves: the KMS of `wrap_dek`, and all the records there were. -/
theorem perform_wraps {action : Action} {dek blob : List UInt8}
    (h : w.Wraps aes printable action eid dek blob) :
    (∃ draw : Draw, w.kms.wrapDek aes printable draw.wrapNonce eid dek =
      .ok (blob, (w.perform aes printable action).kms)) ∧
    ∀ i, w.Holds i eid → (w.perform aes printable action).Holds i eid := by
  obtain ⟨draw, kms, hcall, hwrap⟩ := h
  rcases action with _ | ⟨draw', entityId, dek'⟩ | _ | _ | ⟨i, call⟩
  · cases hcall
  · obtain ⟨rfl, rfl, rfl⟩ : draw' = draw ∧ entityId = eid ∧ dek' = dek := by
      obtain ⟨h₁, h₂⟩ := Prod.mk.inj (Option.some.inj hcall)
      exact ⟨h₁, Prod.mk.inj h₂⟩
    rw [World.perform, hwrap]
    exact ⟨⟨draw', hwrap⟩, fun _ => id⟩
  · cases hcall
  · cases hcall
  · rcases hvault : w.vault i with _ | v
    · simp [World.wrapCall, hvault] at hcall
    · rcases hprovisions : call.provisions with _ | ⟨draw', entityId⟩
      · simp [World.wrapCall, hvault, hprovisions] at hcall
      · simp only [World.wrapCall, hvault, hprovisions, Option.bind_eq_bind,
          Option.bind_some] at hcall
        split at hcall
        · cases hcall
        · rename_i hguard
          obtain ⟨rfl, hrest⟩ := Prod.mk.inj (Option.some.inj hcall)
          obtain ⟨rfl, rfl⟩ := Prod.mk.inj hrest
          have hkms : v.kms = w.kms := by
            obtain ⟨held, -, rfl⟩ := Option.map_eq_some_iff.mp hvault
            rfl
          have happly : (KmsCryptoShredVault.system aes printable).apply v call =
              { v with kms := kms, records := v.records.insert (strip entityId) blob } := by
            rw [apply_provisions hprovisions, provision_new hguard (by rw [hkms]; exact hwrap)]
          rw [World.perform, hvault]
          dsimp only
          rw [happly]
          refine ⟨⟨draw', hwrap⟩, fun j hholds => ?_⟩
          by_cases heq : i = j
          · -- the vault that wraps had no record
            subst heq
            exact absurd (.inr (.inr ((holds_iff hvault).mp hholds).2)) hguard
          · exact (holds_leave_ne heq).mpr hholds

theorem gives_of_wraps (hideal : aes.Ideal) {action : Action} {dek blob : List UInt8}
    (h : w.Wraps aes printable action eid dek blob) :
    (w.perform aes printable action).Gives aes printable eid dek := by
  obtain ⟨⟨draw, hwrap⟩, -⟩ := perform_wraps h
  exact unwrapDek_wrapDek hideal draw.wrapNonce_length hwrap

/-- Destroyed keys stay destroyed. -/
theorem destroyed_perform (action : Action) (h : eid ∈ w.kms.destroyed) :
    eid ∈ (w.perform aes printable action).kms.destroyed := by
  rcases @perform_cases aes printable w action eid with ⟨dek, blob, draw, kms, -, hwrap⟩ |
    hdestroyed | ⟨hiff, -⟩
  · exact absurd h (LocalFileKMS.wrapDek_ok hwrap).1
  · exact hdestroyed
  · exact hiff.mpr h

/-- Records are kept until the key is destroyed. -/
theorem holds_perform {action : Action} {i : ℕ} (h : w.Holds i eid)
    (hlive : eid ∉ (w.perform aes printable action).kms.destroyed) :
    (w.perform aes printable action).Holds i eid := by
  rcases @perform_cases aes printable w action eid with ⟨dek, blob, hwraps⟩ |
    hdestroyed | ⟨-, -, hiff⟩
  · exact (perform_wraps hwraps).2 i h
  · exact absurd hdestroyed hlive
  · exact (hiff i).mpr h

end Action

/-! ## Runs -/

section Runs

variable {aes : AesGcm} {printable : Char → Bool} {w : World} {eid : String}

theorem live_prefix {before later : List Action}
    (h : eid ∉ (w.run aes printable (before ++ later)).kms.destroyed) :
    eid ∉ (w.run aes printable before).kms.destroyed := by
  induction later using List.reverseRecOn with
  | nil => rwa [List.append_nil] at h
  | append_singleton later action ih =>
    rw [← List.append_assoc, run_concat] at h
    exact ih fun hdestroyed => h (destroyed_perform action hdestroyed)

/-- **The last wrap decides**: after a run that has wrapped for the entity, the KMS gives one of
the keys that were wrapped for it. -/
theorem exists_gives (hideal : aes.Ideal) {actions : List Action}
    (hlive : eid ∉ (w.run aes printable actions).kms.destroyed) {dek blob : List UInt8}
    (hwrapped : w.Wrapped aes printable actions eid dek blob) :
    ∃ last blob', w.Wrapped aes printable actions eid last blob' ∧
      (w.run aes printable actions).Gives aes printable eid last := by
  induction actions using List.reverseRecOn with
  | nil =>
    obtain ⟨before, action, after, heq, -⟩ := hwrapped
    simp at heq
  | append_singleton actions action ih =>
    have hbefore := live_prefix hlive
    rw [run_concat] at hlive ⊢
    rcases @perform_cases aes printable (w.run aes printable actions) action eid with
      ⟨last, blob', hwraps⟩ | hdestroyed | ⟨-, hsame, -⟩
    · exact ⟨last, blob', wrapped_concat.mpr (.inr hwraps), gives_of_wraps hideal hwraps⟩
    · exact absurd hdestroyed hlive
    · rcases wrapped_concat.mp hwrapped with hwrapped | hwraps
      · obtain ⟨last, blob', hlast, hgives⟩ := ih hbefore hwrapped
        refine ⟨last, blob', wrapped_concat.mpr (.inl hlast), fun blob => ?_⟩
        rw [hsame, hgives]
      · exact ⟨dek, blob, wrapped_concat.mpr (.inr hwraps), gives_of_wraps hideal hwraps⟩

/-- There are no records without a wrap. -/
theorem wrapped_of_holds {kms : LocalFileKMS} {actions : List Action} {i : ℕ}
    (hlive : eid ∉ ((onFile kms).run aes printable actions).kms.destroyed)
    (h : ((onFile kms).run aes printable actions).Holds i eid) :
    ∃ dek blob, (onFile kms).Wrapped aes printable actions eid dek blob := by
  induction actions using List.reverseRecOn with
  | nil =>
    obtain ⟨held, hheld, -⟩ := h
    simp [onFile] at hheld
  | append_singleton actions action ih =>
    have hbefore := live_prefix hlive
    rw [run_concat] at h hlive
    rcases @perform_cases aes printable ((onFile kms).run aes printable actions) action eid with
      ⟨dek, blob, hwraps⟩ | hdestroyed | ⟨-, -, hiff⟩
    · exact ⟨dek, blob, wrapped_concat.mpr (.inr hwraps)⟩
    · exact absurd hdestroyed hlive
    · obtain ⟨dek, blob, hwrapped⟩ := ih hbefore ((hiff i).mp h)
      exact ⟨dek, blob, wrapped_concat.mpr (.inl hwrapped)⟩

theorem holds_run {actions : List Action} {i : ℕ} (h : w.Holds i eid)
    (hlive : eid ∉ (w.run aes printable actions).kms.destroyed) :
    (w.run aes printable actions).Holds i eid := by
  induction actions using List.reverseRecOn with
  | nil => exact h
  | append_singleton actions action ih =>
    have hbefore := live_prefix hlive
    rw [run_concat] at hlive ⊢
    exact holds_perform (ih hbefore) hlive

/-! ## Ciphertexts -/

/-- **What an `encrypt` that returns has done**: it has sealed under a key that the KMS gives
for the record of the vault. -/
theorem sealed_perform (hideal : aes.Ideal) {i : ℕ} {v : KmsCryptoShredVault}
    (hvault : w.vault i = some v) {draw : Draw} {entityId : String}
    {plaintext aad blob : List UInt8}
    (h : (KmsCryptoShredVault.encrypt aes printable draw entityId plaintext aad v).1 = .ok blob)
    {w' : World} (hw' : w' = w.perform aes printable
      (.call i (.encrypt draw entityId plaintext aad))) :
    ∃ key wrapped, sealBlob aes key draw.nonce plaintext aad = .ok blob ∧
      w'.Holds i (strip entityId) ∧
      w'.kms.unwrapDek aes printable (strip entityId) wrapped = .ok key := by
  have hprovisions : (VaultCall.encrypt draw entityId plaintext aad).provisions =
    some (draw, entityId) := rfl
  rw [World.perform, hvault] at hw'
  dsimp only at hw'
  rw [apply_provisions hprovisions] at hw'
  subst hw'
  rcases hresult : (KmsCryptoShredVault.provision aes printable draw entityId v).1 with e | key
  · rw [KmsCryptoShredVault.encrypt, sealUnder_error plaintext aad hresult] at h
    cases h
  · rw [KmsCryptoShredVault.encrypt, sealUnder_ok plaintext aad hresult] at h
    rcases @provision_cases aes printable draw entityId v with
      ⟨wrapped, kms, hguard, hwrap⟩ | ⟨hsame, hold⟩
    · rw [provision_new hguard hwrap] at hresult ⊢
      obtain rfl := Except.ok.inj hresult
      refine ⟨draw.key, wrapped, h, (holds_iff (vault_leave_self hvault)).mpr ⟨?_, ?_⟩, ?_⟩
      · exact fun hshredded => hguard (.inr (.inl hshredded))
      · exact (AList.mem_insert _).mpr (.inl rfl)
      · exact unwrapDek_wrapDek hideal draw.wrapNonce_length hwrap wrapped
    · obtain ⟨hshredded, wrapped, hrecord, hkey⟩ := hold key hresult
      rw [hsame]
      refine ⟨key, wrapped, h, (holds_iff (vault_leave_self hvault)).mpr ⟨hshredded, ?_⟩, hkey⟩
      exact AList.lookup_isSome.mp (by rw [hrecord]; rfl)

/-- A vault decrypts what was sealed under the key that the KMS gives. -/
theorem opens_of_gives (hideal : aes.Ideal) {i : ℕ} (hholds : w.Holds i eid)
    {key : List UInt8} (hgives : w.Gives aes printable eid key)
    {nonce plaintext aad blob : List UInt8} (hnonce : nonce.length = 12)
    (hseal : sealBlob aes key nonce plaintext aad = .ok blob) :
    w.Opens aes printable i eid plaintext aad blob := by
  obtain ⟨held, hheld, hshredded, hrecord⟩ := hholds
  refine ⟨⟨w.kms, held.records, held.shredded⟩, ?_, ?_⟩
  · rw [World.vault, hheld, Option.map_some]
  · rintro entityId rfl
    obtain ⟨wrapped, hwrapped⟩ := Option.isSome_iff_exists.mp (AList.lookup_isSome.mpr hrecord)
    rw [KmsCryptoShredVault.decrypt, if_neg hshredded]
    dsimp only
    rw [hwrapped]
    dsimp only
    rw [hgives wrapped]
    exact openBlob_sealBlob hideal hnonce hseal

/-- One key suffices for the vaults: each still has its record, and the KMS gives the key that
the text was sealed under. -/
theorem opens_of_oneKey (hideal : aes.Ideal) {kms : LocalFileKMS} {actions : List Action}
    (hlive : eid ∉ ((onFile kms).run aes printable actions).kms.destroyed)
    (hone : (onFile kms).OneKey aes printable actions eid) {i : ℕ}
    {plaintext aad blob : List UInt8}
    (h : (onFile kms).Sealed aes printable actions i eid plaintext aad blob) :
    ((onFile kms).run aes printable actions).Opens aes printable i eid plaintext aad blob := by
  obtain ⟨before, draw, entityId, after, v, rfl, rfl, hvault, hencrypt⟩ := h
  rw [List.append_cons] at hlive hone ⊢
  have hmade := live_prefix hlive
  have hmaking := @run_concat aes printable (onFile kms) before
    (.call i (.encrypt draw entityId plaintext aad))
  obtain ⟨key, wrapped, hseal, hholds, hunwrap⟩ :=
    sealed_perform hideal hvault hencrypt hmaking
  obtain ⟨dek, blob', hdek⟩ := wrapped_of_holds hmade hholds
  -- the key in use then, and the key that is given in the end
  obtain ⟨used, _, hused, hgives⟩ := exists_gives hideal hmade hdek
  obtain rfl := Except.ok.inj ((hgives wrapped).symm.trans hunwrap)
  have hstill := wrapped_append after hused
  obtain ⟨last, _, hlast, hgivesLast⟩ := exists_gives hideal hlive hstill
  obtain rfl := hone _ _ _ _ hstill hlast
  refine opens_of_gives hideal ?_ hgivesLast draw.nonce_length hseal
  rw [run_append] at hlive ⊢
  exact holds_run hholds hlive

/-- **Blobs are unwrapped to what was wrapped, and ciphertexts decrypted,** exactly if one key
was wrapped for the entity all along. -/
theorem unwraps_iff_oneKey (hideal : aes.Ideal) (printable : Char → Bool) (kms : LocalFileKMS)
    (actions : List Action) (eid : String)
    (hlive : eid ∉ ((onFile kms).run aes printable actions).kms.destroyed) :
    (onFile kms).Unwraps aes printable actions eid ↔
      (onFile kms).OneKey aes printable actions eid := by
  constructor
  · intro h dek blob dek' blob' hdek hdek'
    -- the KMS gives one key, whatever blob it is asked to unwrap
    obtain ⟨last, _, -, hgives⟩ := exists_gives hideal hlive hdek
    have hfirst := (hgives blob).symm.trans (h.unwrapped dek blob hdek)
    have hsecond := (hgives blob').symm.trans (h.unwrapped dek' blob' hdek')
    exact (Except.ok.inj hfirst).symm.trans (Except.ok.inj hsecond)
  · intro hone
    constructor
    · intro dek blob hdek
      obtain ⟨last, blob', hlast, hgives⟩ := exists_gives hideal hlive hdek
      rw [hgives blob, hone _ _ _ _ hdek hlast]
    · intro i plaintext aad blob hsealed
      exact opens_of_oneKey hideal hlive hone hsealed

end Runs

/-! ## Two runs -/

section Two

/-- What a call draws, of one byte. -/
def drawOf (byte : UInt8) : Draw :=
  ⟨List.replicate 32 byte, List.replicate 12 0, List.replicate 12 byte, List.length_replicate,
    List.length_replicate, List.length_replicate⟩

/-- A vault encrypts for an entity, its key is wrapped once more, and the vault encrypts again. -/
def sameKeyTwice : List Action :=
  [.construct, .call 0 (.encrypt (drawOf 1) "e" [5] []), .wrap (drawOf 2) "e" (drawOf 1).key,
    .call 0 (.encrypt (drawOf 3) "e" [6] [])]

/-- The blobs of one key stay good, and so do the ciphertexts of the vault. -/
theorem unwraps_sameKeyTwice :
    let w := onFile ⟨KmsPath.someKey, ∅, []⟩
    w.Unwraps KmsPath.standIn (fun _ => true) sameKeyTwice "e" ∧
      ∃ blob, w.Sealed KmsPath.standIn (fun _ => true) sameKeyTwice 0 "e" [5] [] blob ∧
        (w.run KmsPath.standIn (fun _ => true) sameKeyTwice).Opens KmsPath.standIn (fun _ => true)
          0 "e" [5] [] blob := by
  intro w
  have hlive : "e" ∉ (w.run KmsPath.standIn (fun _ => true) sameKeyTwice).kms.destroyed :=
    List.not_mem_nil
  have hkey : ∀ dek blob, w.Wrapped KmsPath.standIn (fun _ => true) sameKeyTwice "e" dek blob →
      dek = (drawOf 1).key := by
    intro dek blob h
    rcases (@wrapped_concat _ _ _ _ [_, _, _] _ _ _).mp h with h | ⟨_, _, hcall, -⟩
    · rcases (@wrapped_concat _ _ _ _ [_, _] _ _ _).mp h with h | ⟨_, _, hcall, -⟩
      · rcases (@wrapped_concat _ _ _ _ [_] _ _ _).mp h with h | ⟨_, _, hcall, -⟩
        · rcases (@wrapped_concat _ _ _ _ [] _ _ _).mp h with
            ⟨before, _, _, heq, -⟩ | ⟨_, _, hcall, -⟩
          · simp at heq
          · cases hcall
        · exact (Prod.mk.inj (Prod.mk.inj (Option.some.inj hcall)).2).2.symm
      · exact (Prod.mk.inj (Prod.mk.inj (Option.some.inj hcall)).2).2.symm
    · -- the vault has its record by then
      cases hcall
  have hunwraps := (unwraps_iff_oneKey standIn_ideal (fun _ => true) ⟨KmsPath.someKey, ∅, []⟩
    sameKeyTwice "e" hlive).mpr fun dek blob dek' blob' h h' =>
      (hkey dek blob h).trans (hkey dek' blob' h').symm
  obtain ⟨blob, hsealed⟩ : ∃ blob, w.Sealed KmsPath.standIn (fun _ => true) sameKeyTwice 0 "e" [5]
      [] blob := ⟨_, [.construct], drawOf 1, "e", _, _, rfl, rfl, rfl, rfl⟩
  exact ⟨hunwraps, blob, hsealed, hunwraps.opened 0 [5] [] blob hsealed⟩

/-- A stand-in for the cipher whose tag is the key, as far as it fits. -/
def keyedStandIn : AesGcm where
  encrypt key _ text _ := some (text ++ (key ++ List.replicate 16 0).take 16)
  decrypt key _ ct _ :=
    if ct.drop (ct.length - 16) = (key ++ List.replicate 16 0).take 16 then
      some (ct.take (ct.length - 16))
    else none

theorem keyedStandIn_ideal : keyedStandIn.Ideal where
  decrypt_encrypt key nonce text aad ct h := by
    obtain rfl := Option.some.inj h
    simp [keyedStandIn]
  length_encrypt key nonce text aad ct h := by
    obtain rfl := Option.some.inj h
    simp

/-- A vault encrypts for an entity, and another provisions it. -/
def secondVault : List Action :=
  [.construct, .construct, .call 0 (.encrypt (drawOf 1) "e" [5] []),
    .call 1 (.provision (drawOf 2) "e")]

/-- What `wrap_dek` returned to the first vault. -/
def firstBlob : List UInt8 := List.replicate 12 1 ++ List.replicate 32 1 ++ List.replicate 16 7

/-- What the first vault returned. -/
def ciphertext : List UInt8 := List.replicate 12 0 ++ [5] ++ List.replicate 16 1

theorem second_vault_takes_over :
    keyedStandIn.Ideal ∧
    "e" ∉ ((onFile ⟨KmsPath.someKey, ∅, []⟩).run keyedStandIn (fun _ => true)
      secondVault).kms.destroyed ∧
    (onFile ⟨KmsPath.someKey, ∅, []⟩).Wrapped keyedStandIn (fun _ => true) secondVault "e"
      (drawOf 1).key firstBlob ∧
    ((onFile ⟨KmsPath.someKey, ∅, []⟩).run keyedStandIn (fun _ => true)
      secondVault).kms.unwrapDek keyedStandIn (fun _ => true) "e" firstBlob =
        .ok (drawOf 2).key ∧
    (onFile ⟨KmsPath.someKey, ∅, []⟩).Sealed keyedStandIn (fun _ => true) secondVault 0 "e" [5] []
      ciphertext ∧
    ¬ ((onFile ⟨KmsPath.someKey, ∅, []⟩).run keyedStandIn (fun _ => true) secondVault).Opens
      keyedStandIn (fun _ => true) 0 "e" [5] [] ciphertext := by
  refine ⟨keyedStandIn_ideal, List.not_mem_nil, ?_, rfl, ?_, ?_⟩
  · exact ⟨[.construct, .construct], _, _, rfl, drawOf 1, _, rfl, rfl⟩
  · exact ⟨[.construct, .construct], drawOf 1, "e", _, _, rfl, rfl, rfl, rfl⟩
  · rintro ⟨v, hv, hopens⟩
    obtain rfl := Option.some.inj hv
    have hdecrypt := hopens "e" rfl
    cases hdecrypt

end Two

end SharedKms

end Unlearning
