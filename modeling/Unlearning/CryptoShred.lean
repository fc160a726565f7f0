import Unlearning.LocalKms

/-!
# Crypto-shredding vaults (`compliance/crypto_shred.py`, `compliance/kms_backends.py`)

Both vaults give every entity a data key and refuse an entity once it was shredded.
`CryptoShredVault` keeps the keys themselves; `KmsCryptoShredVault` keeps what a KMS wrapped and
unwraps it on every use.

`KeyState` is what a vault is for, entity by entity: no key yet, a live key, or shredded. A
`VaultSystem` has the methods of the base class; `IsVault` says that they move entities along
these states only, and use the live key. `IsVault.lifeCycle` draws the conclusion for whole
runs, and each of the two vaults is one (`CryptoShredVault.isVault`,
`KmsCryptoShredVault.isVault`).
-/

namespace Unlearning

open PyText

/-- The cipher as documented: what was encrypted is decrypted, and there is a tag of 16
bytes. -/
structure AesGcm.Ideal (aes : AesGcm) : Prop where
  decrypt_encrypt : ∀ key nonce text aad ct, aes.encrypt key nonce text aad = some ct →
    aes.decrypt key nonce ct aad = some text
  length_encrypt : ∀ key nonce text aad ct, aes.encrypt key nonce text aad = some ct →
    ct.length = text.length + 16

namespace CryptoShred

/-- What a call may draw from `secrets.token_bytes`. -/
structure Draw where
  key : List UInt8
  nonce : List UInt8
  /-- the nonce of `wrap_dek` -/
  wrapNonce : List UInt8
  key_length : key.length = 32
  nonce_length : nonce.length = 12
  wrapNonce_length : wrapNonce.length = 12

/-- `ShredReceipt` -/
structure ShredReceipt where
  entityId : String
  shredded : Bool
  timestampUnixNs : ℤ
  message : String
  deriving DecidableEq

/-- The methods of a vault with state `S`. -/
structure VaultSystem (S : Type) where
  provision : Draw → String → S → Except CryptoError (List UInt8) × S
  encrypt : Draw → String → List UInt8 → List UInt8 → S → Except CryptoError (List UInt8) × S
  decrypt : String → List UInt8 → List UInt8 → S → Except CryptoError (List UInt8)
  shred : ℤ → String → S → ShredReceipt × S

section Blobs

variable (aes : AesGcm)

/-- `aad or None` -/
def orNone (aad : List UInt8) : Option (List UInt8) := if aad = [] then none else some aad

/-- `nonce + AESGCM(key).encrypt(nonce, plaintext, aad or None)` -/
def sealBlob (key nonce plaintext aad : List UInt8) : Except CryptoError (List UInt8) :=
  match aes.encrypt key nonce plaintext (orNone aad) with
  | none => .error .notEncrypted
  | some ct => .ok (nonce ++ ct)

/-- What `decrypt` does with a key and a blob. -/
def openBlob (key blob aad : List UInt8) : Except CryptoError (List UInt8) :=
  if blob.length < 13 then .error (.valueError "ciphertext too short")
  else
    match aes.decrypt key (blob.take 12) (blob.drop 12) (orNone aad) with
    | none => .error .invalidTag
    | some plaintext => .ok plaintext

/-- `encrypt`, with what `provision` came to: both vaults seal under the key that it gave. -/
def sealUnder {S : Type} (draw : Draw) (plaintext aad : List UInt8) :
    Except CryptoError (List UInt8) × S → Except CryptoError (List UInt8) × S
  | (.error e, s) => (.error e, s)
  | (.ok key, s) => (sealBlob aes key draw.nonce plaintext aad, s)

variable {aes}

/-- Without a key nothing is sealed, and the state is the one that the key's call left. -/
theorem sealUnder_error {S : Type} {draw : Draw} (plaintext aad : List UInt8)
    {r : Except CryptoError (List UInt8) × S} {e : CryptoError} (h : r.1 = .error e) :
    sealUnder aes draw plaintext aad r = (.error e, r.2) := by
  rcases r with ⟨e' | key, s⟩
  · rw [sealUnder, Except.error.inj h]
  · cases h

/-- With a key the blob is sealed under it, and nothing else changes. -/
theorem sealUnder_ok {S : Type} {draw : Draw} (plaintext aad : List UInt8)
    {r : Except CryptoError (List UInt8) × S} {key : List UInt8} (h : r.1 = .ok key) :
    sealUnder aes draw plaintext aad r = (sealBlob aes key draw.nonce plaintext aad, r.2) := by
  rcases r with ⟨e | key', s⟩
  · cases h
  · rw [sealUnder, Except.ok.inj h]

/-- **Opening a sealed blob.** -/
theorem openBlob_sealBlob (hideal : aes.Ideal) {key nonce plaintext aad blob : List UInt8}
    (hnonce : nonce.length = 12) (h : sealBlob aes key nonce plaintext aad = .ok blob) :
    openBlob aes key blob aad = .ok plaintext := by
  rw [sealBlob] at h
  split at h
  · cases h
  · rename_i ct hct
    obtain rfl := Except.ok.inj h
    have hlength := hideal.length_encrypt _ _ _ _ _ hct
    have hlong : ¬ (nonce ++ ct).length < 13 := by
      rw [List.length_append]
      omega
    have htake : (nonce ++ ct).take 12 = nonce := by
      rw [← hnonce, List.take_left]
    have hdrop : (nonce ++ ct).drop 12 = ct := by
      rw [← hnonce, List.drop_left]
    rw [openBlob, if_neg hlong, htake, hdrop, hideal.decrypt_encrypt _ _ _ _ _ hct]

end Blobs

/-! ## `CryptoShredVault` -/

/-- `CryptoShredVault`: its keys, and the ids that were shredded. -/
structure CryptoShredVault where
  keys : Dict String (List UInt8)
  shredded : List String

namespace CryptoShredVault

/-- `CryptoShredVault()` -/
def new : CryptoShredVault := ⟨∅, []⟩

variable (aes : AesGcm) (printable : Char → Bool)

/-- `provision` -/
def provision (draw : Draw) (entityId : String) (v : CryptoShredVault) :
    Except CryptoError (List UInt8) × CryptoShredVault :=
  let eid := strip entityId
  if eid = "" then (.error (.valueError "entity_id required"), v)
  else if eid ∈ v.shredded then
    (.error (.runtimeError ("entity " ++ repr printable eid ++
      " was crypto-shredded; cannot re-provision without explicit admin recovery policy")), v)
  else
    match v.keys.lookup eid with
    | some key => (.ok key, v)
    | none => (.ok draw.key, { v with keys := v.keys.insert eid draw.key })

/-- `encrypt` -/
def encrypt (draw : Draw) (entityId : String) (plaintext aad : List UInt8)
    (v : CryptoShredVault) : Except CryptoError (List UInt8) × CryptoShredVault :=
  sealUnder aes draw plaintext aad (provision printable draw entityId v)

/-- `decrypt` -/
def decrypt (entityId : String) (blob aad : List UInt8) (v : CryptoShredVault) :
    Except CryptoError (List UInt8) :=
  let eid := strip entityId
  let unknown : Except CryptoError (List UInt8) :=
    .error (.runtimeError ("crypto-shredded or unknown entity " ++ repr printable eid ++
      ": cannot decrypt"))
  if eid ∈ v.shredded then unknown
  else
    match v.keys.lookup eid with
    | none => unknown
    | some key => openBlob aes key blob aad

/-- `shred` at `time_ns()` -/
def shred (now : ℤ) (entityId : String) (v : CryptoShredVault) :
    ShredReceipt × CryptoShredVault :=
  let eid := strip entityId
  (⟨eid, true, now,
      if eid ∈ v.keys then "DEK destroyed"
      else "no DEK present; marked shredded for fail-closed decrypt"⟩,
    ⟨v.keys.erase eid, v.shredded.insert eid⟩)

/-- The four calls of the vault. -/
def system : VaultSystem CryptoShredVault :=
  ⟨provision printable, encrypt aes printable, decrypt aes printable, shred⟩

end CryptoShredVault

/-! ## `KmsCryptoShredVault` -/

/-- `KmsCryptoShredVault` -/
structure KmsCryptoShredVault where
  kms : LocalFileKMS
  /-- the wrapped key of each entity -/
  records : Dict String (List UInt8)
  shredded : List String

namespace KmsCryptoShredVault

/-- `KmsCryptoShredVault(kms)` -/
def new (kms : LocalFileKMS) : KmsCryptoShredVault := ⟨kms, ∅, []⟩

variable (aes : AesGcm) (printable : Char → Bool)

/-- `provision`: the key is wrapped by the KMS, and unwrapped where there is a record. -/
def provision (draw : Draw) (entityId : String) (v : KmsCryptoShredVault) :
    Except CryptoError (List UInt8) × KmsCryptoShredVault :=
  let eid := strip entityId
  if eid = "" then (.error (.valueError "entity_id required"), v)
  else if eid ∈ v.shredded then
    (.error (.runtimeError ("entity " ++ repr printable eid ++
      " was crypto-shredded; cannot re-provision")), v)
  else
    match v.records.lookup eid with
    | some wrapped => (v.kms.unwrapDek aes printable eid wrapped, v)
    | none =>
      match v.kms.wrapDek aes printable draw.wrapNonce eid draw.key with
      | .error e => (.error e, v)
      | .ok (wrapped, kms) =>
        (.ok draw.key, { v with kms := kms, records := v.records.insert eid wrapped })

/-- `encrypt` -/
def encrypt (draw : Draw) (entityId : String) (plaintext aad : List UInt8)
    (v : KmsCryptoShredVault) : Except CryptoError (List UInt8) × KmsCryptoShredVault :=
  sealUnder aes draw plaintext aad (provision aes printable draw entityId v)

/-- `decrypt` -/
def decrypt (entityId : String) (blob aad : List UInt8) (v : KmsCryptoShredVault) :
    Except CryptoError (List UInt8) :=
  let eid := strip entityId
  let unknown : Except CryptoError (List UInt8) :=
    .error (.runtimeError ("crypto-shredded or unknown entity " ++ repr printable eid ++
      ": cannot decrypt"))
  if eid ∈ v.shredded then unknown
  else
    match v.records.lookup eid with
    | none => unknown
    | some wrapped =>
      match v.kms.unwrapDek aes printable eid wrapped with
      | .error e => .error e
      | .ok dek => openBlob aes dek blob aad

/-- `shred` at `time_ns()`; a `LocalFileKMS` does not raise in `destroy_entity_key`. -/
def shred (now : ℤ) (entityId : String) (v : KmsCryptoShredVault) :
    ShredReceipt × KmsCryptoShredVault :=
  let eid := strip entityId
  (⟨eid, true, now, "KMS entity key destroyed; local DEK record dropped"⟩,
    ⟨v.kms.destroyEntityKey eid, v.records.erase eid, v.shredded.insert eid⟩)

/-- The four calls of the vault. -/
def system : VaultSystem KmsCryptoShredVault :=
  ⟨provision aes printable, encrypt aes printable, decrypt aes printable, shred⟩

end KmsCryptoShredVault

/-! ## What a vault is for -/

/-- The life of an entity's key. -/
inductive KeyState : Type where
  | absent
  | live (key : List UInt8)
  | shredded
  deriving DecidableEq

/-- A call of a vault, with what it draws or the time it reads. -/
inductive VaultCall : Type where
  | provision (draw : Draw) (entityId : String)
  | encrypt (draw : Draw) (entityId : String) (plaintext aad : List UInt8)
  | decrypt (entityId : String) (blob aad : List UInt8)
  | shred (now : ℤ) (entityId : String)

/-- The call shreds the entity. -/
def VaultCall.Shreds (eid : String) : VaultCall → Prop
  | .shred _ entityId => strip entityId = eid
  | _ => False

namespace VaultSystem

variable {S : Type} (sys : VaultSystem S)

/-- What a call leaves. -/
def apply (s : S) : VaultCall → S
  | .provision draw entityId => (sys.provision draw entityId s).2
  | .encrypt draw entityId plaintext aad => (sys.encrypt draw entityId plaintext aad s).2
  | .decrypt _ _ _ => s
  | .shred now entityId => (sys.shred now entityId s).2

/-- What a list of calls leaves. -/
def run (s : S) (calls : List VaultCall) : S := calls.foldl sys.apply s

/-- A run is cut at any one of its calls. -/
theorem run_append_cons (s : S) (before : List VaultCall) (call : VaultCall)
    (later : List VaultCall) :
    sys.run s (before ++ call :: later) = sys.run (sys.apply (sys.run s before) call) later := by
  rw [run, List.foldl_append, List.foldl_cons]
  rfl

/-- The entity is refused. -/
def Refuses (entityId : String) (s : S) : Prop :=
  (∀ draw, ∃ e, (sys.provision draw entityId s).1 = .error e) ∧
    (∀ draw plaintext aad, ∃ e, (sys.encrypt draw entityId plaintext aad s).1 = .error e) ∧
    ∀ blob aad, ∃ e, sys.decrypt entityId blob aad s = .error e

/-- **The life cycle**, from a new vault `s`: what was encrypted for an entity is decrypted
until the entity is shredded, and from then on the entity is refused. -/
def LifeCycle (s : S) : Prop :=
  (∀ before draw entityId plaintext aad blob later entityId',
    strip entityId' = strip entityId →
    (sys.encrypt draw entityId plaintext aad (sys.run s before)).1 = .ok blob →
    (∀ call ∈ later, ¬ call.Shreds (strip entityId)) →
    sys.decrypt entityId' blob aad
      (sys.run s (before ++ .encrypt draw entityId plaintext aad :: later)) = .ok plaintext) ∧
  ∀ before now entityId later entityId', strip entityId' = strip entityId →
    sys.Refuses entityId' (sys.run s (before ++ .shred now entityId :: later))

end VaultSystem

/-- **A vault**: by an invariant, each entity has a state, and the methods act on it. -/
structure IsVault {S : Type} (aes : AesGcm) (sys : VaultSystem S) (inv : S → Prop)
    (state : S → String → KeyState) : Prop where
  /-- a `provision` that raises changes nothing -/
  provision_error : ∀ draw entityId s e, inv s →
    (sys.provision draw entityId s).1 = .error e → (sys.provision draw entityId s).2 = s
  /-- a `provision` that returns has the live key, which may be new -/
  provision_ok : ∀ draw entityId s key, inv s → (sys.provision draw entityId s).1 = .ok key →
    inv (sys.provision draw entityId s).2 ∧
      state (sys.provision draw entityId s).2 =
        Function.update (state s) (strip entityId) (.live key) ∧
      (state s (strip entityId) = .absent ∨ state s (strip entityId) = .live key)
  encrypt_eq : ∀ draw entityId plaintext aad s, sys.encrypt draw entityId plaintext aad s =
    sealUnder aes draw plaintext aad (sys.provision draw entityId s)
  decrypt_live : ∀ entityId blob aad s key, inv s → state s (strip entityId) = .live key →
    sys.decrypt entityId blob aad s = openBlob aes key blob aad
  decrypt_shredded : ∀ entityId blob aad s, state s (strip entityId) = .shredded →
    ∃ e, sys.decrypt entityId blob aad s = .error e
  shred_inv : ∀ now entityId s, inv s → inv (sys.shred now entityId s).2
  shred_state : ∀ now entityId s, inv s → state (sys.shred now entityId s).2 =
    Function.update (state s) (strip entityId) .shredded

namespace IsVault

variable {S : Type} {aes : AesGcm} {sys : VaultSystem S} {inv : S → Prop}
  {state : S → String → KeyState} (h : IsVault aes sys inv state)

include h

/-- What `encrypt` leaves is what `provision` leaves. -/
theorem encrypt_state (draw : Draw) (entityId : String) (plaintext aad : List UInt8) (s : S) :
    (sys.encrypt draw entityId plaintext aad s).2 = (sys.provision draw entityId s).2 := by
  rw [h.encrypt_eq]
  rcases hresult : (sys.provision draw entityId s).1 with e | key
  · rw [sealUnder_error plaintext aad hresult]
  · rw [sealUnder_ok plaintext aad hresult]

/-- What `provision` does to the states of all entities. -/
theorem provision_cases (draw : Draw) (entityId : String) {s : S} (hs : inv s) :
    (sys.provision draw entityId s).2 = s ∨
      ∃ key, inv (sys.provision draw entityId s).2 ∧
        state (sys.provision draw entityId s).2 =
          Function.update (state s) (strip entityId) (.live key) ∧
        (state s (strip entityId) = .absent ∨ state s (strip entityId) = .live key) := by
  rcases hresult : (sys.provision draw entityId s).1 with e | key
  · exact .inl (h.provision_error draw entityId s e hs hresult)
  · exact .inr ⟨key, h.provision_ok draw entityId s key hs hresult⟩

/-- The step of the invariant of a vault. -/
theorem inv_apply {s : S} (hs : inv s) (call : VaultCall) : inv (sys.apply s call) := by
  rcases call with ⟨draw, entityId⟩ | ⟨draw, entityId, plaintext, aad⟩ | ⟨entityId, blob, aad⟩ |
    ⟨now, entityId⟩
  · rcases h.provision_cases draw entityId hs with heq | ⟨key, hinv, -⟩
    · rw [VaultSystem.apply, heq]
      exact hs
    · exact hinv
  · rw [VaultSystem.apply, h.encrypt_state]
    rcases h.provision_cases draw entityId hs with heq | ⟨key, hinv, -⟩
    · rw [heq]
      exact hs
    · exact hinv
  · exact hs
  · exact h.shred_inv now entityId s hs

/-- `provision` keeps live keys and shredded entities. -/
theorem state_provision {s : S} (hs : inv s) (draw : Draw) (entityId eid : String)
    (hpresent : state s eid ≠ .absent) :
    state (sys.provision draw entityId s).2 eid = state s eid := by
  rcases h.provision_cases draw entityId hs with heq | ⟨key, -, hstate, hbefore⟩
  · rw [heq]
  · rw [hstate]
    by_cases heid : eid = strip entityId
    · -- a key that is there is returned, not replaced
      subst heid
      rw [Function.update_self]
      rcases hbefore with habsent | hlive
      · exact absurd habsent hpresent
      · exact hlive.symm
    · rw [Function.update_of_ne heid]

/-- **One call**: an entity with a key, or shredded, stays so unless the call shreds it. -/
theorem state_apply {s : S} (hs : inv s) {call : VaultCall} {eid : String}
    (hpresent : state s eid ≠ .absent) (hcall : ¬ call.Shreds eid) :
    state (sys.apply s call) eid = state s eid := by
  rcases call with ⟨draw, entityId⟩ | ⟨draw, entityId, plaintext, aad⟩ | ⟨entityId, blob, aad⟩ |
    ⟨now, entityId⟩
  · exact h.state_provision hs draw entityId eid hpresent
  · rw [VaultSystem.apply, h.encrypt_state]
    exact h.state_provision hs draw entityId eid hpresent
  · rfl
  · have hne : eid ≠ strip entityId := fun heq => hcall heq.symm
    rw [VaultSystem.apply, h.shred_state now entityId s hs, Function.update_of_ne hne]

/-- No call brings a shredded entity back. -/
theorem shredded_apply {s : S} (hs : inv s) (call : VaultCall) {eid : String}
    (hshredded : state s eid = .shredded) : state (sys.apply s call) eid = .shredded := by
  by_cases hcall : call.Shreds eid
  · rcases call with _ | _ | _ | ⟨now, entityId⟩
    · cases hcall
    · cases hcall
    · cases hcall
    · have heq : strip entityId = eid := hcall
      rw [VaultSystem.apply, h.shred_state now entityId s hs, heq, Function.update_self]
  · rw [h.state_apply hs (by rw [hshredded]; simp) hcall, hshredded]

/-! ### Runs -/

/-- The invariant holds after every list of calls. -/
theorem inv_run {s : S} (hs : inv s) (calls : List VaultCall) : inv (sys.run s calls) := by
  induction calls generalizing s with
  | nil => exact hs
  | cons call calls ih => exact ih (h.inv_apply hs call)

/-- A live key stays the same until its entity is shredded. -/
theorem live_run {s : S} (hs : inv s) {calls : List VaultCall} {eid : String}
    {key : List UInt8} (hlive : state s eid = .live key)
    (hcalls : ∀ call ∈ calls, ¬ call.Shreds eid) :
    state (sys.run s calls) eid = .live key := by
  induction calls generalizing s with
  | nil => exact hlive
  | cons call calls ih =>
    have hcall : ¬ call.Shreds eid := hcalls call List.mem_cons_self
    apply ih (h.inv_apply hs call)
    · rw [h.state_apply hs (by rw [hlive]; simp) hcall, hlive]
    · exact fun call' hcall' => hcalls call' (List.mem_cons_of_mem call hcall')

/-- Shredded is for ever: after any further calls the entity is shredded still. -/
theorem shredded_run {s : S} (hs : inv s) (calls : List VaultCall) {eid : String}
    (hshredded : state s eid = .shredded) : state (sys.run s calls) eid = .shredded := by
  induction calls generalizing s with
  | nil => exact hshredded
  | cons call calls ih => exact ih (h.inv_apply hs call) (h.shredded_apply hs call hshredded)

/-- A shredded entity is refused. -/
theorem refuses {s : S} (hs : inv s) {entityId : String}
    (hshredded : state s (strip entityId) = .shredded) : sys.Refuses entityId s := by
  have hprovision : ∀ draw, ∃ e, (sys.provision draw entityId s).1 = .error e := by
    intro draw
    rcases hresult : (sys.provision draw entityId s).1 with e | key
    · exact ⟨e, rfl⟩
    · -- a key is given to absent and live entities only
      obtain ⟨-, -, hbefore⟩ := h.provision_ok draw entityId s key hs hresult
      rw [hshredded] at hbefore
      rcases hbefore with hbefore | hbefore
      · cases hbefore
      · cases hbefore
  refine ⟨hprovision, ?_, fun blob aad => h.decrypt_shredded entityId blob aad s hshredded⟩
  intro draw plaintext aad
  obtain ⟨e, he⟩ := hprovision draw
  rw [h.encrypt_eq, sealUnder_error plaintext aad he]
  exact ⟨e, rfl⟩

/-- What an `encrypt` that returns has done. -/
theorem sealed {s : S} (hs : inv s) {draw : Draw} {entityId : String}
    {plaintext aad blob : List UInt8}
    (hblob : (sys.encrypt draw entityId plaintext aad s).1 = .ok blob) :
    ∃ key, sealBlob aes key draw.nonce plaintext aad = .ok blob ∧
      state (sys.encrypt draw entityId plaintext aad s).2 (strip entityId) = .live key := by
  rcases hresult : (sys.provision draw entityId s).1 with e | key
  · rw [h.encrypt_eq, sealUnder_error plaintext aad hresult] at hblob
    cases hblob
  · obtain ⟨-, hstate, -⟩ := h.provision_ok draw entityId s key hs hresult
    rw [h.encrypt_state, hstate, Function.update_self]
    rw [h.encrypt_eq, sealUnder_ok plaintext aad hresult] at hblob
    exact ⟨key, hblob, rfl⟩

/-- **Every vault has the life cycle.** -/
theorem lifeCycle (hideal : aes.Ideal) {s : S} (hs : inv s) : sys.LifeCycle s := by
  constructor
  · intro before draw entityId plaintext aad blob later entityId' hid hresult hlater
    have hbefore := h.inv_run hs before
    obtain ⟨key, hseal, hlive⟩ := h.sealed hbefore hresult
    have hinv := h.inv_apply hbefore (.encrypt draw entityId plaintext aad)
    -- the key of the encryption outlives the later calls, none of which shreds
    have hstill := h.live_run hinv hlive hlater
    rw [VaultSystem.run_append_cons]
    rw [h.decrypt_live entityId' blob aad _ key (h.inv_run hinv later) (by rw [hid]; exact hstill)]
    exact openBlob_sealBlob hideal draw.nonce_length hseal
  · intro before now entityId later entityId' hid
    have hbefore := h.inv_run hs before
    have hinv := h.inv_apply hbefore (.shred now entityId)
    have hshredded : state (sys.apply (sys.run s before) (.shred now entityId))
        (strip entityId) = .shredded := by
      rw [VaultSystem.apply, h.shred_state now entityId _ hbefore, Function.update_self]
    have hstill := h.shredded_run hinv later hshredded
    rw [VaultSystem.run_append_cons]
    apply h.refuses (h.inv_run hinv later)
    rw [hid]
    exact hstill

end IsVault

/-! ## What a KMS unwraps -/

section Unwrap

variable {aes : AesGcm} {printable : Char → Bool} {kms kms' : LocalFileKMS}

/-- A wrap is unwrapped. -/
theorem unwrapDek_wrapDek (hideal : aes.Ideal) {nonce dek wrapped : List UInt8} {eid : String}
    (hnonce : nonce.length = 12)
    (h : kms.wrapDek aes printable nonce eid dek = .ok (wrapped, kms')) (blob : List UInt8) :
    kms'.unwrapDek aes printable eid blob = .ok dek := by
  obtain ⟨hmem, ct, hct, rfl, rfl⟩ := LocalFileKMS.wrapDek_ok h
  have hlength := hideal.length_encrypt _ _ _ _ _ hct
  have hlong : ¬ (nonce ++ ct).length < 13 := by
    rw [List.length_append]
    omega
  have htake : (nonce ++ ct).take 12 = nonce := by rw [← hnonce, List.take_left]
  have hdrop : (nonce ++ ct).drop 12 = ct := by rw [← hnonce, List.drop_left]
  have hstored : ((kms.wrapped.insert eid (nonce ++ ct)).lookup eid).getD blob = nonce ++ ct := by
    rw [AList.lookup_insert, Option.getD_some]
  rw [LocalFileKMS.unwrapDek, if_neg hmem]
  dsimp only
  rw [hstored, if_neg hlong, htake, hdrop, hideal.decrypt_encrypt _ _ _ _ _ hct]

/-- A wrap for one entity is no matter for another. -/
theorem unwrapDek_wrapDek_ne {nonce dek wrapped : List UInt8} {eid other : String}
    (hne : other ≠ eid)
    (h : kms.wrapDek aes printable nonce eid dek = .ok (wrapped, kms')) (blob : List UInt8) :
    kms'.unwrapDek aes printable other blob = kms.unwrapDek aes printable other blob := by
  obtain ⟨-, ct, -, rfl, rfl⟩ := LocalFileKMS.wrapDek_ok h
  have hwrapped : (kms.wrapped.insert eid (nonce ++ ct)).lookup other =
      kms.wrapped.lookup other := AList.lookup_insert_ne hne
  simp only [LocalFileKMS.unwrapDek, hwrapped]

/-- Destroying the key of one entity leaves the unwraps of every other. -/
theorem unwrapDek_destroy_ne {eid other : String} (hne : other ≠ eid) (blob : List UInt8) :
    (kms.destroyEntityKey eid).unwrapDek aes printable other blob =
      kms.unwrapDek aes printable other blob := by
  have hdestroyed : other ∈ (kms.destroyEntityKey eid).destroyed ↔ other ∈ kms.destroyed := by
    rw [LocalFileKMS.mem_destroyEntityKey, or_iff_right hne]
  have hwrapped : (kms.destroyEntityKey eid).wrapped.lookup other = kms.wrapped.lookup other :=
    AList.lookup_erase_ne hne
  have hmaster : (kms.destroyEntityKey eid).master = kms.master := rfl
  simp only [LocalFileKMS.unwrapDek, hdestroyed, hwrapped, hmaster]

end Unwrap

/-! ## The two vaults -/

section Instances

variable {aes : AesGcm} {printable : Char → Bool}

namespace CryptoShredVault

/-- The state of an entity in the vault that keeps the keys. -/
def state (v : CryptoShredVault) (eid : String) : KeyState :=
  if eid ∈ v.shredded then .shredded
  else
    match v.keys.lookup eid with
    | none => .absent
    | some key => .live key

/-- A new key is the live key of its entity, and nobody else's. -/
theorem state_insert {v : CryptoShredVault} {eid : String} (key : List UInt8)
    (hshredded : eid ∉ v.shredded) :
    state { v with keys := v.keys.insert eid key } = Function.update v.state eid (.live key) := by
  funext other
  by_cases heq : other = eid
  · subst heq
    rw [state, if_neg hshredded, AList.lookup_insert, Function.update_self]
  · rw [Function.update_of_ne heq, state, state, AList.lookup_insert_ne heq]

/-- An entity with a key, not shredded, is live under that key. -/
theorem state_of_key {v : CryptoShredVault} {eid : String} {key : List UInt8}
    (hshredded : eid ∉ v.shredded) (hkey : v.keys.lookup eid = some key) :
    v.state eid = .live key := by
  rw [state, if_neg hshredded, hkey]

/-- Live, in the tables of the vault. -/
theorem live_iff {v : CryptoShredVault} {eid : String} {key : List UInt8} :
    v.state eid = .live key ↔ eid ∉ v.shredded ∧ v.keys.lookup eid = some key := by
  constructor
  · intro h
    rw [state] at h
    split at h
    · cases h
    · rename_i hshredded
      refine ⟨hshredded, ?_⟩
      revert h
      rcases v.keys.lookup eid with _ | key'
      · intro h
        cases h
      · intro h
        rw [KeyState.live.inj h]
  · rintro ⟨hshredded, hkey⟩
    exact state_of_key hshredded hkey

/-- Shredded, in the tables of the vault. -/
theorem shredded_iff {v : CryptoShredVault} {eid : String} :
    v.state eid = .shredded ↔ eid ∈ v.shredded := by
  constructor
  · intro h
    by_contra hshredded
    rw [state, if_neg hshredded] at h
    split at h <;> cases h
  · intro h
    rw [state, if_pos h]

/-- What `provision` does: it raises, or it has a key, or it makes one. -/
theorem provision_cases (draw : Draw) (entityId : String) (v : CryptoShredVault) :
    (∃ e, provision printable draw entityId v = (.error e, v)) ∨
    (∃ key, provision printable draw entityId v = (.ok key, v) ∧
      v.state (strip entityId) = .live key) ∨
    (provision printable draw entityId v =
        (.ok draw.key, { v with keys := v.keys.insert (strip entityId) draw.key }) ∧
      strip entityId ∉ v.shredded ∧ v.state (strip entityId) = .absent) := by
  rw [provision]
  split
  · exact .inl ⟨_, rfl⟩
  · split
    · exact .inl ⟨_, rfl⟩
    · rename_i hshredded
      rcases hlookup : v.keys.lookup (strip entityId) with _ | key
      · refine .inr (.inr ⟨rfl, hshredded, ?_⟩)
        rw [state, if_neg hshredded, hlookup]
      · exact .inr (.inl ⟨key, rfl, state_of_key hshredded hlookup⟩)

/-- A shred sets the state of one entity. -/
theorem state_shred (now : ℤ) (entityId : String) (v : CryptoShredVault) :
    (shred now entityId v).2.state = Function.update v.state (strip entityId) .shredded := by
  funext other
  by_cases heq : other = strip entityId
  · subst heq
    rw [Function.update_self, shredded_iff]
    exact List.mem_insert_self
  · have hmem : other ∈ v.shredded.insert (strip entityId) ↔ other ∈ v.shredded := by
      rw [List.mem_insert_iff, or_iff_right heq]
    rw [Function.update_of_ne heq, state, state, shred, AList.lookup_erase_ne heq]
    simp only [hmem]

/-- `CryptoShredVault` is a vault, with nothing asked of its tables. -/
theorem isVault : IsVault aes (system aes printable) (fun _ => True) state where
  provision_error draw entityId v e _ h := by
    simp only [system] at h ⊢
    rcases provision_cases draw entityId v with ⟨e', heq⟩ | ⟨key, heq, -⟩ | ⟨heq, -⟩
    · rw [heq]
    · rw [heq]
    · rw [heq] at h
      cases h
  provision_ok draw entityId v key _ h := by
    simp only [system] at h ⊢
    rcases provision_cases draw entityId v with
      ⟨e', heq⟩ | ⟨key', heq, hlive⟩ | ⟨heq, hshredded, habsent⟩
    · rw [heq] at h
      cases h
    · rw [heq] at h ⊢
      obtain rfl := Except.ok.inj h
      refine ⟨trivial, ?_, .inr hlive⟩
      rw [← hlive, Function.update_eq_self]
    · rw [heq] at h ⊢
      obtain rfl := Except.ok.inj h
      exact ⟨trivial, state_insert draw.key hshredded, .inl habsent⟩
  encrypt_eq draw entityId plaintext aad v := by
    simp only [system, encrypt]
  decrypt_live entityId blob aad v key _ h := by
    obtain ⟨hshredded, hkey⟩ := live_iff.mp h
    simp only [system]
    rw [decrypt, if_neg hshredded, hkey]
  decrypt_shredded entityId blob aad v h := by
    simp only [system]
    rw [decrypt, if_pos (shredded_iff.mp h)]
    exact ⟨_, rfl⟩
  shred_inv now entityId v _ := trivial
  shred_state now entityId v _ := state_shred now entityId v

end CryptoShredVault

namespace KmsCryptoShredVault

/-- The state of an entity in the vault that unwraps. -/
def state (aes : AesGcm) (printable : Char → Bool) (v : KmsCryptoShredVault) (eid : String) :
    KeyState :=
  if eid ∈ v.shredded then .shredded
  else
    match v.records.lookup eid with
    | none => .absent
    | some wrapped =>
      match v.kms.unwrapDek aes printable eid wrapped with
      | .error _ => .absent
      | .ok dek => .live dek

/-- What is on record is unwrapped, until it is shredded. -/
def Unwraps (aes : AesGcm) (printable : Char → Bool) (v : KmsCryptoShredVault) : Prop :=
  ∀ eid wrapped, eid ∉ v.shredded → v.records.lookup eid = some wrapped →
    ∃ dek, v.kms.unwrapDek aes printable eid wrapped = .ok dek

/-- An entity whose record unwraps, not shredded, is live under the key that comes out. -/
theorem state_of_record {v : KmsCryptoShredVault} {eid : String} {wrapped dek : List UInt8}
    (hshredded : eid ∉ v.shredded) (hrecord : v.records.lookup eid = some wrapped)
    (hdek : v.kms.unwrapDek aes printable eid wrapped = .ok dek) :
    v.state aes printable eid = .live dek := by
  rw [state, if_neg hshredded, hrecord]
  dsimp only
  rw [hdek]

/-- Live, in the tables of the vault and its KMS. -/
theorem live_iff {v : KmsCryptoShredVault} {eid : String} {dek : List UInt8} :
    v.state aes printable eid = .live dek ↔ eid ∉ v.shredded ∧
      ∃ wrapped, v.records.lookup eid = some wrapped ∧
        v.kms.unwrapDek aes printable eid wrapped = .ok dek := by
  constructor
  · intro h
    rw [state] at h
    split at h
    · cases h
    · rename_i hshredded
      refine ⟨hshredded, ?_⟩
      revert h
      rcases v.records.lookup eid with _ | wrapped
      · intro h
        cases h
      · dsimp only
        rcases hdek : v.kms.unwrapDek aes printable eid wrapped with e | dek'
        · intro h
          cases h
        · intro h
          rw [KeyState.live.inj h] at hdek
          exact ⟨wrapped, rfl, hdek⟩
  · rintro ⟨hshredded, wrapped, hrecord, hdek⟩
    exact state_of_record hshredded hrecord hdek

/-- Shredded, in the tables of the vault. -/
theorem shredded_iff {v : KmsCryptoShredVault} {eid : String} :
    v.state aes printable eid = .shredded ↔ eid ∈ v.shredded := by
  constructor
  · intro h
    by_contra hshredded
    rw [state, if_neg hshredded] at h
    split at h
    · cases h
    · split at h <;> cases h
  · intro h
    rw [state, if_pos h]

/-- What `provision` does: it raises, or it unwraps a key, or it wraps a new one. -/
theorem provision_cases (draw : Draw) (entityId : String) {v : KmsCryptoShredVault}
    (hunwraps : v.Unwraps aes printable) :
    (∃ e, provision aes printable draw entityId v = (.error e, v)) ∨
    (∃ dek, provision aes printable draw entityId v = (.ok dek, v) ∧
      v.state aes printable (strip entityId) = .live dek) ∨
    (∃ wrapped kms, provision aes printable draw entityId v =
        (.ok draw.key,
          { v with kms := kms, records := v.records.insert (strip entityId) wrapped }) ∧
      v.kms.wrapDek aes printable draw.wrapNonce (strip entityId) draw.key = .ok (wrapped, kms) ∧
      strip entityId ∉ v.shredded ∧ v.state aes printable (strip entityId) = .absent) := by
  rw [provision]
  split
  · exact .inl ⟨_, rfl⟩
  · split
    · exact .inl ⟨_, rfl⟩
    · rename_i hshredded
      rcases hrecord : v.records.lookup (strip entityId) with _ | wrapped
      · dsimp only
        rcases hwrap : v.kms.wrapDek aes printable draw.wrapNonce (strip entityId) draw.key with
          e | ⟨wrapped, kms⟩
        · exact .inl ⟨e, rfl⟩
        · refine .inr (.inr ⟨wrapped, kms, rfl, rfl, hshredded, ?_⟩)
          rw [state, if_neg hshredded, hrecord]
      · -- by the invariant the record is unwrapped: no error here
        obtain ⟨dek, hdek⟩ := hunwraps _ wrapped hshredded hrecord
        refine .inr (.inl ⟨dek, ?_, state_of_record hshredded hrecord hdek⟩)
        dsimp only
        rw [hdek]

/-- A key that was just wrapped. -/
theorem wrapped_new (hideal : aes.Ideal) {draw : Draw} {eid : String} {v : KmsCryptoShredVault}
    {wrapped : List UInt8} {kms : LocalFileKMS}
    (hwrap : v.kms.wrapDek aes printable draw.wrapNonce eid draw.key = .ok (wrapped, kms))
    (hshredded : eid ∉ v.shredded) (hunwraps : v.Unwraps aes printable) :
    Unwraps aes printable
        { v with kms := kms, records := v.records.insert eid wrapped } ∧
      state aes printable { v with kms := kms, records := v.records.insert eid wrapped } =
        Function.update (v.state aes printable) eid (.live draw.key) := by
  constructor
  · intro other blob hother hrecord
    by_cases heq : other = eid
    · subst heq
      exact ⟨draw.key, unwrapDek_wrapDek hideal draw.wrapNonce_length hwrap blob⟩
    · rw [AList.lookup_insert_ne heq] at hrecord
      obtain ⟨dek, hdek⟩ := hunwraps other blob hother hrecord
      exact ⟨dek, (unwrapDek_wrapDek_ne heq hwrap blob).trans hdek⟩
  · funext other
    by_cases heq : other = eid
    · subst heq
      rw [Function.update_self]
      exact state_of_record hshredded (AList.lookup_insert _)
        (unwrapDek_wrapDek hideal draw.wrapNonce_length hwrap wrapped)
    · -- the KMS has changed too, but not in what it unwraps for others
      rw [Function.update_of_ne heq, state, state, AList.lookup_insert_ne heq]
      simp only [unwrapDek_wrapDek_ne heq hwrap]

/-- A shred adds one entity to the set. -/
theorem shred_shredded (now : ℤ) (entityId other : String) (v : KmsCryptoShredVault) :
    other ∈ (shred now entityId v).2.shredded ↔ other = strip entityId ∨ other ∈ v.shredded :=
  List.mem_insert_iff

/-- After a shred the other records still unwrap. -/
theorem unwraps_shred (now : ℤ) (entityId : String) {v : KmsCryptoShredVault}
    (hunwraps : v.Unwraps aes printable) :
    (shred now entityId v).2.Unwraps aes printable := by
  intro other blob hother hrecord
  rw [shred_shredded, not_or] at hother
  have hlookup : (shred now entityId v).2.records.lookup other = v.records.lookup other :=
    AList.lookup_erase_ne hother.1
  rw [hlookup] at hrecord
  obtain ⟨dek, hdek⟩ := hunwraps other blob hother.2 hrecord
  exact ⟨dek, (unwrapDek_destroy_ne hother.1 blob).trans hdek⟩

/-- A shred sets the state of one entity. -/
theorem state_shred (now : ℤ) (entityId : String) (v : KmsCryptoShredVault) :
    (shred now entityId v).2.state aes printable =
      Function.update (v.state aes printable) (strip entityId) .shredded := by
  funext other
  by_cases heq : other = strip entityId
  · subst heq
    rw [Function.update_self, shredded_iff, shred_shredded]
    exact .inl rfl
  · have hmem : other ∈ (shred now entityId v).2.shredded ↔ other ∈ v.shredded := by
      rw [shred_shredded, or_iff_right heq]
    have hlookup : (shred now entityId v).2.records.lookup other = v.records.lookup other :=
      AList.lookup_erase_ne heq
    have hunwrap : ∀ blob, (shred now entityId v).2.kms.unwrapDek aes printable other blob =
        v.kms.unwrapDek aes printable other blob := unwrapDek_destroy_ne heq
    rw [Function.update_of_ne heq, state, state]
    simp only [hmem, hlookup, hunwrap]

/-- `KmsCryptoShredVault` is a vault as long as its records unwrap. -/
theorem isVault (hideal : aes.Ideal) :
    IsVault aes (system aes printable) (Unwraps aes printable) (state aes printable) where
  provision_error draw entityId v e hunwraps h := by
    simp only [system] at h ⊢
    rcases provision_cases draw entityId hunwraps with
      ⟨e', heq⟩ | ⟨dek, heq, -⟩ | ⟨wrapped, kms, heq, -⟩
    · rw [heq]
    · rw [heq]
    · rw [heq] at h
      cases h
  provision_ok draw entityId v key hunwraps h := by
    simp only [system] at h ⊢
    rcases provision_cases draw entityId hunwraps with
      ⟨e', heq⟩ | ⟨dek, heq, hlive⟩ | ⟨wrapped, kms, heq, hwrap, hshredded, habsent⟩
    · rw [heq] at h
      cases h
    · rw [heq] at h ⊢
      obtain rfl := Except.ok.inj h
      refine ⟨hunwraps, ?_, .inr hlive⟩
      rw [← hlive, Function.update_eq_self]
    · rw [heq] at h ⊢
      obtain rfl := Except.ok.inj h
      obtain ⟨hinv, hstate⟩ := wrapped_new hideal hwrap hshredded hunwraps
      exact ⟨hinv, hstate, .inl habsent⟩
  encrypt_eq draw entityId plaintext aad v := by
    simp only [system, encrypt]
  decrypt_live entityId blob aad v key _ h := by
    obtain ⟨hshredded, wrapped, hrecord, hdek⟩ := live_iff.mp h
    simp only [system]
    rw [decrypt, if_neg hshredded, hrecord]
    dsimp only
    rw [hdek]
  decrypt_shredded entityId blob aad v h := by
    simp only [system]
    rw [decrypt, if_pos (shredded_iff.mp h)]
    exact ⟨_, rfl⟩
  shred_inv now entityId v hunwraps := unwraps_shred now entityId hunwraps
  shred_state now entityId v _ := state_shred now entityId v

end KmsCryptoShredVault

/-- **The life cycle of both vaults**, with any key management that was there before. -/
theorem vaults_lifeCycle (hideal : aes.Ideal) (printable : Char → Bool) (kms : LocalFileKMS) :
    (CryptoShredVault.system aes printable).LifeCycle CryptoShredVault.new ∧
      (KmsCryptoShredVault.system aes printable).LifeCycle (KmsCryptoShredVault.new kms) := by
  constructor
  · exact CryptoShredVault.isVault.lifeCycle hideal trivial
  · apply (KmsCryptoShredVault.isVault hideal).lifeCycle hideal
    intro eid wrapped _ hrecord
    cases hrecord

/-- The stand-in cipher gives back what it was given. -/
theorem standIn_ideal : KmsPath.standIn.Ideal where
  decrypt_encrypt key nonce text aad ct h := by
    obtain rfl := Option.some.inj h
    simp [KmsPath.standIn]
  length_encrypt key nonce text aad ct h := by
    obtain rfl := Option.some.inj h
    simp

theorem vaults_lifeCycle_standIn :
    (CryptoShredVault.system KmsPath.standIn fun _ => true).LifeCycle CryptoShredVault.new ∧
      (KmsCryptoShredVault.system KmsPath.standIn fun _ => true).LifeCycle
        (KmsCryptoShredVault.new ⟨KmsPath.someKey, ∅, ["old"]⟩) :=
  vaults_lifeCycle standIn_ideal (fun _ => true) ⟨KmsPath.someKey, ∅, ["old"]⟩

end Instances

end CryptoShred

end Unlearning
