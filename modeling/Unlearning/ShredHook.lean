import Unlearning.CryptoShred

/-!
# The crypto-shred hook (`integrations/hooks.py`, `make_crypto_shred_hook`)

The hook calls `vault.shred` for every id and raises if one of them was not shredded. A
`KmsCryptoShredVault` shreds by `destroy_entity_key` of its KMS; when that raises, the receipt
says so in its message and is a receipt of a shredded entity all the same.

* `hook_returns`: over such a vault the hook returns, whatever the KMS raises;
* `fails_closed_iff`: so it returns with all keys destroyed exactly if the KMS never raises.
-/

namespace Unlearning

open PyText CryptoShred

namespace ShredHook

/-! ## The hook -/

/-- What `vault.shred` returns: an object with `shredded`, and perhaps with a `message`, or
anything else, by its truth value. -/
inductive Answer : Type where
  | receipt (shredded : Bool) (message : Option String)
  | other (truth : Bool)

/-- An element of `results`. -/
inductive Entry : Type where
  | receipt (entityId : String) (shredded : Bool) (message : String)
  | other (entityId : String) (shredded : Bool)
  | raised (entityId : String) (error : String)
  deriving DecidableEq

namespace Entry

/-- `r.get("shredded")` -/
def shredded : Entry → Bool
  | receipt _ shredded _ => shredded
  | other _ shredded => shredded
  | raised _ _ => false

/-- `str(b)` -/
def pyBool (b : Bool) : String := if b then "True" else "False"

/-- The dictionary in an f-string. -/
def repr (printable : Char → Bool) : Entry → String
  | receipt entityId shredded message =>
    "\x7b'entity_id': " ++ PyText.repr printable entityId ++ ", 'shredded': " ++
      pyBool shredded ++ ", 'message': " ++ PyText.repr printable message ++ "\x7d"
  | other entityId shredded =>
    "\x7b'entity_id': " ++ PyText.repr printable entityId ++ ", 'shredded': " ++
      pyBool shredded ++ "\x7d"
  | raised entityId error =>
    "\x7b'entity_id': " ++ PyText.repr printable entityId ++ ", 'shredded': False, 'error': " ++
      PyText.repr printable error ++ "\x7d"

end Entry

section Hook

variable {S : Type} (printable : Char → Bool)
  (shred : Option (String → S → Except String Answer × S))

/-- One round of the loop; `shred` is `none` where the vault has no such method, and an
exception is its text. -/
def callShred (eid : String) (s : S) : Entry × S :=
  match shred with
  | none => (.raised eid "vault has no shred()", s)
  | some shred =>
    match shred eid s with
    | (.ok (.receipt shredded message), s) => (.receipt eid shredded (message.getD "ok"), s)
    | (.ok (.other truth), s) => (.other eid truth, s)
    | (.error text, s) => (.raised eid text, s)

/-- The loop of the hook over the ids, each with its entry. -/
def shredLoop : List String → S → List Entry × S
  | [], s => ([], s)
  | eid :: ids, s =>
    let (entry, s) := callShred shred eid s
    let (entries, s) := shredLoop ids s
    (entry :: entries, s)

/-- The hook of `make_crypto_shred_hook(vault)`: the results, or the text that it raises. -/
def cryptoShredHook (ids : List String) (s : S) : Except String (List Entry) × S :=
  let (results, s) := shredLoop shred ids s
  let failed := results.filter fun r => !r.shredded
  if failed ≠ [] then
    (.error ("crypto_shred failed for: [" ++
      ", ".intercalate (failed.map (Entry.repr printable)) ++ "]"), s)
  else (.ok results, s)

end Hook

/-! ## A vault over any KMS -/

/-- A `KmsCryptoShredVault` whose KMS has states `K`. -/
structure Vault (K : Type) where
  kms : K
  records : Dict String (List UInt8)
  shredded : List String

section Shred

variable {K : Type} (destroy : String → K → Except String Unit × K) (clock : K → ℤ)

/-- `shred`, with a `destroy_entity_key` that may raise. -/
def Vault.shred (entityId : String) (v : Vault K) : ShredReceipt × Vault K :=
  let eid := strip entityId
  let ts := clock v.kms
  let records := v.records.erase eid
  let shredded := v.shredded.insert eid
  match destroy eid v.kms with
  | (.ok (), kms) =>
    (⟨eid, true, ts, "KMS entity key destroyed; local DEK record dropped"⟩,
      ⟨kms, records, shredded⟩)
  | (.error exc, kms) =>
    (⟨eid, true, ts, "local drop ok; KMS destroy error: " ++ exc⟩, ⟨kms, records, shredded⟩)

/-- The method as the hook calls it. -/
def Vault.method (entityId : String) (v : Vault K) : Except String Answer × Vault K :=
  let (receipt, v) := v.shred destroy clock entityId
  (.ok (.receipt receipt.shredded (some receipt.message)), v)

/-- The KMS, with a list of the calls of `destroy_entity_key`: the entity, and whether the call
has completed. -/
def recorded (eid : String) (k : K × List (String × Bool)) :
    Except String Unit × (K × List (String × Bool)) :=
  match destroy eid k.1 with
  | (.ok (), kms) => (.ok (), kms, k.2 ++ [(eid, true)])
  | (.error exc, kms) => (.error exc, kms, k.2 ++ [(eid, false)])

/-- The hook over the vault, its KMS recorded. -/
def hookOver (printable : Char → Bool) (ids : List String) (v : Vault K) :
    Except String (List Entry) × Vault (K × List (String × Bool)) :=
  cryptoShredHook printable (some (Vault.method (recorded destroy) fun k => clock k.1)) ids
    ⟨(v.kms, []), v.records, v.shredded⟩

/-- **It fails closed**: where the hook returns, there was a call for every id, and it has
completed. -/
def FailsClosed (printable : Char → Bool) (ids : List String) (v : Vault K) : Prop :=
  ∀ results v', hookOver destroy clock printable ids v = (.ok results, v') →
    v'.kms.2 = ids.map fun id => (strip id, true)

/-- Called for these entities in turn, the KMS never raises. -/
def NeverRaises : List String → K → Prop
  | [], _ => True
  | eid :: rest, k => (destroy eid k).1 = .ok () ∧ NeverRaises rest (destroy eid k).2

end Shred

/-- Over a `LocalFileKMS`, which does not raise, this is the vault's `shred`. -/
theorem shred_localFile (now : ℤ) (entityId : String) (v : KmsCryptoShredVault) :
    Vault.shred (fun eid kms => (.ok (), LocalFileKMS.destroyEntityKey eid kms)) (fun _ => now)
        entityId ⟨v.kms, v.records, v.shredded⟩ =
      ((KmsCryptoShredVault.shred now entityId v).1,
        ⟨(KmsCryptoShredVault.shred now entityId v).2.kms,
          (KmsCryptoShredVault.shred now entityId v).2.records,
          (KmsCryptoShredVault.shred now entityId v).2.shredded⟩) := rfl

/-! ## What the hook makes of it -/

section FailsClosed

variable {K : Type} {destroy : String → K → Except String Unit × K} {clock : K → ℤ}

/-- The receipt is one of a shredded entity, and the KMS was called once. -/
theorem method_eq (entityId : String) (v : Vault K) :
    ∃ message, v.method destroy clock entityId =
      (.ok (.receipt true (some message)),
        ⟨(destroy (strip entityId) v.kms).2, v.records.erase (strip entityId),
          v.shredded.insert (strip entityId)⟩) := by
  rw [Vault.method, Vault.shred]
  rcases destroy (strip entityId) v.kms with ⟨exc | ⟨⟩, kms⟩
  · exact ⟨_, rfl⟩
  · exact ⟨_, rfl⟩

/-- **One id**: its entry says that it was shredded. -/
theorem callShred_eq (entityId : String) (v : Vault K) :
    ∃ message, callShred (some (Vault.method destroy clock)) entityId v =
      (.receipt entityId true message,
        ⟨(destroy (strip entityId) v.kms).2, v.records.erase (strip entityId),
          v.shredded.insert (strip entityId)⟩) := by
  obtain ⟨message, hmethod⟩ := @method_eq K destroy clock entityId v
  refine ⟨message, ?_⟩
  rw [callShred, hmethod]
  rfl

/-- The KMS after these calls. -/
def afterCalls (destroy : String → K → Except String Unit × K) (ids : List String) (k : K) : K :=
  ids.foldl (fun k id => (destroy (strip id) k).2) k

theorem shredLoop_all (ids : List String) (v : Vault K) :
    (∀ r ∈ (shredLoop (some (Vault.method destroy clock)) ids v).1, r.shredded = true) ∧
      (shredLoop (some (Vault.method destroy clock)) ids v).2.kms =
        afterCalls destroy ids v.kms := by
  induction ids generalizing v with
  | nil => exact ⟨nofun, rfl⟩
  | cons id ids ih =>
    obtain ⟨message, hcall⟩ := @callShred_eq K destroy clock id v
    rw [shredLoop, hcall]
    dsimp only
    obtain ⟨hentries, hkms⟩ := ih ⟨(destroy (strip id) v.kms).2, v.records.erase (strip id),
      v.shredded.insert (strip id)⟩
    constructor
    · rintro r (_ | ⟨_, hr⟩)
      · rfl
      · exact hentries r hr
    · exact hkms

/-- **The hook returns**, whatever the KMS raises. -/
theorem hook_returns (destroy : String → K → Except String Unit × K) (clock : K → ℤ)
    (printable : Char → Bool) (ids : List String) (v : Vault K) :
    ∃ results v', cryptoShredHook printable (some (Vault.method destroy clock)) ids v =
        (.ok results, v') ∧ v'.kms = afterCalls destroy ids v.kms := by
  obtain ⟨hentries, hkms⟩ := @shredLoop_all K destroy clock ids v
  have hnone : ((shredLoop (some (Vault.method destroy clock)) ids v).1.filter
      fun r => !r.shredded) = [] := by
    rw [List.filter_eq_nil_iff]
    intro r hr
    simp [hentries r hr]
  refine ⟨(shredLoop (some (Vault.method destroy clock)) ids v).1, _, ?_, hkms⟩
  rw [cryptoShredHook]
  simp only [hnone, ne_eq, not_true_eq_false, if_false]

/-- What is recorded of these calls. -/
def answers (destroy : String → K → Except String Unit × K) :
    List String → K → List (String × Bool)
  | [], _ => []
  | eid :: rest, k => (eid, (destroy eid k).1.isOk) :: answers destroy rest (destroy eid k).2

theorem recorded_snd (eid : String) (k : K) (done : List (String × Bool)) :
    (recorded destroy eid (k, done)).2 =
      ((destroy eid k).2, done ++ [(eid, (destroy eid k).1.isOk)]) := by
  rw [recorded]
  rcases destroy eid k with ⟨exc | ⟨⟩, kms⟩
  · rfl
  · rfl

theorem afterCalls_recorded (ids : List String) (k : K) (done : List (String × Bool)) :
    (afterCalls (recorded destroy) ids (k, done)).2 =
      done ++ answers destroy (ids.map strip) k := by
  induction ids generalizing k done with
  | nil => exact (List.append_nil done).symm
  | cons id ids ih =>
    rw [afterCalls, List.foldl_cons, ← afterCalls, recorded_snd, ih, List.append_assoc]
    rfl

/-- All calls have completed exactly if none raises. -/
theorem answers_eq_iff (eids : List String) (k : K) :
    answers destroy eids k = eids.map (fun eid => (eid, true)) ↔ NeverRaises destroy eids k := by
  induction eids generalizing k with
  | nil => exact iff_of_true rfl trivial
  | cons eid rest ih =>
    have hok : (destroy eid k).1.isOk = true ↔ (destroy eid k).1 = .ok () := by
      rcases (destroy eid k).1 with exc | ⟨⟩
      · exact iff_of_false Bool.false_ne_true nofun
      · exact iff_of_true rfl rfl
    rw [answers, List.map_cons, NeverRaises, ← hok, ← ih, List.cons.injEq, Prod.mk.injEq,
      eq_self_iff_true, true_and]

/-- **The hook fails closed exactly if the KMS never raises.** -/
theorem fails_closed_iff (destroy : String → K → Except String Unit × K) (clock : K → ℤ)
    (printable : Char → Bool) (ids : List String) (v : Vault K) :
    FailsClosed destroy clock printable ids v ↔ NeverRaises destroy (ids.map strip) v.kms := by
  obtain ⟨results, v', hhook, hkms⟩ := hook_returns (recorded destroy) (fun k => clock k.1)
    printable ids ⟨(v.kms, []), v.records, v.shredded⟩
  have hlog : v'.kms.2 = answers destroy (ids.map strip) v.kms := by
    rw [hkms, afterCalls_recorded, List.nil_append]
  rw [← answers_eq_iff, ← hlog, List.map_map]
  constructor
  · intro h
    exact h results v' hhook
  · intro h results' v'' hhook'
    obtain ⟨-, rfl⟩ := Prod.mk.inj (hhook.symm.trans hhook')
    exact h

/-- A KMS that has to be asked later. -/
def unavailable (_ : String) (calls : ℕ) : Except String Unit × ℕ :=
  (.error "KMS unavailable", calls + 1)

theorem hook_returns_undestroyed :
    ∃ v', hookOver unavailable (fun _ => 0) (fun _ => true) ["e"] ⟨0, ∅, []⟩ =
        (.ok [.receipt "e" true "local drop ok; KMS destroy error: KMS unavailable"], v') ∧
      v'.kms.2 = [("e", false)] ∧
      ¬ FailsClosed unavailable (fun _ => 0) (fun _ => true) ["e"] ⟨0, ∅, []⟩ := by
  refine ⟨_, rfl, rfl, ?_⟩
  intro h
  have hlog := h _ _ rfl
  cases hlog

end FailsClosed

end ShredHook

end Unlearning
