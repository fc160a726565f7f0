import Unlearning.EraseService
import Unlearning.Separated

/-!
# What a signature binds (`ErasureService._sign`)

The signed text joins nine fields of a receipt with `|`, and the external ids with `,`; neither
is escaped in a field. So the text is that of other receipts too wherever a field has a
separator in it, and a list of ids has the text of the one id that is written like it.

* `Unmistakable` is what a receipt has to be for its text to be its own (`binds_iff`);
* among receipts whose fields and ids have no separator in them, the text decides
  (`bound_of_clean`).
-/

namespace Unlearning

namespace Signature

open Service PyText

variable {D : Type}

/-- `payload`: the bytes that are signed. -/
def payload (receipt : ErasureReceipt D) : ByteArray := (signedPayload receipt).toUTF8

/-- The fields that the signature is over. -/
structure SameSigned (r r' : ErasureReceipt D) : Prop where
  receiptVersion : r.receiptVersion = r'.receiptVersion
  requestId : r.requestId = r'.requestId
  collection : r.collection = r'.collection
  externalIds : r.externalIds = r'.externalIds
  timestampUnixNs : r.timestampUnixNs = r'.timestampUnixNs
  bytesWipedTotal : r.bytesWipedTotal = r'.bytesWipedTotal
  success : r.success = r'.success
  status : r.status = r'.status
  compacted : r.compacted = r'.compacted

/-- No other signed fields have the payload of this receipt. -/
def Binds (r : ErasureReceipt D) : Prop :=
  ∀ r' : ErasureReceipt D, payload r = payload r' → SameSigned r r'

/-- A request id and a collection without `|`. -/
structure CleanFields (r : ErasureReceipt D) : Prop where
  requestId : '|' ∉ r.requestId.toList
  collection : '|' ∉ r.collection.toList

/-- An id without a separator. -/
def CleanId (id : String) : Prop := id ≠ "" ∧ '|' ∉ id.toList ∧ ',' ∉ id.toList

/-- **The text is of this receipt only**: clean fields and one clean id. -/
def Unmistakable (r : ErasureReceipt D) : Prop :=
  CleanFields r ∧ ∃ id, r.externalIds = [id] ∧ CleanId id

/-! ## The nine fields -/

/-- The fields of the text, as they are written. -/
def fields (r : ErasureReceipt D) : List String :=
  [toString r.receiptVersion, r.requestId, r.collection, ",".intercalate r.externalIds,
    toString r.timestampUnixNs, toString r.bytesWipedTotal, ofBool r.success, r.status.text,
    if r.compacted then "1" else "0"]

theorem join_nine (a b c d e f g h i : String) :
    a ++ "|" ++ b ++ "|" ++ c ++ "|" ++ d ++ "|" ++ e ++ "|" ++ f ++ "|" ++ g ++ "|" ++ h ++ "|" ++
      i = "|".intercalate [a, b, c, d, e, f, g, h, i] := by
  simp only [String.intercalate_cons_cons, String.intercalate_singleton, String.append_assoc]

theorem signedPayload_eq (r : ErasureReceipt D) : signedPayload r = "|".intercalate (fields r) :=
  join_nine _ _ _ _ _ _ _ _ _

theorem payload_inj {r r' : ErasureReceipt D} :
    payload r = payload r' ↔ signedPayload r = signedPayload r' :=
  String.toByteArray_inj

theorem ofBool_inj {b b' : Bool} (h : ofBool b = ofBool b') : b = b' := by
  revert b b'
  decide

theorem statusText_inj {s s' : ReceiptStatus} (h : s.text = s'.text) : s = s' := by
  cases s <;> cases s' <;> first | rfl | (revert h; decide)

theorem compactedText_inj {b b' : Bool}
    (h : (if b then "1" else "0") = if b' then "1" else "0") : b = b' := by
  revert b b'
  decide

/-- Equal fields are equal values, up to how the ids are joined. -/
theorem sameSigned_of_fields {r r' : ErasureReceipt D} (h : fields r = fields r')
    (hids : ",".intercalate r.externalIds = ",".intercalate r'.externalIds →
      r.externalIds = r'.externalIds) : SameSigned r r' := by
  simp only [fields, List.cons.injEq, and_true] at h
  obtain ⟨hversion, hrequest, hcollection, hjoined, htime, hbytes, hsuccess, hstatus,
    hcompacted⟩ := h
  exact ⟨Nat.repr_injective hversion, hrequest, hcollection, hids hjoined,
    Int.repr_injective htime, Int.repr_injective hbytes, ofBool_inj hsuccess,
    statusText_inj hstatus, compactedText_inj hcompacted⟩

/-- Clean fields and clean ids are written without a `|`. -/
theorem clean_fields {r : ErasureReceipt D} (h : CleanFields r)
    (hids : ∀ id ∈ r.externalIds, '|' ∉ id.toList) : ∀ f ∈ fields r, '|' ∉ f.toList := by
  have hdigit : ('|' : Char).isDigit = false := by decide
  have hminus : '|' ≠ '-' := by decide
  have hjoined : '|' ∉ (",".intercalate r.externalIds).toList := by
    intro hmem
    rcases Separated.mem_join (c := ',') (by decide) hmem with hcomma | ⟨id, hid, hbar⟩
    · exact absurd hcomma (by decide : '|' ≠ ',')
    · exact hids id hid hbar
  have hsuccess : '|' ∉ (ofBool r.success).toList := by
    cases r.success <;> decide
  have hstatus : '|' ∉ r.status.text.toList := by
    cases r.status <;> decide
  have hcompacted : '|' ∉ (if r.compacted then "1" else "0").toList := by
    cases r.compacted <;> decide
  simp only [fields, List.forall_mem_cons]
  exact ⟨Separated.notMem_toString_nat hdigit _, h.requestId, h.collection, hjoined,
    Separated.notMem_toString_int hdigit hminus _, Separated.notMem_toString_int hdigit hminus _,
    hsuccess, hstatus, hcompacted, by simp⟩

theorem fields_eq_of_payload {r r' : ErasureReceipt D} (h : CleanFields r)
    (hids : ∀ id ∈ r.externalIds, '|' ∉ id.toList) (hpayload : payload r = payload r') :
    fields r = fields r' := by
  rw [payload_inj, signedPayload_eq, signedPayload_eq] at hpayload
  exact Separated.join_inj_of_length (by decide) rfl (clean_fields h hids) hpayload

/-- Receipts with clean ids. -/
theorem sameSigned_of_clean {r r' : ErasureReceipt D} (h : CleanFields r)
    (hids : ∀ id ∈ r.externalIds, CleanId id) (hids' : ∀ id ∈ r'.externalIds, CleanId id)
    (hpayload : payload r = payload r') : SameSigned r r' := by
  have hfields := fields_eq_of_payload h (fun id hid => (hids id hid).2.1) hpayload
  apply sameSigned_of_fields hfields
  apply Separated.join_inj (c := ',') (by decide)
  · exact fun id hid => ⟨(hids id hid).1, (hids id hid).2.2⟩
  · exact fun id hid => ⟨(hids' id hid).1, (hids' id hid).2.2⟩

/-- One clean id is joined from itself only. -/
theorem ids_of_join {id : String} (hid : CleanId id) {ids : List String}
    (h : id = ",".intercalate ids) : ids = [id] := by
  rcases ids with _ | ⟨first, _ | ⟨second, rest⟩⟩
  · exact absurd h hid.1
  · rw [h, String.intercalate_singleton]
  · refine absurd ?_ hid.2.2
    rw [h, String.intercalate_cons_cons]
    simp

theorem binds_of_unmistakable {r : ErasureReceipt D} (h : Unmistakable r) : Binds r := by
  intro r' hpayload
  obtain ⟨hclean, id, hids, hid⟩ := h
  -- nothing is known of the other receipt, but both texts have eight bars
  have hbar : ∀ id ∈ r.externalIds, '|' ∉ id.toList := by
    rw [hids]
    simpa using hid.2.1
  have hfields := fields_eq_of_payload hclean hbar hpayload
  apply sameSigned_of_fields hfields
  rw [hids, String.intercalate_singleton]
  intro hjoined
  exact (ids_of_join hid hjoined).symm

/-! ## Other receipts with the same text -/

/-- A string with a separator in it falls into two parts, of which neither is the whole. -/
theorem split_at {c : Char} {s : String} (h : c ∈ s.toList) :
    ∃ a b : String, s = a ++ String.singleton c ++ b ∧ a ≠ s := by
  obtain ⟨left, right, heq⟩ := List.append_of_mem h
  have hs : s = String.ofList left ++ String.singleton c ++ String.ofList right := by
    apply String.toList_inj.mp
    simp [heq]
  refine ⟨_, _, hs, ?_⟩
  intro hleft
  have hlength := congrArg (fun t : String => t.toList.length) hleft
  simp [heq] at hlength

section Forgeries

variable {r : ErasureReceipt D}

/-- The request id, the collection and the ids, as they stand in the text. -/
def middle (requestId collection : String) (ids : List String) : String :=
  requestId ++ ("|" ++ (collection ++ ("|" ++ ",".intercalate ids)))

theorem start_of_middle {requestId collection requestId' collection' : String}
    {ids ids' : List String}
    (h : middle requestId collection ids = middle requestId' collection' ids')
    (version : String) :
    version ++ "|" ++ requestId ++ "|" ++ collection ++ "|" ++ ",".intercalate ids =
      version ++ "|" ++ requestId' ++ "|" ++ collection' ++ "|" ++ ",".intercalate ids' := by
  simp only [middle] at h
  simp only [String.append_assoc, h]

/-- The text is the same where the middle is. -/
theorem payload_of_middle {requestId collection : String} {ids : List String}
    (h : middle r.requestId r.collection r.externalIds = middle requestId collection ids) :
    payload r = payload { r with
      requestId := requestId, collection := collection, externalIds := ids } :=
  payload_inj.mpr (congrArg (fun start => start ++ "|" ++ toString r.timestampUnixNs ++ "|" ++
    toString r.bytesWipedTotal ++ "|" ++ ofBool r.success ++ "|" ++ r.status.text ++ "|" ++
      (if r.compacted then "1" else "0")) (start_of_middle h (toString r.receiptVersion)))

/-- A `|` in the request id can be the one before the collection. -/
theorem not_binds_of_requestId (h : '|' ∈ r.requestId.toList) : ¬ Binds r := by
  obtain ⟨a, b, hsplit, hne⟩ := split_at h
  have hmiddle : middle r.requestId r.collection r.externalIds =
      middle a (b ++ "|" ++ r.collection) r.externalIds := by
    generalize r.requestId = requestId at hsplit
    rw [hsplit, middle, middle]
    simp only [String.append_assoc]
    rfl
  intro hbinds
  exact hne (hbinds _ (payload_of_middle hmiddle)).requestId.symm

/-- A `|` in the collection can be the one before it. -/
theorem not_binds_of_collection (h : '|' ∈ r.collection.toList) : ¬ Binds r := by
  obtain ⟨a, b, hsplit, -⟩ := split_at h
  have hmiddle : middle r.requestId r.collection r.externalIds =
      middle (r.requestId ++ "|" ++ a) b r.externalIds := by
    generalize r.collection = collection at hsplit
    rw [hsplit, middle, middle]
    simp only [String.append_assoc]
    rfl
  -- the other request id is longer
  intro hbinds
  have hsame := (hbinds _ (payload_of_middle hmiddle)).requestId
  have hlength := congrArg (fun t : String => t.toList.length) hsame
  simp at hlength

/-- Ids that are joined to the same text. -/
theorem not_binds_of_ids {ids : List String} (hne : r.externalIds ≠ ids)
    (hjoined : ",".intercalate r.externalIds = ",".intercalate ids) : ¬ Binds r := by
  have hmiddle : middle r.requestId r.collection r.externalIds =
      middle r.requestId r.collection ids := by
    rw [middle, middle, hjoined]
  intro hbinds
  exact hne (hbinds _ (payload_of_middle hmiddle)).externalIds

/-- A `|` in the ids can be the one before them. -/
theorem not_binds_of_joined (h : '|' ∈ (",".intercalate r.externalIds).toList) : ¬ Binds r := by
  obtain ⟨a, b, hsplit, -⟩ := split_at h
  have hmiddle : middle r.requestId r.collection r.externalIds =
      middle r.requestId (r.collection ++ "|" ++ a) [b] := by
    rw [middle, middle, hsplit, String.intercalate_singleton]
    simp only [String.append_assoc]
    rfl
  intro hbinds
  have hsame := (hbinds _ (payload_of_middle hmiddle)).collection
  have hlength := congrArg (fun t : String => t.toList.length) hsame
  simp at hlength

/-- Ids that are not one clean id have the text of others. -/
theorem not_binds_of_externalIds (h : ¬ ∃ id, r.externalIds = [id] ∧ CleanId id) :
    ¬ Binds r := by
  by_cases hone : r.externalIds = [",".intercalate r.externalIds]
  · -- one id, which is empty, or has a comma or a bar in it
    generalize hid : ",".intercalate r.externalIds = id at hone
    by_cases hempty : id = ""
    · have hne : r.externalIds ≠ [] := by
        rw [hone]
        simp
      apply not_binds_of_ids hne
      rw [hid, hempty]
      rfl
    · by_cases hcomma : ',' ∈ id.toList
      · obtain ⟨a, b, hsplit, -⟩ := split_at hcomma
        have hne : r.externalIds ≠ [a, b] := by
          rw [hone]
          simp
        apply not_binds_of_ids hne
        rw [hid, hsplit, String.intercalate_cons_cons, String.intercalate_singleton]
        rfl
      · by_cases hbar : '|' ∈ id.toList
        · rw [← hid] at hbar
          exact not_binds_of_joined hbar
        · exact absurd ⟨id, hone, hempty, hbar, hcomma⟩ h
  · -- several ids, or none: their join is one id with the same text
    apply not_binds_of_ids hone
    rw [String.intercalate_singleton]

end Forgeries

/-- **What a signature binds**: a receipt with clean fields and one clean id, and no other;
and among receipts with clean fields and ids the text decides. -/
theorem signature_binds :
    (∀ r : ErasureReceipt D, Binds r ↔ Unmistakable r) ∧
    ∀ r r' : ErasureReceipt D, CleanFields r → (∀ id ∈ r.externalIds, CleanId id) →
      (∀ id ∈ r'.externalIds, CleanId id) → payload r = payload r' → SameSigned r r' := by
  refine ⟨fun r => ⟨?_, binds_of_unmistakable⟩, fun r r' h hids hids' => ?_⟩
  · intro hbinds
    refine ⟨⟨?_, ?_⟩, ?_⟩
    · exact fun h => not_binds_of_requestId h hbinds
    · exact fun h => not_binds_of_collection h hbinds
    · by_contra h
      exact not_binds_of_externalIds h hbinds
  · exact sameSigned_of_clean h hids hids'

section Receipts

/-- The receipt of a complete erasure of these ids. -/
def receiptOf (ids : List String) : ErasureReceipt Unit where
  requestId := "req-1"
  collection := "users"
  externalIds := ids
  labels := []
  success := true
  reason := none
  timestampUnixNs := 0
  bytesWipedTotal := 0
  backendMessages := []
  transactionIds := []
  signature := ""
  errors := []
  receiptVersion := 2
  status := .complete
  compacted := false
  residualProof := ⟨.off, none, 0, 0, [], ""⟩

theorem cleanFields_receiptOf (ids : List String) : CleanFields (receiptOf ids) where
  requestId := (by decide : '|' ∉ "req-1".toList)
  collection := (by decide : '|' ∉ "users".toList)

/-- The signature of two ids is that of the one id with a comma in it. -/
theorem signature_ambiguous :
    payload (receiptOf ["a", "b"]) = payload (receiptOf ["a,b"]) ∧
      ¬ SameSigned (receiptOf ["a", "b"]) (receiptOf ["a,b"]) := by
  constructor
  · rfl
  · intro h
    exact absurd h.externalIds (by decide)

theorem signature_binds_receiptOf :
    Binds (receiptOf ["a"]) ∧ SameSigned (receiptOf ["a", "b"]) (receiptOf ["a", "b"]) := by
  have hids : ∀ id ∈ (receiptOf ["a", "b"]).externalIds, CleanId id := by
    have hlist : ∀ id ∈ ["a", "b"], id ≠ "" ∧ '|' ∉ id.toList ∧ ',' ∉ id.toList := by decide
    exact hlist
  have hid : CleanId "a" := by
    rw [CleanId]
    decide
  exact ⟨(signature_binds.1 _).mpr ⟨cleanFields_receiptOf _, "a", rfl, hid⟩,
    signature_binds.2 _ _ (cleanFields_receiptOf _) hids hids rfl⟩

end Receipts

end Signature

end Unlearning
