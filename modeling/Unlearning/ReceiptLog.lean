import Unlearning.JsonNesting
import Unlearning.PyText

/-!
# The receipt log (`integrations/receipt_log.py`)

One line of JSON for each receipt. A crash leaves a proper prefix of the line that was being
appended, and nothing takes it away again: the next append goes on in the same line.

* `Clean`: the file is the lines of the receipts whose append returned;
* `Ruined`: a torn line is at its end, or in it with a receipt glued on. No event repairs it;
* `readable_iff`: the log reads back what was appended exactly if no crash left anything.

The file is text in ASCII, so that its bytes are its characters.
-/

namespace Unlearning

open JsonText PyText

/-- A receipt: a dictionary that is JSON. -/
structure ReceiptDict (F : Type) where
  members : List (String × Doc F)
  distinct : (Doc.object members).DistinctKeys

namespace ReceiptDict

variable {F : Type}

/-- The receipt as it is read back, with sorted members. -/
def image (receipt : ReceiptDict F) : Doc F := (Doc.object receipt.members).image id

end ReceiptDict

namespace AppendOnlyReceiptLog

/-! ## Reading -/

/-- `open(…, "r")`: every end of a line is read as `\n`. -/
def universalNewlines : List Char → List Char
  | '\r' :: '\n' :: s => '\n' :: universalNewlines s
  | '\r' :: s => '\n' :: universalNewlines s
  | c :: s => c :: universalNewlines s
  | [] => []

/-- The lines of a file, with their ends. -/
def fileLines : List Char → List (List Char)
  | [] => []
  | c :: s =>
    if c = '\n' then ['\n'] :: fileLines s
    else match fileLines s with
      | [] => [[c]]
      | line :: rest => (c :: line) :: rest

section

variable {F : Type} (floats : FloatText F)

/-- `json.dumps(receipt, …) + "\n"` -/
def line (receipt : ReceiptDict F) : List Char := dumps floats (.object receipt.members) ++ ['\n']

/-- The loop of `iter_receipts`: what it yields, and whether it comes to its end. -/
def readLines : List (List Char) → List (Doc F) × Bool
  | [] => ([], true)
  | raw :: rest =>
    let raw := (strip (String.ofList raw)).toList
    if raw = [] then readLines rest
    else match loads floats raw with
      | none => ([], false)
      | some d => (d :: (readLines rest).1, (readLines rest).2)

/-- `iter_receipts` -/
def iterReceipts (file : Option (List Char)) : List (Doc F) × Bool :=
  match file with
  | none => ([], true)
  | some s => readLines floats (fileLines (universalNewlines s))

/-- `r.get("request_id") == rid` -/
def hasRequestId (rid : String) (ms : List (String × Doc F)) : Bool :=
  match Doc.get ms "request_id" with
  | some (.str s) => s = rid
  | _ => false

/-- The receipts of a request; what is no dictionary has no `get`. -/
def withRequestId (rid : String) : List (Doc F) → Option (List (Doc F))
  | [] => some []
  | .object ms :: ds => (withRequestId rid ds).map fun found =>
    if hasRequestId rid ms then .object ms :: found else found
  | _ :: _ => none

/-- `find_by_request_id`; it raises if the iteration does. -/
def findByRequestId (rid : String) (file : Option (List Char)) : Option (List (Doc F)) :=
  match iterReceipts floats file with
  | (_, false) => none
  | (ds, true) => withRequestId rid ds

end

/-! ## The file over time -/

/-- What may happen to the log. -/
inductive Event (F : Type) : Type where
  | append (receipt : ReceiptDict F) : Event F
  /-- the process dies in `append`; up to `kept` characters of the line, never all of it, are in
  the file -/
  | crash (receipt : ReceiptDict F) (kept : ℕ) : Event F
  /-- a new `AppendOnlyReceiptLog` -/
  | reopen : Event F

/-- The file, and the receipts whose append returned. -/
structure LogFile (F : Type) where
  file : Option (List Char)
  returned : List (ReceiptDict F)

namespace LogFile

section

variable {F : Type} (floats : FloatText F)

/-- No file yet. -/
def fresh : LogFile F := ⟨none, []⟩

/-- What is in the file. -/
def contents (w : LogFile F) : List Char := w.file.getD []

/-- What an event leaves of the log. -/
def step (w : LogFile F) : Event F → LogFile F
  | .append receipt => ⟨some (w.contents ++ line floats receipt), w.returned ++ [receipt]⟩
  | .crash receipt kept =>
    ⟨some (w.contents ++ (line floats receipt).dropLast.take kept), w.returned⟩
  | .reopen => ⟨some w.contents, w.returned⟩

/-- What events leave, one after the other. -/
def run (w : LogFile F) (events : List (Event F)) : LogFile F := events.foldl (step floats) w

/-- `iter_receipts` comes to its end and yields exactly the receipts whose append returned, in
order, and `find_by_request_id` those of them with the request id. -/
structure Readable (w : LogFile F) : Prop where
  iter : iterReceipts floats w.file = (w.returned.map ReceiptDict.image, true)
  find : ∀ rid, findByRequestId floats rid w.file =
    some ((w.returned.filter fun r => hasRequestId rid r.members).map ReceiptDict.image)

/-- The file is its receipts, a line each. -/
def Clean (w : LogFile F) : Prop := w.contents = w.returned.flatMap (line floats)

/-- **A torn line**: it starts like a receipt, and is the last, or another receipt is glued
onto it. -/
inductive Ruined (w : LogFile F) : Prop where
  | torn (s : List Char) (hs : ∀ c ∈ s, IsPrintable c)
      (h : w.contents = w.returned.flatMap (line floats) ++ '{' :: s)
  | glued (before : List (ReceiptDict F)) (s : List Char) (hs : ∀ c ∈ s, IsPrintable c)
      (receipt : ReceiptDict F) (rest : List Char)
      (h : w.contents = before.flatMap (line floats) ++
        ('{' :: (s ++ dumps floats (.object receipt.members)) ++ '\n' :: rest))

end

end LogFile

/-! ## Lines -/

section

variable {F : Type} {floats : FloatText F}

theorem dumps_receipt (receipt : ReceiptDict F) :
    ∃ s, dumps floats (.object receipt.members) = '{' :: (s ++ ['}']) ∧
      ∀ c ∈ s, IsPrintable c := by
  refine ⟨memberTexts floats (Doc.imageMembers id receipt.members), ?_, ?_⟩
  · rw [dumps, Doc.image, text]
    rfl
  · exact (tokens_members _).isPrintable

theorem universalNewlines_append {s : List Char} (hs : ∀ c ∈ s, c ≠ '\r') (t : List Char) :
    universalNewlines (s ++ t) = s ++ universalNewlines t := by
  induction s with
  | nil => rfl
  | cons c s ih =>
    obtain ⟨hc, hs⟩ := List.forall_mem_cons.mp hs
    rw [List.cons_append, universalNewlines, ih hs, List.cons_append]
    · exact fun _ h => absurd h hc
    · exact hc

theorem fileLines_append {s : List Char} (hs : ∀ c ∈ s, c ≠ '\n') (t : List Char) :
    fileLines (s ++ '\n' :: t) = (s ++ ['\n']) :: fileLines t := by
  induction s with
  | nil => rfl
  | cons c s ih =>
    obtain ⟨hc, hs⟩ := List.forall_mem_cons.mp hs
    rw [List.cons_append, fileLines, if_neg hc, ih hs]
    rfl

/-- The last line may have no end. -/
theorem fileLines_last {c : Char} {s : List Char} (hs : ∀ c' ∈ c :: s, c' ≠ '\n') :
    fileLines (c :: s) = [c :: s] := by
  induction s generalizing c with
  | nil =>
    rw [fileLines, if_neg (hs c List.mem_cons_self)]
    rfl
  | cons c' s ih =>
    obtain ⟨hc, hs⟩ := List.forall_mem_cons.mp hs
    rw [fileLines, if_neg hc, ih hs]

/-- A line that starts and ends with a brace. -/
theorem strip_braces (s : List Char) :
    (strip (String.ofList ('{' :: (s ++ ['}']) ++ ['\n']))).toList = '{' :: (s ++ ['}']) := by
  rw [strip, String.toList_ofList, String.toList_ofList, List.cons_append, List.dropWhile_cons,
    if_neg (by decide), ← List.cons_append, List.rdropWhile_concat_pos _ _ _ (by decide),
    ← List.cons_append, List.rdropWhile_concat_neg _ _ _ (by decide)]

theorem ne_of_isPrintable {c : Char} (h : IsPrintable c) : c ≠ '\n' ∧ c ≠ '\r' := by
  constructor
  · rintro rfl
    exact absurd h (by decide)
  · rintro rfl
    exact absurd h (by decide)

/-- A line that starts and ends with a brace comes first, whatever the file goes on with. -/
theorem fileLines_braces {s : List Char} (hs : ∀ c ∈ s, IsPrintable c) (t : List Char) :
    fileLines (universalNewlines ('{' :: (s ++ ['}']) ++ '\n' :: t)) =
      ('{' :: (s ++ ['}']) ++ ['\n']) :: fileLines (universalNewlines t) := by
  have hall : ∀ c ∈ '{' :: (s ++ ['}']), IsPrintable c := by
    rw [List.forall_mem_cons, List.forall_mem_append]
    exact ⟨by decide, hs, List.forall_mem_singleton.mpr (by decide)⟩
  have hline : universalNewlines ('\n' :: t) = '\n' :: universalNewlines t :=
    @universalNewlines_append ['\n'] (List.forall_mem_singleton.mpr (by decide)) t
  rw [universalNewlines_append (fun c hc => (ne_of_isPrintable (hall c hc)).2), hline,
    fileLines_append fun c hc => (ne_of_isPrintable (hall c hc)).1]

/-- A line of the log is read. -/
theorem readLines_line (receipt : ReceiptDict F) (t : List Char) :
    readLines floats (fileLines (universalNewlines (line floats receipt ++ t))) =
      (receipt.image :: (readLines floats (fileLines (universalNewlines t))).1,
        (readLines floats (fileLines (universalNewlines t))).2) := by
  obtain ⟨s, heq, hs⟩ := @dumps_receipt F floats receipt
  have hloads := @loads_dumps F floats _ receipt.distinct
  rw [heq] at hloads
  rw [line, heq, List.append_assoc, List.singleton_append, fileLines_braces hs, readLines,
    strip_braces, if_neg (by simp), hloads]
  rfl

theorem readLines_lines (receipts : List (ReceiptDict F)) (t : List Char) :
    readLines floats (fileLines (universalNewlines (receipts.flatMap (line floats) ++ t))) =
      (receipts.map ReceiptDict.image ++ (readLines floats (fileLines (universalNewlines t))).1,
        (readLines floats (fileLines (universalNewlines t))).2) := by
  induction receipts with
  | nil => rfl
  | cons receipt receipts ih =>
    rw [List.flatMap_cons, List.append_assoc, readLines_line, ih]
    rfl

/-! ## A clean log -/

namespace LogFile

variable {w : LogFile F}

theorem iterReceipts_eq (w : LogFile F) :
    iterReceipts floats w.file = readLines floats (fileLines (universalNewlines w.contents)) := by
  rw [iterReceipts.eq_def, contents]
  rcases w.file with _ | s
  · rfl
  · rfl

theorem hasRequestId_image (rid : String) (receipt : ReceiptDict F) :
    hasRequestId rid (Doc.imageMembers id receipt.members) =
      hasRequestId rid receipt.members := by
  rw [hasRequestId, hasRequestId]
  rcases hget : Doc.get receipt.members "request_id" with _ | d
  · rw [(Doc.get_imageMembers_eq_none id).mpr hget]
  · rw [Doc.get_imageMembers receipt.distinct.1 (Doc.mem_of_get hget)]
    cases d with
    | str s => rfl
    | null => rfl
    | bool b => rfl
    | int n => rfl
    | list ds => rfl
    | object ms => rfl
    | any x => rfl

theorem withRequestId_images (rid : String) (receipts : List (ReceiptDict F)) :
    withRequestId rid (receipts.map ReceiptDict.image) =
      some ((receipts.filter fun r => hasRequestId rid r.members).map ReceiptDict.image) := by
  induction receipts with
  | nil => rfl
  | cons receipt receipts ih =>
    rw [List.map_cons, ReceiptDict.image, Doc.image, withRequestId, ih]
    show some (if hasRequestId rid (Doc.imageMembers id receipt.members) = true then _ else _) = _
    rw [hasRequestId_image, List.filter_cons]
    split
    · rfl
    · rfl

theorem Clean.readable (h : Clean floats w) : Readable floats w := by
  have hiter : iterReceipts floats w.file = (w.returned.map ReceiptDict.image, true) := by
    have hlines := @readLines_lines F floats w.returned []
    rw [List.append_nil] at hlines
    rw [iterReceipts_eq, h, hlines]
    rw [universalNewlines, fileLines, readLines, List.append_nil]
  refine ⟨hiter, fun rid => ?_⟩
  rw [findByRequestId, hiter]
  exact withRequestId_images rid w.returned

/-! ## A torn line -/

theorem Ruined.not_readable (h : Ruined floats w) : ¬ Readable floats w := by
  rintro ⟨hiter, -⟩
  rw [iterReceipts_eq] at hiter
  rcases h with ⟨s, hs, hcontents⟩ | ⟨before, s, hs, receipt, rest, hcontents⟩
  · -- it is one receipt more, or it is not read
    have hall : ∀ c ∈ '{' :: s, IsPrintable c := List.forall_mem_cons.mpr ⟨by decide, hs⟩
    have htail : universalNewlines ('{' :: s) = '{' :: s := by
      have happend := universalNewlines_append (fun c hc => (ne_of_isPrintable (hall c hc)).2) []
      rwa [universalNewlines, List.append_nil] at happend
    rw [hcontents, readLines_lines, htail,
      fileLines_last (fun c hc => (ne_of_isPrintable (hall c hc)).1), readLines] at hiter
    obtain ⟨hyields, hends⟩ := Prod.mk.inj hiter
    have hne : (strip (String.ofList ('{' :: s))).toList ≠ [] := by
      rw [strip, String.toList_ofList, String.toList_ofList, List.dropWhile_cons,
        if_neg (by decide), Ne, List.rdropWhile_eq_nil_iff]
      exact fun hspace => absurd (hspace '{' List.mem_cons_self) (by decide)
    rw [if_neg hne] at hyields hends
    rcases hloads : loads floats (strip (String.ofList ('{' :: s))).toList with _ | d
    · rw [hloads] at hends
      cases hends
    · rw [hloads] at hyields
      have hlength := congrArg List.length hyields
      simp at hlength
  · -- it is not read
    obtain ⟨body, heq, hbody⟩ := @dumps_receipt F floats receipt
    have hglued : loads floats ('{' :: (s ++ dumps floats (.object receipt.members))) = none :=
      loads_glued (Doc.distinctKeys_image id _ receipt.distinct) s
    have hline : '{' :: (s ++ dumps floats (.object receipt.members)) =
        '{' :: ((s ++ '{' :: body) ++ ['}']) := by
      rw [heq, List.append_assoc, List.cons_append]
    have hprintable : ∀ c ∈ s ++ '{' :: body, IsPrintable c := by
      rw [List.forall_mem_append, List.forall_mem_cons]
      exact ⟨hs, by decide, hbody⟩
    rw [hcontents, hline, readLines_lines, fileLines_braces hprintable, readLines, strip_braces,
      if_neg (by simp), ← hline, hglued] at hiter
    cases (Prod.mk.inj hiter).2

/-! ## Runs -/

/-- What a crash leaves: nothing, or the beginning of a receipt. -/
theorem crash_leaves (receipt : ReceiptDict F) (kept : ℕ) :
    kept = 0 ∧ (line floats receipt).dropLast.take kept = [] ∨
      kept ≠ 0 ∧ ∃ s, (line floats receipt).dropLast.take kept = '{' :: s ∧
        ∀ c ∈ s, IsPrintable c := by
  obtain ⟨s, heq, hs⟩ := @dumps_receipt F floats receipt
  rw [line, List.dropLast_concat, heq]
  cases kept with
  | zero => exact .inl ⟨rfl, rfl⟩
  | succ kept =>
    refine .inr ⟨Nat.succ_ne_zero kept, _, rfl, fun c hc => ?_⟩
    have hall : ∀ c ∈ s ++ ['}'], IsPrintable c := by
      rw [List.forall_mem_append]
      exact ⟨hs, List.forall_mem_singleton.mpr (by decide)⟩
    exact hall c (List.mem_of_mem_take hc)

/-- An event that tears no line. -/
def Whole : Event F → Prop
  | .crash _ kept => kept = 0
  | _ => True

theorem Clean.step (h : Clean floats w) {e : Event F} (he : Whole e) :
    Clean floats (w.step floats e) := by
  rw [Clean] at h ⊢
  cases e with
  | append receipt =>
    show w.contents ++ line floats receipt = (w.returned ++ [receipt]).flatMap (line floats)
    rw [h, List.flatMap_append, List.flatMap_singleton]
  | crash receipt kept =>
    obtain rfl : kept = 0 := he
    show w.contents ++ [] = w.returned.flatMap (line floats)
    rw [h, List.append_nil]
  | reopen => exact h

/-- The first line that is torn. -/
theorem Clean.tears (h : Clean floats w) {e : Event F} (he : ¬ Whole e) :
    Ruined floats (w.step floats e) := by
  rw [Clean] at h
  cases e with
  | append receipt => exact absurd trivial he
  | crash receipt kept =>
    rcases @crash_leaves F floats receipt kept with ⟨hkept, -⟩ | ⟨-, s, heq, hs⟩
    · exact absurd hkept he
    · refine .torn s hs ?_
      show w.contents ++ _ = w.returned.flatMap (line floats) ++ '{' :: s
      rw [h, heq]
  | reopen => exact absurd trivial he

/-- **Nothing repairs a torn line.** -/
theorem Ruined.step (h : Ruined floats w) (e : Event F) : Ruined floats (w.step floats e) := by
  rcases h with ⟨s, hs, hcontents⟩ | ⟨before, s, hs, receipt, rest, hcontents⟩
  · cases e with
    | append receipt =>
      refine .glued w.returned s hs receipt [] ?_
      show w.contents ++ line floats receipt = _
      rw [hcontents, line, List.append_assoc, List.cons_append, List.cons_append,
        List.append_assoc]
    | crash receipt kept =>
      rcases @crash_leaves F floats receipt kept with ⟨-, heq⟩ | ⟨-, s', heq, hs'⟩
      · refine .torn s hs ?_
        show w.contents ++ _ = _
        rw [hcontents, heq, List.append_nil]
        rfl
      · refine .torn (s ++ '{' :: s') ?_ ?_
        · rw [List.forall_mem_append, List.forall_mem_cons]
          exact ⟨hs, by decide, hs'⟩
        · show w.contents ++ _ = _
          rw [hcontents, heq, List.append_assoc, List.cons_append]
          rfl
    | reopen => exact .torn s hs hcontents
  · have hmore : ∀ t, w.contents ++ t = before.flatMap (line floats) ++
        ('{' :: (s ++ dumps floats (.object receipt.members)) ++ '\n' :: (rest ++ t)) := by
      intro t
      rw [hcontents, List.append_assoc, List.append_assoc]
      rfl
    cases e with
    | append receipt' => exact .glued before s hs receipt _ (hmore _)
    | crash receipt' kept => exact .glued before s hs receipt _ (hmore _)
    | reopen => exact .glued before s hs receipt rest hcontents

/-- A run leaves the log clean if every event is whole, and ruined otherwise. -/
theorem run_cases (events : List (Event F)) :
    (∀ e ∈ events, Whole e) ∧ Clean floats (fresh.run floats events) ∨
      (¬ ∀ e ∈ events, Whole e) ∧ Ruined floats (fresh.run floats events) := by
  induction events using List.reverseRecOn with
  | nil => exact .inl ⟨fun _ h => absurd h List.not_mem_nil, rfl⟩
  | append_singleton events e ih =>
    have hall : (∀ e' ∈ events ++ [e], Whole e') ↔ (∀ e' ∈ events, Whole e') ∧ Whole e := by
      rw [List.forall_mem_append, List.forall_mem_singleton]
    have hrun : fresh.run floats (events ++ [e]) = (fresh.run floats events).step floats e :=
      List.foldl_append
    rw [hrun, hall]
    rcases ih with ⟨hwhole, hclean⟩ | ⟨htorn, hruined⟩
    · by_cases he : Whole e
      · exact .inl ⟨⟨hwhole, he⟩, hclean.step he⟩
      · exact .inr ⟨fun h => he h.2, hclean.tears he⟩
    · exact .inr ⟨fun h => htorn h.1, hruined.step e⟩

/-- **The log is readable** exactly if no crash has left anything of its line. -/
theorem readable_iff (events : List (Event F)) :
    Readable floats (fresh.run floats events) ↔
      ∀ receipt kept, Event.crash receipt kept ∈ events → kept = 0 := by
  have hwhole : (∀ e ∈ events, Whole e) ↔
      ∀ receipt kept, Event.crash receipt kept ∈ events → kept = 0 := by
    constructor
    · exact fun h receipt kept hmem => h _ hmem
    · intro h e he
      cases e with
      | append receipt => trivial
      | crash receipt kept => exact h receipt kept he
      | reopen => trivial
  rw [← hwhole]
  rcases @run_cases F floats events with ⟨h, hclean⟩ | ⟨h, hruined⟩
  · exact iff_of_true hclean.readable h
  · exact iff_of_false hruined.not_readable h

end LogFile

end

/-! ### A torn line -/

namespace LogFile

section Torn

/-- A type of floats with one value, written `NaN`. -/
def onlyNaN : FloatText Unit where
  repr _ := "NaN".toList
  read _ := ()
  read_repr _ := rfl
  shape _ := .inl ⟨"NaN", by decide, rfl⟩

/-- `{"request_id": "r-1"}` -/
def receiptOne : ReceiptDict Unit where
  members := [("request_id", .str "r-1")]
  distinct := ⟨by decide, trivial, trivial⟩

/-- The process dies with one character in the file; after the restart a receipt is appended. -/
theorem torn_line_unreadable :
    ¬ Readable onlyNaN
      (fresh.run onlyNaN [.reopen, .crash receiptOne 1, .reopen, .append receiptOne]) := by
  intro h
  have hends : (iterReceipts onlyNaN (fresh.run onlyNaN
      [.reopen, .crash receiptOne 1, .reopen, .append receiptOne]).file).2 = false := by
    decide +kernel
  rw [h.iter] at hends
  cases hends

end Torn

end LogFile

end AppendOnlyReceiptLog

end Unlearning
