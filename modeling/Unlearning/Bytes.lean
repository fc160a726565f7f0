import Mathlib.Data.Nat.Basic
import Mathlib.Data.List.Basic
import Mathlib.Tactic.Ring

/-!
# Fixed-width words and byte readers

Binary formats are written as little-endian words of a fixed width, laid out
one after another, and read back by readers that consume a prefix of what is
left. Two layers:

* `leBytes w n` / `leNat` — a natural number as `w` bytes, least significant
  first, and back. The encoding drops what does not fit, so the round trip is
  `n % 256 ^ w` in general and exact below `256 ^ w`. `i64Bits` / `i64OfBits`
  carry signed 64-bit values through the unsigned words.
* `Reader ε` — readers that fail with `ε`. `Decodes r bs a` says that `r`
  consumes exactly `bs`, whatever follows, and returns `a`; it is closed under
  sequencing and repetition, so a format's round trip is assembled field by
  field in the order of the format. `Yields r P` says that whatever `r` returns,
  on whatever bytes, satisfies `P`: the other half, for input nobody wrote.
-/

namespace Unlearning

/-! ## Little-endian words -/

/-- The `w` little-endian bytes of `n`; what does not fit is dropped. -/
def leBytes : ℕ → ℕ → List UInt8
  | 0, _ => []
  | w + 1, n => UInt8.ofNat n :: leBytes w (n / 256)

/-- The natural number a little-endian byte string stands for. -/
def leNat : List UInt8 → ℕ
  | [] => 0
  | b :: bs => b.toNat + 256 * leNat bs

@[simp] theorem leBytes_zero (n : ℕ) : leBytes 0 n = [] := rfl

theorem leBytes_succ (w n : ℕ) :
    leBytes (w + 1) n = UInt8.ofNat n :: leBytes w (n / 256) := rfl

@[simp] theorem leNat_nil : leNat [] = 0 := rfl

theorem leNat_cons (b : UInt8) (bs : List UInt8) :
    leNat (b :: bs) = b.toNat + 256 * leNat bs := rfl

@[simp] theorem length_leBytes (w n : ℕ) : (leBytes w n).length = w := by
  induction w generalizing n with
  | zero => rfl
  | succ w ih => rw [leBytes_succ, List.length_cons, ih]

@[simp] theorem drop_leBytes {w i : ℕ} (n : ℕ) (h : w ≤ i) : (leBytes w n).drop i = [] :=
  List.drop_of_length_le (by rw [length_leBytes]; exact h)

/-- Reading back what was written: the low `w` bytes. -/
theorem leNat_leBytes (w n : ℕ) : leNat (leBytes w n) = n % 256 ^ w := by
  induction w generalizing n with
  | zero => simp [Nat.mod_one]
  | succ w ih =>
    have hbyte : (UInt8.ofNat n).toNat = n % 256 := UInt8.toNat_ofNat'
    rw [leBytes_succ, leNat_cons, ih, hbyte, pow_succ', Nat.mod_mul]

theorem leNat_leBytes_of_lt {w n : ℕ} (h : n < 256 ^ w) : leNat (leBytes w n) = n := by
  rw [leNat_leBytes, Nat.mod_eq_of_lt h]

/-- Writing back a word that was read. -/
theorem leBytes_leNat (bs : List UInt8) : leBytes bs.length (leNat bs) = bs := by
  induction bs with
  | nil => rfl
  | cons b bs ih =>
    have hb := b.toNat_lt
    have hlow : UInt8.ofNat (leNat (b :: bs)) = b := by
      apply UInt8.toNat_inj.mp
      rw [leNat_cons, UInt8.toNat_ofNat']
      omega
    have hhigh : leNat (b :: bs) / 256 = leNat bs := by
      rw [leNat_cons]
      omega
    rw [List.length_cons, leBytes_succ, hlow, hhigh, ih]

theorem leBytes_leNat_of_length {w : ℕ} {bs : List UInt8} (h : bs.length = w) :
    leBytes w (leNat bs) = bs := by
  rw [← h, leBytes_leNat]

/-- The bit pattern of a signed 64-bit value, as an unsigned word. -/
def i64Bits (x : ℤ) : ℕ := (BitVec.ofInt 64 x).toNat

/-- The signed 64-bit value of an unsigned word. -/
def i64OfBits (n : ℕ) : ℤ := (BitVec.ofNat 64 n).toInt

theorem i64Bits_lt (x : ℤ) : i64Bits x < 256 ^ 8 := (BitVec.ofInt 64 x).isLt

theorem i64OfBits_i64Bits {x : ℤ} (hlo : -2 ^ 63 ≤ x) (hhi : x < 2 ^ 63) :
    i64OfBits (i64Bits x) = x := by
  rw [i64OfBits, i64Bits, BitVec.ofNat_toNat, BitVec.setWidth_eq, BitVec.toInt_ofInt]
  exact Int.bmod_eq_of_le (by norm_num; omega) (by norm_num; omega)

/-! ## Readers -/

/-- Inversion of a sequenced computation that succeeds. -/
theorem except_bind_eq_ok {ε α β : Type} {x : Except ε α} {f : α → Except ε β} {b : β}
    (h : x >>= f = .ok b) : ∃ a, x = .ok a ∧ f a = .ok b := by
  cases x with
  | error e => cases h
  | ok a => exact ⟨a, rfl, h⟩

/-- A reader consumes a prefix of the bytes that are left, or fails. -/
abbrev Reader (ε : Type) := StateT (List UInt8) (Except ε)

namespace Reader

variable {ε α β : Type}

/-- The next `n` bytes, or `e` when fewer are left. -/
def bytes (e : ε) (n : ℕ) : Reader ε (List UInt8) := fun bs =>
  if bs.length < n then .error e else .ok (bs.take n, bs.drop n)

/-- The next `w`-byte little-endian word. -/
def word (e : ε) (w : ℕ) : Reader ε ℕ := leNat <$> bytes e w

/-- Fail with `e` if `bad`, without reading. -/
def failIf (bad : Prop) [Decidable bad] (e : ε) : Reader ε Unit :=
  if bad then throw e else pure ()

/-- Run a reader `n` times, in order. -/
def times (r : Reader ε α) : ℕ → Reader ε (List α)
  | 0 => pure []
  | n + 1 => do
    let a ← r
    let as ← times r n
    pure (a :: as)

/-- `r` consumes exactly `bs` and returns `a`, whatever bytes follow. -/
def Decodes (r : Reader ε α) (bs : List UInt8) (a : α) : Prop :=
  ∀ rest, r.run (bs ++ rest) = .ok (a, rest)

theorem Decodes.pure (a : α) : Decodes (pure a : Reader ε α) [] a := fun _ => rfl

theorem Decodes.bind {r : Reader ε α} {f : α → Reader ε β} {bs cs : List UInt8} {a : α} {b : β}
    (hr : Decodes r bs a) (hf : Decodes (f a) cs b) : Decodes (r >>= f) (bs ++ cs) b := by
  intro rest
  rw [StateT.run_bind, List.append_assoc, hr (cs ++ rest)]
  exact hf rest

/-- Sequencing with a reader that consumes nothing: checks between fields. -/
theorem Decodes.seq {r : Reader ε Unit} {f : Unit → Reader ε β} {cs : List UInt8} {b : β}
    (hr : Decodes r [] ()) (hf : Decodes (f ()) cs b) : Decodes (r >>= f) cs b :=
  hr.bind hf

theorem Decodes.map {r : Reader ε α} {bs : List UInt8} {a : α} (f : α → β)
    (hr : Decodes r bs a) : Decodes (f <$> r) bs (f a) := by
  intro rest
  rw [StateT.run_map, hr rest]
  rfl

theorem Decodes.bytes (e : ε) {n : ℕ} {bs : List UInt8} (h : bs.length = n) :
    Decodes (bytes e n) bs bs := by
  intro rest
  have hlen : ¬ (bs ++ rest).length < n := by
    rw [List.length_append]
    omega
  show (if (bs ++ rest).length < n then _ else _) = _
  rw [if_neg hlen, ← h, List.take_left, List.drop_left]

theorem Decodes.word (e : ε) {w n : ℕ} (h : n < 256 ^ w) :
    Decodes (word e w) (leBytes w n) n := by
  have hread := (Decodes.bytes e (length_leBytes w n)).map leNat
  rw [leNat_leBytes_of_lt h] at hread
  exact hread

theorem Decodes.failIf {bad : Prop} [Decidable bad] (e : ε) (h : ¬ bad) :
    Decodes (failIf bad e) [] () := by
  rw [Reader.failIf, if_neg h]
  exact Decodes.pure ()

/-- Repetition: if `r` decodes each `enc a` to `a`, then `times` decodes their
concatenation to the list. -/
theorem Decodes.times {r : Reader ε α} {enc : α → List UInt8} :
    ∀ {as : List α}, (∀ a ∈ as, Decodes r (enc a) a) →
      Decodes (times r as.length) (as.flatMap enc) as
  | [], _ => Decodes.pure []
  | a :: as, h => by
    have hhead := h a (List.mem_cons_self ..)
    have htail := Decodes.times fun b hb => h b (List.mem_cons_of_mem _ hb)
    have hrest : Decodes (do let as' ← Reader.times r as.length; Pure.pure (a :: as'))
        (as.flatMap enc ++ []) (a :: as) :=
      htail.bind (Decodes.pure (a :: as))
    rw [List.append_nil] at hrest
    exact hhead.bind hrest

/-! ### What a reader returns on arbitrary bytes -/

/-- Whatever `r` returns satisfies `P`. -/
def Yields (r : Reader ε α) (P : α → Prop) : Prop :=
  ∀ bs a rest, r.run bs = .ok (a, rest) → P a

theorem Yields.mono {r : Reader ε α} {P Q : α → Prop} (hr : Yields r P) (h : ∀ a, P a → Q a) :
    Yields r Q :=
  fun bs a rest hok => h a (hr bs a rest hok)

theorem Yields.trivial (r : Reader ε α) : Yields r fun _ => True := fun _ _ _ _ => True.intro

theorem Yields.pure {P : α → Prop} {a : α} (h : P a) : Yields (pure a : Reader ε α) P := by
  intro bs b rest hok
  obtain ⟨rfl, -⟩ := Prod.mk.inj (Except.ok.inj hok)
  exact h

theorem Yields.throw {P : α → Prop} (e : ε) : Yields (throw e : Reader ε α) P := by
  intro bs a rest hok
  cases hok

theorem Yields.bind {r : Reader ε α} {f : α → Reader ε β} {P : α → Prop} {Q : β → Prop}
    (hr : Yields r P) (hf : ∀ a, P a → Yields (f a) Q) : Yields (r >>= f) Q := by
  intro bs b rest hok
  rw [StateT.run_bind] at hok
  obtain ⟨⟨a, mid⟩, hfirst, hthen⟩ := except_bind_eq_ok hok
  exact hf a (hr bs a mid hfirst) mid b rest hthen

/-- A check that passes tells the rest of the reader so. -/
theorem Yields.failIf {bad : Prop} [Decidable bad] (e : ε) :
    Yields (failIf bad e) fun _ => ¬ bad := by
  rw [Reader.failIf]
  split
  · exact Yields.throw e
  · rename_i h
    exact Yields.pure h

/-- Repetition returns as many values as asked for, each as `r` returns them. -/
theorem Yields.times {r : Reader ε α} {P : α → Prop} (hr : Yields r P) :
    ∀ n, Yields (times r n) fun as => as.length = n ∧ ∀ a ∈ as, P a
  | 0 => Yields.pure ⟨rfl, by simp⟩
  | n + 1 => by
    refine hr.bind fun a ha => (Yields.times hr n).bind fun as has => Yields.pure ⟨?_, ?_⟩
    · rw [List.length_cons, has.1]
    · simpa using ⟨ha, has.2⟩

end Reader

end Unlearning
