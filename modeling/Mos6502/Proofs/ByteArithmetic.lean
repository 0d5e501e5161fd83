import Mos6502.Action
import Mathlib.Data.Nat.Digits.Lemmas

/-!
Addition and subtraction of single bytes, as arithmetic. Both take a carry and leave one, and what is
left is worth one digit of the next place: that is the law by which operations on bytes make an
operation on numbers of several bytes. `Positional` states it once, for any `Numerals` that bytes can
be read as, and there are four instances: addition and subtraction, of binary bytes, which are digits
of base 256, and of bytes in packed decimal, which are digits of base 100 (`positional_add_binary`,
`positional_subtract_binary`, `positional_add_decimal`, `positional_subtract_decimal`).

Binary bytes have a second reading in two's complement, and the overflow flag is about that one
(`Signed`, with the instances `signed_add` and `signed_subtract`).
-/

set_option autoImplicit false

namespace Mos6502

/-! ### Readings of bytes -/

/-- A way to read bytes as digits of a base. Not every byte has to be a digit. -/
structure Numerals where
  base : Nat
  IsDigit : UInt8 → Prop
  digit : UInt8 → Nat
  digit_lt : ∀ {b}, IsDigit b → digit b < base

namespace Numerals

/-- Every byte is a digit, and counts for itself. -/
def binary : Numerals where
  base := 256
  IsDigit _ := True
  digit := UInt8.toNat
  digit_lt _ := UInt8.toNat_lt _

/-- A byte is two decimal digits, the tens in its high half. -/
def packedDecimal : Numerals where
  base := 100
  IsDigit b := b.toNat / 16 ≤ 9 ∧ b.toNat % 16 ≤ 9
  digit b := b.toNat / 16 * 10 + b.toNat % 16
  digit_lt := by
    intro b hdigit
    omega

/-- The number that a list of digits stands for, the lowest digit first. -/
def value (n : Numerals) (bytes : List UInt8) : Nat :=
  Nat.ofDigits n.base (bytes.map n.digit)

@[simp] theorem value_nil (n : Numerals) : n.value [] = 0 :=
  rfl

@[simp] theorem value_cons (n : Numerals) (byte : UInt8) (rest : List UInt8) :
    n.value (byte :: rest) = n.digit byte + n.base * n.value rest :=
  Nat.ofDigits_cons ..

theorem value_binary_cons (byte : UInt8) (rest : List UInt8) :
    binary.value (byte :: rest) = byte.toNat + 256 * binary.value rest :=
  value_cons binary byte rest

theorem value_lt {n : Numerals} {bytes : List UInt8} (hdigits : ∀ byte ∈ bytes, n.IsDigit byte) :
    n.value bytes < n.base ^ bytes.length := by
  induction bytes with
  | nil => simp
  | cons byte rest ih =>
    obtain ⟨hbyte, hrest⟩ := List.forall_mem_cons.mp hdigits
    have hlow := n.digit_lt hbyte
    have hhigh : n.base * (n.value rest + 1) ≤ n.base * n.base ^ rest.length :=
      Nat.mul_le_mul_left n.base (ih hrest)
    rw [value_cons, List.length_cons, pow_succ']
    rw [Nat.mul_succ] at hhigh
    omega

end Numerals

/-- The number that `size` bytes stand for in two's complement, given the number that they stand for
without a sign. -/
def twosComplement (size value : Nat) : Int :=
  if 2 * value < 256 ^ size then value else value - 256 ^ size

/-- A number is among those that `size` bytes stand for in two's complement. -/
def FitsIn (size : Nat) (number : Int) : Prop :=
  -256 ^ size ≤ 2 * number ∧ 2 * number < 256 ^ size

/-- A byte below those of a number in two's complement is the low end of a longer one. -/
theorem twosComplement_cons {size : Nat} (hsize : size ≠ 0) (byte : UInt8) (value : Nat) :
    twosComplement (size + 1) (byte.toNat + 256 * value) =
      byte.toNat + 256 * twosComplement size value := by
  have hbyte := byte.toNat_lt
  obtain ⟨half, hhalf⟩ : 2 ∣ 256 ^ size := dvd_pow (by decide) hsize
  have hpow : (256 : Nat) ^ (size + 1) = 256 * (2 * half) := by rw [pow_succ', hhalf]
  have hcast : (256 : Int) ^ size = 2 * half := by exact_mod_cast hhalf
  rw [twosComplement, twosComplement, pow_succ' (256 : Int), hcast, hpow, hhalf]
  split <;> split <;> push_cast <;> omega

/-- Whether a number fits is decided by what stands above its lowest byte. -/
theorem fitsIn_cons {size : Nat} (hsize : size ≠ 0) (byte : UInt8) (number : Int) :
    FitsIn (size + 1) (byte.toNat + 256 * number) ↔ FitsIn size number := by
  have hbyte := byte.toNat_lt
  obtain ⟨half, hhalf⟩ : 2 ∣ 256 ^ size := dvd_pow (by decide) hsize
  have hcast : (256 : Int) ^ size = 2 * half := by exact_mod_cast hhalf
  rw [FitsIn, FitsIn, pow_succ', hcast]
  omega

/-! ### One place -/

/-- What a carry adds to a sum. -/
def carried (carry : Bool) : Nat :=
  carry.toNat

/-- What a carry that is clear takes from a difference. -/
def borrowed (carry : Bool) : Nat :=
  (!carry).toNat

/-- A computation on digits, the carry included. It adds the byte and what is pending to the
accumulator, or takes both from it if the sign is negative; the digit that it leaves there, and what
is pending for the next place, make the same number. -/
structure Positional (n : Numerals) (decimal : Bool) (compute : ByteOp) (sign : Int)
    (pending : Bool → Nat) : Prop where
  isDigit : ∀ {mode : Bool} {r : Registers} {m : UInt8}, (mode && r.flags.d) = decimal →
    n.IsDigit r.a → n.IsDigit m → n.IsDigit (compute mode r m).a
  place : ∀ {mode : Bool} {r : Registers} {m : UInt8}, (mode && r.flags.d) = decimal →
    n.IsDigit r.a → n.IsDigit m →
    (n.digit r.a : Int) + sign * (n.digit m + pending r.flags.c) =
      n.digit (compute mode r m).a + n.base * (sign * pending (compute mode r m).flags.c)

/-- A computation says with the overflow flag that its result, in two's complement, does not fit into
the byte that it leaves. -/
def Signed (compute : ByteOp) (sign : Int) (pending : Bool → Nat) : Prop :=
  ∀ {mode : Bool} {r : Registers} {m : UInt8}, (mode && r.flags.d) = false →
    ((compute mode r m).flags.v = true ↔
      ¬ FitsIn 1 (twosComplement 1 r.a.toNat +
        sign * (twosComplement 1 m.toNat + pending r.flags.c)))

theorem isNegative_eq_decide (b : UInt8) : isNegative b = decide (128 ≤ b.toNat) := by
  rw [isNegative, decide_eq_decide, UInt8.le_iff_toNat_le]
  rfl

/-! ### Binary bytes -/

namespace Registers

theorem add_of_binary {mode : Bool} {r : Registers} (hbinary : (mode && r.flags.d) = false)
    (m : UInt8) : r.add mode m = r.addBinary m := by
  rw [add, hbinary, if_neg Bool.false_ne_true]

theorem sum_addBinary (r : Registers) (m : UInt8) :
    r.a.toNat + m.toNat + carried r.flags.c =
      (r.addBinary m).a.toNat + 256 * carried (r.addBinary m).flags.c := by
  have ha := r.a.toNat_lt
  have hm := m.toNat_lt
  have hc := Bool.toNat_lt r.flags.c
  simp only [addBinary, Flags.setZN, UInt8.toNat_ofNat', carried]
  by_cases hcarry : 255 < r.a.toNat + m.toNat + r.flags.c.toNat
  · simp only [hcarry, decide_true, Bool.toNat_true]
    omega
  · simp only [hcarry, decide_false, Bool.toNat_false]
    omega

theorem difference_subtract {mode : Bool} {r : Registers} (hbinary : (mode && r.flags.d) = false)
    (m : UInt8) :
    r.a.toNat + 256 * borrowed (r.subtract mode m).flags.c =
      (r.subtract mode m).a.toNat + m.toNat + borrowed r.flags.c := by
  have ha := r.a.toNat_lt
  have hm := m.toNat_lt
  have hborrow : 1 - r.flags.c.toNat = borrowed r.flags.c := by cases r.flags.c <;> rfl
  have hone : borrowed r.flags.c < 2 := Bool.toNat_lt _
  simp only [subtract, Flags.setZN, hbinary, hborrow, Bool.false_eq_true, if_false,
    UInt8.toNat_ofNat']
  generalize borrowed r.flags.c = taken at hone ⊢
  by_cases hcarry : m.toNat + taken ≤ r.a.toNat
  · simp only [hcarry, decide_true, borrowed, Bool.not_true, Bool.toNat_false]
    omega
  · simp only [hcarry, decide_false, borrowed, Bool.not_false, Bool.toNat_true]
    omega

theorem positional_add_binary : Positional .binary false .add 1 carried where
  isDigit _ _ _ := trivial
  place {mode r m} hbinary _ _ := by
    have hsum := r.sum_addBinary m
    simp only [Numerals.binary, add_of_binary hbinary]
    omega

theorem positional_subtract_binary : Positional .binary false .subtract (-1) borrowed where
  isDigit _ _ _ := trivial
  place {mode r m} hbinary _ _ := by
    have hdifference := difference_subtract hbinary m
    simp only [Numerals.binary]
    omega

theorem signed_add : Signed .add 1 carried := by
  intro mode r m hbinary
  rw [add_of_binary hbinary]
  have ha := r.a.toNat_lt
  have hm := m.toNat_lt
  have hsum := r.sum_addBinary m
  have hc : carried r.flags.c < 2 := Bool.toNat_lt _
  have hresult := (r.addBinary m).a.toNat_lt
  have hcarry : carried (r.addBinary m).flags.c < 2 := Bool.toNat_lt _
  have hv : (r.addBinary m).flags.v = (isNegative r.a == isNegative m &&
      isNegative r.a != isNegative (r.addBinary m).a) := rfl
  -- Each sign is a comparison with 128, so what is left is linear in the three bytes.
  simp only [hv, isNegative_eq_decide, FitsIn, twosComplement, pow_one]
  grind

theorem signed_subtract : Signed .subtract (-1) borrowed := by
  intro mode r m hbinary
  have ha := r.a.toNat_lt
  have hm := m.toNat_lt
  have hdifference := difference_subtract hbinary m
  have hc : borrowed r.flags.c < 2 := Bool.toNat_lt _
  have hresult := (r.subtract mode m).a.toNat_lt
  have hcarry : borrowed (r.subtract mode m).flags.c < 2 := Bool.toNat_lt _
  have hv : (r.subtract mode m).flags.v = (isNegative r.a != isNegative m &&
      isNegative r.a != isNegative (r.subtract mode m).a) := by
    simp [subtract, Flags.setZN, hbinary]
  simp only [hv, isNegative_eq_decide, FitsIn, twosComplement, pow_one]
  grind

end Registers

/-! ### Packed decimal -/

/-- A sum of two digits that is above nine is corrected by adding six: that leaves a digit, and
carries. -/
theorem exists_lowDigit_sum {a m carry : Nat} (ha : a ≤ 9) (hm : m ≤ 9) (hcarry : carry ≤ 1) :
    ∃ low ≤ 9, ∃ up ≤ 1, a + m + carry = 10 * up + low ∧
      (if 10 ≤ a + m + carry then (a + m + carry + 6) % 16 + 16 else a + m + carry) =
        16 * up + low := by
  by_cases habove : 10 ≤ a + m + carry
  · refine ⟨a + m + carry - 10, by omega, 1, by omega, by omega, ?_⟩
    rw [if_pos habove]
    omega
  · refine ⟨a + m + carry, by omega, 0, by omega, by omega, ?_⟩
    rw [if_neg habove]
    omega

/-- A difference of two digits that is negative is corrected by taking six: that leaves a digit, and
borrows. -/
theorem exists_lowDigit_difference {a m carry : Nat} (ha : a ≤ 9) (hm : m ≤ 9) (hcarry : carry ≤ 1) :
    ∃ low down : Nat, low ≤ 9 ∧ down ≤ 1 ∧ a + 10 * down = low + m + (1 - carry) ∧
      (if (a - m + carry - 1 : Int) < 0 then (a - m + carry - 1 - 6 : Int) % 16 - 16
        else a - m + carry - 1) = (low : Int) - 16 * (down : Int) := by
  by_cases hnegative : (a - m + carry - 1 : Int) < 0
  · refine ⟨a + 10 + carry - 1 - m, 1, by omega, by omega, by omega, ?_⟩
    rw [if_pos hnegative]
    omega
  · refine ⟨a + carry - 1 - m, 0, by omega, by omega, by omega, ?_⟩
    rw [if_neg hnegative]
    omega

/-- The sum of two decimal bytes has two decimal digits and a carry. -/
theorem exists_decimalSum_eq {a m : UInt8} (ha : Numerals.packedDecimal.IsDigit a)
    (hm : Numerals.packedDecimal.IsDigit m) (carry : Bool) :
    ∃ low ≤ 9, ∃ high ≤ 9, ∃ out ≤ 1,
      (decimalSum a m carry).1 = 256 * out + 16 * high + low ∧
        100 * out + 10 * high + low =
          Numerals.packedDecimal.digit a + Numerals.packedDecimal.digit m + carried carry := by
  obtain ⟨hahigh, halow⟩ := ha
  obtain ⟨hmhigh, hmlow⟩ := hm
  obtain ⟨low, hlow, up, hup, hdigits, hcorrected⟩ :=
    exists_lowDigit_sum halow hmlow (Bool.toNat_le carry)
  simp only [decimalSum, Numerals.packedDecimal, carried, hcorrected]
  split
  · exact ⟨low, hlow, a.toNat / 16 + m.toNat / 16 + up - 10, by omega, 1, by omega, by omega,
      by omega⟩
  · exact ⟨low, hlow, a.toNat / 16 + m.toNat / 16 + up, by omega, 0, by omega, by omega, by omega⟩

/-- The difference of two decimal bytes has two decimal digits. It is a hundred too much if the
bytes, compared as binary ones, leave a borrow. -/
theorem exists_decimalDifference_eq {a m : UInt8} (ha : Numerals.packedDecimal.IsDigit a)
    (hm : Numerals.packedDecimal.IsDigit m) (carry : Bool) :
    ∃ low ≤ 9, ∃ high ≤ 9,
      (decimalDifference a m carry).toNat = 16 * high + low ∧
        10 * high + low + Numerals.packedDecimal.digit m + borrowed carry =
          Numerals.packedDecimal.digit a +
            100 * borrowed (decide (m.toNat + (1 - carry.toNat) ≤ a.toNat)) := by
  obtain ⟨hahigh, halow⟩ := ha
  obtain ⟨hmhigh, hmlow⟩ := hm
  obtain ⟨low, down, hlow, hdown, hdigits, hcorrected⟩ :=
    exists_lowDigit_difference halow hmlow (Bool.toNat_le carry)
  have hborrow : borrowed carry = 1 - carry.toNat := by cases carry <;> rfl
  simp only [decimalDifference, Numerals.packedDecimal, hborrow, hcorrected, UInt8.toNat_ofNat']
  -- The bytes borrow as binary ones exactly if their difference before the last correction is
  -- negative: the digits of a decimal byte are in the order of the byte.
  by_cases hle : m.toNat + (1 - carry.toNat) ≤ a.toNat
  · rw [decide_eq_true hle, show borrowed true = 0 from rfl, if_neg (by omega)]
    exact ⟨low, hlow, a.toNat / 16 - m.toNat / 16 - down, by omega, by omega, by omega⟩
  · rw [decide_eq_false hle, show borrowed false = 1 from rfl, if_pos (by omega)]
    exact ⟨low, hlow, a.toNat / 16 + 10 - m.toNat / 16 - down, by omega, by omega, by omega⟩

/-- A byte whose halves are at most nine is the digit that they make. -/
theorem Numerals.packedDecimal_of_toNat {b : UInt8} {high low : Nat} (hhigh : high ≤ 9)
    (hlow : low ≤ 9) (hb : b.toNat = 16 * high + low) :
    packedDecimal.IsDigit b ∧ packedDecimal.digit b = 10 * high + low := by
  simp only [packedDecimal]
  omega

namespace Registers

theorem add_of_decimal {mode : Bool} {r : Registers} (hdecimal : (mode && r.flags.d) = true)
    (m : UInt8) : r.add mode m = r.addDecimal m := by
  rw [add, if_pos hdecimal]

theorem sum_addDecimal {r : Registers} {m : UInt8} (ha : Numerals.packedDecimal.IsDigit r.a)
    (hm : Numerals.packedDecimal.IsDigit m) :
    Numerals.packedDecimal.IsDigit (r.addDecimal m).a ∧
      Numerals.packedDecimal.digit r.a + Numerals.packedDecimal.digit m + carried r.flags.c =
        Numerals.packedDecimal.digit (r.addDecimal m).a +
          100 * carried (r.addDecimal m).flags.c := by
  obtain ⟨low, hlow, high, hhigh, out, hout, hcorrected, hsum⟩ :=
    exists_decimalSum_eq ha hm r.flags.c
  have hbyte : (r.addDecimal m).a.toNat = 16 * high + low := by
    simp only [addDecimal, hcorrected, UInt8.toNat_ofNat']
    omega
  have hcarry : carried (r.addDecimal m).flags.c = out := by
    simp only [addDecimal, hcorrected, carried]
    obtain rfl | rfl : out = 0 ∨ out = 1 := by omega
    · rw [decide_eq_false (by omega)]
      rfl
    · rw [decide_eq_true (by omega)]
      rfl
  obtain ⟨hdigit, hvalue⟩ := Numerals.packedDecimal_of_toNat hhigh hlow hbyte
  exact ⟨hdigit, by omega⟩

theorem difference_subtract_of_decimal {mode : Bool} {r : Registers} {m : UInt8}
    (hdecimal : (mode && r.flags.d) = true) (ha : Numerals.packedDecimal.IsDigit r.a)
    (hm : Numerals.packedDecimal.IsDigit m) :
    Numerals.packedDecimal.IsDigit (r.subtract mode m).a ∧
      Numerals.packedDecimal.digit r.a + 100 * borrowed (r.subtract mode m).flags.c =
        Numerals.packedDecimal.digit (r.subtract mode m).a + Numerals.packedDecimal.digit m +
          borrowed r.flags.c := by
  obtain ⟨low, hlow, high, hhigh, hdifference, hvalues⟩ :=
    exists_decimalDifference_eq ha hm r.flags.c
  have hbyte : (r.subtract mode m).a.toNat = 16 * high + low := by
    rw [← hdifference, subtract, if_pos hdecimal]
  obtain ⟨hdigit, hvalue⟩ := Numerals.packedDecimal_of_toNat hhigh hlow hbyte
  refine ⟨hdigit, ?_⟩
  simp only [subtract, Flags.setZN] at hvalue ⊢
  omega

theorem positional_add_decimal : Positional .packedDecimal true .add 1 carried where
  isDigit {mode r m} hdecimal ha hm := by
    rw [add_of_decimal hdecimal]
    exact (sum_addDecimal ha hm).1
  place {mode r m} hdecimal ha hm := by
    have hsum := (sum_addDecimal ha hm).2
    rw [add_of_decimal hdecimal, show Numerals.packedDecimal.base = 100 from rfl]
    omega

theorem positional_subtract_decimal : Positional .packedDecimal true .subtract (-1) borrowed where
  isDigit hdecimal ha hm := (difference_subtract_of_decimal hdecimal ha hm).1
  place {mode r m} hdecimal ha hm := by
    have hdifference := (difference_subtract_of_decimal hdecimal ha hm).2
    rw [show Numerals.packedDecimal.base = 100 from rfl]
    omega

end Registers

end Mos6502
