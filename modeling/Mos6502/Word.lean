/-!
Bytes and words. An address or a pointer is a word of sixteen bits; the bus carries bytes, so a word
travels as a low and a high byte, and the high byte names the page the word lies on. The lemmas say
that the two bytes determine the word and that the word determines the two bytes.
-/

set_option autoImplicit false

namespace Mos6502

/-- The word with the given low and high byte. -/
def word (low high : UInt8) : UInt16 :=
  UInt16.ofNat (high.toNat * 256 + low.toNat)

/-- The low byte of a word. -/
def lowByte (w : UInt16) : UInt8 :=
  UInt8.ofNat w.toNat

/-- The high byte of a word, which is the page that it lies on. -/
def highByte (w : UInt16) : UInt8 :=
  UInt8.ofNat (w.toNat / 256)

/-- The word that a byte stands for as a signed offset: bytes from `0x80` up count backwards. -/
def signExtend (b : UInt8) : UInt16 :=
  if b < 0x80 then word b 0 else word b 0xFF

/-- The next address on the same page: only the low byte moves, from `0xFF` back to `0x00`. -/
def nextOnPage (w : UInt16) : UInt16 :=
  word (lowByte w + 1) (highByte w)

@[simp] theorem toNat_word (low high : UInt8) :
    (word low high).toNat = high.toNat * 256 + low.toNat := by
  have hl := low.toNat_lt
  have hh := high.toNat_lt
  exact UInt16.toNat_ofNat_of_lt (by simp [UInt16.size]; omega)

@[simp] theorem toNat_lowByte (w : UInt16) : (lowByte w).toNat = w.toNat % 256 := by
  simp [lowByte]

@[simp] theorem toNat_highByte (w : UInt16) : (highByte w).toNat = w.toNat / 256 := by
  have h := w.toNat_lt
  simp only [highByte, UInt8.toNat_ofNat']
  omega

@[simp] theorem lowByte_word (low high : UInt8) : lowByte (word low high) = low := by
  apply UInt8.toNat_inj.mp
  have := low.toNat_lt
  rw [toNat_lowByte, toNat_word]
  omega

@[simp] theorem highByte_word (low high : UInt8) : highByte (word low high) = high := by
  apply UInt8.toNat_inj.mp
  have := low.toNat_lt
  rw [toNat_highByte, toNat_word]
  omega

@[simp] theorem word_lowByte_highByte (w : UInt16) : word (lowByte w) (highByte w) = w := by
  apply UInt16.toNat_inj.mp
  rw [toNat_word, toNat_lowByte, toNat_highByte]
  omega

end Mos6502
