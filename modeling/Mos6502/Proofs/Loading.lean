import Mathlib.Data.List.Induction
import Mos6502.Cpu

/-!
Programs placed in memory. Bytes are placed one after the other from an offset upwards, and from the
last address they go on at the first, so a long program comes back to addresses that it has already
been placed at. An address then holds the last byte that falls on it, and the addresses that no byte
falls on keep what they held (`Ram.get_load`, by induction on the program from its end, because the
last byte that is placed is placed over all the others).

The reset vector is set afterwards, over whatever the program has there, and a processor that is
switched on starts at the program.
-/

set_option autoImplicit false

namespace Mos6502

/-- The byte with this index falls on an address, if bytes are placed from `offset` upwards. -/
def FallsOn (offset : UInt16) (index : Nat) (address : UInt16) : Prop :=
  (offset.toNat + index) % 65536 = address.toNat

theorem fallsOn_iff {offset address : UInt16} {index : Nat} :
    FallsOn offset index address ↔ address = offset + UInt16.ofNat index := by
  have hsum : (offset + UInt16.ofNat index).toNat = (offset.toNat + index) % 65536 := by simp
  rw [FallsOn, ← UInt16.toNat_inj, hsum, eq_comm]

/-- An index of a program is the last one whose byte falls on an address. -/
structure IsLastOn (offset : UInt16) (program : List UInt8) (address : UInt16) (index : Nat) :
    Prop where
  lt_length : index < program.length
  fallsOn : FallsOn offset index address
  not_later : ∀ later, index < later → later < program.length → ¬FallsOn offset later address

/-- A byte at the end of a program is the last one on its address. -/
theorem isLastOn_concat_self {offset address : UInt16} {program : List UInt8}
    (hfalls : FallsOn offset program.length address) (byte : UInt8) :
    IsLastOn offset (program ++ [byte]) address program.length where
  lt_length := by simp
  fallsOn := hfalls
  not_later later hlater hlength := by
    rw [List.length_append, List.length_singleton] at hlength
    omega

/-- A byte at the end of a program changes nothing for the addresses that it does not fall on. -/
theorem IsLastOn.concat {offset address : UInt16} {program : List UInt8} {index : Nat}
    (hlast : IsLastOn offset program address index)
    (hfalls : ¬FallsOn offset program.length address) (byte : UInt8) :
    IsLastOn offset (program ++ [byte]) address index where
  lt_length := by
    rw [List.length_append, List.length_singleton]
    exact Nat.lt_succ_of_lt hlast.lt_length
  fallsOn := hlast.fallsOn
  not_later later hlater hlength := by
    rw [List.length_append, List.length_singleton] at hlength
    obtain hearlier | rfl := Nat.lt_succ_iff_lt_or_eq.mp hlength
    · exact hlast.not_later later hlater hearlier
    · exact hfalls

namespace Ram

theorem load_append (ram : Ram) (offset : UInt16) (first second : List UInt8) :
    ram.load offset (first ++ second) =
      (ram.load offset first).load (offset + UInt16.ofNat first.length) second := by
  induction first generalizing ram offset with
  | nil => simp [load]
  | cons byte rest ih =>
    have hnext : offset + 1 + UInt16.ofNat rest.length =
        offset + UInt16.ofNat (rest.length + 1) := by
      rw [UInt16.ofNat_add, UInt16.add_assoc, UInt16.add_comm 1]
      rfl
    rw [List.cons_append, load, ih, hnext]
    rfl

/-- After bytes have been placed, an address holds the last of them that falls on it, or what it held
before if none does. -/
theorem get_load (ram : Ram) (offset : UInt16) (bytes : List UInt8) (address : UInt16) :
    (∃ index, IsLastOn offset bytes address index ∧
      bytes[index]? = some ((ram.load offset bytes).get address)) ∨
    ((∀ index < bytes.length, ¬FallsOn offset index address) ∧
      (ram.load offset bytes).get address = ram.get address) := by
  induction bytes using List.reverseRecOn with
  | nil => exact Or.inr ⟨nofun, rfl⟩
  | append_singleton rest byte ih =>
    have hload : (ram.load offset (rest ++ [byte])).get address =
        if address = offset + UInt16.ofNat rest.length then byte
        else (ram.load offset rest).get address := by
      rw [load_append, load, load, get_set]
    by_cases hfalls : FallsOn offset rest.length address
    · refine Or.inl ⟨rest.length, isLastOn_concat_self hfalls byte, ?_⟩
      rw [hload, if_pos (fallsOn_iff.mp hfalls), List.getElem?_concat_length]
    · rw [hload, if_neg fun hsame ↦ hfalls (fallsOn_iff.mpr hsame)]
      obtain ⟨index, hlast, hbyte⟩ | ⟨hnone, hkept⟩ := ih
      · refine Or.inl ⟨index, hlast.concat hfalls byte, ?_⟩
        rw [List.getElem?_append_left hlast.lt_length, hbyte]
      · refine Or.inr ⟨fun index hindex ↦ ?_, hkept⟩
        rw [List.length_append, List.length_singleton] at hindex
        obtain hearlier | rfl := Nat.lt_succ_iff_lt_or_eq.mp hindex
        · exact hnone index hearlier
        · exact hfalls

theorem get_setWord (ram : Ram) (address value other : UInt16) :
    (ram.setWord address value).get other =
      if other = address + 1 then highByte value
      else if other = address then lowByte value
      else ram.get other := by
  have hwrite : ram.setWord address value =
      (ram.set address (lowByte value)).set (address + 1) (highByte value) := rfl
  rw [hwrite, get_set, get_set]

/-- A word that has been set is read back. -/
theorem readWord_setWord (ram : Ram) (address value : UInt16) :
    (Bus.readWord (ram.setWord address value) address).1 = value := by
  have hnext : address ≠ address + 1 := by grind
  have hlow : (ram.setWord address value).get address = lowByte value := by
    rw [get_setWord, if_neg hnext, if_pos rfl]
  have hhigh : (ram.setWord address value).get (address + 1) = highByte value := by
    rw [get_setWord, if_pos rfl]
  calc (Bus.readWord (ram.setWord address value) address).1
      = word ((ram.setWord address value).get address)
          ((ram.setWord address value).get (address + 1)) := rfl
    _ = value := by rw [hlow, hhigh, word_lowByte_highByte]

/-- Where a program comes to lie. Whatever its offset, its length and the memory before are, afterwards
the reset vector is the offset; every other address holds the last byte of the program that falls on
it, or what it held before if no byte falls on it; and a processor that is switched on starts at the
offset. -/
theorem loadProgram_places_program (ram : Ram) (offset : UInt16) (program : List UInt8)
    (options : Options) :
    let loaded := ram.loadProgram offset program
    (Bus.readWord loaded 0xFFFC).1 = offset ∧
    (∀ address, address ≠ 0xFFFC → address ≠ 0xFFFD →
      (∃ index, IsLastOn offset program address index ∧
        program[index]? = some (loaded.get address)) ∨
      ((∀ index < program.length, ¬FallsOn offset index address) ∧
        loaded.get address = ram.get address)) ∧
    (Machine.powerOn options loaded).cpu.pc = offset := by
  intro loaded
  have hvector : (Bus.readWord loaded resetVector).1 = offset :=
    (ram.load offset program).readWord_setWord resetVector offset
  refine ⟨hvector, fun address hlow hhigh ↦ ?_, hvector⟩
  have helsewhere : loaded.get address = (ram.load offset program).get address :=
    ((ram.load offset program).get_setWord resetVector offset address).trans
      ((if_neg hhigh).trans (if_neg hlow))
  rw [helsewhere]
  exact ram.get_load offset program address

end Ram

end Mos6502
