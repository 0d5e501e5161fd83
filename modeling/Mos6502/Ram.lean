import Mos6502.Bus

/-!
Plain memory: one byte for each of the 65536 addresses. As a bus it is a `CellBus` without protected
cells. Programs are placed byte after byte, wrapping from the last address to the first, and placing
a program points the reset vector at it.
-/

set_option autoImplicit false

namespace Mos6502

/-- Where the processor finds the address of its non-maskable interrupt handler. -/
def nmiVector : UInt16 := 0xFFFA

/-- Where the processor finds the address to start from. -/
def resetVector : UInt16 := 0xFFFC

/-- Where the processor finds the address of its interrupt and break handler. -/
def irqVector : UInt16 := 0xFFFE

/-- A full address space of bytes. -/
structure Ram where
  cells : Vector UInt8 UInt16.size

namespace Ram

/-- Memory that holds zero everywhere. -/
def blank : Ram :=
  ⟨Vector.replicate UInt16.size 0⟩

instance : Inhabited Ram := ⟨blank⟩

/-- The byte at an address. -/
@[inline] def get (ram : Ram) (address : UInt16) : UInt8 :=
  ram.cells[address.toFin]

/-- Memory with one byte replaced. -/
@[inline] def set (ram : Ram) (address : UInt16) (value : UInt8) : Ram :=
  ⟨ram.cells.set address.toFin value address.toFin.isLt⟩

theorem get_set (ram : Ram) (address other : UInt16) (value : UInt8) :
    (ram.set address value).get other = if other = address then value else ram.get other := by
  simp only [get, set, Fin.getElem_fin, Vector.getElem_set, Fin.val_inj, UInt16.toFin_inj,
    eq_comm (a := other)]

@[simp] theorem get_blank (address : UInt16) : blank.get address = 0 := by
  simp [get, blank]

instance : CellBus Ram where
  read ram address := (ram.get address, ram)
  write := set
  peek := get
  read_eq _ _ := rfl
  guarded _ _ := false
  peek_write ram address value other := by simp [get_set]
  guarded_write _ _ _ _ := rfl

/-- Places bytes from an address upwards; a later byte replaces an earlier one that it wraps
onto. -/
def load (ram : Ram) (offset : UInt16) : List UInt8 → Ram
  | [] => ram
  | byte :: rest => (ram.set offset byte).load (offset + 1) rest

/-- Replaces the word at an address, low byte first. -/
def setWord (ram : Ram) (address value : UInt16) : Ram :=
  Bus.writeWord ram address value

/-- Places a program and then points the reset vector at its first byte. -/
def loadProgram (ram : Ram) (offset : UInt16) (program : List UInt8) : Ram :=
  (ram.load offset program).setWord resetVector offset

/-- The bytes from an address upwards. -/
def bytes (ram : Ram) (address : UInt16) (count : Nat) : List UInt8 :=
  (List.range count).map fun i ↦ ram.get (address + UInt16.ofNat i)

end Ram

end Mos6502
