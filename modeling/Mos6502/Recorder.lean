import Mos6502.Bus

/-!
A recorder sits between a processor and its bus and notes every access in order. It answers exactly
what the bus behind it answers.
-/

set_option autoImplicit false

namespace Mos6502

/-- One access to a bus: a byte read from an address, or a byte written to one. -/
inductive Access where
  | read (address : UInt16) (value : UInt8)
  | write (address : UInt16) (value : UInt8)
  deriving DecidableEq, Repr

/-- A bus together with the accesses made through it, the latest last. -/
structure Recorder (M : Type) where
  bus : M
  accesses : Array Access := #[]

namespace Recorder

variable {M : Type}

instance [Bus M] : Bus (Recorder M) where
  read
    | ⟨bus, accesses⟩, address =>
      let (value, bus) := Bus.read bus address
      (value, { bus, accesses := accesses.push (.read address value) })
  write recorder address value :=
    { bus := Bus.write recorder.bus address value
      accesses := recorder.accesses.push (.write address value) }

/-- Acts on the bus behind the recorder without noting anything. -/
def mapBus (f : M → M) (recorder : Recorder M) : Recorder M :=
  { recorder with bus := f recorder.bus }

end Recorder

end Mos6502
