import Mos6502.Log.Journal

/-!
Settings say how a journal is to behave; applying them replaces all its levels and its destination.
The rate limit changes only if the settings give one.
-/

set_option autoImplicit false

namespace Mos6502

/-- How a journal is to behave. -/
structure LogSettings where
  /-- The level of the categories that have none of their own. -/
  level : Level := .off
  cpu : Option Level := none
  interrupts : Option Level := none
  decode : Option Level := none
  /-- How many messages of a category are admitted. -/
  rateLimit : Option Nat := none
  /-- The path of a file to write to; the console if there is none. -/
  file : Option String := none
  deriving DecidableEq, Repr, Inhabited

namespace LogSettings

/-- The levels that the settings ask for. -/
def levels (s : LogSettings) : Levels where
  general := s.level
  own := ⟨s.cpu.getD .off, s.interrupts.getD .off, s.decode.getD .off⟩

/-- Applies settings to a journal. If the file cannot be opened, the levels and the limit are
changed all the same, and lines go where they went before. -/
def apply (s : LogSettings) (j : Journal) : Except OpenFault Unit × Journal :=
  let j := { j with levels := s.levels }
  let j := match s.rateLimit with
    | some limit => j.setLimit limit
    | none => j
  match s.file with
  | none => (.ok (), j.useConsole)
  | some path =>
    match j.useFile path with
    | .ok j => (.ok (), j)
    | .error fault => (.error fault, j)

end LogSettings

end Mos6502
