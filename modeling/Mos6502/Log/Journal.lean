import Mos6502.Event
import Mos6502.Log.FileStore
import Mos6502.Log.Limiter

/-!
The journal is where messages end up. It lets a message through if its level is within the limit of
its category, or within the general one if the category has none of its own; then the rate limiter
decides, and what is admitted is written as a line to the journal's destination, the console or a
file.
-/

set_option autoImplicit false

namespace Mos6502

/-- How much a log lets through: in general, and for the categories that differ from that. A
category whose own level is `off` follows the general one. -/
structure Levels where
  general : Level := .off
  own : PerCategory Level := .all .off
  deriving DecidableEq, Repr, Inhabited

namespace Levels

/-- The level that holds for a category. -/
def effective (levels : Levels) (category : Category) : Level :=
  match levels.own.get category with
  | .off => levels.general
  | own => own

/-- Whether messages of a category and level are let through. -/
def allow (levels : Levels) (category : Category) (level : Level) : Bool :=
  level.allowedBy (levels.effective category)

end Levels

/-- Where lines are written. -/
inductive Destination where
  | console
  | file (place : Place)
  deriving DecidableEq, Repr, Inhabited

/-- The state of logging, and all that has been written. -/
structure Journal where
  levels : Levels := {}
  limiter : Limiter := { limit := Limiter.defaultLimit }
  destination : Destination := .console
  console : String := ""
  store : FileStore := {}
  deriving DecidableEq, Repr

namespace Journal

/-- Sets the general level. -/
def setGeneral (level : Level) (j : Journal) : Journal :=
  { j with levels := { j.levels with general := level } }

/-- Sets the level of a category. -/
def setOwn (category : Category) (level : Level) (j : Journal) : Journal :=
  { j with levels := { j.levels with own := j.levels.own.set category level } }

/-- Sets every level to `off`. -/
def silence (j : Journal) : Journal :=
  { j with levels := {} }

/-- Sets how many messages of a category are admitted. -/
def setLimit (limit : Nat) (j : Journal) : Journal :=
  { j with limiter := { j.limiter with limit } }

/-- Writes to a file from now on. If it cannot be opened, everything stays as it is. -/
def useFile (path : String) (j : Journal) : Except OpenFault Journal := do
  let (place, store) ← j.store.openFile path
  return { j with destination := .file place, store }

/-- Writes to the console from now on. -/
def useConsole (j : Journal) : Journal :=
  { j with destination := .console }

/-- Writes a line to the destination. -/
def writeLine (line : String) (j : Journal) : Journal :=
  match j.destination with
  | .console => { j with console := j.console ++ line ++ "\n" }
  | .file place => { j with store := j.store.append place (line ++ "\n") }

/-- The line that reports drops. -/
def dropReport (category : Category) (count : Nat) : String :=
  s!"[{category.name}] WARNING: rate limit exceeded, {count} message(s) dropped"

/-- Whether a message of a category and level would be written if it came now. -/
def wouldWrite (j : Journal) (category : Category) (level : Level) : Bool :=
  j.levels.allow category level && (j.limiter.offer category).1.admitted

/-- Takes a message whose text has to be asked for. It is asked for only if it is written. -/
@[inline] def logM {m : Type → Type} [Monad m] (category : Category) (level : Level)
    (ask : Unit → m String) (j : Journal) : m Journal :=
  if j.levels.allow category level then do
    let (admission, limiter) := j.limiter.offer category
    let j := { j with limiter }
    let j :=
      match admission.report with
      | some count => j.writeLine (dropReport category count)
      | none => j
    if admission.admitted then
      let text ← ask ()
      return j.writeLine text
    else return j
  else return j

/-- Takes a message. Its text is worked out only if it is written. -/
def log (category : Category) (level : Level) (message : Unit → String) (j : Journal) : Journal :=
  Id.run (j.logM category level fun _ ↦ pure (message ()))

/-- Takes an event. -/
def record (event : Event) (j : Journal) : Journal :=
  j.log event.category event.level fun _ ↦ event.message

/-- Takes events in order. -/
def recordAll (events : List Event) (j : Journal) : Journal :=
  events.foldl (fun j event ↦ j.record event) j

/-- The journal with an empty console. -/
def clearConsole (j : Journal) : Journal :=
  { j with console := "" }

end Journal

end Mos6502
