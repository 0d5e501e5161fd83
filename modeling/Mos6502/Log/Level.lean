/-!
Levels say how important a message is and how much a log lets through. They are ordered by `rank`,
from `off`, which lets nothing through, to `trace`.
-/

set_option autoImplicit false

namespace Mos6502

/-- How important a message is, and how much a log lets through. No message has the level `off`. -/
inductive Level where
  | off
  | error
  | warn
  | info
  | debug
  | trace
  deriving DecidableEq, Repr, Inhabited

namespace Level

/-- Every level, from the one that lets nothing through to the one that lets everything through. -/
def all : List Level :=
  [.off, .error, .warn, .info, .debug, .trace]

/-- The number of a level: the larger, the more it lets through. -/
def rank : Level → Nat
  | off => 0
  | error => 1
  | warn => 2
  | info => 3
  | debug => 4
  | trace => 5

theorem rank_injective {l k : Level} (h : l.rank = k.rank) : l = k := by
  cases l <;> cases k <;> first | rfl | exact absurd h (by decide)

/-- The level with a number; a number that no level has means `off`. -/
def ofRank (n : Nat) : Level :=
  (all.find? (·.rank == n)).getD .off

/-- The name of a level. -/
def name : Level → String
  | off => "off"
  | error => "error"
  | warn => "warn"
  | info => "info"
  | debug => "debug"
  | trace => "trace"

/-- The level with exactly this name, if there is one. -/
def ofName? (name : String) : Option Level :=
  all.find? (·.name == name)

@[simp] theorem ofName?_name (l : Level) : ofName? l.name = some l := by
  cases l <;> decide

/-- A text that names no level. -/
structure Unknown where
  text : String
  deriving DecidableEq, Repr

/-- The text of the complaint about an unknown level. -/
def Unknown.message (e : Unknown) : String :=
  s!"unknown log level '{e.text}'"

/-- The level that a person's text means: a name in either case, a common short or long form of one,
or a number. -/
def parse (text : String) : Except Unknown Level :=
  match text.toLower with
  | "off" | "0" => .ok .off
  | "error" | "err" | "1" => .ok .error
  | "warn" | "warning" | "2" => .ok .warn
  | "info" | "3" => .ok .info
  | "debug" | "4" => .ok .debug
  | "trace" | "5" => .ok .trace
  | _ => .error ⟨text⟩

/-- Whether a log that is set to `limit` lets a message of this level through. -/
def allowedBy (level limit : Level) : Bool :=
  level != .off && level.rank ≤ limit.rank

end Level

end Mos6502
