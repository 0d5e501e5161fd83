import Mos6502.Log.Category

/-!
A limit on the number of messages, counted for each category on its own. Messages beyond the limit
are dropped and counted, and the count is reported: at once for the first drop of a category, and
from then on together with the next message that is admitted.
-/

set_option autoImplicit false

namespace Mos6502

/-- What a limiter remembers of a category. -/
structure Tally where
  /-- The messages admitted so far. -/
  admitted : Nat := 0
  /-- The messages dropped and not yet reported. -/
  dropped : Nat := 0
  /-- Whether drops have ever been reported. -/
  reported : Bool := false
  deriving DecidableEq, Repr, Inhabited

/-- What a limiter decides about a message. -/
structure Admission where
  admitted : Bool
  /-- The number of drops to report before anything else is written. -/
  report : Option Nat
  deriving DecidableEq, Repr

namespace Tally

/-- Decides about one message under a limit. -/
def offer (limit : Nat) (t : Tally) : Admission × Tally :=
  if t.admitted < limit then
    if t.dropped = 0 then (⟨true, none⟩, { t with admitted := t.admitted + 1 })
    else (⟨true, some t.dropped⟩, { admitted := t.admitted + 1, dropped := 0, reported := true })
  else if t.reported then (⟨false, none⟩, { t with dropped := t.dropped + 1 })
  else (⟨false, some (t.dropped + 1)⟩, { t with dropped := 0, reported := true })

end Tally

/-- A limit and what it has counted. -/
structure Limiter where
  limit : Nat
  tallies : PerCategory Tally := .all {}
  deriving DecidableEq, Repr

namespace Limiter

/-- The limit that holds until another one is set. -/
def defaultLimit : Nat := 60

/-- Decides about one message of a category. -/
def offer (category : Category) (limiter : Limiter) : Admission × Limiter :=
  let (admission, tally) := (limiter.tallies.get category).offer limiter.limit
  (admission, { limiter with tallies := limiter.tallies.set category tally })

end Limiter

end Mos6502
