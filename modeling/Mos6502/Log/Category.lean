/-!
Categories say what a message is about. Each has limits and counts of its own, kept as a value per
category.
-/

set_option autoImplicit false

namespace Mos6502

/-- What a message is about. -/
inductive Category where
  /-- Resets, executed instructions and jumps that go nowhere. -/
  | cpu
  /-- Interrupts serviced, breaks, and returns from handlers. -/
  | interrupts
  /-- Illegal opcodes. -/
  | decode
  deriving DecidableEq, Repr, Inhabited

namespace Category

/-- Every category. -/
def all : List Category :=
  [.cpu, .interrupts, .decode]

/-- The name of a category. -/
def name : Category → String
  | cpu => "Cpu"
  | interrupts => "Interrupts"
  | decode => "Decode"

end Category

/-- A value for each category. -/
structure PerCategory (α : Type) where
  cpu : α
  interrupts : α
  decode : α
  deriving DecidableEq, Repr, Inhabited

namespace PerCategory

variable {α : Type}

/-- The same value for every category. -/
def all (value : α) : PerCategory α :=
  ⟨value, value, value⟩

/-- The value for a category. -/
def get (p : PerCategory α) : Category → α
  | .cpu => p.cpu
  | .interrupts => p.interrupts
  | .decode => p.decode

/-- Replaces the value for a category. -/
def set (p : PerCategory α) (category : Category) (value : α) : PerCategory α :=
  match category with
  | .cpu => { p with cpu := value }
  | .interrupts => { p with interrupts := value }
  | .decode => { p with decode := value }

@[simp] theorem get_set (p : PerCategory α) (c k : Category) (value : α) :
    (p.set c value).get k = if k = c then value else p.get k := by
  cases c <;> cases k <;> rfl

end PerCategory

end Mos6502
