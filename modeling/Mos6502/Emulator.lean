import Mos6502.Log.Settings
import Mos6502.SaveState
import Mos6502.Step

/-!
An emulator: a machine together with the journal that takes its events. `Emulator.run` spends a
budget of cycles, stalls first; `Processor.run` does so for anything that can be stepped and knows
no stalls. Both end because every step costs something.
-/

set_option autoImplicit false

namespace Mos6502

/-- Something that executes instructions and can be reset. -/
class Processor (S : Type) where
  /-- Executes one instruction, or services one interrupt. -/
  step : S → Except Fault Cost × S
  /-- Starts again. -/
  reset : S → S

namespace Processor

variable {S : Type} [Processor S]

/-- Steps until the budget is spent; `spent` cycles have been spent before. -/
def runFrom (spent budget : Nat) (s : S) : Except Fault Nat × S :=
  if budget = 0 then (.ok spent, s)
  else
    match step s with
    | (.ok cost, s) => runFrom (spent + cost.val) (budget - cost.val) s
    | (.error fault, s) => (.error fault, s)
termination_by budget
decreasing_by
  have := cost.property
  omega

@[simp] theorem runFrom_zero (spent : Nat) (s : S) : runFrom spent 0 s = (.ok spent, s) := by
  rw [runFrom, if_pos rfl]

/-- A run goes on after a step that succeeds. -/
theorem runFrom_of_ok {spent budget : Nat} {s : S} {cost : Cost} (hbudget : budget ≠ 0)
    (hok : (step s).1 = .ok cost) :
    runFrom spent budget s = runFrom (spent + cost.val) (budget - cost.val) (step s).2 := by
  have hstep : step s = (.ok cost, (step s).2) := Prod.ext hok rfl
  rw [runFrom, if_neg hbudget]
  rw [hstep]

/-- A run ends at a step that fails. -/
theorem runFrom_of_error {spent budget : Nat} {s : S} {fault : Fault} (hbudget : budget ≠ 0)
    (herror : (step s).1 = .error fault) :
    runFrom spent budget s = (.error fault, (step s).2) := by
  have hstep : step s = (.error fault, (step s).2) := Prod.ext herror rfl
  rw [runFrom, if_neg hbudget]
  rw [hstep]

/-- Steps until at least `budget` cycles have been spent, and says how many were. -/
def run (budget : Nat) (s : S) : Except Fault Nat × S :=
  runFrom 0 budget s

end Processor

/-- A machine and the journal that takes its events. -/
structure Emulator (M : Type) where
  machine : Machine M
  journal : Journal

namespace Emulator

variable {M : Type}

/-- Changes the machine. -/
@[inline] def mapMachine {N : Type} (f : Machine M → Machine N) : Emulator M → Emulator N
  | ⟨machine, journal⟩ => ⟨f machine, journal⟩

/-- Whether the next traced instruction would be written. -/
def watched (s : Emulator M) : Bool :=
  s.machine.cpu.options.trace && s.journal.wouldWrite .cpu .trace

/-- Spends queued stall cycles. -/
def burn (cycles : UInt64) (s : Emulator M) : Emulator M :=
  s.mapMachine (·.mapState (.burnStall cycles))

variable [Bus M]

/-- An emulator switched on. -/
def powerOn (options : Options) (journal : Journal) (mem : M) : Emulator M :=
  ⟨.powerOn options mem, journal⟩

/-- Resets the machine, which is an event. -/
def reset (s : Emulator M) : Emulator M :=
  let ⟨machine, journal⟩ := s
  let machine := machine.reset
  ⟨machine, journal.record (.reset machine.cpu.pc)⟩

/-- Steps the machine, and takes its events. -/
def step (s : Emulator M) : Except Fault Cost × Emulator M :=
  let watch := s.watched
  let ⟨machine, journal⟩ := s
  let ⟨result, machine, events⟩ := machine.step watch
  (result, ⟨machine, journal.recordAll events⟩)

@[simp] theorem fst_step (s : Emulator M) : s.step.1 = (s.machine.step s.watched).result :=
  rfl

@[simp] theorem machine_step (s : Emulator M) :
    s.step.2.machine = (s.machine.step s.watched).machine :=
  rfl

instance : Processor (Emulator M) where
  step := step
  reset := reset

/-- Burns stall cycles or steps until the budget is spent; `spent` cycles have been spent before. -/
def runFrom (spent budget : Nat) (s : Emulator M) : Except Fault Nat × Emulator M :=
  if budget = 0 then (.ok spent, s)
  else
    let stall := s.machine.cpu.stall.toNat
    if stall = 0 then
      match s.step with
      | (.ok cost, s) => runFrom (spent + cost.val) (budget - cost.val) s
      | (.error fault, s) => (.error fault, s)
    else
      let burned := min stall budget
      runFrom (spent + burned) (budget - burned) (s.burn (UInt64.ofNat burned))
termination_by budget
decreasing_by
  · have := cost.property
    omega
  · omega

@[simp] theorem runFrom_zero (spent : Nat) (s : Emulator M) :
    s.runFrom spent 0 = (.ok spent, s) := by
  rw [runFrom, if_pos rfl]

/-- With nothing queued, a run goes on after a step that succeeds. -/
theorem runFrom_of_ok {spent budget : Nat} {s : Emulator M} {cost : Cost} (hbudget : budget ≠ 0)
    (hstall : s.machine.cpu.stall.toNat = 0) (hok : s.step.1 = .ok cost) :
    s.runFrom spent budget = s.step.2.runFrom (spent + cost.val) (budget - cost.val) := by
  have hstep : s.step = (.ok cost, s.step.2) := Prod.ext hok rfl
  rw [runFrom, if_neg hbudget]
  simp only [hstall, if_true]
  rw [hstep]

/-- With nothing queued, a run ends at a step that fails. -/
theorem runFrom_of_error {spent budget : Nat} {s : Emulator M} {fault : Fault}
    (hbudget : budget ≠ 0) (hstall : s.machine.cpu.stall.toNat = 0)
    (herror : s.step.1 = .error fault) :
    s.runFrom spent budget = (.error fault, s.step.2) := by
  have hstep : s.step = (.error fault, s.step.2) := Prod.ext herror rfl
  rw [runFrom, if_neg hbudget]
  simp only [hstall, if_true]
  rw [hstep]

/-- Queued stall cycles are burned first, as many as the budget allows. -/
theorem runFrom_of_stall {spent budget : Nat} {s : Emulator M} (hbudget : budget ≠ 0)
    (hstall : s.machine.cpu.stall.toNat ≠ 0) :
    let burned := min s.machine.cpu.stall.toNat budget
    s.runFrom spent budget =
      (s.burn (UInt64.ofNat burned)).runFrom (spent + burned) (budget - burned) := by
  rw [runFrom, if_neg hbudget]
  simp only [hstall, if_false]

/-- Runs until at least `budget` cycles have been spent, and says how many were. Queued stall cycles
are spent before instructions are executed. -/
def run (budget : Nat) (s : Emulator M) : Except Fault Nat × Emulator M :=
  runFrom 0 budget s

/-- Loads a saved state. If it cannot be loaded, nothing changes. -/
def load (saved : Json.Value) (s : Emulator M) : Except State.LoadFault Unit × Emulator M :=
  match State.load saved with
  | .ok state => (.ok (), s.mapMachine (.restore state))
  | .error fault => (.error fault, s)

end Emulator

end Mos6502
