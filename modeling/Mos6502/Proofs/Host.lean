import Mos6502.Emulator

/-!
What a host can do with an emulator. A `Command` is one call: it steps the processor, resets it,
raises a request, changes what the host may change, or takes or puts back a state. A `Turn` is a
command or a run for a budget of cycles, and a session is a list of turns, answered one by one.

Two emulators that are related so that no step and no command tells them apart give the same answers
along every session (`Simulation.session`): the relation has to be kept by steps, by commands and by
the burning of stall cycles, and runs then keep it too. A relation that only some commands keep is a
`Lockstep`, and carries along the sessions that are made of runs and of those commands. It may relate
emulators on buses of different kinds; the commands of one side are then translated for the other.
-/

set_option autoImplicit false

namespace Mos6502

namespace Bus

variable {M : Type} [Bus M]

/-- The interrupt vectors as a bus answers them, read one after the other. -/
def vectorWords (mem : M) : PerInterrupt UInt16 :=
  let (nmi, mem) := readWord mem nmiVector
  ⟨nmi, (readWord mem irqVector).1⟩

/-- The bus once its reset vector has been read. -/
def afterResetVector (mem : M) : M :=
  (readWord mem resetVector).2

end Bus

namespace Machine

variable {M : Type} [Bus M]

@[simp] theorem cpu_refreshVectors (m : Machine M) :
    m.refreshVectors.cpu = { m.cpu with vectors := Bus.vectorWords m.mem } :=
  rfl

end Machine

/-- One call of a host. -/
inductive Command (M : Type) where
  /-- Executes one instruction, or services one interrupt. -/
  | step
  | reset
  /-- Requests an interrupt, through the processor or through a handle to its request lines. -/
  | trigger (interrupt : Interrupt)
  | queueStall (cycles : UInt64)
  | takeStall
  | refreshVectors
  | setOptions (options : Options)
  /-- Writes the registers and the program counter. -/
  | setRegisters (registers : Registers) (pc : UInt16)
  /-- Changes the memory behind the processor's back. -/
  | changeMemory (change : M → M)
  /-- Puts the processor on another memory. -/
  | withMemory (mem : M)
  | restore (state : State)
  | load (saved : Json.Value)

/-- The command for a processor on a bus of another kind, given how memories and the changes to them
are translated. -/
def Command.translate {M N : Type} (memory : M → N) (changes : (M → M) → N → N) :
    Command M → Command N
  | .step => .step
  | .reset => .reset
  | .trigger interrupt => .trigger interrupt
  | .queueStall cycles => .queueStall cycles
  | .takeStall => .takeStall
  | .refreshVectors => .refreshVectors
  | .setOptions options => .setOptions options
  | .setRegisters registers pc => .setRegisters registers pc
  | .changeMemory change => .changeMemory (changes change)
  | .withMemory mem => .withMemory (memory mem)
  | .restore state => .restore state
  | .load saved => .load saved

@[simp] theorem Command.translate_id {M : Type} :
    Command.translate id id = (id : Command M → Command M) := by
  funext command
  cases command <;> rfl

/-- One turn of a host: a call, or a run for a budget of cycles. -/
inductive Turn (M : Type) where
  | command (command : Command M)
  /-- Runs with queued stall cycles spent first. -/
  | run (budget : Nat)
  /-- Runs as any processor does, by steps alone. -/
  | runSteps (budget : Nat)

/-- Whether a turn tries to put another state into the processor. -/
def Turn.restores {M : Type} : Turn M → Bool
  | .command (.restore _) | .command (.load _) => true
  | _ => false

/-- The turn with its command translated, if it is one. -/
def Turn.map {M N : Type} (f : Command M → Command N) : Turn M → Turn N
  | .command call => .command (f call)
  | .run budget => .run budget
  | .runSteps budget => .runSteps budget

@[simp] theorem Turn.map_id {M : Type} : Turn.map id = (id : Turn M → Turn M) := by
  funext turn
  cases turn <;> rfl

/-- What a host is answered. -/
inductive Response where
  | done
  | stepped (result : Except Fault Cost)
  | ran (result : Except Fault Nat)
  | taken (cycles : UInt64)
  | loaded (result : Except State.LoadFault Unit)

namespace Emulator

variable {M : Type} [Bus M]

/-- Carries out a command. -/
def obey (command : Command M) (s : Emulator M) : Response × Emulator M :=
  match command with
  | .step =>
    let (result, s) := s.step
    (.stepped result, s)
  | .reset => (.done, s.reset)
  | .trigger interrupt => (.done, s.mapMachine (·.mapState (.request interrupt)))
  | .queueStall cycles => (.done, s.mapMachine (·.mapState (.queueStall cycles)))
  | .takeStall => (.taken s.machine.cpu.stall, s.mapMachine (·.mapState .dropStall))
  | .refreshVectors => (.done, s.mapMachine (·.refreshVectors))
  | .setOptions options => (.done, s.mapMachine (·.setOptions options))
  | .setRegisters registers pc =>
    (.done, s.mapMachine (·.mapState fun state ↦ { state with registers, pc }))
  | .changeMemory change => (.done, s.mapMachine fun m ↦ { m with mem := change m.mem })
  | .withMemory mem => (.done, s.mapMachine (·.withMemory mem))
  | .restore state => (.done, s.mapMachine (·.restore state))
  | .load saved =>
    let (result, s) := s.load saved
    (.loaded result, s)

/-- Carries out a turn. -/
def take (turn : Turn M) (s : Emulator M) : Response × Emulator M :=
  match turn with
  | .command command => s.obey command
  | .run budget =>
    let (result, s) := s.run budget
    (.ran result, s)
  | .runSteps budget =>
    let (result, s) := Processor.run budget s
    (.ran result, s)

/-- Carries out turns one after the other. -/
def session : List (Turn M) → Emulator M → List Response × Emulator M
  | [], s => ([], s)
  | turn :: rest, s =>
    let (response, s) := s.take turn
    let (responses, s) := session rest s
    (response :: responses, s)

theorem snd_session_cons (turn : Turn M) (rest : List (Turn M)) (s : Emulator M) :
    (s.session (turn :: rest)).2 = ((s.take turn).2.session rest).2 :=
  rfl

variable {N : Type} [Bus N]

/-- A relation between emulators that run alike when they are left alone: steps come to the same on
both sides, and the same stall cycles are queued and burned. -/
structure Lockstep (R : Emulator M → Emulator N → Prop) : Prop where
  step : ∀ {s t}, R s t → s.step.1 = t.step.1 ∧ R s.step.2 t.step.2
  stall : ∀ {s t}, R s t → s.machine.cpu.stall = t.machine.cpu.stall
  burn : ∀ {s t}, R s t → ∀ cycles, R (s.burn cycles) (t.burn cycles)

/-- A command is answered the same as its translation on the other side of a relation, and the two
keep the relation. -/
def Respects (R : Emulator M → Emulator N → Prop) (command : Command M) (translated : Command N) :
    Prop :=
  ∀ {s t}, R s t →
    (s.obey command).1 = (t.obey translated).1 ∧ R (s.obey command).2 (t.obey translated).2

/-- A relation between emulators that a host cannot tell apart: what it is answered is the same, and
the relation is kept. -/
structure Simulation (R : Emulator M → Emulator M → Prop) : Prop where
  step : ∀ {s t}, R s t → s.step.1 = t.step.1 ∧ R s.step.2 t.step.2
  obey : ∀ {s t}, R s t → ∀ command,
    (s.obey command).1 = (t.obey command).1 ∧ R (s.obey command).2 (t.obey command).2
  stall : ∀ {s t}, R s t → s.machine.cpu.stall = t.machine.cpu.stall
  burn : ∀ {s t}, R s t → ∀ cycles, R (s.burn cycles) (t.burn cycles)

namespace Lockstep

variable {R : Emulator M → Emulator N → Prop}

/-- A run is answered the same on both sides. -/
theorem runFrom (h : Lockstep R) (spent budget : Nat) {s : Emulator M} {t : Emulator N}
    (hrel : R s t) :
    (s.runFrom spent budget).1 = (t.runFrom spent budget).1 ∧
      R (s.runFrom spent budget).2 (t.runFrom spent budget).2 := by
  fun_induction Emulator.runFrom spent budget s generalizing t with
  | case1 spent s =>
    rw [runFrom_zero]
    exact ⟨rfl, hrel⟩
  | case2 spent budget s hbudget stall hstall cost next hstep =>
    rename_i ih
    obtain ⟨hresult, hnext⟩ := h.step hrel
    rw [hstep] at hresult hnext
    rw [runFrom_of_ok hbudget ((congrArg UInt64.toNat (h.stall hrel)).symm.trans hstall)
      hresult.symm]
    exact ih hnext
  | case3 spent budget s hbudget stall hstall fault next =>
    rename_i hstep
    obtain ⟨hresult, hnext⟩ := h.step hrel
    rw [hstep] at hresult hnext
    rw [runFrom_of_error hbudget ((congrArg UInt64.toNat (h.stall hrel)).symm.trans hstall)
      hresult.symm]
    exact ⟨rfl, hnext⟩
  | case4 spent budget s hbudget stall hstall burned =>
    rename_i ih
    rw [runFrom_of_stall hbudget (h.stall hrel ▸ hstall), ← h.stall hrel]
    exact ih (h.burn hrel _)

/-- A run by steps alone is answered the same on both sides. -/
theorem runStepsFrom (h : Lockstep R) (spent budget : Nat) {s : Emulator M} {t : Emulator N}
    (hrel : R s t) :
    (Processor.runFrom spent budget s).1 = (Processor.runFrom spent budget t).1 ∧
      R (Processor.runFrom spent budget s).2 (Processor.runFrom spent budget t).2 := by
  fun_induction Processor.runFrom spent budget s generalizing t with
  | case1 spent s =>
    rw [Processor.runFrom_zero]
    exact ⟨rfl, hrel⟩
  | case2 spent budget s hbudget cost next hstep =>
    rename_i ih
    obtain ⟨hresult, hnext⟩ := h.step hrel
    rw [show s.step = _ from hstep] at hresult hnext
    rw [Processor.runFrom_of_ok hbudget hresult.symm]
    exact ih hnext
  | case3 spent budget s hbudget fault next hstep =>
    obtain ⟨hresult, hnext⟩ := h.step hrel
    rw [show s.step = _ from hstep] at hresult hnext
    rw [Processor.runFrom_of_error hbudget hresult.symm]
    exact ⟨rfl, hnext⟩

/-- A turn is answered the same on both sides, if it is a run or a command that is. -/
theorem take (h : Lockstep R) (f : Command M → Command N) {turn : Turn M}
    (hcommand : ∀ command, turn = .command command → Respects R command (f command))
    {s : Emulator M} {t : Emulator N} (hrel : R s t) :
    (s.take turn).1 = (t.take (turn.map f)).1 ∧ R (s.take turn).2 (t.take (turn.map f)).2 := by
  cases turn with
  | command command => exact hcommand command rfl hrel
  | run budget =>
    obtain ⟨hresult, hnext⟩ := h.runFrom 0 budget hrel
    exact ⟨congrArg Response.ran hresult, hnext⟩
  | runSteps budget =>
    obtain ⟨hresult, hnext⟩ := h.runStepsFrom 0 budget hrel
    exact ⟨congrArg Response.ran hresult, hnext⟩

/-- Along every session whose commands are, both sides are answered the same, and stay related. -/
theorem session_map (h : Lockstep R) (f : Command M → Command N) {turns : List (Turn M)}
    (hcommands : ∀ command, Turn.command command ∈ turns → Respects R command (f command))
    {s : Emulator M} {t : Emulator N} (hrel : R s t) :
    (s.session turns).1 = (t.session (turns.map (Turn.map f))).1 ∧
      R (s.session turns).2 (t.session (turns.map (Turn.map f))).2 := by
  induction turns generalizing s t with
  | nil => exact ⟨rfl, hrel⟩
  | cons turn rest ih =>
    obtain ⟨hresponse, hnext⟩ := h.take f
      (fun command hcommand ↦ hcommands command (hcommand ▸ List.mem_cons_self)) hrel
    obtain ⟨hresponses, hlast⟩ :=
      ih (fun command hcommand ↦ hcommands command (List.mem_cons_of_mem turn hcommand)) hnext
    exact ⟨List.cons_eq_cons.mpr ⟨hresponse, hresponses⟩, hlast⟩

/-- Along a session that both sides understand, nothing needs to be translated. -/
theorem session {R : Emulator M → Emulator M → Prop} (h : Lockstep R) {turns : List (Turn M)}
    (hcommands : ∀ command, Turn.command command ∈ turns → Respects R command command)
    {s t : Emulator M} (hrel : R s t) :
    (s.session turns).1 = (t.session turns).1 ∧ R (s.session turns).2 (t.session turns).2 := by
  have hsession := h.session_map id hcommands hrel
  rwa [Turn.map_id, List.map_id] at hsession

end Lockstep

/-- Along every session both sides of a simulation are answered the same, and stay related. -/
theorem Simulation.session {R : Emulator M → Emulator M → Prop} (h : Simulation R)
    (turns : List (Turn M)) {s t : Emulator M} (hrel : R s t) :
    (s.session turns).1 = (t.session turns).1 ∧ R (s.session turns).2 (t.session turns).2 :=
  Lockstep.session ⟨h.step, h.stall, h.burn⟩ (fun command _ _ _ hrel ↦ h.obey hrel command) hrel

end Emulator

end Mos6502
