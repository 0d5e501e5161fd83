import Mos6502.Proofs.Host
import Mos6502.Proofs.Stepping

/-!
What the history of an emulator says about its interrupts. A `Run` is an emulator with the calls
that led to it, from the time it was switched on. Which requests wait, which handlers run and which
vectors are in force can be read off those calls: a request waits if it was made after everything
that settles it, a handler runs if it was entered after everything that leaves it, and the vectors
are the words that were read last.

Each of these is a law of a single call (`Call.pending_after`, `Call.running_after`,
`Call.vectors_after`), carried along a run by `Run.Explained.calls`.
-/

set_option autoImplicit false

namespace Mos6502

variable {M : Type}

namespace Command

/-- Whether a command requests an interrupt. -/
def requests (interrupt : Interrupt) : Command M → Bool
  | .trigger requested => requested = interrupt
  | _ => false

/-- Whether a command is a reset. -/
def isReset : Command M → Bool
  | .reset => true
  | _ => false

/-- The state that a command puts into the processor; a saved state that cannot be loaded is none.
-/
def restored? : Command M → Option State
  | .restore state => some state
  | .load saved => (State.load saved).toOption
  | _ => none

/-- Whether a command lets the requests be: it neither resets nor puts in another state. -/
def keepsRequests (command : Command M) : Bool :=
  !command.isReset && command.restored?.isNone

end Command

/-- A call in the history of an emulator: a command, and the emulator that it was given to. -/
structure Call (M : Type) where
  command : Command M
  before : Emulator M

namespace Call

variable [Bus M]

/-- The emulator after a call. -/
def after (call : Call M) : Emulator M :=
  (call.before.obey call.command).2

/-- Whether a call serviced an interrupt. -/
def services (interrupt : Interrupt) (call : Call M) : Bool :=
  match call.command with
  | .step => (call.before.machine.step call.before.watched).services interrupt
  | _ => false

/-- Whether a handler returned in a call. -/
def returns (call : Call M) : Bool :=
  match call.command with
  | .step => (call.before.machine.step call.before.watched).returns
  | _ => false

/-- Whether a call made a request, or put in a state that has it. -/
def raises (interrupt : Interrupt) (call : Call M) : Bool :=
  call.command.requests interrupt || call.command.restored?.any (·.pending.get interrupt)

/-- Whether a call serviced a request or dropped it. -/
def settles (interrupt : Interrupt) (call : Call M) : Bool :=
  call.services interrupt || call.command.isReset ||
    call.command.restored?.any (!·.pending.get interrupt)

/-- Whether a call entered a handler, or put in a state in which it runs. -/
def enters (interrupt : Interrupt) (call : Call M) : Bool :=
  call.services interrupt || call.command.restored?.any (·.running.get interrupt)

/-- Whether a call left a handler. -/
def leaves (interrupt : Interrupt) (call : Call M) : Bool :=
  call.returns || call.command.isReset || call.command.restored?.any (!·.running.get interrupt)

/-- The vectors that a call read, from the memory that the processor was on. -/
def vectorsRead? (call : Call M) : Option (PerInterrupt UInt16) :=
  let mem := call.before.machine.mem
  match call.command with
  | .reset => some (Bus.vectorWords (Bus.afterResetVector mem))
  | .refreshVectors => some (Bus.vectorWords mem)
  | command => command.restored?.map fun _ ↦ Bus.vectorWords mem

/-- Whether, in a history with the latest call first, something began that has not ended since. -/
def since (begins ends : Call M → Bool) : List (Call M) → Bool
  | [] => false
  | call :: past => begins call || !ends call && since begins ends past

/-! ### One call -/

/-- A call that puts in a state restores it, whatever form the state came in. -/
theorem after_of_restored {call : Call M} {state : State}
    (hrestored : call.command.restored? = some state) :
    call.after = call.before.mapMachine (·.restore state) := by
  obtain ⟨command, e⟩ := call
  cases command with
  | restore given =>
    cases hrestored
    rfl
  | load saved =>
    have hload : State.load saved = .ok state := by
      cases hload : State.load saved with
      | ok loaded => simpa [Command.restored?, hload, Except.toOption] using hrestored
      | error fault => simp [Command.restored?, hload, Except.toOption] at hrestored
    simp [after, Emulator.obey, Emulator.load, hload]
  | _ => cases hrestored

/-- A saved state that cannot be loaded changes nothing. -/
theorem after_of_refused {saved : Json.Value} {e : Emulator M}
    (hrestored : (Command.load saved : Command M).restored? = none) :
    (Call.mk (.load saved) e).after = e := by
  cases hload : State.load saved with
  | ok loaded => simp [Command.restored?, hload, Except.toOption] at hrestored
  | error fault => simp [after, Emulator.obey, Emulator.load, hload]

/-- No call both puts in a state and does something else to the interrupts. -/
theorem services_of_restored {call : Call M} {state : State}
    (hrestored : call.command.restored? = some state) (interrupt : Interrupt) :
    call.command.requests interrupt = false ∧ call.command.isReset = false ∧
      call.services interrupt = false ∧ call.returns = false := by
  obtain ⟨command, e⟩ := call
  cases command with
  | restore | load => exact ⟨rfl, rfl, rfl, rfl⟩
  | _ => cases hrestored

/-- After a call, a request waits if the call raised it, or if it waited before and the call did not
settle it. -/
theorem pending_after (call : Call M) (interrupt : Interrupt) :
    call.after.machine.cpu.pending.get interrupt =
      (call.raises interrupt ||
        !call.settles interrupt && call.before.machine.cpu.pending.get interrupt) := by
  cases hrestored : call.command.restored? with
  | some state =>
    obtain ⟨hrequests, hreset, hservices, -⟩ := services_of_restored hrestored interrupt
    rw [after_of_restored hrestored]
    cases hpending : state.pending.get interrupt <;>
      simp [raises, settles, Emulator.mapMachine, Machine.restore, *]
  | none =>
    obtain ⟨command, e⟩ := call
    cases command with
    | step =>
      have hafter : (Call.mk .step e).after.machine.cpu.pending = e.machine.unanswered :=
        Machine.pending_step e.watched e.machine
      rw [hafter, Machine.get_unanswered e.watched, raises, settles, hrestored]
      simp [services, Command.requests, Command.isReset]
    | reset => cases interrupt <;> rfl
    | trigger requested =>
      have hafter : (Call.mk (.trigger requested) e).after.machine.cpu.pending =
          e.machine.cpu.pending.set requested true := rfl
      rw [hafter, raises, settles, hrestored]
      by_cases hsame : interrupt = requested
      · simp [hsame, Command.requests]
      · simp [hsame, Ne.symm hsame, services, Command.requests, Command.isReset]
    | restore => cases hrestored
    | load saved =>
      rw [after_of_refused hrestored, raises, settles, hrestored]
      rfl
    | _ => rfl

/-- After a call, a handler runs if the call entered it, or if it ran before and the call did not
leave it. -/
theorem running_after (call : Call M) (interrupt : Interrupt) :
    call.after.machine.cpu.running.get interrupt =
      (call.enters interrupt ||
        !call.leaves interrupt && call.before.machine.cpu.running.get interrupt) := by
  cases hrestored : call.command.restored? with
  | some state =>
    obtain ⟨-, hreset, hservices, hreturns⟩ := services_of_restored hrestored interrupt
    rw [after_of_restored hrestored]
    cases hrunning : state.running.get interrupt <;>
      simp [enters, leaves, Emulator.mapMachine, Machine.restore, *]
  | none =>
    obtain ⟨command, e⟩ := call
    cases command with
    | step =>
      have hafter : (Call.mk .step e).after.machine.cpu.running = e.machine.entered :=
        Machine.running_step e.watched e.machine
      rw [hafter, Machine.get_entered e.watched, enters, leaves, hrestored]
      simp [services, returns, Command.isReset]
    | reset => cases interrupt <;> rfl
    | restore => cases hrestored
    | load saved =>
      rw [after_of_refused hrestored, enters, leaves, hrestored]
      rfl
    | _ => rfl

/-- After a call, the vectors are those that the call read, or those from before it. -/
theorem vectors_after (call : Call M) :
    call.after.machine.cpu.vectors = call.vectorsRead?.getD call.before.machine.cpu.vectors := by
  cases hrestored : call.command.restored? with
  | some state =>
    have hread : call.vectorsRead? = some (Bus.vectorWords call.before.machine.mem) := by
      obtain ⟨command, e⟩ := call
      cases command with
      | restore | load => simp_all [vectorsRead?]
      | _ => cases hrestored
    rw [after_of_restored hrestored, hread]
    rfl
  | none =>
    obtain ⟨command, e⟩ := call
    cases command with
    | step => exact Machine.vectors_step e.watched e.machine
    | restore => cases hrestored
    | load saved =>
      have hread : (Call.mk (.load saved) e).vectorsRead? = none := by
        simp_all [vectorsRead?]
      rw [after_of_refused hrestored, hread]
      rfl
    | _ => rfl

end Call

/-! ### Runs -/

/-- An emulator and the calls that led to it from the time it was switched on, the latest first. -/
structure Run (M : Type) where
  past : List (Call M)
  emulator : Emulator M

namespace Run

variable [Bus M]

/-- The run of an emulator that has just been switched on. -/
def start (options : Options) (journal : Journal) (mem : M) : Run M :=
  ⟨[], .powerOn options journal mem⟩

/-- A run continued by a call. -/
def call (run : Run M) (command : Command M) : Run M :=
  let call : Call M := ⟨command, run.emulator⟩
  ⟨call :: run.past, call.after⟩

/-- A run continued by calls, one after the other. -/
def calls (commands : List (Command M)) (run : Run M) : Run M :=
  commands.foldl call run

/-- Whether a request waits. -/
def waits (interrupt : Interrupt) (run : Run M) : Bool :=
  run.emulator.machine.cpu.pending.get interrupt

/-- How often an interrupt has been serviced. -/
def serviced (interrupt : Interrupt) (run : Run M) : Nat :=
  run.past.countP (·.services interrupt)

/-- The vectors that were read last, by a call or when the emulator was switched on. -/
def lastVectors (mem : M) (run : Run M) : PerInterrupt UInt16 :=
  (run.past.findSome? Call.vectorsRead?).getD (Bus.vectorWords (Bus.afterResetVector mem))

/-- The calls of a run tell which requests wait, which handlers run and which vectors are in
force. -/
structure Explained (mem : M) (run : Run M) : Prop where
  pending : ∀ interrupt, run.waits interrupt =
    Call.since (Call.raises interrupt) (Call.settles interrupt) run.past
  running : ∀ interrupt, run.emulator.machine.cpu.running.get interrupt =
    Call.since (Call.enters interrupt) (Call.leaves interrupt) run.past
  vectors : run.emulator.machine.cpu.vectors = run.lastVectors mem

theorem explained_start (options : Options) (journal : Journal) (mem : M) :
    (start options journal mem).Explained mem where
  pending interrupt := by cases interrupt <;> rfl
  running interrupt := by cases interrupt <;> rfl
  vectors := rfl

theorem Explained.call {mem : M} {run : Run M} (hrun : run.Explained mem) (command : Command M) :
    (run.call command).Explained mem where
  pending interrupt := by
    rw [Run.call, Call.since, ← hrun.pending interrupt]
    exact Call.pending_after ⟨command, run.emulator⟩ interrupt
  running interrupt := by
    rw [Run.call, Call.since, ← hrun.running interrupt]
    exact Call.running_after ⟨command, run.emulator⟩ interrupt
  vectors := by
    have hafter := Call.vectors_after ⟨command, run.emulator⟩
    rw [hrun.vectors] at hafter
    rw [lastVectors, Run.call, List.findSome?_cons]
    refine hafter.trans ?_
    cases (Call.mk command run.emulator).vectorsRead? with
    | none => rfl
    | some vectors => rfl

/-- Every run is explained by its calls. -/
theorem Explained.calls {mem : M} {run : Run M} (hrun : run.Explained mem)
    (commands : List (Command M)) : (run.calls commands).Explained mem := by
  induction commands generalizing run with
  | nil => exact hrun
  | cons command rest ih => exact ih (hrun.call command)

/-! ### Requests and services -/

theorem serviced_call (interrupt : Interrupt) (run : Run M) (command : Command M) :
    (run.call command).serviced interrupt =
      run.serviced interrupt +
        if (Call.mk command run.emulator).services interrupt then 1 else 0 :=
  List.countP_cons ..

/-- Only a request that waits is serviced. -/
theorem waits_of_services {interrupt : Interrupt} {run : Run M} {command : Command M}
    (hservices : (Call.mk command run.emulator).services interrupt = true) :
    run.waits interrupt = true := by
  cases command with
  | step =>
    have hstep := Machine.services_step run.emulator.watched run.emulator.machine interrupt
    exact State.pending_of_due? (of_decide_eq_true (hstep.symm.trans hservices))
  | _ => cases hservices

/-- Commands that let the requests be leave a request waiting, unless they service it. -/
theorem waits_call {command : Command M} (hkeeps : command.keepsRequests = true)
    (interrupt : Interrupt) (run : Run M) :
    (run.call command).waits interrupt =
      (command.requests interrupt ||
        !(Call.mk command run.emulator).services interrupt && run.waits interrupt) := by
  obtain ⟨hreset, hrestored⟩ : command.isReset = false ∧ command.restored? = none := by
    simpa [Command.keepsRequests] using hkeeps
  refine (Call.pending_after ⟨command, run.emulator⟩ interrupt).trans ?_
  simp [Call.raises, Call.settles, hreset, hrestored, waits]

@[simp] theorem calls_cons (command : Command M) (rest : List (Command M)) (run : Run M) :
    run.calls (command :: rest) = (run.call command).calls rest :=
  rfl

theorem serviced_le_calls (interrupt : Interrupt) (run : Run M) (commands : List (Command M)) :
    run.serviced interrupt ≤ (run.calls commands).serviced interrupt := by
  induction commands generalizing run with
  | nil => exact Nat.le_refl _
  | cons command rest ih =>
    have hcall := serviced_call interrupt run command
    have hrest := ih (run.call command)
    rw [calls_cons]
    omega

/-- A request is not lost: as long as nothing drops it, it has been serviced or it waits. -/
theorem serviced_or_waits {interrupt : Interrupt} {run : Run M} {commands : List (Command M)}
    (hkeeps : ∀ command ∈ commands, command.keepsRequests = true)
    (hrequest : run.waits interrupt = true ∨
      ∃ command ∈ commands, command.requests interrupt = true) :
    run.serviced interrupt < (run.calls commands).serviced interrupt ∨
      (run.calls commands).waits interrupt = true := by
  induction commands generalizing run with
  | nil => exact Or.inr (hrequest.resolve_right (by simp))
  | cons command rest ih =>
    obtain ⟨hcommand, hrest⟩ := List.forall_mem_cons.mp hkeeps
    have hcount := serviced_call interrupt run command
    rw [calls_cons]
    by_cases hservices : (Call.mk command run.emulator).services interrupt = true
    · have hlater := serviced_le_calls interrupt (run.call command) rest
      rw [if_pos hservices] at hcount
      exact Or.inl (by omega)
    · have hcall : (run.call command).waits interrupt = true ∨
          ∃ later ∈ rest, later.requests interrupt = true := by
        rw [waits_call hcommand]
        obtain hwaits | ⟨later, hlater, hrequests⟩ := hrequest
        · exact Or.inl (by simp [hservices, hwaits])
        · obtain rfl | hmem := List.mem_cons.mp hlater
          · exact Or.inl (by simp [hrequests])
          · exact Or.inr ⟨later, hmem, hrequests⟩
      rw [if_neg hservices] at hcount
      obtain hmore | hwaits := ih hrest hcall
      · exact Or.inl (by omega)
      · exact Or.inr hwaits

/-- However often a request is made before it is serviced, it is serviced once: without another
request, what has been serviced and what still waits stay the same together. -/
theorem serviced_add_waits {interrupt : Interrupt} {run : Run M} {commands : List (Command M)}
    (hkeeps : ∀ command ∈ commands,
      command.keepsRequests = true ∧ command.requests interrupt = false) :
    (run.calls commands).serviced interrupt + ((run.calls commands).waits interrupt).toNat =
      run.serviced interrupt + (run.waits interrupt).toNat := by
  induction commands generalizing run with
  | nil => rfl
  | cons command rest ih =>
    obtain ⟨⟨hcommand, hrequests⟩, hrest⟩ := List.forall_mem_cons.mp hkeeps
    rw [calls_cons, ih hrest, serviced_call, waits_call hcommand, hrequests]
    cases hservices : (Call.mk command run.emulator).services interrupt with
    | false => simp
    | true => simp [waits_of_services hservices]

/-! ### The next step of a run -/

/-- A step that services nothing leaves the requests waiting. It executes the instruction that is
up, or it stops at a byte that is no opcode. -/
theorem step_of_no_service {watch : Bool} {m : Machine M}
    (hnone : ∀ interrupt, (m.step watch).services interrupt = false) :
    (m.step watch).machine.cpu.pending = m.cpu.pending ∧
      ((∃ op cost, m.upcoming? = some op ∧ (m.step watch).result = .ok cost) ∨
        (m.step watch).result = .error (.illegalOpcode m.opcodeByte m.cpu.pc)) := by
  have hdue : m.cpu.due? = none := by
    cases hdue : m.cpu.due? with
    | none => rfl
    | some interrupt =>
      have hservices := m.services_step watch interrupt
      simp [hnone, hdue] at hservices
  refine ⟨?_, ?_⟩
  · rw [Machine.pending_step, Machine.unanswered, hdue]
  · obtain ⟨interrupt, hsome, -⟩ | ⟨-, -, hstep⟩ | ⟨op, perform, hop, -, hstep⟩ :=
      m.step_cases watch
    · rw [hdue] at hsome
      cases hsome
    · rw [hstep]
      exact Or.inr rfl
    · rw [hstep]
      exact Or.inl ⟨op, _, hop, rfl⟩

/-- A step that services an interrupt takes back its request and no other. -/
theorem pending_of_services {watch : Bool} {m : Machine M} {interrupt : Interrupt}
    (hservices : (m.step watch).services interrupt = true) :
    (m.step watch).machine.cpu.pending = m.cpu.pending.set interrupt false := by
  rw [Machine.services_step, decide_eq_true_iff] at hservices
  rw [Machine.pending_step, Machine.unanswered, hservices]

/-- Interrupts along any run. The next step services the interrupt that cannot be disabled if it is
requested, and else the other if it is requested and I is clear, and else it executes an instruction
or stops and leaves both requests. A service takes back its own request alone; a request that
nothing drops is serviced or waits; and without another request it is serviced once. A service and a
break go on at the vector that was read last, whatever memory holds by now. Requests wait and
handlers run as the history says. -/
theorem interrupts_follow_history (options : Options) (journal : Journal) (mem : M)
    (commands : List (Command M)) :
    let run := (start options journal mem).calls commands
    let m := run.emulator.machine
    let step := m.step run.emulator.watched
    ((step.services .nmi = true ↔ m.cpu.pending.nmi = true) ∧
      (step.services .irq = true ↔
        m.cpu.pending.nmi = false ∧ m.cpu.pending.irq = true ∧ m.cpu.registers.flags.i = false) ∧
      ((∀ interrupt, step.services interrupt = false) →
        step.machine.cpu.pending = m.cpu.pending ∧
          ((∃ op cost, m.upcoming? = some op ∧ step.result = .ok cost) ∨
            step.result = .error (.illegalOpcode m.opcodeByte m.cpu.pc))) ∧
      step.returns = m.upcoming?.any (·.mnemonic = .rti) ∧
      step.breaks = m.upcoming?.any (·.mnemonic = .brk)) ∧
    (∀ interrupt,
      (step.services interrupt = true →
        step.machine.cpu.pending = m.cpu.pending.set interrupt false) ∧
      (∀ later : List (Command M), (∀ command ∈ later, command.keepsRequests = true) →
        (run.waits interrupt = true ∨ ∃ command ∈ later, command.requests interrupt = true) →
          run.serviced interrupt < (run.calls later).serviced interrupt ∨
            (run.calls later).waits interrupt = true) ∧
      (∀ later : List (Command M),
        (∀ command ∈ later,
          command.keepsRequests = true ∧ command.requests interrupt = false) →
        (run.calls later).serviced interrupt + ((run.calls later).waits interrupt).toNat =
          run.serviced interrupt + (run.waits interrupt).toNat) ∧
      run.waits interrupt =
        Call.since (Call.raises interrupt) (Call.settles interrupt) run.past) ∧
    ((∀ interrupt, step.services interrupt = true →
        step.machine.cpu.pc = (run.lastVectors mem).get interrupt) ∧
      (step.breaks = true → step.machine.cpu.pc = (run.lastVectors mem).irq)) ∧
    ∀ interrupt, m.cpu.running.get interrupt =
      Call.since (Call.enters interrupt) (Call.leaves interrupt) run.past := by
  intro run m step
  have hrun : run.Explained mem := (explained_start options journal mem).calls commands
  refine ⟨⟨?_, ?_, step_of_no_service, Machine.returns_step _ m, Machine.breaks_step _ m⟩, ?_,
    ⟨?_, ?_⟩, hrun.running⟩
  · rw [Machine.services_step, decide_eq_true_iff, State.due?_eq_nmi_iff]
  · rw [Machine.services_step, decide_eq_true_iff, State.due?_eq_irq_iff]
  · intro interrupt
    exact ⟨pending_of_services, fun _ hkeeps hrequest ↦ serviced_or_waits hkeeps hrequest,
      fun _ hkeeps ↦ serviced_add_waits hkeeps, hrun.pending interrupt⟩
  · intro interrupt hservices
    rw [← hrun.vectors]
    exact Machine.pc_of_services hservices
  · intro hbreaks
    rw [← hrun.vectors]
    exact Machine.pc_of_breaks hbreaks

end Run

end Mos6502
