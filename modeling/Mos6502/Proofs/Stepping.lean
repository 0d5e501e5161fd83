import Mos6502.Proofs.Acceptance

/-!
What one step can do. A step services an interrupt that is due; or it finds a byte that is no opcode
and stops; or it performs the action of the instruction at the program counter on a machine that is
`poised` for it, which is the same processor after the opcode, the operand and the trace have been
read. `Machine.step_cases` says that there is nothing else, so that a law of steps is a law of these
three.

Most of a processor is out of the reach of instructions. `Action.spec_of_perform?` says what every
action leaves alone and what it reports, in one walk through the actions; `Machine.cpu_step` and the
lemmas on `Step.services`, `Step.returns` and `Step.breaks` say it of steps.
-/

set_option autoImplicit false

namespace Mos6502

namespace Opcode

theorem decode_of_decodeUnder {options : Options} {byte : UInt8} {op : Opcode}
    (hdecode : decodeUnder options byte = some op) : decode byte = some op :=
  (Option.filter_eq_some_iff.mp hdecode).1

/-- A byte is illegal if it has no entry, or an undocumented one while those are switched off. -/
theorem decodeUnder_eq_none_iff {options : Options} {byte : UInt8} :
    decodeUnder options byte = none ↔
      decode byte = none ∨
        ∃ op, decode byte = some op ∧ op.unofficial = true ∧ options.unofficialOpcodes = false := by
  cases hdecode : decode byte with
  | none => simp [decodeUnder, hdecode]
  | some op => simp [decodeUnder, hdecode, and_comm]

end Opcode

namespace State

/-- No interrupt is due if none is requested that may be serviced now. -/
theorem due?_eq_none_iff {s : State} :
    s.due? = none ↔
      s.pending.nmi = false ∧ (s.pending.irq = false ∨ s.registers.flags.i = true) := by
  cases hnmi : s.pending.nmi <;> cases hirq : s.pending.irq <;> cases hi : s.registers.flags.i <;>
    simp [due?, hnmi, hirq, hi]

/-- The interrupt that cannot be disabled is due whenever it is requested. -/
theorem due?_eq_nmi_iff {s : State} : s.due? = some .nmi ↔ s.pending.nmi = true := by
  cases hnmi : s.pending.nmi <;> cases hirq : s.pending.irq <;> cases hi : s.registers.flags.i <;>
    simp [due?, hnmi, hirq, hi]

/-- The other interrupt is due if it alone is requested and I is clear. -/
theorem due?_eq_irq_iff {s : State} :
    s.due? = some .irq ↔
      s.pending.nmi = false ∧ s.pending.irq = true ∧ s.registers.flags.i = false := by
  cases hnmi : s.pending.nmi <;> cases hirq : s.pending.irq <;> cases hi : s.registers.flags.i <;>
    simp [due?, hnmi, hirq, hi]

/-- An interrupt that is due has been requested. -/
theorem pending_of_due? {s : State} {interrupt : Interrupt} (hdue : s.due? = some interrupt) :
    s.pending.get interrupt = true := by
  cases interrupt with
  | nmi => exact due?_eq_nmi_iff.mp hdue
  | irq => exact (due?_eq_irq_iff.mp hdue).2.1

end State

namespace Event

/-- Whether an event says that an interrupt was serviced. -/
def isServiceOf (interrupt : Interrupt) : Event → Bool
  | .interrupt source _ _ => source = interrupt
  | _ => false

/-- Whether an event says that a handler returned. -/
def isReturn : Event → Bool
  | .returnFromInterrupt _ => true
  | _ => false

/-- Whether an event says that the program entered the interrupt handler itself. -/
def isBreak : Event → Bool
  | .softwareBreak _ _ => true
  | _ => false

end Event

namespace Action

/-- Whether an action returns from a handler. -/
def isReturn : Action → Bool
  | .endInterrupt => true
  | _ => false

/-- Whether an action enters the interrupt handler. -/
def isBreak : Action → Bool
  | .softwareBreak => true
  | _ => false

theorem isReturn_action (mnemonic : Mnemonic) :
    mnemonic.action.isReturn = decide (mnemonic = .rti) := by
  cases mnemonic <;> rfl

theorem isBreak_action (mnemonic : Mnemonic) :
    mnemonic.action.isBreak = decide (mnemonic = .brk) := by
  cases mnemonic <;> rfl

end Action

/-! ### What an action changes -/

namespace Action

variable {M : Type} [Bus M] {action : Action} {operand : Operand} {next : UInt16}
  {perform : Machine M → Performed M}

/-- What every action leaves alone, and what it reports. It changes registers and the program
counter, and a return also clears the handler markers; everything else in the processor stays: the
counters, the requests, the vectors and the options. No action reports a service, and only returns
and breaks report themselves. -/
theorem spec_of_perform? (hperform : action.perform? operand next = some perform)
    (m : Machine M) :
    (∃ registers pc, (perform m).machine.cpu =
      { m.cpu with
        registers, pc
        running := if action.isReturn then .both false else m.cpu.running }) ∧
      (∀ interrupt, (perform m).events.any (Event.isServiceOf interrupt) = false) ∧
      (perform m).events.any Event.isReturn = action.isReturn ∧
      (perform m).events.any Event.isBreak = action.isBreak := by
  cases action with
  | inherent | endCall | softwareBreak | endInterrupt | push | pull =>
    cases hperform
    exact ⟨⟨_, _, rfl⟩, fun _ ↦ rfl, rfl, rfl⟩
  | consume compute =>
    obtain ⟨source, -, rfl⟩ := Option.map_eq_some_iff.mp hperform
    cases source with
    | value byte => exact ⟨⟨_, _, rfl⟩, fun _ ↦ rfl, rfl, rfl⟩
    | cell address => exact ⟨⟨_, _, rfl⟩, fun _ ↦ rfl, rfl, rfl⟩
  | store | changeThenConsume | call =>
    obtain ⟨address, -, rfl⟩ := Option.map_eq_some_iff.mp hperform
    exact ⟨⟨_, _, rfl⟩, fun _ ↦ rfl, rfl, rfl⟩
  | change cell =>
    rw [perform?] at hperform
    split at hperform
    · cases hperform
      exact ⟨⟨_, _, rfl⟩, fun _ ↦ rfl, rfl, rfl⟩
    · obtain ⟨address, -, rfl⟩ := Option.map_eq_some_iff.mp hperform
      exact ⟨⟨_, _, rfl⟩, fun _ ↦ rfl, rfl, rfl⟩
  | touch =>
    rw [perform?] at hperform
    split at hperform
    · cases hperform
      exact ⟨⟨_, _, rfl⟩, fun _ ↦ rfl, rfl, rfl⟩
    · cases hperform
      exact ⟨⟨_, _, rfl⟩, fun _ ↦ rfl, rfl, rfl⟩
  | branch condition =>
    obtain ⟨target, -, rfl⟩ := Option.map_eq_some_iff.mp hperform
    rw [Machine.branch]
    split
    · exact ⟨⟨_, _, rfl⟩, fun _ ↦ rfl, rfl, rfl⟩
    · exact ⟨⟨_, _, rfl⟩, fun _ ↦ rfl, rfl, rfl⟩
  | jump =>
    obtain ⟨target, -, rfl⟩ := Option.map_eq_some_iff.mp hperform
    refine ⟨⟨_, _, rfl⟩, ?_⟩
    -- The one report that depends on where the jump goes.
    rw [Machine.jumpTo]
    split
    · exact ⟨fun _ ↦ rfl, rfl, rfl⟩
    · exact ⟨fun _ ↦ rfl, rfl, rfl⟩

/-- A break goes on at the interrupt handler. -/
theorem pc_of_isBreak (hperform : action.perform? operand next = some perform)
    (hbreak : action.isBreak = true) (m : Machine M) :
    (perform m).machine.cpu.pc = m.cpu.vectors.irq := by
  cases action with
  | softwareBreak =>
    cases hperform
    rfl
  | _ => cases hbreak

end Action

namespace Step

variable {M : Type}

/-- The cycles that a step charges: none if it fails. -/
def charged (s : Step M) : Nat :=
  match s.result with
  | .ok cost => cost.val
  | .error _ => 0

/-- Whether a step reports that it serviced an interrupt. -/
def services (interrupt : Interrupt) (s : Step M) : Bool :=
  s.events.any (Event.isServiceOf interrupt)

/-- Whether a step reports that a handler returned. -/
def returns (s : Step M) : Bool :=
  s.events.any Event.isReturn

/-- Whether a step reports that the program entered the interrupt handler itself. -/
def breaks (s : Step M) : Bool :=
  s.events.any Event.isBreak

end Step

namespace Machine

variable {M : Type} [Bus M]

/-! ### The three things that a step can do -/

/-- The byte at the program counter, which the step after this one is to decode. -/
def opcodeByte (m : Machine M) : UInt8 :=
  (m.read m.cpu.pc).1

/-- The machine once the byte at the program counter has been read. -/
def fetched (m : Machine M) : Machine M :=
  (m.read m.cpu.pc).2

/-- The instruction that the next step executes; nothing if it services an interrupt or stops. -/
def upcoming? (m : Machine M) : Option Opcode :=
  if m.cpu.due? = none then Opcode.decodeUnder m.cpu.options m.opcodeByte else none

/-- The operand of the instruction at the program counter. -/
def resolved (op : Opcode) (m : Machine M) : Resolved :=
  (m.fetched.onBus (Operand.resolve op.mode m.cpu.pc m.cpu.registers.x m.cpu.registers.y)).1

/-- The machine once the opcode and the operand of an instruction have been read. -/
def decoded (op : Opcode) (m : Machine M) : Machine M :=
  (m.fetched.onBus (Operand.resolve op.mode m.cpu.pc m.cpu.registers.x m.cpu.registers.y)).2

/-- The machine on which an instruction's action is performed, after everything about the
instruction has been read, and the trace of the instruction. -/
def poised (watch : Bool) (op : Opcode) (m : Machine M) : List Event × Machine M :=
  (m.fetched.onBus
    (Operand.resolve op.mode m.cpu.pc m.cpu.registers.x m.cpu.registers.y)).2.traceInstruction
      watch op

/-- The address of the instruction that follows the one at the program counter. -/
def following (op : Opcode) (m : Machine M) : UInt16 :=
  m.cpu.pc + UInt16.ofNat op.size

/-- The step that executes an instruction by performing its action. -/
def executed (watch : Bool) (op : Opcode) (perform : Machine M → Performed M) (m : Machine M) :
    Step M :=
  let (traced, ready) := m.poised watch op
  let performed := perform ready
  let base := op.cost (m.resolved op).crossed
  let cost : Cost := ⟨base.val + performed.extraCycles, Nat.lt_add_right _ base.property⟩
  { result := .ok cost
    machine := performed.machine.mapState (.charge cost.val)
    events := traced ++ performed.events }

/-- The step that finds no opcode at the program counter. -/
def stopped (m : Machine M) : Step M :=
  { result := .error (.illegalOpcode m.opcodeByte m.cpu.pc)
    machine := m.fetched
    events := [.illegalOpcode m.opcodeByte m.cpu.pc] }

@[simp] theorem cpu_fetched (m : Machine M) : m.fetched.cpu = m.cpu :=
  rfl

/-- An instruction that has been read is traced, and then its action can be performed. -/
theorem poised_eq (watch : Bool) (op : Opcode) (m : Machine M) :
    m.poised watch op = (m.decoded op).traceInstruction watch op :=
  rfl

@[simp] theorem cpu_traceInstruction (watch : Bool) (op : Opcode) (m : Machine M) :
    (m.traceInstruction watch op).2.cpu = m.cpu := by
  unfold traceInstruction
  split <;> rfl

@[simp] theorem cpu_poised (watch : Bool) (op : Opcode) (m : Machine M) :
    (m.poised watch op).2.cpu = m.cpu :=
  cpu_traceInstruction watch op _

/-- While an interrupt is due, no instruction is executed. -/
theorem due?_of_upcoming? {m : Machine M} {op : Opcode} (hop : m.upcoming? = some op) :
    m.cpu.due? = none := by
  by_cases hdue : m.cpu.due? = none
  · exact hdue
  · simp [upcoming?, hdue] at hop

/-- While no interrupt is due, it depends on the byte at the program counter what is executed. -/
theorem upcoming?_of_due? {m : Machine M} (hdue : m.cpu.due? = none) :
    m.upcoming? = Opcode.decodeUnder m.cpu.options m.opcodeByte := by
  rw [upcoming?, if_pos hdue]

theorem decodeUnder_of_upcoming? {m : Machine M} {op : Opcode} (hop : m.upcoming? = some op) :
    Opcode.decodeUnder m.cpu.options m.opcodeByte = some op :=
  (upcoming?_of_due? (due?_of_upcoming? hop)).symm.trans hop

theorem decode_of_upcoming? {m : Machine M} {op : Opcode} (hop : m.upcoming? = some op) :
    Opcode.decode m.opcodeByte = some op :=
  Opcode.decode_of_decodeUnder (decodeUnder_of_upcoming? hop)

/-- A step in terms of what it does: service, stop or execute. -/
theorem step_eq (watch : Bool) (m : Machine M) :
    m.step watch =
      match m.cpu.due? with
      | some interrupt => m.service interrupt
      | none =>
        match Opcode.decodeUnder m.cpu.options m.opcodeByte with
        | none => m.stopped
        | some op => m.fetched.execute watch op :=
  rfl

/-- Executing an instruction is performing its action, if it has a way to be performed. -/
theorem execute_fetched (watch : Bool) (op : Opcode) (m : Machine M) :
    m.fetched.execute watch op =
      match op.mnemonic.action.perform? (m.resolved op).operand (m.following op) with
      | none =>
        { result := .error (.unsupportedOperand op.mnemonic (m.resolved op).operand)
          machine := (m.poised watch op).2
          events := (m.poised watch op).1 }
      | some perform => m.executed watch op perform :=
  rfl

theorem step_of_due? {m : Machine M} {interrupt : Interrupt} (hdue : m.cpu.due? = some interrupt)
    (watch : Bool) : m.step watch = m.service interrupt := by
  rw [step_eq, hdue]

theorem step_of_illegal {m : Machine M} (hdue : m.cpu.due? = none)
    (hillegal : Opcode.decodeUnder m.cpu.options m.opcodeByte = none) (watch : Bool) :
    m.step watch = m.stopped := by
  rw [step_eq, hdue, hillegal]

/-- A step that has an instruction to execute performs its action. -/
theorem step_of_upcoming? {m : Machine M} {op : Opcode} (hop : m.upcoming? = some op)
    (watch : Bool) :
    ∃ perform, op.mnemonic.action.perform? (m.resolved op).operand (m.following op) = some perform ∧
      m.step watch = m.executed watch op perform := by
  have haccepts := Opcode.isSome_perform?_of_decode (decode_of_upcoming? hop) m.cpu.pc
    m.cpu.registers.x m.cpu.registers.y m.fetched.mem (m.following op)
  obtain ⟨perform, hperform⟩ := Option.isSome_iff_exists.mp haccepts
  have hresolved : op.mnemonic.action.perform? (m.resolved op).operand (m.following op) =
      some perform := hperform
  refine ⟨perform, hresolved, ?_⟩
  rw [step_eq, due?_of_upcoming? hop, decodeUnder_of_upcoming? hop]
  exact (execute_fetched watch op m).trans (by rw [hresolved])

/-- A step services an interrupt that is due, or stops at an illegal byte, or performs the action of
an instruction. -/
theorem step_cases (watch : Bool) (m : Machine M) :
    (∃ interrupt, m.cpu.due? = some interrupt ∧ m.step watch = m.service interrupt) ∨
      (m.cpu.due? = none ∧ Opcode.decodeUnder m.cpu.options m.opcodeByte = none ∧
        m.step watch = m.stopped) ∨
      ∃ op perform, m.upcoming? = some op ∧
        op.mnemonic.action.perform? (m.resolved op).operand (m.following op) = some perform ∧
        m.step watch = m.executed watch op perform := by
  cases hdue : m.cpu.due? with
  | some interrupt => exact Or.inl ⟨interrupt, rfl, step_of_due? hdue watch⟩
  | none =>
    refine Or.inr ?_
    cases hbyte : Opcode.decodeUnder m.cpu.options m.opcodeByte with
    | none => exact Or.inl ⟨rfl, rfl, step_of_illegal hdue hbyte watch⟩
    | some op =>
      have hop : m.upcoming? = some op := (upcoming?_of_due? hdue).trans hbyte
      obtain ⟨perform, hperform, hstep⟩ := step_of_upcoming? hop watch
      exact Or.inr ⟨op, perform, hop, hperform, hstep⟩

/-! ### The processor after a step -/

/-- The requests that are left by a step: all but the one that it services. -/
def unanswered (m : Machine M) : PerInterrupt Bool :=
  match m.cpu.due? with
  | some interrupt => m.cpu.pending.set interrupt false
  | none => m.cpu.pending

/-- The handler markers after a step: a service sets one, and a return clears both. -/
def entered (m : Machine M) : PerInterrupt Bool :=
  match m.cpu.due? with
  | some interrupt => m.cpu.running.set interrupt true
  | none =>
    if m.upcoming?.any fun op ↦ op.mnemonic = .rti then .both false else m.cpu.running

/-- Outside its registers and its program counter, a step changes a processor by the cycles that it
charges, by the request that it answers and by the handler that it enters or leaves. -/
theorem cpu_step (watch : Bool) (m : Machine M) :
    ∃ registers pc, (m.step watch).machine.cpu =
      { m.cpu with
        registers, pc
        cycles := m.cpu.cycles + UInt64.ofNat (m.step watch).charged
        pending := m.unanswered
        running := m.entered } := by
  obtain ⟨interrupt, hdue, hstep⟩ | ⟨hdue, hbyte, hstep⟩ | ⟨op, perform, hop, hperform, hstep⟩ :=
    m.step_cases watch
  · rw [hstep, unanswered, entered, hdue]
    exact ⟨_, _, rfl⟩
  · have hop : m.upcoming? = none := (upcoming?_of_due? hdue).trans hbyte
    refine ⟨m.cpu.registers, m.cpu.pc, ?_⟩
    simp [hstep, unanswered, entered, hdue, hop, stopped, Step.charged]
  · have hdue := due?_of_upcoming? hop
    obtain ⟨registers, pc, hcpu⟩ := (Action.spec_of_perform? hperform (m.poised watch op).2).1
    refine ⟨registers, pc, ?_⟩
    rw [Action.isReturn_action] at hcpu
    simp [hstep, unanswered, entered, hdue, hop, executed, Step.charged, State.charge, hcpu]

@[simp] theorem pending_step (watch : Bool) (m : Machine M) :
    (m.step watch).machine.cpu.pending = m.unanswered := by
  obtain ⟨registers, pc, hcpu⟩ := m.cpu_step watch
  rw [hcpu]

@[simp] theorem running_step (watch : Bool) (m : Machine M) :
    (m.step watch).machine.cpu.running = m.entered := by
  obtain ⟨registers, pc, hcpu⟩ := m.cpu_step watch
  rw [hcpu]

@[simp] theorem vectors_step (watch : Bool) (m : Machine M) :
    (m.step watch).machine.cpu.vectors = m.cpu.vectors := by
  obtain ⟨registers, pc, hcpu⟩ := m.cpu_step watch
  rw [hcpu]

/-- A step burns no stall cycles. -/
@[simp] theorem stall_step (watch : Bool) (m : Machine M) :
    (m.step watch).machine.cpu.stall = m.cpu.stall := by
  obtain ⟨registers, pc, hcpu⟩ := m.cpu_step watch
  rw [hcpu]

theorem cycles_step (watch : Bool) (m : Machine M) :
    (m.step watch).machine.cpu.cycles = m.cpu.cycles + UInt64.ofNat (m.step watch).charged := by
  obtain ⟨registers, pc, hcpu⟩ := m.cpu_step watch
  rw [hcpu]

/-! ### What a step reports -/

/-- The trace of an instruction reports nothing else. -/
theorem any_events_poised (watch : Bool) (op : Opcode) (m : Machine M) (reports : Event → Bool)
    (htrace : ∀ line, reports (.instruction line) = false) :
    (m.poised watch op).1.any reports = false := by
  unfold poised traceInstruction
  split
  · simp [htrace]
  · rfl

/-- A step reports the service of an interrupt if that interrupt is due. -/
theorem services_step (watch : Bool) (m : Machine M) (interrupt : Interrupt) :
    (m.step watch).services interrupt = decide (m.cpu.due? = some interrupt) := by
  obtain ⟨source, hdue, hstep⟩ | ⟨hdue, -, hstep⟩ | ⟨op, perform, hop, hperform, hstep⟩ :=
    m.step_cases watch
  · simp [hstep, hdue, Step.services, service, Event.isServiceOf]
  · simp [hstep, hdue, Step.services, stopped, Event.isServiceOf]
  · have htrace := any_events_poised watch op m (Event.isServiceOf interrupt) fun _ ↦ rfl
    have hevents := (Action.spec_of_perform? hperform (m.poised watch op).2).2.1 interrupt
    simp [hstep, due?_of_upcoming? hop, Step.services, executed, htrace, hevents]

/-- What only actions report is reported by the step that performs one. -/
theorem any_events_step (watch : Bool) (m : Machine M) (reports : Event → Bool)
    (hservice : ∀ source pc handler, reports (.interrupt source pc handler) = false)
    (hillegal : ∀ byte pc, reports (.illegalOpcode byte pc) = false)
    (htrace : ∀ line, reports (.instruction line) = false) (reported : Action → Bool)
    (haction : ∀ {action : Action} {operand : Operand} {next : UInt16}
      {perform : Machine M → Performed M}, action.perform? operand next = some perform →
        ∀ m, (perform m).events.any reports = reported action) :
    (m.step watch).events.any reports = m.upcoming?.any fun op ↦ reported op.mnemonic.action := by
  obtain ⟨source, hdue, hstep⟩ | ⟨hdue, hbyte, hstep⟩ | ⟨op, perform, hop, hperform, hstep⟩ :=
    m.step_cases watch
  · simp [hstep, upcoming?, hdue, service, hservice]
  · simp [hstep, upcoming?, hdue, hbyte, stopped, hillegal]
  · simp [hstep, hop, executed, any_events_poised watch op m reports htrace, haction hperform]

/-- A step reports a return if it executes the instruction for it. -/
theorem returns_step (watch : Bool) (m : Machine M) :
    (m.step watch).returns = m.upcoming?.any fun op ↦ op.mnemonic = .rti := by
  have hreports := any_events_step watch m Event.isReturn (fun _ _ _ ↦ rfl) (fun _ _ ↦ rfl)
    (fun _ ↦ rfl) Action.isReturn fun hperform m ↦ (Action.spec_of_perform? hperform m).2.2.1
  simp only [Action.isReturn_action] at hreports
  exact hreports

/-- A step reports a break if it executes the instruction for it. -/
theorem breaks_step (watch : Bool) (m : Machine M) :
    (m.step watch).breaks = m.upcoming?.any fun op ↦ op.mnemonic = .brk := by
  have hreports := any_events_step watch m Event.isBreak (fun _ _ _ ↦ rfl) (fun _ _ ↦ rfl)
    (fun _ ↦ rfl) Action.isBreak fun hperform m ↦ (Action.spec_of_perform? hperform m).2.2.2
  simp only [Action.isBreak_action] at hreports
  exact hreports

/-- A step settles a request by servicing it, and in no other way. -/
theorem get_unanswered (watch : Bool) (m : Machine M) (interrupt : Interrupt) :
    m.unanswered.get interrupt =
      (!(m.step watch).services interrupt && m.cpu.pending.get interrupt) := by
  rw [services_step, unanswered]
  cases m.cpu.due? with
  | none => simp
  | some source =>
    by_cases hsource : interrupt = source
    · simp [hsource]
    · simp [hsource, Ne.symm hsource]

/-- A step enters a handler by servicing its interrupt, and leaves it by a return. -/
theorem get_entered (watch : Bool) (m : Machine M) (interrupt : Interrupt) :
    m.entered.get interrupt =
      ((m.step watch).services interrupt ||
        !(m.step watch).returns && m.cpu.running.get interrupt) := by
  rw [services_step, returns_step, entered]
  cases hdue : m.cpu.due? with
  | none =>
    cases m.upcoming?.any fun op ↦ op.mnemonic = .rti with
    | false => simp
    | true => cases interrupt <;> rfl
  | some source =>
    by_cases hsource : interrupt = source
    · simp [hsource]
    · simp [hsource, Ne.symm hsource, upcoming?, hdue]

/-- A service goes on at the handler. -/
theorem pc_of_services {watch : Bool} {m : Machine M} {interrupt : Interrupt}
    (hservices : (m.step watch).services interrupt = true) :
    (m.step watch).machine.cpu.pc = m.cpu.vectors.get interrupt := by
  rw [services_step, decide_eq_true_iff] at hservices
  rw [step_of_due? hservices]
  rfl

/-- A break goes on at the handler that it shares with one of the interrupts. -/
theorem pc_of_breaks {watch : Bool} {m : Machine M} (hbreaks : (m.step watch).breaks = true) :
    (m.step watch).machine.cpu.pc = m.cpu.vectors.irq := by
  rw [breaks_step] at hbreaks
  obtain ⟨op, hop, hbrk⟩ := (Option.any_eq_true _ _).mp hbreaks
  obtain ⟨perform, hperform, hstep⟩ := step_of_upcoming? hop watch
  have hbreak : op.mnemonic.action.isBreak = true := by rw [Action.isBreak_action, hbrk]
  rw [hstep]
  exact (Action.pc_of_isBreak hperform hbreak _).trans
    (congrArg (·.vectors.irq) (cpu_poised watch op m))

end Machine

end Mos6502
