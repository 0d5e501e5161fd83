import Mos6502.Recorder
import Mos6502.Proofs.Computations
import Mos6502.Proofs.Halting

/-!
What the options of a processor gate. An instruction looks at them in one place only, where it adds
or subtracts, and there only if the D flag is set; a step looks at them once more, when it decodes.

So a machine with other options does what it did before, as long as its steps decode the same bytes
to the same instructions and none of them adds or subtracts under D (`Machine.step_setOptions`). The
options say nothing about what is read and written, so this holds on every bus, and with a recorder
in front of the bus the accesses are the same as well.
-/

set_option autoImplicit false

namespace Mos6502

namespace Mnemonic

/-- The mnemonics that add or subtract, alone or after they have changed a cell. -/
def arithmetic : List Mnemonic :=
  [.adc, .sbc, .rra, .isc]

end Mnemonic

namespace Action

/-- Where D has a given value, what an action computes does not depend on decimal arithmetic being
enabled. -/
def Indifferent (d : Bool) (action : Action) : Prop :=
  ∀ compute, action.compute? = some compute → ∀ (decimal : Bool) (r : Registers) (byte : UInt8),
    r.flags.d = d → compute decimal r byte = compute false r byte

/-- Only additions and subtractions look at decimal arithmetic, and only if D is set. -/
theorem indifferent_action {mnemonic : Mnemonic} {d : Bool}
    (hspared : mnemonic ∈ Mnemonic.arithmetic → d = false) : mnemonic.action.Indifferent d := by
  intro compute hcompute decimal r byte hd
  by_cases harithmetic : mnemonic ∈ Mnemonic.arithmetic
  · obtain rfl : d = false := hspared harithmetic
    have hadd : Registers.add decimal r byte = Registers.add false r byte := by
      simp [Registers.add, hd]
    have hsubtract : Registers.subtract decimal r byte = Registers.subtract false r byte := by
      simp [Registers.subtract, hd]
    simp only [Mnemonic.arithmetic, List.mem_cons, List.not_mem_nil, or_false] at harithmetic
    rcases harithmetic with rfl | rfl | rfl | rfl <;> cases hcompute
    · exact hadd
    · exact hsubtract
    · exact hadd
    · exact hsubtract
  · cases mnemonic with
    | adc | sbc | rra | isc => exact absurd (by decide) harithmetic
    | _ => cases hcompute <;> rfl

end Action

/-- What an action came to, on a machine with other options. -/
def Performed.setOptions {M : Type} (options : Options) (p : Performed M) : Performed M :=
  { p with machine := p.machine.setOptions options }

/-- What a step came to, on a machine with other options. -/
def Step.setOptions {M : Type} (options : Options) (s : Step M) : Step M :=
  { s with machine := s.machine.setOptions options }

variable {M : Type} [Bus M]

/-! ### Actions -/

namespace Machine

/-- A computation that comes to the same under two settings of decimal arithmetic does so on a
machine whose options differ in it. -/
theorem consume_setOptions {options : Options} {compute : ByteOp} {m : Machine M}
    (hsame : ∀ (r : Registers) (byte : UInt8), r.flags.d = m.cpu.registers.flags.d →
      compute options.decimalMode r byte = compute m.cpu.options.decimalMode r byte)
    (source : Source) :
    (m.setOptions options).consume compute source =
      (m.consume compute source).setOptions options := by
  obtain ⟨cpu, mem⟩ := m
  cases source with
  | value byte =>
    simp only [consume, setOptions, mapRegisters, mapState]
    rw [hsame cpu.registers byte rfl]
  | cell address =>
    simp only [consume, setOptions, mapRegisters, mapState, read, onBus]
    rw [hsame cpu.registers _ rfl]

omit [Bus M] in
theorem branch_setOptions (options : Options) (condition : Flags → Bool) (next target : UInt16)
    (m : Machine M) :
    (m.setOptions options).branch condition next target =
      (m.branch condition next target).setOptions options := by
  by_cases htaken : condition m.cpu.registers.flags = true
  · simp only [branch, Performed.setOptions]
    have htakenAlike : condition (m.setOptions options).cpu.registers.flags = true := htaken
    rw [if_pos htaken, if_pos htakenAlike]
    rfl
  · simp only [branch, Performed.setOptions]
    have htakenAlike : ¬condition (m.setOptions options).cpu.registers.flags = true := htaken
    rw [if_neg htaken, if_neg htakenAlike]
    rfl

end Machine

namespace Action

/-- An action does the same on a machine with other options, if decimal arithmetic is enabled there
as it was, or if the action is indifferent to it. -/
theorem perform?_setOptions {options : Options} {action : Action} {m : Machine M}
    (hsame : options.decimalMode = m.cpu.options.decimalMode ∨
      action.Indifferent m.cpu.registers.flags.d)
    (operand : Operand) (next : UInt16) :
    (action.perform? operand next).map (· (m.setOptions options)) =
      (action.perform? operand next).map fun perform ↦ (perform m).setOptions options := by
  have hcompute : ∀ compute, action.compute? = some compute → ∀ (r : Registers) (byte : UInt8),
      r.flags.d = m.cpu.registers.flags.d →
        compute options.decimalMode r byte = compute m.cpu.options.decimalMode r byte := by
    intro compute haction r byte hd
    rcases hsame with hdecimal | hindifferent
    · rw [hdecimal]
    · exact (hindifferent compute haction _ r byte hd).trans
        (hindifferent compute haction _ r byte hd).symm
  cases action with
  | consume compute =>
    simp only [perform?, Option.map_map, Function.comp_def,
      Machine.consume_setOptions (hcompute compute rfl)]
    rfl
  | changeThenConsume cell compute =>
    have hconsume (address : UInt16) :
        ((m.changeCell cell address).setOptions options).consume compute (.cell address) =
          ((m.changeCell cell address).consume compute (.cell address)).setOptions options := by
      apply Machine.consume_setOptions
      exact hcompute compute rfl
    have hchange (address : UInt16) : (m.setOptions options).changeCell cell address =
        (m.changeCell cell address).setOptions options := rfl
    simp only [perform?, Option.map_map, Function.comp_def, hchange, hconsume]
    rfl
  | branch condition =>
    simp only [perform?, Option.map_map, Function.comp_def, Machine.branch_setOptions]
  | change cell =>
    simp only [perform?]
    split
    · rfl
    · simp only [Option.map_map]
      rfl
  | touch =>
    simp only [perform?]
    split <;> rfl
  | store | jump | call =>
    simp only [perform?, Option.map_map]
    rfl
  | _ => rfl

/-- What an action does to a machine it does to the machine with other options. -/
theorem perform_setOptions {options : Options} {action : Action} {operand : Operand}
    {next : UInt16} {perform : Machine M → Performed M} {m : Machine M}
    (hperform : action.perform? operand next = some perform)
    (hsame : options.decimalMode = m.cpu.options.decimalMode ∨
      action.Indifferent m.cpu.registers.flags.d) :
    perform (m.setOptions options) = (perform m).setOptions options := by
  have hperformed := perform?_setOptions hsame operand next
  rw [hperform] at hperformed
  exact Option.some.inj hperformed

end Action

/-! ### Steps -/

namespace Machine

theorem traceInstruction_setOptions {options : Options} {m : Machine M}
    (htrace : options.trace = m.cpu.options.trace) (watch : Bool) (op : Opcode) :
    (m.setOptions options).traceInstruction watch op =
      ((m.traceInstruction watch op).1, (m.traceInstruction watch op).2.setOptions options) := by
  have htraced : (m.setOptions options).cpu.options.trace = m.cpu.options.trace := htrace
  unfold traceInstruction
  rw [htraced]
  split <;> rfl

/-- The next step of a machine does not notice that the options are others: it traces as before, it
decodes the byte at the program counter as before if it decodes one, and its action comes to the
same. -/
structure Overlooks (m : Machine M) (options : Options) : Prop where
  trace : options.trace = m.cpu.options.trace
  decode : m.cpu.due? = none →
    Opcode.decodeUnder options m.opcodeByte = Opcode.decodeUnder m.cpu.options m.opcodeByte
  decimal : ∀ op, m.upcoming? = some op → options.decimalMode = m.cpu.options.decimalMode ∨
    op.mnemonic.action.Indifferent m.cpu.registers.flags.d

/-- A step that does not notice the options comes to the same under others. -/
theorem step_setOptions {options : Options} {m : Machine M} (hoverlooks : m.Overlooks options)
    (watch : Bool) : (m.setOptions options).step watch = (m.step watch).setOptions options := by
  rcases m.step_cases watch with
    ⟨interrupt, hdue, hstep⟩ | ⟨hdue, hillegal, hstep⟩ | ⟨op, perform, hop, hperform, hstep⟩
  · rw [hstep, step_of_due? (m := m.setOptions options) hdue]
    rfl
  · have hillegalAlike : Opcode.decodeUnder (m.setOptions options).cpu.options
        (m.setOptions options).opcodeByte = none := (hoverlooks.decode hdue).trans hillegal
    rw [hstep, step_of_illegal (m := m.setOptions options) hdue hillegalAlike]
    rfl
  · have hdue : m.cpu.due? = none := due?_of_upcoming? hop
    have hopAlike : (m.setOptions options).upcoming? = some op := by
      rw [upcoming?_of_due? (m := m.setOptions options) hdue]
      exact (hoverlooks.decode hdue).trans (decodeUnder_of_upcoming? hop)
    have hready : (m.setOptions options).poised watch op =
        ((m.poised watch op).1, (m.poised watch op).2.setOptions options) :=
      traceInstruction_setOptions (m := m.decoded op) hoverlooks.trace watch op
    obtain ⟨performAlike, hperformAlike, hstepAlike⟩ := step_of_upcoming? hopAlike watch
    obtain rfl : perform = performAlike := Option.some.inj (hperform.symm.trans hperformAlike)
    have hperformed : perform ((m.poised watch op).2.setOptions options) =
        (perform (m.poised watch op).2).setOptions options := by
      apply Action.perform_setOptions hperform
      rw [cpu_poised]
      exact hoverlooks.decimal op hop
    rw [hstep, hstepAlike]
    simp only [executed, hready, hperformed]
    rfl

theorem options_step (watch : Bool) (m : Machine M) :
    (m.step watch).machine.cpu.options = m.cpu.options := by
  obtain ⟨registers, pc, hcpu⟩ := m.cpu_step watch
  rw [hcpu]

/-- A step that succeeds does not notice that undocumented opcodes are decoded too. -/
theorem overlooks_unofficial {watch : Bool} {m : Machine M}
    (hok : (m.step watch).result.isOk = true) :
    m.Overlooks { m.cpu.options with unofficialOpcodes := true } where
  trace := rfl
  decode hdue := by
    cases hbyte : Opcode.decodeUnder m.cpu.options m.opcodeByte with
    | none =>
      rw [step_of_illegal hdue hbyte] at hok
      cases hok
    | some op =>
      have hdecode := Opcode.decode_of_decodeUnder hbyte
      simp [Opcode.decodeUnder, hdecode]
  decimal _ _ := Or.inl rfl

/-- Whether the next step adds or subtracts while D is set. -/
def addsUnderD (m : Machine M) : Bool :=
  m.cpu.registers.flags.d && m.upcoming?.any fun op ↦ op.mnemonic ∈ Mnemonic.arithmetic

/-- Any other step does not notice whether decimal arithmetic is enabled. -/
theorem overlooks_decimal {m : Machine M} (hspared : m.addsUnderD = false) (decimalMode : Bool) :
    m.Overlooks { m.cpu.options with decimalMode } where
  trace := rfl
  decode _ := rfl
  decimal op hop := by
    refine Or.inr (Action.indifferent_action fun harithmetic ↦ ?_)
    simpa [addsUnderD, hop, harithmetic] using hspared

end Machine

namespace Emulator

/-- An emulator whose processor has other options. -/
def reconfigured (options : Options) (s : Emulator M) : Emulator M :=
  s.mapMachine (·.setOptions options)

/-- The options with which the processor of an emulator runs. -/
abbrev options (s : Emulator M) : Options :=
  s.machine.cpu.options

theorem step_reconfigured {options : Options} {s : Emulator M}
    (hoverlooks : s.machine.Overlooks options) :
    (s.reconfigured options).step = (s.step.1, s.step.2.reconfigured options) := by
  have hwatched : (s.reconfigured options).watched = s.watched :=
    congrArg (· && s.journal.wouldWrite .cpu .trace) hoverlooks.trace
  show (((s.machine.setOptions options).step (s.reconfigured options).watched).result,
      Emulator.mk ((s.machine.setOptions options).step (s.reconfigured options).watched).machine
        (s.journal.recordAll
          ((s.machine.setOptions options).step (s.reconfigured options).watched).events)) = _
  rw [hwatched, Machine.step_setOptions hoverlooks]
  rfl

theorem afterSteps_reconfigured {options : Options} {count : Nat} {s : Emulator M}
    (hoverlooks : ∀ i < count, (s.afterSteps i).machine.Overlooks options) :
    (s.reconfigured options).afterSteps count = (s.afterSteps count).reconfigured options := by
  induction count generalizing s with
  | zero => rfl
  | succ count ih =>
    have hfirst : (s.reconfigured options).step = (s.step.1, s.step.2.reconfigured options) :=
      step_reconfigured (hoverlooks 0 count.succ_pos)
    have hrest := ih (s := s.step.2) fun i hi ↦ hoverlooks (i + 1) (Nat.succ_lt_succ hi)
    unfold afterSteps
    rw [hfirst]
    exact hrest

theorem options_afterSteps (count : Nat) (s : Emulator M) :
    (s.afterSteps count).options = s.options := by
  induction count generalizing s with
  | zero => rfl
  | succ count ih => exact (ih s.step.2).trans (Machine.options_step s.watched s.machine)

/-- The first steps of an emulator come to the same with other options: each has the same result,
and leaves the same processor apart from the options, the same bus and the same journal. -/
def SameSteps (count : Nat) (s : Emulator M) (options : Options) : Prop :=
  (∀ i < count, ((s.reconfigured options).afterSteps i).step.1 = (s.afterSteps i).step.1) ∧
    ∀ i ≤ count, (s.reconfigured options).afterSteps i = (s.afterSteps i).reconfigured options

/-- Steps that do not notice the options come to the same under others. -/
theorem sameSteps_of_overlooks {count : Nat} {s : Emulator M} {options : Options}
    (hoverlooks : ∀ i < count, (s.afterSteps i).machine.Overlooks options) :
    s.SameSteps count options := by
  have hafter : ∀ i ≤ count,
      (s.reconfigured options).afterSteps i = (s.afterSteps i).reconfigured options :=
    fun i hi ↦ afterSteps_reconfigured fun k hk ↦ hoverlooks k (Nat.lt_of_lt_of_le hk hi)
  refine ⟨fun i hi ↦ ?_, hafter⟩
  rw [hafter i (Nat.le_of_lt hi), step_reconfigured (hoverlooks i hi)]

/-- Each switch gates what it names, and nothing else. Watch an emulator through a recorder for any
number of steps. If undocumented opcodes are illegal and all the steps succeed, then they come to
the same where those opcodes are decoded. And if none of the steps adds or subtracts while D is set,
then they come to the same whether decimal arithmetic is enabled or not. What is the same are the
results of the steps and, after each of them, the processor apart from its options, the memory with
every access to it, and the journal. -/
theorem switches_gate_what_they_name (count : Nat) (s : Emulator (Recorder M)) :
    (s.options.unofficialOpcodes = false → (∀ i < count, (s.afterSteps i).step.1.isOk = true) →
      s.SameSteps count { s.options with unofficialOpcodes := true }) ∧
    ((∀ i < count, (s.afterSteps i).machine.addsUnderD = false) →
      ∀ decimalMode, s.SameSteps count { s.options with decimalMode }) := by
  constructor
  · intro _ hok
    apply sameSteps_of_overlooks
    intro i hi
    rw [← options_afterSteps i s]
    exact Machine.overlooks_unofficial (hok i hi)
  · intro hspared decimalMode
    apply sameSteps_of_overlooks
    intro i hi
    rw [← options_afterSteps i s]
    exact Machine.overlooks_decimal (hspared i hi) decimalMode

/-- A request is serviced before an undocumented byte is looked at, the handler changes another one
into SEC before it gets there, and D is clear again when a byte is added. -/
theorem switches_gate_what_they_name_in_changing_code :
    let ram := (Ram.blank.set 0x0000 0x1A).load 0x0010 [0xE6, 0x12, 0x37, 0xD8, 0x69, 0x01]
    let registers : Registers := { Registers.powerOn with a := 0x19, flags := { d := true } }
    let state : State := { State.powerOn with registers, pending := ⟨true, false⟩ }
    let s : Emulator (Recorder Ram) :=
      ⟨⟨⟨state, ⟨0x0010, 0⟩, { unofficialOpcodes := false }⟩, { bus := ram }⟩, {}⟩
    s.options.unofficialOpcodes = false ∧ (∀ i < 5, (s.afterSteps i).step.1.isOk = true) ∧
      (∀ i < 5, (s.afterSteps i).machine.addsUnderD = false) ∧
      s.SameSteps 5 { s.options with unofficialOpcodes := true } ∧
      s.SameSteps 5 { s.options with decimalMode := true } := by
  intro ram registers state s
  have hok : ∀ i < 5, (s.afterSteps i).step.1.isOk = true := by decide
  have hspared : ∀ i < 5, (s.afterSteps i).machine.addsUnderD = false := by decide
  obtain ⟨hunofficial, hdecimal⟩ := switches_gate_what_they_name 5 s
  exact ⟨rfl, hok, hspared, hunofficial rfl hok, hdecimal hspared true⟩

end Emulator

end Mos6502
