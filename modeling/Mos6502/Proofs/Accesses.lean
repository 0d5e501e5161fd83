import Mos6502.Board
import Mos6502.Proofs.Fetching

/-!
How often a step uses the bus. An instruction is fetched byte by byte, a pointer takes two more reads, and
then its action makes the accesses that `Action.traffic` lists, in that order. `Opcode.accessCount` adds
them up from the mode and the kind of the action alone. The decode table, where the costs were entered by
hand, leaves room for them in each of its entries (`Opcode.accessCount_le_cycles`), so a step never makes
more accesses than it costs cycles.

Bytes play no part in this, and so it holds on every bus.
-/

set_option autoImplicit false

namespace Mos6502

/-- What an access does, without the byte that goes over the bus. -/
inductive Traffic where
  | reads (address : UInt16)
  | writes (address : UInt16)
  deriving DecidableEq, Repr

/-- An access without its byte. -/
def Access.traffic : Access → Traffic
  | .read address _ => .reads address
  | .write address _ => .writes address

/-- The accesses that an action makes, in order, given its operand and the stack pointer. -/
def Action.traffic (operand : Operand) (sp : UInt8) : Action → List Traffic
  | .consume _ | .touch => operand.address?.toList.map .reads
  | .store _ => operand.address?.toList.map .writes
  | .change _ => operand.address?.toList.flatMap fun cell ↦ [.reads cell, .writes cell]
  | .changeThenConsume _ _ =>
    operand.address?.toList.flatMap fun cell ↦ [.reads cell, .writes cell, .reads cell]
  | .call => [.writes (stackCell sp), .writes (stackCell (sp - 1))]
  | .endCall => [.reads (stackCell (sp + 1)), .reads (stackCell (sp + 1 + 1))]
  | .softwareBreak =>
    [.writes (stackCell sp), .writes (stackCell (sp - 1)), .writes (stackCell (sp - 1 - 1))]
  | .endInterrupt =>
    [.reads (stackCell (sp + 1)), .reads (stackCell (sp + 1 + 1)),
      .reads (stackCell (sp + 1 + 1 + 1))]
  | .push _ => [.writes (stackCell sp)]
  | .pull _ => [.reads (stackCell (sp + 1))]
  | .inherent _ | .branch _ | .jump => []

/-- How many accesses an action makes, given whether its operand names a cell. -/
def Action.accessCount (cell : Bool) : Action → Nat
  | .consume _ | .store _ | .touch => if cell then 1 else 0
  | .change _ => if cell then 2 else 0
  | .changeThenConsume _ _ => if cell then 3 else 0
  | .push _ | .pull _ => 1
  | .call | .endCall => 2
  | .softwareBreak | .endInterrupt => 3
  | .inherent _ | .branch _ | .jump => 0

theorem Action.length_traffic (operand : Operand) (sp : UInt8) (action : Action) :
    (action.traffic operand sp).length = action.accessCount operand.address?.isSome := by
  cases action with
  | consume | store | touch | change | changeThenConsume =>
    rw [traffic]
    cases operand.address? <;> rfl
  | _ => rfl

/-- Whether the operands of a mode are found through a pointer. -/
def Mode.hasPointer : Mode → Bool
  | .indirect | .indirectX | .indirectY => true
  | _ => false

namespace Opcode

/-- How many reads find an instruction and its operand: the bytes of the instruction, and two for a
pointer. -/
def fetchCount (op : Opcode) : Nat :=
  op.size + if op.mode.hasPointer then 2 else 0

/-- How many accesses an instruction makes. -/
def accessCount (op : Opcode) : Nat :=
  op.fetchCount + op.mnemonic.action.accessCount op.mode.namesCell

/-- No entry of the decode table makes more accesses than it costs cycles. -/
theorem accessCount_le_cycles {byte : UInt8} {op : Opcode} (hdecode : decode byte = some op) :
    op.accessCount ≤ op.cycles :=
  of_decide_eq_true <|
    of_decode (fun op ↦ op.accessCount ≤ op.cycles) (by decide +kernel) hdecode

end Opcode

variable {M : Type}

/-! ### Accesses of an action -/

namespace Machine

/-- What a machine with a recorder has read and written, in order, without the bytes. -/
def traffic (m : Machine (Recorder M)) : List Traffic :=
  m.accesses.map Access.traffic

@[simp] theorem traffic_mapState (f : State → State) (m : Machine (Recorder M)) :
    (m.mapState f).traffic = m.traffic :=
  rfl

variable [Bus M]

@[simp] theorem traffic_read (address : UInt16) (m : Machine (Recorder M)) :
    (m.read address).2.traffic = m.traffic ++ [.reads address] := by
  rw [traffic, accesses, mem_read, Recorder.toList_accesses_read, List.map_append]
  rfl

@[simp] theorem traffic_write (address : UInt16) (value : UInt8) (m : Machine (Recorder M)) :
    (m.write address value).traffic = m.traffic ++ [.writes address] := by
  simp [traffic, accesses, Bus.write, Access.traffic]

theorem traffic_push (value : UInt8) (m : Machine (Recorder M)) :
    (m.push value).traffic = m.traffic ++ [.writes (stackCell m.cpu.registers.sp)] :=
  m.traffic_write _ value

theorem traffic_pop (m : Machine (Recorder M)) :
    m.pop.2.traffic = m.traffic ++ [.reads (stackCell (m.cpu.registers.sp + 1))] :=
  traffic_read _ (m.mapRegisters _)

theorem traffic_pushWord (value : UInt16) (m : Machine (Recorder M)) :
    (m.pushWord value).traffic = m.traffic ++
      [.writes (stackCell m.cpu.registers.sp), .writes (stackCell (m.cpu.registers.sp - 1))] := by
  rw [pushWord, traffic_push, traffic_push, List.append_assoc]
  rfl

theorem traffic_popWord (m : Machine (Recorder M)) :
    m.popWord.2.traffic = m.traffic ++
      [.reads (stackCell (m.cpu.registers.sp + 1)),
        .reads (stackCell (m.cpu.registers.sp + 1 + 1))] := by
  have hpopped : m.popWord.2.traffic = m.pop.2.pop.2.traffic := rfl
  rw [hpopped, traffic_pop, traffic_pop, List.append_assoc]
  rfl

theorem traffic_enterHandler (software : Bool) (returnTo handler : UInt16)
    (m : Machine (Recorder M)) :
    (m.enterHandler software returnTo handler).traffic = m.traffic ++
      [.writes (stackCell m.cpu.registers.sp), .writes (stackCell (m.cpu.registers.sp - 1)),
        .writes (stackCell (m.cpu.registers.sp - 1 - 1))] := by
  have hpushed : (m.enterHandler software returnTo handler).traffic =
      ((m.pushWord returnTo).push _).traffic := rfl
  rw [hpushed, traffic_push, traffic_pushWord, List.append_assoc]
  rfl

theorem traffic_changeCell (cell : CellOp) (address : UInt16) (m : Machine (Recorder M)) :
    (m.changeCell cell address).traffic = m.traffic ++ [.reads address, .writes address] := by
  have hchanged : (m.changeCell cell address).traffic = ((m.read address).2.write address _).traffic :=
    rfl
  rw [hchanged, traffic_write, traffic_read, List.append_assoc]
  rfl

theorem traffic_consume (compute : ByteOp) {operand : Operand} {source : Source}
    (hsource : operand.source? = some source) (m : Machine (Recorder M)) :
    (m.consume compute source).traffic = m.traffic ++ operand.address?.toList.map .reads := by
  cases operand with
  | immediate value =>
    cases hsource
    exact (List.append_nil _).symm
  | absolute | zeroPage | indirectResolved =>
    cases hsource
    exact m.traffic_read _
  | implied | accumulator | indirect | relative => cases hsource

end Machine

variable [Bus M]

/-- An action makes the accesses that are listed for it. -/
theorem Action.traffic_perform {action : Action} {operand : Operand} {next : UInt16}
    {perform : Machine (Recorder M) → Performed (Recorder M)}
    (hperform : action.perform? operand next = some perform) (m : Machine (Recorder M)) :
    (perform m).machine.traffic = m.traffic ++ action.traffic operand m.cpu.registers.sp := by
  cases action with
  | inherent =>
    cases hperform
    exact (List.append_nil _).symm
  | consume compute =>
    obtain ⟨source, hsource, rfl⟩ := Option.map_eq_some_iff.mp hperform
    exact m.traffic_consume compute hsource
  | store value =>
    obtain ⟨address, haddress, rfl⟩ := Option.map_eq_some_iff.mp hperform
    rw [traffic, haddress]
    exact m.traffic_write address _
  | change cell =>
    rw [perform?] at hperform
    split at hperform
    · rename_i hoperand
      cases hperform
      rw [hoperand]
      exact (List.append_nil _).symm
    · obtain ⟨address, haddress, rfl⟩ := Option.map_eq_some_iff.mp hperform
      rw [traffic, haddress]
      exact m.traffic_changeCell cell address
  | changeThenConsume cell compute =>
    obtain ⟨address, haddress, rfl⟩ := Option.map_eq_some_iff.mp hperform
    rw [traffic, haddress]
    calc ((m.changeCell cell address).consume compute (.cell address)).traffic
        = (m.changeCell cell address).traffic ++ [Traffic.reads address] :=
          (m.changeCell cell address).traffic_read address
      _ = m.traffic ++ [.reads address, .writes address, .reads address] := by
          rw [Machine.traffic_changeCell, List.append_assoc]
          rfl
  | touch =>
    rw [perform?] at hperform
    rw [traffic]
    split at hperform
    · rename_i haddress
      cases hperform
      rw [haddress]
      exact (List.append_nil _).symm
    · rename_i address haddress
      cases hperform
      rw [haddress]
      exact m.traffic_read address
  | branch condition =>
    obtain ⟨target, -, rfl⟩ := Option.map_eq_some_iff.mp hperform
    rw [Machine.branch]
    split <;> exact (List.append_nil _).symm
  | jump =>
    obtain ⟨target, -, rfl⟩ := Option.map_eq_some_iff.mp hperform
    exact (List.append_nil _).symm
  | call =>
    obtain ⟨target, -, rfl⟩ := Option.map_eq_some_iff.mp hperform
    exact m.traffic_pushWord (next - 1)
  | endCall =>
    cases hperform
    exact m.traffic_popWord
  | softwareBreak =>
    cases hperform
    exact m.traffic_enterHandler true (next + 1) m.cpu.vectors.irq
  | endInterrupt =>
    cases hperform
    let popped := m.pop.2.mapRegisters fun r ↦ { r with flags := .ofPulledByte m.pop.1 }
    have hstatus : popped.traffic = m.traffic ++ [.reads (stackCell (m.cpu.registers.sp + 1))] :=
      m.traffic_pop
    calc popped.popWord.2.traffic
        = popped.traffic ++ [.reads (stackCell (popped.cpu.registers.sp + 1)),
            .reads (stackCell (popped.cpu.registers.sp + 1 + 1))] := popped.traffic_popWord
      _ = m.traffic ++ traffic operand m.cpu.registers.sp .endInterrupt := by
          rw [hstatus, List.append_assoc]
          rfl
  | push value =>
    cases hperform
    exact m.traffic_push _
  | pull compute =>
    cases hperform
    exact m.traffic_pop

/-! ### Accesses of a step -/

@[simp] theorem length_readsFrom (address : UInt16) (bytes : List UInt8) :
    (readsFrom address bytes).length = bytes.length := by
  induction bytes generalizing address with
  | nil => rfl
  | cons byte rest ih => rw [readsFrom, List.length_cons, ih, List.length_cons]

@[simp] theorem Bus.length_readBytes (mem : M) (address : UInt16) (count : Nat) :
    (Bus.readBytes mem address count).1.length = count := by
  induction count generalizing mem address with
  | zero => rfl
  | succ count ih => exact congrArg Nat.succ (ih (Bus.read mem address).2 (address + 1))

namespace Operand

/-- A mode whose operand is found through a pointer reads the two bytes of the pointer. -/
theorem length_readsOfPointer (mode : Mode) (x : UInt8) (mem : M) (address : UInt16) :
    let operand := Bus.readBytes mem address mode.operandSize
    ((pointer? mode x operand.1).elim [] (readsOfPointer operand.2)).length =
      if mode.hasPointer then 2 else 0 := by
  cases mode <;> rfl

/-- Only the operands of some modes name a cell. -/
theorem isSome_address?_resolve_eq (mode : Mode) (pc : UInt16) (x y : UInt8) (mem : M) :
    (resolve mode pc x y mem).1.operand.address?.isSome = mode.namesCell := by
  cases mode <;> rfl

end Operand

namespace Machine

/-- Reading an instruction takes the reads of its fetch. -/
theorem exists_traffic_decoded (op : Opcode) (m : Machine (Recorder M)) :
    ∃ fetch, (m.decoded op).traffic = m.traffic ++ fetch ∧ fetch.length = op.fetchCount := by
  let operand := Bus.readBytes m.fetched.mem.bus (m.cpu.pc + 1) op.mode.operandSize
  let pointer := (Operand.pointer? op.mode m.cpu.registers.x operand.1).elim []
    (readsOfPointer operand.2)
  let opcode := Access.read m.cpu.pc (Bus.read m.mem.bus m.cpu.pc).1
  have hdecoded : (m.decoded op).accesses =
      m.accesses ++ opcode :: (readsFrom (m.cpu.pc + 1) operand.1 ++ pointer) := by
    have hresolve : (m.decoded op).accesses =
        m.fetched.accesses ++ (readsFrom (m.cpu.pc + 1) operand.1 ++ pointer) :=
      Operand.accesses_resolve op.mode m.cpu.pc m.cpu.registers.x m.cpu.registers.y m.fetched.mem
    have hopcode : m.fetched.accesses = m.accesses ++ [opcode] :=
      m.mem.toList_accesses_read m.cpu.pc
    rw [hresolve, hopcode, List.append_assoc, List.singleton_append]
  refine ⟨_, (congrArg (List.map Access.traffic) hdecoded).trans List.map_append, ?_⟩
  have hpointer : pointer.length = if op.mode.hasPointer then 2 else 0 :=
    Operand.length_readsOfPointer op.mode m.cpu.registers.x m.fetched.mem.bus (m.cpu.pc + 1)
  rw [List.length_map, List.length_cons, List.length_append, length_readsFrom,
    Bus.length_readBytes, hpointer, Opcode.fetchCount, Opcode.size, Mode.instructionSize]
  omega

/-- A step that executes an instruction and is not traced fetches it and then makes the accesses of its
action. -/
theorem exists_traffic_step {m : Machine (Recorder M)} {op : Opcode} (hop : m.upcoming? = some op)
    (htrace : m.cpu.options.trace = false) (watch : Bool) :
    ∃ fetch, fetch.length = op.fetchCount ∧
      (m.step watch).machine.traffic = m.traffic ++ fetch ++
        op.mnemonic.action.traffic (m.resolved op).operand m.cpu.registers.sp := by
  obtain ⟨perform, hperform, hstep⟩ := step_of_not_trace hop htrace watch
  obtain ⟨fetch, hfetch, hlength⟩ := m.exists_traffic_decoded op
  refine ⟨fetch, hlength, ?_⟩
  rw [hstep, traffic_mapState, Action.traffic_perform hperform, hfetch]
  rfl

/-- A step that services an interrupt makes the three writes of the frame. -/
theorem traffic_step_of_due? {m : Machine (Recorder M)} {interrupt : Interrupt}
    (hdue : m.cpu.due? = some interrupt) (watch : Bool) :
    (m.step watch).machine.traffic = m.traffic ++
      [.writes (stackCell m.cpu.registers.sp), .writes (stackCell (m.cpu.registers.sp - 1)),
        .writes (stackCell (m.cpu.registers.sp - 1 - 1))] := by
  rw [step_of_due? hdue]
  exact traffic_enterHandler false m.cpu.pc (m.cpu.vectors.get interrupt) (m.mapState _)

/-- A step that executes an instruction and is not traced makes as many accesses as the instruction. -/
theorem length_accesses_step {m : Machine (Recorder M)} {op : Opcode}
    (hop : m.upcoming? = some op) (htrace : m.cpu.options.trace = false) (watch : Bool) :
    (m.step watch).machine.accesses.length = m.accesses.length + op.accessCount := by
  obtain ⟨fetch, hfetch, htraffic⟩ := exists_traffic_step hop htrace watch
  have hcell : (m.resolved op).operand.address?.isSome = op.mode.namesCell :=
    Operand.isSome_address?_resolve_eq ..
  have hlength := congrArg List.length htraffic
  rw [List.length_append, List.length_append, traffic, traffic, List.length_map, List.length_map,
    hfetch, Action.length_traffic, hcell] at hlength
  rw [hlength, Opcode.accessCount, Nat.add_assoc]

/-- A step that has an instruction to execute succeeds. -/
theorem exists_cost_of_upcoming? {m : Machine M} {op : Opcode} (hop : m.upcoming? = some op)
    (watch : Bool) : ∃ cost, (m.step watch).result = .ok cost := by
  obtain ⟨perform, -, hstep⟩ := step_of_upcoming? hop watch
  exact ⟨_, congrArg Step.result hstep⟩

/-- A step that succeeds costs its price. -/
theorem val_of_ok {watch : Bool} {m : Machine M} {cost : Cost}
    (hcost : (m.step watch).result = .ok cost) : cost.val = m.price := by
  rw [← m.charged_step watch, Step.charged, hcost]

/-- A step that has a price succeeds. -/
theorem ok_of_price {m : Machine M} {cost : Cost} (hprice : m.price = cost.val) (watch : Bool) :
    (m.step watch).result = .ok cost := by
  cases hresult : (m.step watch).result with
  | ok found => exact congrArg Except.ok (Subtype.ext ((val_of_ok hresult).trans hprice))
  | error fault =>
    have hcharged : (m.step watch).charged = 0 := by rw [Step.charged, hresult]
    have hpositive := cost.property
    rw [charged_step] at hcharged
    omega

/-- A step costs the same with a recorder on the bus. -/
theorem result_step_recorded {watch : Bool} {m : Machine M} {cost : Cost}
    (hcost : (m.step watch).result = .ok cost) (watchRecorded : Bool) :
    (m.recorded.step watchRecorded).result = .ok cost := by
  have hprice : m.recorded.price = m.price := rfl
  exact ok_of_price (hprice.trans (val_of_ok hcost).symm) watchRecorded

theorem resolved_recorded (op : Opcode) (m : Machine M) :
    m.recorded.resolved op = m.resolved op :=
  (Recorder.resolve_bus op.mode m.cpu.pc m.cpu.registers.x m.cpu.registers.y
    m.recorded.fetched.mem).1

end Machine

namespace Emulator

/-- No step uses the bus more often than it costs cycles. Whatever the processor and the bus are, a step
that succeeds and is not traced makes at most as many reads and writes as it returns cycles, and an
instruction makes a number of them that its entry in the decode table determines. The composed
instructions end with a read of their cell, a write to it and another read; the service of an interrupt
is three writes to the stack and nothing else. -/
theorem accesses_le_cost (s : Emulator M) (htrace : s.machine.cpu.options.trace = false)
    (cost : Cost) (hcost : s.step.1 = .ok cost) :
    let m := s.machine
    let sp := m.cpu.registers.sp
    let accesses := s.recorded.step.2.machine.accesses
    s.recorded.step.1 = .ok cost ∧
    accesses.length ≤ cost.val ∧
    (∀ op, m.upcoming? = some op →
      accesses.length = op.accessCount ∧
      ∀ cell compute, op.mnemonic.action = .changeThenConsume cell compute →
        ∃ address fetch, (m.resolved op).operand.address? = some address ∧
          accesses.map Access.traffic =
            fetch ++ [.reads address, .writes address, .reads address]) ∧
    ∀ interrupt, m.cpu.due? = some interrupt →
      accesses.map Access.traffic =
        [.writes (stackCell sp), .writes (stackCell (sp - 1)), .writes (stackCell (sp - 1 - 1))] := by
  intro m sp accesses
  have hcount : ∀ op, m.upcoming? = some op → accesses.length = op.accessCount := by
    intro op hop
    have hlength := Machine.length_accesses_step (m := m.recorded) hop htrace s.recorded.watched
    exact hlength.trans (Nat.zero_add _)
  have hservice : ∀ interrupt, m.cpu.due? = some interrupt → accesses.map Access.traffic =
      [.writes (stackCell sp), .writes (stackCell (sp - 1)), .writes (stackCell (sp - 1 - 1))] :=
    fun interrupt hdue ↦ Machine.traffic_step_of_due? (m := m.recorded) hdue s.recorded.watched
  refine ⟨Machine.result_step_recorded hcost s.recorded.watched, ?_, fun op hop ↦
    ⟨hcount op hop, fun cell compute hcomposed ↦ ?_⟩, hservice⟩
  · rw [Machine.val_of_ok hcost]
    obtain ⟨interrupt, hdue, -⟩ | ⟨-, -, hstep⟩ | ⟨op, -, hop, -, -⟩ := m.step_cases s.watched
    · have hlength : accesses.length = 3 :=
        (List.length_map _).symm.trans (congrArg List.length (hservice interrupt hdue))
      rw [hlength, Machine.price_of_due? hdue]
      decide
    · rw [fst_step, hstep] at hcost
      cases hcost
    · have hentry := Opcode.accessCount_le_cycles (Machine.decode_of_upcoming? hop)
      rw [hcount op hop, Machine.price_of_upcoming? hop]
      omega
  · have hnames : (m.resolved op).operand.address?.isSome = true := by
      have hsuits := Opcode.suits_of_decode (Machine.decode_of_upcoming? hop)
      rw [hcomposed] at hsuits
      exact (Operand.isSome_address?_resolve_eq ..).trans hsuits
    obtain ⟨address, haddress⟩ := Option.isSome_iff_exists.mp hnames
    obtain ⟨fetch, -, htraffic⟩ :=
      Machine.exists_traffic_step (m := m.recorded) hop htrace s.recorded.watched
    have hlisted : op.mnemonic.action.traffic (m.recorded.resolved op).operand sp =
        [.reads address, .writes address, .reads address] := by
      rw [hcomposed, Machine.resolved_recorded, Action.traffic, haddress]
      rfl
    exact ⟨address, fetch, haddress, htraffic.trans (congrArg (fetch ++ ·) hlisted)⟩

/-- A composed instruction on the cell of a device that counts how often it is read: it makes an access
in each of its cycles. -/
theorem accesses_le_cost_of_composed_on_counter :
    let ram := (Ram.blank.set 0x8000 0x07).set 0x8001 0x10
    let board : Board := { ram, counter := some { address := 0x0010 } }
    let state : State := { State.powerOn with pc := 0x8000 }
    let s : Emulator Board := ⟨⟨⟨state, .both 0, {}⟩, board⟩, {}⟩
    ∃ cost, s.step.1 = .ok cost ∧ 5 ≤ cost.val ∧
      s.recorded.step.2.machine.accesses.length = 5 := by
  intro ram board state s
  have hread : (Board.read board 0x8000).1 = 0x07 := by
    have helsewhere : ¬(0x8000 : UInt16) = 0x0010 := by decide
    simp only [board, Board.read, if_neg helsewhere]
    simp [ram, Ram.get_set]
  -- Said of every board, so that the cells of this one are not looked into.
  have hfetch (other : Board) :
      (Machine.mk (M := Board) ⟨state, .both 0, {}⟩ other).opcodeByte =
        (Board.read other 0x8000).1 := rfl
  have hbyte : s.machine.opcodeByte = 0x07 := (hfetch board).trans hread
  have hdecode : (Opcode.decodeUnder {} 0x07).any fun op ↦ op.accessCount = 5 := by decide
  obtain ⟨op, hdecoded, hcount⟩ := (Option.any_eq_true _ _).mp hdecode
  have hop : s.machine.upcoming? = some op := by
    rw [Machine.upcoming?_of_due? rfl, hbyte]
    exact hdecoded
  obtain ⟨cost, hresult⟩ := Machine.exists_cost_of_upcoming? hop s.watched
  have hcost : s.step.1 = .ok cost := s.fst_step.trans hresult
  obtain ⟨-, hbudget, hinstruction, -⟩ := accesses_le_cost s rfl cost hcost
  have hlength := (hinstruction op hop).1.trans (of_decide_eq_true hcount)
  exact ⟨cost, hcost, hlength ▸ hbudget, hlength⟩

end Emulator

end Mos6502
