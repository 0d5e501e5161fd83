import Mos6502.Proofs.Halting

/-!
What a step costs. The cost of an instruction is put together from the table, from what the operand
was found to be and from what its action adds. `Machine.price` says it from outside: the base cost of
the table, the `crossingCharge` of an instruction that only reads its operand and finds it on another
page than the base of its address, and the `branchCharge` of a branch that is taken. A step that
succeeds costs its price (`Machine.charged_step`).

The price of a step is read off the machine that the step starts from. So what a run of steps charges
is the sum of the prices along it (`Emulator.cycles_afterSteps`), and nothing that one step was
charged for is charged again to another.
-/

set_option autoImplicit false

namespace Mos6502

namespace Action

/-- Whether an action writes to its operand. -/
def writesOperand : Action → Bool
  | .store _ | .change _ | .changeThenConsume _ _ => true
  | _ => false

/-- The condition of a branch. -/
def condition? : Action → Option (Flags → Bool)
  | .branch condition => some condition
  | _ => none

end Action

/-- Whether the modes' addresses are sums that may lie on another page than their base. -/
def Mode.addsToBase : Mode → Bool
  | .absoluteX | .absoluteY | .indirectY => true
  | _ => false

namespace Opcode

/-- The table charges crossings to the instructions that read an indexed operand and do not write
it. -/
theorem chargesCrossing_of_decode {byte : UInt8} {op : Opcode} (hdecode : decode byte = some op) :
    op.chargesCrossing = (op.mode.addsToBase && !op.mnemonic.action.writesOperand) := by
  have hcheck := of_decode
    (fun op ↦ op.chargesCrossing == (op.mode.addsToBase && !op.mnemonic.action.writesOperand))
    (by decide +kernel) hdecode
  exact eq_of_beq hcheck

/-- The base costs leave room for what may be added to them. -/
theorem cycles_of_decode {byte : UInt8} {op : Opcode} (hdecode : decode byte = some op) :
    2 ≤ op.cycles ∧ op.cycles ≤ 8 ∧ (op.chargesCrossing = true → op.cycles ≤ 7) ∧
      (op.mode = .relative → op.cycles ≤ 6) := by
  have hcheck := of_decode
    (fun op ↦ 2 ≤ op.cycles ∧ op.cycles ≤ 8 ∧ (op.chargesCrossing = true → op.cycles ≤ 7) ∧
      (op.mode = .relative → op.cycles ≤ 6))
    (by decide +kernel) hdecode
  exact of_decide_eq_true hcheck

/-- Branches are relative. -/
theorem mode_of_condition? {byte : UInt8} {op : Opcode} (hdecode : decode byte = some op)
    {condition : Flags → Bool} (hbranch : op.mnemonic.action.condition? = some condition) :
    op.mode = .relative := by
  have hsuits := suits_of_decode hdecode
  cases haction : op.mnemonic.action with
  | branch found =>
    rw [haction] at hsuits
    simpa [Mode.suits] using hsuits
  | _ =>
    rw [haction] at hbranch
    cases hbranch

end Opcode

/-- Two addresses lie on different pages if their high bytes differ. -/
theorem crossesPage_eq (base effective : UInt16) :
    crossesPage base effective = decide (highByte effective ≠ highByte base) := by
  rw [Bool.eq_iff_iff]
  simp [crossesPage, ne_comm]

variable {M : Type} [Bus M]

/-- What performing an action adds to the cost: a branch that is taken costs one cycle, and two if it
leaves the page of the next instruction. -/
theorem Action.extraCycles_of_perform? {action : Action} {operand : Operand} {next : UInt16}
    {perform : Machine M → Performed M} (hperform : action.perform? operand next = some perform)
    (m : Machine M) :
    (perform m).extraCycles =
      if action.condition?.any (· m.cpu.registers.flags) then
        if operand.branchTarget?.any (crossesPage next ·) then 2 else 1
      else 0 := by
  cases action with
  | branch condition =>
    obtain ⟨target, htarget, rfl⟩ := Option.map_eq_some_iff.mp hperform
    rw [htarget, condition?, Option.any_some, Option.any_some, Machine.branch]
    by_cases htaken : condition m.cpu.registers.flags = true
    · rw [if_pos htaken, if_pos htaken]
    · rw [if_neg htaken, if_neg htaken]
  | inherent | endCall | softwareBreak | endInterrupt | push | pull =>
    cases hperform
    rfl
  | consume | store | changeThenConsume | jump | call =>
    obtain ⟨found, -, rfl⟩ := Option.map_eq_some_iff.mp hperform
    rfl
  | change cell =>
    rw [perform?] at hperform
    split at hperform
    · cases hperform
      rfl
    · obtain ⟨address, -, rfl⟩ := Option.map_eq_some_iff.mp hperform
      rfl
  | touch =>
    rw [perform?] at hperform
    split at hperform <;> cases hperform <;> rfl

namespace Machine

/-! ### The price of a step -/

/-- The base and the index whose sum is the address of the operand, if that may lie on another page
than the base. -/
def indexing? (op : Opcode) (m : Machine M) : Option (UInt16 × UInt8) :=
  let mem := m.fetched.mem
  let argument := m.cpu.pc + 1
  match op.mode with
  | .absoluteX => some ((Bus.readWord mem argument).1, m.cpu.registers.x)
  | .absoluteY => some ((Bus.readWord mem argument).1, m.cpu.registers.y)
  | .indirectY =>
    let pointer := Bus.read mem argument
    some ((Bus.readPointer pointer.2 (word pointer.1 0)).1, m.cpu.registers.y)
  | _ => none

/-- One cycle for an instruction that reads its operand, and does not write it, on another page than
that of the base. -/
def crossingCharge (op : Opcode) (m : Machine M) : Nat :=
  match m.indexing? op with
  | some (base, index) =>
    if op.mnemonic.action.writesOperand = false ∧ highByte (base + word index 0) ≠ highByte base then 1
    else 0
  | none => 0

/-- One cycle for a branch whose condition holds, and one more if its target lies on another page than
the instruction after it. -/
def branchCharge (op : Opcode) (m : Machine M) : Nat :=
  match op.mnemonic.action.condition? with
  | some condition =>
    let next := m.cpu.pc + 2
    let target := next + signExtend (Bus.read m.fetched.mem (m.cpu.pc + 1)).1
    if condition m.cpu.registers.flags then 1 + if highByte target ≠ highByte next then 1 else 0
    else 0
  | none => 0

/-- What the next step costs if it succeeds. -/
def price (m : Machine M) : Nat :=
  match m.cpu.due? with
  | some _ => interruptCycles
  | none => m.upcoming?.elim 0 fun op ↦ op.cycles + m.crossingCharge op + m.branchCharge op

/-- The operand lies at the sum of the base and the index. -/
theorem address?_of_indexing? {op : Opcode} {m : Machine M} {base : UInt16} {index : UInt8}
    (hindexing : m.indexing? op = some (base, index)) :
    (m.resolved op).operand.address? = some (base + word index 0) := by
  obtain ⟨mnemonic, unofficial, mode, cycles, charges, hcycles⟩ := op
  cases mode <;> cases hindexing <;> rfl

/-- Only some modes have a base that a register is added to. -/
theorem isSome_indexing? (op : Opcode) (m : Machine M) :
    (m.indexing? op).isSome = op.mode.addsToBase := by
  obtain ⟨mnemonic, unofficial, mode, cycles, charges, hcycles⟩ := op
  cases mode <;> rfl

/-- Indexing is found to have left a page if the sum lies on another one than the base. -/
theorem crossed_resolved (op : Opcode) (m : Machine M) :
    (m.resolved op).crossed =
      (m.indexing? op).any fun sum ↦ highByte (sum.1 + word sum.2 0) ≠ highByte sum.1 := by
  obtain ⟨mnemonic, unofficial, mode, cycles, charges, hcycles⟩ := op
  cases mode with
  | absoluteX | absoluteY | indirectY => exact crossesPage_eq _ _
  | _ => rfl

/-- The charge for a crossed page is the one that the table and the operand give. -/
theorem crossingCharge_eq {op : Opcode} {m : Machine M} (hop : m.upcoming? = some op) :
    m.crossingCharge op = if op.chargesCrossing && (m.resolved op).crossed then 1 else 0 := by
  rw [Opcode.chargesCrossing_of_decode (decode_of_upcoming? hop), crossed_resolved,
    ← m.isSome_indexing?, crossingCharge]
  cases m.indexing? op with
  | none => rfl
  | some sum => simp

/-- The charge for a branch is the one that its action adds. -/
theorem branchCharge_eq {op : Opcode} {m : Machine M} (hop : m.upcoming? = some op)
    {perform : Machine M → Performed M}
    (hperform : op.mnemonic.action.perform? (m.resolved op).operand (m.following op) = some perform)
    {ready : Machine M} (hcpu : ready.cpu = m.cpu) :
    (perform ready).extraCycles = m.branchCharge op := by
  rw [Action.extraCycles_of_perform? hperform, branchCharge, hcpu]
  cases hcondition : op.mnemonic.action.condition? with
  | none => rfl
  | some condition =>
    have hmode := Opcode.mode_of_condition? (decode_of_upcoming? hop) hcondition
    have hfollowing : m.following op = m.cpu.pc + 2 := by
      rw [following, Opcode.size, hmode]
      rfl
    have htarget : (m.resolved op).operand.branchTarget? =
        some (m.cpu.pc + 2 + signExtend (Bus.read m.fetched.mem (m.cpu.pc + 1)).1) := by
      rw [resolved, hmode]
      rfl
    rw [hfollowing, htarget]
    simp only [Option.any_some, crossesPage_eq, decide_eq_true_eq]
    split
    · split <;> rfl
    · rfl

/-- A step that succeeds costs its price. -/
theorem charged_step (watch : Bool) (m : Machine M) : (m.step watch).charged = m.price := by
  obtain ⟨interrupt, hdue, hstep⟩ | ⟨hdue, hbyte, hstep⟩ | ⟨op, perform, hop, hperform, hstep⟩ :=
    m.step_cases watch
  · rw [hstep, price, hdue]
    rfl
  · rw [hstep, price, hdue, upcoming?_of_due? hdue, hbyte]
    rfl
  · have hextra := branchCharge_eq hop hperform (m.cpu_poised watch op)
    rw [hstep, price, due?_of_upcoming? hop, hop, Option.elim_some, crossingCharge_eq hop, ← hextra]
    rfl

/-- The charge for a crossed page is at most one, and only where the table has it. -/
theorem crossingCharge_le {op : Opcode} {m : Machine M} (hop : m.upcoming? = some op) :
    m.crossingCharge op ≤ if op.chargesCrossing = true then 1 else 0 := by
  rw [crossingCharge_eq hop]
  cases op.chargesCrossing with
  | false => exact Nat.le_refl 0
  | true => cases (m.resolved op).crossed <;> decide

/-- The charge for a branch is at most two, and only for a branch. -/
theorem branchCharge_le {op : Opcode} {m : Machine M} (hop : m.upcoming? = some op) :
    m.branchCharge op ≤ if op.mode = .relative then 2 else 0 := by
  rw [branchCharge]
  cases hcondition : op.mnemonic.action.condition? with
  | none => exact Nat.zero_le _
  | some condition =>
    rw [if_pos (Opcode.mode_of_condition? (decode_of_upcoming? hop) hcondition)]
    simp only
    split
    · split <;> decide
    · exact Nat.zero_le 2

theorem price_of_due? {m : Machine M} {interrupt : Interrupt}
    (hdue : m.cpu.due? = some interrupt) : m.price = interruptCycles := by
  rw [price, hdue]

theorem price_of_upcoming? {op : Opcode} {m : Machine M} (hop : m.upcoming? = some op) :
    m.price = op.cycles + m.crossingCharge op + m.branchCharge op := by
  rw [price, due?_of_upcoming? hop, hop, Option.elim_some]

/-- An instruction costs at least 2 and at most 8: none that is dear by itself pays for what it finds
on another page. -/
theorem price_bounds {op : Opcode} {m : Machine M} (hop : m.upcoming? = some op) :
    2 ≤ m.price ∧ m.price ≤ 8 := by
  obtain ⟨hlow, hhigh, hcharges, hrelative⟩ := Opcode.cycles_of_decode (decode_of_upcoming? hop)
  have htable := Opcode.chargesCrossing_of_decode (decode_of_upcoming? hop)
  have hcrossing := crossingCharge_le hop
  have hbranch := branchCharge_le hop
  rw [price_of_upcoming? hop]
  by_cases hmode : op.mode = .relative
  · have hcycles := hrelative hmode
    have hfree : op.chargesCrossing = false := by rw [htable, hmode]; rfl
    rw [if_pos hmode] at hbranch
    rw [hfree, if_neg (by decide)] at hcrossing
    omega
  · rw [if_neg hmode] at hbranch
    by_cases hpays : op.chargesCrossing = true
    · have hcycles := hcharges hpays
      rw [if_pos hpays] at hcrossing
      omega
    · rw [if_neg hpays] at hcrossing
      omega

/-- An instruction that writes its operand costs its base cost. -/
theorem price_of_writesOperand {op : Opcode} {m : Machine M} (hop : m.upcoming? = some op)
    (hwrites : op.mnemonic.action.writesOperand = true) : m.price = op.cycles := by
  have hcrossing := crossingCharge_le hop
  rw [Opcode.chargesCrossing_of_decode (decode_of_upcoming? hop), hwrites, Bool.not_true,
    Bool.and_false, if_neg (by decide)] at hcrossing
  have hbranch : m.branchCharge op = 0 := by
    rw [branchCharge]
    cases haction : op.mnemonic.action with
    | branch condition =>
      rw [haction] at hwrites
      cases hwrites
    | _ => rfl
  rw [price_of_upcoming? hop, hbranch]
  omega

end Machine

namespace Emulator

/-- The prices of a number of steps together, each the price of the machine that it starts from. -/
def pricesOf : Nat → Emulator M → Nat
  | 0, _ => 0
  | count + 1, s => s.machine.price + pricesOf count s.step.2

/-- Steps charge their prices. -/
theorem cycles_afterSteps (count : Nat) (s : Emulator M) :
    (s.afterSteps count).machine.cpu.cycles =
      s.machine.cpu.cycles + UInt64.ofNat (s.pricesOf count) := by
  induction count generalizing s with
  | zero => exact (UInt64.add_zero _).symm
  | succ count ih =>
    have hstep : s.step.2.machine.cpu.cycles =
        s.machine.cpu.cycles + UInt64.ofNat s.machine.price := by
      rw [machine_step, Machine.cycles_step, Machine.charged_step]
    rw [afterSteps, ih, hstep, pricesOf, UInt64.ofNat_add, UInt64.add_assoc]

/-- What a step costs. An instruction costs its base cost; one cycle more if it reads its operand
without writing it and the address of the operand is a sum that lies on another page than its base;
and, if it is a branch whose condition holds, one cycle more, or two if the target lies on another
page than the instruction after the branch. So an instruction that writes its operand always costs the
same. Servicing an interrupt costs 7 cycles, and no step that succeeds costs less than 2 or more than
8. A step is charged by the machine that it starts from, whatever steps there were before, and the
charges of a run of steps add up to just these prices. -/
theorem cycle_cost_law (s : Emulator M) :
    let m := s.machine
    (∀ op, m.upcoming? = some op →
      (∃ cost, s.step.1 = .ok cost ∧
        cost.val = op.cycles + m.crossingCharge op + m.branchCharge op ∧
        (op.mnemonic.action.writesOperand = true → cost.val = op.cycles)) ∧
      ∀ base index, m.indexing? op = some (base, index) →
        (m.resolved op).operand.address? = some (base + word index 0)) ∧
    (∀ interrupt, m.cpu.due? = some interrupt → ∃ cost, s.step.1 = .ok cost ∧ cost.val = 7) ∧
    (∀ cost, s.step.1 = .ok cost → 2 ≤ cost.val ∧ cost.val ≤ 8) ∧
    ∀ count, (s.afterSteps count).machine.cpu.cycles =
      m.cpu.cycles + UInt64.ofNat (s.pricesOf count) := by
  intro m
  have hcharged : ∀ cost, s.step.1 = .ok cost → cost.val = m.price := by
    intro cost hcost
    rw [← m.charged_step s.watched, Step.charged, ← fst_step, hcost]
  have hexecutes : ∀ op, m.upcoming? = some op → ∃ cost, s.step.1 = .ok cost := by
    intro op hop
    obtain ⟨perform, -, hstep⟩ := Machine.step_of_upcoming? hop s.watched
    exact ⟨_, congrArg Step.result hstep⟩
  refine ⟨?_, ?_, ?_, fun count ↦ s.cycles_afterSteps count⟩
  · intro op hop
    obtain ⟨cost, hcost⟩ := hexecutes op hop
    have hprice := hcharged cost hcost
    exact ⟨⟨cost, hcost, hprice.trans (Machine.price_of_upcoming? hop),
      fun hwrites ↦ hprice.trans (Machine.price_of_writesOperand hop hwrites)⟩,
      fun base index ↦ Machine.address?_of_indexing?⟩
  · intro interrupt hdue
    have hstep := Machine.step_of_due? hdue s.watched
    exact ⟨_, congrArg Step.result hstep, rfl⟩
  · intro cost hcost
    rw [hcharged cost hcost]
    obtain ⟨interrupt, hdue, -⟩ | ⟨-, -, hstep⟩ | ⟨op, -, hop, -, -⟩ := m.step_cases s.watched
    · rw [Machine.price_of_due? hdue]
      decide
    · rw [fst_step, hstep] at hcost
      cases hcost
    · exact Machine.price_bounds hop

end Emulator

end Mos6502
