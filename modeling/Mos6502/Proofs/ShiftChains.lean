import Mos6502.Proofs.CarryChains

/-!
Shifts of numbers of several bytes. A program shifts a number to the left from its lowest byte upwards,
and to the right from its highest byte downwards: the carry takes the bit that leaves one byte into the
next. `Emulator.Pass` is such a computation as a whole. It does not matter how the cells are addressed,
nor what else is done between two of them, as long as the carry and the cells stay; code that lies in
memory, outside the cells, makes a pass (`Emulator.pass_of_hasCode`).

A pass over different cells computes their bytes one after the other (`Emulator.Pass.ripple`), and what
a rotation does at one place, this does with the whole number: see `CellOp.value_rotateLeft` and
`CellOp.value_rotateRight`, two equations between numbers from which everything else follows.
-/

set_option autoImplicit false

namespace Mos6502

/-! ### Bytes and numbers -/

namespace Numerals

theorem value_append (n : Numerals) (low high : List UInt8) :
    n.value (low ++ high) = n.value low + n.base ^ low.length * n.value high := by
  rw [value, List.map_append, Nat.ofDigits_append, List.length_map]
  rfl

/-- Different bytes, as many, make different numbers. -/
theorem value_binary_injective {first second : List UInt8} (hlength : first.length = second.length)
    (hvalue : binary.value first = binary.value second) : first = second := by
  induction first generalizing second with
  | nil => exact (List.length_eq_zero_iff.mp hlength.symm).symm
  | cons byte rest ih =>
    cases second with
    | nil => cases hlength
    | cons other others =>
      rw [value_binary_cons, value_binary_cons] at hvalue
      have hbyte := byte.toNat_lt
      have hother := other.toNat_lt
      have hlow : byte = other := UInt8.toNat_inj.mp (by omega)
      rw [hlow, ih (Nat.succ.inj hlength) (by omega)]

end Numerals

namespace CellOp

/-- A shift is a rotation that a clear carry comes into. -/
theorem shiftLeft_eq (v : UInt8) (carry : Bool) : shiftLeft v carry = rotateLeft v false := by
  simp [shiftLeft, rotateLeft]

theorem shiftRight_eq (v : UInt8) (carry : Bool) : shiftRight v carry = rotateRight v false := by
  simp [shiftRight, rotateRight]

/-- A rotation to the left doubles, with the carry in the lowest place, and what does not fit into the
byte is in the carry after it. -/
theorem rotateLeft_place (v : UInt8) (carry : Bool) :
    (rotateLeft v carry).1.toNat + 256 * (rotateLeft v carry).2.toNat = 2 * v.toNat + carry.toNat := by
  have hbytes : ∀ n < 256, ∀ carry, (rotateLeft (.ofNat n) carry).1.toNat +
      256 * (rotateLeft (.ofNat n) carry).2.toNat = 2 * n + carry.toNat := by decide +kernel
  simpa using hbytes v.toNat v.toNat_lt carry

/-- A rotation to the right halves, with the carry above the highest place, and the remainder is in the
carry after it. -/
theorem rotateRight_place (v : UInt8) (carry : Bool) :
    2 * (rotateRight v carry).1.toNat + (rotateRight v carry).2.toNat =
      v.toNat + 256 * carry.toNat := by
  have hbytes : ∀ n < 256, ∀ carry, 2 * (rotateRight (.ofNat n) carry).1.toNat +
      (rotateRight (.ofNat n) carry).2.toNat = n + 256 * carry.toNat := by decide +kernel
  simpa using hbytes v.toNat v.toNat_lt carry

/-- A computation made on one byte after the other, with the carry of each left for the next. -/
def ripple (op : CellOp) (carry : Bool) : List UInt8 → List UInt8 × Bool
  | [] => ([], carry)
  | byte :: rest =>
    let (result, carry) := op byte carry
    let (results, carry) := op.ripple carry rest
    (result :: results, carry)

@[simp] theorem length_ripple (op : CellOp) (carry : Bool) (bytes : List UInt8) :
    (op.ripple carry bytes).1.length = bytes.length := by
  induction bytes generalizing carry with
  | nil => rfl
  | cons byte rest ih => exact congrArg (· + 1) (ih _)

/-- Rotated to the left from the lowest byte upwards, a number is doubled. -/
theorem value_rotateLeft (carry : Bool) (bytes : List UInt8) :
    Numerals.binary.value (ripple rotateLeft carry bytes).1 +
        256 ^ bytes.length * (ripple rotateLeft carry bytes).2.toNat =
      2 * Numerals.binary.value bytes + carry.toNat := by
  induction bytes generalizing carry with
  | nil => simp [ripple]
  | cons byte rest ih =>
    have hplace := rotateLeft_place byte carry
    have hrest := ih (rotateLeft byte carry).2
    simp only [ripple, Numerals.value_binary_cons, List.length_cons, pow_succ', mul_assoc]
    omega

/-- Rotated to the right from the highest byte downwards, a number is halved. -/
theorem value_rotateRight (carry : Bool) (bytes : List UInt8) :
    2 * Numerals.binary.value (ripple rotateRight carry bytes).1.reverse +
        (ripple rotateRight carry bytes).2.toNat =
      Numerals.binary.value bytes.reverse + 256 ^ bytes.length * carry.toNat := by
  induction bytes generalizing carry with
  | nil => simp [ripple]
  | cons byte rest ih =>
    have hplace := rotateRight_place byte carry
    have hrest := ih (rotateRight byte carry).2
    have hbase : Numerals.binary.base = 256 := rfl
    have hone (b : UInt8) : Numerals.binary.value [b] = b.toNat := Numerals.value_binary_cons b []
    simp only [ripple, List.reverse_cons, Numerals.value_append, List.length_reverse, length_ripple,
      List.length_cons, hbase, hone, pow_succ]
    linear_combination hrest + 256 ^ rest.length * hplace

/-- With a clear carry, rotating to the left doubles a number, and its top bit goes into the carry. -/
theorem double_of_rotateLeft {bytes : List UInt8} (hbytes : bytes ≠ []) :
    let number := Numerals.binary.value bytes
    Numerals.binary.value (ripple rotateLeft false bytes).1 = 2 * number % 256 ^ bytes.length ∧
      (ripple rotateLeft false bytes).2 = number.testBit (8 * bytes.length - 1) := by
  intro number
  have hvalue := value_rotateLeft false bytes
  have hresult : Numerals.binary.value (ripple rotateLeft false bytes).1 < 256 ^ bytes.length := by
    rw [← length_ripple rotateLeft false bytes]
    exact Numerals.value_lt fun _ _ ↦ trivial
  have hsize : 256 ^ bytes.length = 2 * 2 ^ (8 * bytes.length - 1) := by
    have hlength := List.length_pos_iff.mpr hbytes
    rw [← pow_succ', Nat.sub_add_cancel (by omega), pow_mul]
    norm_num
  rw [Bool.toNat_false, Nat.add_zero] at hvalue
  constructor
  · rw [← hvalue, Nat.add_mul_mod_self_left, Nat.mod_eq_of_lt hresult]
  · have hcarry : (ripple rotateLeft false bytes).2.toNat = number / 2 ^ (8 * bytes.length - 1) := by
      rw [← Nat.mul_div_mul_left number _ (show 0 < 2 by decide), ← hsize, ← hvalue,
        Nat.add_mul_div_left _ _ (by positivity), Nat.div_eq_of_lt hresult, Nat.zero_add]
    rw [Nat.testBit_eq_decide_div_mod_eq, ← hcarry]
    cases (ripple rotateLeft false bytes).2 <;> rfl

/-- With a clear carry, rotating to the right halves a number, and its low bit goes into the carry. -/
theorem half_of_rotateRight (bytes : List UInt8) :
    let number := Numerals.binary.value bytes.reverse
    Numerals.binary.value (ripple rotateRight false bytes).1.reverse = number / 2 ∧
      (ripple rotateRight false bytes).2 = number.testBit 0 := by
  intro number
  have hvalue := value_rotateRight false bytes
  rw [Bool.toNat_false, Nat.mul_zero, Nat.add_zero] at hvalue
  have hbit := Bool.toNat_lt (ripple rotateRight false bytes).2
  constructor
  · omega
  · rw [Nat.testBit_zero, Bool.eq_iff_iff, decide_eq_true_iff]
    rw [← Bool.toNat_eq_one]
    omega

/-- Rotating to the left and back to the right restores all bytes and the carry: doubling and halving
are inverse to each other on the number with the carry. -/
theorem rotateRight_rotateLeft (carry : Bool) (bytes : List UInt8) :
    let left := ripple rotateLeft carry bytes
    ripple rotateRight left.2 left.1.reverse = (bytes.reverse, carry) := by
  intro left
  have hleft := value_rotateLeft carry bytes
  have hright := value_rotateRight left.2 left.1.reverse
  rw [List.reverse_reverse, List.length_reverse, length_ripple] at hright
  have hsame : 2 * Numerals.binary.value (ripple rotateRight left.2 left.1.reverse).1.reverse +
      (ripple rotateRight left.2 left.1.reverse).2.toNat =
        2 * Numerals.binary.value bytes + carry.toNat := hright.trans hleft
  have hbit := Bool.toNat_lt (ripple rotateRight left.2 left.1.reverse).2
  have hcarry := Bool.toNat_lt carry
  have hbytes : (ripple rotateRight left.2 left.1.reverse).1.reverse = bytes := by
    refine Numerals.value_binary_injective ?_ (by omega)
    simp [left]
  have hsettled : (ripple rotateRight left.2 left.1.reverse).2 = carry := by
    rw [Bool.eq_iff_iff, ← Bool.toNat_eq_one, ← Bool.toNat_eq_one]
    omega
  exact Prod.ext (List.reverse_eq_iff.mp hbytes) hsettled

end CellOp

/-! ### Passes over cells -/

namespace Machine

variable {M : Type} [QuietBus M]

/-- A step that executes an instruction on a cell which it changes has changed that cell, and goes on. -/
theorem step_of_change {m : Machine M} {op : Opcode} {cellOp : CellOp} {cell : UInt16}
    (hop : m.upcoming? = some op) (haction : op.mnemonic.action = .change cellOp)
    (hcell : (m.resolved op).operand.address? = some cell) (watch : Bool) :
    ∃ cost, (m.step watch).result = .ok cost ∧
      (m.step watch).machine = (m.changeCell cellOp cell).goOn (m.following op) cost.val := by
  refine step_of_effect? hop ?_ watch
  have hoperand : (m.resolved op).operand ≠ .accumulator := by
    intro haccumulator
    rw [haccumulator] at hcell
    cases hcell
  rw [haction, Action.effect?, if_neg hoperand, hcell]
  rfl

end Machine

namespace Emulator

/-- The byte in a cell. -/
def byte (s : Emulator Ram) (cell : UInt16) : UInt8 :=
  s.machine.mem.get cell

/-- The next step executes an instruction on a cell. -/
def ExecutesOnCell (mnemonic : Mnemonic) (cell : UInt16) (s : Emulator Ram) : Prop :=
  ∃ op, s.machine.upcoming? = some op ∧ op.mnemonic = mnemonic ∧
    (s.machine.resolved op).operand.address? = some cell

/-- A step that executes an instruction on a cell which it changes succeeds; it computes the cell and
the carry from what they were, and Z and N describe the byte that is now in the cell. -/
theorem ExecutesOnCell.step {mnemonic : Mnemonic} {op : CellOp} {cell : UInt16} {s : Emulator Ram}
    (hexecutes : s.ExecutesOnCell mnemonic cell) (haction : mnemonic.action = .change op) :
    (∃ cost, s.step.1 = .ok cost) ∧
      (s.step.2.byte cell, s.step.2.registers.flags.c) = op (s.byte cell) s.registers.flags.c ∧
      (∀ other, other ≠ cell → s.step.2.byte other = s.byte other) ∧
      s.step.2.registers.flags.z = (s.step.2.byte cell == 0) ∧
      s.step.2.registers.flags.n = isNegative (s.step.2.byte cell) := by
  obtain ⟨opcode, hop, rfl, hcell⟩ := hexecutes
  obtain ⟨cost, hresult, hmachine⟩ := Machine.step_of_change hop haction hcell s.watched
  have hregisters : s.step.2.registers = (s.registers.applyCell op (s.byte cell)).2 := by
    rw [registers, machine_step, hmachine]
    rfl
  have hbytes : ∀ other, s.step.2.byte other =
      if other = cell then (s.registers.applyCell op (s.byte cell)).1 else s.byte other := by
    intro other
    rw [byte, machine_step, hmachine]
    exact Ram.get_set ..
  have hnew := (hbytes cell).trans (if_pos rfl)
  refine ⟨⟨cost, hresult⟩, ?_, fun other hother ↦ (hbytes other).trans (if_neg hother), ?_, ?_⟩
  · rw [hregisters, hnew]
    rfl
  · rw [hregisters, hnew]
    rfl
  · rw [hregisters, hnew]
    rfl

/-- A host takes turns after which the carry and some cells are as before. -/
def Keeps (cells : List UInt16) (s ready : Emulator Ram) : Prop :=
  (∃ turns, (s.session turns).2 = ready) ∧ ready.registers.flags.c = s.registers.flags.c ∧
    ∀ cell ∈ cells, ready.byte cell = s.byte cell

/-- A pass over cells: instructions are executed that change them, each on a cell, and nothing comes
between them that would change the carry or the cells. -/
inductive Pass (cells : List UInt16) : List (Mnemonic × UInt16) → Emulator Ram → Emulator Ram → Prop
  | done (s : Emulator Ram) : Pass cells [] s s
  | change {mnemonic : Mnemonic} {op : CellOp} {cell : UInt16} {rest : List (Mnemonic × UInt16)}
      {s ready t : Emulator Ram} (hkeeps : s.Keeps cells ready)
      (hexecutes : ready.ExecutesOnCell mnemonic cell) (haction : mnemonic.action = .change op)
      (hrest : Pass cells rest ready.step.2 t) : Pass cells ((mnemonic, cell) :: rest) s t

/-- One instruction on the first of some cells, and another one on each of the rest. -/
def startingWith (first next : Mnemonic) : List UInt16 → List (Mnemonic × UInt16)
  | [] => []
  | cell :: rest => (first, cell) :: rest.map (next, ·)

theorem startingWith_self (mnemonic : Mnemonic) (order : List UInt16) :
    startingWith mnemonic mnemonic order = order.map (mnemonic, ·) := by
  cases order <;> rfl

namespace Pass

variable {cells : List UInt16} {mnemonic : Mnemonic} {op : CellOp}
  {steps later : List (Mnemonic × UInt16)} {s t : Emulator Ram}

/-- A pass can be cut in two. -/
theorem append (hpass : Pass cells (steps ++ later) s t) :
    ∃ middle, Pass cells steps s middle ∧ Pass cells later middle t := by
  induction steps generalizing s with
  | nil => exact ⟨s, .done s, hpass⟩
  | cons first rest ih =>
    cases hpass with
    | change hkeeps hexecutes haction hrest =>
      obtain ⟨middle, hfirst, hlater⟩ := ih hrest
      exact ⟨middle, .change hkeeps hexecutes haction hfirst, hlater⟩

/-- The first instruction of a pass computes its cell and the carry from what they were, and leaves the
other cells to the rest of the pass. -/
theorem head {cell : UInt16} (hpass : Pass cells ((mnemonic, cell) :: steps) s t)
    (haction : mnemonic.action = .change op) (hcell : cell ∈ cells) :
    ∃ after, Pass cells steps after t ∧
      (after.byte cell, after.registers.flags.c) = op (s.byte cell) s.registers.flags.c ∧
      ∀ other ∈ cells, other ≠ cell → after.byte other = s.byte other := by
  cases hpass with
  | @change _ _ _ _ _ ready _ hkeeps hexecutes hchange hrest =>
    obtain ⟨-, hcarry, hbytes⟩ := hkeeps
    obtain ⟨-, hnew, hothers, -⟩ := hexecutes.step haction
    refine ⟨ready.step.2, hrest, ?_, fun other hother hne ↦ ?_⟩
    · rw [hnew, hcarry, hbytes cell hcell]
    · rw [hothers other hne, hbytes other hother]

/-- A pass leaves alone the cells that none of its instructions is on. -/
theorem byte_of_not_mem (hpass : Pass cells steps s t) {other : UInt16} (hother : other ∈ cells)
    (hsteps : ∀ step ∈ steps, step.2 ≠ other) : t.byte other = s.byte other := by
  induction hpass with
  | done s => rfl
  | change hkeeps hexecutes haction _ ih =>
    obtain ⟨hfirst, hrest⟩ := List.forall_mem_cons.mp hsteps
    obtain ⟨-, -, hothers, -⟩ := hexecutes.step haction
    rw [ih hrest, hothers other hfirst.symm, hkeeps.2.2 other hother]

/-- A pass over different cells computes their bytes one after the other. All its instructions make the
same computation, except for the first one, which may have a carry of its own. -/
theorem ripple {first : Mnemonic} {firstOp : CellOp} {carry : Bool} {order : List UInt16}
    (hpass : Pass cells (startingWith first mnemonic order) s t)
    (hfirst : first.action = .change firstOp) (haction : mnemonic.action = .change op)
    (hcarry : ∀ v, firstOp v s.registers.flags.c = op v carry) (horder : order ≠ [])
    (hdistinct : order.Nodup) (hcells : ∀ cell ∈ order, cell ∈ cells) :
    (order.map t.byte, t.registers.flags.c) = op.ripple carry (order.map s.byte) := by
  induction order generalizing first firstOp carry s with
  | nil => exact absurd rfl horder
  | cons cell rest ih =>
    obtain ⟨hnot, hrest⟩ := List.nodup_cons.mp hdistinct
    obtain ⟨hcell, hothers⟩ := List.forall_mem_cons.mp hcells
    obtain ⟨after, hafter, hnew, hkept⟩ := hpass.head hfirst hcell
    have hlater : (rest.map t.byte, t.registers.flags.c) =
        op.ripple after.registers.flags.c (rest.map after.byte) := by
      rw [← startingWith_self] at hafter
      obtain rfl | hne := eq_or_ne rest []
      · cases hafter
        rfl
      · exact ih hafter haction (fun _ ↦ rfl) hne hrest hothers
    -- The rest of the pass is on other cells, so it finds their bytes as they were and leaves this one.
    have hbytes : rest.map after.byte = rest.map s.byte :=
      List.map_congr_left fun other hother ↦ hkept other (hothers other hother)
        fun hsame ↦ hnot (hsame ▸ hother)
    have hlast : t.byte cell = after.byte cell := by
      refine hafter.byte_of_not_mem hcell fun step hstep hsame ↦ hnot ?_
      obtain ⟨other, hother, rfl⟩ := List.mem_map.mp hstep
      exact hsame ▸ hother
    rw [hcarry] at hnew
    rw [List.map_cons, List.map_cons, CellOp.ripple, ← hnew]
    simp only
    rw [← hbytes, ← hlater, hlast]

end Pass

end Emulator

/-! ### Code in memory -/

/-- The instructions that shift and rotate. -/
def Mnemonic.shifts : List Mnemonic :=
  [.asl, .lsr, .rol, .ror]

theorem Mnemonic.exists_change_of_mem_shifts {mnemonic : Mnemonic} (hshifts : mnemonic ∈ shifts) :
    ∃ op, mnemonic.action = .change op := by
  simp only [shifts, List.mem_cons, List.not_mem_nil, or_false] at hshifts
  obtain rfl | rfl | rfl | rfl := hshifts
  · exact ⟨_, rfl⟩
  · exact ⟨_, rfl⟩
  · exact ⟨_, rfl⟩
  · exact ⟨_, rfl⟩

namespace Opcode

/-- Shifts and rotations follow no pointers to their operands, and use no index but X. -/
theorem mode_of_shifts {byte : UInt8} {op : Opcode} (hdecode : decode byte = some op)
    (hshifts : op.mnemonic ∈ Mnemonic.shifts) :
    op.mode ∈ [.accumulator, .zeroPage, .zeroPageX, .absolute, .absoluteX] := by
  have hcheck := of_decode
    (fun op ↦ op.mnemonic ∈ Mnemonic.shifts →
      op.mode ∈ [.accumulator, .zeroPage, .zeroPageX, .absolute, .absoluteX])
    (by decide +kernel) hdecode
  exact of_decide_eq_true hcheck hshifts

end Opcode

section Quiet

variable {M : Type} [QuietBus M]

/-- What a mode without pointers and without Y resolves to can be read off the bytes of the instruction
and X. -/
theorem Operand.resolve_of_agree {mode : Mode}
    (hmode : mode ∈ [.accumulator, .zeroPage, .zeroPageX, .absolute, .absoluteX]) {pc : UInt16}
    {x x' y y' : UInt8} {mem other : M} (hx : x' = x)
    (hagree : ∀ address ∈ cellsFrom pc mode.instructionSize,
      QuietBus.peek other address = QuietBus.peek mem address) :
    (resolve mode pc x' y' other).1 = (resolve mode pc x y mem).1 := by
  subst hx
  cases mode with
  | accumulator => rfl
  | zeroPage | zeroPageX =>
    have hbase := hagree (pc + 1) (List.mem_cons_of_mem _ List.mem_cons_self)
    simp [resolve, QuietBus.read_eq, hbase]
  | absolute | absoluteX =>
    have hlow := hagree (pc + 1) (List.mem_cons_of_mem _ List.mem_cons_self)
    have hhigh := hagree (pc + 1 + 1)
      (List.mem_cons_of_mem _ (List.mem_cons_of_mem _ List.mem_cons_self))
    simp [resolve, Bus.readWord_quiet, hlow, hhigh]
  | _ => exact absurd hmode (by decide)

namespace Machine

/-- Instructions follow each other in memory from an address upwards, each on its cell, and the cells
that they lie in are code. -/
def hasCode (code : List UInt16) (m : Machine M) : UInt16 → List (Mnemonic × UInt16) → Bool
  | _, [] => true
  | pc, (mnemonic, cell) :: rest =>
    (m.jump pc).upcoming?.any fun op ↦
      op.mnemonic = mnemonic ∧ ((m.jump pc).resolved op).operand.address? = some cell ∧
        (cellsFrom pc op.size).all (· ∈ code) ∧
        m.hasCode code (pc + UInt16.ofNat op.size) rest

/-- Two machines read the same instructions in some cells that are code. -/
structure SameCode (code : List UInt16) (m n : Machine M) : Prop where
  x : n.cpu.registers.x = m.cpu.registers.x
  options : n.cpu.options = m.cpu.options
  due? : n.cpu.due? = m.cpu.due?
  peek : ∀ address ∈ code, QuietBus.peek n.mem address = QuietBus.peek m.mem address

theorem SameCode.refl {code : List UInt16} (m : Machine M) : SameCode code m m :=
  ⟨rfl, rfl, rfl, fun _ _ ↦ rfl⟩

/-- A shift is the same instruction, with the same operand, wherever the code is the same. -/
theorem SameCode.upcoming? {code : List UInt16} {m n : Machine M} (hsame : SameCode code m n)
    {pc : UInt16} {op : Opcode} (hop : (m.jump pc).upcoming? = some op)
    (hshifts : op.mnemonic ∈ Mnemonic.shifts)
    (hcode : ∀ address ∈ cellsFrom pc op.size, address ∈ code) :
    (n.jump pc).upcoming? = some op ∧ (n.jump pc).resolved op = (m.jump pc).resolved op := by
  have hbyte : ∀ address ∈ cellsFrom pc op.size,
      QuietBus.peek n.mem address = QuietBus.peek m.mem address :=
    fun address haddress ↦ hsame.peek address (hcode address haddress)
  have hpc : pc ∈ cellsFrom pc op.size := by
    rw [Opcode.size]
    cases op.mode <;> exact List.mem_cons_self
  have hopcode : (n.jump pc).opcodeByte = (m.jump pc).opcodeByte := by
    rw [opcodeByte_quiet, opcodeByte_quiet]
    exact hbyte pc hpc
  have hdue : (n.jump pc).cpu.due? = (m.jump pc).cpu.due? := hsame.due?
  have hoptions : (n.jump pc).cpu.options = (m.jump pc).cpu.options := hsame.options
  have hmode := Opcode.mode_of_shifts (decode_of_upcoming? hop) hshifts
  constructor
  · rw [Machine.upcoming?, hdue, hopcode, hoptions]
    exact hop
  · rw [resolved, resolved, fetched_quiet, fetched_quiet]
    exact Operand.resolve_of_agree hmode hsame.x hbyte

end Machine

end Quiet

namespace Machine

/-- A shift of a cell that is not code leaves the code as it is. -/
theorem SameCode.step {code : List UInt16} {m n : Machine Ram} (hsame : SameCode code m n)
    {op : Opcode} {cellOp : CellOp} {cell : UInt16} (hop : n.upcoming? = some op)
    (haction : op.mnemonic.action = .change cellOp)
    (hcell : (n.resolved op).operand.address? = some cell) (hdata : cell ∉ code) (watch : Bool) :
    SameCode code m (n.step watch).machine := by
  obtain ⟨cost, -, hmachine⟩ := step_of_change hop haction hcell watch
  have hdue : (n.changeCell cellOp cell).cpu.due? = n.cpu.due? :=
    State.due?_of_sameControl rfl (Registers.sameControl_applyCell cellOp n.cpu.registers _)
  rw [hmachine]
  exact
    { x := hsame.x
      options := hsame.options
      due? := hdue.trans hsame.due?
      peek := by
        intro address haddress
        refine (Ram.get_set ..).trans ((if_neg ?_).trans (hsame.peek address haddress))
        rintro rfl
        exact hdata haddress }

end Machine

namespace Emulator

/-- Shifts whose code lies at the program counter are executed one after the other, if they are on cells
that are not code. -/
theorem pass_of_hasCode {cells code : List UInt16} {steps : List (Mnemonic × UInt16)} {m : Machine Ram}
    {s : Emulator Ram} (hcode : m.hasCode code s.machine.cpu.pc steps = true)
    (hsteps : ∀ step ∈ steps, step.1 ∈ Mnemonic.shifts ∧ step.2 ∉ code)
    (hsame : m.SameCode code s.machine) :
    Pass cells steps s (s.afterSteps steps.length) ∧
      ∀ i mnemonic cell, steps[i]? = some (mnemonic, cell) →
        (s.afterSteps i).ExecutesOnCell mnemonic cell := by
  induction steps generalizing s with
  | nil => exact ⟨.done s, fun i mnemonic cell hnone ↦ by simp at hnone⟩
  | cons first rest ih =>
    obtain ⟨mnemonic, cell⟩ := first
    obtain ⟨⟨hshifts, hdata⟩, hrest⟩ := List.forall_mem_cons.mp hsteps
    obtain ⟨op, hop, hfirst⟩ := (Option.any_eq_true _ _).mp hcode
    obtain ⟨rfl, hcell, hcells, hlater⟩ := of_decide_eq_true hfirst
    have hcells : ∀ address ∈ cellsFrom s.machine.cpu.pc op.size, address ∈ code :=
      fun address haddress ↦ of_decide_eq_true (List.all_eq_true.mp hcells address haddress)
    obtain ⟨hop, hresolved⟩ := hsame.upcoming? hop hshifts hcells
    rw [← hresolved] at hcell
    change s.machine.upcoming? = some op at hop
    change (s.machine.resolved op).operand.address? = some cell at hcell
    have hexecutes : s.ExecutesOnCell op.mnemonic cell := ⟨op, hop, rfl, hcell⟩
    obtain ⟨cellOp, haction⟩ := Mnemonic.exists_change_of_mem_shifts hshifts
    have hnext : m.SameCode code s.step.2.machine := hsame.step hop haction hcell hdata s.watched
    have hpc : s.step.2.machine.cpu.pc = s.machine.cpu.pc + UInt16.ofNat op.size := by
      obtain ⟨cost, -, hmachine⟩ := Machine.step_of_change hop haction hcell s.watched
      rw [machine_step, hmachine]
      rfl
    obtain ⟨hpass, hexecuted⟩ := ih (hpc ▸ hlater) hrest hnext
    refine ⟨.change ⟨⟨[], rfl⟩, rfl, fun _ _ ↦ rfl⟩ hexecutes haction hpass, ?_⟩
    intro i mnemonic other hstep
    cases i with
    | zero =>
      cases hstep
      exact hexecutes
    | succ i => exact hexecuted i mnemonic other hstep

/-- Shifts of numbers of several bytes. A shift or rotation of a cell succeeds, and Z and N then describe
the byte in the cell. Code for any shifts that lies at the program counter is executed, instruction by
instruction, if it is on cells that are not code. And for a number in different cells, from the lowest
byte: shifting that byte to the left and rotating the others, upwards, doubles the number, as far as it
fits, and C is its top bit; shifting the highest byte to the right and rotating the others, downwards,
halves it, and C is its low bit; and rotating all bytes to the left, upwards, and then all to the right,
downwards, restores them and the carry. -/
theorem shifts_carry_from_byte_to_byte :
    (∀ {mnemonic : Mnemonic} {cell : UInt16} {s : Emulator Ram}, mnemonic ∈ Mnemonic.shifts →
      s.ExecutesOnCell mnemonic cell →
        (∃ cost, s.step.1 = .ok cost) ∧
          s.step.2.registers.flags.z = (s.step.2.byte cell == 0) ∧
          s.step.2.registers.flags.n = isNegative (s.step.2.byte cell)) ∧
    (∀ {cells code : List UInt16} {steps : List (Mnemonic × UInt16)} {s : Emulator Ram},
      s.machine.hasCode code s.machine.cpu.pc steps = true →
        (∀ step ∈ steps, step.1 ∈ Mnemonic.shifts ∧ step.2 ∉ code) →
          Pass cells steps s (s.afterSteps steps.length) ∧
            ∀ i mnemonic cell, steps[i]? = some (mnemonic, cell) →
              (s.afterSteps i).ExecutesOnCell mnemonic cell) ∧
    ∀ {cells : List UInt16} {s t : Emulator Ram}, cells ≠ [] → cells.Nodup →
      let number := Numerals.binary.value (cells.map s.byte)
      let result := Numerals.binary.value (cells.map t.byte)
      let carry := t.registers.flags.c
      (Pass cells (startingWith .asl .rol cells) s t →
        result = 2 * number % 256 ^ cells.length ∧
          carry = number.testBit (8 * cells.length - 1)) ∧
      (Pass cells (startingWith .lsr .ror cells.reverse) s t →
        result = number / 2 ∧ carry = number.testBit 0) ∧
      (Pass cells (cells.map (.rol, ·) ++ cells.reverse.map (.ror, ·)) s t →
        cells.map t.byte = cells.map s.byte ∧ carry = s.registers.flags.c) := by
  refine ⟨fun hshifts hexecutes ↦ ?_, fun hcode hsteps ↦ pass_of_hasCode hcode hsteps (.refl _), ?_⟩
  · obtain ⟨op, haction⟩ := Mnemonic.exists_change_of_mem_shifts hshifts
    obtain ⟨hok, -, -, hz, hn⟩ := hexecutes.step haction
    exact ⟨hok, hz, hn⟩
  intro cells s t hcells hdistinct number result carry
  have hreverse : cells.reverse ≠ [] := mt List.reverse_eq_nil_iff.mp hcells
  have hdown : cells.reverse.Nodup := List.nodup_reverse.mpr hdistinct
  have hall : ∀ cell ∈ cells.reverse, cell ∈ cells := fun _ ↦ List.mem_reverse.mp
  refine ⟨fun hpass ↦ ?_, fun hpass ↦ ?_, fun hpass ↦ ?_⟩
  · have hripple := hpass.ripple rfl rfl (CellOp.shiftLeft_eq · _) hcells hdistinct fun _ ↦ id
    have hbytes : cells.map s.byte ≠ [] := mt List.map_eq_nil_iff.mp hcells
    have hdouble := CellOp.double_of_rotateLeft hbytes
    rw [← hripple, List.length_map] at hdouble
    exact hdouble
  · have hripple := hpass.ripple rfl rfl (CellOp.shiftRight_eq · _) hreverse hdown hall
    have hhalf := CellOp.half_of_rotateRight (cells.reverse.map s.byte)
    rw [← hripple, List.map_reverse, List.reverse_reverse, List.map_reverse, List.reverse_reverse]
      at hhalf
    exact hhalf
  · obtain ⟨middle, hup, hdownwards⟩ := hpass.append
    rw [← startingWith_self] at hup hdownwards
    have hleft := hup.ripple rfl rfl (fun _ ↦ rfl) hcells hdistinct fun _ ↦ id
    have hright := hdownwards.ripple rfl rfl (fun _ ↦ rfl) hreverse hdown hall
    have hback := CellOp.rotateRight_rotateLeft s.registers.flags.c (cells.map s.byte)
    rw [← hleft] at hback
    rw [List.map_reverse (f := middle.byte), hback, List.map_reverse] at hright
    obtain ⟨hbytes, hcarry⟩ := Prod.mk.inj hright
    exact ⟨List.reverse_injective hbytes, hcarry⟩

/-- A number with one byte on page zero and one at an indexed address: it is doubled, halved, and
rotated there and back. -/
theorem shifts_carry_from_byte_to_byte_of_a_word :
    let ram := (Ram.blank.set 0x0010 0xC1).set 0x0015 0x80
    let registers : Registers := { Registers.powerOn with x := 5, flags := { c := true } }
    let s (code : List UInt8) : Emulator Ram :=
      ⟨⟨⟨{ State.powerOn with registers, pc := 0 }, .both 0, {}⟩, ram.load 0x0000 code⟩, {}⟩
    let doubling := s [0x06, 0x10, 0x3E, 0x10, 0x00]
    let halving := s [0x5E, 0x10, 0x00, 0x66, 0x10]
    let restoring := s [0x26, 0x10, 0x3E, 0x10, 0x00, 0x7E, 0x10, 0x00, 0x66, 0x10]
    let number (s : Emulator Ram) := Numerals.binary.value ([0x0010, 0x0015].map s.byte)
    (number doubling = 0x80C1 ∧ number (doubling.afterSteps 2) = 0x0182 ∧
        (doubling.afterSteps 2).registers.flags.c = true) ∧
      (number halving = 0x80C1 ∧ number (halving.afterSteps 2) = 0x4060 ∧
        (halving.afterSteps 2).registers.flags.c = true) ∧
      (number restoring = 0x80C1 ∧ number (restoring.afterSteps 4) = 0x80C1 ∧
        (restoring.afterSteps 4).registers.flags.c = true) ∧
      doubling.step.2.registers.flags.n = isNegative (doubling.step.2.byte 0x0010) := by
  intro ram registers s doubling halving restoring number
  obtain ⟨hdescribes, hplaced, hnumber⟩ := @shifts_carry_from_byte_to_byte
  let cells : List UInt16 := [0x0010, 0x0015]
  have hcells : cells ≠ [] ∧ cells.Nodup := ⟨by decide, by decide⟩
  have hup : Pass cells (startingWith .asl .rol cells) doubling (doubling.afterSteps 2) ∧ _ :=
    hplaced (show doubling.machine.hasCode (cellsFrom 0x0000 5) 0x0000 _ = true by decide +kernel)
      (by decide)
  have hdown : Pass cells (startingWith .lsr .ror cells.reverse) halving (halving.afterSteps 2) ∧ _ :=
    hplaced (show halving.machine.hasCode (cellsFrom 0x0000 5) 0x0000 _ = true by decide +kernel)
      (by decide)
  have hback : Pass cells (cells.map (.rol, ·) ++ cells.reverse.map (.ror, ·)) restoring
      (restoring.afterSteps 4) ∧ _ :=
    hplaced (show restoring.machine.hasCode (cellsFrom 0x0000 10) 0x0000 _ = true by decide +kernel)
      (by decide)
  have hdoubling : number doubling = 0x80C1 := by decide +kernel
  have hhalving : number halving = 0x80C1 := by decide +kernel
  have hrestoring : number restoring = 0x80C1 := by decide +kernel
  obtain ⟨hdouble, hdoubleCarry⟩ := (hnumber hcells.1 hcells.2).1 hup.1
  obtain ⟨hhalf, hhalfCarry⟩ := (hnumber hcells.1 hcells.2).2.1 hdown.1
  obtain ⟨hsame, hsameCarry⟩ := (hnumber hcells.1 hcells.2).2.2 hback.1
  have hfirst := hdescribes (by decide) (hup.2 0 .asl 0x0010 rfl)
  refine ⟨⟨hdoubling, ?_, ?_⟩, ⟨hhalving, ?_, ?_⟩, ⟨hrestoring, ?_, hsameCarry⟩, hfirst.2.2⟩
  · rw [show Numerals.binary.value _ = 0x80C1 from hdoubling] at hdouble
    exact hdouble.trans (show 2 * 0x80C1 % 256 ^ 2 = 0x0182 by decide)
  · rw [show Numerals.binary.value _ = 0x80C1 from hdoubling] at hdoubleCarry
    exact hdoubleCarry.trans (show Nat.testBit 0x80C1 15 = true by decide)
  · rw [show Numerals.binary.value _ = 0x80C1 from hhalving] at hhalf
    exact hhalf
  · rw [show Numerals.binary.value _ = 0x80C1 from hhalving] at hhalfCarry
    exact hhalfCarry
  · exact (congrArg Numerals.binary.value hsame).trans hrestoring

end Emulator

end Mos6502
