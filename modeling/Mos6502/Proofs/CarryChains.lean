import Mos6502.Proofs.ByteArithmetic
import Mos6502.Proofs.Computations
import Mos6502.Proofs.Host
import Mos6502.Proofs.Programs
import Mathlib.Tactic.LinearCombination

/-!
Arithmetic on numbers of several bytes. A program adds or subtracts them from the lowest byte to the
highest: it loads a byte of one number, executes an instruction on the byte of the other that belongs
to it, and leaves the carry for the next place. `Emulator.Chain` is such a computation as a whole. It
does not matter how the bytes are loaded or addressed, nor what else is done between two places, as
long as the carry and the kind of arithmetic stay.

What holds at one place (`Positional`) holds of the whole chain: see `Chain.value_eq` and, for the
overflow flag, which the last byte decides, `Chain.overflow_iff`.
-/

set_option autoImplicit false

namespace Mos6502

namespace Emulator

variable {M : Type} [Bus M]

/-- The accumulator, the index registers, the stack pointer and the flags of an emulator. -/
abbrev registers (s : Emulator M) : Registers :=
  s.machine.cpu.registers

/-- Whether additions and subtractions are decimal: they are enabled to be, and D is set. -/
def decimal (s : Emulator M) : Bool :=
  s.machine.cpu.options.decimalMode && s.registers.flags.d

/-- The next step executes an instruction on a byte. -/
def ExecutesOn (mnemonic : Mnemonic) (value : UInt8) (s : Emulator M) : Prop :=
  ∃ op source, s.machine.upcoming? = some op ∧ op.mnemonic = mnemonic ∧
    (s.machine.resolved op).operand.source? = some source ∧
    source.byte (s.machine.poised s.watched op).2 = value

/-- A host takes turns after which the accumulator holds a byte, while the carry and the kind of
arithmetic are as before. -/
def Loads (value : UInt8) (s loaded : Emulator M) : Prop :=
  (∃ turns, (s.session turns).2 = loaded) ∧ loaded.registers.a = value ∧
    loaded.registers.flags.c = s.registers.flags.c ∧ loaded.decimal = s.decimal

/-- One place of a computation: the bytes that it computes with, and the byte that it leaves. -/
structure Place where
  left : UInt8
  right : UInt8
  result : UInt8
  deriving DecidableEq, Repr

theorem length_of_map_left {places : List Place} {bytes : List UInt8}
    (hleft : places.map Place.left = bytes) : places.length = bytes.length := by
  rw [← hleft, List.length_map]

/-- A computation on numbers of several bytes, place by place from the lowest: a byte is loaded, and
an instruction is executed on another one. -/
inductive Chain (mnemonic : Mnemonic) : List Place → Emulator M → Emulator M → Prop
  | done (s : Emulator M) : Chain mnemonic [] s s
  | place {left right : UInt8} {rest : List Place} {s loaded t : Emulator M}
      (hload : s.Loads left loaded) (hexecutes : loaded.ExecutesOn mnemonic right)
      (hrest : Chain mnemonic rest loaded.step.2 t) :
      Chain mnemonic (⟨left, right, loaded.step.2.registers.a⟩ :: rest) s t

namespace ExecutesOn

variable {mnemonic : Mnemonic} {compute : ByteOp} {value : UInt8} {s : Emulator M}

/-- A step that executes an instruction on a byte succeeds, and computes the registers from it. -/
theorem step (hexecutes : s.ExecutesOn mnemonic value)
    (haction : mnemonic.action = .consume compute) :
    (∃ cost, s.step.1 = .ok cost) ∧
      ∃ pc cycles, s.step.2.machine.cpu =
        { s.machine.cpu with
          registers := compute s.machine.cpu.options.decimalMode s.registers value, pc, cycles } := by
  obtain ⟨op, source, hop, rfl, hsource, rfl⟩ := hexecutes
  obtain ⟨perform, hperform, hstep⟩ := Machine.step_of_upcoming? hop s.watched
  rw [haction, Action.perform?, hsource] at hperform
  cases hperform
  simp only [fst_step, machine_step, hstep, Machine.executed]
  refine ⟨⟨_, rfl⟩, ?_⟩
  simp only [Machine.cpu_mapState, Machine.cpu_jump, Machine.cpu_consume, Machine.cpu_poised]
  exact ⟨_, _, rfl⟩

theorem registers_step (hexecutes : s.ExecutesOn mnemonic value)
    (haction : mnemonic.action = .consume compute) :
    s.step.2.registers = compute s.machine.cpu.options.decimalMode s.registers value := by
  obtain ⟨-, pc, cycles, hcpu⟩ := hexecutes.step haction
  exact congrArg (·.registers) hcpu

/-- An instruction that computes with a byte changes no control flags. -/
theorem sameControl (hexecutes : s.ExecutesOn mnemonic value)
    (haction : mnemonic.action = .consume compute) :
    s.step.2.registers.flags.SameControl s.registers.flags := by
  have hcompute : mnemonic.action.compute? = some compute := by rw [haction]; rfl
  rw [hexecutes.registers_step haction]
  exact Mnemonic.sameControl hcompute s.machine.cpu.options.decimalMode s.registers value

/-- Arithmetic is of the same kind after an instruction that computes with a byte. -/
theorem decimal_step (hexecutes : s.ExecutesOn mnemonic value)
    (haction : mnemonic.action = .consume compute) : s.step.2.decimal = s.decimal := by
  obtain ⟨-, pc, cycles, hcpu⟩ := hexecutes.step haction
  rw [decimal, decimal, (hexecutes.sameControl haction).d, hcpu]

/-- No interrupt is due after an instruction that computes with a byte. -/
theorem due?_step (hexecutes : s.ExecutesOn mnemonic value)
    (haction : mnemonic.action = .consume compute) : s.step.2.machine.cpu.due? = none := by
  obtain ⟨op, source, hop, -⟩ := id hexecutes
  obtain ⟨-, pc, cycles, hcpu⟩ := hexecutes.step haction
  have hpending : s.step.2.machine.cpu.pending = s.machine.cpu.pending := by rw [hcpu]
  rw [State.due?_of_sameControl hpending (hexecutes.sameControl haction)]
  exact Machine.due?_of_upcoming? hop

/-- The instruction for it loads a byte. -/
theorem loads (hexecutes : s.ExecutesOn .lda value) : s.Loads value s.step.2 := by
  have hregisters := hexecutes.registers_step rfl
  refine ⟨⟨[.command .step], rfl⟩, ?_, ?_, hexecutes.decimal_step rfl⟩
  · rw [hregisters]
    rfl
  · rw [hregisters]
    rfl

end ExecutesOn

namespace Chain

variable {n : Numerals} {decimal : Bool} {mnemonic : Mnemonic} {compute : ByteOp} {sign : Int}
  {pending : Bool → Nat} {places : List Place} {s t : Emulator M}

/-- What a computation does at one place, a chain does with whole numbers: the number that it leaves,
and what is pending in the end, make the number that it computes. -/
theorem value_eq (hchain : Chain mnemonic places s t) (haction : mnemonic.action = .consume compute)
    (hplace : Positional n decimal compute sign pending) (hdecimal : s.decimal = decimal)
    (hleft : ∀ place ∈ places, n.IsDigit place.left)
    (hright : ∀ place ∈ places, n.IsDigit place.right) :
    (∀ place ∈ places, n.IsDigit place.result) ∧
      (n.value (places.map Place.left) : Int) +
          sign * (n.value (places.map Place.right) + pending s.registers.flags.c) =
        n.value (places.map Place.result) +
          n.base ^ places.length * (sign * pending t.registers.flags.c) := by
  induction hchain with
  | done s => simp
  | @place left right rest s loaded t hload hexecutes _ ih =>
    obtain ⟨-, rfl, hcarry, hsame⟩ := hload
    obtain ⟨hleft, hlefts⟩ := List.forall_mem_cons.mp hleft
    obtain ⟨hright, hrights⟩ := List.forall_mem_cons.mp hright
    have hloaded : loaded.decimal = decimal := hsame.trans hdecimal
    obtain ⟨hdigits, hrest⟩ :=
      ih ((hexecutes.decimal_step haction).trans hloaded) hlefts hrights
    have hregisters := hexecutes.registers_step haction
    have hdigit := hplace.isDigit hloaded hleft hright
    have hsum := hplace.place hloaded hleft hright
    rw [← hregisters] at hdigit hsum
    rw [hcarry] at hsum
    refine ⟨List.forall_mem_cons.mpr ⟨hdigit, hdigits⟩, ?_⟩
    simp only [List.map_cons, Numerals.value_cons, List.length_cons, pow_succ', Nat.cast_add,
      Nat.cast_mul]
    linear_combination hsum + n.base * hrest

/-- The overflow flag is about the number that a chain computes in two's complement. The last place
decides it: a place below others does not change whether the number fits. -/
theorem overflow_iff (hchain : Chain mnemonic places s t)
    (haction : mnemonic.action = .consume compute)
    (hplace : Positional .binary false compute sign pending)
    (hsigned : Signed compute sign pending) (hbinary : s.decimal = false) (hplaces : places ≠ []) :
    t.registers.flags.v = true ↔
      ¬ FitsIn places.length
        (twosComplement places.length (Numerals.binary.value (places.map Place.left)) +
          sign * (twosComplement places.length (Numerals.binary.value (places.map Place.right)) +
            pending s.registers.flags.c)) := by
  induction hchain with
  | done s => exact absurd rfl hplaces
  | @place left right rest s loaded t hload hexecutes hchain ih =>
    obtain ⟨-, rfl, hcarry, hsame⟩ := hload
    have hloaded : loaded.decimal = false := hsame.trans hbinary
    have hregisters := hexecutes.registers_step haction
    obtain rfl | hrest := eq_or_ne rest []
    · cases hchain
      rw [hregisters, ← hcarry]
      simpa [Numerals.binary] using hsigned hloaded
    · have hsize : rest.length ≠ 0 := mt List.length_eq_zero_iff.mp hrest
      have hsum := hplace.place hloaded trivial trivial (m := right)
      rw [← hregisters, hcarry] at hsum
      simp only [Numerals.binary] at hsum
      rw [ih ((hexecutes.decimal_step haction).trans hloaded) hrest,
        ← fitsIn_cons hsize loaded.step.2.registers.a]
      simp only [List.map_cons, Numerals.value_binary_cons, List.length_cons,
        twosComplement_cons hsize]
      refine not_congr (Eq.to_iff (congrArg _ ?_))
      linear_combination -hsum

/-- A chain of additions leaves the sum of the numbers and the carry, and carries if that has one
digit more. -/
theorem sum (hchain : Chain .adc places s t) (hplace : Positional n decimal .add 1 carried)
    (hdecimal : s.decimal = decimal) (hleft : ∀ place ∈ places, n.IsDigit place.left)
    (hright : ∀ place ∈ places, n.IsDigit place.right) :
    let total := n.value (places.map Place.left) + n.value (places.map Place.right) +
      carried s.registers.flags.c
    n.value (places.map Place.result) = total % n.base ^ places.length ∧
      (t.registers.flags.c = true ↔ n.base ^ places.length ≤ total) := by
  intro total
  obtain ⟨hdigits, hvalue⟩ := hchain.value_eq rfl hplace hdecimal hleft hright
  have hresult := Numerals.value_lt (List.forall_mem_map.mpr hdigits)
  rw [List.length_map] at hresult
  have htotal : total = n.value (places.map Place.result) +
      n.base ^ places.length * carried t.registers.flags.c := by
    zify [total]
    linear_combination hvalue
  rw [htotal, Nat.add_mul_mod_self_left, Nat.mod_eq_of_lt hresult]
  refine ⟨rfl, ?_⟩
  cases t.registers.flags.c with
  | false => simpa [carried] using hresult
  | true => simp [carried]

/-- A chain of subtractions leaves the difference of the numbers and the borrow, and borrows if that
is negative. -/
theorem difference (hchain : Chain .sbc places s t)
    (hplace : Positional n decimal .subtract (-1) borrowed) (hdecimal : s.decimal = decimal)
    (hleft : ∀ place ∈ places, n.IsDigit place.left)
    (hright : ∀ place ∈ places, n.IsDigit place.right) :
    let taken := n.value (places.map Place.right) + borrowed s.registers.flags.c
    (n.value (places.map Place.result) : Int) =
        (n.value (places.map Place.left) - taken) % n.base ^ places.length ∧
      (t.registers.flags.c = true ↔ taken ≤ n.value (places.map Place.left)) := by
  intro taken
  obtain ⟨hdigits, hvalue⟩ := hchain.value_eq rfl hplace hdecimal hleft hright
  have hresult := Numerals.value_lt (List.forall_mem_map.mpr hdigits)
  rw [List.length_map] at hresult
  have hdifference : (n.value (places.map Place.left) - taken : Int) =
      n.value (places.map Place.result) +
        n.base ^ places.length * -(borrowed t.registers.flags.c : Int) := by
    push_cast [taken]
    linear_combination hvalue
  zify at hresult ⊢
  constructor
  · rw [hdifference, Int.add_mul_emod_self_left, Int.emod_eq_of_lt (by omega) hresult]
  · cases hcarry : t.registers.flags.c with
    | false =>
      rw [hcarry, show borrowed false = 1 from rfl, Nat.cast_one] at hdifference
      have hnegative : ¬ (taken : Int) ≤ n.value (places.map Place.left) := by omega
      simp [hnegative]
    | true =>
      rw [hcarry, show borrowed true = 0 from rfl, Nat.cast_zero, neg_zero, mul_zero]
        at hdifference
      have hpositive : (taken : Int) ≤ n.value (places.map Place.left) := by omega
      simp [hpositive]

end Chain

/-! ### Programs that compute place by place -/

/-- A program that begins with an instruction on a byte executes it. -/
theorem executesOn_of_before {N : Type} [QuietBus N] {s : Emulator N} {mnemonic : Mnemonic}
    {value : UInt8} {program : List Line}
    (hbefore : s.machine.Before (.immediate mnemonic value :: program)) :
    s.ExecutesOn mnemonic value := by
  obtain ⟨op, hop, hmnemonic, hoperand, -⟩ := hbefore.upcoming
  exact ⟨op, .value value, hop, hmnemonic, by rw [hoperand]; rfl, rfl⟩

/-- The code for one place. -/
def placeCode (mnemonic : Mnemonic) (left right : UInt8) : List Line :=
  [.immediate .lda left, .immediate mnemonic right]

/-- The turns of a host that puts the code for one place into memory, and lets the processor load the
first byte. -/
def placeTurns (mnemonic : Mnemonic) (left right : UInt8) (s : Emulator Ram) : List (Turn Ram) :=
  [.command (.changeMemory (·.load 0 (assemble (placeCode mnemonic left right)))),
    .command (.setRegisters s.registers 0), .command .step]

/-- With memory at hand, a place can be computed on any two bytes. -/
theorem exists_place {mnemonic : Mnemonic} (left : UInt8) {right : UInt8}
    (hdocumented : (Line.immediate mnemonic right).opcode?.isSome) {s : Emulator Ram}
    (hdue : s.machine.cpu.due? = none) :
    ∃ loaded, s.Loads left loaded ∧ loaded.ExecutesOn mnemonic right := by
  let code := placeCode mnemonic left right
  let ready := (s.session ((placeTurns mnemonic left right s).take 2)).2
  have hcode : ∀ line ∈ code, line.opcode?.isSome := by
    simpa [code, placeCode, hdocumented] using show (Line.immediate .lda left).opcode?.isSome from rfl
  have hlength : (assemble code).length ≤ UInt16.size :=
    Nat.le_trans (length_assemble_le code) (show 3 * 2 ≤ UInt16.size by decide)
  have hready : ready.machine.Before code :=
    { documented := hcode, uninterrupted := hdue, holds := Ram.holds_load hlength s.machine.mem 0 }
  have hload : ready.ExecutesOn .lda left := executesOn_of_before hready
  obtain ⟨-, hvalue, hcarry, hdecimal⟩ := hload.loads
  refine ⟨ready.step.2, ⟨⟨placeTurns mnemonic left right s, rfl⟩, hvalue, hcarry, hdecimal⟩, ?_⟩
  let after := ready.machine.consume (.plain .setA) (.value left)
  obtain ⟨cost, -, hloaded⟩ := hready.step (show _ = some (Machine.consume _ _) from rfl)
    ready.watched
  have hnext : after.cpu.due? = none := hdue
  have hrest := hready.rest hnext (fun _ _ ↦ rfl) cost.val
  rw [← hloaded] at hrest
  exact executesOn_of_before hrest

/-- With memory at hand, a chain can be computed on any two numbers of the same size. -/
theorem exists_chain {mnemonic : Mnemonic} {compute : ByteOp}
    (haction : mnemonic.action = .consume compute)
    (hdocumented : ∀ value, (Line.immediate mnemonic value).opcode?.isSome) {left right : List UInt8}
    (hlength : left.length = right.length) {s : Emulator Ram} (hdue : s.machine.cpu.due? = none) :
    ∃ places t, Chain mnemonic places s t ∧
      places.map Place.left = left ∧ places.map Place.right = right := by
  induction left generalizing right s with
  | nil =>
    obtain rfl := List.length_eq_zero_iff.mp hlength.symm
    exact ⟨[], s, .done s, rfl, rfl⟩
  | cons first lefts ih =>
    cases right with
    | nil => cases hlength
    | cons second rights =>
      obtain ⟨loaded, hload, hexecutes⟩ := exists_place first (hdocumented second) hdue
      obtain ⟨places, t, hrest, hlefts, hrights⟩ :=
        ih (Nat.succ.inj hlength) (hexecutes.due?_step haction)
      exact ⟨_, t, .place hload hexecutes hrest, congrArg (first :: ·) hlefts,
        congrArg (second :: ·) hrights⟩

/-- With memory at hand, additions and subtractions can be computed on any two numbers of the same
size. -/
theorem exists_arithmetic_chain {mnemonic : Mnemonic} (hmnemonic : mnemonic = .adc ∨ mnemonic = .sbc)
    {left right : List UInt8} (hlength : left.length = right.length) {s : Emulator Ram}
    (hdue : s.machine.cpu.due? = none) :
    ∃ places t, Chain mnemonic places s t ∧
      places.map Place.left = left ∧ places.map Place.right = right := by
  obtain rfl | rfl := hmnemonic
  · exact exists_chain rfl (fun _ ↦ rfl) hlength hdue
  · exact exists_chain rfl (fun _ ↦ rfl) hlength hdue

/-- Binary arithmetic on numbers of several bytes. While arithmetic is not decimal, a chain of
additions over two numbers of the same size leaves the bytes of their sum with the carry, C says
whether the sum is a byte longer, and V whether, the numbers being read in two's complement, it does
not fit into their size. A chain of subtractions leaves the bytes of the difference, a clear carry
being a borrow, C says that it is not negative, and V is about two's complement again. There is a
chain for any two numbers. -/
theorem chains_compute_binary :
    (∀ {mnemonic : Mnemonic} {left right : List UInt8} {s : Emulator Ram},
      mnemonic = .adc ∨ mnemonic = .sbc → left.length = right.length →
        s.machine.cpu.due? = none →
          ∃ places t, Chain mnemonic places s t ∧
            places.map Place.left = left ∧ places.map Place.right = right) ∧
    ∀ {M : Type} [Bus M] {places : List Place} {s t : Emulator M},
      places ≠ [] → s.decimal = false →
        let size := places.length
        let left := Numerals.binary.value (places.map Place.left)
        let right := Numerals.binary.value (places.map Place.right)
        let result := Numerals.binary.value (places.map Place.result)
        let carry := carried s.registers.flags.c
        let borrow := borrowed s.registers.flags.c
        (Chain .adc places s t →
          result = (left + right + carry) % 256 ^ size ∧
            (t.registers.flags.c = true ↔ 256 ^ size ≤ left + right + carry) ∧
            (t.registers.flags.v = true ↔
              ¬ FitsIn size (twosComplement size left + twosComplement size right + carry))) ∧
        (Chain .sbc places s t →
          (result : Int) = (left - right - borrow) % 256 ^ size ∧
            (t.registers.flags.c = true ↔ right + borrow ≤ left) ∧
            (t.registers.flags.v = true ↔
              ¬ FitsIn size
                (twosComplement size left - twosComplement size right - borrow))) := by
  refine ⟨fun hmnemonic hlength hdue ↦ exists_arithmetic_chain hmnemonic hlength hdue, ?_⟩
  intro M _ places s t hplaces hbinary size left right result carry borrow
  have hdigits : ∀ byte : UInt8, Numerals.binary.IsDigit byte := fun _ ↦ trivial
  constructor
  · intro hchain
    obtain ⟨hresult, hcarry⟩ := hchain.sum Registers.positional_add_binary hbinary
      (fun place _ ↦ hdigits place.left) fun place _ ↦ hdigits place.right
    have hoverflow := hchain.overflow_iff rfl Registers.positional_add_binary Registers.signed_add
      hbinary hplaces
    rw [one_mul, ← add_assoc] at hoverflow
    exact ⟨hresult, hcarry, hoverflow⟩
  · intro hchain
    obtain ⟨hresult, hcarry⟩ := hchain.difference Registers.positional_subtract_binary hbinary
      (fun place _ ↦ hdigits place.left) fun place _ ↦ hdigits place.right
    have hoverflow := hchain.overflow_iff rfl Registers.positional_subtract_binary
      Registers.signed_subtract hbinary hplaces
    rw [neg_one_mul, ← sub_eq_add_neg, ← sub_sub] at hoverflow
    rw [Nat.cast_add, ← sub_sub] at hresult
    exact ⟨hresult, hcarry, hoverflow⟩

/-- The largest number of two bytes in two's complement and one make the smallest, and taking one
from that overflows again. -/
theorem chains_compute_binary_at_limits :
    let s : Emulator Ram := ⟨⟨⟨.powerOn, .both 0, {}⟩, .blank⟩, {}⟩
    (∃ places t, Chain .adc places s t ∧ places.map Place.left = [0xFF, 0x7F] ∧
      places.map Place.right = [0x01, 0x00] ∧
      Numerals.binary.value (places.map Place.result) = 0x8000 ∧
      t.registers.flags.c = false ∧ t.registers.flags.v = true) ∧
    ∃ places t, Chain .sbc places s t ∧ places.map Place.left = [0x00, 0x80] ∧
      places.map Place.right = [0x00, 0x00] ∧
      Numerals.binary.value (places.map Place.result) = 0x7FFF ∧
      t.registers.flags.c = true ∧ t.registers.flags.v = true := by
  intro s
  have hmost : Numerals.binary.value [0xFF, 0x7F] = 0x7FFF := rfl
  have hleast : Numerals.binary.value [0x00, 0x80] = 0x8000 := rfl
  have hone : Numerals.binary.value [0x01, 0x00] = 1 := rfl
  have hzero : Numerals.binary.value [0x00, 0x00] = 0 := rfl
  have hcarry : carried s.registers.flags.c = 0 := rfl
  have hborrow : borrowed s.registers.flags.c = 1 := rfl
  constructor
  · obtain ⟨places, t, hchain, hleft, hright⟩ : ∃ places t, Chain .adc places s t ∧
        places.map Place.left = [0xFF, 0x7F] ∧ places.map Place.right = [0x01, 0x00] :=
      chains_compute_binary.1 (Or.inl rfl) rfl rfl
    have hplaces : places ≠ [] := by
      rintro rfl
      cases hleft
    obtain ⟨hresult, hc, hv⟩ := (chains_compute_binary.2 hplaces rfl).1 hchain
    simp only [length_of_map_left hleft, hleft, hright, hmost, hone, hcarry] at hresult hc hv
    refine ⟨places, t, hchain, hleft, hright, hresult, ?_, hv.mpr ?_⟩
    · rw [Bool.eq_false_iff, ne_eq, hc]
      decide
    · norm_num [FitsIn, twosComplement]
  · obtain ⟨places, t, hchain, hleft, hright⟩ : ∃ places t, Chain .sbc places s t ∧
        places.map Place.left = [0x00, 0x80] ∧ places.map Place.right = [0x00, 0x00] :=
      chains_compute_binary.1 (Or.inr rfl) rfl rfl
    have hplaces : places ≠ [] := by
      rintro rfl
      cases hleft
    obtain ⟨hresult, hc, hv⟩ := (chains_compute_binary.2 hplaces rfl).2 hchain
    simp only [length_of_map_left hleft, hleft, hright, hleast, hzero, hborrow] at hresult hc hv
    refine ⟨places, t, hchain, hleft, hright, ?_, hc.mpr (by decide), hv.mpr ?_⟩
    · exact_mod_cast hresult.trans (show _ = (0x7FFF : Int) by norm_num)
    · norm_num [FitsIn, twosComplement]

/-- Decimal arithmetic on numbers of several bytes. While arithmetic is decimal, a chain of additions
over two numbers of the same size in packed decimal leaves their sum with the carry in packed decimal,
and C says whether the sum has more digits. A chain of subtractions leaves the difference, a clear
carry being a borrow, and C says that it is not negative: the digits and the carry of a subtraction
are computed apart, and agree at every place. There is a chain for any two numbers. -/
theorem chains_compute_decimal :
    (∀ {mnemonic : Mnemonic} {left right : List UInt8} {s : Emulator Ram},
      mnemonic = .adc ∨ mnemonic = .sbc → left.length = right.length →
        s.machine.cpu.due? = none →
          ∃ places t, Chain mnemonic places s t ∧
            places.map Place.left = left ∧ places.map Place.right = right) ∧
    ∀ {M : Type} [Bus M] {places : List Place} {s t : Emulator M}, s.decimal = true →
      (∀ place ∈ places, Numerals.packedDecimal.IsDigit place.left) →
        (∀ place ∈ places, Numerals.packedDecimal.IsDigit place.right) →
          let size := places.length
          let left := Numerals.packedDecimal.value (places.map Place.left)
          let right := Numerals.packedDecimal.value (places.map Place.right)
          let result := Numerals.packedDecimal.value (places.map Place.result)
          let carry := carried s.registers.flags.c
          let borrow := borrowed s.registers.flags.c
          (Chain .adc places s t →
            (∀ place ∈ places, Numerals.packedDecimal.IsDigit place.result) ∧
              result = (left + right + carry) % 100 ^ size ∧
              (t.registers.flags.c = true ↔ 100 ^ size ≤ left + right + carry)) ∧
          (Chain .sbc places s t →
            (∀ place ∈ places, Numerals.packedDecimal.IsDigit place.result) ∧
              (result : Int) = (left - right - borrow) % 100 ^ size ∧
              (t.registers.flags.c = true ↔ right + borrow ≤ left)) := by
  refine ⟨fun hmnemonic hlength hdue ↦ exists_arithmetic_chain hmnemonic hlength hdue, ?_⟩
  intro M _ places s t hdecimal hleft hright size left right result carry borrow
  constructor
  · intro hchain
    have hplace := Registers.positional_add_decimal
    have hdigits := (hchain.value_eq rfl hplace hdecimal hleft hright).1
    exact ⟨hdigits, hchain.sum hplace hdecimal hleft hright⟩
  · intro hchain
    have hplace := Registers.positional_subtract_decimal
    have hdigits := (hchain.value_eq rfl hplace hdecimal hleft hright).1
    obtain ⟨hresult, hcarry⟩ := hchain.difference hplace hdecimal hleft hright
    rw [Nat.cast_add, ← sub_sub] at hresult
    exact ⟨hdigits, hresult, hcarry⟩

/-- The carry of 9999 + 1 runs through both bytes and out of them, and so does the borrow of
0 - 1. -/
theorem chains_compute_decimal_at_limits :
    let registers (c : Bool) : Registers := { Registers.powerOn with flags := { c, d := true } }
    let s (c : Bool) : Emulator Ram :=
      ⟨⟨⟨{ State.powerOn with registers := registers c }, .both 0, { decimalMode := true }⟩, .blank⟩,
        {}⟩
    (∃ places t, Chain .adc places (s false) t ∧ places.map Place.left = [0x99, 0x99] ∧
      places.map Place.right = [0x01, 0x00] ∧
      Numerals.packedDecimal.value (places.map Place.result) = 0 ∧ t.registers.flags.c = true) ∧
    ∃ places t, Chain .sbc places (s true) t ∧ places.map Place.left = [0x00, 0x00] ∧
      places.map Place.right = [0x01, 0x00] ∧
      Numerals.packedDecimal.value (places.map Place.result) = 9999 ∧
      t.registers.flags.c = false := by
  intro registers s
  have hdigits {places : List Place} {byte : Place → UInt8} {bytes : List UInt8}
      (hbytes : places.map byte = bytes)
      (hall : ∀ byte ∈ bytes, Numerals.packedDecimal.IsDigit byte) :
      ∀ place ∈ places, Numerals.packedDecimal.IsDigit (byte place) :=
    List.forall_mem_map.mp (hbytes ▸ hall)
  have hmost : Numerals.packedDecimal.value [0x99, 0x99] = 9999 := rfl
  have hone : Numerals.packedDecimal.value [0x01, 0x00] = 1 := rfl
  have hzero : Numerals.packedDecimal.value [0x00, 0x00] = 0 := rfl
  constructor
  · obtain ⟨places, t, hchain, hleft, hright⟩ : ∃ places t, Chain .adc places (s false) t ∧
        places.map Place.left = [0x99, 0x99] ∧ places.map Place.right = [0x01, 0x00] :=
      chains_compute_decimal.1 (Or.inl rfl) rfl rfl
    obtain ⟨-, hresult, hc⟩ := (chains_compute_decimal.2 rfl
      (hdigits hleft (by simp [Numerals.packedDecimal]))
      (hdigits hright (by simp [Numerals.packedDecimal]))).1 hchain
    simp only [length_of_map_left hleft, hleft, hright, hmost, hone] at hresult hc
    exact ⟨places, t, hchain, hleft, hright, hresult.trans (by decide), hc.mpr (by decide)⟩
  · obtain ⟨places, t, hchain, hleft, hright⟩ : ∃ places t, Chain .sbc places (s true) t ∧
        places.map Place.left = [0x00, 0x00] ∧ places.map Place.right = [0x01, 0x00] :=
      chains_compute_decimal.1 (Or.inr rfl) rfl rfl
    obtain ⟨-, hresult, hc⟩ := (chains_compute_decimal.2 rfl
      (hdigits hleft (by simp [Numerals.packedDecimal]))
      (hdigits hright (by simp [Numerals.packedDecimal]))).2 hchain
    simp only [length_of_map_left hleft, hleft, hright, hzero, hone] at hresult hc
    refine ⟨places, t, hchain, hleft, hright, ?_, ?_⟩
    · exact_mod_cast hresult.trans (show _ = (9999 : Int) by norm_num [borrowed, s, registers])
    · rw [Bool.eq_false_iff, ne_eq, hc]
      decide

end Emulator

end Mos6502
