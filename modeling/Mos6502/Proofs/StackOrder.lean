import Mos6502.Proofs.Halting
import Mos6502.Proofs.Recording
import Mos6502.Proofs.Writes

/-!
The stack as a list. What is put on the stack last comes off it first, as from a list of bytes, as
long as nothing is taken off that was not put there and there is never more than a page of bytes.
The stack pointer then tells how many bytes there are, and wraps at both ends of its page.

`Machine.Mirrors` relates a machine to the list that its stack stands for. A stack operation keeps
the two together if there is room for it (`Machine.Mirrors.perform`). So does a step, whose operations
`Machine.stackOps` names: the entry of a handler and the eight instructions that use the stack
perform them and change the stack in no other way (`Machine.step_of_stackOps`).
-/

set_option autoImplicit false

namespace Mos6502

open QuietBus (peek)

/-! ### Operations and what a list makes of them -/

/-- An operation on the stack. -/
inductive StackOp where
  | push (value : UInt8)
  | pushWord (value : UInt16)
  | pop
  | popWord
  deriving DecidableEq, Repr

/-- What an operation takes off the stack. -/
inductive Taken where
  | nothing
  | byte (value : UInt8)
  | word (value : UInt16)
  deriving DecidableEq, Repr

namespace StackOp

/-- By how many bytes an operation makes the stack grow. -/
def growth : StackOp → Int
  | push _ => 1
  | pushWord _ => 2
  | pop => -1
  | popWord => -2

/-- How many bytes more operations put on the stack than they take off it. -/
def outstanding : List StackOp → Int
  | [] => 0
  | op :: ops => op.growth + outstanding ops

/-- No operation takes off more than is there, and there is never more than a page of bytes; `depth`
bytes are there at first. -/
def WithinPage (depth : Int) (ops : List StackOp) : Prop :=
  ∀ before, before <+: ops → 0 ≤ depth + outstanding before ∧ depth + outstanding before ≤ 256

/-- An operation on a list of bytes, the one on top first. A word goes on high byte first. Nothing
can be taken from where it is not. -/
def onList : StackOp → List UInt8 → Option (Taken × List UInt8)
  | push value, bytes => some (.nothing, value :: bytes)
  | pushWord value, bytes => some (.nothing, lowByte value :: highByte value :: bytes)
  | pop, byte :: rest => some (.byte byte, rest)
  | popWord, low :: high :: rest => some (.word (Mos6502.word low high), rest)
  | _, _ => none

/-- Operations on a list of bytes, one after the other. -/
def allOnList : List StackOp → List UInt8 → Option (List Taken × List UInt8)
  | [], bytes => some ([], bytes)
  | op :: ops, bytes =>
    (op.onList bytes).bind fun (taken, bytes) ↦
      (allOnList ops bytes).map fun (rest, bytes) ↦ (taken :: rest, bytes)

theorem outstanding_append (ops others : List StackOp) :
    outstanding (ops ++ others) = outstanding ops + outstanding others := by
  induction ops with
  | nil => simp [outstanding]
  | cons op ops ih => simp only [List.cons_append, outstanding, ih, Int.add_assoc]

theorem withinPage_nil {depth : Int} : WithinPage depth [] ↔ 0 ≤ depth ∧ depth ≤ 256 := by
  simp [WithinPage, outstanding]

/-- Operations are within a page if the page holds what is there at first, and the operations after
the first one are within it. -/
theorem withinPage_cons {depth : Int} {op : StackOp} {ops : List StackOp} :
    WithinPage depth (op :: ops) ↔
      (0 ≤ depth ∧ depth ≤ 256) ∧ WithinPage (depth + op.growth) ops := by
  constructor
  · intro hwithin
    refine ⟨by simpa [outstanding] using hwithin [] List.nil_prefix, fun before hbefore ↦ ?_⟩
    have hlonger := hwithin (op :: before) ((List.prefix_cons_inj op).mpr hbefore)
    rwa [outstanding, ← Int.add_assoc] at hlonger
  · rintro ⟨hdepth, htail⟩ before hbefore
    cases before with
    | nil => simpa [outstanding] using hdepth
    | cons first before =>
      obtain ⟨rfl, hrest⟩ := List.cons_prefix_cons.mp hbefore
      rw [outstanding, ← Int.add_assoc]
      exact htail before hrest

instance decidableWithinPage : (depth : Int) → (ops : List StackOp) →
    Decidable (WithinPage depth ops)
  | _, [] => decidable_of_iff _ withinPage_nil.symm
  | depth, op :: ops =>
    have := decidableWithinPage (depth + op.growth) ops
    decidable_of_iff _ withinPage_cons.symm

/-- The page holds what is there at first. -/
theorem WithinPage.depth {depth : Int} {ops : List StackOp} (hwithin : WithinPage depth ops) :
    0 ≤ depth ∧ depth ≤ 256 := by
  simpa [outstanding] using hwithin [] List.nil_prefix

theorem WithinPage.left {depth : Int} {ops others : List StackOp}
    (hwithin : WithinPage depth (ops ++ others)) : WithinPage depth ops :=
  fun before hbefore ↦ hwithin before (hbefore.trans (List.prefix_append ops others))

theorem WithinPage.right {depth : Int} {ops others : List StackOp}
    (hwithin : WithinPage depth (ops ++ others)) :
    WithinPage (depth + outstanding ops) others := by
  intro before hbefore
  have hlonger := hwithin (ops ++ before) ((List.prefix_append_right_inj ops).mpr hbefore)
  rw [outstanding_append] at hlonger
  omega

/-- An operation on a list makes it longer by its growth. -/
theorem length_onList {op : StackOp} {bytes left : List UInt8} {taken : Taken}
    (hop : op.onList bytes = some (taken, left)) :
    (left.length : Int) = bytes.length + op.growth := by
  match op, bytes, hop with
  | push _, _, rfl => rfl
  | pushWord _, _, rfl => rfl
  | pop, _ :: rest, rfl =>
    rw [growth, List.length_cons]
    omega
  | popWord, _ :: _ :: rest, rfl =>
    rw [growth, List.length_cons, List.length_cons]
    omega

theorem allOnList_cons {op : StackOp} {ops : List StackOp} {bytes middle left : List UInt8}
    {first : Taken} {rest : List Taken} (hop : op.onList bytes = some (first, middle))
    (hops : allOnList ops middle = some (rest, left)) :
    allOnList (op :: ops) bytes = some (first :: rest, left) := by
  simp [allOnList, hop, hops]

/-- What operations do to a list, the first of them does and then the others do. -/
theorem exists_of_allOnList_cons {op : StackOp} {ops : List StackOp} {bytes left : List UInt8}
    {taken : List Taken} (hops : allOnList (op :: ops) bytes = some (taken, left)) :
    ∃ first rest middle, taken = first :: rest ∧ op.onList bytes = some (first, middle) ∧
      allOnList ops middle = some (rest, left) := by
  obtain ⟨⟨first, middle⟩, hop, hmap⟩ := Option.bind_eq_some_iff.mp hops
  obtain ⟨⟨rest, last⟩, hlater, hpair⟩ := Option.map_eq_some_iff.mp hmap
  cases hpair
  exact ⟨first, rest, middle, rfl, hop, hlater⟩

theorem length_allOnList {ops : List StackOp} {bytes left : List UInt8} {taken : List Taken}
    (hops : allOnList ops bytes = some (taken, left)) :
    (left.length : Int) = bytes.length + outstanding ops := by
  induction ops generalizing bytes taken with
  | nil =>
    cases hops
    exact (Int.add_zero _).symm
  | cons op ops ih =>
    obtain ⟨first, rest, middle, rfl, hop, hlater⟩ := exists_of_allOnList_cons hops
    rw [ih hlater, length_onList hop, outstanding, Int.add_assoc]

theorem allOnList_append {ops others : List StackOp} {bytes middle left : List UInt8}
    {taken rest : List Taken} (hfirst : allOnList ops bytes = some (taken, middle))
    (hsecond : allOnList others middle = some (rest, left)) :
    allOnList (ops ++ others) bytes = some (taken ++ rest, left) := by
  induction ops generalizing bytes taken with
  | nil =>
    cases hfirst
    exact hsecond
  | cons op ops ih =>
    obtain ⟨first, later, start, rfl, hop, hops⟩ := exists_of_allOnList_cons hfirst
    exact allOnList_cons hop (ih hops)

end StackOp

open StackOp (outstanding WithinPage allOnList)

/-- What operations took off the stack is what a list gives back, and the stack pointer has moved
down by as many bytes as they left there. -/
structure LastInFirstOut (ops : List StackOp) (taken : List Taken) (first last : UInt8) : Prop where
  on_list : ∃ left, allOnList ops [] = some (taken, left) ∧ (left.length : Int) = outstanding ops
  sp : (last.toNat : Int) = (first.toNat - outstanding ops) % 256

variable {M : Type}

theorem highByte_stackCell (sp : UInt8) : highByte (stackCell sp) = 0x01 :=
  highByte_word sp 0x01

/-- Bytes above a stack pointer are where the cells of the stack hold the same. -/
theorem Above.of_cells [QuietBus M] {mem other : M} {sp : UInt8} {bytes : List UInt8}
    (habove : Above mem sp bytes)
    (hcells : ∀ sp, peek other (stackCell sp) = peek mem (stackCell sp)) :
    Above other sp bytes := by
  induction bytes generalizing sp with
  | nil => trivial
  | cons byte rest ih => exact ⟨(hcells _).trans habove.1, ih habove.2⟩

namespace Recorder

/-- What has been written since an earlier time lies on the page of the stack. -/
def WroteToStack (earlier later : Recorder M) : Prop :=
  ∃ written, later.writes = earlier.writes ++ written ∧
    ∀ write ∈ written, highByte write.1 = 0x01

theorem WroteToStack.trans {first second third : Recorder M} (hfirst : first.WroteToStack second)
    (hsecond : second.WroteToStack third) : first.WroteToStack third := by
  obtain ⟨written, hwritten, hpage⟩ := hfirst
  obtain ⟨more, hmore, hpages⟩ := hsecond
  refine ⟨written ++ more, ?_, fun write hwrite ↦ ?_⟩
  · rw [hmore, hwritten, List.append_assoc]
  · exact (List.mem_append.mp hwrite).elim (hpage write) (hpages write)

end Recorder

namespace Machine

/-! ### Operations on the stack of a machine -/

section Operations

variable [Bus M]

/-- Performs an operation on the stack. -/
def perform (op : StackOp) (m : Machine M) : Taken × Machine M :=
  match op with
  | .push value => (.nothing, m.push value)
  | .pushWord value => (.nothing, m.pushWord value)
  | .pop =>
    let (byte, m) := m.pop
    (.byte byte, m)
  | .popWord =>
    let (value, m) := m.popWord
    (.word value, m)

/-- Performs operations on the stack, one after the other. -/
def performAll : List StackOp → Machine M → List Taken × Machine M
  | [], m => ([], m)
  | op :: ops, m =>
    let (taken, m) := m.perform op
    let (rest, m) := performAll ops m
    (taken :: rest, m)

/-- What an operation writes, it writes to page one. -/
theorem wroteToStack_perform (op : StackOp) (m : Machine (Recorder M)) :
    m.mem.WroteToStack (m.perform op).2.mem := by
  cases op with
  | push value => exact ⟨_, m.writes_push value, by simp [highByte_stackCell]⟩
  | pushWord value => exact ⟨_, m.writes_pushWord value, by simp [highByte_stackCell]⟩
  | pop => exact ⟨[], by simp [perform], by simp⟩
  | popWord => exact ⟨[], by simp [perform], by simp⟩

theorem wroteToStack_performAll (ops : List StackOp) (m : Machine (Recorder M)) :
    m.mem.WroteToStack (m.performAll ops).2.mem := by
  induction ops generalizing m with
  | nil => exact ⟨[], (List.append_nil _).symm, by simp⟩
  | cons op ops ih => exact (m.wroteToStack_perform op).trans (ih (m.perform op).2)

end Operations

/-! ### The list that a stack stands for -/

/-- The stack pointers of two machines agree, and so do the cells of their stacks. -/
structure SameStack [QuietBus M] (m other : Machine M) : Prop where
  sp : other.cpu.registers.sp = m.cpu.registers.sp
  cells : ∀ sp, peek other.mem (stackCell sp) = peek m.mem (stackCell sp)

/-- A stack stands for a list of bytes: they lie on top of it, nothing protects it, and the stack
pointer is that many bytes below where it is when the stack is empty. -/
structure Mirrors [CellBus M] (empty : UInt8) (bytes : List UInt8) (m : Machine M) : Prop where
  stacked : m.Stacked bytes
  free : m.StackFree
  sp : m.cpu.registers.sp + UInt8.ofNat bytes.length = empty

namespace Mirrors

variable [CellBus M] {empty : UInt8} {bytes : List UInt8} {m : Machine M}

theorem push (hm : m.Mirrors empty bytes) (hroom : bytes.length < 256) (value : UInt8) :
    (m.push value).Mirrors empty (value :: bytes) where
  stacked := hm.stacked.push hroom hm.free value
  free := hm.free.push value
  sp := by
    rw [← hm.sp, cpu_push, List.length_cons, UInt8.ofNat_add]
    grind

theorem pop {byte : UInt8} {rest : List UInt8} (hm : m.Mirrors empty (byte :: rest)) :
    m.pop.1 = byte ∧ m.pop.2.Mirrors empty rest := by
  obtain ⟨htop, hrest⟩ := hm.stacked.pop
  refine ⟨htop, hrest, ?_, ?_⟩
  · rw [StackFree, mem_pop, Bus.snd_read_quiet]
    exact hm.free
  · rw [← hm.sp, cpu_pop, List.length_cons, UInt8.ofNat_add]
    grind

/-- An operation for which there are bytes and room does to the stack what it does to the list. -/
theorem perform (hm : m.Mirrors empty bytes) {op : StackOp}
    (hdepth : 0 ≤ bytes.length + op.growth ∧ bytes.length + op.growth ≤ 256) :
    ∃ left, op.onList bytes = some ((m.perform op).1, left) ∧
      (m.perform op).2.Mirrors empty left := by
  cases op with
  | push value =>
    rw [StackOp.growth] at hdepth
    exact ⟨_, rfl, hm.push (by omega) value⟩
  | pushWord value =>
    rw [StackOp.growth] at hdepth
    have hhigh := hm.push (by omega) (highByte value)
    have hroom : (highByte value :: bytes).length < 256 := by
      rw [List.length_cons]
      omega
    exact ⟨_, rfl, hhigh.push hroom (lowByte value)⟩
  -- The depth after the operation is not negative, so the bytes that it takes are there.
  | pop =>
    match bytes, hm, hdepth with
    | [], _, hdepth => simp [StackOp.growth] at hdepth
    | byte :: rest, hm, _ =>
      obtain ⟨rfl, hrest⟩ := hm.pop
      exact ⟨rest, rfl, hrest⟩
  | popWord =>
    match bytes, hm, hdepth with
    | [], _, hdepth => simp [StackOp.growth] at hdepth
    | [_], _, hdepth => simp [StackOp.growth] at hdepth
    | low :: high :: rest, hm, _ =>
      obtain ⟨rfl, hhigh⟩ := hm.pop
      obtain ⟨rfl, hrest⟩ := hhigh.pop
      exact ⟨rest, rfl, hrest⟩

/-- Operations within a page do to the stack what they do to the list. -/
theorem performAll {ops : List StackOp} (hm : m.Mirrors empty bytes)
    (hwithin : WithinPage bytes.length ops) :
    ∃ left, allOnList ops bytes = some ((m.performAll ops).1, left) ∧
      (m.performAll ops).2.Mirrors empty left := by
  induction ops generalizing m bytes with
  | nil => exact ⟨bytes, rfl, hm⟩
  | cons op ops ih =>
    obtain ⟨-, htail⟩ := StackOp.withinPage_cons.mp hwithin
    obtain ⟨middle, hop, hmiddle⟩ := hm.perform htail.depth
    obtain ⟨left, hops, hlast⟩ := ih hmiddle (StackOp.length_onList hop ▸ htail)
    exact ⟨left, StackOp.allOnList_cons hop hops, hlast⟩

/-- What a stack stands for depends on the stack pointer and the cells of the stack alone. -/
theorem of_sameStack {other : Machine M} (hm : m.Mirrors empty bytes)
    (hsame : m.SameStack other) (hfree : other.StackFree) : other.Mirrors empty bytes where
  stacked := by
    rw [Stacked, hsame.sp]
    exact hm.stacked.of_cells hsame.cells
  free := hfree
  sp := by rw [hsame.sp, hm.sp]

end Mirrors

/-- A stack in plain memory stands for no bytes wherever its stack pointer is. -/
theorem mirrors_empty (m : Machine Ram) : m.Mirrors m.cpu.registers.sp [] where
  stacked := trivial
  free := m.stackFree_ram
  sp := UInt8.add_zero _

end Machine

/-- If what operations do to a list started on an empty stack, they are last in, first out. -/
theorem LastInFirstOut.of_mirrors [CellBus M] {ops : List StackOp} {taken : List Taken}
    {left : List UInt8} {first : UInt8} {m : Machine M} (hops : allOnList ops [] = some (taken, left))
    (hm : m.Mirrors first left) : LastInFirstOut ops taken first m.cpu.registers.sp := by
  have hlength : (left.length : Int) = outstanding ops :=
    (StackOp.length_allOnList hops).trans (Int.zero_add _)
  refine ⟨⟨left, hops, hlength⟩, ?_⟩
  have hsp := congrArg UInt8.toNat hm.sp
  have hlast := m.cpu.registers.sp.toNat_lt
  rw [UInt8.toNat_add, UInt8.toNat_ofNat'] at hsp
  omega

/-! ### The operations of a step -/

/-- The operations on the stack that an instruction at `pc` performs. A call puts the address of its
last byte there, and a break the address past the byte that follows it. -/
def Mnemonic.stackOps (pc : UInt16) (r : Registers) : Mnemonic → List StackOp
  | .pha => [.push r.a]
  | .php => [.push (r.flags.toPushedByte true)]
  | .jsr => [.pushWord (pc + 2)]
  | .brk => [.pushWord (pc + 2), .push (r.flags.toPushedByte true)]
  | .pla | .plp => [.pop]
  | .rts => [.popWord]
  | .rti => [.pop, .popWord]
  | _ => []

/-- Where an instruction puts what it takes off the stack, seen on the processor after it. -/
def Mnemonic.Keeps (taken : List Taken) (after : Cpu) : Mnemonic → Prop
  | .pla => taken = [.byte after.registers.a]
  | .plp => ∃ status, taken = [.byte status] ∧ after.registers.flags = .ofPulledByte status
  | .rts => ∃ last, taken = [.word last] ∧ after.pc = last + 1
  | .rti => ∃ status, taken = [.byte status, .word after.pc] ∧
      after.registers.flags = .ofPulledByte status
  | _ => ∀ value ∈ taken, value = .nothing

namespace Machine

section Steps

variable [Bus M]

/-- The operations on the stack that the next step performs. -/
def stackOps (m : Machine M) : List StackOp :=
  match m.cpu.due?, m.upcoming? with
  | some _, _ => [.pushWord m.cpu.pc, .push (m.cpu.registers.flags.toPushedByte false)]
  | none, some op => op.mnemonic.stackOps m.cpu.pc m.cpu.registers
  | none, none => []

theorem stackOps_of_due? {m : Machine M} {interrupt : Interrupt}
    (hdue : m.cpu.due? = some interrupt) :
    m.stackOps = [.pushWord m.cpu.pc, .push (m.cpu.registers.flags.toPushedByte false)] := by
  rw [stackOps, hdue]

theorem stackOps_of_upcoming? {m : Machine M} {op : Opcode} (hop : m.upcoming? = some op) :
    m.stackOps = op.mnemonic.stackOps m.cpu.pc m.cpu.registers := by
  rw [stackOps, due?_of_upcoming? hop, hop]

end Steps

/-- Only the entry of a handler and an instruction that uses the stack perform operations on it. -/
theorem cases_of_stackOps [Bus M] {m : Machine M} (hops : m.stackOps ≠ []) :
    (∃ interrupt, m.cpu.due? = some interrupt) ∨
      ∃ op, m.upcoming? = some op ∧ op.mnemonic.stackOps m.cpu.pc m.cpu.registers ≠ [] := by
  cases hdue : m.cpu.due? with
  | some interrupt => exact .inl ⟨interrupt, rfl⟩
  | none =>
    cases hop : m.upcoming? with
    | some op => exact .inr ⟨op, rfl, stackOps_of_upcoming? hop ▸ hops⟩
    | none => simp [stackOps, hdue, hop] at hops

/-- A step that performs operations on the stack leaves the memory and the stack pointer as those
operations do. -/
theorem step_of_stackOps [QuietBus M] {m : Machine M} (hops : m.stackOps ≠ []) (watch : Bool) :
    (m.step watch).machine.mem = (m.performAll m.stackOps).2.mem ∧
      (m.step watch).machine.cpu.registers.sp =
        (m.performAll m.stackOps).2.cpu.registers.sp := by
  obtain ⟨interrupt, hdue⟩ | ⟨op, hop, huses⟩ := cases_of_stackOps hops
  · have henters : m.Enters (.interrupt interrupt) := hdue
    rw [stackOps_of_due? hdue]
    exact (step_of_enters henters watch).2
  · rw [stackOps_of_upcoming? hop]
    cases hmnemonic : op.mnemonic with
    | jsr =>
      have henters : m.Enters .call := ⟨op, hop, hmnemonic⟩
      exact (step_of_enters henters watch).2
    | brk =>
      have henters : m.Enters .softwareBreak := ⟨op, hop, hmnemonic⟩
      exact (step_of_enters henters watch).2
    | pha | php | pla | plp | rts | rti =>
      obtain ⟨perform, cost, hperform, -, hmachine⟩ := performed_of_upcoming? hop watch
      rw [hmnemonic] at hperform
      cases hperform
      rw [hmachine]
      exact ⟨rfl, rfl⟩
    | _ => exact absurd (congrArg (Mnemonic.stackOps _ _) hmnemonic) huses

/-- An instruction puts what it takes off the stack where `Mnemonic.Keeps` says. -/
theorem keeps_step [QuietBus M] {m : Machine M} {op : Opcode} (hop : m.upcoming? = some op)
    (watch : Bool) :
    op.mnemonic.Keeps (m.performAll m.stackOps).1 (m.step watch).machine.cpu := by
  rw [stackOps_of_upcoming? hop]
  cases hmnemonic : op.mnemonic with
  | pla | plp | rts | rti =>
    obtain ⟨perform, cost, hperform, -, hmachine⟩ := performed_of_upcoming? hop watch
    rw [hmnemonic] at hperform
    cases hperform
    rw [hmachine]
    first | exact rfl | exact ⟨_, rfl, rfl⟩
  | _ => simp [Mnemonic.Keeps, Mnemonic.stackOps, performAll, perform]

/-- A step that performs operations on the stack writes to page one alone. -/
theorem wroteToStack_step [Bus M] {m : Machine (Recorder M)} (hops : m.stackOps ≠ [])
    (watch : Bool) : m.mem.WroteToStack (m.step watch).machine.mem := by
  obtain ⟨interrupt, hdue⟩ | ⟨op, hop, huses⟩ := cases_of_stackOps hops
  · exact ⟨_, writes_step_of_due? hdue watch, by simp [frameWrites, highByte_stackCell]⟩
  · obtain ⟨written, hwritten, hwrites⟩ := writes_step_of_upcoming? hop watch
    refine ⟨written, hwritten, ?_⟩
    cases hmnemonic : op.mnemonic with
    | pha | php | pla | plp | jsr | rts | brk | rti =>
      rw [hmnemonic] at hwrites
      change written = _ at hwrites
      simp [hwrites, frameWrites, highByte_stackCell]
    | _ => exact absurd (congrArg (Mnemonic.stackOps _ _) hmnemonic) huses

/-- An entry does not change the code of a handler that lies off the page of the stack. -/
theorem opcodeByte_of_enters [CellBus M] {m : Machine M} {entry : Entry}
    (henters : m.Enters entry) {watch : Bool}
    (hpage : highByte (m.step watch).machine.cpu.pc ≠ 0x01) :
    (m.step watch).machine.opcodeByte = peek m.mem (m.step watch).machine.cpu.pc := by
  rw [opcodeByte_quiet, (step_of_enters henters watch).2.1, peek_pushFrame hpage]

theorem stackOps_recorded [QuietBus M] (m : Machine M) : m.recorded.stackOps = m.stackOps := by
  rw [stackOps, (records_recorded m).upcoming?]
  rfl

/-- A step does to the stack what its operations do to the list, if it spares the stack when it
performs none. -/
theorem Mirrors.step {empty : UInt8} {bytes : List UInt8} {m : Machine Ram} {watch : Bool}
    (hm : m.Mirrors empty bytes)
    (hspares : m.stackOps = [] → m.SameStack (m.step watch).machine)
    (hwithin : WithinPage bytes.length m.stackOps) :
    ∃ left, allOnList m.stackOps bytes = some ((m.performAll m.stackOps).1, left) ∧
      (m.step watch).machine.Mirrors empty left := by
  obtain ⟨left, hops, hlast⟩ := hm.performAll hwithin
  refine ⟨left, hops, hlast.of_sameStack ?_ (stackFree_ram _)⟩
  by_cases hnone : m.stackOps = []
  · rw [hnone]
    exact hspares hnone
  · obtain ⟨hmem, hsp⟩ := step_of_stackOps hnone watch
    exact ⟨hsp, fun sp ↦ by rw [hmem]⟩

end Machine

namespace Emulator

/-! ### The operations of a run -/

section Steps

variable [Bus M]

/-- The operations on the stack that a number of steps perform. -/
def stackOps : Nat → Emulator M → List StackOp
  | 0, _ => []
  | count + 1, s => s.machine.stackOps ++ stackOps count s.step.2

/-- What the operations of a number of steps take off the stack. -/
def taken : Nat → Emulator M → List Taken
  | 0, _ => []
  | count + 1, s => (s.machine.performAll s.machine.stackOps).1 ++ taken count s.step.2

end Steps

/-- The next step handles the stack as its operations say: it leaves the memory and the stack pointer
as they do, writes to page one alone, and keeps what they take off. -/
structure HandlesStack [QuietBus M] (s : Emulator M) : Prop where
  performs : s.machine.stackOps ≠ [] →
    s.step.2.machine.mem = (s.machine.performAll s.machine.stackOps).2.mem ∧
      s.step.2.machine.cpu.registers.sp =
        (s.machine.performAll s.machine.stackOps).2.cpu.registers.sp
  writes : s.machine.stackOps ≠ [] →
    s.machine.recorded.mem.WroteToStack (s.machine.recorded.step s.watched).machine.mem
  keeps : ∀ op, s.machine.upcoming? = some op →
    op.mnemonic.Keeps (s.machine.performAll s.machine.stackOps).1 s.step.2.machine.cpu

theorem handlesStack [QuietBus M] (s : Emulator M) : s.HandlesStack where
  performs hops := Machine.step_of_stackOps hops s.watched
  writes hops := Machine.wroteToStack_step (s.machine.stackOps_recorded ▸ hops) s.watched
  keeps _ hop := Machine.keeps_step hop s.watched

/-- Of a number of steps, those that perform no operation on the stack leave it as it is. -/
def SparesStack [QuietBus M] (count : Nat) (s : Emulator M) : Prop :=
  ∀ earlier < count, (s.afterSteps earlier).machine.stackOps = [] →
    (s.afterSteps earlier).machine.SameStack (s.afterSteps (earlier + 1)).machine

/-- Steps that are within a page do to the stack what their operations do to a list. -/
theorem mirrors_afterSteps {empty : UInt8} {bytes : List UInt8} {count : Nat} {s : Emulator Ram}
    (hm : s.machine.Mirrors empty bytes) (hspares : s.SparesStack count)
    (hwithin : WithinPage bytes.length (s.stackOps count)) :
    ∃ left, allOnList (s.stackOps count) bytes = some (s.taken count, left) ∧
      (s.afterSteps count).machine.Mirrors empty left := by
  induction count generalizing s bytes with
  | zero => exact ⟨bytes, rfl, hm⟩
  | succ count ih =>
    rw [stackOps] at hwithin
    obtain ⟨middle, hfirst, hmiddle⟩ := hm.step (hspares 0 (Nat.succ_pos count)) hwithin.left
    -- What the first step leaves on the list is what the steps after it start from.
    have hlater : s.step.2.SparesStack count :=
      fun earlier hearlier ↦ hspares (earlier + 1) (Nat.succ_lt_succ hearlier)
    obtain ⟨left, hrest, hlast⟩ :=
      ih hmiddle hlater (StackOp.length_allOnList hfirst ▸ hwithin.right)
    exact ⟨left, StackOp.allOnList_append hfirst hrest, hlast⟩

/-- What is put on the stack last comes off it first. Operations that never take off more than was
put on, and never leave more than a page of bytes there, take off what they take off a list of
bytes, move the stack pointer down by the number of bytes that they leave, modulo 256, and write to
page one alone; and this whatever the memory holds and wherever the stack pointer is. The same goes
for the steps that perform them, whether they enter a handler or execute an instruction, as long as
the steps between them leave the stack alone; and what such an instruction takes off the stack goes
where it keeps it. -/
theorem stack_is_last_in_first_out (ops : List StackOp) (hwithin : WithinPage 0 ops) :
    (∀ m : Machine Ram,
      LastInFirstOut ops (m.performAll ops).1 m.cpu.registers.sp
        (m.performAll ops).2.cpu.registers.sp ∧
      m.recorded.mem.WroteToStack (m.recorded.performAll ops).2.mem) ∧
    ∀ (s : Emulator Ram) (count : Nat), s.stackOps count = ops → s.SparesStack count →
      LastInFirstOut ops (s.taken count) s.machine.cpu.registers.sp
        (s.afterSteps count).machine.cpu.registers.sp ∧
      ∀ earlier < count, (s.afterSteps earlier).HandlesStack := by
  refine ⟨fun m ↦ ⟨?_, m.recorded.wroteToStack_performAll ops⟩, ?_⟩
  · obtain ⟨left, hops, hlast⟩ := m.mirrors_empty.performAll hwithin
    exact .of_mirrors hops hlast
  · rintro s count rfl hspares
    obtain ⟨left, hops, hlast⟩ := mirrors_afterSteps s.machine.mirrors_empty hspares hwithin
    exact ⟨.of_mirrors hops hlast, fun earlier _ ↦ (s.afterSteps earlier).handlesStack⟩

/-- A word that lies across the two ends of the page: an interrupt with the stack pointer at the
lowest cell, and a handler that returns at once. -/
theorem stack_is_last_in_first_out_across_wrap :
    let state : State :=
      { State.powerOn with
        registers := { Registers.powerOn with sp := 0x00 }
        pc := 0xBEEF
        pending := ⟨true, false⟩ }
    let s : Emulator Ram := ⟨⟨⟨state, .both 0x9000, {}⟩, Ram.blank.set 0x9000 0x40⟩, {}⟩
    let status := state.registers.flags.toPushedByte false
    let ops : List StackOp := [.pushWord 0xBEEF, .push status, .pop, .popWord]
    WithinPage 0 ops ∧ s.stackOps 2 = ops ∧
      s.taken 2 = [.nothing, .nothing, .byte status, .word 0xBEEF] ∧
      (s.afterSteps 2).machine.cpu.registers.sp = 0x00 := by
  intro state s status ops
  have hwithin : WithinPage 0 ops := by decide
  have hdue : s.machine.cpu.due? = some .nmi := rfl
  have hfirst : s.machine.stackOps = [.pushWord 0xBEEF, .push status] :=
    Machine.stackOps_of_due? hdue
  have hsecond : s.step.2.machine.stackOps = [.pop, .popWord] := by
    have henters : s.machine.Enters (.interrupt .nmi) := hdue
    have hpage : highByte 0x9000 ≠ 0x01 := by decide
    have hbyte : s.step.2.machine.opcodeByte = 0x40 := by
      rw [machine_step, Machine.opcodeByte_of_enters henters hpage]
      exact (Ram.get_set ..).trans (if_pos rfl)
    have hdecode : (Opcode.decodeUnder {} 0x40).any (·.mnemonic = .rti) := by decide
    obtain ⟨op, hop, hmnemonic⟩ := (Option.any_eq_true _ _).mp hdecode
    have hupcoming : s.step.2.machine.upcoming? = some op := by
      rw [Machine.upcoming?_of_due? rfl, hbyte]
      exact hop
    rw [Machine.stackOps_of_upcoming? hupcoming, of_decide_eq_true hmnemonic]
    rfl
  have hops : s.stackOps 2 = ops := by
    rw [stackOps, stackOps, stackOps, hfirst, hsecond]
    rfl
  have hspares : s.SparesStack 2 := by
    rintro (_ | _ | _) hearlier hnone
    · cases hfirst.symm.trans hnone
    · cases hsecond.symm.trans hnone
    · omega
  obtain ⟨⟨⟨left, honlist, -⟩, hsp⟩, -⟩ :=
    (stack_is_last_in_first_out ops hwithin).2 s 2 hops hspares
  refine ⟨hwithin, hops, ?_, ?_⟩
  · have hlist : allOnList ops [] =
        some ([.nothing, .nothing, .byte status, .word 0xBEEF], []) := rfl
    rw [hlist] at honlist
    exact (congrArg Prod.fst (Option.some.inj honlist)).symm
  · exact UInt8.toNat_inj.mp (Int.ofNat.inj hsp)

end Emulator

end Mos6502
