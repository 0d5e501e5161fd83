import Mos6502.Proofs.Host
import Mos6502.Proofs.Quiet

/-!
Frames on the stack. An interrupt, a break and a call each leave a frame: the address to come back
to and, except for a call, the status. Whatever happens in between, a return that finds the stack
pointer where the entry left it and the frame as it was pushed undoes the entry. Stack pointers wrap
within their page and program counters within the address space, and none of this depends on where
they are.

`Machine.Stacked` says that bytes lie on top of the stack. Pushing puts a byte in front of them and
popping takes the first one off (`Machine.Stacked.push`, `Machine.Stacked.pop`).
-/

set_option autoImplicit false

namespace Mos6502

open QuietBus (peek)

theorem stackCell_inj {sp other : UInt8} : stackCell sp = stackCell other ↔ sp = other := by
  constructor
  · intro hcell
    have hlow := congrArg lowByte hcell
    rwa [stackCell, stackCell, lowByte_word, lowByte_word] at hlow
  · rintro rfl
    rfl

/-- The cells on the stack are all different, up to a page of them. -/
theorem add_one_add_ne (sp : UInt8) {distance : Nat} (hdistance : distance < 255) :
    sp + 1 + UInt8.ofNat distance ≠ sp := by
  intro hsame
  have hnat := congrArg UInt8.toNat hsame
  have hsp := sp.toNat_lt
  simp at hnat
  omega

variable {M : Type}

/-! ### Bytes on top of the stack -/

section Quiet

variable [QuietBus M]

/-- Bytes lie above a stack pointer, in the order in which they are taken off. -/
def Above (mem : M) (sp : UInt8) : List UInt8 → Prop
  | [] => True
  | byte :: rest => peek mem (stackCell (sp + 1)) = byte ∧ Above mem (sp + 1) rest

namespace Machine

/-- Bytes lie on top of the stack, the first one on top. -/
def Stacked (bytes : List UInt8) (m : Machine M) : Prop :=
  Above m.mem m.cpu.registers.sp bytes

/-- A pop takes the byte on top and leaves those under it. -/
theorem Stacked.pop {m : Machine M} {byte : UInt8} {rest : List UInt8}
    (hstacked : m.Stacked (byte :: rest)) : m.pop.1 = byte ∧ m.pop.2.Stacked rest := by
  obtain ⟨htop, hrest⟩ := hstacked
  constructor
  · rw [fst_pop, Bus.fst_read_quiet, htop]
  · rw [Stacked, mem_pop, Bus.snd_read_quiet, cpu_pop]
    exact hrest

/-- A word comes off the stack low byte first. -/
theorem Stacked.popWord {m : Machine M} {low high : UInt8} {rest : List UInt8}
    (hstacked : m.Stacked (low :: high :: rest)) :
    m.popWord.1 = word low high ∧ m.popWord.2.Stacked rest := by
  obtain ⟨hlow, hrest⟩ := hstacked.pop
  obtain ⟨hhigh, hlast⟩ := hrest.pop
  exact ⟨by rw [← hlow, ← hhigh]; rfl, hlast⟩

end Machine

end Quiet

section Cells

variable [CellBus M]

/-- A write elsewhere leaves bytes on the stack alone. -/
theorem Above.write {mem : M} {sp target : UInt8} {bytes : List UInt8} {value : UInt8}
    (habove : Above mem sp bytes)
    (htarget : ∀ distance < bytes.length, sp + 1 + UInt8.ofNat distance ≠ target) :
    Above (Bus.write mem (stackCell target) value) sp bytes := by
  induction bytes generalizing sp with
  | nil => trivial
  | cons byte rest ih =>
    obtain ⟨htop, hrest⟩ := habove
    have hnext : sp + 1 ≠ target := by simpa using htarget 0 (by simp)
    refine ⟨?_, ih hrest ?_⟩
    · rw [CellBus.peek_write, if_neg (by simp [stackCell_inj, hnext]), htop]
    · intro distance hdistance
      have hshift : sp + 1 + UInt8.ofNat (distance + 1) = sp + 1 + 1 + UInt8.ofNat distance := by
        rw [UInt8.ofNat_add, UInt8.add_comm (UInt8.ofNat distance), ← UInt8.add_assoc]
        rfl
      rw [← hshift]
      exact htarget (distance + 1) (by simpa using hdistance)

namespace Machine

/-- No cell of the stack is protected from writes. -/
def StackFree (m : Machine M) : Prop :=
  ∀ sp, CellBus.guarded m.mem (stackCell sp) = false

/-- Plain memory protects nothing. -/
theorem stackFree_ram (m : Machine Ram) : m.StackFree :=
  fun _ ↦ rfl

theorem StackFree.push {m : Machine M} (hfree : m.StackFree) (value : UInt8) :
    (m.push value).StackFree := by
  intro sp
  rw [mem_push, CellBus.guarded_write]
  exact hfree sp

/-- A push puts a byte on top of those that are there, if less than a page of them is. -/
theorem Stacked.push {m : Machine M} {bytes : List UInt8} (hstacked : m.Stacked bytes)
    (hlength : bytes.length < 256) (hfree : m.StackFree) (value : UInt8) :
    (m.push value).Stacked (value :: bytes) := by
  have hsp : (m.push value).cpu.registers.sp + 1 = m.cpu.registers.sp := by simp
  refine ⟨?_, ?_⟩
  · rw [hsp, mem_push, CellBus.peek_write, if_pos ⟨rfl, hfree _⟩]
  · rw [hsp, mem_push]
    exact Above.write hstacked fun distance hdistance ↦ add_one_add_ne _ (by omega)

end Machine

end Cells

/-! ### Entries -/

/-- What leaves a frame on the stack. -/
inductive Entry where
  | interrupt (source : Interrupt)
  | softwareBreak
  | call
  deriving DecidableEq, Repr

namespace Flags

/-- A status pushed by software is the one pushed by an interrupt with B set. -/
theorem toPushedByte_true (f : Flags) : f.toPushedByte true = f.toPushedByte false ||| 0x10 := by
  simp only [toPushedByte, toByte, if_true, if_false, Bool.false_eq_true, UInt8.or_zero]
  ac_rfl

/-- A status pushed by an interrupt has B clear. -/
theorem toPushedByte_false_and (f : Flags) : f.toPushedByte false &&& 0x10 = 0 := by
  have hbit : (ofByte (f.toPushedByte false)).b = false :=
    congrArg Flags.b (ofByte_toByte { f with b := false, u := true })
  exact bne_eq_false_iff_eq.mp hbit

end Flags

namespace Entry

/-- The address that an entry made at `pc` puts on the stack. A call puts there the address of its
last byte. -/
def pushedPc (pc : UInt16) : Entry → UInt16
  | interrupt _ => pc
  | softwareBreak | call => pc + 2

/-- The status that an entry puts on the stack; a call puts none there. -/
def pushedStatus? (flags : Flags) : Entry → Option UInt8
  | interrupt _ => some (flags.toPushedByte false)
  | softwareBreak => some (flags.toPushedByte true)
  | call => none

/-- The frame of an entry, with the byte on top first. -/
def frame (pc : UInt16) (flags : Flags) (entry : Entry) : List UInt8 :=
  (entry.pushedStatus? flags).toList ++ [lowByte (entry.pushedPc pc), highByte (entry.pushedPc pc)]

/-- The address to which an entry made at `pc` comes back. -/
def returnPc (pc : UInt16) : Entry → UInt16
  | interrupt _ => pc
  | softwareBreak => pc + 2
  | call => pc + 3

/-- The frames of interrupts and breaks that are entered with the same flags differ in the address,
and in the one bit of the status that only a break sets. -/
theorem frame_of_ne_call {entry : Entry} (hentry : entry ≠ call) (pc : UInt16) (flags : Flags) :
    let status := flags.toPushedByte false
    entry.frame pc flags =
      [if entry = softwareBreak then status ||| 0x10 else status, lowByte (entry.pushedPc pc),
        highByte (entry.pushedPc pc)] := by
  intro status
  cases entry with
  | interrupt source => simp [frame, pushedStatus?, status]
  | softwareBreak => simp [frame, pushedStatus?, status, flags.toPushedByte_true]
  | call => exact absurd rfl hentry

/-- The instruction that undoes an entry. -/
def undoneBy : Entry → Mnemonic
  | interrupt _ | softwareBreak => .rti
  | call => .rts

end Entry

namespace Machine

variable [Bus M]

/-- The next step executes an instruction of this name. -/
def Executes (mnemonic : Mnemonic) (m : Machine M) : Prop :=
  ∃ op, m.upcoming? = some op ∧ op.mnemonic = mnemonic

/-- The next step makes an entry. -/
def Enters (m : Machine M) : Entry → Prop
  | .interrupt source => m.cpu.due? = some source
  | .softwareBreak => m.Executes .brk
  | .call => m.Executes .jsr

/-- A machine with the frame of an entry put on its stack. -/
def pushFrame (m : Machine M) (entry : Entry) : Machine M :=
  let m' := m.pushWord (entry.pushedPc m.cpu.pc)
  match entry.pushedStatus? m.cpu.registers.flags with
  | some status => m'.push status
  | none => m'

/-- Pushing a frame moves the stack pointer by its size. -/
theorem sp_pushFrame (m : Machine M) (entry : Entry) :
    (m.pushFrame entry).cpu.registers.sp =
      m.cpu.registers.sp -
        UInt8.ofNat (entry.frame m.cpu.pc m.cpu.registers.flags).length := by
  cases entry with
  | call =>
    change m.cpu.registers.sp - 1 - 1 = m.cpu.registers.sp - 2
    grind
  | interrupt | softwareBreak =>
    change m.cpu.registers.sp - 1 - 1 - 1 = m.cpu.registers.sp - 3
    grind

/-- A break is one byte long, and a call is three. -/
theorem following_of_upcoming? {m : Machine M} {op : Opcode} (hop : m.upcoming? = some op) :
    (op.mnemonic = .brk → m.following op = m.cpu.pc + 1) ∧
      (op.mnemonic = .jsr → m.following op = m.cpu.pc + 3) := by
  have hsize : decide ((op.mnemonic = .brk → op.size = 1) ∧ (op.mnemonic = .jsr → op.size = 3)) :=
    Opcode.of_decode
      (fun op ↦ decide ((op.mnemonic = .brk → op.size = 1) ∧ (op.mnemonic = .jsr → op.size = 3)))
      (by decide +kernel) (decode_of_upcoming? hop)
  obtain ⟨hbrk, hjsr⟩ := of_decide_eq_true hsize
  constructor
  · intro hmnemonic
    rw [following, hbrk hmnemonic]
    rfl
  · intro hmnemonic
    rw [following, hjsr hmnemonic]
    rfl

end Machine

section Quiet

variable [QuietBus M]

namespace Machine

/-- A step that makes an entry succeeds, and leaves the memory and the stack pointer as they are
once the frame has been pushed. -/
theorem step_of_enters {m : Machine M} {entry : Entry} (henters : m.Enters entry) (watch : Bool) :
    (∃ cost, (m.step watch).result = .ok cost) ∧
      (m.step watch).machine.mem = (m.pushFrame entry).mem ∧
      (m.step watch).machine.cpu.registers.sp = (m.pushFrame entry).cpu.registers.sp := by
  cases entry with
  | interrupt source =>
    rw [step_of_due? henters]
    exact ⟨⟨_, rfl⟩, rfl, rfl⟩
  | softwareBreak =>
    obtain ⟨op, hop, hbrk⟩ := henters
    obtain ⟨perform, cost, hperform, hresult, hmachine⟩ := performed_of_upcoming? hop watch
    rw [hbrk, (following_of_upcoming? hop).1 hbrk] at hperform
    cases hperform
    have hpushed : m.cpu.pc + 1 + 1 = m.cpu.pc + 2 := by rw [UInt16.add_assoc]; rfl
    rw [hmachine, breakFrom, hpushed]
    exact ⟨⟨cost, hresult⟩, rfl, rfl⟩
  | call =>
    obtain ⟨op, hop, hjsr⟩ := henters
    obtain ⟨perform, cost, hperform, hresult, hmachine⟩ := performed_of_upcoming? hop watch
    rw [hjsr, (following_of_upcoming? hop).2 hjsr] at hperform
    obtain ⟨target, -, rfl⟩ := Option.map_eq_some_iff.mp hperform
    have hpushed : m.cpu.pc + 3 - 1 = m.cpu.pc + 2 := by
      rw [UInt16.sub_eq_add_neg, UInt16.add_assoc]; rfl
    rw [hmachine, hpushed]
    exact ⟨⟨cost, hresult⟩, rfl, rfl⟩

/-- A return from a handler succeeds, and takes the status and then the address off the stack. -/
theorem step_of_rti {m : Machine M} {status low high : UInt8} (hrti : m.Executes .rti)
    (hstacked : m.Stacked [status, low, high]) (watch : Bool) :
    (∃ cost, (m.step watch).result = .ok cost) ∧
      (m.step watch).machine.cpu.pc = word low high ∧
      (m.step watch).machine.cpu.registers.sp = m.cpu.registers.sp + 3 ∧
      (m.step watch).machine.cpu.registers.flags = .ofPulledByte status := by
  obtain ⟨op, hop, hmnemonic⟩ := hrti
  obtain ⟨perform, cost, hperform, hresult, hmachine⟩ := performed_of_upcoming? hop watch
  rw [hmnemonic] at hperform
  cases hperform
  obtain ⟨hstatus, hrest⟩ := hstacked.pop
  have hword := (Stacked.popWord (m := m.pop.2.mapRegisters fun r ↦
    { r with flags := .ofPulledByte m.pop.1 }) hrest).1
  have hsp : m.cpu.registers.sp + 3 = m.cpu.registers.sp + 1 + 1 + 1 := by
    rw [UInt8.add_assoc, UInt8.add_assoc]; rfl
  rw [hmachine, hsp, ← hstatus]
  exact ⟨⟨cost, hresult⟩, hword, rfl, rfl⟩

/-- A return from a call succeeds, and takes the address off the stack. -/
theorem step_of_rts {m : Machine M} {low high : UInt8} (hrts : m.Executes .rts)
    (hstacked : m.Stacked [low, high]) (watch : Bool) :
    (∃ cost, (m.step watch).result = .ok cost) ∧
      (m.step watch).machine.cpu.pc = word low high + 1 ∧
      (m.step watch).machine.cpu.registers.sp = m.cpu.registers.sp + 2 := by
  obtain ⟨op, hop, hmnemonic⟩ := hrts
  obtain ⟨perform, cost, hperform, hresult, hmachine⟩ := performed_of_upcoming? hop watch
  rw [hmnemonic] at hperform
  cases hperform
  have hsp : m.cpu.registers.sp + 2 = m.cpu.registers.sp + 1 + 1 := by
    rw [UInt8.add_assoc]; rfl
  rw [hmachine, hsp]
  exact ⟨⟨cost, hresult⟩, congrArg (· + 1) hstacked.popWord.1, rfl⟩

/-- A return that finds the frame of an entry on top of the stack comes back to where the entry was
made, with the stack pointer past the frame and, from a handler, with the flags from before it. -/
theorem step_of_undoneBy {m : Machine M} {entry : Entry} {pc : UInt16} {flags : Flags}
    (hframe : m.Stacked (entry.frame pc flags)) (hreturn : m.Executes entry.undoneBy)
    (watch : Bool) :
    (∃ cost, (m.step watch).result = .ok cost) ∧
      (m.step watch).machine.cpu.pc = entry.returnPc pc ∧
      (m.step watch).machine.cpu.registers.sp =
        m.cpu.registers.sp + UInt8.ofNat (entry.frame pc flags).length ∧
      (entry.undoneBy = .rti →
        (m.step watch).machine.cpu.registers.flags = { flags with b := false, u := true }) := by
  cases entry with
  | call =>
    obtain ⟨hresult, hpc, hsp⟩ := step_of_rts hreturn hframe watch
    have hafter : pc + 2 + 1 = pc + 3 := by rw [UInt16.add_assoc]; rfl
    rw [word_lowByte_highByte] at hpc
    exact ⟨hresult, hpc.trans hafter, hsp, nofun⟩
  | interrupt | softwareBreak =>
    obtain ⟨hresult, hpc, hsp, hflags⟩ := step_of_rti hreturn hframe watch
    rw [word_lowByte_highByte] at hpc
    rw [Flags.ofPulledByte_toPushedByte] at hflags
    exact ⟨hresult, hpc, hsp, fun _ ↦ hflags⟩

end Machine

end Quiet

section Cells

variable [CellBus M]

/-- Where nothing is protected, an entry leaves its frame on top of the stack. -/
theorem Machine.stacked_pushFrame {m : Machine M} (hfree : m.StackFree) (entry : Entry) :
    (m.pushFrame entry).Stacked (entry.frame m.cpu.pc m.cpu.registers.flags) := by
  have hempty : m.Stacked [] := trivial
  have hhigh := hempty.push (by simp) hfree (highByte (entry.pushedPc m.cpu.pc))
  have hword := hhigh.push (by simp) (hfree.push _) (lowByte (entry.pushedPc m.cpu.pc))
  cases entry with
  | call => exact hword
  | interrupt | softwareBreak => exact hword.push (by simp) ((hfree.push _).push _) _

/-- An entry writes to the page of the stack alone. -/
theorem Machine.peek_pushFrame {address : UInt16} (hpage : highByte address ≠ 0x01) (m : Machine M)
    (entry : Entry) : peek (m.pushFrame entry).mem address = peek m.mem address := by
  have hcell : ∀ sp, address ≠ stackCell sp := by
    rintro sp rfl
    exact hpage (highByte_word sp 0x01)
  cases entry <;> simp [pushFrame, Entry.pushedStatus?, pushWord, CellBus.peek_write, hcell]

namespace Emulator

/-- Returns undo entries. An entry succeeds and, where the stack is not protected, leaves its frame
on top of it. Whatever follows, if the stack pointer is where the entry left it and the frame is as
it was pushed, the return goes back to where the entry was made, takes the frame off the stack and,
from a handler, brings back the flags with B clear and U set. The frames of interrupts and breaks
that are entered with the same flags differ in the pushed address and in B. -/
theorem return_undoes_entry {s : Emulator M} {entry : Entry} (henters : s.machine.Enters entry) :
    let before := s.machine.cpu
    let entered := s.step.2
    let frame := entry.frame before.pc before.registers.flags
    ((∃ cost, s.step.1 = .ok cost) ∧
      entered.machine.cpu.registers.sp = before.registers.sp - UInt8.ofNat frame.length ∧
      (s.machine.StackFree → entered.machine.Stacked frame)) ∧
    (∀ turns : List (Turn M),
      let later := (entered.session turns).2
      later.machine.cpu.registers.sp = entered.machine.cpu.registers.sp →
      later.machine.Stacked frame →
      later.machine.Executes entry.undoneBy →
        let after := later.step.2.machine.cpu
        (∃ cost, later.step.1 = .ok cost) ∧
          after.pc = entry.returnPc before.pc ∧
          after.registers.sp = before.registers.sp ∧
          (entry.undoneBy = .rti →
            after.registers.flags = { before.registers.flags with b := false, u := true })) ∧
    ∃ status : UInt8, status &&& 0x10 = 0 ∧
      ∀ other : Entry, other ≠ .call → ∀ pc, other.frame pc before.registers.flags =
        [if other = .softwareBreak then status ||| 0x10 else status, lowByte (other.pushedPc pc),
          highByte (other.pushedPc pc)] := by
  intro before entered frame
  obtain ⟨hresult, hmem, hsp⟩ := Machine.step_of_enters henters s.watched
  refine ⟨⟨hresult, ?_, ?_⟩, ?_, before.registers.flags.toPushedByte false,
    Flags.toPushedByte_false_and _, fun other hother pc ↦ Entry.frame_of_ne_call hother pc _⟩
  · rw [machine_step, hsp]
    exact s.machine.sp_pushFrame entry
  · intro hfree
    have hpushed := Machine.stacked_pushFrame hfree entry
    rwa [Machine.Stacked, ← hmem, ← hsp] at hpushed
  · intro turns later hback hframe hreturn after
    obtain ⟨hok, hpc, hafter, hflags⟩ :=
      Machine.step_of_undoneBy hframe hreturn later.watched
    have hlater : later.machine.cpu.registers.sp =
        before.registers.sp - UInt8.ofNat frame.length :=
      (hback.trans hsp).trans (s.machine.sp_pushFrame entry)
    refine ⟨hok, hpc, ?_, hflags⟩
    rw [hlater, UInt8.sub_add_cancel] at hafter
    exact hafter

/-- An interrupt at the last address, with a frame that wraps within the page of the stack and a
handler that returns at once. -/
theorem return_undoes_interrupt_at_wrap :
    let state : State :=
      { State.powerOn with
        registers := { Registers.powerOn with sp := 0x01 }
        pc := 0xFFFF
        pending := ⟨true, false⟩ }
    let s : Emulator Ram := ⟨⟨⟨state, .both 0x9000, {}⟩, Ram.blank.set 0x9000 0x40⟩, {}⟩
    let later := s.step.2
    s.machine.Enters (.interrupt .nmi) ∧ later.machine.Executes .rti ∧
      later.step.2.machine.cpu.pc = 0xFFFF ∧ later.step.2.machine.cpu.registers.sp = 0x01 := by
  intro state s later
  have henters : s.machine.Enters (.interrupt .nmi) := rfl
  have hreturns : later.machine.Executes .rti := by
    have hbyte : later.machine.opcodeByte = 0x40 := by
      have hmem := (Machine.step_of_enters henters s.watched).2.1
      have hpage : highByte 0x9000 ≠ 0x01 := by decide
      have hpc : later.machine.cpu.pc = 0x9000 := rfl
      calc later.machine.opcodeByte
          = peek later.machine.mem later.machine.cpu.pc := later.machine.opcodeByte_quiet
        _ = peek later.machine.mem 0x9000 := by rw [hpc]
        _ = peek (s.machine.pushFrame (.interrupt .nmi)).mem 0x9000 :=
          congrArg (peek · 0x9000) hmem
        _ = peek (Ram.blank.set 0x9000 0x40) 0x9000 := Machine.peek_pushFrame hpage s.machine _
        _ = 0x40 := (Ram.get_set ..).trans (if_pos rfl)
    have hdecode : (Opcode.decodeUnder {} 0x40).any (·.mnemonic = .rti) := by decide
    obtain ⟨op, hop, hrti⟩ := (Option.any_eq_true _ _).mp hdecode
    refine ⟨op, ?_, of_decide_eq_true hrti⟩
    rw [Machine.upcoming?_of_due? rfl, hbyte]
    exact hop
  obtain ⟨⟨-, -, hframe⟩, hundoes, -⟩ := return_undoes_entry henters
  obtain ⟨-, hpc, hsp, -⟩ := hundoes [] rfl (hframe (Machine.stackFree_ram _)) hreturns
  exact ⟨henters, hreturns, hpc, hsp⟩

end Emulator

end Cells

end Mos6502
