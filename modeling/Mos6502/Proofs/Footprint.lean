import Mos6502.Proofs.Recording
import Mos6502.Proofs.Switches
import Mos6502.Proofs.Writes

/-!
What a step leaves alone. On a quiet bus, memory after a step is memory before it with the writes of the
step made in order (`Machine.mem_step_of_upcoming?`), and on a bus of cells those are seen only at the
cells of a short list, the `footprint` of the step. What becomes of the registers depends on the kind of
action alone, apart from the bytes that it finds (`Action.Yields`), and so it can be read off the listing
of actions which flags and registers an instruction has no way to change (`Mnemonic.spares_of_yields`).

Together they are the frame of a step (`Emulator.step_leaves_the_rest_alone`).
-/

set_option autoImplicit false

namespace Mos6502

open QuietBus (peek)

variable {M : Type}

/-! ### Memory as what was written -/

/-- Memory after writes, each an address and a byte, that are made in order. -/
def replay [Bus M] (mem : M) (written : List (UInt16 × UInt8)) : M :=
  written.foldl (fun mem write ↦ Bus.write mem write.1 write.2) mem

/-- Writes to other cells cannot be seen at a cell. -/
theorem peek_replay [CellBus M] {written : List (UInt16 × UInt8)} {cell : UInt16}
    (helsewhere : ∀ write ∈ written, write.1 ≠ cell) (mem : M) :
    peek (replay mem written) cell = peek mem cell := by
  induction written generalizing mem with
  | nil => rfl
  | cons write rest ih =>
    obtain ⟨hwrite, hrest⟩ := List.forall_mem_cons.mp helsewhere
    calc peek (replay mem (write :: rest)) cell
        = peek (Bus.write mem write.1 write.2) cell := ih hrest _
      _ = peek mem cell := by
        rw [CellBus.peek_write, if_neg fun hsame ↦ hwrite hsame.1.symm]

section Quiet

variable [QuietBus M]

/-- A recorder of everything that was written to a bus since it was at `start`. -/
structure Minutes (start : M) where
  recorder : Recorder M
  bus_eq : recorder.bus = replay start recorder.writes

namespace Minutes

variable {start : M}

instance : Bus (Minutes start) where
  read minutes address :=
    ((Bus.read minutes.recorder address).1,
      { recorder := (Bus.read minutes.recorder address).2
        bus_eq := by
          rw [Recorder.writes_read, ← minutes.bus_eq]
          exact Bus.snd_read_quiet minutes.recorder.bus address })
  write minutes address value :=
    { recorder := Bus.write minutes.recorder address value
      bus_eq := by
        rw [Recorder.writes_write, replay, List.foldl_append]
        exact congrArg (Bus.write · address value) minutes.bus_eq }

end Minutes

/-- The disguise that hides what is known about a recorder. -/
def Disguise.unsealed {start : M} : Disguise (Minutes start) (Recorder M) where
  bus := Minutes.recorder
  read_bus _ _ := rfl
  write_bus _ _ _ := rfl

omit [QuietBus M] in
/-- What an action can be performed on depends on its operand, and not on the bus. -/
theorem Action.exists_perform? {N : Type} [Bus M] [Bus N] (d : Disguise M N) {action : Action}
    {operand : Operand} {next : UInt16} {performAlike : Machine N → Performed N}
    (halike : action.perform? operand next = some performAlike) (m : Machine M) :
    ∃ perform : Machine M → Performed M, action.perform? operand next = some perform := by
  have hsame := perform?_disguised d action operand next m
  rw [halike] at hsame
  obtain ⟨perform, hperform, -⟩ := Option.map_eq_some_iff.mp hsame.symm
  exact ⟨perform, hperform⟩

/-- Memory after an action is memory before it with the writes of the action made. -/
theorem Action.mem_perform {action : Action} {operand : Operand} {next : UInt16}
    {perform : Machine M → Performed M} (hperform : action.perform? operand next = some perform)
    (m : Machine M) :
    ∃ written, (perform m).machine.mem = replay m.mem written ∧
      action.Writes operand next m.cpu written := by
  -- An action on minutes leaves minutes, whose memory is what was written. The two disguises say that
  -- it does the same to the recorder in them, and to the machine without a recorder.
  let minuted : Machine (Minutes m.mem) := m.withMemory ⟨{ bus := m.mem }, rfl⟩
  have hunsealed : minuted.disguised .unsealed = m.recorded := by
    simp [minuted, Machine.disguised, Machine.recorded, Machine.withMemory, Disguise.unsealed]
  have hunrecorded : m.recorded.disguised .unrecorded = m := by
    simp [Machine.disguised, Machine.recorded, Machine.withMemory, Disguise.unrecorded]
  obtain ⟨performRecorded, hrecorded⟩ := exists_perform? .unrecorded hperform m.recorded
  obtain ⟨performMinuted, hminuted⟩ := exists_perform? .unsealed hrecorded minuted
  obtain ⟨written, hwritten, hwrites⟩ := writes_perform hrecorded m.recorded
  have hsealed := perform_disguised .unsealed hminuted hrecorded minuted
  have hhidden := perform_disguised .unrecorded hrecorded hperform m.recorded
  rw [hunsealed] at hsealed
  rw [hunrecorded] at hhidden
  refine ⟨written, ?_, hwrites⟩
  calc (perform m).machine.mem
      = (performRecorded m.recorded).machine.mem.bus := by rw [hhidden]; rfl
    _ = replay m.mem (performRecorded m.recorded).machine.mem.writes := by
      rw [hsealed]
      exact (performMinuted minuted).machine.mem.bus_eq
    _ = replay m.mem written := by
      rw [hwritten]
      rfl

namespace Machine

/-- A step that services an interrupt writes the frame of its handler to memory. -/
theorem mem_step_of_due? {m : Machine M} {interrupt : Interrupt}
    (hdue : m.cpu.due? = some interrupt) (watch : Bool) :
    (m.step watch).machine.mem =
      replay m.mem (frameWrites m.cpu.registers.sp m.cpu.pc
        (m.cpu.registers.flags.toPushedByte false)) := by
  rw [step_of_due? hdue]
  rfl

/-- A step that executes an instruction makes the writes of its action in memory. -/
theorem mem_step_of_upcoming? {m : Machine M} {op : Opcode} (hop : m.upcoming? = some op)
    (watch : Bool) :
    ∃ written, (m.step watch).machine.mem = replay m.mem written ∧
      op.mnemonic.action.Writes (m.resolved op).operand (m.following op) m.cpu written := by
  obtain ⟨perform, cost, hperform, -, hmachine⟩ := performed_of_upcoming? hop watch
  obtain ⟨written, hmem, hwrites⟩ := Action.mem_perform hperform m
  exact ⟨written, by rw [hmachine, mem_mapState, hmem], hwrites⟩

end Machine

end Quiet

/-! ### Registers -/

/-- What an action makes of the registers, up to the bytes that it finds. -/
def Action.Yields (action : Action) (decimal : Bool) (r after : Registers) : Prop :=
  match action with
  | .inherent compute => after = compute r
  | .consume compute => ∃ byte, after = compute decimal r byte
  | .change cell => after = r.applyA cell ∨ ∃ byte, after = (r.applyCell cell byte).2
  | .changeThenConsume cell compute =>
    ∃ old new, after = compute decimal (r.applyCell cell old).2 new
  | .call => after = { r with sp := r.sp - 1 - 1 }
  | .endCall => after = { r with sp := r.sp + 1 + 1 }
  | .softwareBreak =>
    after = { r with sp := r.sp - 1 - 1 - 1, flags := { r.flags with i := true } }
  | .endInterrupt =>
    ∃ status, after = { r with sp := r.sp + 1 + 1 + 1, flags := .ofPulledByte status }
  | .push _ => after = { r with sp := r.sp - 1 }
  | .pull compute => ∃ byte, after = compute { r with sp := r.sp + 1 } byte
  | .store _ | .touch | .branch _ | .jump => after = r

/-- An action performed on a machine makes of its registers what it makes of registers. -/
theorem Action.yields_perform [Bus M] {action : Action} {operand : Operand} {next : UInt16}
    {perform : Machine M → Performed M} (hperform : action.perform? operand next = some perform)
    (m : Machine M) :
    action.Yields m.cpu.options.decimalMode m.cpu.registers (perform m).machine.cpu.registers := by
  cases action with
  | inherent | endCall | softwareBreak | push =>
    cases hperform
    rfl
  | endInterrupt | pull =>
    cases hperform
    exact ⟨_, rfl⟩
  | consume compute =>
    obtain ⟨source, -, rfl⟩ := Option.map_eq_some_iff.mp hperform
    exact ⟨source.byte m, by rw [Machine.cpu_jump, Machine.cpu_consume]⟩
  | store | call | jump =>
    obtain ⟨address, -, rfl⟩ := Option.map_eq_some_iff.mp hperform
    rfl
  | change cell =>
    rw [perform?] at hperform
    split at hperform
    · cases hperform
      exact Or.inl rfl
    · obtain ⟨address, -, rfl⟩ := Option.map_eq_some_iff.mp hperform
      exact Or.inr ⟨_, rfl⟩
  | changeThenConsume cell compute =>
    obtain ⟨address, -, rfl⟩ := Option.map_eq_some_iff.mp hperform
    exact ⟨_, _, rfl⟩
  | touch =>
    rw [perform?] at hperform
    split at hperform
    · cases hperform
      rfl
    · cases hperform
      rfl
  | branch condition =>
    obtain ⟨target, -, rfl⟩ := Option.map_eq_some_iff.mp hperform
    rw [Machine.branch]
    split <;> rfl

/-- What an instruction leaves alone in the registers. The flags D, I, V, B and U, and the registers SP,
X and Y, are as before unless the instruction is one of those that are listed for them; C is as before
after the instructions that compute without a carry, and all flags after those that compute nothing. -/
structure Mnemonic.Spares (mnemonic : Mnemonic) (r after : Registers) : Prop where
  d : mnemonic ∈ [.cld, .sed, .plp, .rti] ∨ after.flags.d = r.flags.d
  i : mnemonic ∈ [.cli, .sei, .plp, .rti, .brk] ∨ after.flags.i = r.flags.i
  v : mnemonic ∈ [.adc, .sbc, .rra, .isc, .bit, .arr, .clv, .plp, .rti] ∨ after.flags.v = r.flags.v
  b : mnemonic ∈ [.plp, .rti] ∨ after.flags.b = r.flags.b
  u : mnemonic ∈ [.plp, .rti] ∨ after.flags.u = r.flags.u
  c : mnemonic ∉ [.lda, .ldx, .ldy, .lax, .pla, .tax, .tay, .txa, .tya, .tsx, .txs, .and, .ora, .eor,
    .bit, .inc, .dec, .inx, .iny, .dex, .dey] ∨ after.flags.c = r.flags.c
  flags : mnemonic ∉ [.sta, .stx, .sty, .sax, .txs, .nop, .bcc, .bcs, .bne, .beq, .bpl, .bmi, .bvc,
    .bvs, .jmp, .jsr, .rts, .pha, .php] ∨ after.flags = r.flags
  sp : mnemonic ∈ [.txs, .pha, .php, .pla, .plp, .jsr, .rts, .brk, .rti] ∨ after.sp = r.sp
  x : mnemonic ∈ [.ldx, .tax, .tsx, .inx, .dex, .lax, .axs] ∨ after.x = r.x
  y : mnemonic ∈ [.ldy, .tay, .iny, .dey] ∨ after.y = r.y

/-- Addition computes the accumulator and the flags that describe a result. -/
theorem Registers.exists_add (decimal : Bool) (r : Registers) (m : UInt8) :
    ∃ a c z v n, r.add decimal m = { r with a, flags := { r.flags with c, z, v, n } } := by
  rw [add]
  split <;> exact ⟨_, _, _, _, _, rfl⟩

/-- What the action of an instruction yields leaves alone what the instruction has no way to change. -/
theorem Mnemonic.spares_of_yields {mnemonic : Mnemonic} {decimal : Bool} {r after : Registers}
    (hyields : mnemonic.action.Yields decimal r after) : mnemonic.Spares r after := by
  -- The cases are those of the kind of action. In each, a field either is kept, whatever bytes are
  -- found, or has the instruction in its list.
  cases mnemonic with
  | adc =>
    obtain ⟨byte, rfl⟩ := hyields
    obtain ⟨a, c, z, v, n, hadd⟩ := r.exists_add decimal byte
    rw [hadd]
    constructor <;> first | exact .inr rfl | exact .inl (by decide)
  | rra =>
    obtain ⟨old, new, rfl⟩ := hyields
    obtain ⟨a, c, z, v, n, hadd⟩ := (r.applyCell .rotateRight old).2.exists_add decimal new
    rw [hadd]
    constructor <;> first | exact .inr rfl | exact .inl (by decide)
  | lda | ldx | ldy | lax | sbc | and | ora | eor | bit | cmp | cpx | cpy | anc | alr | arr | axs
  | pla | plp | rti =>
    obtain ⟨byte, rfl⟩ := hyields
    constructor <;> first | exact .inr rfl | exact .inl (by decide)
  | inc | dec | asl | lsr | rol | ror =>
    obtain rfl | ⟨byte, rfl⟩ := hyields
    · constructor <;> first | exact .inr rfl | exact .inl (by decide)
    · constructor <;> first | exact .inr rfl | exact .inl (by decide)
  | slo | rla | sre | dcp | isc =>
    obtain ⟨old, new, rfl⟩ := hyields
    constructor <;> first | exact .inr rfl | exact .inl (by decide)
  | _ =>
    cases hyields
    constructor <;> first | exact .inr rfl | exact .inl (by decide)

/-! ### The frame of a step -/

/-- The cells that an instruction can change, given its operand and the stack pointer: the cell that
the operand names, or the ones that the stack grows into. -/
def Mnemonic.footprint (operand : Operand) (sp : UInt8) : Mnemonic → List UInt16
  | .sta | .stx | .sty | .sax | .asl | .lsr | .rol | .ror | .inc | .dec | .slo | .rla | .sre | .rra
  | .dcp | .isc => operand.address?.toList
  | .pha | .php => [stackCell sp]
  | .jsr => [stackCell sp, stackCell (sp - 1)]
  | .brk => [stackCell sp, stackCell (sp - 1), stackCell (sp - 2)]
  | _ => []

theorem map_frameWrites (sp : UInt8) (returnTo : UInt16) (status : UInt8) :
    (frameWrites sp returnTo status).map Prod.fst =
      [stackCell sp, stackCell (sp - 1), stackCell (sp - 2)] := by
  have hlast : sp - 1 - 1 = sp - 2 := by grind
  rw [← hlast]
  rfl

/-- The writes of an action go to the cells that its instruction can change. -/
theorem Mnemonic.mem_footprint {mnemonic : Mnemonic} {operand : Operand} {next : UInt16} {cpu : Cpu}
    {written : List (UInt16 × UInt8)} (hwrites : mnemonic.action.Writes operand next cpu written)
    {write : UInt16 × UInt8} (hwrite : write ∈ written) :
    write.1 ∈ mnemonic.footprint operand cpu.registers.sp := by
  have hcell : write.1 ∈ written.map Prod.fst := List.mem_map_of_mem hwrite
  cases mnemonic with
  | sta | stx | sty | sax | asl | lsr | rol | ror | inc | dec | slo | rla | sre | rra | dcp | isc =>
    exact Option.mem_toList.mpr (hwrites write hwrite)
  | brk =>
    have hframe : written = frameWrites _ _ _ := hwrites
    rw [hframe, map_frameWrites] at hcell
    exact hcell
  | pha | php | jsr =>
    have hpushed : written = _ := hwrites
    rw [hpushed] at hcell
    exact hcell
  | _ =>
    have hnone : written = [] := hwrites
    rw [hnone] at hwrite
    cases hwrite

namespace Machine

/-- The cells that a step can change: those of the frame of a handler, or those of an instruction. -/
def footprint [Bus M] (m : Machine M) : List UInt16 :=
  let sp := m.cpu.registers.sp
  match m.cpu.due?, m.upcoming? with
  | some _, _ => [stackCell sp, stackCell (sp - 1), stackCell (sp - 2)]
  | none, some op => op.mnemonic.footprint (m.resolved op).operand sp
  | none, none => []

/-- What a step leaves alone: memory outside its footprint, what the instruction has no way to change
in the registers, all of the registers but SP and I where an interrupt is serviced, and in every case
the options, the stall cycles and the vectors. -/
structure Spares [QuietBus M] (m after : Machine M) : Prop where
  memory : ∀ cell, peek after.mem cell ≠ peek m.mem cell → cell ∈ m.footprint
  service : ∀ interrupt, m.cpu.due? = some interrupt →
    after.cpu.registers = { m.cpu.registers with
      sp := m.cpu.registers.sp - 3
      flags := { m.cpu.registers.flags with i := true } }
  execution : ∀ op, m.upcoming? = some op →
    op.mnemonic.Spares m.cpu.registers after.cpu.registers
  softwareBreak : m.Executes .brk → after.cpu.registers.flags.i = true
  stop : m.cpu.due? = none → m.upcoming? = none → after.cpu.registers = m.cpu.registers
  options : after.cpu.options = m.cpu.options
  stall : after.cpu.stall = m.cpu.stall
  vectors : after.cpu.vectors = m.cpu.vectors

/-- Cells outside its footprint are after a step as before it. -/
theorem mem_footprint_of_changed [CellBus M] {m : Machine M} {watch : Bool} {cell : UInt16}
    (hchanged : peek (m.step watch).machine.mem cell ≠ peek m.mem cell) : cell ∈ m.footprint := by
  refine Decidable.byContradiction fun hcell ↦ hchanged ?_
  cases hdue : m.cpu.due? with
  | some interrupt =>
    rw [footprint, hdue] at hcell
    rw [mem_step_of_due? hdue]
    refine peek_replay (fun write hwrite hsame ↦ hcell ?_) m.mem
    have hframe := List.mem_map_of_mem (f := Prod.fst) hwrite
    rwa [map_frameWrites, hsame] at hframe
  | none =>
    cases hop : m.upcoming? with
    | some op =>
      rw [footprint, hdue, hop] at hcell
      obtain ⟨written, hmem, hwrites⟩ := mem_step_of_upcoming? hop watch
      rw [hmem]
      refine peek_replay (fun write hwrite hsame ↦ hcell ?_) m.mem
      exact hsame ▸ Mnemonic.mem_footprint hwrites hwrite
    | none =>
      rw [step_of_illegal hdue ((upcoming?_of_due? hdue).symm.trans hop), stopped, fetched_quiet]

/-- The registers after a step that executes an instruction are what its action yields. -/
theorem yields_step_of_upcoming? [Bus M] {m : Machine M} {op : Opcode}
    (hop : m.upcoming? = some op) (watch : Bool) :
    op.mnemonic.action.Yields m.cpu.options.decimalMode m.cpu.registers
      (m.step watch).machine.cpu.registers := by
  obtain ⟨perform, hperform, hstep⟩ := step_of_upcoming? hop watch
  have hyields := Action.yields_perform hperform (m.poised watch op).2
  rw [cpu_poised] at hyields
  rw [hstep]
  exact hyields

end Machine

namespace Emulator

variable [CellBus M]

/-- The frame law of a step. Whatever an emulator on a bus of cells is about to do, its step changes
memory at most at the address of the operand of an instruction that stores or modifies, or at the cells
below the stack pointer that it pushes to; each flag and each register at most in the instructions that
are there to change it, and in the service of an interrupt; and the options, the queued stall cycles and
the vectors never. A step that fails changes none of all this. -/
theorem step_leaves_the_rest_alone (s : Emulator M) : s.machine.Spares s.step.2.machine where
  memory _ hchanged := Machine.mem_footprint_of_changed hchanged
  service interrupt hdue := by
    have hsp : s.machine.cpu.registers.sp - 1 - 1 - 1 = s.machine.cpu.registers.sp - 3 := by grind
    rw [machine_step, Machine.step_of_due? hdue, ← hsp]
    rfl
  execution op hop := Mnemonic.spares_of_yields (Machine.yields_step_of_upcoming? hop s.watched)
  softwareBreak := by
    rintro ⟨op, hop, hbrk⟩
    have hyields := Machine.yields_step_of_upcoming? hop s.watched
    rw [hbrk] at hyields
    exact congrArg (·.flags.i) hyields
  stop hdue hop := by
    rw [machine_step, Machine.step_of_illegal hdue ((Machine.upcoming?_of_due? hdue).symm.trans hop)]
    rfl
  options := Machine.options_step s.watched s.machine
  stall := Machine.stall_step s.watched s.machine
  vectors := Machine.vectors_step s.watched s.machine

end Emulator

end Mos6502
