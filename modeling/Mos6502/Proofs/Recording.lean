import Mos6502.Recorder
import Mos6502.Proofs.Lookalikes

/-!
What a machine on a quiet bus reads and writes. A recorder can be put between the machine and its bus
without anybody noticing (`Emulator.session_recorded`), and what it has noted in the end are the
accesses of the session.

Only the reads for traces depend on who watches. A `Round` is one instruction as the bus sees it: its
opcode and operand are read, then, if the trace is heard, its bytes are read once more, and then come
the accesses of its action. A step that executes an instruction adds a round to the record
(`Machine.accesses_step_of_upcoming?`), and whatever else a machine does adds accesses that are the
same whether it is traced or not (`Machine.accesses_of_commutes`).
-/

set_option autoImplicit false

namespace Mos6502

variable {M : Type} [QuietBus M]

/-! ### Machines with a recorder -/

namespace Disguise

/-- The disguise that hides whether steps are traced. -/
def untraced : Disguise M M where
  bus := id
  trace _ := false
  read_bus _ _ := rfl
  write_bus _ _ _ := rfl

/-- The disguise that hides a recorder. -/
def unrecorded : Disguise (Recorder M) M where
  bus := Recorder.bus
  read_bus _ _ := rfl
  write_bus _ _ _ := rfl

/-- The disguise that hides a recorder and whether steps are traced. -/
def unheard : Disguise (Recorder M) M where
  bus := Recorder.bus
  trace _ := false
  read_bus _ _ := rfl
  write_bus _ _ _ := rfl

/-- The disguise that puts accesses from before in front of those that a recorder has noted, and
switches tracing on or off. -/
def after (earlier : Array Access) (trace : Bool) : Disguise (Recorder M) (Recorder M) where
  bus recorder := { recorder with accesses := earlier ++ recorder.accesses }
  trace _ := trace
  read_bus _ _ := by simp [Bus.read]
  write_bus _ _ _ := by simp [Bus.write]

end Disguise

namespace Machine

/-- A machine with a recorder that has noted nothing yet. -/
def recorded (m : Machine M) : Machine (Recorder M) :=
  m.withMemory { bus := m.mem }

/-- The accesses that the recorder of a machine has noted, in order. -/
def accesses (m : Machine (Recorder M)) : List Access :=
  m.mem.accesses.toList

/-- A machine has a recorder in front of the bus of another one, and is the same otherwise, whether
or not the two are traced. -/
def Records (r : Machine (Recorder M)) (m : Machine M) : Prop :=
  r.disguised .unheard = m.disguised .untraced

theorem records_recorded (m : Machine M) : m.recorded.Records m :=
  rfl

theorem records_disguised (r : Machine (Recorder M)) : r.Records (r.disguised .unheard) := by
  simp [Records, disguised, Disguise.unheard, Disguise.untraced]

variable {r : Machine (Recorder M)} {m : Machine M}

/-- A machine with a recorder is one that starts a record after what has been noted before. -/
theorem Records.eq_disguised (hrecords : r.Records m) :
    r = m.recorded.disguised (.after r.mem.accesses r.cpu.options.trace) := by
  let noted : Disguise (Recorder M) (Recorder M) := .after r.mem.accesses r.cpu.options.trace
  have hr : (r.disguised .unheard).recorded.disguised noted = r := by
    simp [disguised, recorded, withMemory, noted, Disguise.unheard, Disguise.after]
  calc r = (r.disguised .unheard).recorded.disguised noted := hr.symm
    _ = (m.disguised .untraced).recorded.disguised noted := by rw [hrecords]
    _ = m.recorded.disguised noted := by
      simp [disguised, recorded, withMemory, noted, Disguise.untraced, Disguise.after]

/-- What commutes with what was noted before, and with tracing, makes the same accesses whatever
those are. -/
theorem accesses_of_commutes {f : Machine (Recorder M) → Machine (Recorder M)}
    (hf : ∀ earlier trace x,
      f (x.disguised (.after earlier trace)) = (f x).disguised (.after earlier trace))
    (hrecords : r.Records m) :
    (f r).accesses = r.accesses ++ (f m.recorded).accesses := by
  conv => lhs; rw [hrecords.eq_disguised, hf]
  exact Array.toList_append

theorem Records.upcoming? (hrecords : r.Records m) : r.upcoming? = m.upcoming? := by
  rw [← upcoming?_disguised .unheard r, hrecords, upcoming?_disguised]

theorem Records.due? (hrecords : r.Records m) : r.cpu.due? = m.cpu.due? :=
  congrArg (·.cpu.due?) hrecords

theorem Records.resolved (hrecords : r.Records m) (op : Opcode) :
    r.resolved op = m.resolved op := by
  rw [← resolved_disguised .unheard r, hrecords, resolved_disguised]

theorem Records.following (hrecords : r.Records m) (op : Opcode) :
    r.following op = m.following op :=
  congrArg (·.cpu.pc + UInt16.ofNat op.size) hrecords

theorem Records.decoded (hrecords : r.Records m) (op : Opcode) : (r.decoded op).Records m := by
  rw [Records, ← decoded_disguised, decoded_quiet]
  exact hrecords

theorem Records.fetched (hrecords : r.Records m) : r.fetched.Records m := by
  rw [Records, ← fetched_disguised, fetched_quiet]
  exact hrecords

theorem Records.poised (hrecords : r.Records m) (watch : Bool) (op : Opcode) :
    (r.poised watch op).2.Records m :=
  (snd_poised_disguised .unheard r watch op).trans hrecords

end Machine

/-! ### What a step reads and writes -/

/-- One instruction as the bus sees it: where it lies, what is read for its operand, and what its
action reads and writes. -/
structure Round (M : Type) [QuietBus M] where
  mem : M
  pc : UInt16
  opcode : Opcode
  decodes : Opcode.decode (QuietBus.peek mem pc) = some opcode
  operand : List Access
  action : List Access

namespace Round

/-- The read of the opcode, and the reads for the operand. -/
def fetch (round : Round M) : List Access :=
  .read round.pc (QuietBus.peek round.mem round.pc) :: round.operand

/-- The reads for the trace: once every byte of the instruction, in order. -/
def trace (round : Round M) : List Access :=
  (List.range round.opcode.size).map fun i ↦
    .read (round.pc + UInt16.ofNat i) (QuietBus.peek round.mem (round.pc + UInt16.ofNat i))

/-- All accesses for the instruction; those for the trace are made if somebody hears it. -/
def accesses (round : Round M) (heard : Bool) : List Access :=
  round.fetch ++ (if heard then round.trace else []) ++ round.action

end Round

theorem Recorder.accesses_readBytes (address : UInt16) (count : Nat) (recorder : Recorder M) :
    (Bus.readBytes recorder address count).2.accesses.toList =
      recorder.accesses.toList ++ (List.range count).map fun i ↦
        .read (address + UInt16.ofNat i) (QuietBus.peek recorder.bus (address + UInt16.ofNat i)) := by
  induction count generalizing address recorder with
  | zero => simp [Bus.readBytes]
  | succ count ih =>
    have hnext (i : Nat) : address + 1 + UInt16.ofNat i = address + (UInt16.ofNat i + 1) := by
      rw [UInt16.add_assoc, UInt16.add_comm 1]
    simp only [Bus.readBytes, ih, List.range_succ_eq_map]
    simp [Bus.read, Function.comp_def, hnext]

namespace Machine

variable {r : Machine (Recorder M)} {m : Machine M}

/-- A trace reads the bytes of the instruction if tracing is on and somebody watches. -/
theorem accesses_traceInstruction (hrecords : r.Records m) (watch : Bool) (op : Opcode) :
    (r.traceInstruction watch op).2.accesses =
      r.accesses ++ if r.cpu.options.trace && watch then
        (List.range op.size).map fun i ↦ .read (m.cpu.pc + UInt16.ofNat i)
          (QuietBus.peek m.mem (m.cpu.pc + UInt16.ofNat i))
      else [] := by
  have hpc : r.cpu.pc = m.cpu.pc := congrArg (·.cpu.pc) hrecords
  have hmem : r.mem.bus = m.mem := congrArg (·.mem) hrecords
  rw [← hpc, ← hmem]
  unfold traceInstruction
  cases r.cpu.options.trace with
  | false => simp
  | true =>
    refine (Recorder.accesses_readBytes r.cpu.pc (if watch then op.size else 0) r.mem).trans ?_
    cases watch with
    | false => simp [accesses]
    | true => simp [accesses]

/-- Reading an instruction reads its opcode at the program counter and then its operand. -/
theorem accesses_decoded (op : Opcode) (m : Machine M) :
    ∃ operand : List Access, ∀ {r : Machine (Recorder M)}, r.Records m →
      (r.decoded op).accesses =
        r.accesses ++ .read m.cpu.pc (QuietBus.peek m.mem m.cpu.pc) :: operand := by
  let resolve (x : Machine (Recorder M)) : Machine (Recorder M) :=
    (x.onBus (Operand.resolve op.mode m.cpu.pc m.cpu.registers.x m.cpu.registers.y)).2
  have hresolve : ∀ earlier trace x, resolve (x.disguised (.after earlier trace)) =
      (resolve x).disguised (.after earlier trace) := fun earlier trace x ↦
    congrArg Prod.snd (onBus_disguised _ x ((Disguise.after earlier trace).resolve_bus ..))
  refine ⟨(resolve m.recorded).accesses, fun {r} hrecords ↦ ?_⟩
  have hdecoded : (r.decoded op).accesses = r.accesses ++ (m.recorded.decoded op).accesses :=
    accesses_of_commutes (fun _ _ x ↦ decoded_disguised _ x op) hrecords
  have hfetched : (m.recorded.decoded op).accesses =
      m.recorded.fetched.accesses ++ (resolve m.recorded).accesses :=
    accesses_of_commutes hresolve m.records_recorded.fetched
  have hopcode : m.recorded.fetched.accesses = [.read m.cpu.pc (QuietBus.peek m.mem m.cpu.pc)] := by
    simp [accesses, recorded, withMemory, fetched, Machine.read, onBus, Bus.read]
  rw [hdecoded, hfetched, hopcode]
  rfl

/-- A step that executes an instruction makes the accesses of a round, of which only the trace
depends on who watches. -/
theorem accesses_step_of_upcoming? {op : Opcode} (hop : m.upcoming? = some op) :
    ∃ round : Round M, round.mem = m.mem ∧ round.pc = m.cpu.pc ∧ round.opcode = op ∧
      ∀ {r : Machine (Recorder M)}, r.Records m → ∀ watch,
        (r.step watch).machine.accesses =
          r.accesses ++ round.accesses (r.cpu.options.trace && watch) := by
  obtain ⟨perform, hperform, -⟩ :=
    step_of_upcoming? (m.records_recorded.upcoming?.trans hop) false
  rw [m.records_recorded.resolved, m.records_recorded.following] at hperform
  obtain ⟨operand, hoperand⟩ := accesses_decoded op m
  have hdecodes : Opcode.decode (QuietBus.peek m.mem m.cpu.pc) = some op := by
    rw [← opcodeByte_quiet]
    exact decode_of_upcoming? hop
  let round : Round M :=
    { mem := m.mem
      pc := m.cpu.pc
      opcode := op
      decodes := hdecodes
      operand
      action := (perform m.recorded).machine.accesses }
  refine ⟨round, rfl, rfl, rfl, fun {r} hrecords watch ↦ ?_⟩
  obtain ⟨performed, hperformed, hstep⟩ := step_of_upcoming? (hrecords.upcoming?.trans hop) watch
  rw [hrecords.resolved, hrecords.following] at hperformed
  obtain rfl : perform = performed := Option.some.inj (hperform.symm.trans hperformed)
  have hready : (r.poised watch op).2.accesses =
      r.accesses ++ round.fetch ++ if r.cpu.options.trace && watch then round.trace else [] :=
    (accesses_traceInstruction (hrecords.decoded op) watch op).trans
      (congrArg (· ++ _) (hoperand hrecords))
  calc (r.step watch).machine.accesses
      = (perform (r.poised watch op).2).machine.accesses := by rw [hstep]; rfl
    _ = (r.poised watch op).2.accesses ++ round.action :=
      accesses_of_commutes (f := fun x ↦ (perform x).machine)
        (fun _ _ x ↦ congrArg Performed.machine (Action.perform_disguised _ hperform hperform x))
        (hrecords.poised watch op)
    _ = r.accesses ++ round.accesses (r.cpu.options.trace && watch) := by
      rw [hready]
      simp only [Round.accesses, List.append_assoc]

/-- A step that executes no instruction makes the same accesses whoever watches. -/
theorem accesses_step_of_not_upcoming (hop : m.upcoming? = none) :
    ∃ noted : List Access, ∀ {r : Machine (Recorder M)}, r.Records m → ∀ watch,
      (r.step watch).machine.accesses = r.accesses ++ noted := by
  cases hdue : m.cpu.due? with
  | some interrupt =>
    refine ⟨(m.recorded.service interrupt).machine.accesses, fun hrecords watch ↦ ?_⟩
    rw [step_of_due? (hrecords.due?.trans hdue)]
    exact accesses_of_commutes (f := fun x ↦ (x.service interrupt).machine)
      (fun _ _ x ↦ machine_service_disguised _ x interrupt) hrecords
  | none =>
    refine ⟨m.recorded.fetched.accesses, fun {r} hrecords watch ↦ ?_⟩
    have hdue' : r.cpu.due? = none := hrecords.due?.trans hdue
    have hbyte : Opcode.decodeUnder r.cpu.options r.opcodeByte = none :=
      (upcoming?_of_due? hdue').symm.trans (hrecords.upcoming?.trans hop)
    rw [step_of_illegal hdue' hbyte]
    exact accesses_of_commutes (fun _ _ x ↦ fetched_disguised _ x) hrecords

end Machine

/-! ### Sessions with a recorder -/

/-- The command for a machine with a recorder: what the host does to memory is not noted, and a new
memory comes with a new recorder. -/
def Command.recorded : Command M → Command (Recorder M) :=
  Command.translate ({ bus := · }) Recorder.mapBus

/-- The turn for a machine with a recorder. -/
def Turn.recorded : Turn M → Turn (Recorder M) :=
  Turn.map Command.recorded

namespace Emulator

/-- An emulator with a recorder that has noted nothing yet. -/
def recorded (s : Emulator M) : Emulator (Recorder M) :=
  s.mapMachine Machine.recorded

/-- What a session reads and writes, in order. The record begins anew when the processor is put on
another memory. -/
def accesses (turns : List (Turn M)) (s : Emulator M) : List Access :=
  (s.recorded.session (turns.map Turn.recorded)).2.machine.accesses

/-- A recorder disturbs nothing: the answers are the same with it, and behind it is the machine that
there is without it. -/
theorem session_recorded (turns : List (Turn M)) (s : Emulator M) :
    (s.recorded.session (turns.map Turn.recorded)).1 = (s.session turns).1 ∧
      (s.recorded.session (turns.map Turn.recorded)).2.machine.disguised .unrecorded =
        (s.session turns).2.machine := by
  have hagree : ∀ command, Turn.command command ∈ turns →
      Agree (M := M) .self .unrecorded ({ bus := · }) Recorder.mapBus command := fun _ _ ↦
    agree_of_translated rfl (fun _ ↦ rfl) (fun change ↦ ⟨change, fun _ ↦ rfl, fun _ ↦ rfl⟩)
      (Or.inl rfl)
  have halike : Alike .self .unrecorded s s.recorded := rfl
  obtain ⟨hresponses, hmachine⟩ := session_alike hagree halike
  exact ⟨hresponses.symm, hmachine.symm.trans (Machine.disguised_self _)⟩

end Emulator

end Mos6502
