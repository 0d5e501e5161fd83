import Mos6502.Proofs.Recording

/-!
Watching a program does not disturb it. The answers that a host gets, and the machine that it is left
with, do not depend on whether steps are traced, nor on what the journal lets through, how many
messages it admits and where it writes them (`Emulator.session_untraced`). What does depend on them,
besides the journal itself, are the reads for traces, and no other accesses: the records of two
observers `DifferInTraces`, which says where the reads for a trace may stand and which they are.
-/

set_option autoImplicit false

namespace Mos6502

variable {M : Type} [QuietBus M]

/-- Switches tracing on or off. -/
def Machine.traced (trace : Bool) (m : Machine M) : Machine M :=
  m.setOptions { m.cpu.options with trace }

theorem Machine.disguised_untraced (m : Machine M) : m.disguised .untraced = m.traced false := by
  simp [disguised, Disguise.untraced, traced, setOptions]

/-- Two records of accesses that are the same, except that the trace of a round may be heard in one of
them and not in the other. Both records have the reads for the opcode and the operand in front of it,
so that a trace always follows the instruction that it reads again. -/
inductive DifferInTraces (M : Type) [QuietBus M] : List Access → List Access → Prop where
  | nil : DifferInTraces M [] []
  | shared {left right : List Access} (earlier : DifferInTraces M left right)
      (accesses : List Access) : DifferInTraces M (left ++ accesses) (right ++ accesses)
  | round {left right : List Access} (earlier : DifferInTraces M left right) (round : Round M)
      (heard heard' : Bool) :
      DifferInTraces M (left ++ round.accesses heard) (right ++ round.accesses heard')

/-- Machines that look alike to who cannot see their recorders make the same accesses when they do
what has nothing to do with traces. -/
theorem DifferInTraces.of_commutes {f : Machine (Recorder M) → Machine (Recorder M)}
    (hf : ∀ earlier trace x,
      f (x.disguised (.after earlier trace)) = (f x).disguised (.after earlier trace))
    {r r' : Machine (Recorder M)} {m : Machine M} (hrecords : r.Records m)
    (hrecords' : r'.Records m) (h : DifferInTraces M r.accesses r'.accesses) :
    DifferInTraces M (f r).accesses (f r').accesses := by
  rw [Machine.accesses_of_commutes hf hrecords, Machine.accesses_of_commutes hf hrecords']
  exact h.shared _

namespace Emulator

/-- Emulators that are the same behind their recorders, up to tracing, and whose records differ in
traces alone. -/
structure Overheard (s t : Emulator (Recorder M)) : Prop where
  alike : Alike .unheard .unheard s t
  accesses : DifferInTraces M s.machine.accesses t.machine.accesses

/-- Both sides record the same machine. -/
theorem Overheard.records {s t : Emulator (Recorder M)} (h : Overheard s t) :
    ∃ m : Machine M, s.machine.Records m ∧ t.machine.Records m := by
  have halike : t.machine.disguised .unheard = s.machine.disguised .unheard := h.alike.symm
  refine ⟨s.machine.disguised .unheard, s.machine.records_disguised, ?_⟩
  rw [← halike]
  exact t.machine.records_disguised

theorem lockstep_overheard : Lockstep (Overheard (M := M)) where
  step := by
    intro s t h
    obtain ⟨hresult, hnext⟩ := (lockstep_alike .unheard .unheard).step h.alike
    refine ⟨hresult, hnext, ?_⟩
    obtain ⟨m, hs, ht⟩ := h.records
    rw [machine_step, machine_step]
    cases hop : m.upcoming? with
    | some op =>
      obtain ⟨round, -, -, -, hround⟩ := Machine.accesses_step_of_upcoming? hop
      rw [hround hs, hround ht]
      exact h.accesses.round round _ _
    | none =>
      obtain ⟨noted, hnoted⟩ := Machine.accesses_step_of_not_upcoming hop
      rw [hnoted hs, hnoted ht]
      exact h.accesses.shared noted
  stall h := (lockstep_alike .unheard .unheard).stall h.alike
  burn h cycles := ⟨(lockstep_alike .unheard .unheard).burn h.alike cycles, h.accesses⟩

/-- What a host does is answered the same and noted the same, but for traces. -/
theorem respects_overheard (command : Command M) :
    Respects (Overheard (M := M)) command.recorded command.recorded := by
  intro s t h
  have hagree : Agree (M := Recorder M) (N := Recorder M) (K := M) .unheard .unheard id id
      command.recorded := by
    cases command with
    | changeMemory change => exact ⟨change, fun _ ↦ rfl, fun _ ↦ rfl⟩
    | setOptions | withMemory | restore | load => rfl
    | _ => trivial
  have hrespects := respects_alike hagree h.alike
  rw [Command.translate_id] at hrespects
  refine ⟨hrespects.1, hrespects.2, ?_⟩
  obtain ⟨m, hs, ht⟩ := h.records
  have hrestore (state : State) : DifferInTraces M (s.machine.restore state).accesses
      (t.machine.restore state).accesses := by
    refine h.accesses.of_commutes (f := Machine.restore state) (fun earlier trace x ↦ ?_) hs ht
    rw [← Machine.restore_disguised]
    exact congrArg (fun cycles ↦ (x.disguised (.after earlier trace)).restore { state with cycles })
      (UInt64.add_zero state.cycles).symm
  cases command with
  | step => exact (lockstep_overheard.step h).2.accesses
  | reset =>
    exact h.accesses.of_commutes (fun _ _ x ↦ Machine.reset_disguised _ x) hs ht
  | refreshVectors =>
    exact h.accesses.of_commutes (fun _ _ x ↦ Machine.refreshVectors_disguised _ x) hs ht
  | withMemory mem => exact .nil
  | restore state => exact hrestore state
  | load saved =>
    cases hload : State.load saved with
    | ok state =>
      simp only [Command.recorded, Command.translate, obey, load, hload]
      exact hrestore state
    | error fault =>
      simp only [Command.recorded, Command.translate, obey, load, hload]
      exact h.accesses
  | _ => exact h.accesses

/-- Along every session the records of two observers differ in traces alone. -/
theorem session_overheard (turns : List (Turn M)) {s t : Emulator (Recorder M)}
    (h : Overheard s t) :
    Overheard (s.session (turns.map Turn.recorded)).2
      (t.session (turns.map Turn.recorded)).2 := by
  refine (lockstep_overheard.session (fun command hcommand ↦ ?_) h).2
  obtain ⟨turn, -, hturn⟩ := List.mem_map.mp hcommand
  cases turn with
  | command called =>
    cases hturn
    exact respects_overheard called
  | run | runSteps => cases hturn

/-- Along every session emulators that differ in tracing and in their journals are answered the
same, and nothing else comes to differ. -/
theorem session_untraced (turns : List (Turn M)) {s t : Emulator M}
    (halike : Alike .untraced .untraced s t) :
    (s.session turns).1 = (t.session turns).1 ∧
      Alike .untraced .untraced (s.session turns).2 (t.session turns).2 := by
  have hagree : ∀ command, Turn.command command ∈ turns →
      Agree (M := M) .untraced .untraced id id command := fun _ _ ↦
    agree_of_translated rfl (fun _ ↦ rfl) (fun change ↦ ⟨change, fun _ ↦ rfl, fun _ ↦ rfl⟩)
      (Or.inl rfl)
  exact session_alike_untranslated hagree halike

/-- Observation does not disturb execution. Take a machine on a bus whose reads change nothing, and
let two observers watch it: each traces its steps or does not, and has a journal with its own levels,
limit, counts and destination. Along every session, and so after every turn of one, both get the same
answers and the same machine, memory included, apart from the tracing itself. Their accesses differ in
the reads for traces alone. Those of a step that executes an instruction are a round of it, in which
the trace is read if its observer hears it: every byte of the instruction, from the program counter
on. All other steps make the same accesses for both. -/
theorem observation_does_not_disturb (m : Machine M) (trace trace' : Bool)
    (journal journal' : Journal) :
    let s : Emulator M := ⟨m.traced trace, journal⟩
    let t : Emulator M := ⟨m.traced trace', journal'⟩
    (∀ turns : List (Turn M),
      (s.session turns).1 = (t.session turns).1 ∧
        (s.session turns).2.machine.traced false = (t.session turns).2.machine.traced false ∧
        DifferInTraces M (s.accesses turns) (t.accesses turns)) ∧
      match m.upcoming? with
      | some op => ∃ round : Round M,
          round.mem = m.mem ∧ round.pc = m.cpu.pc ∧ round.opcode = op ∧
            s.accesses [.command .step] = round.accesses s.watched ∧
            t.accesses [.command .step] = round.accesses t.watched
      | none => s.accesses [.command .step] = t.accesses [.command .step] := by
  intro s t
  have halike : Alike .untraced .untraced s t := by
    rw [Alike, Machine.disguised_untraced, Machine.disguised_untraced]
    rfl
  have hs : s.recorded.machine.Records m := rfl
  have ht : t.recorded.machine.Records m := rfl
  refine ⟨fun turns ↦ ?_, ?_⟩
  · obtain ⟨hresponses, hmachine⟩ := session_untraced turns halike
    rw [Alike, Machine.disguised_untraced, Machine.disguised_untraced] at hmachine
    exact ⟨hresponses, hmachine, (session_overheard turns ⟨hs.trans ht.symm, .nil⟩).accesses⟩
  · cases hop : m.upcoming? with
    | some op =>
      obtain ⟨round, hmem, hpc, hopcode, hround⟩ := Machine.accesses_step_of_upcoming? hop
      have hstep (u : Emulator M) (hu : u.recorded.machine.Records m) :
          u.accesses [.command .step] = round.accesses u.watched := by
        have hheard : (u.machine.cpu.options.trace && u.watched) = u.watched :=
          Bool.and_self_left _ _
        exact (hround hu u.watched).trans (congrArg round.accesses hheard)
      exact ⟨round, hmem, hpc, hopcode, hstep s hs, hstep t ht⟩
    | none =>
      obtain ⟨noted, hnoted⟩ := Machine.accesses_step_of_not_upcoming hop
      exact (hnoted hs s.watched).trans (hnoted ht t.watched).symm

/-- The byte of a break is read once more for an observer who hears the trace. -/
example :
    let m : Machine Ram := ⟨⟨.powerOn, .both 0, {}⟩, .blank⟩
    let loud : Journal := { levels := { general := .trace } }
    let pushes : List Access := [.write 0x01FD 0x00, .write 0x01FC 0x02, .write 0x01FB 0x34]
    accesses [.command .step] ⟨m.traced true, loud⟩ = .read 0 0 :: .read 0 0 :: pushes ∧
      accesses [.command .step] ⟨m.traced true, {}⟩ = .read 0 0 :: pushes := by
  decide

end Emulator

end Mos6502
