import Mos6502.Proofs.Disguise
import Mos6502.Proofs.Host
import Mos6502.Proofs.Lines
import Mos6502.Proofs.Messages

/-!
What is written while a machine runs. Every step has something to report, or nothing: `Machine.news`
reads it off the machine before the step, its memory, and where the step leads, and says of each
piece of news what it is about and how important it is. That is all that steps report
(`Machine.events_step`), and as long as the rate limit stays out of the way, the lines that a run
writes are those of its news that the levels let through (`Emulator.lines_are_machine_events`).

Whether the trace of an instruction has been read depends on whether its line will be written. So
the events of a step can differ from its news, but only in bytes that nobody gets to see.
-/

set_option autoImplicit false

namespace Mos6502

/-- Something that a machine has to report: what it is about, how important it is, and what has
happened. -/
structure Notice where
  category : Category
  level : Level
  event : Event

namespace Notice

/-- The line that is written for a notice. -/
def line (notice : Notice) : String :=
  notice.event.message

/-- Whether levels let a notice through: its level has to be at or below the own level of its
category, or below the general one if the category's own is `off`. -/
def passes (levels : Levels) (notice : Notice) : Bool :=
  let own := levels.own.get notice.category
  notice.level.rank ≤ (if own = .off then levels.general else own).rank

end Notice

/-- The news of an instruction that goes from `pc` to `next`, apart from its trace: a jump that goes
nowhere, a break, or a return from a handler. -/
def Mnemonic.news (mnemonic : Mnemonic) (pc next : UInt16) : List Notice :=
  match mnemonic with
  | .jmp => if next = pc then [⟨.cpu, .debug, .jumpToSelf pc⟩] else []
  | .brk => [⟨.interrupts, .trace, .softwareBreak pc next⟩]
  | .rti => [⟨.interrupts, .trace, .returnFromInterrupt next⟩]
  | _ => []

namespace Machine

variable {M : Type} [QuietBus M]

/-- The bytes of the instruction at the program counter, as they stand in memory. -/
def codeBytes (op : Opcode) (m : Machine M) : List UInt8 :=
  (List.range op.size).map fun i ↦ QuietBus.peek m.mem (m.cpu.pc + UInt16.ofNat i)

/-- The trace of the instruction at the program counter: its bytes, and the processor before it. -/
def traceLine (op : Opcode) (m : Machine M) : TraceLine where
  opcode := op
  bytes := m.codeBytes op
  pc := m.cpu.pc
  registers := m.cpu.registers
  cycles := m.cpu.cycles

/-- The news of the next step: an interrupt that is serviced, or else a byte that is no opcode, or
else the trace of an instruction, if tracing is on, and the news of the instruction itself. -/
def news (m : Machine M) : List Notice :=
  let pc := m.cpu.pc
  let next := (m.step false).machine.cpu.pc
  let byte := QuietBus.peek m.mem pc
  match m.cpu.due? with
  | some interrupt => [⟨.interrupts, .debug, .interrupt interrupt pc next⟩]
  | none =>
    match Opcode.decodeUnder m.cpu.options byte with
    | none => [⟨.decode, .error, .illegalOpcode byte pc⟩]
    | some op =>
      (if m.cpu.options.trace then [⟨.cpu, .trace, .instruction (m.traceLine op)⟩] else []) ++
        op.mnemonic.news pc next

end Machine

/-- What keeps a machine running: it steps, or it starts again. -/
inductive Beat where
  | step
  | reset

/-- A beat as a turn of a host. -/
def Beat.turn {M : Type} : Beat → Turn M
  | .step => .command .step
  | .reset => .command .reset

/-- The news of a run, in order. A reset is news in itself. -/
def Machine.newsOf {M : Type} [QuietBus M] : List Beat → Machine M → List Notice
  | [], _ => []
  | .step :: rest, m => m.news ++ newsOf rest (m.step false).machine
  | .reset :: rest, m => ⟨.cpu, .info, .reset m.reset.cpu.pc⟩ :: newsOf rest m.reset

/-! ### The events of a step -/

/-- What an event says about itself, as a notice. -/
def Event.notice (event : Event) : Notice :=
  ⟨event.category, event.level, event⟩

namespace Action

variable {M : Type} [Bus M]

/-- What an action reports that goes from `pc` to `next`. -/
def report (action : Action) (pc next : UInt16) : List Event :=
  match action with
  | .jump => if next = pc then [.jumpToSelf pc] else []
  | .softwareBreak => [.softwareBreak pc next]
  | .endInterrupt => [.returnFromInterrupt next]
  | _ => []

/-- What an action reports is a matter of where it comes from and where it goes. -/
theorem events_of_perform? {action : Action} {operand : Operand} {next : UInt16}
    {perform : Machine M → Performed M} (hperform : action.perform? operand next = some perform)
    (m : Machine M) :
    (perform m).events = action.report m.cpu.pc (perform m).machine.cpu.pc := by
  cases action with
  | inherent | endCall | softwareBreak | endInterrupt | push | pull =>
    cases hperform
    rfl
  | consume | store | changeThenConsume | call =>
    obtain ⟨source, -, rfl⟩ := Option.map_eq_some_iff.mp hperform
    rfl
  | change cell =>
    rw [perform?] at hperform
    split at hperform
    · cases hperform
      rfl
    · obtain ⟨address, -, rfl⟩ := Option.map_eq_some_iff.mp hperform
      rfl
  | touch =>
    rw [perform?] at hperform
    split at hperform
    · cases hperform
      rfl
    · cases hperform
      rfl
  | branch condition =>
    obtain ⟨target, -, rfl⟩ := Option.map_eq_some_iff.mp hperform
    unfold Machine.branch
    split
    · rfl
    · rfl
  | jump =>
    obtain ⟨target, -, rfl⟩ := Option.map_eq_some_iff.mp hperform
    show (if target = m.cpu.pc then [Event.jumpToSelf target] else []) =
      if target = m.cpu.pc then [Event.jumpToSelf m.cpu.pc] else []
    by_cases hself : target = m.cpu.pc
    · rw [hself]
    · rw [if_neg hself, if_neg hself]

/-- An action reports the news of the mnemonic that it belongs to. -/
theorem notices_report (mnemonic : Mnemonic) (pc next : UInt16) :
    (mnemonic.action.report pc next).map Event.notice = mnemonic.news pc next := by
  cases mnemonic with
  | jmp =>
    by_cases hself : next = pc
    · simp [Mnemonic.action, report, Mnemonic.news, hself, Event.notice, Event.category,
        Event.level]
    · simp [Mnemonic.action, report, Mnemonic.news, hself]
  | _ => rfl

end Action

namespace Bus

theorem fst_readBytes_quiet {M : Type} [QuietBus M] (mem : M) (address : UInt16) (count : Nat) :
    (readBytes mem address count).1 =
      (List.range count).map fun i ↦ QuietBus.peek mem (address + UInt16.ofNat i) := by
  induction count generalizing address with
  | zero => rfl
  | succ count ih =>
    have hnext (i : Nat) : address + 1 + UInt16.ofNat i = address + UInt16.ofNat (i + 1) := by
      rw [UInt16.add_assoc, UInt16.add_comm 1]
      simp
    simp only [readBytes, QuietBus.read_eq, ih, hnext, List.range_succ_eq_map, List.map_cons,
      List.map_map, Function.comp_def]
    simp

end Bus

namespace Machine

variable {M : Type} [QuietBus M]

theorem fst_traceInstruction (watch : Bool) (op : Opcode) (m : Machine M) :
    (m.traceInstruction watch op).1 =
      if m.cpu.options.trace then
        [.instruction { m.traceLine op with bytes := if watch then m.codeBytes op else [] }]
      else [] := by
  unfold traceInstruction
  split
  · have hbytes : (Bus.readBytes m.mem m.cpu.pc (if watch then op.size else 0)).1 =
        if watch then m.codeBytes op else [] := by
      rw [Bus.fst_readBytes_quiet]
      cases watch <;> rfl
    show [Event.instruction { m.traceLine op with
      bytes := (Bus.readBytes m.mem m.cpu.pc (if watch then op.size else 0)).1 }] = _
    rw [hbytes]
  · rfl

/-- The events of a step that executes an instruction: its trace, and what its action reports. -/
theorem events_of_upcoming? {m : Machine M} {op : Opcode} (hop : m.upcoming? = some op)
    (watch : Bool) :
    (m.step watch).events = (m.traceInstruction watch op).1 ++
      op.mnemonic.action.report m.cpu.pc (m.step watch).machine.cpu.pc := by
  obtain ⟨perform, hperform, hstep⟩ := step_of_upcoming? hop watch
  have hevents := Action.events_of_perform? hperform m
  rw [hstep]
  simp only [executed, poised_eq, decoded_quiet, snd_traceInstruction_quiet, hevents]
  rfl

/-- Where a step leads does not depend on who watches. -/
theorem machine_step_watched (watch : Bool) (m : Machine M) :
    (m.step watch).machine = (m.step false).machine := by
  have hsame := (m.step_disguised .self false watch).2
  rwa [disguised_self, disguised_self] at hsame

/-- What steps report is their news, if the traces are read. -/
theorem events_step (m : Machine M) : (m.step true).events.map Event.notice = m.news := by
  rcases hdue : m.cpu.due? with _ | interrupt
  · rcases hbyte : Opcode.decodeUnder m.cpu.options m.opcodeByte with _ | op
    · have hstep := step_of_illegal hdue hbyte true
      rw [opcodeByte_quiet] at hbyte
      simp only [news, hdue, hbyte, hstep, stopped, opcodeByte_quiet]
      rfl
    · have hop : m.upcoming? = some op := (upcoming?_of_due? hdue).trans hbyte
      rw [opcodeByte_quiet] at hbyte
      rw [events_of_upcoming? hop, fst_traceInstruction, machine_step_watched, List.map_append,
        Action.notices_report]
      simp only [news, hdue, hbyte]
      cases m.cpu.options.trace <;> rfl
  · rw [step_of_due? hdue]
    simp only [news, hdue, step_of_due? hdue]
    rfl

/-- Whether the trace is read makes no other difference to what a step reports. -/
theorem events_step_watched (watch : Bool) (m : Machine M) :
    (m.step watch).events = (m.step true).events ∨
      m.cpu.options.trace = true ∧ ∃ line line' rest,
        (m.step watch).events = .instruction line :: rest ∧
          (m.step true).events = .instruction line' :: rest := by
  rcases m.step_cases watch with
    ⟨interrupt, hdue, hstep⟩ | ⟨hdue, hillegal, hstep⟩ | ⟨op, -, hop, -, -⟩
  · exact Or.inl (by rw [hstep, step_of_due? hdue])
  · exact Or.inl (by rw [hstep, step_of_illegal hdue hillegal])
  · rw [events_of_upcoming? hop, events_of_upcoming? hop, machine_step_watched,
      machine_step_watched true, fst_traceInstruction, fst_traceInstruction]
    by_cases htrace : m.cpu.options.trace = true
    · simp only [if_pos htrace]
      exact Or.inr ⟨htrace, _, _, _, rfl, rfl⟩
    · exact Or.inl (by rw [if_neg htrace, if_neg htrace])

end Machine

/-! ### The lines of a run -/

/-- The limiter after a message that is admitted while no drops are waiting to be reported. -/
def Limiter.letThrough (category : Category) (limiter : Limiter) : Limiter :=
  let tally := limiter.tallies.get category
  let admitted := tally.admitted + 1
  { limiter with tallies := limiter.tallies.set category { tally with admitted } }

namespace Journal

/-- One journal became another by writing lines. Otherwise only the counts of the limiter may have
changed. -/
def Wrote (lines : List String) (j k : Journal) : Prop :=
  k = { j.writeLines lines with limiter := k.limiter }

theorem Wrote.nothing (j : Journal) : Wrote [] j j :=
  rfl

theorem Wrote.trans {lines more : List String} {j k l : Journal} (hfirst : Wrote lines j k)
    (hrest : Wrote more k l) : Wrote (lines ++ more) j l := by
  unfold Wrote at hfirst hrest ⊢
  rw [hrest, hfirst, writeLines_limiter]
  simp only [writeLines, List.foldl_append]

theorem Wrote.levels {lines : List String} {j k : Journal} (hwrote : Wrote lines j k) :
    k.levels = j.levels := by
  rw [hwrote, writeLines_eq_put]
  exact levels_put ..

/-- The messages of notices stay within the limit: no drops are waiting to be reported, and there is
room for all the notices of every category that the levels let through. -/
def HasRoomFor (notices : List Notice) (j : Journal) : Prop :=
  ∀ category,
    let tally := j.limiter.tallies.get category
    tally.dropped = 0 ∧
      tally.admitted + notices.countP (fun notice ↦
        notice.category = category && notice.passes j.levels) ≤ j.limiter.limit

/-- The lines of the notices that the levels let through. -/
def linesOf (notices : List Notice) (j : Journal) : List String :=
  (notices.filter (·.passes j.levels)).map Notice.line

/-- The levels let an event through if they let its notice through. -/
theorem allow_eq_passes (levels : Levels) (event : Event) :
    levels.allow event.category event.level = event.notice.passes levels := by
  have hlevel : event.level ≠ .off := by cases event <;> exact Level.noConfusion
  have hlimit : levels.effective event.category =
      if levels.own.get event.category = .off then levels.general
      else levels.own.get event.category := by
    unfold Levels.effective
    split
    · rename_i hown
      rw [if_pos hown]
    · rename_i hown
      rw [if_neg hown]
  have himportant : (event.level != .off) = true := bne_iff_ne.mpr hlevel
  unfold Levels.allow Level.allowedBy Notice.passes
  rw [himportant, hlimit, Bool.true_and]
  rfl

/-- An event that the levels do not let through changes nothing. -/
theorem record_of_not_passes {event : Event} {j : Journal}
    (hpasses : event.notice.passes j.levels = false) : j.record event = j := by
  have hallow : j.levels.allow event.category event.level = false :=
    (allow_eq_passes j.levels event).trans hpasses
  exact log_of_not_allow event.category event.level (fun _ ↦ event.message) j hallow

theorem linesOf_singleton (notice : Notice) (j : Journal) :
    j.linesOf [notice] = if notice.passes j.levels then [notice.line] else [] := by
  by_cases hpasses : notice.passes j.levels = true
  · simp [linesOf, hpasses]
  · simp [linesOf, hpasses]

/-- How many notices of a category the levels let through, one at a time. -/
theorem countP_passes_cons (category : Category) (notice : Notice) (rest : List Notice)
    (j : Journal) :
    (notice :: rest).countP (fun notice ↦
        notice.category = category && notice.passes j.levels) =
      rest.countP (fun notice ↦ notice.category = category && notice.passes j.levels) +
        if notice.category = category ∧ notice.passes j.levels = true then 1 else 0 := by
  simp [List.countP_cons]

/-- Room for a notice that the levels let through is room for a message. -/
theorem HasRoomFor.offer_eq {notice : Notice} {rest : List Notice} {j : Journal}
    (hroom : j.HasRoomFor (notice :: rest)) (hpasses : notice.passes j.levels = true) :
    j.limiter.offer notice.category = (⟨true, none⟩, j.limiter.letThrough notice.category) := by
  obtain ⟨hdropped, hcount⟩ := hroom notice.category
  rw [countP_passes_cons, if_pos ⟨rfl, hpasses⟩] at hcount
  unfold Limiter.offer Tally.offer
  rw [if_pos (by omega), if_pos hdropped]
  rfl

/-- With room for it, an event is written if the levels let it through, and what there was room for
besides has room still. -/
theorem record_of_room {event : Event} {rest : List Notice} {j : Journal}
    (hroom : j.HasRoomFor (event.notice :: rest)) :
    Wrote (j.linesOf [event.notice]) j (j.record event) ∧ (j.record event).HasRoomFor rest := by
  rw [linesOf_singleton]
  by_cases hpasses : event.notice.passes j.levels = true
  · have hrecord : j.record event = { j.writeLines [event.notice.line] with
        limiter := j.limiter.letThrough event.category } := by
      have hallow := (allow_eq_passes j.levels event).trans hpasses
      have hoffer : j.limiter.offer event.category = _ := hroom.offer_eq hpasses
      unfold record
      rw [log_eq, ruling, limiterAfter, if_pos hallow, if_pos hallow, hoffer]
      rfl
    have hwrote : Wrote [event.notice.line] j (j.record event) := by
      rw [hrecord]
      rfl
    rw [if_pos hpasses]
    refine ⟨hwrote, fun category ↦ ?_⟩
    obtain ⟨hdropped, hcount⟩ := hroom category
    rw [countP_passes_cons] at hcount
    rw [hwrote.levels, hrecord]
    by_cases hcategory : event.category = category
    · subst hcategory
      rw [if_pos ⟨rfl, hpasses⟩] at hcount
      simp only [Limiter.letThrough, PerCategory.get_set, if_true]
      exact ⟨hdropped, by omega⟩
    · simp only [Limiter.letThrough, PerCategory.get_set, if_neg (Ne.symm hcategory)]
      exact ⟨hdropped, by omega⟩
  · rw [if_neg hpasses, record_of_not_passes (Bool.eq_false_iff.mpr hpasses)]
    refine ⟨.nothing j, fun category ↦ ?_⟩
    obtain ⟨hdropped, hcount⟩ := hroom category
    rw [countP_passes_cons] at hcount
    exact ⟨hdropped, by omega⟩

theorem linesOf_append (notices more : List Notice) (j : Journal) :
    j.linesOf (notices ++ more) = j.linesOf notices ++ j.linesOf more := by
  simp [linesOf]

theorem Wrote.linesOf {lines : List String} {j k : Journal} (hwrote : Wrote lines j k)
    (notices : List Notice) : k.linesOf notices = j.linesOf notices := by
  unfold Journal.linesOf
  rw [hwrote.levels]

/-- With room for them, events are written if the levels let them through, in order. -/
theorem recordAll_of_room {events : List Event} {rest : List Notice} {j : Journal}
    (hroom : j.HasRoomFor (events.map Event.notice ++ rest)) :
    Wrote (j.linesOf (events.map Event.notice)) j (j.recordAll events) ∧
      (j.recordAll events).HasRoomFor rest := by
  induction events generalizing j with
  | nil => exact ⟨.nothing j, hroom⟩
  | cons event later ih =>
    obtain ⟨hwrote, hroomLater⟩ := record_of_room hroom
    obtain ⟨hwroteLater, hroomRest⟩ := ih hroomLater
    rw [hwrote.linesOf] at hwroteLater
    refine ⟨?_, hroomRest⟩
    rw [List.map_cons, ← List.singleton_append, linesOf_append]
    exact hwrote.trans hwroteLater

end Journal

namespace Emulator

variable {M : Type} [QuietBus M]

/-- With room for its news, a step has them taken as if its trace had been read. If the trace has
not been read, its line is not written, whatever it says. -/
theorem journal_step_of_room {s : Emulator M} {rest : List Notice}
    (hroom : s.journal.HasRoomFor (s.machine.news ++ rest)) :
    s.step.2.journal = s.journal.recordAll (s.machine.step true).events := by
  show s.journal.recordAll (s.machine.step s.watched).events = _
  rcases s.machine.events_step_watched s.watched with
    hsame | ⟨htrace, unread, read, events, hunread, hread⟩
  · rw [hsame]
  · by_cases hpasses : (Event.instruction read).notice.passes s.journal.levels = true
    · rw [← Machine.events_step, hread] at hroom
      have hoffer : s.journal.limiter.offer .cpu = _ := hroom.offer_eq hpasses
      have hallow : s.journal.levels.allow .cpu .trace = true :=
        (Journal.allow_eq_passes s.journal.levels (.instruction read)).trans hpasses
      have hwatched : s.watched = true := by
        simp [watched, Journal.wouldWrite, htrace, hallow, hoffer]
      rw [hwatched]
    · have hskipped (line : TraceLine) :
          s.journal.recordAll (.instruction line :: events) = s.journal.recordAll events :=
        congrArg (Journal.recordAll events)
          (Journal.record_of_not_passes (Bool.eq_false_iff.mpr hpasses))
      rw [hunread, hread, hskipped, hskipped]

/-- With room for its news, a run writes those that the levels let through, in order. -/
theorem wrote_session {beats : List Beat} {s : Emulator M}
    (hroom : s.journal.HasRoomFor (s.machine.newsOf beats)) :
    Journal.Wrote (s.journal.linesOf (s.machine.newsOf beats)) s.journal
      (s.session (beats.map Beat.turn)).2.journal := by
  induction beats generalizing s with
  | nil => exact .nothing s.journal
  | cons beat rest ih =>
    rcases beat with _ | _
    · have hmachine : s.step.2.machine = (s.machine.step false).machine :=
        s.machine.machine_step_watched s.watched
      have hrecorded := journal_step_of_room hroom
      rw [Machine.newsOf, ← Machine.events_step, ← hmachine] at hroom ⊢
      obtain ⟨hwrote, hroomRest⟩ := Journal.recordAll_of_room hroom
      rw [← hrecorded] at hwrote hroomRest
      have hwroteRest := ih hroomRest
      rw [hwrote.linesOf] at hwroteRest
      rw [Journal.linesOf_append]
      exact hwrote.trans hwroteRest
    · have hroomReset : s.journal.HasRoomFor
          (Event.notice (.reset s.machine.reset.cpu.pc) :: s.machine.reset.newsOf rest) := hroom
      obtain ⟨hwrote, hroomRest⟩ := Journal.record_of_room hroomReset
      have hlines : s.reset.journal.linesOf (s.machine.reset.newsOf rest) =
          s.journal.linesOf (s.machine.reset.newsOf rest) := hwrote.linesOf _
      have hwroteRest := ih (s := s.reset) hroomRest
      rw [Machine.newsOf, ← List.singleton_append, Journal.linesOf_append, ← hlines]
      exact hwrote.trans hwroteRest

/-- What is written are the machine's own events, as far as the levels let them through. Let a
machine step and be reset, in any order, on a bus whose reads change nothing, and let the limit
leave room for what is to be written. Then the journal differs from the one before, apart from the
limiter's counts, by the lines of the news of that run, in order, without those whose level is above
the own level of their category or, if that is `off`, above the general level; and every line says
what its piece of news is, in numerals and words that can be read off it. -/
theorem lines_are_machine_events (beats : List Beat) (s : Emulator M)
    (hroom : s.journal.HasRoomFor (s.machine.newsOf beats)) :
    let news := (s.machine.newsOf beats).filter (·.passes s.journal.levels)
    let lines := news.map Notice.line
    let journal := (s.session (beats.map Beat.turn)).2.journal
    (∀ notice ∈ news, notice.event.Says notice.line) ∧
      journal = { s.journal.put (textOf lines) with limiter := journal.limiter } ∧
      (s.journal.destination = .console →
        journal.console = s.journal.console ++ textOf lines) := by
  intro news lines journal
  have hwrote : journal = { s.journal.put (textOf lines) with limiter := journal.limiter } := by
    rw [← Journal.writeLines_eq_put]
    exact wrote_session hroom
  refine ⟨fun notice _ ↦ notice.event.says_message, hwrote, fun hconsole ↦ ?_⟩
  rw [hwrote]
  simp only [Journal.put, hconsole]

/-- An interrupt arrives in an endless loop, and its handler returns. The general level lets the
service through and not the return; the processor has a level of its own, which lets traces through,
and the limit is just enough for them. -/
theorem lines_are_machine_events_of_interrupted_loop :
    let ram := (Ram.blank.load 0x0000 [0x4C, 0x00, 0x00]).set 0x0010 0x40
    let registers : Registers := { Registers.powerOn with flags := { c := true } }
    let state : State := { State.powerOn with registers, pending := ⟨false, true⟩ }
    let journal : Journal :=
      { levels := ⟨.debug, ⟨.trace, .off, .off⟩⟩, limiter := { limit := 3 }, console := "before\n" }
    let s : Emulator Ram := ⟨⟨⟨state, ⟨0, 0x0010⟩, { trace := true }⟩, ram⟩, journal⟩
    let beats : List Beat := [.step, .step, .step]
    let news := s.machine.newsOf beats
    let lines :=
      ["CPU: IRQ at PC=0000 -> 0010",
        "0010  40        RTI A:00 X:00 Y:00 P:05 SP:FA CYC:7",
        "0000  4C 00 00  JMP A:00 X:00 Y:00 P:21 SP:FD CYC:13",
        "CPU: JMP to self at 0000"]
    journal.HasRoomFor news ∧
      news.map (·.passes journal.levels) = [true, true, false, true, true] ∧
      (s.session (beats.map Beat.turn)).2.journal.console = "before\n" ++ textOf lines := by
  intro ram registers state journal s beats news lines
  have hroom : journal.HasRoomFor news := by
    intro category
    cases category <;> decide +kernel
  have hlines : (news.filter (·.passes journal.levels)).map Notice.line = lines := by
    decide +kernel
  refine ⟨hroom, by decide +kernel, ?_⟩
  rw [← hlines]
  exact (lines_are_machine_events beats s hroom).2.2 rfl

end Emulator

end Mos6502
