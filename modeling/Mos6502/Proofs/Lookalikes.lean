import Mos6502.Proofs.Disguise
import Mos6502.Proofs.Host

/-!
Emulators that look alike: their machines are the same one, each in its disguise. They are in
`Lockstep`, since no step sees through a disguise. The commands of a host that look at what a disguise
changes, or that replace it, have to `Agree` with it; along a session of such commands emulators that
look alike are answered the same and go on looking alike (`Emulator.session_alike`).

What the two have in common may be less than either is. Both disguises can hide something, and what
is hidden then stays hidden, and can change on either side without the other noticing.
-/

set_option autoImplicit false

namespace Mos6502

variable {M N : Type} [Bus M] [Bus N]

namespace Emulator

variable {K : Type} [QuietBus K]

/-- Two emulators whose machines are the same one in two disguises. -/
def Alike (d : Disguise M K) (e : Disguise N K) (s : Emulator M) (t : Emulator N) : Prop :=
  s.machine.disguised d = t.machine.disguised e

variable {d : Disguise M K} {e : Disguise N K}

/-- Emulators that look alike run alike. -/
theorem lockstep_alike (d : Disguise M K) (e : Disguise N K) : Lockstep (Alike d e) where
  step := by
    intro s t halike
    obtain ⟨hresult, hmachine⟩ := s.machine.step_disguised d s.watched true
    obtain ⟨hresult', hmachine'⟩ := t.machine.step_disguised e t.watched true
    rw [halike] at hresult hmachine
    exact ⟨hresult.symm.trans hresult', hmachine.symm.trans hmachine'⟩
  stall halike := congrArg (·.cpu.stall) halike
  burn := by
    intro s t halike cycles
    have hburn := congrArg (Machine.mapState (.burnStall cycles)) halike
    rwa [Machine.burnStall_disguised, Machine.burnStall_disguised] at hburn

/-! ### Commands -/

/-- What a command has to have in common with its translation so that emulators that look alike do
so afterwards. -/
def Agree (d : Disguise M K) (e : Disguise N K) (memory : M → N) (changes : (M → M) → N → N) :
    Command M → Prop
  | .setOptions options => d.trace options.trace = e.trace options.trace
  | .changeMemory change => ∃ seen : K → K,
      (∀ mem, d.bus (change mem) = seen (d.bus mem)) ∧
        ∀ mem, e.bus (changes change mem) = seen (e.bus mem)
  | .withMemory mem => d.bus mem = e.bus (memory mem)
  | .restore _ | .load _ => d.cycles = e.cycles
  | _ => True

/-- Every command agrees with its translation if tracing is shown alike, memories and their changes
are translated, and the command puts no other state into the processor or the cycles are shown
alike. -/
theorem agree_of_translated {memory : M → N} {changes : (M → M) → N → N} {command : Command M}
    (htrace : d.trace = e.trace) (hmemory : ∀ mem, d.bus mem = e.bus (memory mem))
    (hchanges : ∀ change, ∃ seen : K → K,
      (∀ mem, d.bus (change mem) = seen (d.bus mem)) ∧
        ∀ mem, e.bus (changes change mem) = seen (e.bus mem))
    (hcycles : d.cycles = e.cycles ∨ (Turn.command command).restores = false) :
    Agree d e memory changes command := by
  cases command with
  | setOptions options => exact congrFun htrace options.trace
  | changeMemory change => exact hchanges change
  | withMemory mem => exact hmemory mem
  | restore | load =>
    obtain hsame | hrestores := hcycles
    · exact hsame
    · cases hrestores
  | _ => trivial

/-- A command is answered the same by emulators that look alike. -/
theorem respects_alike {memory : M → N} {changes : (M → M) → N → N} {command : Command M}
    (hagree : Agree d e memory changes command) :
    Respects (Alike d e) command (command.translate memory changes) := by
  intro s t halike
  have hrestore (hcycles : d.cycles = e.cycles) (state : State) :
      (s.machine.restore state).disguised d = (t.machine.restore state).disguised e := by
    rw [← Machine.restore_disguised, ← Machine.restore_disguised, ← hcycles]
    exact congrArg (Machine.restore _) halike
  cases command with
  | step =>
    obtain ⟨hresult, hnext⟩ := (lockstep_alike d e).step halike
    exact ⟨congrArg Response.stepped hresult, hnext⟩
  | reset =>
    have hreset := congrArg Machine.reset halike
    rw [Machine.reset_disguised, Machine.reset_disguised] at hreset
    exact ⟨rfl, hreset⟩
  | trigger interrupt => exact ⟨rfl, congrArg (Machine.mapState (.request interrupt)) halike⟩
  | queueStall cycles => exact ⟨rfl, congrArg (Machine.mapState (.queueStall cycles)) halike⟩
  | takeStall =>
    exact ⟨congrArg Response.taken ((lockstep_alike d e).stall halike),
      congrArg (Machine.mapState .dropStall) halike⟩
  | refreshVectors =>
    have hrefresh := congrArg Machine.refreshVectors halike
    rw [Machine.refreshVectors_disguised, Machine.refreshVectors_disguised] at hrefresh
    exact ⟨rfl, hrefresh⟩
  | setOptions options =>
    have htrace : d.trace options.trace = e.trace options.trace := hagree
    have hoptions := congrArg
      (Machine.setOptions { options with trace := d.trace options.trace }) halike
    rw [Machine.setOptions_disguised, htrace, Machine.setOptions_disguised] at hoptions
    exact ⟨rfl, hoptions⟩
  | setRegisters registers pc =>
    exact ⟨rfl, congrArg (Machine.mapState fun state ↦ { state with registers, pc }) halike⟩
  | changeMemory change =>
    obtain ⟨seen, hd, he⟩ := hagree
    have hchange := congrArg (fun m : Machine K ↦ { m with mem := seen m.mem }) halike
    simp only [Machine.changeMemory_disguised d _ hd, Machine.changeMemory_disguised e _ he]
      at hchange
    exact ⟨rfl, hchange⟩
  | withMemory mem =>
    have hmem : d.bus mem = e.bus (memory mem) := hagree
    exact ⟨rfl, congr (congrArg Machine.mk (congrArg Machine.cpu halike)) hmem⟩
  | restore state => exact ⟨rfl, hrestore hagree state⟩
  | load saved =>
    cases hload : State.load saved with
    | ok state =>
      simp only [obey, load, hload, Command.translate]
      exact ⟨trivial, hrestore hagree state⟩
    | error fault =>
      simp only [obey, load, hload, Command.translate]
      exact ⟨trivial, halike⟩

/-! ### Sessions -/

/-- Along every session whose commands agree, emulators that look alike are answered the same, and
go on looking alike. -/
theorem session_alike {memory : M → N} {changes : (M → M) → N → N} {turns : List (Turn M)}
    (hagree : ∀ command, Turn.command command ∈ turns → Agree d e memory changes command)
    {s : Emulator M} {t : Emulator N} (halike : Alike d e s t) :
    (s.session turns).1 =
        (t.session (turns.map (Turn.map (Command.translate memory changes)))).1 ∧
      Alike d e (s.session turns).2
        (t.session (turns.map (Turn.map (Command.translate memory changes)))).2 :=
  (lockstep_alike d e).session_map _
    (fun command hcommand ↦ respects_alike (hagree command hcommand)) halike

/-- Along a session that both understand nothing needs to be translated. -/
theorem session_alike_untranslated {d e : Disguise M K} {turns : List (Turn M)}
    (hagree : ∀ command, Turn.command command ∈ turns → Agree d e id id command)
    {s t : Emulator M} (halike : Alike d e s t) :
    (s.session turns).1 = (t.session turns).1 ∧
      Alike d e (s.session turns).2 (t.session turns).2 := by
  have hsession := session_alike hagree halike
  rwa [Command.translate_id, Turn.map_id, List.map_id] at hsession

end Emulator

end Mos6502
