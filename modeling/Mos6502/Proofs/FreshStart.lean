import Mos6502.Proofs.Lookalikes

/-!
A reset is a fresh start. Whatever has happened to a machine, resetting it gives the machine that is
switched on over the same memory, except that the cycles go on counting (`Machine.reset_eq`). No
instruction sees the count of cycles, so the difference is a `Disguise`: nobody notices it, and it
stays the same along every session in which no other state is put into the processor.
-/

set_option autoImplicit false

namespace Mos6502

variable {M : Type}

/-- The disguise that sets the count of cycles forward and changes nothing else. -/
def Disguise.later [Bus M] (ahead : UInt64) : Disguise M M :=
  { Disguise.self with cycles := ahead }

namespace Machine

variable [Bus M]

theorem disguised_later (ahead : UInt64) (m : Machine M) :
    m.disguised (.later ahead) =
      m.mapState fun state ↦ { state with cycles := state.cycles + ahead } :=
  rfl

/-- A reset machine is the one that is switched on over its memory, except that it has counted its
cycles from before and those of the reset. -/
theorem reset_eq (m : Machine M) :
    m.reset = (powerOn m.cpu.options m.mem).mapState fun state ↦
      { state with cycles := m.cpu.cycles + 7 } :=
  rfl

/-- A reset machine is the one that is switched on over its memory, some cycles later. -/
theorem reset_eq_disguised (m : Machine M) :
    m.reset = (powerOn m.cpu.options m.mem).disguised (.later (m.cpu.cycles + 7)) := by
  have hcycles : (powerOn m.cpu.options m.mem).cpu.cycles + (m.cpu.cycles + 7) =
      m.cpu.cycles + 7 := UInt64.zero_add _
  rw [reset_eq, disguised_later, mapState, mapState, hcycles]

end Machine

/-- A reset changes nothing in memory. -/
@[simp] theorem Machine.mem_reset_quiet [QuietBus M] (m : Machine M) : m.reset.mem = m.mem := by
  simp [reset, start, refreshVectors, onBus, Bus.readWord_quiet]

namespace Emulator

variable [QuietBus M]

/-- Along every session in which no other state is put into the processor, an emulator that has
counted more cycles is answered the same, and the cycles stay the only difference. -/
theorem session_later {turns : List (Turn M)} (hturns : ∀ turn ∈ turns, turn.restores = false)
    {ahead : UInt64} {s t : Emulator M}
    (hlater : s.machine = t.machine.disguised (.later ahead)) :
    (s.session turns).1 = (t.session turns).1 ∧
      (s.session turns).2.machine = (t.session turns).2.machine.disguised (.later ahead) := by
  have hagree : ∀ command, Turn.command command ∈ turns →
      Agree (M := M) .self (.later ahead) id id command := fun command hcommand ↦
    agree_of_translated rfl (fun _ ↦ rfl) (fun change ↦ ⟨change, fun _ ↦ rfl, fun _ ↦ rfl⟩)
      (Or.inr (hturns _ hcommand))
  have halike : Alike .self (.later ahead) s t := s.machine.disguised_self.trans hlater
  obtain ⟨hresponses, hmachine⟩ := session_alike_untranslated hagree halike
  exact ⟨hresponses, (Machine.disguised_self _).symm.trans hmachine⟩

/-- A reset erases history. Whatever an emulator has been through, a reset leaves its memory as it is
and makes it the machine that is switched on over that memory with the same options, except that it
has counted its old cycles and the seven of the reset. From then on the two give the same answers to
everything that a host does, as long as it puts no other state into the processor; and they go on
being the same machine, except that the one that was reset is ahead by the same cycles. -/
theorem reset_erases_history (s : Emulator M) (journal : Journal) :
    let fresh := powerOn s.machine.cpu.options journal s.machine.mem
    let ahead := s.machine.cpu.cycles + 7
    s.reset.machine.mem = s.machine.mem ∧
      s.reset.machine = fresh.machine.mapState (fun state ↦ { state with cycles := ahead }) ∧
      ∀ turns : List (Turn M), (∀ turn ∈ turns, turn.restores = false) →
        let old := s.reset.session turns
        let new := fresh.session turns
        old.1 = new.1 ∧
          old.2.machine =
            new.2.machine.mapState (fun state ↦ { state with cycles := state.cycles + ahead }) ∧
          (new.2.machine.cpu.cycles.toNat + (s.machine.cpu.cycles.toNat + 7) < UInt64.size →
            old.2.machine.cpu.cycles.toNat =
              new.2.machine.cpu.cycles.toNat + (s.machine.cpu.cycles.toNat + 7)) := by
  intro fresh ahead
  refine ⟨Machine.mem_reset_quiet s.machine, Machine.reset_eq s.machine, ?_⟩
  intro turns hturns old new
  obtain ⟨hresponses, hmachine⟩ := session_later (s := s.reset) (t := fresh) hturns
    (Machine.reset_eq_disguised s.machine)
  refine ⟨hresponses, hmachine, ?_⟩
  intro hfits
  have hcycles : old.2.machine.cpu.cycles = new.2.machine.cpu.cycles + ahead :=
    congrArg (·.cpu.cycles) hmachine
  have hahead : ahead.toNat = s.machine.cpu.cycles.toNat + 7 := by
    rw [UInt64.toNat_add]
    exact Nat.mod_eq_of_lt (Nat.lt_of_le_of_lt (Nat.le_add_left _ _) hfits)
  rw [hcycles, UInt64.toNat_add, hahead]
  exact Nat.mod_eq_of_lt hfits

/-- A reset in the middle of a handler, with stall cycles queued, requests waiting and the vectors
out of date: what the program does next depends on none of them. -/
theorem reset_erases_history_in_handler :
    let busy : State :=
      { State.powerOn with
        pc := 0x1234
        cycles := 1000
        stall := 10
        pending := .both true
        running := ⟨true, false⟩ }
    let s : Emulator Ram := ⟨⟨⟨busy, .both 0x9000, {}⟩, .blank⟩, {}⟩
    let fresh : Emulator Ram := powerOn {} {} .blank
    let turns : List (Turn Ram) :=
      [.command (.queueStall 3), .command (.trigger .nmi), .command .step, .command .takeStall]
    (∀ turn ∈ turns, turn.restores = false) ∧
      (s.reset.session turns).1 = (fresh.session turns).1 ∧
      (fresh.session turns).2.machine.cpu.cycles.toNat = 7 ∧
      (s.reset.session turns).2.machine.cpu.cycles.toNat = 7 + (1000 + 7) := by
  intro busy s fresh turns
  have hturns : ∀ turn ∈ turns, turn.restores = false := by decide
  have hfresh : (fresh.session turns).2.machine.cpu.cycles.toNat = 7 := by decide
  obtain ⟨-, -, hsessions⟩ := reset_erases_history s {}
  obtain ⟨hresponses, -, hcycles⟩ := hsessions turns hturns
  have hfits : 7 + (1000 + 7) < UInt64.size := by decide
  refine ⟨hturns, hresponses, hfresh, ?_⟩
  exact (hcycles (hfresh.symm ▸ hfits)).trans (congrArg (· + (1000 + 7)) hfresh)

end Emulator

end Mos6502
