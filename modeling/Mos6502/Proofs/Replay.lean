import Mos6502.Proofs.Lookalikes
import Mos6502.Proofs.SavedState

/-!
Replays. A saved state, loaded on the same memory, goes on as the processor would have gone on that
it was saved from: nothing that matters later is missing from it. Emulators on the same machine are
a `Simulation`, whatever their journals hold, and loading a saved state gives the machine it was
saved from, provided that machine had read its vectors from the memory it is on.
-/

set_option autoImplicit false

namespace Mos6502

variable {M : Type} [QuietBus M]

namespace Machine

@[simp] theorem mem_refreshVectors_quiet (m : Machine M) : m.refreshVectors.mem = m.mem := by
  simp [refreshVectors, Bus.readWord_quiet]

/-- A machine whose vectors are those in its memory comes back by its state alone, on any machine
with the same options and the same memory. -/
theorem restore_eq {m other : Machine M} (hvectors : m.cpu.vectors = Bus.vectorWords m.mem)
    (hoptions : other.cpu.options = m.cpu.options) (hmem : other.mem = m.mem) :
    other.restore m.cpu.toState = m := by
  have hcpu : (other.restore m.cpu.toState).cpu = m.cpu := by
    simp [restore, hoptions, hmem, ← hvectors]
  have hcells : (other.restore m.cpu.toState).mem = m.mem := by
    simp [restore, hmem]
  calc other.restore m.cpu.toState
      = ⟨(other.restore m.cpu.toState).cpu, (other.restore m.cpu.toState).mem⟩ := rfl
    _ = m := by rw [hcpu, hcells]

end Machine

namespace Emulator

/-- Emulators on the same machine cannot be told apart. -/
theorem simulation_machine :
    Simulation fun s t : Emulator M ↦ s.machine = t.machine := by
  have hself : (fun s t : Emulator M ↦ s.machine = t.machine) = Alike .self .self := by
    funext s t
    simp [Alike]
  have hlockstep : Lockstep (Alike (M := M) .self .self) := lockstep_alike .self .self
  rw [hself]
  refine ⟨hlockstep.step, fun hsame command ↦ ?_, hlockstep.stall, hlockstep.burn⟩
  have hagree : Agree (M := M) .self .self id id command :=
    agree_of_translated rfl (fun _ ↦ rfl) (fun change ↦ ⟨change, fun _ ↦ rfl, fun _ ↦ rfl⟩)
      (Or.inl rfl)
  have hrespects := respects_alike hagree hsame
  rwa [Command.translate_id] at hrespects

/-- Saving and going on elsewhere. Take an emulator whose vectors are the words in its memory, and
any other one with the same options and the same memory, whatever else has happened to it. The state
saved from the first can be loaded into the second; restoring the state directly does the same; and
from then on both give the same answers to everything that a host does, and are the same machine. -/
theorem load_save_replays {s t : Emulator M}
    (hvectors : s.machine.cpu.vectors = Bus.vectorWords s.machine.mem)
    (hoptions : t.machine.cpu.options = s.machine.cpu.options)
    (hmem : t.machine.mem = s.machine.mem) :
    let state := s.machine.cpu.toState
    let loaded := t.load state.save
    loaded.1 = .ok () ∧ loaded.2 = t.mapMachine (·.restore state) ∧
      ∀ turns : List (Turn M),
        (loaded.2.session turns).1 = (s.session turns).1 ∧
          (loaded.2.session turns).2.machine = (s.session turns).2.machine := by
  intro state loaded
  have hload : loaded = (.ok (), t.mapMachine (·.restore state)) := by
    simp only [loaded, load, State.load_save]
  have hsame : loaded.2.machine = s.machine := by
    rw [hload]
    exact Machine.restore_eq hvectors hoptions hmem
  refine ⟨congrArg Prod.fst hload, congrArg Prod.snd hload, ?_⟩
  intro turns
  exact simulation_machine.session turns hsame

/-- A state with full counters and both interrupts requested replays on a processor that has done
nothing and whose vectors are out of date. -/
theorem load_save_replays_full_counters :
    let busy : State :=
      { State.powerOn with
        cycles := 0xFFFFFFFFFFFFFFFF
        stall := 0xFFFFFFFFFFFFFFFF
        pending := .both true }
    let s : Emulator Ram := ⟨⟨⟨busy, .both 0, {}⟩, .blank⟩, {}⟩
    let t : Emulator Ram := ⟨⟨⟨.powerOn, .both 0x9000, {}⟩, .blank⟩, {}⟩
    (s.machine.cpu.vectors = Bus.vectorWords s.machine.mem ∧
      t.machine.cpu.options = s.machine.cpu.options ∧ t.machine.mem = s.machine.mem) ∧
    let state := s.machine.cpu.toState
    let loaded := t.load state.save
    loaded.1 = .ok () ∧ loaded.2 = t.mapMachine (·.restore state) ∧
      ∀ turns : List (Turn Ram),
        (loaded.2.session turns).1 = (s.session turns).1 ∧
          (loaded.2.session turns).2.machine = (s.session turns).2.machine := by
  intro busy s t
  have hvectors : s.machine.cpu.vectors = Bus.vectorWords s.machine.mem := by
    have hblank : Bus.vectorWords Ram.blank = .both 0 := by
      simp [Bus.vectorWords, Bus.readWord_quiet, QuietBus.peek, PerInterrupt.both, word]
    exact hblank.symm
  exact ⟨⟨hvectors, rfl, rfl⟩, load_save_replays (s := s) (t := t) hvectors rfl rfl⟩

end Emulator

end Mos6502
