import Mos6502.Proofs.Host
import Mos6502.Proofs.Runs

/-!
The time ledger of a session. Every turn of a host has a charge, which is what the cycle counter
grows by: what a step or a run is answered, what a run that fails had spent before, the fixed cost of
a reset, and nothing for everything else (`Emulator.cycles_take`). Stall cycles come into the queue
when the host queues them, and leave it by being burned, taken or discarded (`Emulator.stall_take`).

An amount that belongs to turns is summed over a session by `Emulator.tally`, and `time_ledger`
balances both books along every session in which the host puts no other state into the processor.
-/

set_option autoImplicit false

namespace Mos6502

variable {M : Type} [Bus M]

namespace Turn

/-- The cycles that a turn charges. A run that fails charges the stall cycles that it burned and the
steps that it took before the one that failed. -/
def charge (turn : Turn M) (s : Emulator M) : Nat :=
  match turn with
  | .command .step =>
    match s.step.1 with
    | .ok cost => cost.val
    | .error _ => 0
  | .command .reset => resetCycles
  | .command _ => 0
  | .run budget =>
    match (s.run budget).1 with
    | .ok spent => spent
    | .error _ =>
      let burned := s.burnedBy budget
      burned + Processor.total (Processor.costs (budget - burned) (s.burnFor budget))
  | .runSteps budget =>
    match (Processor.run budget s).1 with
    | .ok spent => spent
    | .error _ => Processor.total (Processor.costs budget s)

omit [Bus M] in
/-- The stall cycles that a turn asks to be queued. -/
def queued : Turn M → Nat
  | .command (.queueStall cycles) => cycles.toNat
  | _ => 0

omit [Bus M] in
/-- The stall cycles that a turn burns. -/
def burned (turn : Turn M) (s : Emulator M) : Nat :=
  match turn with
  | .run budget => s.burnedBy budget
  | _ => 0

/-- The stall cycles that a turn hands back to the host. -/
def taken (turn : Turn M) (s : Emulator M) : Nat :=
  match (s.take turn).1 with
  | .taken cycles => cycles.toNat
  | _ => 0

omit [Bus M] in
/-- The stall cycles that a turn throws away. -/
def discarded (turn : Turn M) (s : Emulator M) : Nat :=
  match turn with
  | .command .reset => s.machine.cpu.stall.toNat
  | _ => 0

/-- A run charges what it spends, whether it succeeds or fails. -/
theorem charge_run (budget : Nat) (s : Emulator M) :
    charge (.run budget) s = s.burnedBy budget +
      Processor.total (Processor.costs (budget - s.burnedBy budget) (s.burnFor budget)) := by
  obtain ⟨t, -, hrun | ⟨fault, -, hrun⟩⟩ := s.run_spends budget
  · simp only [charge, hrun]
  · simp only [charge, hrun]

/-- A run by steps charges what it spends, whether it succeeds or fails. -/
theorem charge_runSteps (budget : Nat) (s : Emulator M) :
    charge (.runSteps budget) s = Processor.total (Processor.costs budget s) := by
  obtain ⟨t, -, hrun | ⟨fault, -, hrun⟩⟩ := Processor.runFrom_spends 0 budget s
  · simp only [charge, Processor.run, hrun, Nat.zero_add]
  · simp only [charge, Processor.run, hrun]

end Turn

namespace Emulator

/-! ### One turn -/

/-- A turn moves the cycle counter by its charge. -/
theorem cycles_take {turn : Turn M} (hturn : turn.restores = false) (s : Emulator M) :
    (s.take turn).2.machine.cpu.cycles = s.machine.cpu.cycles + UInt64.ofNat (turn.charge s) := by
  cases turn with
  | run budget =>
    rw [Turn.charge_run]
    exact (s.cpu_run budget).1
  | runSteps budget =>
    rw [Turn.charge_runSteps]
    exact (s.cpu_runFrom_steps 0 budget).1
  | command command =>
    cases command with
    | step => exact Machine.cycles_step s.watched s.machine
    | restore | load => cases hturn
    | reset => rfl
    | _ => exact (UInt64.add_zero _).symm

/-- What a turn queues is added to the stall cycles that wait, and what it burns, hands back or
throws away is taken from them, as long as the queue does not come to its largest count. -/
theorem stall_take {turn : Turn M} (hturn : turn.restores = false) {s : Emulator M}
    (hfits : s.machine.cpu.stall.toNat + turn.queued < UInt64.size) :
    s.machine.cpu.stall.toNat + turn.queued =
      turn.burned s + turn.taken s + turn.discarded s +
        (s.take turn).2.machine.cpu.stall.toNat := by
  cases turn with
  | run budget =>
    have hrun := (s.cpu_run budget).2
    simp only [Turn.queued, Turn.burned, Turn.taken, Turn.discarded, take]
    omega
  | runSteps budget =>
    have hrun : (Processor.run budget s).2.machine.cpu.stall = s.machine.cpu.stall :=
      (s.cpu_runFrom_steps 0 budget).2
    simp only [Turn.queued, Turn.burned, Turn.taken, Turn.discarded, take, hrun]
    omega
  | command command =>
    cases command with
    | step =>
      have hstep : s.step.2.machine.cpu.stall = s.machine.cpu.stall :=
        Machine.stall_step s.watched s.machine
      simp only [Turn.queued, Turn.burned, Turn.taken, Turn.discarded, take, obey, hstep]
      omega
    | queueStall cycles =>
      have hsum : s.machine.cpu.stall.toNat + cycles.toNat < UInt64.size := hfits
      have hqueue : (s.take (.command (.queueStall cycles))).2.machine.cpu.stall =
          UInt64.ofNat (min (s.machine.cpu.stall.toNat + cycles.toNat) (UInt64.size - 1)) := rfl
      rw [hqueue, Nat.min_eq_left (by omega), UInt64.toNat_ofNat_of_lt' hsum]
      exact (Nat.zero_add _).symm
    | restore | load => cases hturn
    | _ => exact (Nat.zero_add _).symm

/-! ### Sessions -/

/-- The sum of an amount over the turns of a session. -/
def tally (amount : Turn M → Emulator M → Nat) : List (Turn M) → Emulator M → Nat
  | [], _ => 0
  | turn :: rest, s => amount turn s + tally amount rest (s.take turn).2

theorem tally_append (amount : Turn M → Emulator M → Nat) (first second : List (Turn M))
    (s : Emulator M) :
    tally amount (first ++ second) s =
      tally amount first s + tally amount second (s.session first).2 := by
  induction first generalizing s with
  | nil => exact (Nat.zero_add _).symm
  | cons turn rest ih =>
    rw [List.cons_append, tally, tally, ih, Nat.add_assoc]
    rfl

/-- A session moves the cycle counter by the charges of its turns. -/
theorem cycles_session {turns : List (Turn M)} (hturns : ∀ turn ∈ turns, turn.restores = false)
    (s : Emulator M) :
    (s.session turns).2.machine.cpu.cycles =
      s.machine.cpu.cycles + UInt64.ofNat (s.tally Turn.charge turns) := by
  induction turns generalizing s with
  | nil => exact (UInt64.add_zero _).symm
  | cons turn rest ih =>
    obtain ⟨hturn, hrest⟩ := List.forall_mem_cons.mp hturns
    rw [snd_session_cons, ih hrest, cycles_take hturn, tally, UInt64.ofNat_add, UInt64.add_assoc]

/-- As long as the counter does not overflow, it is the charges that it moves by. -/
theorem toNat_cycles_session {turns : List (Turn M)}
    (hturns : ∀ turn ∈ turns, turn.restores = false) {s : Emulator M}
    (hfits : s.machine.cpu.cycles.toNat + s.tally Turn.charge turns < UInt64.size) :
    (s.session turns).2.machine.cpu.cycles.toNat =
      s.machine.cpu.cycles.toNat + s.tally Turn.charge turns := by
  rw [cycles_session hturns, UInt64.toNat_add, UInt64.toNat_ofNat_of_lt' (by omega)]
  exact Nat.mod_eq_of_lt hfits

/-- No turn of a session asks for more stall cycles than the queue can count. -/
def NeverSaturates : List (Turn M) → Emulator M → Prop
  | [], _ => True
  | turn :: rest, s =>
    s.machine.cpu.stall.toNat + turn.queued < UInt64.size ∧ NeverSaturates rest (s.take turn).2

/-- What is queued along a session is burned, taken, discarded, or still waiting at its end. -/
theorem stall_session {turns : List (Turn M)} (hturns : ∀ turn ∈ turns, turn.restores = false)
    {s : Emulator M} (hfits : s.NeverSaturates turns) :
    s.machine.cpu.stall.toNat + s.tally (fun turn _ ↦ turn.queued) turns =
      s.tally Turn.burned turns + s.tally Turn.taken turns + s.tally Turn.discarded turns +
        (s.session turns).2.machine.cpu.stall.toNat := by
  induction turns generalizing s with
  | nil => exact (Nat.zero_add _).symm
  | cons turn rest ih =>
    obtain ⟨hturn, hrest⟩ := List.forall_mem_cons.mp hturns
    have hfirst := stall_take hturn hfits.1
    have hlater := ih hrest hfits.2
    simp only [tally, snd_session_cons]
    omega

/-- The books of a session in which no other state is put into the processor. As long as the cycle
counter does not overflow, between any two moments of the session it grows by the charges of the
turns between them, and so it never decreases. As long as the queue of stall cycles does not
saturate, what was queued has been burned by runs, taken by the host or discarded by resets, or it
still waits; and a step leaves the queue alone. What a run charges is what it burns and the
costs of the steps that it takes, up to the end of its budget or to a step that fails. -/
theorem time_ledger (s : Emulator M) {turns : List (Turn M)}
    (hturns : ∀ turn ∈ turns, turn.restores = false) :
    (s.machine.cpu.cycles.toNat + s.tally Turn.charge turns < UInt64.size →
      ∀ first middle last, turns = first ++ middle ++ last →
        let earlier := (s.session first).2
        let later := (earlier.session middle).2
        later.machine.cpu.cycles.toNat =
          earlier.machine.cpu.cycles.toNat + earlier.tally Turn.charge middle) ∧
    (s.NeverSaturates turns →
      s.machine.cpu.stall.toNat + s.tally (fun turn _ ↦ turn.queued) turns =
        s.tally Turn.burned turns + s.tally Turn.taken turns + s.tally Turn.discarded turns +
          (s.session turns).2.machine.cpu.stall.toNat) ∧
    (∀ e : Emulator M, e.step.2.machine.cpu.stall = e.machine.cpu.stall) ∧
    ∀ (e : Emulator M) (budget : Nat),
      let burned := e.burnedBy budget
      let costs := Processor.costs (budget - burned) (e.burnFor budget)
      ∃ t, Processor.Spends costs (e.burnFor budget) t ∧
        (e.run budget = (.ok (burned + Processor.total costs), t) ∨
          ∃ fault, t.step.1 = .error fault ∧ e.run budget = (.error fault, t.step.2)) := by
  refine ⟨?_, stall_session hturns, fun e ↦ Machine.stall_step e.watched e.machine,
    fun e budget ↦ e.run_spends budget⟩
  rintro hfits first middle last rfl earlier later
  have hfirst : ∀ turn ∈ first, turn.restores = false := fun turn hturn ↦
    hturns turn (List.mem_append_left last (List.mem_append_left middle hturn))
  have hmiddle : ∀ turn ∈ middle, turn.restores = false := fun turn hturn ↦
    hturns turn (List.mem_append_left last (List.mem_append_right first hturn))
  rw [tally_append, tally_append] at hfits
  have hearlier : earlier.machine.cpu.cycles.toNat =
      s.machine.cpu.cycles.toNat + s.tally Turn.charge first :=
    toNat_cycles_session hfirst (by omega)
  refine toNat_cycles_session hmiddle ?_
  change earlier.machine.cpu.cycles.toNat + (s.session first).2.tally Turn.charge middle < _
  omega

/-- A session that burns, takes and discards stall cycles, and services an interrupt between. -/
theorem time_ledger_of_stalls :
    let state : State := { State.powerOn with stall := 10, pending := ⟨true, false⟩ }
    let s : Emulator Ram := ⟨⟨⟨state, .both 0x9000, {}⟩, .blank⟩, {}⟩
    let turns : List (Turn Ram) :=
      [.run 6, .command .step, .command .takeStall, .command (.queueStall 3), .command .reset]
    (∀ turn ∈ turns, turn.restores = false) ∧ s.NeverSaturates turns ∧
      s.tally Turn.charge turns = 6 + 7 + 7 ∧
      (s.session turns).2.machine.cpu.cycles.toNat = 20 ∧
      10 + 3 = s.tally Turn.burned turns + s.tally Turn.taken turns +
        s.tally Turn.discarded turns + (s.session turns).2.machine.cpu.stall.toNat := by
  intro state s turns
  have hrun : s.run 6 = (.ok 6, s.burn 6) := by
    have hburn : s.runFrom 0 (6 + 0) = (s.burn 6).runFrom (0 + 6) 0 := runFrom_burn (by decide) 0 0
    exact hburn.trans (runFrom_zero ..)
  have htake : (s.take (.run 6)).2 = s.burn 6 := congrArg Prod.snd hrun
  have hturns : ∀ turn ∈ turns, turn.restores = false := by decide
  have hcharge : s.tally Turn.charge turns = 6 + 7 + 7 := by
    have hspent : (Turn.run 6).charge s = 6 := by simp only [Turn.charge, hrun]
    simp only [turns, tally, hspent]
    rw [htake]
    rfl
  have hfits : s.NeverSaturates turns := by
    simp only [turns, NeverSaturates]
    rw [htake]
    decide
  obtain ⟨hcycles, hstall, -⟩ := time_ledger s hturns
  have hall := hcycles (by rw [hcharge]; decide) [] turns [] (List.append_nil _).symm
  refine ⟨hturns, hfits, hcharge, ?_, hstall hfits⟩
  exact hall.trans (congrArg (0 + ·) hcharge)

end Emulator

end Mos6502
