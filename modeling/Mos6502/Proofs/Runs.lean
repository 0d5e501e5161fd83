import Mathlib.Algebra.GroupWithZero.Nat
import Mos6502.Emulator
import Mos6502.Proofs.Stepping

/-!
Runs for a budget of cycles. A run of an emulator burns queued stall cycles first, as many as the
budget allows, and then steps like any processor (`Emulator.runFrom_eq_runFrom_burnFor`), so what
holds of the plain loop carries over to runs with stalls.

What a run spends on steps is the list of `Processor.costs`, and `Processor.Spends` is the way from
one state to another by steps that succeed. `Processor.runFrom_spends` says that a run goes exactly
this way, and that it then either has spent its budget or fails in the next step.

Runs can be cut into slices. A slice may spend more than its budget, so it is the cycles that it
spent, and not its budget, that the next slice adds to (`Emulator.run_add_of_ok`).
-/

set_option autoImplicit false

namespace Mos6502

/-! ### The plain loop -/

namespace Processor

variable {S : Type} [Processor S]

/-- The costs of the steps of a run that succeed, in order. -/
def costs (budget : Nat) (s : S) : List Cost :=
  if budget = 0 then []
  else
    match step s with
    | (.ok cost, s) => cost :: costs (budget - cost.val) s
    | (.error _, _) => []
termination_by budget
decreasing_by
  have := cost.property
  omega

/-- The cycles that costs come to together. -/
def total (costs : List Cost) : Nat :=
  (costs.map Subtype.val).sum

@[simp] theorem total_cons (cost : Cost) (costs : List Cost) :
    total (cost :: costs) = cost.val + total costs :=
  List.sum_cons

/-- One state leads to another by steps that succeed, at these costs. -/
inductive Spends : List Cost → S → S → Prop where
  | nothing (s : S) : Spends [] s s
  | step {cost : Cost} {costs : List Cost} {s t : S} (hok : (step s).1 = .ok cost)
      (hrest : Spends costs (Processor.step s).2 t) : Spends (cost :: costs) s t

theorem costs_zero (s : S) : costs 0 s = [] := by
  rw [costs, if_pos rfl]

theorem costs_of_ok {budget : Nat} {s : S} {cost : Cost} (hbudget : budget ≠ 0)
    (hok : (step s).1 = .ok cost) :
    costs budget s = cost :: costs (budget - cost.val) (step s).2 := by
  have hstep : step s = (.ok cost, (step s).2) := Prod.ext hok rfl
  rw [costs, if_neg hbudget]
  rw [hstep]

theorem costs_of_error {budget : Nat} {s : S} {fault : Fault} (hbudget : budget ≠ 0)
    (herror : (step s).1 = .error fault) : costs budget s = [] := by
  have hstep : step s = (.error fault, (step s).2) := Prod.ext herror rfl
  rw [costs, if_neg hbudget]
  rw [hstep]

/-- A run takes the steps that succeed, and then it has spent its budget, or the next step fails and
the run with it. -/
theorem runFrom_spends (spent budget : Nat) (s : S) :
    ∃ t, Spends (costs budget s) s t ∧
      (runFrom spent budget s = (.ok (spent + total (costs budget s)), t) ∨
        ∃ fault, (step t).1 = .error fault ∧
          runFrom spent budget s = (.error fault, (step t).2)) := by
  fun_induction runFrom spent budget s with
  | case1 spent s =>
    rw [costs_zero]
    exact ⟨s, .nothing s, Or.inl rfl⟩
  | case2 spent budget s hbudget cost next hstep ih =>
    have hok : (step s).1 = .ok cost := congrArg Prod.fst hstep
    have hnext : (step s).2 = next := congrArg Prod.snd hstep
    rw [costs_of_ok hbudget hok, hnext]
    obtain ⟨t, hspends, hend⟩ := ih
    refine ⟨t, .step hok (hnext ▸ hspends), ?_⟩
    rwa [total_cons, ← Nat.add_assoc]
  | case3 spent budget s hbudget fault next hstep =>
    have herror : (step s).1 = .error fault := congrArg Prod.fst hstep
    rw [costs_of_error hbudget herror]
    exact ⟨s, .nothing s, Or.inr ⟨fault, herror, congrArg (Prod.mk _) (congrArg Prod.snd hstep).symm⟩⟩

/-- What every step keeps is kept by steps that succeed, -/
theorem Spends.invariant {P : S → Prop} (hstep : ∀ s, P s → P (Processor.step s).2)
    {costs : List Cost} {s t : S} (hspends : Spends costs s t) (hs : P s) : P t := by
  induction hspends with
  | nothing s => exact hs
  | step _ _ ih => exact ih (hstep _ hs)

/-- and by runs. -/
theorem runFrom_invariant {P : S → Prop} (hstep : ∀ s, P s → P (Processor.step s).2)
    (spent budget : Nat) {s : S} (hs : P s) : P (runFrom spent budget s).2 := by
  obtain ⟨t, hspends, hrun | ⟨fault, -, hrun⟩⟩ := runFrom_spends spent budget s
  · rw [hrun]
    exact hspends.invariant hstep hs
  · rw [hrun]
    exact hstep t (hspends.invariant hstep hs)

/-- A run that succeeds has spent at least its budget. -/
theorem add_le_of_runFrom_ok {spent budget used : Nat} {s : S}
    (hok : (runFrom spent budget s).1 = .ok used) : spent + budget ≤ used := by
  fun_induction runFrom spent budget s with
  | case1 spent s =>
    cases hok
    exact Nat.le_refl _
  | case2 spent budget s hbudget cost next hstep ih =>
    have hrest := ih hok
    omega
  | case3 => cases hok

/-- What has been spent before a run is added to what it spends. -/
theorem runFrom_add (earlier spent budget : Nat) (s : S) :
    runFrom (earlier + spent) budget s =
      ((runFrom spent budget s).1.map (earlier + ·), (runFrom spent budget s).2) := by
  fun_induction runFrom spent budget s with
  | case1 spent s => rw [runFrom_zero]; rfl
  | case2 spent budget s hbudget cost next hstep ih =>
    rw [runFrom_of_ok hbudget (congrArg Prod.fst hstep), congrArg Prod.snd hstep, Nat.add_assoc]
    exact ih
  | case3 spent budget s hbudget fault next hstep =>
    rw [runFrom_of_error hbudget (congrArg Prod.fst hstep), congrArg Prod.snd hstep]
    rfl

/-- A run that has succeeded goes on as the longer run that has the same beginning. -/
theorem runFrom_slice {spent budget used : Nat} {s : S}
    (hok : (runFrom spent budget s).1 = .ok (spent + used)) (more : Nat) :
    runFrom spent (used + more) s = runFrom (spent + used) more (runFrom spent budget s).2 := by
  fun_induction runFrom spent budget s generalizing used with
  | case1 spent s =>
    obtain rfl : used = 0 := by
      have := Except.ok.inj hok
      omega
    rw [Nat.zero_add, Nat.add_zero]
  | case2 spent budget s hbudget cost next hstep ih =>
    have hle := add_le_of_runFrom_ok hok
    have hcost := cost.property
    obtain ⟨rest, rfl⟩ := Nat.exists_eq_add_of_le (show cost.val ≤ used by omega)
    rw [runFrom_of_ok (by omega) (congrArg Prod.fst hstep), congrArg Prod.snd hstep,
      show cost.val + rest + more - cost.val = rest + more by omega, ← Nat.add_assoc]
    rw [← Nat.add_assoc] at hok
    exact ih hok
  | case3 => cases hok

end Processor

/-! ### Runs with stalls -/

namespace Emulator

variable {M : Type}

/-- The stall cycles that a run for a budget burns. -/
def burnedBy (budget : Nat) (s : Emulator M) : Nat :=
  min s.machine.cpu.stall.toNat budget

theorem burnedBy_le_stall (budget : Nat) (s : Emulator M) :
    s.burnedBy budget ≤ s.machine.cpu.stall.toNat :=
  Nat.min_le_left ..

/-- The emulator after the stall cycles of a run have been burned. -/
def burnFor (budget : Nat) (s : Emulator M) : Emulator M :=
  s.burn (UInt64.ofNat (s.burnedBy budget))

@[simp] theorem burn_zero (s : Emulator M) : s.burn 0 = s := by
  obtain ⟨⟨cpu, mem⟩, journal⟩ := s
  simp [burn, mapMachine, Machine.mapState, State.burnStall]

/-- Stall cycles can be burned in portions. -/
theorem burn_burn (first second : UInt64) (s : Emulator M) :
    (s.burn first).burn second = s.burn (first + second) := by
  obtain ⟨⟨cpu, mem⟩, journal⟩ := s
  have hstall : cpu.stall - first - second = cpu.stall - (first + second) := by grind
  simp [burn, mapMachine, Machine.mapState, State.burnStall, hstall, UInt64.add_assoc]

theorem toNat_ofNat_of_le_stall {cycles : Nat} {s : Emulator M}
    (hqueued : cycles ≤ s.machine.cpu.stall.toNat) : (UInt64.ofNat cycles).toNat = cycles :=
  UInt64.toNat_ofNat_of_lt' (Nat.lt_of_le_of_lt hqueued s.machine.cpu.stall.toNat_lt)

/-- Burning takes stall cycles off the queue. -/
theorem stall_burn {cycles : Nat} {s : Emulator M} (hqueued : cycles ≤ s.machine.cpu.stall.toNat) :
    (s.burn (UInt64.ofNat cycles)).machine.cpu.stall.toNat =
      s.machine.cpu.stall.toNat - cycles := by
  have hcycles := toNat_ofNat_of_le_stall hqueued
  change (s.machine.cpu.stall - UInt64.ofNat cycles).toNat = _
  rw [UInt64.toNat_sub_of_le _ _ (by rwa [UInt64.le_iff_toNat_le, hcycles]), hcycles]

theorem stall_burnFor (budget : Nat) (s : Emulator M) :
    (s.burnFor budget).machine.cpu.stall.toNat =
      s.machine.cpu.stall.toNat - s.burnedBy budget :=
  stall_burn (s.burnedBy_le_stall budget)

variable [Bus M]

/-- With nothing queued, a run steps like that of any processor. -/
theorem runFrom_eq_runFrom_steps {spent budget : Nat} {s : Emulator M}
    (hnone : s.machine.cpu.stall.toNat = 0 ∨ budget = 0) :
    s.runFrom spent budget = Processor.runFrom spent budget s := by
  fun_induction Processor.runFrom spent budget s with
  | case1 spent s => exact runFrom_zero spent s
  | case2 spent budget s hbudget cost next hstep ih =>
    have hstall := hnone.resolve_right hbudget
    have hnext : s.step.2 = next := congrArg Prod.snd hstep
    rw [runFrom_of_ok hbudget hstall (congrArg Prod.fst hstep), hnext]
    refine ih (Or.inl ?_)
    rw [← hnext, machine_step, Machine.stall_step]
    exact hstall
  | case3 spent budget s hbudget fault next hstep =>
    have hstall := hnone.resolve_right hbudget
    rw [runFrom_of_error hbudget hstall (congrArg Prod.fst hstep)]
    exact congrArg (Prod.mk _) (congrArg Prod.snd hstep)

/-- A run burns what it can of the queued stall cycles, and spends the rest of its budget on
steps. -/
theorem runFrom_eq_runFrom_burnFor (spent budget : Nat) (s : Emulator M) :
    s.runFrom spent budget =
      Processor.runFrom (spent + s.burnedBy budget) (budget - s.burnedBy budget)
        (s.burnFor budget) := by
  by_cases hnone : s.machine.cpu.stall.toNat = 0 ∨ budget = 0
  · have hburned : s.burnedBy budget = 0 := by
      rw [burnedBy]
      omega
    have hsame : s.burnFor budget = s := by
      rw [burnFor, hburned]
      exact s.burn_zero
    rw [hburned, hsame, Nat.add_zero, Nat.sub_zero]
    exact runFrom_eq_runFrom_steps hnone
  · rw [not_or] at hnone
    have hrest : (s.burnFor budget).machine.cpu.stall.toNat = 0 ∨
        budget - s.burnedBy budget = 0 := by
      rw [stall_burnFor, burnedBy]
      omega
    rw [runFrom_of_stall hnone.2 hnone.1, ← runFrom_eq_runFrom_steps hrest]
    rfl

/-- What has been spent before a run is added to what it spends. -/
theorem runFrom_eq_map_run (spent budget : Nat) (s : Emulator M) :
    s.runFrom spent budget = ((s.run budget).1.map (spent + ·), (s.run budget).2) := by
  rw [run, runFrom_eq_runFrom_burnFor, runFrom_eq_runFrom_burnFor, Nat.zero_add]
  exact Processor.runFrom_add ..

/-- Steps that succeed charge their costs, and burn no stall cycles. -/
theorem cpu_of_spends {costs : List Cost} {s t : Emulator M} (hspends : Processor.Spends costs s t) :
    t.machine.cpu.cycles = s.machine.cpu.cycles + UInt64.ofNat (Processor.total costs) ∧
      t.machine.cpu.stall = s.machine.cpu.stall := by
  induction hspends with
  | nothing s => exact ⟨(UInt64.add_zero _).symm, rfl⟩
  | @step cost costs s t hok hrest ih =>
    have hresult : (s.machine.step s.watched).result = .ok cost := hok
    obtain ⟨hcycles, hstall⟩ := ih
    constructor
    · rw [hcycles, Processor.total_cons, UInt64.ofNat_add, ← UInt64.add_assoc]
      change s.step.2.machine.cpu.cycles + _ = _
      rw [machine_step, Machine.cycles_step, Step.charged, hresult]
    · rw [hstall]
      exact Machine.stall_step s.watched s.machine

/-- A run by steps charges the costs of those that succeed, and burns no stall cycles. -/
theorem cpu_runFrom_steps (spent budget : Nat) (s : Emulator M) :
    let after := (Processor.runFrom spent budget s).2.machine.cpu
    after.cycles =
        s.machine.cpu.cycles + UInt64.ofNat (Processor.total (Processor.costs budget s)) ∧
      after.stall = s.machine.cpu.stall := by
  intro after
  obtain ⟨t, hspends, hend⟩ := Processor.runFrom_spends spent budget s
  obtain ⟨hcycles, hstall⟩ := cpu_of_spends hspends
  have hlast : after.cycles = t.machine.cpu.cycles ∧ after.stall = t.machine.cpu.stall := by
    obtain hrun | ⟨fault, hfault, hrun⟩ := hend
    · simp only [after, hrun, and_self]
    · have herror : (t.machine.step t.watched).result = .error fault := hfault
      have hafter : after = t.step.2.machine.cpu := by
        simp only [after, hrun]
        rfl
      rw [hafter, machine_step, Machine.cycles_step, Machine.stall_step, Step.charged, herror]
      exact ⟨UInt64.add_zero _, rfl⟩
  exact ⟨hlast.1.trans hcycles, hlast.2.trans hstall⟩

/-- A run burns stall cycles and takes the steps that succeed, and then it has spent its budget, or
the next step fails and the run with it. -/
theorem run_spends (budget : Nat) (s : Emulator M) :
    let burned := s.burnedBy budget
    let costs := Processor.costs (budget - burned) (s.burnFor budget)
    ∃ t, Processor.Spends costs (s.burnFor budget) t ∧
      (s.run budget = (.ok (burned + Processor.total costs), t) ∨
        ∃ fault, t.step.1 = .error fault ∧ s.run budget = (.error fault, t.step.2)) := by
  intro burned costs
  rw [run, runFrom_eq_runFrom_burnFor, Nat.zero_add]
  exact Processor.runFrom_spends burned (budget - burned) (s.burnFor budget)

/-- What steps and the burning of stall cycles keep is kept by runs. -/
theorem run_invariant {P : Emulator M → Prop} (hstep : ∀ s, P s → P s.step.2)
    (hburn : ∀ s cycles, P s → P (s.burn cycles)) (budget : Nat) {s : Emulator M} (hs : P s) :
    P (s.run budget).2 := by
  rw [run, runFrom_eq_runFrom_burnFor]
  exact Processor.runFrom_invariant hstep _ _ (hburn s _ hs)

/-- A run charges the stall cycles that it burns and the costs of the steps that succeed. -/
theorem cpu_run (budget : Nat) (s : Emulator M) :
    let burned := s.burnedBy budget
    let costs := Processor.costs (budget - burned) (s.burnFor budget)
    let after := (s.run budget).2.machine.cpu
    after.cycles = s.machine.cpu.cycles + UInt64.ofNat (burned + Processor.total costs) ∧
      after.stall.toNat + burned = s.machine.cpu.stall.toNat := by
  intro burned costs after
  have hafter : after = (Processor.runFrom burned (budget - burned)
      (s.burnFor budget)).2.machine.cpu := by
    simp only [after]
    rw [run, runFrom_eq_runFrom_burnFor, Nat.zero_add]
  obtain ⟨hcycles, hstall⟩ := cpu_runFrom_steps burned (budget - burned) (s.burnFor budget)
  have hburn : (s.burnFor budget).machine.cpu.cycles =
      s.machine.cpu.cycles + UInt64.ofNat burned := rfl
  constructor
  · rw [hafter, hcycles, hburn, UInt64.ofNat_add, UInt64.add_assoc]
  · rw [hafter, hstall, stall_burnFor]
    exact Nat.sub_add_cancel (s.burnedBy_le_stall budget)

/-- A run may burn a portion of what is queued before the rest. -/
theorem runFrom_burn {portion : Nat} {s : Emulator M}
    (hqueued : portion ≤ s.machine.cpu.stall.toNat) (spent budget : Nat) :
    s.runFrom spent (portion + budget) =
      (s.burn (UInt64.ofNat portion)).runFrom (spent + portion) budget := by
  have hburned : s.burnedBy (portion + budget) =
      portion + (s.burn (UInt64.ofNat portion)).burnedBy budget := by
    rw [burnedBy, burnedBy, stall_burn hqueued]
    omega
  rw [runFrom_eq_runFrom_burnFor, runFrom_eq_runFrom_burnFor, burnFor, burnFor, burn_burn, hburned,
    UInt64.ofNat_add, Nat.add_assoc, Nat.add_sub_add_left]

/-- A run that has succeeded goes on as the longer run that has the same beginning. -/
theorem run_add_of_ok {first spent : Nat} {s : Emulator M} (hok : (s.run first).1 = .ok spent)
    (second : Nat) :
    s.run (spent + second) = (s.run first).2.runFrom spent second := by
  have hfirst : s.run first = Processor.runFrom (s.burnedBy first) (first - s.burnedBy first)
      (s.burnFor first) := by
    rw [run, runFrom_eq_runFrom_burnFor, Nat.zero_add]
  rw [hfirst] at hok ⊢
  obtain ⟨used, rfl⟩ := Nat.exists_eq_add_of_le (show s.burnedBy first ≤ spent by
    have := Processor.add_le_of_runFrom_ok hok
    omega)
  have hburn : s.run (s.burnedBy first + used + second) =
      (s.burnFor first).runFrom (s.burnedBy first) (used + second) := by
    rw [run, Nat.add_assoc, runFrom_burn (s.burnedBy_le_stall first), Nat.zero_add]
    rfl
  rw [hburn]
  by_cases hcovered : first ≤ s.burnedBy first
  · -- The stall cycles cover the first budget, so it is spent without a step.
    rw [Nat.sub_eq_zero_of_le hcovered, Processor.runFrom_zero] at hok ⊢
    obtain rfl : used = 0 := by
      have := Except.ok.inj hok
      omega
    rw [Nat.zero_add, Nat.add_zero]
  · -- Nothing is queued any more, so both slices step as any processor does.
    have hempty : (s.burnFor first).machine.cpu.stall.toNat = 0 := by
      rw [stall_burnFor]
      rw [burnedBy] at hcovered ⊢
      omega
    rw [runFrom_eq_runFrom_steps (Or.inl hempty), Processor.runFrom_slice hok]
    refine (runFrom_eq_runFrom_steps (Or.inl ?_)).symm
    rw [(cpu_runFrom_steps ..).2]
    exact hempty

/-- Slices of a run. If a run for a first budget succeeds, a second run after it leaves the same
emulator as a single run for the second budget and the cycles that the first one spent, and the two
together are answered as the single one: with the sum of what they spent, or with the same fault. It
does not matter how many stall cycles are queued, nor whether they outlast the first budget. -/
theorem run_slices_eq_run {first spent : Nat} {s : Emulator M}
    (hok : (s.run first).1 = .ok spent) (second : Nat) :
    let slice := (s.run first).2.run second
    let whole := s.run (spent + second)
    whole.2 = slice.2 ∧
      (∀ more, slice.1 = .ok more → whole.1 = .ok (spent + more)) ∧
      ∀ fault, slice.1 = .error fault → whole.1 = .error fault := by
  intro slice whole
  have hwhole : whole = (slice.1.map (spent + ·), slice.2) :=
    (run_add_of_ok hok second).trans (runFrom_eq_map_run ..)
  rw [hwhole]
  refine ⟨rfl, ?_, ?_⟩
  · intro more hmore
    simp only [hmore, Except.map]
  · intro fault hfault
    simp only [hfault, Except.map]

/-- A first slice that ends while stall cycles are still queued, and a second one that burns the
rest of them and services an interrupt past its budget. -/
theorem run_slices_eq_run_straddling :
    let state : State := { State.powerOn with stall := 10, pending := ⟨true, false⟩ }
    let s : Emulator Ram := ⟨⟨⟨state, .both 0x9000, {}⟩, .blank⟩, {}⟩
    let slice := (s.run 6).2.run 6
    (s.run 6).1 = .ok 6 ∧ slice.1 = .ok 11 ∧ (s.run 12).1 = .ok 17 ∧ (s.run 12).2 = slice.2 := by
  intro state s slice
  have hfirst : s.run 6 = (.ok 6, s.burn 6) := by
    have hburn : s.runFrom 0 (6 + 0) = (s.burn 6).runFrom (0 + 6) 0 := runFrom_burn (by decide) 0 0
    exact hburn.trans (runFrom_zero ..)
  have hsecond : slice.1 = .ok 11 := by
    have hburn : (s.burn 6).runFrom 0 (4 + 2) = ((s.burn 6).burn 4).runFrom (0 + 4) 2 :=
      runFrom_burn (by decide) 0 2
    have hstep : ((s.burn 6).burn 4).step.1 = .ok ⟨7, by decide⟩ := rfl
    rw [runFrom_of_ok (by decide) (by decide) hstep] at hburn
    change ((s.run 6).2.run 6).1 = .ok 11
    rw [hfirst]
    exact congrArg Prod.fst (hburn.trans (runFrom_zero ..))
  obtain ⟨hsame, hok, -⟩ := run_slices_eq_run (congrArg Prod.fst hfirst) 6
  exact ⟨congrArg Prod.fst hfirst, hsecond, hok 11 hsecond, hsame⟩

end Emulator

end Mos6502
