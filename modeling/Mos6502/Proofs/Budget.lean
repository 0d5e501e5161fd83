import Mos6502.Proofs.CycleCosts
import Mos6502.Proofs.Runs

/-!
What a run for a budget spends. The loop behind a run steps for as long as the steps so far come short
of its goal, so every step that it takes is needed for the goal (`Processor.needed_costs`), and it fails
if a step fails before the goal is reached (`Processor.error_runFrom_iff`). A step that succeeds costs at
least 2 cycles, which bounds the number of needed steps, and at most 8, which bounds what the last of
them spends beyond the goal (`Processor.Needed.two_mul_length_le`, `Processor.Needed.total_le`).

With the stall cycles that are burned in front this gives the law of runs
(`Emulator.run_burns_then_steps`).
-/

set_option autoImplicit false

namespace Mos6502

/-! ### Steps that are needed for a goal -/

namespace Processor

theorem total_append (earlier later : List Cost) :
    total (earlier ++ later) = total earlier + total later := by
  simp [total]

/-- Steps that cost two cycles or more cost twice their number together. -/
theorem two_mul_length_le_total {costs : List Cost} (hcosts : ∀ cost ∈ costs, 2 ≤ cost.val) :
    2 * costs.length ≤ total costs := by
  induction costs with
  | nil => exact Nat.le_refl 0
  | cons cost rest ih =>
    obtain ⟨hcost, hrest⟩ := List.forall_mem_cons.mp hcosts
    have hle := ih hrest
    rw [total_cons, List.length_cons]
    omega

/-- Each of the steps is taken while those before it come short of a goal. -/
def Needed (goal : Nat) (costs : List Cost) : Prop :=
  ∀ earlier cost later, costs = earlier ++ cost :: later → total earlier < goal

namespace Needed

variable {goal : Nat} {costs : List Cost}

/-- The steps before the last one that is needed come short of the goal. -/
theorem eq_nil_or_append (hneeded : Needed goal costs) :
    costs = [] ∨ ∃ earlier last, costs = earlier ++ [last] ∧ total earlier < goal := by
  obtain hnil | ⟨earlier, last, hlast⟩ := List.eq_nil_or_concat costs
  · exact Or.inl hnil
  · rw [List.concat_eq_append] at hlast
    exact Or.inr ⟨earlier, last, hlast, hneeded earlier last [] hlast⟩

/-- Needed steps go beyond their goal by less than the last of them costs. -/
theorem total_le (hneeded : Needed goal costs) {excess : Nat}
    (hcosts : ∀ cost ∈ costs, cost.val ≤ excess + 1) : total costs ≤ goal + excess := by
  obtain rfl | ⟨earlier, last, rfl, hshort⟩ := hneeded.eq_nil_or_append
  · exact Nat.zero_le _
  · have hlast := hcosts last (List.mem_append_right _ (List.mem_singleton_self last))
    have hone : total [last] = last.val := Nat.add_zero _
    rw [total_append, hone]
    omega

/-- Steps that cost two cycles or more are needed for no more than half of the goal, rounded up. -/
theorem two_mul_length_le (hneeded : Needed goal costs) (hcosts : ∀ cost ∈ costs, 2 ≤ cost.val) :
    2 * costs.length ≤ goal + 1 := by
  obtain rfl | ⟨earlier, last, rfl, hshort⟩ := hneeded.eq_nil_or_append
  · exact Nat.zero_le _
  · have hearlier := two_mul_length_le_total fun cost hcost ↦
      hcosts cost (List.mem_append_left [last] hcost)
    rw [List.length_append, List.length_singleton]
    omega

end Needed

variable {S : Type} [Processor S]

/-- The steps that a run takes are needed for its budget. -/
theorem needed_costs (budget : Nat) (s : S) : Needed budget (costs budget s) := by
  fun_induction costs budget s with
  | case1 => intro earlier cost later hcosts; simp at hcosts
  | case2 budget s hbudget cost next hstep ih =>
    intro earlier other later hcosts
    cases earlier with
    | nil => exact Nat.pos_of_ne_zero hbudget
    | cons first earlier =>
      obtain ⟨rfl, hrest⟩ := List.cons.inj hcosts
      have hshort := ih earlier other later hrest
      rw [total_cons]
      omega
  | case3 => intro earlier cost later hcosts; simp at hcosts

/-- What holds of the cost of every step that succeeds holds of all costs of a way. -/
theorem Spends.forall_costs {P : Cost → Prop}
    (hcost : ∀ (s : S) (cost : Cost), (Processor.step s).1 = .ok cost → P cost)
    {costs : List Cost} {s t : S} (hspends : Spends costs s t) : ∀ cost ∈ costs, P cost := by
  induction hspends with
  | nothing s => exact List.forall_mem_nil _
  | step hok _ ih => exact List.forall_mem_cons.mpr ⟨hcost _ _ hok, ih⟩

/-- A run goes along steps that succeed for as long as they come short of its budget. -/
theorem runFrom_of_spends {costs : List Cost} {s t : S} (hspends : Spends costs s t)
    {spent budget : Nat} (hshort : total costs < budget) :
    runFrom spent budget s = runFrom (spent + total costs) (budget - total costs) t := by
  induction hspends generalizing spent budget with
  | nothing s => rfl
  | @step cost costs s t hok _ ih =>
    rw [total_cons] at hshort ⊢
    rw [runFrom_of_ok (by omega) hok, ih (by omega), Nat.add_assoc, Nat.sub_sub]

/-- The steps of a run that fails come short of its budget. -/
theorem total_costs_lt {spent budget : Nat} {s : S} {fault : Fault}
    (herror : (runFrom spent budget s).1 = .error fault) : total (costs budget s) < budget := by
  fun_induction runFrom spent budget s with
  | case1 => cases herror
  | case2 spent budget s hbudget cost next hstep ih =>
    have hrest := ih herror
    have hnext : (step s).2 = next := congrArg Prod.snd hstep
    rw [costs_of_ok hbudget (congrArg Prod.fst hstep), hnext, total_cons]
    omega
  | case3 spent budget s hbudget fault next hstep =>
    rw [costs_of_error hbudget (congrArg Prod.fst hstep)]
    exact Nat.pos_of_ne_zero hbudget

/-- A run fails exactly if steps that come short of its budget lead to a step that fails. -/
theorem error_runFrom_iff {spent budget : Nat} {s : S} :
    (∃ fault, (runFrom spent budget s).1 = .error fault) ↔
      ∃ costs t fault, Spends costs s t ∧ total costs < budget ∧ (step t).1 = .error fault := by
  constructor
  · rintro ⟨fault, herror⟩
    obtain ⟨t, hspends, hrun | ⟨fault', hfault, -⟩⟩ := runFrom_spends spent budget s
    · rw [hrun] at herror
      cases herror
    · exact ⟨_, t, fault', hspends, total_costs_lt herror, hfault⟩
  · rintro ⟨costs, t, fault, hspends, hshort, hfault⟩
    refine ⟨fault, ?_⟩
    rw [runFrom_of_spends hspends hshort, runFrom_of_error (by omega) hfault]

end Processor

namespace Emulator

variable {M : Type} [Bus M]

/-! ### Runs -/

/-- A step that succeeds costs between 2 and 8 cycles. -/
theorem cost_bounds {s : Emulator M} {cost : Cost} (hok : s.step.1 = .ok cost) :
    2 ≤ cost.val ∧ cost.val ≤ 8 := by
  have hprice : cost.val = s.machine.price := by
    rw [← s.machine.charged_step s.watched, Step.charged, ← fst_step, hok]
  rw [hprice]
  obtain ⟨interrupt, hdue, -⟩ | ⟨-, -, hstep⟩ | ⟨op, -, hop, -, -⟩ := s.machine.step_cases s.watched
  · rw [Machine.price_of_due? hdue]
    decide
  · rw [fst_step, hstep] at hok
    cases hok
  · exact Machine.price_bounds hop

/-- A step that fails has read one byte, and has done nothing to the processor. -/
theorem machine_step_of_error {s : Emulator M} {fault : Fault} (hfault : s.step.1 = .error fault) :
    s.step.2.machine =
      { s.machine with mem := (Bus.read s.machine.mem s.machine.cpu.pc).2 } := by
  have hhalted := (Machine.error_iff_halted s.watched s.machine).mp ⟨fault, hfault⟩
  rw [machine_step, hhalted.step_eq]
  rfl

omit [Bus M] in
/-- The stall cycles that a run burns move from the queue to the count, and nothing else changes. -/
theorem burnFor_eq (budget : Nat) (s : Emulator M) :
    s.burnFor budget = { s with machine := { s.machine with cpu := { s.machine.cpu with
      stall := UInt64.ofNat (s.machine.cpu.stall.toNat - s.burnedBy budget)
      cycles := s.machine.cpu.cycles + UInt64.ofNat (s.burnedBy budget) } } } := by
  rw [← stall_burnFor, UInt64.ofNat_toNat]
  rfl

/-- The law of runs. A run for a budget first moves stall cycles from the queue to the count, as many as
are queued and as the budget allows, and then does what the plain loop does for the rest of the budget;
so with nothing queued it is the plain loop. It ends: it takes steps for as long as those before come
short of that rest, and there are at most half as many as it has cycles, rounded up. Either all of them
succeed and the answer is what has been burned and spent, or one fails and the answer is its fault; the
processor is then the one that the steps before it have left. So a run fails exactly if a step fails
while those before it come short. A run that succeeds spends its budget and at most 7 cycles more, and
just its budget if the queue covers it. -/
theorem run_burns_then_steps (budget : Nat) (s : Emulator M) :
    let queued := s.machine.cpu.stall.toNat
    let burned := min queued budget
    let rest := budget - burned
    let burnt : Emulator M := { s with machine := { s.machine with cpu := { s.machine.cpu with
      stall := UInt64.ofNat (queued - burned)
      cycles := s.machine.cpu.cycles + UInt64.ofNat burned } } }
    s.run budget =
        ((Processor.run rest burnt).1.map (burned + ·), (Processor.run rest burnt).2) ∧
      (queued = 0 → s.run budget = Processor.run budget s) ∧
      (∃ costs t, Processor.Spends costs burnt t ∧ Processor.Needed rest costs ∧
        2 * costs.length ≤ rest + 1 ∧
        (rest ≤ Processor.total costs ∧ s.run budget = (.ok (burned + Processor.total costs), t) ∨
          Processor.total costs < rest ∧ ∃ fault, t.step.1 = .error fault ∧
            s.run budget = (.error fault, t.step.2) ∧
            t.step.2.machine =
              { t.machine with mem := (Bus.read t.machine.mem t.machine.cpu.pc).2 })) ∧
      ((∃ fault, (s.run budget).1 = .error fault) ↔
        ∃ costs t fault, Processor.Spends costs burnt t ∧ Processor.total costs < rest ∧
          t.step.1 = .error fault) ∧
      ∀ spent, (s.run budget).1 = .ok spent →
        budget ≤ spent ∧ spent ≤ budget + 7 ∧ (budget ≤ queued → spent = budget) := by
  intro queued burned rest burnt
  have hrun : s.run budget = Processor.runFrom burned rest burnt := by
    rw [run, runFrom_eq_runFrom_burnFor, Nat.zero_add, burnFor_eq]
    rfl
  obtain ⟨t, hspends, hend⟩ := Processor.runFrom_spends burned rest burnt
  have hneeded := Processor.needed_costs rest burnt
  have hbounds := hspends.forall_costs (P := fun cost ↦ 2 ≤ cost.val ∧ cost.val ≤ 8)
    fun _ _ ↦ cost_bounds
  have hlength := hneeded.two_mul_length_le fun cost hcost ↦ (hbounds cost hcost).1
  have htotal : Processor.total _ ≤ rest + 7 :=
    hneeded.total_le fun cost hcost ↦ (hbounds cost hcost).2
  refine ⟨?_, ?_, ⟨_, t, hspends, hneeded, hlength, ?_⟩, ?_, ?_⟩
  · rw [hrun]
    exact Processor.runFrom_add burned 0 rest burnt
  · intro hnone
    exact runFrom_eq_runFrom_steps (Or.inl hnone)
  · rw [hrun]
    obtain hok | ⟨fault, hfault, herror⟩ := hend
    · have hreached := Processor.add_le_of_runFrom_ok (congrArg Prod.fst hok)
      exact Or.inl ⟨by omega, hok⟩
    · exact Or.inr ⟨Processor.total_costs_lt (congrArg Prod.fst herror), fault, hfault, herror,
        machine_step_of_error hfault⟩
  · rw [hrun]
    exact Processor.error_runFrom_iff
  · intro spent hspent
    rw [hrun] at hspent
    obtain hok | ⟨fault, -, herror⟩ := hend
    · have hreached := Processor.add_le_of_runFrom_ok hspent
      rw [hok] at hspent
      have hsum : burned + _ = spent := Except.ok.inj hspent
      refine ⟨by omega, by omega, fun hcovered ↦ ?_⟩
      have hnothing : Processor.costs rest burnt = [] := by
        rw [show rest = 0 by omega]
        exact Processor.costs_zero burnt
      rw [hnothing] at hsum
      exact hsum.symm.trans (Nat.min_eq_right hcovered)
    · rw [herror] at hspent
      cases hspent

end Emulator

end Mos6502
