import Mos6502.Proofs.Chaining
import Mos6502.Proofs.Lines

/-!
Where the lines of a journal go. Each call of a host has lines to write, or none (`LogCall.lines`),
and may select a destination (`Journal.selected?`), which counts only if it can be opened. The lines
of a call belong to the destination selected last, and `Journal.routed` lists them so. What stands
at a destination afterwards is what stood there before, and its lines
(`Journal.lines_reach_their_destination`).

Writing to a file that does not exist would lose the lines. It does not come to that: a destination
exists from when it is selected (`Journal.has_destination_obey`).
-/

set_option autoImplicit false

namespace Mos6502

/-! ### Opening files -/

namespace FileStore

/-- All that opening a file does is to create it if it does not exist. -/
theorem eq_create_of_openFile {store opened : FileStore} {path : String} {place : Place}
    (hopen : store.openFile path = .ok (place, opened)) : opened = store.create place := by
  obtain ⟨_, -, hopen⟩ := bind_eq_ok_iff.mp hopen
  by_cases hslash : path.endsWith "/" = true
  · simp only [if_pos hslash] at hopen
    obtain ⟨_, -, hopen⟩ := bind_eq_ok_iff.mp hopen
    cases hopen
  · simp only [if_neg hslash] at hopen
    obtain ⟨found, -, hopen⟩ := bind_eq_ok_iff.mp hopen
    by_cases hfolder : found ∈ store.folders
    · rw [if_pos hfolder] at hopen
      cases hopen
    · rw [if_neg hfolder] at hopen
      cases hopen
      rfl

theorem contents?_create (store : FileStore) (place other : Place) :
    (store.create place).contents? other =
      if other = place then some ((store.contents? other).getD "") else store.contents? other := by
  unfold create
  split
  · rename_i hexists
    by_cases hother : other = place
    · subst hother
      obtain ⟨text, htext⟩ := Option.isSome_iff_exists.mp hexists
      rw [if_pos rfl, htext]
      rfl
    · rw [if_neg hother]
  · rename_i hnew
    have hnone : store.contents? place = none := Option.not_isSome_iff_eq_none.mp hnew
    by_cases hother : other = place
    · subst hother
      rw [if_pos rfl, hnone]
      unfold contents? at hnone ⊢
      simp [List.lookup_append, hnone]
    · rw [if_neg hother]
      unfold contents?
      simp [List.lookup_append, List.lookup_cons, beq_false_of_ne hother]

end FileStore

/-- The lines that a call has to write to a journal. -/
def LogCall.lines (call : LogCall) (j : Journal) : List String :=
  match call with
  | .log category level message => (j.ruling category level).lines category message
  | _ => []

namespace Journal

/-! ### Destinations -/

/-- Whether a destination exists. The console always does. -/
def has (destination : Destination) (j : Journal) : Bool :=
  match destination with
  | .console => true
  | .file place => (j.store.contents? place).isSome

/-- What stands at a destination. Nothing does if it does not exist. -/
def textAt (destination : Destination) (j : Journal) : String :=
  match destination with
  | .console => j.console
  | .file place => (j.store.contents? place).getD ""

/-- The file that a path leads to, if it can be opened. -/
def opened? (path : String) (j : Journal) : Option Destination :=
  (j.store.openFile path).toOption.map fun (place, _) ↦ .file place

/-- The destination that a call selects, if it selects one. -/
def selected? (call : LogCall) (j : Journal) : Option Destination :=
  match call with
  | .useConsole => some .console
  | .useFile path => j.opened? path
  | .apply settings =>
    match settings.file with
    | some path => j.opened? path
    | none => some .console
  | _ => none

/-- The destinations that calls select, in order. -/
def selections : List LogCall → Journal → List Destination
  | [], _ => []
  | call :: rest, j => (j.selected? call).toList ++ selections rest (j.obey call).2

/-- The lines that calls have to write, in order, each with the destination that was selected last.
At first, that is `current`. -/
def routed (current : Destination) : List LogCall → Journal → List (Destination × String)
  | [], _ => []
  | call :: rest, j =>
    (call.lines j).map (current, ·) ++
      routed ((j.selected? call).getD current) rest (j.obey call).2

/-! ### One call -/

variable (destination : Destination) (text : String) {j : Journal}

theorem has_put : (j.put text).has destination = j.has destination := by
  rcases hcurrent : j.destination with _ | current
  · simp only [put, hcurrent]
    rfl
  · simp only [put, hcurrent]
    rcases destination with _ | place
    · rfl
    · show ((j.store.append current text).contents? place).isSome = (j.store.contents? place).isSome
      rw [FileStore.contents?_append]
      split
      · rw [Option.isSome_map]
      · rfl

/-- Text that is added stands at the destination, and nowhere else. -/
theorem textAt_put (hexists : j.has j.destination = true) :
    (j.put text).textAt destination =
      j.textAt destination ++ if destination = j.destination then text else "" := by
  rcases hcurrent : j.destination with _ | current
  · simp only [put, hcurrent]
    rcases destination with _ | place
    · rfl
    · exact String.append_empty.symm
  · simp only [put, hcurrent]
    rcases destination with _ | place
    · exact String.append_empty.symm
    · show ((j.store.append current text).contents? place).getD "" = _
      rw [FileStore.contents?_append]
      by_cases hplace : place = current
      · subst hplace
        rw [hcurrent] at hexists
        obtain ⟨old, hold⟩ := Option.isSome_iff_exists.mp hexists
        simp [textAt, hold]
      · simp [textAt, hplace]

/-- What a call comes to: the destination that it selects exists and is the current one from then
on, and its lines stand at the destination that was current before. -/
structure Routes (call : LogCall) (j k : Journal) : Prop where
  destination : k.destination = (j.selected? call).getD j.destination
  has : ∀ d, k.has d ↔ j.has d ∨ j.selected? call = some d
  textAt : ∀ d, k.textAt d = j.textAt d ++ textOf (if d = j.destination then call.lines j else [])

theorem routes_log (hexists : j.has j.destination = true) (category : Category) (level : Level)
    (message : Unit → String) :
    Routes (.log category level message) j (j.log category level message) where
  destination := destination_log ..
  has d := by
    rw [log_eq, writeLines_eq_put]
    show (j.put _).has d ↔ j.has d ∨ none = some d
    rw [has_put]
    simp
  textAt d := by
    rw [log_eq, writeLines_eq_put]
    refine (textAt_put d _ hexists).trans ?_
    split
    · rfl
    · rfl

theorem routes_useFile (path : String) (j : Journal) :
    Routes (.useFile path) j (j.obey (.useFile path)).2 := by
  have hlines (d : Destination) :
      textOf (if d = j.destination then LogCall.lines (.useFile path) j else []) = "" := by
    split <;> rfl
  rcases j.obey_useFile path with ⟨place, store, hopen, hobey⟩ | ⟨fault, hopen, hobey⟩
  · have hselected : j.selected? (.useFile path) = some (.file place) := by
      simp only [selected?, opened?, hopen]
      rfl
    have hcreate := FileStore.eq_create_of_openFile hopen
    rw [hobey, hcreate]
    refine ⟨by rw [hselected]; rfl, fun d ↦ ?_, fun d ↦ ?_⟩
    · rw [hselected]
      rcases d with _ | other
      · exact iff_of_true rfl (Or.inl rfl)
      · show ((j.store.create place).contents? other).isSome ↔ _
        rw [FileStore.contents?_create]
        by_cases hother : other = place
        · simp [hother]
        · simp [hother, Ne.symm hother, has]
    · rw [hlines, String.append_empty]
      rcases d with _ | other
      · rfl
      · show ((j.store.create place).contents? other).getD "" = _
        rw [FileStore.contents?_create]
        split
        · rfl
        · rfl
  · have hselected : j.selected? (.useFile path) = none := by
      simp only [selected?, opened?, hopen]
      rfl
    rw [hobey]
    refine ⟨by rw [hselected]; rfl, fun d ↦ ?_, fun d ↦ ?_⟩
    · rw [hselected]
      simp
    · rw [hlines, String.append_empty]

theorem routes_useConsole (j : Journal) : Routes .useConsole j j.useConsole where
  destination := rfl
  has d := by
    rcases d with _ | place
    · exact iff_of_true rfl (Or.inl rfl)
    · simp [Journal.has, selected?, useConsole]
  textAt d := by
    split <;> exact String.append_empty.symm

/-- A call that neither writes nor selects comes to nothing as far as destinations are concerned. -/
theorem routes_quiet {call : LogCall} {j k : Journal} (hselected : j.selected? call = none)
    (hlines : call.lines j = []) (hdestination : k.destination = j.destination)
    (hconsole : k.console = j.console) (hstore : k.store = j.store) : Routes call j k where
  destination := by
    rw [hselected, hdestination]
    rfl
  has d := by
    rw [hselected]
    rcases d with _ | place
    · exact iff_of_true rfl (Or.inl rfl)
    · simp [Journal.has, hstore]
  textAt d := by
    rw [hlines, ite_self]
    rcases d with _ | place
    · exact hconsole.trans String.append_empty.symm
    · simp [Journal.textAt, hstore, textOf]

/-- Applying settings comes to the same as selecting the destination that they name. -/
theorem Routes.of_adjusted {settings : LogSettings} {call : LogCall} {j k : Journal}
    (h : Routes call (j.adjusted settings) k) (hlines : call.lines (j.adjusted settings) = [])
    (hselected : j.selected? (.apply settings) = (j.adjusted settings).selected? call) :
    Routes (.apply settings) j k where
  destination := by
    rw [hselected]
    exact h.destination
  has d := by
    rw [hselected]
    exact h.has d
  textAt d := by
    have htext := h.textAt d
    rw [hlines] at htext
    exact htext

/-- A call comes to what it says, as long as the current destination exists. -/
theorem routes_obey (hexists : j.has j.destination = true) (call : LogCall) :
    Routes call j (j.obey call).2 := by
  -- Only a message depends on the current destination: it must exist for the lines to arrive.
  cases call with
  | log category level message => exact routes_log hexists category level message
  | useFile path => exact routes_useFile path j
  | useConsole => exact routes_useConsole j
  | apply settings =>
    rw [obey_apply]
    rcases hfile : settings.file with _ | path
    · have hselected : j.selected? (.apply settings) = some .console := by
        simp only [selected?, hfile]
      exact (routes_useConsole (j.adjusted settings)).of_adjusted rfl hselected
    · have hselected : j.selected? (.apply settings) = (j.adjusted settings).opened? path := by
        simp only [selected?, hfile]
        rfl
      exact (routes_useFile path (j.adjusted settings)).of_adjusted rfl hselected
  | _ => exact routes_quiet rfl rfl rfl rfl rfl

/-- After a call, the current destination still exists. -/
theorem has_destination_obey (hexists : j.has j.destination = true) (call : LogCall) :
    (j.obey call).2.has (j.obey call).2.destination = true := by
  have hroutes := routes_obey hexists call
  rw [hroutes.has, hroutes.destination]
  rcases hselected : j.selected? call with _ | selected
  · simp [hexists]
  · simp

/-- A call succeeds, or leaves destinations and all that stands there as they are. -/
theorem obey_ok_or_unchanged (call : LogCall) (j : Journal) :
    (j.obey call).1 = .ok () ∨
      (j.obey call).2.destination = j.destination ∧ (j.obey call).2.console = j.console ∧
        (j.obey call).2.store = j.store := by
  have hfile (path : String) (j : Journal) : (j.obey (.useFile path)).1 = .ok () ∨
      (j.obey (.useFile path)).2 = j := by
    rcases j.obey_useFile path with ⟨place, store, -, hobey⟩ | ⟨fault, -, hobey⟩
    · exact Or.inl (by rw [hobey])
    · exact Or.inr (by rw [hobey])
  cases call with
  | useFile path =>
    refine (hfile path j).imp_right fun hsame ↦ ?_
    rw [hsame]
    exact ⟨rfl, rfl, rfl⟩
  | apply settings =>
    rw [obey_apply]
    rcases settings.file with _ | path
    · exact Or.inl rfl
    · refine (hfile path (j.adjusted settings)).imp_right fun hsame ↦ ?_
      rw [hsame]
      exact ⟨rfl, rfl, rfl⟩
  | _ => exact Or.inl rfl

/-! ### Many calls -/

/-- The lines of a destination, in order. -/
def linesTo (destination : Destination) (routed : List (Destination × String)) : List String :=
  (routed.filter (·.1 = destination)).map (·.2)

/-- The lines of one call all have the same destination. -/
theorem linesTo_map_append (destination current : Destination) (lines : List String)
    (rest : List (Destination × String)) :
    linesTo destination (lines.map (current, ·) ++ rest) =
      (if destination = current then lines else []) ++ linesTo destination rest := by
  unfold linesTo
  by_cases hcurrent : destination = current
  · simp [hcurrent, List.filter_map, Function.comp_def]
  · simp [hcurrent, Ne.symm hcurrent, List.filter_map, Function.comp_def]

/-- What calls come to, as long as the current destination exists. -/
theorem destinations_obeyAll (calls : List LogCall) {j : Journal}
    (hexists : j.has j.destination = true) :
    (∀ d, (j.obeyAll calls).textAt d =
      j.textAt d ++ textOf (linesTo d (j.routed j.destination calls))) ∧
    (∀ d, (j.obeyAll calls).has d ↔ j.has d ∨ d ∈ j.selections calls) ∧
    (j.obeyAll calls).destination = (j.selections calls).getLast?.getD j.destination := by
  -- That the current destination exists is what every call has to leave behind for the next one.
  induction calls generalizing j with
  | nil =>
    exact ⟨fun d ↦ String.append_empty.symm, fun d ↦ (or_iff_left List.not_mem_nil).symm, rfl⟩
  | cons call rest ih =>
    have hroutes := routes_obey hexists call
    obtain ⟨htext, hhas, hdestination⟩ := ih (has_destination_obey hexists call)
    refine ⟨fun d ↦ ?_, fun d ↦ ?_, ?_⟩
    · show ((j.obey call).2.obeyAll rest).textAt d = _
      rw [htext, hroutes.textAt, routed, linesTo_map_append, textOf_append, String.append_assoc,
        hroutes.destination]
    · show ((j.obey call).2.obeyAll rest).has d ↔ _
      rw [hhas, hroutes.has, selections, or_assoc, List.mem_append, Option.mem_toList]
    · show ((j.obey call).2.obeyAll rest).destination = _
      rw [hdestination, hroutes.destination, selections]
      rcases j.selected? call with _ | selected
      · rfl
      · rw [Option.toList_some, List.singleton_append, List.getLast?_cons]
        rfl

/-- Every line gets to its destination. Let a host make any calls to a journal that has not been
used. What stands at a destination afterwards, on the console or in a file, is what stood there
before, and then the lines that were written while it was the destination selected last, in order.
The console is where lines go at first. The files are those that there were, and those that were
selected. A call that does not succeed leaves all this as it is. -/
theorem lines_reach_their_destination (store : FileStore) (calls : List LogCall) :
    let fresh : Journal := { store }
    let j := fresh.obeyAll calls
    let routed := fresh.routed .console calls
    (∀ d, j.textAt d = fresh.textAt d ++ textOf (linesTo d routed)) ∧
    (∀ d, j.has d ↔ fresh.has d ∨ d ∈ fresh.selections calls) ∧
    j.destination = (fresh.selections calls).getLast?.getD .console ∧
    ∀ call, (j.obey call).1 = .ok () ∨
      (j.obey call).2.destination = j.destination ∧ (j.obey call).2.console = j.console ∧
        (j.obey call).2.store = j.store := by
  intro fresh j routed
  obtain ⟨htext, hhas, hdestination⟩ :=
    destinations_obeyAll calls (show fresh.has fresh.destination = true from rfl)
  exact ⟨htext, hhas, hdestination, fun call ↦ obey_ok_or_unchanged call j⟩

end Journal

end Mos6502
