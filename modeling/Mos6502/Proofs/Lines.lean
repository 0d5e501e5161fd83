import Mos6502.Log.Settings

/-!
The lines that a journal writes. A message leads to at most two lines: a report of the drops before
it, if one is due, and its own text, if it is admitted. `Journal.ruling` is what the levels and the
limiter decide about a message, and `Journal.log_eq` says that taking a message is writing the lines
of the ruling on it and remembering the ruling in the limiter, and nothing else.

Writing lines adds their text to the destination, wherever that is (`Journal.writeLines_eq_put`).

A `LogCall` is one call of a host to a journal. What it does to the levels and to the limiter
(`Journal.levels_obey`, `Journal.limiter_obey`) is the same whether it succeeds or not.
-/

set_option autoImplicit false

namespace Mos6502

/-- The text of lines as it stands where they are written: each ends with a line break. -/
def textOf : List String → String
  | [] => ""
  | line :: rest => line ++ "\n" ++ textOf rest

theorem textOf_append (lines more : List String) :
    textOf (lines ++ more) = textOf lines ++ textOf more := by
  induction lines with
  | nil => exact String.empty_append.symm
  | cons line rest ih =>
    show line ++ "\n" ++ textOf (rest ++ more) = line ++ "\n" ++ textOf rest ++ textOf more
    rw [ih, ← String.append_assoc]

/-! ### Files -/

namespace FileStore

variable (store : FileStore) (place other : Place)

theorem contents?_append (text : String) :
    (store.append place text).contents? other =
      if other = place then (store.contents? other).map (· ++ text) else store.contents? other := by
  obtain ⟨folders, files⟩ := store
  unfold contents? append
  induction files with
  | nil => simp
  | cons file rest ih =>
    obtain ⟨name, old⟩ := file
    by_cases hname : name = place
    · by_cases hother : other = name
      · subst hname hother
        simp
      · have hlookup : (other == name) = false := beq_false_of_ne hother
        subst hname
        simp only [List.map_cons, if_true, List.lookup_cons, hlookup]
        exact ih
    · by_cases hother : other = name
      · subst hother
        simp [hname]
      · have hlookup : (other == name) = false := beq_false_of_ne hother
        simp only [List.map_cons, if_neg hname, List.lookup_cons, hlookup]
        exact ih

theorem append_append (text more : String) :
    (store.append place text).append place more = store.append place (text ++ more) := by
  simp only [append, List.map_map, FileStore.mk.injEq, true_and]
  apply List.map_congr_left
  intro file _
  by_cases hfile : file.1 = place
  · simp [hfile, String.append_assoc]
  · simp [hfile]

theorem append_empty : store.append place "" = store := by
  obtain ⟨folders, files⟩ := store
  simp [append]

end FileStore

namespace Admission

/-- The ruling on a message that the levels do not let through: the limiter is not asked. -/
def ignored : Admission :=
  ⟨false, none⟩

/-- The lines that a ruling leads to: a report of drops goes first. -/
def lines (category : Category) (message : Unit → String) (ruling : Admission) : List String :=
  (ruling.report.map (Journal.dropReport category)).toList ++
    if ruling.admitted then [message ()] else []

end Admission

namespace Journal

/-! ### Writing -/

/-- Adds text to the destination. -/
def put (text : String) (j : Journal) : Journal :=
  match j.destination with
  | .console => { j with console := j.console ++ text }
  | .file place => { j with store := j.store.append place text }

/-- Writes lines to the destination, one after the other. -/
def writeLines (lines : List String) (j : Journal) : Journal :=
  lines.foldl (fun j line ↦ j.writeLine line) j

theorem writeLine_eq_put (line : String) (j : Journal) :
    j.writeLine line = j.put (line ++ "\n") := by
  rcases hdestination : j.destination with _ | place
  · simp [writeLine, put, hdestination, String.append_assoc]
  · simp [writeLine, put, hdestination]

@[simp] theorem destination_put (text : String) (j : Journal) :
    (j.put text).destination = j.destination := by
  unfold put
  split <;> rfl

@[simp] theorem levels_put (text : String) (j : Journal) : (j.put text).levels = j.levels := by
  unfold put
  split <;> rfl

theorem put_put (text more : String) (j : Journal) :
    (j.put text).put more = j.put (text ++ more) := by
  rcases hdestination : j.destination with _ | place
  · simp [put, hdestination, String.append_assoc]
  · simp [put, hdestination, FileStore.append_append]

theorem put_empty (j : Journal) : j.put "" = j := by
  unfold put
  split
  · rw [String.append_empty]
  · rw [FileStore.append_empty]

/-- Lines that are written stand at the destination, as text. -/
theorem writeLines_eq_put (lines : List String) (j : Journal) :
    j.writeLines lines = j.put (textOf lines) := by
  induction lines generalizing j with
  | nil => exact j.put_empty.symm
  | cons line rest ih =>
    show (j.writeLine line).writeLines rest = _
    rw [ih, writeLine_eq_put, put_put]
    rfl

/-- What a limiter remembers makes no difference to what is written. -/
theorem put_limiter (text : String) (limiter : Limiter) (j : Journal) :
    ({ j with limiter } : Journal).put text = { j.put text with limiter } := by
  unfold put
  rcases j.destination with _ | place
  · rfl
  · rfl

theorem writeLines_limiter (lines : List String) (limiter : Limiter) (j : Journal) :
    ({ j with limiter } : Journal).writeLines lines = { j.writeLines lines with limiter } := by
  rw [writeLines_eq_put, writeLines_eq_put, put_limiter]

/-! ### Messages -/

/-- What is decided about a message of a category and level. -/
def ruling (category : Category) (level : Level) (j : Journal) : Admission :=
  if j.levels.allow category level then (j.limiter.offer category).1 else .ignored

/-- The limiter once a message has been taken. A message that the levels do not let through does not
get to it. -/
def limiterAfter (category : Category) (level : Level) (j : Journal) : Limiter :=
  if j.levels.allow category level then (j.limiter.offer category).2 else j.limiter

variable (category : Category) (level : Level) (message : Unit → String) (j : Journal)

/-- Taking a message is writing the lines of the ruling on it, and remembering the ruling. -/
theorem log_eq :
    j.log category level message =
      { j.writeLines ((j.ruling category level).lines category message) with
        limiter := j.limiterAfter category level } := by
  unfold log logM ruling limiterAfter
  by_cases hallow : j.levels.allow category level = true
  · simp only [if_pos hallow]
    rcases hoffer : j.limiter.offer category with ⟨⟨admitted, report⟩, limiter⟩
    rw [← writeLines_limiter]
    rcases report with _ | count
    · cases admitted <;> rfl
    · cases admitted <;> rfl
  · simp only [if_neg hallow]
    rfl

/-- A message that the levels do not let through changes nothing. -/
theorem log_of_not_allow (hallow : j.levels.allow category level = false) :
    j.log category level message = j :=
  if_neg (Bool.eq_false_iff.mp hallow)

/-- A message whose text has to be asked for is taken like one whose text is there. It is asked for
once if it is admitted, and otherwise not at all, and then it makes no difference. -/
theorem logM_eq {m : Type → Type} [Monad m] (ask : Unit → m String) :
    j.logM category level ask =
      if (j.ruling category level).admitted then do
        let text ← ask ()
        return j.log category level fun _ ↦ text
      else return j.log category level fun _ ↦ "" := by
  unfold log logM ruling
  by_cases hallow : j.levels.allow category level = true
  · simp only [if_pos hallow]
    cases (j.limiter.offer category).1.admitted <;> rfl
  · simp only [if_neg hallow]
    rfl

theorem levels_log : (j.log category level message).levels = j.levels := by
  rw [log_eq, writeLines_eq_put]
  exact levels_put ..

theorem destination_log : (j.log category level message).destination = j.destination := by
  rw [log_eq, writeLines_eq_put]
  exact destination_put ..

theorem limiter_log :
    (j.log category level message).limiter = j.limiterAfter category level := by
  rw [log_eq]

end Journal

/-! ### Calls -/

/-- One call of a host to a journal. -/
inductive LogCall where
  /-- Offers a message. -/
  | log (category : Category) (level : Level) (message : Unit → String)
  | setGeneral (level : Level)
  | setOwn (category : Category) (level : Level)
  /-- Sets every level to `off`. -/
  | silence
  | setLimit (limit : Nat)
  | useFile (path : String)
  | useConsole
  | apply (settings : LogSettings)

namespace LogCall

/-- The levels after a call. -/
def levelsAfter (call : LogCall) (levels : Levels) : Levels :=
  match call with
  | .setGeneral level => { levels with general := level }
  | .setOwn category level => { levels with own := levels.own.set category level }
  | .silence => {}
  | .apply settings => settings.levels
  | _ => levels

/-- The limit that a call sets, if it sets one. -/
def limit? : LogCall → Option Nat
  | .setLimit limit => some limit
  | .apply settings => settings.rateLimit
  | _ => none

end LogCall

namespace Journal

/-- Carries out a call, and answers whether it succeeded. A file that cannot be opened is no
destination; the rest of the settings it came with is applied all the same. -/
def obey (call : LogCall) (j : Journal) : Except OpenFault Unit × Journal :=
  match call with
  | .log category level message => (.ok (), j.log category level message)
  | .setGeneral level => (.ok (), j.setGeneral level)
  | .setOwn category level => (.ok (), j.setOwn category level)
  | .silence => (.ok (), j.silence)
  | .setLimit limit => (.ok (), j.setLimit limit)
  | .useFile path =>
    match j.useFile path with
    | .ok j => (.ok (), j)
    | .error fault => (.error fault, j)
  | .useConsole => (.ok (), j.useConsole)
  | .apply settings => settings.apply j

/-- Carries out calls one after the other, whether or not they succeed. -/
def obeyAll (calls : List LogCall) (j : Journal) : Journal :=
  calls.foldl (fun j call ↦ (j.obey call).2) j

/-- Selecting a file changes the destination and the files, or nothing. -/
theorem obey_useFile (path : String) (j : Journal) :
    (∃ place store, j.store.openFile path = .ok (place, store) ∧
      j.obey (.useFile path) = (.ok (), { j with destination := .file place, store })) ∨
    ∃ fault, j.store.openFile path = .error fault ∧ j.obey (.useFile path) = (.error fault, j) := by
  rcases hopen : j.store.openFile path with fault | ⟨place, store⟩
  · right
    have huse : j.useFile path = .error fault := by rw [useFile, hopen]; rfl
    exact ⟨fault, rfl, by simp only [obey, huse]⟩
  · left
    have huse : j.useFile path = .ok { j with destination := .file place, store } := by
      rw [useFile, hopen]
      rfl
    exact ⟨place, store, rfl, by simp only [obey, huse]⟩

/-- The levels and the limit that settings ask for, whatever becomes of the file. -/
def adjusted (settings : LogSettings) (j : Journal) : Journal :=
  { j with
    levels := settings.levels
    limiter := { j.limiter with limit := settings.rateLimit.getD j.limiter.limit } }

/-- Settings are applied to the levels and the limit first, and then to the destination. -/
theorem obey_apply (settings : LogSettings) (j : Journal) :
    j.obey (.apply settings) = (j.adjusted settings).obey
      (match settings.file with
        | some path => .useFile path
        | none => .useConsole) := by
  show settings.apply j = _
  unfold LogSettings.apply adjusted
  rcases settings.rateLimit with _ | limit <;> rcases settings.file with _ | path <;> rfl

/-- What a call does to the levels does not depend on whether it succeeds. -/
theorem levels_obey (call : LogCall) (j : Journal) :
    (j.obey call).2.levels = call.levelsAfter j.levels := by
  have hfile (path : String) (k : Journal) : (k.obey (.useFile path)).2.levels = k.levels := by
    rcases k.obey_useFile path with ⟨place, store, -, hobey⟩ | ⟨fault, -, hobey⟩ <;> rw [hobey]
  cases call with
  | log category level message => exact levels_log ..
  | useFile path => exact hfile path j
  | apply settings =>
    rw [obey_apply]
    rcases settings.file with _ | path
    · rfl
    · exact hfile path (j.adjusted settings)
  | _ => rfl

/-- The limiter counts messages, and all that other calls do to it is to set its limit. -/
theorem limiter_obey (call : LogCall) (j : Journal) :
    (j.obey call).2.limiter =
      match call with
      | .log category level _ => j.limiterAfter category level
      | call => { j.limiter with limit := call.limit?.getD j.limiter.limit } := by
  have hfile (path : String) (k : Journal) : (k.obey (.useFile path)).2.limiter = k.limiter := by
    rcases k.obey_useFile path with ⟨place, store, -, hobey⟩ | ⟨fault, -, hobey⟩ <;> rw [hobey]
  cases call with
  | log category level message => exact limiter_log ..
  | useFile path => exact hfile path j
  | apply settings =>
    rw [obey_apply]
    rcases settings.file with _ | path
    · rfl
    · exact hfile path (j.adjusted settings)
  | _ => rfl

end Journal

end Mos6502
