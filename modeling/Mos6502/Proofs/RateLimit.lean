import Mathlib.Algebra.GroupWithZero.Nat
import Mos6502.Proofs.Lines
import Mos6502.Proofs.Messages

/-!
What the rate limit does to the messages of one category, in terms of what has become of the earlier
ones. `Journal.rulings` lists the rulings on those messages of a category that the levels let
through while a host makes calls. The tally that the limiter keeps follows from that list
(`Tally.Follows`), so the next ruling does, too: it is `Rulings.next`, under the limit that was set
last (`Journal.limiter_keeps_account`). What is written for a message is what the ruling on it leads
to (`Admission.LeadsTo`), and a report there shows the count that the ruling has.

A category depends on the calls through its `Outlook` alone, and the messages of other categories do
not change that.
-/

set_option autoImplicit false

namespace Mos6502

/-- What has been decided about messages, in order. -/
abbrev Rulings := List Admission

namespace Rulings

/-- How many messages were admitted. -/
def admitted (past : Rulings) : Nat :=
  past.countP (·.admitted)

/-- The sum of the counts that were reported. -/
def reported (past : Rulings) : Nat :=
  (past.filterMap (·.report)).sum

/-- How many messages were dropped after the last report. -/
def unreported (past : Rulings) : Nat :=
  (past.reverse.takeWhile (·.report.isNone)).countP (!·.admitted)

/-- What is decided about the next message. It is admitted if fewer messages have been than the
limit says, and then reports the drops that have not been reported. If it is the first message that
is not admitted, it reports itself. -/
def next (limit : Nat) (past : Rulings) : Admission :=
  if past.admitted < limit then
    ⟨true, if past.unreported = 0 then none else some past.unreported⟩
  else
    ⟨false, if past.all (·.admitted) then some 1 else none⟩

variable (past : Rulings) (ruling : Admission)

theorem admitted_concat :
    admitted (past ++ [ruling]) = past.admitted + if ruling.admitted then 1 else 0 := by
  unfold admitted
  rw [List.countP_append, List.countP_singleton]

theorem reported_concat :
    reported (past ++ [ruling]) = past.reported + ruling.report.getD 0 := by
  unfold reported
  rcases hreport : ruling.report with _ | count
  · simp [hreport]
  · simp [hreport]

theorem unreported_concat :
    unreported (past ++ [ruling]) =
      if ruling.report.isSome then 0 else past.unreported + if ruling.admitted then 0 else 1 := by
  unfold unreported
  rw [List.reverse_concat, List.takeWhile_cons]
  rcases hreport : ruling.report with _ | count
  · cases hadmitted : ruling.admitted <;> simp [hadmitted]
  · simp

/-- Without drops, there is nothing to report. -/
theorem unreported_of_all_admitted {past : Rulings} (hall : past.all (·.admitted) = true) :
    past.unreported = 0 := by
  unfold unreported
  rw [List.countP_eq_zero]
  intro ruling hruling
  have hmem : ruling ∈ past := List.mem_reverse.mp ((List.takeWhile_sublist _).mem hruling)
  have hadmitted : ruling.admitted = true := List.all_eq_true.mp hall ruling hmem
  simp [hadmitted]

end Rulings

/-! ### Tallies -/

namespace Tally

variable (limit : Nat) (t : Tally)

/-- What becomes of a message: it is admitted, without or with a report, or it is dropped, after the
first report or with it. -/
theorem offer_cases :
    (t.admitted < limit ∧ t.dropped = 0 ∧
      t.offer limit = (⟨true, none⟩, { t with admitted := t.admitted + 1 })) ∨
    (t.admitted < limit ∧ t.dropped ≠ 0 ∧
      t.offer limit = (⟨true, some t.dropped⟩, ⟨t.admitted + 1, 0, true⟩)) ∨
    (¬t.admitted < limit ∧ t.reported = true ∧
      t.offer limit = (⟨false, none⟩, { t with dropped := t.dropped + 1 })) ∨
    (¬t.admitted < limit ∧ t.reported = false ∧
      t.offer limit = (⟨false, some (t.dropped + 1)⟩, ⟨t.admitted, 0, true⟩)) := by
  unfold offer
  by_cases hroom : t.admitted < limit
  · rw [if_pos hroom]
    by_cases hdropped : t.dropped = 0
    · exact Or.inl ⟨hroom, hdropped, if_pos hdropped⟩
    · exact Or.inr (Or.inl ⟨hroom, hdropped, if_neg hdropped⟩)
  · rw [if_neg hroom]
    by_cases hreported : t.reported = true
    · exact Or.inr (Or.inr (Or.inl ⟨hroom, hreported, if_pos hreported⟩))
    · exact Or.inr (Or.inr (Or.inr ⟨hroom, Bool.eq_false_iff.mpr hreported, if_neg hreported⟩))

theorem admitted_offer :
    (t.offer limit).2.admitted = t.admitted + if (t.offer limit).1.admitted then 1 else 0 := by
  rcases t.offer_cases limit with
    ⟨-, -, hoffer⟩ | ⟨-, -, hoffer⟩ | ⟨-, -, hoffer⟩ | ⟨-, -, hoffer⟩ <;> rw [hoffer] <;> rfl

/-- A report covers all drops, that of its own message included. -/
theorem dropped_offer :
    (t.offer limit).2.dropped =
      if (t.offer limit).1.report.isSome then 0
      else t.dropped + if (t.offer limit).1.admitted then 0 else 1 := by
  rcases t.offer_cases limit with
    ⟨-, -, hoffer⟩ | ⟨-, -, hoffer⟩ | ⟨-, -, hoffer⟩ | ⟨-, -, hoffer⟩ <;> rw [hoffer] <;> rfl

/-- What is dropped is reported or remembered. -/
theorem dropped_add_report_offer :
    (t.offer limit).2.dropped + (t.offer limit).1.report.getD 0 =
      t.dropped + if (t.offer limit).1.admitted then 0 else 1 := by
  rcases t.offer_cases limit with
    ⟨-, -, hoffer⟩ | ⟨-, -, hoffer⟩ | ⟨-, -, hoffer⟩ | ⟨-, -, hoffer⟩ <;> rw [hoffer] <;> simp

/-- A tally that has counted the rulings of the past. Every message of the past is accounted for: it
was admitted, or is in a report, or is waiting for one. -/
structure Follows (past : Rulings) (t : Tally) : Prop where
  admitted : t.admitted = past.admitted
  dropped : t.dropped = past.unreported
  reported : t.reported = !past.all (·.admitted)
  balance : past.length = past.admitted + past.reported + past.unreported

namespace Follows

theorem start : Follows [] {} where
  admitted := rfl
  dropped := rfl
  reported := rfl
  balance := rfl

variable {past : Rulings} {t : Tally}

theorem all_admitted (h : t.Follows past) : past.all (·.admitted) = !t.reported := by
  rw [h.reported, Bool.not_not]

/-- Before the first report, there are no drops. -/
theorem dropped_of_not_reported (h : t.Follows past) (hreported : t.reported = false) :
    t.dropped = 0 :=
  h.dropped.trans (Rulings.unreported_of_all_admitted (by rw [h.all_admitted, hreported]; rfl))

/-- The past decides what a tally leads to. -/
theorem fst_offer (h : t.Follows past) (limit : Nat) : (t.offer limit).1 = past.next limit := by
  unfold Rulings.next
  rw [← h.admitted, ← h.dropped, h.all_admitted]
  rcases t.offer_cases limit with ⟨hroom, hdropped, hoffer⟩ | ⟨hroom, hdropped, hoffer⟩ |
      ⟨hfull, hreported, hoffer⟩ | ⟨hfull, hreported, hoffer⟩
  · rw [hoffer, if_pos hroom, if_pos hdropped]
  · rw [hoffer, if_pos hroom, if_neg hdropped]
  · rw [hoffer, if_neg hfull, hreported]
    rfl
  · rw [hoffer, if_neg hfull, hreported, h.dropped_of_not_reported hreported]
    rfl

/-- Drops have been reported after a message if they were before it, or if it is dropped itself. -/
theorem reported_offer (h : t.Follows past) (limit : Nat) :
    (t.offer limit).2.reported = (t.reported || !(t.offer limit).1.admitted) := by
  rcases t.offer_cases limit with ⟨-, -, hoffer⟩ | ⟨-, hdropped, hoffer⟩ |
      ⟨-, hreported, hoffer⟩ | ⟨-, -, hoffer⟩
  · rw [hoffer]
    exact (Bool.or_false _).symm
  -- A report with an admitted message is never the first: the drops it covers came after that one.
  · rcases hreported : t.reported with _ | _
    · exact absurd (h.dropped_of_not_reported hreported) hdropped
    · rw [hoffer]
      rfl
  · rw [hoffer, hreported]
    rfl
  · rw [hoffer]
    exact (Bool.or_true _).symm

/-- A tally goes on following what it leads to. -/
theorem offer (h : t.Follows past) (limit : Nat) :
    (t.offer limit).2.Follows (past ++ [(t.offer limit).1]) where
  admitted := by rw [admitted_offer, Rulings.admitted_concat, h.admitted]
  dropped := by rw [dropped_offer, Rulings.unreported_concat, h.dropped]
  reported := by
    rw [h.reported_offer, h.reported, List.all_append]
    simp
  balance := by
    have hbalance := h.balance
    have hdropped := dropped_add_report_offer limit t
    rw [dropped_offer, h.dropped, ← Rulings.unreported_concat] at hdropped
    rw [List.length_append, Rulings.admitted_concat, Rulings.reported_concat]
    by_cases hadmitted : (t.offer limit).1.admitted = true
    · rw [if_pos hadmitted] at hdropped ⊢
      simp only [List.length_singleton]
      omega
    · rw [if_neg hadmitted] at hdropped ⊢
      simp only [List.length_singleton]
      omega

end Follows

end Tally

/-! ### Calls and categories -/

/-- Whether a call may make a difference to a category: all do but the messages of other categories.
-/
def LogCall.concerns (category : Category) : LogCall → Bool
  | .log other _ _ => other = category
  | _ => true

/-- All that the messages of a category depend on. -/
structure Outlook where
  levels : Levels
  limit : Nat
  tally : Tally

namespace Outlook

/-- The ruling on a call, if it is a message of the category that the levels let through. -/
def ruling? (category : Category) (call : LogCall) (o : Outlook) : Option Admission :=
  match call with
  | .log other level _ =>
    if other = category ∧ o.levels.allow other level then some (o.tally.offer o.limit).1 else none
  | _ => none

/-- The outlook of a category after a call. -/
def after (category : Category) (call : LogCall) (o : Outlook) : Outlook where
  levels := call.levelsAfter o.levels
  limit := call.limit?.getD o.limit
  tally := if (o.ruling? category call).isSome then (o.tally.offer o.limit).2 else o.tally

variable {category : Category} {call : LogCall}

/-- A message of another category is not ruled on. -/
theorem ruling?_of_not_concerns (hconcerns : call.concerns category = false) (o : Outlook) :
    o.ruling? category call = none := by
  cases call with
  | log other level message =>
    have hother : ¬other = category := by simpa [LogCall.concerns] using hconcerns
    exact if_neg fun h ↦ hother h.1
  | _ => rfl

/-- A message of another category changes nothing for this one. -/
theorem after_of_not_concerns (hconcerns : call.concerns category = false) (o : Outlook) :
    o.after category call = o := by
  have hruling := ruling?_of_not_concerns hconcerns o
  cases call with
  | log other level message => rw [after, hruling]; rfl
  | _ => exact Bool.noConfusion hconcerns

/-- A tally follows the rulings of the past, and the one on a call if there is one. -/
theorem follows_after {past : Rulings} {o : Outlook} (h : o.tally.Follows past)
    (category : Category) (call : LogCall) :
    (o.after category call).tally.Follows (past ++ (o.ruling? category call).toList) := by
  unfold after
  rcases hruling : o.ruling? category call with _ | ruling
  · rw [Option.toList_none, List.append_nil]
    exact h
  · have hoffer : (o.tally.offer o.limit).1 = ruling := by
      cases call with
      | log other level message =>
        obtain ⟨-, hsome⟩ := Option.ite_none_right_eq_some.mp hruling
        exact Option.some.inj hsome
      | _ => cases hruling
    rw [← hoffer]
    exact h.offer o.limit

end Outlook

namespace Journal

/-- The outlook of a category. -/
def outlook (category : Category) (j : Journal) : Outlook where
  levels := j.levels
  limit := j.limiter.limit
  tally := j.limiter.tallies.get category

/-- The ruling on a call, if it is a message of a category and the levels let it through. -/
def ruling? (category : Category) (call : LogCall) (j : Journal) : Option Admission :=
  match call with
  | .log other level _ =>
    if other = category ∧ j.levels.allow other level then some (j.ruling other level) else none
  | _ => none

/-- The rulings on the messages of a category that the levels let through, while calls are made. -/
def rulings (category : Category) : List LogCall → Journal → Rulings
  | [], _ => []
  | call :: rest, j => (j.ruling? category call).toList ++ rulings category rest (j.obey call).2

theorem ruling?_eq (category : Category) (call : LogCall) (j : Journal) :
    j.ruling? category call = (j.outlook category).ruling? category call := by
  cases call with
  | log other level message =>
    by_cases hruled : other = category ∧ j.levels.allow other level
    · obtain ⟨rfl, hallow⟩ := hruled
      have hoffer : j.ruling other level = (j.limiter.offer other).1 := if_pos hallow
      simp only [ruling?, Outlook.ruling?, outlook, hallow, hoffer]
      rfl
    · exact (if_neg hruled).trans (if_neg hruled).symm
  | _ => rfl

/-- What a call does to a category is a matter of its outlook. -/
theorem outlook_obey (category : Category) (call : LogCall) (j : Journal) :
    (j.obey call).2.outlook category = (j.outlook category).after category call := by
  unfold outlook Outlook.after
  rw [levels_obey, limiter_obey]
  cases call with
  | log other level message =>
    by_cases hallow : j.levels.allow other level = true
    · have hlimiter : j.limiterAfter other level = (j.limiter.offer other).2 := if_pos hallow
      by_cases hcategory : category = other
      · subst hcategory
        simp [hlimiter, hallow, Limiter.offer, Outlook.ruling?, LogCall.limit?]
      · simp [hlimiter, hcategory, Ne.symm hcategory, Limiter.offer, Outlook.ruling?,
          LogCall.limit?]
    · have hlimiter : j.limiterAfter other level = j.limiter := if_neg hallow
      simp [hlimiter, hallow, Outlook.ruling?, LogCall.limit?]
  | _ => rfl

/-- The tally of a category follows the rulings on its messages. -/
theorem follows_obeyAll {past : Rulings} {category : Category} (calls : List LogCall) {j : Journal}
    (h : (j.outlook category).tally.Follows past) :
    ((j.obeyAll calls).outlook category).tally.Follows (past ++ j.rulings category calls) := by
  induction calls generalizing past j with
  | nil =>
    rw [rulings, List.append_nil]
    exact h
  | cons call rest ih =>
    have hstep := Outlook.follows_after h category call
    rw [← outlook_obey, ← ruling?_eq] at hstep
    have hrest := ih hstep
    rw [List.append_assoc] at hrest
    exact hrest

/-- The rulings on a category depend on its outlook, and on the calls that concern it. -/
theorem rulings_of_outlook_eq {category : Category} (calls : List LogCall) {j k : Journal}
    (houtlook : k.outlook category = j.outlook category) :
    k.rulings category (calls.filter (·.concerns category)) = j.rulings category calls := by
  induction calls generalizing j k with
  | nil => rfl
  | cons call rest ih =>
    -- A call that concerns the category is made on both sides, any other only with `j`.
    by_cases hconcerns : call.concerns category = true
    · have hnext : (k.obey call).2.outlook category = (j.obey call).2.outlook category := by
        rw [outlook_obey, outlook_obey, houtlook]
      rw [List.filter_cons_of_pos hconcerns, rulings, rulings, ruling?_eq, ruling?_eq, houtlook,
        ih hnext]
    · have hnone := Bool.eq_false_iff.mpr hconcerns
      rw [List.filter_cons_of_neg hconcerns, rulings, ruling?_eq,
        Outlook.ruling?_of_not_concerns hnone]
      exact ih (by rw [outlook_obey, Outlook.after_of_not_concerns hnone, houtlook])

theorem rulings_append (category : Category) (calls more : List LogCall) (j : Journal) :
    j.rulings category (calls ++ more) =
      j.rulings category calls ++ (j.obeyAll calls).rulings category more := by
  induction calls generalizing j with
  | nil => rfl
  | cons call rest ih =>
    rw [List.cons_append, rulings, rulings, ih, List.append_assoc]
    rfl

/-- A message is ruled on if the levels let it through. -/
theorem rulings_singleton (category : Category) (level : Level) (message : Unit → String)
    (j : Journal) :
    j.rulings category [.log category level message] =
      if j.levels.allow category level then [j.ruling category level] else [] := by
  rw [rulings, rulings, List.append_nil, ruling?]
  by_cases hallow : j.levels.allow category level = true
  · rw [if_pos ⟨rfl, hallow⟩, if_pos hallow]
    rfl
  · rw [if_neg fun h ↦ hallow h.2, if_neg hallow]
    rfl

/-- The limit in force is the last one that was set. -/
theorem limit_obeyAll (calls : List LogCall) (j : Journal) :
    (j.obeyAll calls).limiter.limit =
      (calls.filterMap LogCall.limit?).getLast?.getD j.limiter.limit := by
  induction calls generalizing j with
  | nil => rfl
  | cons call rest ih =>
    have hlimit : (j.obey call).2.limiter.limit = call.limit?.getD j.limiter.limit :=
      congrArg Outlook.limit (outlook_obey .cpu call j)
    show ((j.obey call).2.obeyAll rest).limiter.limit = _
    rw [ih, hlimit, List.filterMap_cons]
    rcases call.limit? with _ | limit
    · rfl
    · rw [List.getLast?_cons]
      rfl

end Journal

/-! ### What is written -/

/-- The lines that a ruling on a message leads to. Drops that are due are reported right before the
text of the message if that is admitted, and by themselves if it is not. -/
inductive Admission.LeadsTo (category : Category) (text : String) :
    Admission → List String → Prop where
  | admitted : LeadsTo category text ⟨true, none⟩ [text]
  | admittedAfterDrops {count : Nat} {report : String}
    (hreport : ReportsDrops category count report) :
    LeadsTo category text ⟨true, some count⟩ [report, text]
  | dropped : LeadsTo category text ⟨false, none⟩ []
  | droppedWithReport {count : Nat} {report : String}
    (hreport : ReportsDrops category count report) :
    LeadsTo category text ⟨false, some count⟩ [report]

theorem Admission.leadsTo_lines (category : Category) (message : Unit → String)
    (ruling : Admission) :
    ruling.LeadsTo category (message ()) (ruling.lines category message) := by
  rcases ruling with ⟨_ | _, _ | count⟩
  · exact .dropped
  · exact .droppedWithReport (Journal.reports_dropReport category count)
  · exact .admitted
  · exact .admittedAfterDrops (Journal.reports_dropReport category count)

namespace Journal

/-- The limiter keeps account of every message. Let a host make any calls to a journal that has not
been used, and look at the messages of one category that the levels let through. What is decided
about each follows from what has been decided about those before it, and from the limit that was set
last. The lines that the ruling on the next message leads to are added to the destination, and
nothing else changes but the limiter; a message that the levels do not let through changes nothing. A
text that has to be asked for is asked for once if its message is admitted, and otherwise not at all.
All messages so far are either admitted, or counted in a report, or dropped since the last one, and
the messages of other categories make no difference to any of this. -/
theorem limiter_keeps_account (store : FileStore) (calls : List LogCall) (category : Category) :
    let fresh : Journal := { store }
    let j := fresh.obeyAll calls
    let past := fresh.rulings category calls
    let limit := (calls.filterMap LogCall.limit?).getLast?.getD Limiter.defaultLimit
    (∀ (level : Level) (message : Unit → String),
      fresh.rulings category (calls ++ [.log category level message]) =
        past ++ if j.levels.allow category level then [past.next limit] else []) ∧
    (∀ (level : Level) (message : Unit → String),
      let after := j.log category level message
      (j.levels.allow category level = true →
        ∃ lines, (past.next limit).LeadsTo category (message ()) lines ∧
          after = { j.put (textOf lines) with limiter := after.limiter }) ∧
      (j.levels.allow category level = false → after = j)) ∧
    (∀ {m : Type → Type} [Monad m] (level : Level) (ask : Unit → m String),
      j.logM category level ask =
        if j.levels.allow category level ∧ (past.next limit).admitted then do
          let text ← ask ()
          return j.log category level fun _ ↦ text
        else return j.log category level fun _ ↦ "") ∧
    past.length = past.admitted + past.reported + past.unreported ∧
    fresh.rulings category (calls.filter (·.concerns category)) = past := by
  intro fresh j past limit
  have hstart : (fresh.outlook category).tally.Follows [] := by
    cases category <;> exact Tally.Follows.start
  have hfollows : (j.outlook category).tally.Follows past := follows_obeyAll calls hstart
  have hruling (level : Level) : j.ruling category level =
      if j.levels.allow category level then past.next limit else .ignored := by
    have hlimit : j.limiter.limit = limit := limit_obeyAll calls fresh
    rw [← hlimit, ← hfollows.fst_offer]
    rfl
  refine ⟨fun level message ↦ ?_, fun level message ↦ ⟨fun hallow ↦ ?_, fun hallow ↦ ?_⟩,
    fun level ask ↦ ?_, hfollows.balance, rulings_of_outlook_eq calls rfl⟩
  · rw [rulings_append, rulings_singleton]
    by_cases hallow : j.levels.allow category level = true
    · rw [if_pos hallow, if_pos hallow, hruling, if_pos hallow]
    · rw [if_neg hallow, if_neg hallow]
  · have hnext : j.ruling category level = past.next limit := by rw [hruling, if_pos hallow]
    refine ⟨_, (past.next limit).leadsTo_lines category message, ?_⟩
    rw [log_eq, hnext, writeLines_eq_put]
  · exact log_of_not_allow category level message j hallow
  · rw [logM_eq, hruling]
    by_cases hallow : j.levels.allow category level = true
    · simp only [hallow, if_true, true_and]
    · have hnone : ¬(j.levels.allow category level = true ∧ (past.next limit).admitted = true) :=
        fun h ↦ hallow h.1
      rw [if_neg hallow, if_neg hnone]
      rfl

/-- Under a limit of one, the first drop is reported at once, and the second with the next message
that is admitted. -/
example :
    let message : LogCall := .log .cpu .info fun _ ↦ "message"
    Journal.rulings .cpu
        [.setGeneral .info, .setLimit 1, message, message, message, .setLimit 2, message] {} =
      [⟨true, none⟩, ⟨false, some 1⟩, ⟨false, none⟩, ⟨true, some 1⟩] := by
  decide

end Journal

end Mos6502
