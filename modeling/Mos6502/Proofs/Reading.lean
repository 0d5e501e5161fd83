import Mos6502.Json.Reader.Record
import Mos6502.Proofs.Layout

/-!
Reading data from its tokens. `Reader.Reads` says that a reader makes the same of some tokens wherever
the blanks between them are and whatever follows. It holds of the readers for truth values, numbers,
texts and names on the tokens that a printer writes for them.

A record is read from an object member by member. An `Entry` is a member of an object that is read:
one that sets a field, or another one, which is skipped. If every member of the first kind sets its
field (`Reader.Sets`) and none occurs twice, what is read is given by those members alone, and by
neither the order of the others nor what they hold (`Reader.reads_record`).
-/

set_option autoImplicit false

namespace Mos6502.Json

namespace Reader

variable {α β σ : Type}

/-! ### Tokens of a text -/

theorem apart_of_isBlank {b : Char} (hb : isBlank b = true) :
    b.isDigit = false ∧ b ≠ '.' ∧ b ≠ 'e' ∧ b ≠ 'E' := by
  simp only [isBlank, Bool.or_eq_true, beq_iff_eq] at hb
  obtain ((rfl | rfl) | rfl) | rfl := hb <;> decide

/-- No numeral goes on in blanks, nor in what follows them if it does not go on there. -/
theorem apart_append {blanks rest : List Char} (hblanks : ∀ b ∈ blanks, isBlank b = true)
    (hrest : Apart rest) : Apart (blanks ++ rest) := by
  cases blanks with
  | nil => exact hrest
  | cons b blanks =>
    rintro c ⟨⟩
    exact apart_of_isBlank (hblanks b List.mem_cons_self)

namespace LaidOut

variable {text rest : List Char} {tokens : List (List Char)}

/-- A numeral ends in front of a comma or a brace. -/
theorem apart {c : Char} (hc : c = ',' ∨ c = '\x7d') (hlaid : LaidOut ([c] :: tokens) text rest) :
    Apart text := by
  cases hlaid with
  | cons hblanks htokens =>
    refine apart_append hblanks ?_
    rintro d ⟨⟩
    obtain rfl | rfl := hc <;> decide

/-- What is seen first, and what is left from there. -/
theorem exists_peek {c : Char} {cs : List Char} (hc : isBlank c = false)
    (hlaid : LaidOut ((c :: cs) :: tokens) text rest) :
    ∃ others, peek text = .ok (c, c :: cs ++ others) ∧ LaidOut tokens others rest := by
  cases hlaid with
  | @cons _ _ others _ _ hblanks htokens => exact ⟨others, peek_append hblanks hc _, htokens⟩

/-- What is seen first if there is only one token. -/
theorem peek_single {c : Char} {cs : List Char} (hc : isBlank c = false)
    (hlaid : LaidOut [c :: cs] text rest) : peek text = .ok (c, c :: cs ++ rest) := by
  obtain ⟨others, hpeek, hnil⟩ := hlaid.exists_peek hc
  cases hnil
  exact hpeek

theorem exists_punctuation {c : Char} (hc : isBlank c = false)
    (hlaid : LaidOut ([c] :: tokens) text rest) :
    ∃ others, punctuation c text = .ok ((), others) ∧ LaidOut tokens others rest := by
  obtain ⟨others, hpeek, hothers⟩ := hlaid.exists_peek hc
  refine ⟨others, ?_, hothers⟩
  rw [punctuation, bind_of_ok hpeek, if_pos rfl]
  rfl

end LaidOut

/-! ### Values -/

/-- A reader makes something of tokens, wherever the blanks between them are and whatever follows. -/
def Reads (reader : Reader α) (tokens : List (List Char)) (a : α) : Prop :=
  ∀ text rest : List Char, LaidOut tokens text rest → Apart rest → reader text = .ok (a, rest)

theorem Reads.map {reader : Reader α} {tokens : List (List Char)} {a : α}
    (hreads : Reads reader tokens a) (f : α → β) : Reads (f <$> reader) tokens (f a) :=
  fun _ _ hlaid hrest ↦ map_of_ok (hreads _ _ hlaid hrest) f

theorem reads_boolean (b : Bool) : Reads boolean (Value.bool b).tokens b := by
  intro text rest hlaid hrest
  cases b with
  | true =>
    refine (bind_of_ok (hlaid.peek_single rfl) _).trans ?_
    exact bind_of_ok (expect_append ['t', 'r', 'u', 'e'] rest) _
  | false =>
    refine (bind_of_ok (hlaid.peek_single rfl) _).trans ?_
    exact bind_of_ok (expect_append ['f', 'a', 'l', 's', 'e'] rest) _

theorem reads_text (expected s : String) : Reads (text expected) (Value.string s).tokens s := by
  intro text rest hlaid hrest
  refine (bind_of_ok (hlaid.peek_single rfl) _).trans ?_
  exact string_append (isText_escapedString s) rest

/-- A known name is read from a string. -/
theorem reads_variant (known : List String) {ofName? : String → Option α} {name : String} {a : α}
    (hname : ofName? name = some a) :
    Reads (variant known ofName?) (Value.string name).tokens a := by
  intro text rest hlaid hrest
  refine (bind_of_ok (hlaid.peek_single rfl) _).trans ?_
  refine (bind_of_ok (string_append (isText_escapedString name) rest) _).trans ?_
  simp only [hname]
  rfl

theorem tokens_int (n : Nat) : (Value.int n).tokens = [Nat.toDigits 10 n] :=
  congrArg (fun digits ↦ [digits]) Nat.toList_repr

/-- A natural number that fits into 64 bits is read. -/
theorem reads_natural (expected : String) {n : Nat} (hn : n < UInt64.size) :
    Reads (natural expected) (Value.int n).tokens n := by
  intro text rest hlaid hrest
  rw [tokens_int] at hlaid
  have hnumber := number_toDigits_append hn hrest
  have hdigits := areDigits_toDigits n
  obtain ⟨c, cs, hcs⟩ := List.exists_cons_of_ne_nil hdigits.ne_nil
  rw [hcs] at hlaid hnumber hdigits
  have hc : c = '-' ∨ c.isDigit = true := .inr (hdigits.isDigit c List.mem_cons_self)
  rw [natural, bind_of_ok (hlaid.peek_single (ne_of_begins_numeral hc).1), if_pos hc,
    bind_of_ok hnumber]
  rfl

/-- The word for nothing is read as nothing. -/
theorem reads_optional_null (reader : Reader α) : Reads (optional reader) Value.null.tokens none := by
  intro text rest hlaid hrest
  refine (bind_of_ok (hlaid.peek_single rfl) _).trans ?_
  exact bind_of_ok (expect_append ['n', 'u', 'l', 'l'] rest) _

/-- What is not the word for nothing is read as something. -/
theorem reads_optional {reader : Reader α} {c : Char} {cs : List Char} {a : α}
    (hc : isBlank c = false) (hn : c ≠ 'n') (hreads : Reads reader [c :: cs] a) :
    Reads (optional reader) [c :: cs] (some a) := by
  intro text rest hlaid hrest
  have hread : reader (c :: cs ++ rest) = .ok (a, rest) := hreads _ _ (.token (.nil rest)) hrest
  rw [optional, bind_of_ok (hlaid.peek_single hc)]
  split
  · exact absurd rfl hn
  · exact map_of_ok hread some

/-! ### Members of objects -/

namespace LaidOut

variable {name text rest : List Char} {s : String} {tokens : List (List Char)}

/-- In front of its name, the first member of an object is seen to follow. -/
theorem exists_moreMembers_first (hname : IsText IsNumbered name s)
    (hlaid : LaidOut (name :: tokens) text rest) :
    ∃ others, moreMembers true text = .ok (true, name ++ others) ∧ LaidOut tokens others rest := by
  cases hname with
  | @quoted body s hbody =>
    obtain ⟨others, hpeek, hothers⟩ := hlaid.exists_peek rfl
    have hagain : peek ('"' :: (body ++ ['"'] ++ others)) =
        .ok ('"', '"' :: (body ++ ['"'] ++ others)) :=
      peek_append (List.forall_mem_nil _) rfl _
    refine ⟨others, ?_, hothers⟩
    refine (bind_of_ok hpeek _).trans ?_
    exact bind_of_ok hagain _

/-- In front of a comma and its name, another member is seen to follow. -/
theorem exists_moreMembers_next (hname : IsText IsNumbered name s)
    (hlaid : LaidOut ([','] :: name :: tokens) text rest) :
    ∃ others, moreMembers false text = .ok (true, name ++ others) ∧ LaidOut tokens others rest := by
  obtain ⟨behind, hcomma, hbehind⟩ := hlaid.exists_peek rfl
  cases hname with
  | @quoted body s hbody =>
    obtain ⟨others, hpeek, hothers⟩ := hbehind.exists_peek rfl
    refine ⟨others, ?_, hothers⟩
    refine (bind_of_ok hcomma _).trans ?_
    refine (bind_of_ok (discard_next_cons ',' behind) _).trans ?_
    exact bind_of_ok hpeek _

/-- In front of a brace, no member is seen to follow. -/
theorem moreMembers_end (first : Bool) (hlaid : LaidOut [['\x7d']] text rest) :
    moreMembers first text = .ok (false, rest) := by
  refine (bind_of_ok (hlaid.peek_single rfl) _).trans ?_
  exact bind_of_ok (discard_next_cons '\x7d' rest) _

end LaidOut

end Reader

/-- A member of an object that is read as a record: one of the record's own, or one that was added. -/
inductive Entry (α : Type) where
  | own (name : String) (value : α)
  | added (name value : List Char)

namespace Entry

variable {α : Type}

/-- The name and the value of a member that is one of the record's own. -/
def own? : Entry α → Option (String × α)
  | own name value => some (name, value)
  | added _ _ => none

/-- The name as it stands in the text. -/
def title : Entry α → List Char
  | own name _ => escapedString name
  | added name _ => name

/-- The tokens of the value, given those of the record's own values. -/
def content (tokens : α → List (List Char)) : Entry α → List (List Char)
  | own _ value => tokens value
  | added _ value => [value]

/-- The tokens of the member. -/
def tokens (tokens : α → List (List Char)) (e : Entry α) : List (List Char) :=
  memberTokens e.title (e.content tokens)

/-- The tokens of members that are left, each behind a comma, and of the end of the object. -/
def remaining (tokens : α → List (List Char)) (entries : List (Entry α)) : List (List Char) :=
  (entries.map (Entry.tokens tokens)).flatMap ([','] :: ·) ++ [['\x7d']]

theorem remaining_cons (tokens : α → List (List Char)) (e : Entry α) (entries : List (Entry α)) :
    remaining tokens (e :: entries) =
      [','] :: e.title :: [':'] :: (e.content tokens ++ remaining tokens entries) := by
  simp [remaining, Entry.tokens, memberTokens]

theorem filterMap_own?_cons (e : Entry α) (entries : List (Entry α)) :
    (e :: entries).filterMap own? = e.own?.toList ++ entries.filterMap own? := by
  cases e <;> rfl

end Entry

namespace Reader

section

variable {α σ : Type} (fields : List (Field σ)) (tokens : α → List (List Char))
  (built : List (String × α) → σ)

/-- A member sets a field: `built` says what record there is once some members have been read, and
the value of the member makes of it the one for a member more. -/
def Sets (name : String) (value : α) : Prop :=
  ∃ field change, fields.find? (·.name == name) = some field ∧
    Reads field.read (tokens value) change ∧
    ∀ taken, name ∉ taken.map Prod.fst → change (built taken) = built (taken ++ [(name, value)])

/-- A member either sets a field, or has a name that no field has and a value that can be skipped. -/
inductive Fits : Entry α → Prop where
  | own {name : String} {value : α} (hsets : Sets fields tokens built name value) :
      Fits (.own name value)
  | added {name value : List Char} {s : String} (hname : IsText IsNumbered name s)
      (hunknown : fields.find? (·.name == s) = none) (hvalue : IsScalar value) :
      Fits (.added name value)

variable {fields tokens built}

theorem Fits.exists_isText {e : Entry α} (hfits : Fits fields tokens built e) :
    ∃ s, IsText IsNumbered e.title s := by
  cases hfits with
  | own hsets => exact ⟨_, isText_escapedString _⟩
  | added hname => exact ⟨_, hname⟩

/-- No numeral goes on where another member or the end follows. -/
theorem LaidOut.apart_of_remaining {entries : List (Entry α)} {text rest : List Char}
    (hlaid : LaidOut (Entry.remaining tokens entries) text rest) : Apart text := by
  cases entries with
  | nil => exact hlaid.apart (.inr rfl)
  | cons e entries => exact hlaid.apart (.inl rfl)

/-- Once a member is seen to follow, it is read or skipped, and the others are left. -/
theorem exists_fieldsByName_eq {e : Entry α} (hfits : Fits fields tokens built e)
    {entries : List (Entry α)} {taken : List (String × α)}
    (hfresh : ∀ m ∈ e.own?, m.1 ∉ taken.map Prod.fst) {first : Bool} {text behind rest : List Char}
    (hmore : moreMembers first text = .ok (true, e.title ++ behind))
    (hlaid : LaidOut ([':'] :: (e.content tokens ++ Entry.remaining tokens entries)) behind rest) :
    ∃ middle, LaidOut (Entry.remaining tokens entries) middle rest ∧ ∀ fuel,
      fieldsByName fields (taken.map Prod.fst).reverse first (built taken) (fuel + 1) text =
        fieldsByName fields ((taken ++ e.own?.toList).map Prod.fst).reverse false
          (built (taken ++ e.own?.toList)) fuel middle := by
  obtain ⟨others, hcolon, hothers⟩ := hlaid.exists_punctuation rfl
  obtain ⟨middle, hcontent, hremaining⟩ := hothers.exists_of_append
  have hmiddle : Apart middle := hremaining.apart_of_remaining
  refine ⟨middle, hremaining, fun fuel ↦ ?_⟩
  rw [fieldsByName, bind_of_ok hmore]
  cases hfits with
  | @own name value hsets =>
    obtain ⟨field, change, hfind, hreads, hchange⟩ := hsets
    have hunseen : name ∉ taken.map Prod.fst := hfresh (name, value) rfl
    have hread := hreads _ _ hcontent hmiddle
    refine (bind_of_ok (string_append (isText_escapedString name) behind) _).trans ?_
    simp only [hfind, List.mem_reverse, if_neg hunseen]
    refine (bind_of_ok hcolon _).trans ((bind_of_ok hread _).trans ?_)
    rw [hchange taken hunseen]
    simp [Entry.own?]
  | @added name value s hname hunknown hvalue =>
    have hskip : skip others = .ok ((), middle) := by
      cases hcontent with
      | @cons _ _ _ _ _ hblanks hnil =>
        cases hnil
        exact skip_append hvalue hblanks hmiddle
    refine (bind_of_ok (string_append hname behind) _).trans ?_
    simp only [hunknown]
    refine (bind_of_ok hcolon _).trans ((bind_of_ok hskip _).trans ?_)
    simp [Entry.own?]

/-- A name that occurs once is fresh where it occurs, and the names after it are fresh then. -/
theorem fresh_of_nodup {e : Entry α} {entries : List (Entry α)} (taken : List (String × α))
    (hnodup : ((taken ++ (e :: entries).filterMap Entry.own?).map Prod.fst).Nodup) :
    (∀ m ∈ e.own?, m.1 ∉ taken.map Prod.fst) ∧
      (((taken ++ e.own?.toList) ++ entries.filterMap Entry.own?).map Prod.fst).Nodup := by
  rw [Entry.filterMap_own?_cons, ← List.append_assoc] at hnodup
  refine ⟨fun m hm hmem ↦ ?_, hnodup⟩
  rw [List.map_append, List.map_append] at hnodup
  have hown : m.1 ∈ e.own?.toList.map Prod.fst :=
    List.mem_map_of_mem (Option.mem_toList.mpr hm)
  exact (List.nodup_append.mp (List.nodup_append.mp hnodup).1).2.2 m.1 hmem m.1 hown rfl

/-- Members that are left are read one after the other. -/
theorem fieldsByName_remaining {entries : List (Entry α)}
    (hfits : ∀ e ∈ entries, Fits fields tokens built e) {taken : List (String × α)}
    (hnodup : ((taken ++ entries.filterMap Entry.own?).map Prod.fst).Nodup) {text rest : List Char}
    (hlaid : LaidOut (Entry.remaining tokens entries) text rest) {fuel : Nat}
    (hfuel : entries.length < fuel) :
    fieldsByName fields (taken.map Prod.fst).reverse false (built taken) fuel text =
      .ok (built (taken ++ entries.filterMap Entry.own?), rest) := by
  induction entries generalizing taken text fuel with
  | nil =>
    obtain ⟨fuel, rfl⟩ := Nat.exists_eq_succ_of_ne_zero (Nat.ne_zero_of_lt hfuel)
    rw [fieldsByName, bind_of_ok (hlaid.moreMembers_end false), List.filterMap_nil, List.append_nil]
    rfl
  | cons e entries ih =>
    obtain ⟨fuel, rfl⟩ := Nat.exists_eq_succ_of_ne_zero (Nat.ne_zero_of_lt hfuel)
    have he := hfits e List.mem_cons_self
    obtain ⟨s, hs⟩ := he.exists_isText
    obtain ⟨hfresh, hothers⟩ := fresh_of_nodup taken hnodup
    rw [Entry.remaining_cons] at hlaid
    obtain ⟨behind, hmore, hbehind⟩ := hlaid.exists_moreMembers_next hs
    obtain ⟨middle, hmiddle, heq⟩ := exists_fieldsByName_eq he hfresh hmore hbehind
    rw [heq, Entry.filterMap_own?_cons, ← List.append_assoc]
    exact ih (fun d hd ↦ hfits d (List.mem_cons_of_mem e hd)) hothers hmiddle
      (Nat.lt_of_succ_lt_succ hfuel)

/-- There are fewer members left than characters. -/
theorem LaidOut.length_lt_of_remaining (first : List (List Char)) {entries : List (Entry α)}
    {text rest : List Char} (hlaid : LaidOut (first ++ Entry.remaining tokens entries) text rest) :
    entries.length < text.length := by
  induction entries generalizing first text with
  | nil =>
    obtain ⟨middle, hfirst, hend⟩ := hlaid.exists_of_append
    have hlength := hfirst.length_le
    cases hend with
    | cons =>
      simp only [List.length_append, List.length_cons] at hlength
      simp only [List.length_nil]
      omega
  | cons e entries ih =>
    obtain ⟨middle, hfirst, hremaining⟩ := hlaid.exists_of_append
    have hlength := hfirst.length_le
    rw [Entry.remaining_cons] at hremaining
    cases hremaining with
    | @cons _ _ others _ _ _ hothers =>
      have hbehind := ih (e.title :: [':'] :: e.content tokens) hothers
      simp only [List.length_append, List.length_cons] at hlength ⊢
      omega

/-- What is read from an object is what its own members make of the record. -/
theorem reads_record {entries : List (Entry α)} (hfits : ∀ e ∈ entries, Fits fields tokens built e)
    (hnodup : ((entries.filterMap Entry.own?).map Prod.fst).Nodup) (title : String) :
    Reads (record title fields (built []))
      (enclosed '\x7b' '\x7d' (entries.map (Entry.tokens tokens)))
      (built (entries.filterMap Entry.own?)) := by
  intro text rest hlaid hrest
  cases entries with
  | nil =>
    obtain ⟨others, hpeek, hothers⟩ := hlaid.exists_peek rfl
    refine (bind_of_ok hpeek _).trans ((bind_of_ok (discard_next_cons ..) _).trans ?_)
    refine (bind_of_ok (get_eq others) _).trans ?_
    rw [fieldsByName, bind_of_ok (hothers.moreMembers_end true)]
    rfl
  | cons e entries =>
    have he := hfits e List.mem_cons_self
    obtain ⟨s, hs⟩ := he.exists_isText
    obtain ⟨hfresh, hnodup⟩ := fresh_of_nodup [] hnodup
    obtain ⟨others, hpeek, hothers⟩ := hlaid.exists_peek rfl
    have hmembers : LaidOut
        (e.title :: [':'] :: (e.content tokens ++ Entry.remaining tokens entries)) others rest :=
      hothers
    have hfuel : entries.length < others.length :=
      LaidOut.length_lt_of_remaining (e.title :: [':'] :: e.content tokens) hmembers
    obtain ⟨behind, hmore, hbehind⟩ := hmembers.exists_moreMembers_first hs
    obtain ⟨middle, hmiddle, heq⟩ := exists_fieldsByName_eq he hfresh hmore hbehind
    refine (bind_of_ok hpeek _).trans ((bind_of_ok (discard_next_cons ..) _).trans ?_)
    refine (bind_of_ok (get_eq others) _).trans ((heq others.length).trans ?_)
    rw [Entry.filterMap_own?_cons]
    exact fieldsByName_remaining (fun d hd ↦ hfits d (List.mem_cons_of_mem e hd)) hnodup hmiddle hfuel

end

end Reader

end Mos6502.Json
