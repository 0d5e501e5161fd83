import Mos6502.Config
import Mos6502.Proofs.Reading

/-!
What is read from the text of a configuration after somebody has edited it. The printed text has a
member for every setting (`Config.isTextOf_toText`). A `Draft` is what can be made of it without
touching a setting: members are left out, at either level, put into another order, or added, as long
as what is added has a name that is not known there and a value in one piece; and blanks may change
between any two tokens.

Whatever was done, the draft is read, and every setting that is left has its value. Those that are
gone have their defaults, each for itself (`Config.ofText_of_isDraft`).
-/

set_option autoImplicit false

namespace Mos6502

open Json (Entry IsNumbered IsScalar IsText Reader Value enclosed escapedString)

namespace Json

/-- The members of an object. Other values have none. -/
def Value.members : Value → List (String × Value)
  | .object members => members
  | _ => []

/-- The names of the members that are the record's own. -/
def Entry.names {α : Type} (entries : List (Entry α)) : List String :=
  (entries.filterMap Entry.own?).map Prod.fst

/-- Members are what an edit has made of those of an object: each of its own was there before, perhaps
with another value, and occurs once; and each that was added has a name that was not there, and a
value in one piece. -/
structure IsEdit {α β : Type} (isEdited : α → β → Prop) (members : List (String × α))
    (entries : List (Entry β)) : Prop where
  own : ∀ name value, Entry.own name value ∈ entries →
    ∃ before, (name, before) ∈ members ∧ isEdited before value
  once : (Entry.names entries).Nodup
  added : ∀ name value, Entry.added name value ∈ entries →
    (∃ s, IsText IsNumbered name s ∧ s ∉ members.map Prod.fst) ∧ IsScalar value

/-- An edit may change values and nothing else. -/
theorem isEdit_map {α β : Type} {isEdited : α → β → Prop} {members : List (String × α)} (f : α → β)
    (hnodup : (members.map Prod.fst).Nodup) (hf : ∀ m ∈ members, isEdited m.2 (f m.2)) :
    IsEdit isEdited members (members.map fun m ↦ .own m.1 (f m.2)) where
  own name value hmem := by
    obtain ⟨m, hm, hsame⟩ := List.mem_map.mp hmem
    cases hsame
    exact ⟨m.2, hm, hf m hm⟩
  once := by
    have hnames : Entry.names (members.map fun m ↦ .own m.1 (f m.2)) = members.map Prod.fst := by
      simp [Entry.names, List.filterMap_map, Function.comp_def, Entry.own?]
    rw [hnames]
    exact hnodup
  added name value hmem := by
    obtain ⟨m, -, hsame⟩ := List.mem_map.mp hmem
    cases hsame

/-- A name is among those of some members and one more if it is among those or the name of that. -/
theorem mem_names_append {α : Type} {name other : String} {value : α} {members : List (String × α)} :
    name ∈ (members ++ [(other, value)]).map Prod.fst ↔
      name ∈ members.map Prod.fst ∨ name = other := by
  rw [List.map_append, List.mem_append, List.map_singleton, List.mem_singleton]

/-- A text consists of tokens, with blanks in front of each and at the end. -/
def IsTextOf (tokens : List (List Char)) (text : String) : Prop :=
  ∃ blanks, (∀ b ∈ blanks, Reader.isBlank b = true) ∧ Reader.LaidOut tokens text.toList blanks

namespace Reader

variable {α β σ : Type}

/-- What is read of tokens is read of a text that consists of them. -/
theorem run_of_reads {reader : Reader α} {tokens : List (List Char)} {a : α}
    (hreads : Reads reader tokens a) {text : String} (htext : IsTextOf tokens text) :
    reader.run text = .ok a := by
  obtain ⟨blanks, hblanks, hlaid⟩ := htext
  have hapart : Apart blanks := by
    rw [← List.append_nil blanks]
    exact apart_append hblanks fun c hc ↦ nomatch hc
  have hdrop : (blanks ++ []).dropWhile isBlank = [] := List.dropWhile_append_of_pos hblanks
  rw [List.append_nil] at hdrop
  have hskip : skipBlanks blanks = .ok ((), []) :=
    congrArg (fun text ↦ Except.ok ((), text)) hdrop
  have hall : (do let a ← reader; skipBlanks; return a : Reader α) text.toList = .ok (a, []) := by
    rw [bind_of_ok (hreads _ _ hlaid hapart), bind_of_ok hskip]
    rfl
  rw [run, hall]

/-- The members that an edit leaves set their fields or are skipped. -/
theorem fits_of_isEdit {isEdited : α → β → Prop} {members : List (String × α)}
    {entries : List (Entry β)} (hedit : IsEdit isEdited members entries) {fields : List (Field σ)}
    (hnames : fields.map (·.name) = members.map Prod.fst) {tokens : β → List (List Char)}
    {built : List (String × β) → σ}
    (hsets : ∀ name before value, (name, before) ∈ members → isEdited before value →
      Sets fields tokens built name value) :
    ∀ e ∈ entries, Fits fields tokens built e := by
  intro e he
  cases e with
  | own name value =>
    obtain ⟨before, hbefore, hvalue⟩ := hedit.own name value he
    exact .own (hsets name before value hbefore hvalue)
  | added name value =>
    obtain ⟨⟨s, hname, hunknown⟩, hvalue⟩ := hedit.added name value he
    refine .added hname (List.find?_eq_none.mpr fun field hfield hsame ↦ hunknown ?_) hvalue
    rw [← hnames, ← eq_of_beq hsame]
    exact List.mem_map_of_mem hfield

/-- What is read of an edited object is what its own members make of the record. -/
theorem reads_of_isEdit {isEdited : α → β → Prop} {members : List (String × α)}
    {entries : List (Entry β)} (hedit : IsEdit isEdited members entries) {fields : List (Field σ)}
    (hnames : fields.map (·.name) = members.map Prod.fst) {tokens : β → List (List Char)}
    {built : List (String × β) → σ}
    (hsets : ∀ name before value, (name, before) ∈ members → isEdited before value →
      Sets fields tokens built name value) (title : String) :
    Reads (record title fields (built []))
      (enclosed '\x7b' '\x7d' (entries.map (Entry.tokens tokens)))
      (built (entries.filterMap Entry.own?)) :=
  reads_record (fits_of_isEdit hedit hnames hsets) hedit.once title

end Reader

end Json

namespace Options

/-- The options with only the named settings kept, and the defaults for the others. -/
def keeping (o : Options) (names : List String) : Options :=
  let unset : Options := {}
  { decimalMode := if "decimal_mode" ∈ names then o.decimalMode else unset.decimalMode
    unofficialOpcodes :=
      if "unofficial_opcodes" ∈ names then o.unofficialOpcodes else unset.unofficialOpcodes
    trace := if "trace" ∈ names then o.trace else unset.trace }

/-- Each option that is left is read for itself. -/
theorem sets_member (o : Options) {name : String} {value : Value}
    (hmember : (name, value) ∈ o.toJson.members) :
    Reader.Sets (switches.map fun (name, put) ↦ .of name Reader.boolean put) Value.tokens
      (fun taken ↦ o.keeping (taken.map Prod.fst)) name value := by
  simp only [toJson, Value.members, List.mem_cons, Prod.mk.injEq, List.not_mem_nil, or_false]
    at hmember
  obtain ⟨rfl, rfl⟩ | ⟨rfl, rfl⟩ | ⟨rfl, rfl⟩ := hmember
  · refine ⟨_, _, rfl, (Reader.reads_boolean _).map _, fun taken _ ↦ ?_⟩
    simp only [keeping, Json.mem_names_append, String.reduceEq, or_false, or_true, if_true]
  · refine ⟨_, _, rfl, (Reader.reads_boolean _).map _, fun taken _ ↦ ?_⟩
    simp only [keeping, Json.mem_names_append, String.reduceEq, or_false, or_true, if_true]
  · refine ⟨_, _, rfl, (Reader.reads_boolean _).map _, fun taken _ ↦ ?_⟩
    simp only [keeping, Json.mem_names_append, String.reduceEq, or_false, or_true, if_true]

/-- Edited options are read as the options that are left. -/
theorem reads_of_isEdit {o : Options} {settings : List (Entry Value)}
    (hedit : Json.IsEdit Eq o.toJson.members settings) :
    Json.Reader.Reads reader (enclosed '\x7b' '\x7d' (settings.map (Entry.tokens Value.tokens)))
      (o.keeping (Entry.names settings)) := by
  have hsets : ∀ name before value, (name, before) ∈ o.toJson.members → before = value →
      Reader.Sets (switches.map fun (name, put) ↦ .of name Reader.boolean put) Value.tokens
        (fun taken ↦ o.keeping (taken.map Prod.fst)) name value := by
    rintro name value _ hmember rfl
    exact o.sets_member hmember
  exact Reader.reads_of_isEdit hedit rfl hsets "CpuConfig"

end Options

namespace Level

theorem reads_reader (l : Level) : Json.Reader.Reads reader l.toJson.tokens l :=
  Reader.reads_variant _ l.ofName?_name

/-- A level that may be missing is read from its name or from the word for nothing. -/
theorem reads_optional (l : Option Level) :
    Json.Reader.Reads (Reader.optional reader) ((l.map toJson).getD .null).tokens l := by
  cases l with
  | none => exact Reader.reads_optional_null reader
  | some l => exact Reader.reads_optional rfl (by decide) l.reads_reader

end Level

namespace LogSettings

/-- A limit that may be missing is read from a number that fits or from the word for nothing. -/
theorem reads_limit {limit : Option Nat} (hlimit : ∀ n, limit = some n → n < UInt64.size) :
    Reader.Reads (Reader.optional (Reader.natural "usize"))
      ((limit.map fun n ↦ Value.int n).getD .null).tokens limit := by
  cases limit with
  | none => exact Reader.reads_optional_null _
  | some n =>
    have hreads := Reader.reads_natural "usize" (hlimit n rfl)
    have hdigits := Json.areDigits_toDigits n
    obtain ⟨c, cs, hcs⟩ := List.exists_cons_of_ne_nil hdigits.ne_nil
    rw [hcs] at hdigits
    obtain ⟨hblank, hn, -⟩ :=
      Json.ne_of_begins_numeral (.inr (hdigits.isDigit c List.mem_cons_self))
    have htokens : (Value.int n).tokens = [c :: cs] := (Reader.tokens_int n).trans (by rw [hcs])
    rw [htokens] at hreads
    refine (?_ : Reader.Reads _ (Value.int n).tokens _)
    rw [htokens]
    exact Reader.reads_optional hblank hn hreads

/-- A path that may be missing is read from a string or from the word for nothing. -/
theorem reads_file (file : Option String) :
    Reader.Reads (Reader.optional (Reader.text "path string"))
      ((file.map Value.string).getD .null).tokens file := by
  cases file with
  | none => exact Reader.reads_optional_null _
  | some path => exact Reader.reads_optional rfl (by decide) (Reader.reads_text _ path)

/-- The settings with only the named ones kept, and the defaults for the others. -/
def keeping (s : LogSettings) (names : List String) : LogSettings :=
  let unset : LogSettings := {}
  { level := if "level" ∈ names then s.level else unset.level
    cpu := if "cpu" ∈ names then s.cpu else unset.cpu
    interrupts := if "interrupts" ∈ names then s.interrupts else unset.interrupts
    decode := if "decode" ∈ names then s.decode else unset.decode
    rateLimit := if "rate_limit" ∈ names then s.rateLimit else unset.rateLimit
    file := if "file" ∈ names then s.file else unset.file }

/-- Each setting that is left is read for itself. -/
theorem sets_member {s : LogSettings} (hlimit : ∀ n, s.rateLimit = some n → n < UInt64.size)
    {name : String} {value : Value} (hmember : (name, value) ∈ s.toJson.members) :
    Reader.Sets fields Value.tokens (fun taken ↦ s.keeping (taken.map Prod.fst)) name value := by
  simp only [toJson, Value.members, List.mem_cons, Prod.mk.injEq, List.not_mem_nil, or_false]
    at hmember
  obtain ⟨rfl, rfl⟩ | ⟨rfl, rfl⟩ | ⟨rfl, rfl⟩ | ⟨rfl, rfl⟩ | ⟨rfl, rfl⟩ | ⟨rfl, rfl⟩ := hmember
  · refine ⟨_, _, rfl, s.level.reads_reader.map _, fun taken _ ↦ ?_⟩
    simp only [keeping, Json.mem_names_append, String.reduceEq, or_false, or_true, if_true]
  · refine ⟨_, _, rfl, (Level.reads_optional s.cpu).map _, fun taken _ ↦ ?_⟩
    simp only [keeping, Json.mem_names_append, String.reduceEq, or_false, or_true, if_true]
  · refine ⟨_, _, rfl, (Level.reads_optional s.interrupts).map _, fun taken _ ↦ ?_⟩
    simp only [keeping, Json.mem_names_append, String.reduceEq, or_false, or_true, if_true]
  · refine ⟨_, _, rfl, (Level.reads_optional s.decode).map _, fun taken _ ↦ ?_⟩
    simp only [keeping, Json.mem_names_append, String.reduceEq, or_false, or_true, if_true]
  · refine ⟨_, _, rfl, (reads_limit hlimit).map _, fun taken _ ↦ ?_⟩
    simp only [keeping, Json.mem_names_append, String.reduceEq, or_false, or_true, if_true]
  · refine ⟨_, _, rfl, (reads_file s.file).map _, fun taken _ ↦ ?_⟩
    simp only [keeping, Json.mem_names_append, String.reduceEq, or_false, or_true, if_true]

/-- Edited settings are read as the settings that are left. -/
theorem reads_of_isEdit {s : LogSettings} (hlimit : ∀ n, s.rateLimit = some n → n < UInt64.size)
    {settings : List (Entry Value)} (hedit : Json.IsEdit Eq s.toJson.members settings) :
    Json.Reader.Reads reader (enclosed '\x7b' '\x7d' (settings.map (Entry.tokens Value.tokens)))
      (s.keeping (Entry.names settings)) := by
  have hsets : ∀ name before value, (name, before) ∈ s.toJson.members → before = value →
      Reader.Sets fields Value.tokens (fun taken ↦ s.keeping (taken.map Prod.fst)) name value := by
    rintro name value _ hmember rfl
    exact sets_member hlimit hmember
  exact Reader.reads_of_isEdit hedit rfl hsets "LogSettings"

end LogSettings

namespace Config

/-- The configuration with only some settings kept, given by the parts and the names in each of them,
and the defaults for the others. -/
def keeping (c : Config) (parts : List (String × List String)) : Config where
  cpu := (parts.lookup "cpu").elim {} c.cpu.keeping
  log := (parts.lookup "log").elim {} c.log.keeping

/-- A part that was not there is one part more that is kept. -/
theorem keeping_append_cpu (c : Config) {parts : List (String × List String)}
    (hfresh : parts.lookup "cpu" = none) (names : List String) :
    { c.keeping parts with cpu := c.cpu.keeping names } = c.keeping (parts ++ [("cpu", names)]) := by
  have hlog : List.lookup "log" [("cpu", names)] = none := rfl
  rw [keeping, keeping, List.lookup_append, List.lookup_append, hfresh, hlog, Option.or_none]
  rfl

theorem keeping_append_log (c : Config) {parts : List (String × List String)}
    (hfresh : parts.lookup "log" = none) (names : List String) :
    { c.keeping parts with log := c.log.keeping names } = c.keeping (parts ++ [("log", names)]) := by
  have hcpu : List.lookup "cpu" [("log", names)] = none := rfl
  rw [keeping, keeping, List.lookup_append, List.lookup_append, hfresh, hcpu, Option.or_none]
  rfl

/-- What can become of the printed text of a configuration: its parts, and the settings in each. -/
abbrev Draft :=
  List (Entry (List (Entry Value)))

namespace Draft

/-- The tokens of one part. -/
def tokensOfPart (settings : List (Entry Value)) : List (List Char) :=
  enclosed '\x7b' '\x7d' (settings.map (Entry.tokens Value.tokens))

/-- The tokens of the draft. -/
def tokens (draft : Draft) : List (List Char) :=
  enclosed '\x7b' '\x7d' (draft.map (Entry.tokens tokensOfPart))

/-- The names of the settings in some parts, each with the name of its part. -/
def namesOf (parts : List (String × List (Entry Value))) : List (String × List String) :=
  parts.map fun part ↦ (part.1, Entry.names part.2)

theorem namesOf_append (parts : List (String × List (Entry Value))) (name : String)
    (settings : List (Entry Value)) :
    namesOf (parts ++ [(name, settings)]) = namesOf parts ++ [(name, Entry.names settings)] :=
  List.map_append

theorem lookup_namesOf_eq_none {parts : List (String × List (Entry Value))} {name : String}
    (hfresh : name ∉ parts.map Prod.fst) : (namesOf parts).lookup name = none := by
  refine List.lookup_eq_none_iff.mpr fun part hpart ↦ ?_
  obtain ⟨before, hbefore, rfl⟩ := List.mem_map.mp hpart
  exact bne_iff_ne.mpr fun hsame ↦ hfresh (hsame ▸ List.mem_map_of_mem hbefore)

/-- The names of the settings that are left. -/
def names (draft : Draft) : List (String × List String) :=
  namesOf (draft.filterMap Entry.own?)

end Draft

/-- A draft of a configuration is what an edit has made of its parts, each with what an edit has made
of its settings. -/
def IsDraft (c : Config) (draft : Draft) : Prop :=
  Json.IsEdit (fun part settings ↦ Json.IsEdit Eq part.members settings) c.toJson.members draft

/-- The draft in which everything is as it was printed. -/
def untouched (c : Config) : Draft :=
  c.toJson.members.map fun part ↦
    .own part.1 (part.2.members.map fun setting ↦ .own setting.1 setting.2)

theorem tokens_untouched (c : Config) : c.untouched.tokens = c.toJson.tokens :=
  rfl

theorem keeping_names_untouched (c : Config) : c.keeping c.untouched.names = c :=
  rfl

theorem isDraft_untouched (c : Config) : c.IsDraft c.untouched := by
  have hparts : (c.toJson.members.map Prod.fst).Nodup := by
    show ["cpu", "log"].Nodup
    decide
  refine Json.isEdit_map (fun part ↦ part.members.map fun m ↦ Entry.own m.1 m.2) hparts ?_
  intro part hpart
  have hsettings : (part.2.members.map Prod.fst).Nodup := by
    simp only [toJson, Value.members, List.mem_cons, List.not_mem_nil, or_false] at hpart
    obtain rfl | rfl := hpart
    · show ["decimal_mode", "unofficial_opcodes", "trace"].Nodup
      decide
    · show ["level", "cpu", "interrupts", "decode", "rate_limit", "file"].Nodup
      decide
  exact Json.isEdit_map id hsettings fun m _ ↦ rfl

/-- The printed text consists of the tokens of the draft in which nothing was touched. -/
theorem isTextOf_toText (c : Config) : Json.IsTextOf c.untouched.tokens c.toText := by
  refine ⟨[], List.forall_mem_nil _, ?_⟩
  have hwritten := Value.laidOut_write 0 c.toJson []
  rw [List.append_nil] at hwritten
  rw [tokens_untouched, toText, Value.pretty, String.toList_ofList]
  exact hwritten

section

variable {c : Config} (hlimit : ∀ n, c.log.rateLimit = some n → n < UInt64.size)
include hlimit

/-- Each part that is left is read for itself, from the settings that are left in it. -/
theorem sets_part {name : String} {part : Value} {settings : List (Entry Value)}
    (hpart : (name, part) ∈ c.toJson.members) (hedit : Json.IsEdit Eq part.members settings) :
    Reader.Sets fields Draft.tokensOfPart (fun taken ↦ c.keeping (Draft.namesOf taken)) name
      settings := by
  simp only [toJson, Value.members, List.mem_cons, Prod.mk.injEq, List.not_mem_nil, or_false]
    at hpart
  obtain ⟨rfl, rfl⟩ | ⟨rfl, rfl⟩ := hpart
  · refine ⟨_, _, rfl, (Options.reads_of_isEdit hedit).map _, fun taken hfresh ↦ ?_⟩
    exact (c.keeping_append_cpu (Draft.lookup_namesOf_eq_none hfresh) _).trans
      (congrArg c.keeping (Draft.namesOf_append ..).symm)
  · refine ⟨_, _, rfl, (LogSettings.reads_of_isEdit hlimit hedit).map _, fun taken hfresh ↦ ?_⟩
    exact (c.keeping_append_log (Draft.lookup_namesOf_eq_none hfresh) _).trans
      (congrArg c.keeping (Draft.namesOf_append ..).symm)

/-- A draft is read as the configuration with only the settings that are left. -/
theorem ofText_of_isDraft {draft : Draft} (hdraft : c.IsDraft draft) {text : String}
    (htext : Json.IsTextOf draft.tokens text) : ofText text = .ok (c.keeping draft.names) := by
  have hreads : Reader.Reads reader draft.tokens (c.keeping draft.names) :=
    Reader.reads_of_isEdit hdraft rfl (fun _ _ _ ↦ sets_part hlimit) "CoreConfig"
  rw [ofText, Reader.run_of_reads hreads htext]
  rfl

end

/-- What is printed is read back; and whatever is left out of the printed text, put into another
order, laid out anew or added to it under an unknown name, what is read is the configuration with just
the settings that are left, and the defaults for those that are gone. -/
theorem ofText_of_edited_toText (c : Config)
    (hlimit : ∀ n, c.log.rateLimit = some n → n < UInt64.size) :
    ofText c.toText = .ok c ∧ Json.IsTextOf c.untouched.tokens c.toText ∧
      ∀ draft, c.IsDraft draft → ∀ text, Json.IsTextOf draft.tokens text →
        ofText text = .ok (c.keeping draft.names) := by
  refine ⟨?_, c.isTextOf_toText, fun draft hdraft text ↦ ofText_of_isDraft hlimit hdraft⟩
  rw [ofText_of_isDraft hlimit c.isDraft_untouched c.isTextOf_toText, c.keeping_names_untouched]

/-- The largest limit and a path of all kinds of characters are read back, and the limit also if it is
all that is left, behind a member that is not known. -/
theorem ofText_of_edited_largest_limit :
    let c : Config :=
      { cpu := { trace := true }
        log := { rateLimit := some 18446744073709551615, file := some "\"\\\n\x00ä" } }
    ofText c.toText = .ok c ∧
      ofText "\x7b\"x\":1e999,\"log\":\x7b\"rate_limit\":18446744073709551615\x7d\x7d" =
        .ok { log := { rateLimit := some 18446744073709551615 } } := by
  intro c
  have hlimit : ∀ n, c.log.rateLimit = some n → n < UInt64.size := by
    rintro n ⟨⟩
    decide
  obtain ⟨hback, -, hedits⟩ := c.ofText_of_edited_toText hlimit
  let settings : List (Entry Value) := [.own "rate_limit" (.int 18446744073709551615)]
  let draft : Draft :=
    [.added (escapedString "x") ['1', 'e', '9', '9', '9'], .own "log" settings]
  have hsettings : Json.IsEdit Eq c.log.toJson.members settings :=
    { own := by
        intro name value hmem
        cases List.mem_singleton.mp hmem
        exact ⟨_, .tail _ (.tail _ (.tail _ (.tail _ (.head _)))), rfl⟩
      once := (by decide : ["rate_limit"].Nodup)
      added := by
        intro name value hmem
        cases List.mem_singleton.mp hmem }
  have hnumeral : Json.IsNumeral ([] ++ (['1'] ++ ([] ++ ('e' :: ([] ++ ['9', '9', '9']))))) :=
    .parts (.inl rfl) (Json.areDigits_toDigits 1) (fun hzero ↦ nomatch hzero) .missing
      (.digits (.inl rfl) (.inl rfl) (Json.areDigits_toDigits 999))
  have hdraft : c.IsDraft draft :=
    { own := by
        intro name value hmem
        obtain hmem | hmem := List.mem_cons.mp hmem
        · cases hmem
        · cases List.mem_singleton.mp hmem
          exact ⟨_, .tail _ (.head _), hsettings⟩
      once := (by decide : ["log"].Nodup)
      added := by
        intro name value hmem
        obtain hmem | hmem := List.mem_cons.mp hmem
        · cases hmem
          exact ⟨⟨"x", Json.isText_escapedString "x", by decide⟩, .number hnumeral⟩
        · cases List.mem_singleton.mp hmem }
  have htext : Json.IsTextOf draft.tokens
      "\x7b\"x\":1e999,\"log\":\x7b\"rate_limit\":18446744073709551615\x7d\x7d" :=
    ⟨[], List.forall_mem_nil _, .flatten draft.tokens⟩
  exact ⟨hback, hedits draft hdraft _ htext⟩

end Config

end Mos6502
