import Mos6502.Proofs.Chaining
import Mos6502.Proofs.Host
import Mos6502.Proofs.SavedState

/-!
The form that a saved state has to have. `Json.Value.IsSaved` says it without reference to how data is
taken apart: an object with the version and with a state, and the state and the two records inside it
name each of their parts, either as the members of an object, in any order and among others, or as the
elements of a list that holds nothing else. `State.load_eq_ok_iff` says that a value is loaded exactly
if it has this form, and that what is loaded is the state that it describes.

The law of records behind it is `Decoder.record_eq_ok_iff`: lists and objects differ only in how the
parts are found, and once they are found it is the same `Decoder.Fills` for both.
-/

set_option autoImplicit false

namespace Mos6502

namespace Json

/-! ### The form -/

namespace Value

/-- The values of the parts of a record, in the order of their names: the elements of a list that has
as many, or the members of an object that are named for them. -/
def parts? (names : List String) : Value → Option (List Value)
  | .array elements => if elements.length = names.length then some elements else none
  | .object members => names.mapM fun name ↦ lookup name members
  | _ => none

/-- Data that describes flags: a truth value for each. -/
def IsFlags (v : Value) (f : Flags) : Prop :=
  v.parts? ["c", "z", "i", "d", "b", "u", "v", "n"] =
    some [.bool f.c, .bool f.z, .bool f.i, .bool f.d, .bool f.b, .bool f.u, .bool f.v, .bool f.n]

/-- Data that describes the interrupts pending and running: a truth value for each. -/
def IsInterruptStatus (v : Value) (s : InterruptStatus) : Prop :=
  v.parts? ["nmi_pending", "irq_pending", "nmi_running", "irq_running"] =
    some [.bool s.pending.nmi, .bool s.pending.irq, .bool s.running.nmi, .bool s.running.irq]

/-- Data that describes a state. Its numbers are integers in the range of what they count. -/
def IsState (v : Value) (s : State) : Prop :=
  ∃ flags interrupts : Value,
    v.parts? ["a", "x", "y", "sp", "pc", "flags", "cycles", "stall_cycles", "interrupts"] =
      some [.int s.registers.a.toNat, .int s.registers.x.toNat, .int s.registers.y.toNat,
        .int s.registers.sp.toNat, .int s.pc.toNat, flags, .int s.cycles.toNat,
        .int s.stall.toNat, interrupts] ∧
      flags.IsFlags s.registers.flags ∧ interrupts.IsInterruptStatus s.interrupts

/-- A saved state: an object with the version as an integer, and with data that describes the
state. -/
structure IsSaved (v : Value) (s : State) : Prop where
  version : v.member? "version" = some (.int State.version)
  cpu : ∃ state, v.member? "cpu" = some state ∧ state.IsState s

end Value

namespace Decoder

/-! ### Scalars -/

theorem bool_eq_ok_iff {v : Value} {b : Bool} : bool v = .ok b ↔ v = .bool b := by
  cases v <;> simp [bool]

/-- A number is described by itself, if it is in range. -/
theorem natural_eq_ok_iff {expected : String} {bound n : Nat} {v : Value} :
    natural expected bound v = .ok n ↔ v = .int n ∧ n < bound := by
  constructor
  · intro hnatural
    rw [natural.eq_def] at hnatural
    split at hnatural
    · rename_i found
      split at hnatural
      · rename_i hrange
        cases hnatural
        have hfound : ((found.toNat : Nat) : Int) = found := Int.toNat_of_nonneg hrange.1
        refine ⟨by rw [Value.int, hfound], ?_⟩
        omega
      · cases hnatural
    · cases hnatural
  · rintro ⟨rfl, hn⟩
    exact natural_int hn

theorem byte_eq_ok_iff {v : Value} {b : UInt8} : byte v = .ok b ↔ v = .int b.toNat := by
  constructor
  · intro hbyte
    obtain ⟨n, hn, rfl⟩ := map_eq_ok_iff.mp hbyte
    obtain ⟨rfl, hrange⟩ := natural_eq_ok_iff.mp hn
    rw [UInt8.toNat_ofNat_of_lt' hrange]
  · rintro rfl
    exact byte_int b

theorem word_eq_ok_iff {v : Value} {w : UInt16} : word v = .ok w ↔ v = .int w.toNat := by
  constructor
  · intro hword
    obtain ⟨n, hn, rfl⟩ := map_eq_ok_iff.mp hword
    obtain ⟨rfl, hrange⟩ := natural_eq_ok_iff.mp hn
    rw [UInt16.toNat_ofNat_of_lt' hrange]
  · rintro rfl
    exact word_int w

theorem count_eq_ok_iff {v : Value} {n : UInt64} : count v = .ok n ↔ v = .int n.toNat := by
  constructor
  · intro hcount
    obtain ⟨k, hk, rfl⟩ := map_eq_ok_iff.mp hcount
    obtain ⟨rfl, hrange⟩ := natural_eq_ok_iff.mp hk
    rw [UInt64.toNat_ofNat_of_lt' hrange]
  · rintro rfl
    exact count_int n

/-! ### Records -/

variable {σ : Type}

/-- Values fill the fields of a record, one after the other, and none of either is left over. -/
def Fills (record filled : σ) : List (Field σ) → List Value → Prop
  | [], [] => record = filled
  | field :: fields, v :: rest =>
    ∃ change, field.decode v = .ok change ∧ Fills (change record) filled fields rest
  | _, _ => False

theorem fills_nil {record filled : σ} {parts : List Value} :
    Fills record filled [] parts ↔ parts = [] ∧ record = filled := by
  cases parts <;> simp [Fills]

theorem fills_cons {field : Field σ} {record filled : σ} {fields : List (Field σ)}
    {parts : List Value} :
    Fills record filled (field :: fields) parts ↔
      ∃ v rest, parts = v :: rest ∧
        ∃ change, field.decode v = .ok change ∧ Fills (change record) filled fields rest := by
  cases parts with
  | nil => simp [Fills]
  | cons v rest =>
    simp only [Fills, List.cons.injEq]
    constructor
    · intro hfills
      exact ⟨v, rest, ⟨rfl, rfl⟩, hfills⟩
    · rintro ⟨_, _, ⟨rfl, rfl⟩, hfills⟩
      exact hfills

/-- A field that replaces a part of the record by what its value describes. -/
theorem fills_cons_of {α : Type} {name : String} {decoder : Decoder α} {put : α → σ → σ}
    {record filled : σ} {fields : List (Field σ)} {parts : List Value} :
    Fills record filled (.of name decoder put :: fields) parts ↔
      ∃ v rest, parts = v :: rest ∧
        ∃ a, decoder v = .ok a ∧ Fills (put a record) filled fields rest := by
  rw [fills_cons]
  simp only [Field.of, map_eq_ok_iff]
  constructor
  · rintro ⟨v, rest, hparts, _, ⟨a, hdecode, rfl⟩, hfills⟩
    exact ⟨v, rest, hparts, a, hdecode, hfills⟩
  · rintro ⟨v, rest, hparts, a, hdecode, hfills⟩
    exact ⟨v, rest, hparts, put a, ⟨a, hdecode, rfl⟩, hfills⟩

theorem Fills.cons {α : Type} {name : String} {decoder : Decoder α} {put : α → σ → σ}
    {record filled : σ} {fields : List (Field σ)} {v : Value} {rest : List Value} {a : α}
    (hdecode : decoder v = .ok a) (hrest : Fills (put a record) filled fields rest) :
    Fills record filled (.of name decoder put :: fields) (v :: rest) :=
  fills_cons_of.mpr ⟨v, rest, rfl, a, hdecode, hrest⟩

/-- A list that is not too long fills a record if its elements do. -/
theorem fillByPlace_eq_ok_iff {expected : String} {place : Nat} {record filled : σ}
    {fields : List (Field σ)} {elements : List Value} (hlength : elements.length ≤ fields.length) :
    fillByPlace expected place record fields elements = .ok filled ↔
      Fills record filled fields elements := by
  induction fields generalizing place record elements with
  | nil =>
    obtain rfl := List.length_eq_zero_iff.mp (Nat.le_zero.mp hlength)
    simp [fillByPlace, fills_nil]
  | cons field fields ih =>
    cases elements with
    | nil => simp [fillByPlace, Fills]
    | cons v rest =>
      have hrest : rest.length ≤ fields.length := Nat.le_of_succ_le_succ hlength
      simp only [fillByPlace, Fills, bind_eq_ok_iff, ih hrest]

/-- Values that fill a record are as many as its fields. -/
theorem Fills.length_eq {record filled : σ} {fields : List (Field σ)} {parts : List Value}
    (hfills : Fills record filled fields parts) : parts.length = fields.length := by
  induction fields generalizing record parts with
  | nil => rw [(fills_nil.mp hfills).1, List.length_nil, List.length_nil]
  | cons field fields ih =>
    obtain ⟨v, rest, rfl, change, -, hrest⟩ := fills_cons.mp hfills
    rw [List.length_cons, List.length_cons, ih hrest]

/-- The members of an object fill a record if each field has one and these do. -/
theorem fillByName_eq_ok_iff {members : List (String × Value)} {record filled : σ}
    {fields : List (Field σ)} :
    fillByName members record fields = .ok filled ↔
      ∃ parts, (fields.map Field.name).mapM (fun name ↦ Value.lookup name members) = some parts ∧
        Fills record filled fields parts := by
  induction fields generalizing record with
  | nil => simp [fillByName, Fills]
  | cons field fields ih =>
    rw [fillByName, List.map_cons, List.mapM_cons]
    cases hlookup : Value.lookup field.name members with
    | none => simp
    | some v =>
      simp only [bind_eq_ok_iff, ih]
      cases (fields.map Field.name).mapM fun name ↦ Value.lookup name members with
      | none => simp
      | some parts => simp [Fills]

/-- Data describes a record if it has the parts of the record and these fill it. -/
theorem record_eq_ok_iff {title : String} {fields : List (Field σ)} {blank filled : σ} {v : Value} :
    record title fields blank v = .ok filled ↔
      ∃ parts, v.parts? (fields.map Field.name) = some parts ∧ Fills blank filled fields parts := by
  cases v with
  | array elements =>
    constructor
    · intro hrecord
      obtain ⟨_, hfill, hend⟩ := bind_eq_ok_iff.mp hrecord
      by_cases hlength : elements.length ≤ fields.length
      · rw [if_pos hlength] at hend
        cases hend
        have hfills := (fillByPlace_eq_ok_iff hlength).mp hfill
        exact ⟨elements, by simp [Value.parts?, hfills.length_eq], hfills⟩
      · rw [if_neg hlength] at hend
        cases hend
    · rintro ⟨parts, hparts, hfills⟩
      obtain ⟨hlength, rfl⟩ : elements.length = fields.length ∧ elements = parts := by
        simpa [Value.parts?] using hparts
      have hle := Nat.le_of_eq hlength
      refine bind_eq_ok_iff.mpr ⟨filled, (fillByPlace_eq_ok_iff hle).mpr hfills, ?_⟩
      rw [if_pos hle]
      rfl
  | object members =>
    refine Iff.trans ⟨fun hrecord ↦ ?_, record_object⟩ fillByName_eq_ok_iff
    obtain ⟨-, -, hfill⟩ := bind_eq_ok_iff.mp hrecord
    exact hfill
  | _ => simp [record, Value.parts?]

end Decoder

end Json

open Json (Decoder Value)

/-! ### States -/

theorem Flags.ofJson_eq_ok_iff {v : Value} {f : Flags} : ofJson v = .ok f ↔ v.IsFlags f := by
  rw [ofJson, Decoder.record_eq_ok_iff]
  constructor
  · rintro ⟨parts, hparts, hfills⟩
    simp only [fields, Decoder.fills_cons_of, Decoder.fills_nil, Decoder.bool_eq_ok_iff] at hfills
    obtain ⟨_, _, rfl, c, rfl, _, _, rfl, z, rfl, _, _, rfl, i, rfl, _, _, rfl, d, rfl,
      _, _, rfl, b, rfl, _, _, rfl, u, rfl, _, _, rfl, v, rfl, _, _, rfl, n, rfl, rfl, rfl⟩ := hfills
    exact hparts
  · intro hflags
    exact ⟨_, hflags, .cons rfl (.cons rfl (.cons rfl (.cons rfl
      (.cons rfl (.cons rfl (.cons rfl (.cons rfl rfl)))))))⟩

theorem InterruptStatus.ofJson_eq_ok_iff {v : Value} {s : InterruptStatus} :
    ofJson v = .ok s ↔ v.IsInterruptStatus s := by
  rw [ofJson, Decoder.record_eq_ok_iff]
  constructor
  · rintro ⟨parts, hparts, hfills⟩
    simp only [fields, Decoder.fills_cons_of, Decoder.fills_nil, Decoder.bool_eq_ok_iff] at hfills
    obtain ⟨_, _, rfl, nmiPending, rfl, _, _, rfl, irqPending, rfl, _, _, rfl, nmiRunning, rfl,
      _, _, rfl, irqRunning, rfl, rfl, rfl⟩ := hfills
    exact hparts
  · intro hstatus
    exact ⟨_, hstatus, .cons rfl (.cons rfl (.cons rfl (.cons rfl rfl)))⟩

namespace State

theorem ofJson_eq_ok_iff {v : Value} {s : State} : ofJson v = .ok s ↔ v.IsState s := by
  rw [ofJson, Decoder.record_eq_ok_iff]
  constructor
  · rintro ⟨parts, hparts, hfills⟩
    simp only [fields, Decoder.fills_cons_of, Decoder.fills_nil, Decoder.byte_eq_ok_iff,
      Decoder.word_eq_ok_iff, Decoder.count_eq_ok_iff, Flags.ofJson_eq_ok_iff,
      InterruptStatus.ofJson_eq_ok_iff] at hfills
    obtain ⟨_, _, rfl, a, rfl, _, _, rfl, x, rfl, _, _, rfl, y, rfl, _, _, rfl, sp, rfl,
      _, _, rfl, pc, rfl, flags, _, rfl, _, hflags, _, _, rfl, cycles, rfl, _, _, rfl, stall, rfl,
      interrupts, _, rfl, _, hinterrupts, rfl, rfl⟩ := hfills
    exact ⟨flags, interrupts, hparts, hflags, hinterrupts⟩
  · rintro ⟨flags, interrupts, hparts, hflags, hinterrupts⟩
    have hflags := Flags.ofJson_eq_ok_iff.mpr hflags
    have hinterrupts := InterruptStatus.ofJson_eq_ok_iff.mpr hinterrupts
    exact ⟨_, hparts, .cons (Decoder.byte_int _) (.cons (Decoder.byte_int _)
      (.cons (Decoder.byte_int _) (.cons (Decoder.byte_int _) (.cons (Decoder.word_int _)
      (.cons hflags (.cons (Decoder.count_int _) (.cons (Decoder.count_int _)
      (.cons hinterrupts rfl))))))))⟩

/-- The version in use can only be said by the integer. -/
theorem savedVersion_eq_version_iff {v : Value} :
    savedVersion v = version ↔ v.member? "version" = some (.int version) := by
  constructor
  · intro hversion
    rw [savedVersion] at hversion
    split at hversion
    · rename_i n hn
      obtain ⟨found, hfound, hinteger⟩ := Option.bind_eq_some_iff.mp hn
      have hone : n = 1 := by
        split at hversion
        · rw [version] at hversion
          omega
        · cases hversion
      rw [hone] at hinteger
      cases found with
      | number number =>
        cases number with
        | integer found =>
          cases hinteger
          exact hfound
        | real x => cases hinteger
      | _ => cases hinteger
    · cases hversion
  · intro hmember
    rw [savedVersion, hmember]
    rfl

/-- A state of another version is refused, whatever else is in it. -/
theorem load_of_ne_version {v : Value} (hversion : v.member? "version" ≠ some (.int version)) :
    load v = .error (.unsupportedVersion (savedVersion v)) := by
  rw [load, if_neg fun heq ↦ hversion (savedVersion_eq_version_iff.mp heq)]

/-- What is loaded is what has the form of a saved state. -/
theorem load_eq_ok_iff {v : Value} {s : State} : load v = .ok s ↔ v.IsSaved s := by
  by_cases hversion : v.member? "version" = some (.int version)
  · rw [load, if_pos (savedVersion_eq_version_iff.mpr hversion)]
    rw [mapError_eq_ok_iff, ofJson_eq_ok_iff]
    cases hcpu : v.member? "cpu" with
    | none =>
      constructor
      · rintro ⟨flags, interrupts, hparts, -, -⟩
        cases hparts
      · rintro ⟨-, state, hstate, -⟩
        cases hcpu.symm.trans hstate
    | some state =>
      constructor
      · intro hstate
        exact ⟨hversion, state, hcpu, hstate⟩
      · rintro ⟨-, described, hdescribed, hstate⟩
        cases hcpu.symm.trans hdescribed
        exact hstate
  · rw [load_of_ne_version hversion]
    constructor
    · intro hload
      cases hload
    · intro hsaved
      exact absurd hsaved.version hversion

end State

namespace Emulator

variable {M : Type} [Bus M]

/-- A value is loaded exactly if it has the form of a saved state. If it is loaded, the processor is
in the state that the value describes and its vectors are the words in memory, which has been read at
the vectors and nowhere else, while the options are as they were; if it is refused, nothing has
changed at all. The version comes first: a value that lacks it is refused for that reason, whatever
its other members are. -/
theorem load_ok_iff_isSaved (v : Value) (s : Emulator M) :
    ((s.load v).1 = .ok () ↔ ∃ state, v.IsSaved state) ∧
      (∀ state, v.IsSaved state →
        let nmi := Bus.readWord s.machine.mem nmiVector
        let irq := Bus.readWord nmi.2 irqVector
        (s.load v).2 = ⟨⟨⟨state, ⟨nmi.1, irq.1⟩, s.machine.cpu.options⟩, irq.2⟩, s.journal⟩ ∧
          ((∀ (mem : M) (address : UInt16), (Bus.read mem address).2 = mem) →
            irq.2 = s.machine.mem)) ∧
      (∀ fault, (s.load v).1 = .error fault → (s.load v).2 = s) ∧
      (v.member? "version" ≠ some (.int State.version) →
        ∃ version, ∀ other : Value, other.member? "version" = v.member? "version" →
          (s.load other).1 = .error (.unsupportedVersion version)) := by
  refine ⟨?_, ?_, ?_, ?_⟩
  · simp only [← State.load_eq_ok_iff, load]
    cases State.load v <;> simp
  · intro state hsaved nmi irq
    have hload : s.load v = (.ok (), s.mapMachine (·.restore state)) := by
      rw [load, State.load_eq_ok_iff.mpr hsaved]
    refine ⟨congrArg Prod.snd hload, fun hquiet ↦ ?_⟩
    have hword (mem : M) (address : UInt16) : (Bus.readWord mem address).2 = mem :=
      (hquiet _ _).trans (hquiet _ _)
    rw [hword, hword]
  · intro fault hfault
    rw [load] at hfault ⊢
    cases hload : State.load v with
    | ok state =>
      rw [hload] at hfault
      cases hfault
    | error found => rfl
  · intro hversion
    refine ⟨State.savedVersion v, fun other hother ↦ ?_⟩
    have hsame : State.savedVersion other = State.savedVersion v := by
      rw [State.savedVersion, State.savedVersion, hother]
    rw [load, State.load_of_ne_version (hother ▸ hversion), hsame]

/-- A state and its parts may be lists, and the members of an object may stand in any order. -/
example :
    let flags := Value.object (["n", "v", "u", "b", "d", "i", "z", "c"].map (·, .bool true))
    let interrupts := Value.array (List.replicate 4 (.bool false))
    let state := Value.array
      [.int 1, .int 2, .int 3, .int 255, .int 65535, flags, .int 0, .int 7, interrupts]
    (State.load (.object [("cpu", state), ("version", .int 1)])).toOption.map
      (fun s ↦ (s.registers.sp, s.pc, s.stall)) = some (0xFF, 0xFFFF, 7) := by
  cbv

end Emulator

end Mos6502
