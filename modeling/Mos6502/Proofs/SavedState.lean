import Mos6502.SaveState

/-!
A state that is saved can be loaded, and nothing is lost: `State.load_save`. The law of records
behind it is `Decoder.record_object`: an object describes a record as soon as its members fill the
fields one after the other, because the check that comes first looks at the same members.
-/

set_option autoImplicit false

namespace Mos6502

namespace Json.Decoder

/-! ### Numbers -/

/-- An integer in range is the number that it describes. -/
theorem natural_int {expected : String} {bound n : Nat} (hn : n < bound) :
    natural expected bound (.int n) = .ok n := by
  have hrange : 0 ≤ (n : Int) ∧ (n : Int) < bound := ⟨Int.natCast_nonneg n, Int.ofNat_lt.mpr hn⟩
  simp [Value.int, natural, hrange]

@[simp] theorem byte_int (b : UInt8) : byte (.int b.toNat) = .ok b := by
  rw [byte, natural_int b.toNat_lt]
  exact congrArg Except.ok UInt8.ofNat_toNat

@[simp] theorem word_int (w : UInt16) : word (.int w.toNat) = .ok w := by
  rw [word, natural_int w.toNat_lt]
  exact congrArg Except.ok UInt16.ofNat_toNat

@[simp] theorem count_int (n : UInt64) : count (.int n.toNat) = .ok n := by
  rw [count, natural_int n.toNat_lt]
  exact congrArg Except.ok UInt64.ofNat_toNat

/-! ### Records -/

variable {σ : Type} {members : List (String × Value)}

/-- A field takes its value from the member that is named for it. -/
theorem fillByName_of {α : Type} {name : String} {decoder : Decoder α} {put : α → σ → σ} {v : Value}
    {a : α} (hlookup : Value.lookup name members = some v) (hdecode : decoder v = .ok a)
    (record : σ) (fields : List (Field σ)) :
    fillByName members record (.of name decoder put :: fields) =
      fillByName members (put a record) fields := by
  rw [fillByName, Field.of, hlookup]
  simp only [hdecode]
  rfl

/-- Members that fill a record have every field, in a form that the field can be read from. -/
theorem decode_of_fillByName {record filled : σ} {fields : List (Field σ)}
    (hfill : fillByName members record fields = .ok filled) :
    ∀ field ∈ fields, ∃ v change,
      Value.lookup field.name members = some v ∧ field.decode v = .ok change := by
  induction fields generalizing record with
  | nil => simp
  | cons field rest ih =>
    rw [fillByName] at hfill
    cases hlookup : Value.lookup field.name members with
    | none => simp [hlookup] at hfill
    | some v =>
      cases hdecode : field.decode v with
      | error mismatch => simp [hlookup, hdecode, bind, Except.bind] at hfill
      | ok change =>
        simp only [hlookup, hdecode, bind, Except.bind] at hfill
        intro other hother
        obtain rfl | hrest := List.mem_cons.mp hother
        · exact ⟨v, change, hlookup, hdecode⟩
        · exact ih hfill other hrest

/-- The check finds no fault with members that every field can be read from. -/
theorem checkMembers_of_decode {fields : List (Field σ)}
    (hfields : ∀ field ∈ fields, ∃ v change,
      Value.lookup field.name members = some v ∧ field.decode v = .ok change) :
    checkMembers members fields = .ok () := by
  induction fields with
  | nil => rfl
  | cons field rest ih =>
    obtain ⟨⟨v, change, hlookup, hdecode⟩, hrest⟩ := List.forall_mem_cons.mp hfields
    simp only [checkMembers, hlookup, hdecode]
    exact ih hrest

/-- An object describes the record that its members fill. -/
theorem record_object {title : String} {fields : List (Field σ)} {blank filled : σ}
    (hfill : fillByName members blank fields = .ok filled) :
    record title fields blank (.object members) = .ok filled := by
  have hcheck : checkMembers members (ascending fields) = .ok () :=
    checkMembers_of_decode fun field hfield ↦
      decode_of_fillByName hfill field (List.mem_mergeSort.mp hfield)
  simp [record, hcheck, hfill, bind, Except.bind]

end Json.Decoder

open Json (Decoder Value)

@[simp] theorem Flags.ofJson_toJson (f : Flags) : ofJson f.toJson = .ok f :=
  Decoder.record_object rfl

@[simp] theorem InterruptStatus.ofJson_toJson (s : InterruptStatus) : ofJson s.toJson = .ok s :=
  Decoder.record_object rfl

namespace State

@[simp] theorem ofJson_toJson (s : State) : ofJson s.toJson = .ok s := by
  refine Decoder.record_object ?_
  rw [fields, Decoder.fillByName_of rfl (Decoder.byte_int s.registers.a),
    Decoder.fillByName_of rfl (Decoder.byte_int s.registers.x),
    Decoder.fillByName_of rfl (Decoder.byte_int s.registers.y),
    Decoder.fillByName_of rfl (Decoder.byte_int s.registers.sp),
    Decoder.fillByName_of rfl (Decoder.word_int s.pc),
    Decoder.fillByName_of rfl (Flags.ofJson_toJson s.registers.flags),
    Decoder.fillByName_of rfl (Decoder.count_int s.cycles),
    Decoder.fillByName_of rfl (Decoder.count_int s.stall),
    Decoder.fillByName_of rfl (InterruptStatus.ofJson_toJson s.interrupts)]
  rfl

/-- Loading a saved state gives the state back, whatever its counters are. -/
@[simp] theorem load_save (s : State) : load s.save = .ok s := by
  have hversion : savedVersion s.save = version := rfl
  have hmember : s.save.member? "cpu" = some s.toJson := rfl
  rw [load, if_pos hversion, hmember, Option.getD_some, ofJson_toJson]
  rfl

end State

end Mos6502
