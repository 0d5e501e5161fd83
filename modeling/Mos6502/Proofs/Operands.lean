import Mos6502.Proofs.Fetching

/-!
What operands are. A mode says which bytes an operand is put together from and how: `Resolves` gives the
rule of each mode, as sums of numbers cut back to the size of what they address. Four rules of wrapping
meet there. On page zero a sum is cut back to a byte, so that it stays on the page; an address that a
register is added to is cut back to an address; the second byte of a pointer comes from the page of the
first; and a branch goes a signed distance from the next instruction.

Indexing leaves a page exactly when the low byte of the base and the index carry (`isIndexed_add`), also
where the sum comes back from the last address to the first.

The bytes are those that a recorder on the bus notes, so all this holds on every bus, also on one whose
reads have side effects.
-/

set_option autoImplicit false

namespace Mos6502

/-! ### The rules of the modes -/

/-- The byte in an index register. -/
def Index.value (x y : UInt8) : Index → UInt8
  | .x => x
  | .y => y

namespace Mode

/-- The mode that adds a register to an address on page zero. -/
def zeroPageIndexed : Index → Mode
  | .x => .zeroPageX
  | .y => .zeroPageY

/-- The mode that adds a register to an address. -/
def absoluteIndexed : Index → Mode
  | .x => .absoluteX
  | .y => .absoluteY

/-- Whether the operands of a mode lie on page zero. -/
def onPageZero : Mode → Bool
  | .zeroPage | .zeroPageX | .zeroPageY => true
  | _ => false

end Mode

/-- The reads that find a word, its low byte at one address and then its high byte at another. -/
def wordReads (first second word : UInt16) : List Access :=
  [.read first (lowByte word), .read second (highByte word)]

/-- An address is a base with an index added, and this says whether it lies on another page. -/
structure IsIndexed (base : UInt16) (index : UInt8) (address : UInt16) (crossed : Bool) : Prop where
  toNat_eq : address.toNat = (base.toNat + index.toNat) % 65536
  crossed_iff_highByte : crossed = true ↔ highByte address ≠ highByte base
  crossed_iff_carry : crossed = true ↔ 255 < base.toNat % 256 + index.toNat

/-- The second address follows the first within its page, which is left at neither end. -/
structure FollowsOnPage (first second : UInt16) : Prop where
  page_eq : second.toNat / 256 = first.toNat / 256
  place_eq : second.toNat % 256 = (first.toNat + 1) % 256

/-- The rule of each mode: what is read to find the operand of an instruction at `pc`, and what the
operand is, given the index registers. -/
inductive Resolves (pc : UInt16) (x y : UInt8) : Mode → List Access → Resolved → Prop
  | implied : Resolves pc x y .implied [] ⟨.implied, false⟩
  | accumulator : Resolves pc x y .accumulator [] ⟨.accumulator, false⟩
  | immediate (value : UInt8) :
    Resolves pc x y .immediate [.read (pc + 1) value] ⟨.immediate value, false⟩
  | zeroPage (address : UInt8) :
    Resolves pc x y .zeroPage [.read (pc + 1) address] ⟨.zeroPage address none, false⟩
  | zeroPageIndexed (register : Index) {base address : UInt8}
    (hsum : address.toNat = (base.toNat + (register.value x y).toNat) % 256) :
    Resolves pc x y (.zeroPageIndexed register) [.read (pc + 1) base]
      ⟨.zeroPage address (some register), false⟩
  | relative {distance : UInt8} {target : UInt16}
    (hsum : (target.toNat : Int) = (pc.toNat + 2 + distance.toInt8.toInt) % 65536) :
    Resolves pc x y .relative [.read (pc + 1) distance] ⟨.relative target, false⟩
  | absolute (address : UInt16) :
    Resolves pc x y .absolute (wordReads (pc + 1) (pc + 2) address) ⟨.absolute address none, false⟩
  | absoluteIndexed (register : Index) {base address : UInt16} {crossed : Bool}
    (hsum : IsIndexed base (register.value x y) address crossed) :
    Resolves pc x y (.absoluteIndexed register) (wordReads (pc + 1) (pc + 2) base)
      ⟨.absolute address (some register), crossed⟩
  | indirect {pointer second target : UInt16} (hpage : FollowsOnPage pointer second) :
    Resolves pc x y .indirect
      (wordReads (pc + 1) (pc + 2) pointer ++ wordReads pointer second target)
      ⟨.indirect target, false⟩
  | indirectX {base : UInt8} {first second address : UInt16}
    (hfirst : first.toNat = (base.toNat + x.toNat) % 256)
    (hsecond : second.toNat = (base.toNat + x.toNat + 1) % 256) :
    Resolves pc x y .indirectX (.read (pc + 1) base :: wordReads first second address)
      ⟨.indirectResolved address, false⟩
  | indirectY {pointer : UInt8} {first second base address : UInt16} {crossed : Bool}
    (hfirst : first.toNat = pointer.toNat) (hsecond : second.toNat = (pointer.toNat + 1) % 256)
    (hsum : IsIndexed base y address crossed) :
    Resolves pc x y .indirectY (.read (pc + 1) pointer :: wordReads first second base)
      ⟨.indirectResolved address, crossed⟩

namespace Resolves

variable {pc : UInt16} {x y : UInt8} {mode : Mode} {reads : List Access} {resolved : Resolved}

theorem of_reads {noted : List Access} (hreads : noted = reads)
    (hresolves : Resolves pc x y mode reads resolved) : Resolves pc x y mode noted resolved :=
  hreads ▸ hresolves

/-- An operand on page zero is there with its index added. -/
theorem highByte_eq_zero (hresolves : Resolves pc x y mode reads resolved)
    (hmode : mode.onPageZero = true) {address : UInt16}
    (haddress : resolved.operand.address? = some address) : highByte address = 0 := by
  cases hresolves with
  | zeroPage | zeroPageIndexed =>
    obtain rfl := Option.some.inj haddress
    exact highByte_word _ 0
  | absoluteIndexed register => cases register <;> cases hmode
  | _ => cases hmode

/-- A page can only be crossed from a base that a register is added to. -/
theorem addsToBase_of_crossed (hresolves : Resolves pc x y mode reads resolved)
    (hcrossed : resolved.crossed = true) : mode.addsToBase = true := by
  cases hresolves with
  | absoluteIndexed register => cases register <;> rfl
  | indirectY => rfl
  | _ => cases hcrossed

end Resolves

/-! ### Sums of addresses -/

/-- A byte counted as a signed distance. -/
theorem toInt_toInt8 (b : UInt8) :
    b.toInt8.toInt = if b.toNat < 128 then (b.toNat : Int) else b.toNat - 256 := by
  rw [Int8.toInt, UInt8.toBitVec_toInt8, BitVec.toInt_eq_toNat_cond]
  simp only [UInt8.toNat_toBitVec]
  split <;> split <;> omega

/-- Adding the word that a byte stands for goes its signed distance. -/
theorem toNat_add_signExtend (w : UInt16) (b : UInt8) :
    ((w + signExtend b).toNat : Int) = (w.toNat + b.toInt8.toInt) % 65536 := by
  have hbyte := b.toNat_lt
  have hsign : (signExtend b).toNat = if b.toNat < 128 then b.toNat else b.toNat + 65280 := by
    have hlow : b < 0x80 ↔ b.toNat < 128 := UInt8.lt_iff_toNat_lt
    rw [signExtend, apply_ite UInt16.toNat, toNat_word, toNat_word]
    simp [hlow, Nat.add_comm]
  rw [UInt16.toNat_add, hsign, toInt_toInt8]
  split <;> omega

/-- Adding an index leaves the page of the base exactly if the low bytes carry. -/
theorem isIndexed_add (base : UInt16) (index : UInt8) :
    IsIndexed base index (base + word index 0) (crossesPage base (base + word index 0)) := by
  have hindex := index.toNat_lt
  have hbase := base.toNat_lt
  have hsum : (base + word index 0).toNat = (base.toNat + index.toNat) % 65536 := by simp
  have hpage : crossesPage base (base + word index 0) = true ↔
      highByte (base + word index 0) ≠ highByte base := by
    rw [crossesPage_eq, decide_eq_true_iff]
  refine ⟨hsum, hpage, hpage.trans ?_⟩
  rw [Ne, ← UInt8.toNat_inj, toNat_highByte, toNat_highByte, hsum]
  omega

theorem followsOnPage_nextOnPage (address : UInt16) : FollowsOnPage address (nextOnPage address) := by
  have hplace := Nat.mod_lt (address.toNat + 1) (Nat.zero_lt_succ 255)
  have hnext : (nextOnPage address).toNat =
      address.toNat / 256 * 256 + (address.toNat + 1) % 256 := by
    simp [nextOnPage]
  constructor <;> omega

/-- On page zero the address after the last one is the first one. -/
theorem toNat_nextOnPage_word (b : UInt8) : (nextOnPage (word b 0)).toNat = (b.toNat + 1) % 256 := by
  simp [nextOnPage]

/-! ### Resolving follows the rules -/

variable {M : Type} [Bus M]

namespace Recorder

theorem toList_accesses_readWord (recorder : Recorder M) (address : UInt16) :
    (Bus.readWord recorder address).2.accesses.toList =
      recorder.accesses.toList ++
        wordReads address (address + 1) (Bus.readWord recorder address).1 := by
  simp [Bus.readWord, Bus.read, wordReads]

theorem toList_accesses_readPointer_eq (recorder : Recorder M) (address : UInt16) :
    (Bus.readPointer recorder address).2.accesses.toList =
      recorder.accesses.toList ++
        wordReads address (nextOnPage address) (Bus.readPointer recorder address).1 := by
  have hreads : wordReads address (nextOnPage address) (Bus.readPointer recorder address).1 =
      readsOfPointer recorder.bus address := by
    simp [wordReads, Bus.readPointer, readsOfPointer, Bus.read]
  rw [toList_accesses_readPointer, hreads]

end Recorder

namespace Operand

/-- What a recorder notes while an operand is resolved follows the rule of its mode. -/
theorem resolves_resolve (mode : Mode) (pc : UInt16) (x y : UInt8) (mem : M) :
    let seen := resolve mode pc x y ({ bus := mem } : Recorder M)
    Resolves pc x y mode seen.2.accesses.toList seen.1 := by
  -- Every mode with an operand begins with a byte or with a word, and some follow it as a pointer.
  let start : Recorder M := { bus := mem }
  let byte := Bus.read start (pc + 1)
  let argument := Bus.readWord start (pc + 1)
  have hbyte : byte.2.accesses.toList = [.read (pc + 1) byte.1] :=
    start.toList_accesses_read (pc + 1)
  have hargument : argument.2.accesses.toList = wordReads (pc + 1) (pc + 2) argument.1 := by
    have hsecond : pc + 2 = pc + 1 + 1 := by rw [UInt16.add_assoc]; rfl
    rw [hsecond]
    exact start.toList_accesses_readWord (pc + 1)
  have hbytePointer (address : UInt8) :
      (Bus.readPointer byte.2 (word address 0)).2.accesses.toList =
        .read (pc + 1) byte.1 :: wordReads (word address 0) (nextOnPage (word address 0))
          (Bus.readPointer byte.2 (word address 0)).1 := by
    rw [Recorder.toList_accesses_readPointer_eq, hbyte]
    rfl
  cases mode with
  | implied => exact .implied
  | accumulator => exact .accumulator
  | immediate => exact .immediate byte.1
  | zeroPage => exact .zeroPage byte.1
  | zeroPageX => exact .zeroPageIndexed .x (UInt8.toNat_add byte.1 x)
  | zeroPageY => exact .zeroPageIndexed .y (UInt8.toNat_add byte.1 y)
  | relative =>
    refine .relative ?_
    rw [toNat_add_signExtend]
    simp
  | absolute => exact .of_reads hargument (.absolute argument.1)
  | absoluteX => exact .of_reads hargument (.absoluteIndexed .x (isIndexed_add argument.1 x))
  | absoluteY => exact .of_reads hargument (.absoluteIndexed .y (isIndexed_add argument.1 y))
  | indirect =>
    have hpointer := argument.2.toList_accesses_readPointer_eq argument.1
    rw [hargument] at hpointer
    exact .of_reads hpointer (.indirect (followsOnPage_nextOnPage argument.1))
  | indirectX =>
    refine .of_reads (hbytePointer (byte.1 + x)) (.indirectX ?_ ?_)
    · simp
    · rw [toNat_nextOnPage_word]
      simp
  | indirectY =>
    refine .of_reads (hbytePointer byte.1) (.indirectY ?_ ?_ (isIndexed_add _ y))
    · simp
    · rw [toNat_nextOnPage_word]

/-- How operands are found. Whatever the program counter, the index registers and the bus are, an operand
is found with the reads of its mode, and it is what the rule of the mode makes of them: sums on page zero
stay on page zero, sums of addresses wrap at the end of memory, pointers stay on their page, branches go a
signed distance, and a page is crossed exactly where an address that a register was added to lies on
another page than its base, which is where their low bytes carry. -/
theorem resolve_follows_mode (mode : Mode) (pc : UInt16) (x y : UInt8) (mem : M) :
    let seen := resolve mode pc x y ({ bus := mem } : Recorder M)
    resolve mode pc x y mem = (seen.1, seen.2.bus) ∧
      Resolves pc x y mode seen.2.accesses.toList seen.1 ∧
      (mode.onPageZero = true →
        ∀ address, seen.1.operand.address? = some address → highByte address = 0) ∧
      (seen.1.crossed = true → mode.addsToBase = true) := by
  intro seen
  have hresolves := resolves_resolve mode pc x y mem
  obtain ⟨hresolved, hbus⟩ := Recorder.resolve_bus mode pc x y ({ bus := mem } : Recorder M)
  exact ⟨Prod.ext hresolved.symm hbus.symm, hresolves,
    fun hmode address ↦ hresolves.highByte_eq_zero hmode, hresolves.addsToBase_of_crossed⟩

end Operand

end Mos6502
