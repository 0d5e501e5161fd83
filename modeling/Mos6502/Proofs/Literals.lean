import Mos6502.Json.Printer
import Mos6502.Json.Reader.Any

/-!
Numbers and strings as they stand in a text, and that readers take them off it as they stand.

A literal is a list of characters that a text may hold in one piece: a word, a numeral or a string. A
string has many spellings, because every character may be escaped in some way; `IsText` relates a
spelling to what it spells, and what a printer writes is one of the spellings. `IsScalar` gathers the
literals that are values by themselves. They are only told apart from what is no literal, for whoever
skips a value need not know it; so it takes in numerals that are too large for a number and escapes
that stand for no character.

A numeral ends where it cannot go on. That is why what is said of readers of numbers asks for a text
that does not go on (`Apart`).
-/

set_option autoImplicit false

namespace Mos6502.Json

namespace Reader

variable {α β : Type}

/-! ### What readers do one after the other -/

theorem bind_of_ok {reader : Reader α} {text rest : List Char} {a : α}
    (hreader : reader text = .ok (a, rest)) (next : α → Reader β) :
    (reader >>= next) text = next a rest :=
  congrArg (· >>= fun taken : α × List Char ↦ next taken.1 taken.2) hreader

theorem map_of_ok {reader : Reader α} {text rest : List Char} {a : α}
    (hreader : reader text = .ok (a, rest)) (f : α → β) :
    (f <$> reader) text = .ok (f a, rest) :=
  (congrFun (map_eq_pure_bind f reader) text).trans (bind_of_ok hreader fun a ↦ pure (f a))

theorem ite_bind (p : Prop) [Decidable p] (first second : Reader α) (next : α → Reader β) :
    (if p then first else second) >>= next = if p then first >>= next else second >>= next := by
  split <;> rfl

theorem throw_bind (fault : Fault) (next : α → Reader β) :
    (throw fault : Reader α) >>= next = throw fault :=
  rfl

theorem peek?_eq (text : List Char) : peek? text = .ok (text.head?, text) :=
  rfl

theorem get_eq (text : List Char) : (get : Reader (List Char)) text = .ok (text, text) :=
  rfl

theorem next_cons (c : Char) (rest : List Char) : next (c :: rest) = .ok (c, rest) :=
  rfl

theorem discard_next_cons (c : Char) (rest : List Char) :
    (discard next : Reader Unit) (c :: rest) = .ok ((), rest) :=
  rfl

/-- Blanks are passed over on the way to the next character. -/
theorem peek_append {blanks : List Char} (hblanks : ∀ b ∈ blanks, isBlank b = true) {c : Char}
    (hc : isBlank c = false) (rest : List Char) :
    peek (blanks ++ c :: rest) = .ok (c, c :: rest) := by
  have hdrop : (blanks ++ c :: rest).dropWhile isBlank = c :: rest := by
    rw [List.dropWhile_append_of_pos hblanks, List.dropWhile_cons_of_neg (by simp [hc])]
  have hskip : skipBlanks (blanks ++ c :: rest) = .ok ((), c :: rest) :=
    congrArg (fun text ↦ Except.ok ((), text)) hdrop
  rw [peek, bind_of_ok hskip]
  rfl

theorem expect_append (literal rest : List Char) :
    expect literal (literal ++ rest) = .ok ((), rest) := by
  induction literal with
  | nil => rfl
  | cons c literal ih =>
    rw [expect, List.cons_append, bind_of_ok (next_cons ..), if_pos rfl]
    exact ih

end Reader

/-! ### Numerals -/

/-- Digits, at least one. -/
structure AreDigits (ds : List Char) : Prop where
  ne_nil : ds ≠ []
  isDigit : ∀ d ∈ ds, d.isDigit = true

theorem AreDigits.head?_append_ne {ds : List Char} (hds : AreDigits ds) (rest : List Char) {c : Char}
    (hc : c.isDigit = false) : (ds ++ rest).head? ≠ some c := by
  obtain ⟨d, ds, rfl⟩ := List.exists_cons_of_ne_nil hds.ne_nil
  rintro ⟨⟩
  rw [hds.isDigit c List.mem_cons_self] at hc
  cases hc

/-- The fraction of a numeral, which may be missing. -/
inductive IsFraction : List Char → Prop where
  | missing : IsFraction []
  | digits {ds : List Char} (hds : AreDigits ds) : IsFraction ('.' :: ds)

/-- The exponent of a numeral, which may be missing. -/
inductive IsExponent : List Char → Prop where
  | missing : IsExponent []
  | digits {mark : Char} {sign ds : List Char} (hmark : mark = 'e' ∨ mark = 'E')
      (hsign : sign = [] ∨ sign = ['+'] ∨ sign = ['-']) (hds : AreDigits ds) :
      IsExponent (mark :: (sign ++ ds))

/-- A numeral: no other digit follows a zero in front. -/
inductive IsNumeral : List Char → Prop where
  | parts {sign whole fraction exponent : List Char} (hsign : sign = [] ∨ sign = ['-'])
      (hwhole : AreDigits whole) (hzero : whole.head? = some '0' → whole = ['0'])
      (hfraction : IsFraction fraction) (hexponent : IsExponent exponent) :
      IsNumeral (sign ++ (whole ++ (fraction ++ exponent)))

/-- A numeral in front of such a text does not go on in it. -/
def Apart (rest : List Char) : Prop :=
  ∀ c ∈ rest.head?, c.isDigit = false ∧ c ≠ '.' ∧ c ≠ 'e' ∧ c ≠ 'E'

theorem Apart.head?_ne {rest : List Char} (hrest : Apart rest) :
    rest.head? ≠ some '.' ∧ rest.head? ≠ some 'e' ∧ rest.head? ≠ some 'E' :=
  ⟨fun hc ↦ (hrest '.' hc).2.1 rfl, fun hc ↦ (hrest 'e' hc).2.2.1 rfl,
    fun hc ↦ (hrest 'E' hc).2.2.2 rfl⟩

/-- The values of digits. -/
def digitValues (ds : List Char) : List Nat :=
  ds.map fun c ↦ c.toNat - '0'.toNat

namespace Reader

/-- Takes the sign of a numeral. -/
def minus : Reader Bool := do
  let negative := (← peek?) == some '-'
  if negative then discard next
  return negative

/-- Takes the digits in front of the point. -/
def wholePart : Reader (List Nat) := do
  let whole ← someDigits
  if whole.head? = some 0 ∧ whole.length ≠ 1 then throw .malformed
  return whole

/-- Takes the point and the digits behind it, if there are any. -/
def fractionPart : Reader (List Nat) := do
  if (← peek?) == some '.' then
    discard next
    someDigits
  else return []

/-- Takes the exponent, if there is one. -/
def exponentPart : Reader (Option (Bool × List Nat)) := do
  if (← peek?) == some 'e' || (← peek?) == some 'E' then
    discard next
    let sign ← peek?
    if sign == some '+' || sign == some '-' then discard next
    return some (sign == some '-', ← someDigits)
  else return none

/-- A numeral is taken part by part. -/
theorem numeral_eq :
    numeral = do
      let negative ← minus
      let whole ← wholePart
      let fraction ← fractionPart
      let exponent ← exponentPart
      return { negative, whole, fraction, exponent } := by
  simp only [numeral, minus, wholePart, fractionPart, exponentPart, bind_assoc, pure_bind, ite_bind,
    throw_bind]

theorem someDigits_append {ds rest : List Char} (hds : AreDigits ds)
    (hrest : ∀ c ∈ rest.head?, c.isDigit = false) :
    someDigits (ds ++ rest) = .ok (digitValues ds, rest) := by
  have hstop : rest.takeWhile Char.isDigit = [] ∧ rest.dropWhile Char.isDigit = rest := by
    cases rest with
    | nil => exact ⟨rfl, rfl⟩
    | cons c rest => simp [hrest c rfl]
  have hdigits : digits (ds ++ rest) = .ok (digitValues ds, rest) := by
    show Except.ok (digitValues ((ds ++ rest).takeWhile Char.isDigit),
      (ds ++ rest).dropWhile Char.isDigit) = _
    rw [List.takeWhile_append_of_pos hds.isDigit, List.dropWhile_append_of_pos hds.isDigit,
      hstop.1, hstop.2, List.append_nil]
  obtain ⟨d, ds, rfl⟩ := List.exists_cons_of_ne_nil hds.ne_nil
  rw [someDigits, bind_of_ok (peek?_eq _)]
  simp only [List.cons_append, List.head?_cons, hds.isDigit d List.mem_cons_self, if_true]
  exact hdigits

/-- Only the digit zero has the value zero. -/
theorem eq_zero_of_value {d : Char} (hd : d.isDigit = true) (hvalue : d.toNat - '0'.toNat = 0) :
    d = '0' := by
  have hrange : '0'.toNat ≤ d.toNat := by
    simp only [Char.isDigit, Bool.and_eq_true, decide_eq_true_eq] at hd
    exact hd.1
  exact Char.toNat_inj.mp (by omega)

theorem wholePart_append {whole rest : List Char} (hwhole : AreDigits whole)
    (hzero : whole.head? = some '0' → whole = ['0'])
    (hrest : ∀ c ∈ rest.head?, c.isDigit = false) :
    wholePart (whole ++ rest) = .ok (digitValues whole, rest) := by
  have hlead : ¬((digitValues whole).head? = some 0 ∧ (digitValues whole).length ≠ 1) := by
    rintro ⟨hhead, hlength⟩
    obtain ⟨d, ds, rfl⟩ := List.exists_cons_of_ne_nil hwhole.ne_nil
    obtain rfl : d = '0' :=
      eq_zero_of_value (hwhole.isDigit d List.mem_cons_self) (Option.some.inj hhead)
    rw [hzero rfl] at hlength
    exact hlength rfl
  rw [wholePart, bind_of_ok (someDigits_append hwhole hrest), if_neg hlead]
  rfl

/-- Where no minus follows, there is no sign. -/
theorem minus_of_missing {rest : List Char} (hrest : rest.head? ≠ some '-') :
    minus rest = .ok (false, rest) := by
  rw [minus, bind_of_ok (peek?_eq _), beq_false_of_ne hrest]
  rfl

theorem minus_append {sign rest : List Char} (hsign : sign = [] ∨ sign = ['-'])
    (hrest : rest.head? ≠ some '-') : ∃ negative, minus (sign ++ rest) = .ok (negative, rest) := by
  obtain rfl | rfl := hsign
  · exact ⟨false, minus_of_missing hrest⟩
  · exact ⟨true, rfl⟩

/-- Where no point follows, there is no fraction. -/
theorem fractionPart_of_missing {rest : List Char} (hrest : rest.head? ≠ some '.') :
    fractionPart rest = .ok ([], rest) := by
  rw [fractionPart, bind_of_ok (peek?_eq _), beq_false_of_ne hrest]
  rfl

theorem fractionPart_append {fraction rest : List Char} (hfraction : IsFraction fraction)
    (hrest : ∀ c ∈ rest.head?, c.isDigit = false ∧ c ≠ '.') :
    ∃ ds, fractionPart (fraction ++ rest) = .ok (ds, rest) := by
  cases hfraction with
  | missing => exact ⟨[], fractionPart_of_missing fun hpoint ↦ (hrest '.' hpoint).2 rfl⟩
  | digits hds => exact ⟨_, someDigits_append hds fun c hc ↦ (hrest c hc).1⟩

/-- Where neither mark of an exponent follows, there is none. -/
theorem exponentPart_of_missing {rest : List Char}
    (hrest : rest.head? ≠ some 'e' ∧ rest.head? ≠ some 'E') :
    exponentPart rest = .ok (none, rest) := by
  rw [exponentPart, bind_of_ok (peek?_eq _), bind_of_ok (peek?_eq _), beq_false_of_ne hrest.1,
    beq_false_of_ne hrest.2]
  rfl

theorem exponentPart_append {exponent rest : List Char} (hexponent : IsExponent exponent)
    (hrest : Apart rest) : ∃ e, exponentPart (exponent ++ rest) = .ok (e, rest) := by
  cases hexponent with
  | missing => exact ⟨none, exponentPart_of_missing hrest.head?_ne.2⟩
  | @digits mark sign ds hmark hsign hds =>
    have htaken := someDigits_append hds fun c hc ↦ (hrest c hc).1
    obtain ⟨d, ds, rfl⟩ := List.exists_cons_of_ne_nil hds.ne_nil
    have hd := hds.isDigit d List.mem_cons_self
    have hplus : (some d == some '+') = false := beq_false_of_ne (by rintro ⟨⟩; cases hd)
    have hminus : (some d == some '-') = false := beq_false_of_ne (by rintro ⟨⟩; cases hd)
    have hmarked : (some mark == some 'e' || some mark == some 'E') = true := by
      obtain rfl | rfl := hmark <;> rfl
    refine ⟨some (decide (sign = ['-']), digitValues (d :: ds)), ?_⟩
    rw [exponentPart, bind_of_ok (peek?_eq _), bind_of_ok (peek?_eq _)]
    simp only [List.cons_append, List.head?_cons, hmarked, if_true]
    rw [bind_of_ok (discard_next_cons ..), bind_of_ok (peek?_eq _)]
    obtain rfl | rfl | rfl := hsign
    · simp only [List.nil_append, List.cons_append, List.head?_cons, hplus, hminus, Bool.or_self,
        Bool.false_eq_true, if_false]
      exact bind_of_ok htaken _
    · exact (bind_of_ok (discard_next_cons '+' _) _).trans (bind_of_ok htaken _)
    · exact (bind_of_ok (discard_next_cons '-' _) _).trans (bind_of_ok htaken _)

/-- A numeral is taken as it stands in a text that does not go on. -/
theorem numeral_append {literal rest : List Char} (hliteral : IsNumeral literal)
    (hrest : Apart rest) : ∃ n, numeral (literal ++ rest) = .ok (n, rest) := by
  cases hliteral with
  | @parts sign whole fraction exponent hsign hwhole hzero hfraction hexponent =>
    have hafterExponent : ∀ c ∈ (exponent ++ rest).head?, c.isDigit = false ∧ c ≠ '.' := by
      cases hexponent with
      | missing => exact fun c hc ↦ ⟨(hrest c hc).1, (hrest c hc).2.1⟩
      | digits hmark =>
        rintro c ⟨⟩
        obtain rfl | rfl := hmark <;> decide
    have hafterFraction : ∀ c ∈ (fraction ++ (exponent ++ rest)).head?, c.isDigit = false := by
      cases hfraction with
      | missing => exact fun c hc ↦ (hafterExponent c hc).1
      | digits =>
        rintro c ⟨⟩
        rfl
    obtain ⟨negative, hnegative⟩ := minus_append hsign
      (hwhole.head?_append_ne (fraction ++ (exponent ++ rest)) (c := '-') rfl)
    obtain ⟨ds, hds⟩ := fractionPart_append hfraction hafterExponent
    obtain ⟨e, he⟩ := exponentPart_append hexponent hrest
    refine ⟨⟨negative, digitValues whole, ds, e⟩, ?_⟩
    simp only [List.append_assoc]
    rw [numeral_eq, bind_of_ok hnegative,
      bind_of_ok (wholePart_append hwhole hzero hafterFraction), bind_of_ok hds, bind_of_ok he]
    rfl

theorem skipNumber_append {literal rest : List Char} (hliteral : IsNumeral literal)
    (hrest : Apart rest) : skipNumber (literal ++ rest) = .ok ((), rest) := by
  obtain ⟨n, hn⟩ := numeral_append hliteral hrest
  rw [skipNumber, hn]

end Reader

/-! ### Natural numbers -/

theorem areDigits_toDigits (n : Nat) : AreDigits (Nat.toDigits 10 n) :=
  ⟨Nat.toDigits_ne_nil, fun _ ↦ Nat.isDigit_of_mem_toDigits (by decide) (by decide)⟩

/-- Only zero has a zero in front. -/
theorem toDigits_eq_of_head? {n : Nat} (hhead : (Nat.toDigits 10 n).head? = some '0') :
    Nat.toDigits 10 n = ['0'] := by
  induction n using Nat.base_induction 10 (by decide) with
  | single n hn =>
    rw [Nat.toDigits_of_lt_base hn] at hhead ⊢
    rw [Option.some.inj hhead]
  | digit n d hd hn ih =>
    obtain ⟨c, cs, hcs⟩ := List.exists_cons_of_ne_nil (Nat.toDigits_ne_nil (n := n) (b := 10))
    rw [← Nat.toDigits_append_toDigits (by decide) hn hd, hcs] at hhead
    rw [hcs] at ih
    have hzero := Nat.ofDigitChars_ten_toDigits (n := n)
    rw [hcs, ih hhead] at hzero
    exact absurd hzero (Nat.ne_of_lt hn)

/-- Digits are gathered into what they stand for, if that fits. -/
theorem gatherDigits_digitValues (ds : List Char) (n : Nat)
    (hfits : Nat.ofDigitChars 10 ds n < UInt64.size) :
    gatherDigits (digitValues ds) n = (Nat.ofDigitChars 10 ds n, 0) := by
  induction ds generalizing n with
  | nil => rw [Nat.ofDigitChars_nil]; rfl
  | cons d ds ih =>
    rw [Nat.ofDigitChars_cons, Nat.mul_comm 10 n] at hfits ⊢
    have hfirst : n * 10 + (d.toNat - '0'.toNat) < UInt64.size := by
      rw [Nat.ofDigitChars_eq_ofDigitChars_zero] at hfits
      have hpos : 1 * (n * 10 + (d.toNat - '0'.toNat)) ≤
          10 ^ ds.length * (n * 10 + (d.toNat - '0'.toNat)) :=
        Nat.mul_le_mul_right _ (Nat.pow_pos (by decide))
      omega
    exact (if_pos hfirst).trans (ih _ hfits)

namespace Reader

/-- A natural number that fits is taken for what it is. -/
theorem number_toDigits_append {n : Nat} (hn : n < UInt64.size) {rest : List Char}
    (hrest : Apart rest) :
    number (Nat.toDigits 10 n ++ rest) = .ok (.integer n, rest) := by
  have hdigits := areDigits_toDigits n
  have hnumeral : numeral (Nat.toDigits 10 n ++ rest) =
      .ok (⟨false, digitValues (Nat.toDigits 10 n), [], none⟩, rest) := by
    rw [numeral_eq, bind_of_ok (minus_of_missing (hdigits.head?_append_ne rest rfl)),
      bind_of_ok (wholePart_append hdigits toDigits_eq_of_head? fun c hc ↦ (hrest c hc).1),
      bind_of_ok (fractionPart_of_missing hrest.head?_ne.1),
      bind_of_ok (exponentPart_of_missing hrest.head?_ne.2)]
    rfl
  have hgather := gatherDigits_digitValues (Nat.toDigits 10 n) 0
    (by rw [Nat.ofDigitChars_ten_toDigits]; exact hn)
  rw [Nat.ofDigitChars_ten_toDigits] at hgather
  rw [number, bind_of_ok hnumeral, Numeral.value?, hgather]
  rfl

end Reader

/-! ### Strings -/

/-- Four hexadecimal digits, and the number that they stand for. -/
inductive IsQuad : List Char → Nat → Prop where
  | digits {a b c d : Char} {p q r s : Nat} (ha : Reader.hexValue? a = some p)
      (hb : Reader.hexValue? b = some q) (hc : Reader.hexValue? c = some r)
      (hd : Reader.hexValue? d = some s) : IsQuad [a, b, c, d] (((p * 16 + q) * 16 + r) * 16 + s)

/-- A character given by its number; beyond 16 bits it is given by two surrogates. -/
inductive IsNumbered : List Char → Char → Prop where
  | unit {quad : List Char} {unit : Nat} (hquad : IsQuad quad unit)
      (hunit : unit < 0xD800 ∨ 0xDFFF < unit) : IsNumbered quad (Char.ofNat unit)
  | pair {quad quad' : List Char} {high low : Nat} (hquad : IsQuad quad high)
      (hhigh : 0xD800 ≤ high ∧ high ≤ 0xDBFF) (hquad' : IsQuad quad' low)
      (hlow : 0xDC00 ≤ low ∧ low ≤ 0xDFFF) :
      IsNumbered (quad ++ '\\' :: 'u' :: quad')
        (Char.ofNat (0x10000 + (high - 0xD800) * 0x400 + (low - 0xDC00)))

/-- Four digits that need not be the number of a character. A blank stands for what they give. -/
inductive IsUnread : List Char → Char → Prop where
  | unit {quad : List Char} {unit : Nat} (hquad : IsQuad quad unit) : IsUnread quad ' '

/-- The letters that stand for a character behind a backslash. -/
def letters : List (Char × Char) :=
  [('"', '"'), ('\\', '\\'), ('/', '/'), ('b', '\x08'), ('f', '\x0c'), ('n', '\n'), ('r', '\r'),
    ('t', '\t')]

/-- What stands between the quotes of a string, and the characters that it spells. It depends on
where a text is read which numbers it may give. -/
inductive Spells (numbered : List Char → Char → Prop) : List Char → List Char → Prop where
  | nil : Spells numbered [] []
  | plain {c : Char} {body cs : List Char} (hprintable : 0x20 ≤ c.toNat) (hquote : c ≠ '"')
      (hbackslash : c ≠ '\\') (hbody : Spells numbered body cs) :
      Spells numbered (c :: body) (c :: cs)
  | letter {k c : Char} {body cs : List Char} (hletter : (k, c) ∈ letters)
      (hbody : Spells numbered body cs) : Spells numbered ('\\' :: k :: body) (c :: cs)
  | number {u : List Char} {c : Char} {body cs : List Char} (hnumber : numbered u c)
      (hbody : Spells numbered body cs) :
      Spells numbered ('\\' :: 'u' :: (u ++ body)) (c :: cs)

/-- A string in quotes, and what it spells. -/
inductive IsText (numbered : List Char → Char → Prop) : List Char → String → Prop where
  | quoted {body : List Char} {s : String} (hbody : Spells numbered body s.toList) :
      IsText numbered ('"' :: (body ++ ['"'])) s

namespace Reader

theorem hexQuad_append {quad : List Char} {unit : Nat} (hquad : IsQuad quad unit)
    (rest : List Char) : hexQuad (quad ++ rest) = .ok (unit, rest) := by
  cases hquad with
  | @digits a b c d p q r s ha hb hc hd =>
    have hlong : ¬[a, b, c, d].foldl (fun n c ↦ n + c.utf8Size) 0 < 4 := by
      have hsizea := a.utf8Size_pos
      have hsizeb := b.utf8Size_pos
      have hsizec := c.utf8Size_pos
      have hsized := d.utf8Size_pos
      simp only [List.foldl_cons, List.foldl_nil]
      omega
    have hvalues : [a, b, c, d].mapM hexValue? = some [p, q, r, s] := by
      simp [ha, hb, hc, hd]
    have htake : ([a, b, c, d] ++ rest).take 4 = [a, b, c, d] := rfl
    rw [hexQuad, bind_of_ok (get_eq _), htake, if_neg hlong, hvalues]
    rfl

theorem numberedChar_append {u : List Char} {c : Char} (hnumber : IsNumbered u c)
    (rest : List Char) : numberedChar (u ++ rest) = .ok (c, rest) := by
  cases hnumber with
  | @unit quad unit hquad hunit =>
    have hlow : ¬(0xDC00 ≤ unit ∧ unit ≤ 0xDFFF) := by omega
    have hhigh : ¬(0xD800 ≤ unit ∧ unit ≤ 0xDBFF) := by omega
    rw [numberedChar, bind_of_ok (hexQuad_append hquad rest), if_neg hlow, if_neg hhigh]
    rfl
  | @pair quad quad' high low hquad hhigh hquad' hlow =>
    have hfirst : ¬(0xDC00 ≤ high ∧ high ≤ 0xDFFF) := by omega
    rw [List.append_assoc, numberedChar, bind_of_ok (hexQuad_append hquad _), if_neg hfirst,
      if_pos hhigh]
    refine (bind_of_ok (expect_append ['\\', 'u'] (quad' ++ rest)) _).trans ?_
    rw [bind_of_ok (hexQuad_append hquad' rest), if_pos hlow]
    rfl

theorem unread_append {u : List Char} {c : Char} (hnumber : IsUnread u c) (rest : List Char) :
    ((fun _ ↦ ' ') <$> hexQuad) (u ++ rest) = .ok (c, rest) := by
  cases hnumber with
  | unit hquad => exact map_of_ok (hexQuad_append hquad rest) _

/-- What a letter behind a backslash stands for is taken for it. -/
theorem escaped_letter {k c : Char} (hletter : (k, c) ∈ letters) (numbered : Reader Char)
    (rest : List Char) : escaped numbered (k :: rest) = .ok (c, rest) := by
  simp only [letters, List.mem_cons, Prod.mk.injEq, List.not_mem_nil, or_false] at hletter
  obtain ⟨rfl, rfl⟩ | ⟨rfl, rfl⟩ | ⟨rfl, rfl⟩ | ⟨rfl, rfl⟩ | ⟨rfl, rfl⟩ | ⟨rfl, rfl⟩ | ⟨rfl, rfl⟩ |
    ⟨rfl, rfl⟩ := hletter <;> rfl

section

variable {numbered : Reader Char} {written : List Char → Char → Prop}
  (hnumbered : ∀ {u : List Char} {c : Char}, written u c →
    ∀ rest, numbered (u ++ rest) = .ok (c, rest))
include hnumbered

/-- The rest of a string is taken up to its closing quote. -/
theorem stringRest_append {body cs : List Char} (hbody : Spells written body cs)
    (taken rest : List Char) (fuel : Nat) (hfuel : body.length < fuel) :
    stringRest numbered taken fuel (body ++ '"' :: rest) =
      .ok (String.ofList (taken.reverse ++ cs), rest) := by
  induction hbody generalizing taken fuel with
  | nil =>
    obtain ⟨fuel, rfl⟩ := Nat.exists_eq_succ_of_ne_zero (Nat.ne_zero_of_lt hfuel)
    rw [List.append_nil]
    rfl
  | @plain c body cs hprintable hquote hbackslash hbody ih =>
    obtain ⟨fuel, rfl⟩ := Nat.exists_eq_succ_of_ne_zero (Nat.ne_zero_of_lt hfuel)
    have hrest := ih (c :: taken) fuel (Nat.lt_of_succ_lt_succ hfuel)
    rw [List.reverse_cons, List.append_assoc] at hrest
    rw [List.cons_append, stringRest, bind_of_ok (next_cons ..)]
    split
    · exact absurd rfl hquote
    · exact absurd rfl hbackslash
    · rw [if_neg (Nat.not_lt.mpr hprintable)]
      exact hrest
  | @letter k c body cs hletter hbody ih =>
    obtain ⟨fuel, rfl⟩ := Nat.exists_eq_succ_of_ne_zero (Nat.ne_zero_of_lt hfuel)
    simp only [List.length_cons] at hfuel
    have hrest := ih (c :: taken) fuel (by omega)
    rw [List.reverse_cons, List.append_assoc] at hrest
    refine (bind_of_ok (next_cons '\\' _) _).trans ?_
    exact (bind_of_ok (escaped_letter hletter numbered _) _).trans hrest
  | @number u c body cs hnumber hbody ih =>
    obtain ⟨fuel, rfl⟩ := Nat.exists_eq_succ_of_ne_zero (Nat.ne_zero_of_lt hfuel)
    simp only [List.length_cons, List.length_append] at hfuel
    have hrest := ih (c :: taken) fuel (by omega)
    rw [List.reverse_cons, List.append_assoc] at hrest
    have hescaped : escaped numbered ('u' :: (u ++ (body ++ '"' :: rest))) =
        .ok (c, body ++ '"' :: rest) :=
      (bind_of_ok (next_cons 'u' _) _).trans (hnumbered hnumber _)
    rw [List.cons_append, List.cons_append, List.append_assoc]
    refine (bind_of_ok (next_cons '\\' _) _).trans ?_
    exact (bind_of_ok hescaped _).trans hrest

/-- A string is taken for what it spells. -/
theorem stringWith_append {literal : List Char} {s : String} (hliteral : IsText written literal s)
    (rest : List Char) : stringWith numbered (literal ++ rest) = .ok (s, rest) := by
  cases hliteral with
  | @quoted body s hbody =>
    have hlength : body.length < (body ++ '"' :: rest).length + 1 := by
      rw [List.length_append]
      omega
    have hrest := stringRest_append hnumbered hbody [] rest _ hlength
    rw [List.cons_append, List.append_assoc]
    refine (bind_of_ok (expect_append ['"'] _) _).trans ((bind_of_ok (get_eq _) _).trans ?_)
    exact hrest.trans (congrArg (fun s ↦ Except.ok (s, rest)) String.ofList_toList)

end

theorem string_append {literal : List Char} {s : String} (hliteral : IsText IsNumbered literal s)
    (rest : List Char) : string (literal ++ rest) = .ok (s, rest) :=
  stringWith_append numberedChar_append hliteral rest

theorem skipString_append {literal : List Char} {s : String} (hliteral : IsText IsUnread literal s)
    (rest : List Char) : skipString (literal ++ rest) = .ok ((), rest) :=
  map_of_ok (stringWith_append unread_append hliteral rest) _

end Reader

theorem hexValue?_digitChar : ∀ n < 16, Reader.hexValue? (Nat.digitChar n) = some n := by
  decide

/-- A character of few bits is the one with the number in its last two digits. -/
theorem isNumbered_toNat {c : Char} (hc : c.toNat < 0x20) :
    IsNumbered ['0', '0', Nat.digitChar (c.toNat / 16), Nat.digitChar (c.toNat % 16)] c := by
  have hquad : IsQuad ['0', '0', Nat.digitChar (c.toNat / 16), Nat.digitChar (c.toNat % 16)]
      (((0 * 16 + 0) * 16 + c.toNat / 16) * 16 + c.toNat % 16) :=
    .digits rfl rfl (hexValue?_digitChar _ (by omega)) (hexValue?_digitChar _ (by omega))
  have hunit : ((0 * 16 + 0) * 16 + c.toNat / 16) * 16 + c.toNat % 16 = c.toNat := by omega
  rw [hunit] at hquad
  have hnumbered := IsNumbered.unit hquad (by omega)
  rwa [Char.ofNat_toNat] at hnumbered

/-- A printed character is one of the ways to spell it. -/
theorem Spells.escapedChar {body cs : List Char} (hbody : Spells IsNumbered body cs) (c : Char) :
    Spells IsNumbered (escapedChar c ++ body) (c :: cs) := by
  unfold Json.escapedChar
  split
  · exact .letter (by decide) hbody
  · exact .letter (by decide) hbody
  · exact .letter (by decide) hbody
  · exact .letter (by decide) hbody
  · exact .letter (by decide) hbody
  · exact .letter (by decide) hbody
  · exact .letter (by decide) hbody
  · split
    · exact .number (isNumbered_toNat ‹_›) hbody
    · exact .plain (Nat.not_lt.mp ‹_›) ‹_› ‹_› hbody

/-- A printed string spells what was printed. -/
theorem isText_escapedString (s : String) : IsText IsNumbered (escapedString s) s := by
  have hspells (cs : List Char) : Spells IsNumbered (cs.flatMap Json.escapedChar) cs := by
    induction cs with
    | nil => exact .nil
    | cons c cs ih =>
      rw [List.flatMap_cons]
      exact ih.escapedChar c
  exact .quoted (hspells s.toList)

/-! ### Values in one piece -/

/-- A value in one piece: a word, a numeral or a string. -/
inductive IsScalar : List Char → Prop where
  | null : IsScalar ['n', 'u', 'l', 'l']
  | true : IsScalar ['t', 'r', 'u', 'e']
  | false : IsScalar ['f', 'a', 'l', 's', 'e']
  | number {literal : List Char} (hliteral : IsNumeral literal) : IsScalar literal
  | text {literal : List Char} {s : String} (hliteral : IsText IsUnread literal s) :
      IsScalar literal

/-- A numeral begins with a sign or a digit. -/
theorem IsNumeral.exists_cons {literal : List Char} (hliteral : IsNumeral literal) :
    ∃ c rest, literal = c :: rest ∧ (c = '-' ∨ c.isDigit = true) := by
  cases hliteral with
  | @parts sign whole fraction exponent hsign hwhole hzero hfraction hexponent =>
    obtain rfl | rfl := hsign
    · obtain ⟨d, ds, rfl⟩ := List.exists_cons_of_ne_nil hwhole.ne_nil
      exact ⟨d, _, rfl, .inr (hwhole.isDigit d List.mem_cons_self)⟩
    · exact ⟨'-', _, rfl, .inl rfl⟩

/-- What begins a numeral begins nothing else, and is no blank. -/
theorem ne_of_begins_numeral {c : Char} (hc : c = '-' ∨ c.isDigit = true) :
    Reader.isBlank c = false ∧ c ≠ 'n' ∧ c ≠ 't' ∧ c ≠ 'f' ∧ c ≠ '"' ∧ c ≠ '[' ∧ c ≠ '\x7b' := by
  have hother (other : Char) (hother : ¬(other = '-' ∨ other.isDigit = true)) : c ≠ other := by
    rintro rfl
    exact hother hc
  refine ⟨?_, hother _ (by decide), hother _ (by decide), hother _ (by decide),
    hother _ (by decide), hother _ (by decide), hother _ (by decide)⟩
  simp only [Reader.isBlank, Bool.or_eq_false_iff]
  exact ⟨⟨⟨beq_false_of_ne (hother _ (by decide)), beq_false_of_ne (hother _ (by decide))⟩,
    beq_false_of_ne (hother _ (by decide))⟩, beq_false_of_ne (hother _ (by decide))⟩

namespace Reader

/-- A value in one piece is skipped as it stands in a text that does not go on. -/
theorem skip_append {literal : List Char} (hliteral : IsScalar literal) {blanks rest : List Char}
    (hblanks : ∀ b ∈ blanks, isBlank b = true) (hrest : Apart rest) :
    skip (blanks ++ (literal ++ rest)) = .ok ((), rest) := by
  rw [skip, bind_of_ok (get_eq _), any]
  cases hliteral with
  | null =>
    refine (bind_of_ok (peek_append hblanks (c := 'n') rfl _) _).trans ?_
    exact bind_of_ok (expect_append ['n', 'u', 'l', 'l'] rest) _
  | true =>
    refine (bind_of_ok (peek_append hblanks (c := 't') rfl _) _).trans ?_
    exact bind_of_ok (expect_append ['t', 'r', 'u', 'e'] rest) _
  | false =>
    refine (bind_of_ok (peek_append hblanks (c := 'f') rfl _) _).trans ?_
    exact bind_of_ok (expect_append ['f', 'a', 'l', 's', 'e'] rest) _
  | number hnumber =>
    have hskip := skipNumber_append hnumber hrest
    obtain ⟨c, tail, rfl, hc⟩ := hnumber.exists_cons
    obtain ⟨hblank, hn, ht, hf, hquote, hbracket, hbrace⟩ := ne_of_begins_numeral hc
    refine (bind_of_ok (peek_append hblanks hblank _) _).trans ?_
    split
    · exact absurd rfl hn
    · exact absurd rfl ht
    · exact absurd rfl hf
    · exact absurd rfl hquote
    · exact absurd rfl hbracket
    · exact absurd rfl hbrace
    · rw [if_pos hc]
      exact hskip
  | text htext =>
    have hskip := skipString_append htext rest
    cases htext with
    | quoted =>
      refine (bind_of_ok (peek_append hblanks (c := '"') rfl _) _).trans ?_
      exact hskip

end Reader

end Mos6502.Json
