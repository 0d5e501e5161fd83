import Mos6502.Proofs.Literals

/-!
Texts and the tokens that they are made of. A token is a literal, or a bracket, comma or colon. Blanks
may stand in front of every token and mean nothing, so what a text says is given by its tokens alone
(`Reader.LaidOut`). What a printer writes for a value consists of the tokens of the value, whatever
the depth at which it stands (`Value.laidOut_write`).
-/

set_option autoImplicit false

namespace Mos6502.Json

namespace Reader

/-- A text consists of tokens, with blanks in front of each of them, and of a rest. -/
inductive LaidOut : List (List Char) → List Char → List Char → Prop where
  | nil (rest : List Char) : LaidOut [] rest rest
  | cons {blanks token text rest : List Char} {tokens : List (List Char)}
      (hblanks : ∀ b ∈ blanks, isBlank b = true) (htokens : LaidOut tokens text rest) :
      LaidOut (token :: tokens) (blanks ++ (token ++ text)) rest

namespace LaidOut

/-- A token need not have a blank in front of it. -/
theorem token {token text rest : List Char} {tokens : List (List Char)}
    (htokens : LaidOut tokens text rest) : LaidOut (token :: tokens) (token ++ text) rest :=
  have hnone : ∀ b ∈ [], isBlank b = true := List.forall_mem_nil _
  cons hnone htokens

/-- Tokens may be written without any blanks. -/
theorem flatten : ∀ tokens : List (List Char), LaidOut tokens tokens.flatten []
  | [] => .nil []
  | _ :: tokens => token (flatten tokens)

theorem append {first second : List (List Char)} {text middle rest : List Char}
    (hfirst : LaidOut first text middle) (hsecond : LaidOut second middle rest) :
    LaidOut (first ++ second) text rest := by
  induction hfirst with
  | nil => exact hsecond
  | cons hblanks _ ih => exact cons hblanks (ih hsecond)

/-- Where tokens end, others begin. -/
theorem exists_of_append {first second : List (List Char)} {text rest : List Char}
    (hlaid : LaidOut (first ++ second) text rest) :
    ∃ middle, LaidOut first text middle ∧ LaidOut second middle rest := by
  induction first generalizing text with
  | nil => exact ⟨text, .nil text, hlaid⟩
  | cons token first ih =>
    cases hlaid with
    | cons hblanks htokens =>
      obtain ⟨middle, hfirst, hsecond⟩ := ih htokens
      exact ⟨middle, cons hblanks hfirst, hsecond⟩

/-- A text is at least as long as its rest. -/
theorem length_le {tokens : List (List Char)} {text rest : List Char}
    (hlaid : LaidOut tokens text rest) : rest.length ≤ text.length := by
  induction hlaid with
  | nil => exact Nat.le_refl _
  | cons _ _ ih =>
    simp only [List.length_append]
    omega

/-- Blanks in front of the first token are blanks in front of it. -/
theorem blanks_append {tokens : List (List Char)} {blanks text rest : List Char}
    (hblanks : ∀ b ∈ blanks, isBlank b = true) (htokens : tokens ≠ [])
    (hlaid : LaidOut tokens text rest) : LaidOut tokens (blanks ++ text) rest := by
  cases hlaid with
  | nil => exact absurd rfl htokens
  | @cons own _ _ _ _ hown hrest =>
    rw [← List.append_assoc]
    exact cons (fun b hb ↦ (List.mem_append.mp hb).elim (hblanks b) (hown b)) hrest

end LaidOut

end Reader

/-- The tokens of a list or an object, given the tokens of its elements or members. -/
def enclosed (opening closing : Char) : List (List (List Char)) → List (List Char)
  | [] => [[opening], [closing]]
  | item :: items => [opening] :: (item ++ (items.flatMap ([','] :: ·) ++ [[closing]]))

theorem enclosed_ne_nil (opening closing : Char) (items : List (List (List Char))) :
    enclosed opening closing items ≠ [] := by
  cases items <;> exact List.cons_ne_nil _ _

/-- The tokens of a member, given those of its value. -/
def memberTokens (name : List Char) (value : List (List Char)) : List (List Char) :=
  name :: [':'] :: value

namespace Value

mutual

/-- The tokens of a value. -/
def tokens : Value → List (List Char)
  | .array elements => enclosed '[' ']' (tokensOfElements elements)
  | .object members => enclosed '\x7b' '\x7d' (tokensOfMembers members)
  | v => [v.write 0]

/-- The tokens of each element of a list. -/
def tokensOfElements : List Value → List (List (List Char))
  | [] => []
  | v :: rest => v.tokens :: tokensOfElements rest

/-- The tokens of each member of an object. -/
def tokensOfMembers : List (String × Value) → List (List (List Char))
  | [] => []
  | (name, v) :: rest => memberTokens (escapedString name) v.tokens :: tokensOfMembers rest

end

theorem tokensOfElements_eq (elements : List Value) :
    tokensOfElements elements = elements.map tokens := by
  induction elements with
  | nil => rfl
  | cons v rest ih => rw [tokensOfElements, ih, List.map_cons]

theorem tokensOfMembers_eq (members : List (String × Value)) :
    tokensOfMembers members =
      members.map fun m ↦ memberTokens (escapedString m.1) m.2.tokens := by
  induction members with
  | nil => rfl
  | cons m rest ih => rw [tokensOfMembers, ih, List.map_cons]

theorem writeElements_eq (depth : Nat) (elements : List Value) :
    writeElements depth elements = elements.map (write depth) := by
  induction elements with
  | nil => rfl
  | cons v rest ih => rw [writeElements, ih, List.map_cons]

theorem writeMembers_eq (depth : Nat) (members : List (String × Value)) :
    writeMembers depth members =
      members.map fun m ↦ escapedString m.1 ++ [':', ' '] ++ m.2.write depth := by
  induction members with
  | nil => rfl
  | cons m rest ih => rw [writeMembers, ih, List.map_cons]

end Value

/-- What stands between commas stands behind the first piece, each behind a comma. -/
theorem intercalate_cons {α : Type} (comma : α) (first : List α) (others : List (List α)) :
    List.intercalate [comma] (first :: others) = first ++ others.flatMap (comma :: ·) := by
  induction others generalizing first with
  | nil => simp
  | cons second others ih =>
    rw [List.intercalate_cons_cons, ih, List.flatMap_cons, List.append_assoc]
    rfl

open Reader (LaidOut)

theorem isBlank_newLine (depth : Nat) : ∀ b ∈ newLine depth, Reader.isBlank b = true := by
  intro b hb
  obtain rfl | hb := List.mem_cons.mp hb
  · rfl
  · rw [(List.mem_replicate.mp hb).2]
    rfl

section

variable {α : Type} {tokens : α → List (List Char)} {line : α → List Char}

/-- Each further line consists of a comma and the tokens of what stands on it. -/
theorem laidOut_lines {items : List α} (hitems : ∀ a ∈ items, tokens a ≠ [] ∧
    ∀ rest, LaidOut (tokens a) (line a ++ rest) rest) (depth : Nat) (rest : List Char) :
    LaidOut ((items.map tokens).flatMap ([','] :: ·))
      (((items.map line).map (newLine depth ++ ·)).flatMap (',' :: ·) ++ rest) rest := by
  induction items with
  | nil => exact .nil rest
  | cons a items ih =>
    obtain ⟨hne, hline⟩ := hitems a List.mem_cons_self
    have hothers := ih fun b hb ↦ hitems b (List.mem_cons_of_mem a hb)
    simp only [List.map_cons, List.flatMap_cons, List.append_assoc, List.cons_append]
    exact .token ((LaidOut.blanks_append (isBlank_newLine depth) hne (hline _)).append hothers)

/-- Lines between brackets consist of the tokens of what stands on them, with commas and brackets. -/
theorem laidOut_bracketed {items : List α} (hitems : ∀ a ∈ items, tokens a ≠ [] ∧
    ∀ rest, LaidOut (tokens a) (line a ++ rest) rest) (opening closing : Char) (depth : Nat)
    (rest : List Char) :
    LaidOut (enclosed opening closing (items.map tokens))
      (bracketed opening closing depth (items.map line) ++ rest) rest := by
  cases items with
  | nil => exact .token (.token (.nil rest))
  | cons a items =>
    obtain ⟨hne, hline⟩ := hitems a List.mem_cons_self
    have hothers := laidOut_lines (fun b hb ↦ hitems b (List.mem_cons_of_mem a hb)) (depth + 1)
      (newLine depth ++ ([closing] ++ rest))
    have hend : LaidOut [[closing]] (newLine depth ++ ([closing] ++ rest)) rest :=
      .cons (isBlank_newLine depth) (.nil rest)
    have hlines := (LaidOut.blanks_append (isBlank_newLine (depth + 1)) hne (hline _)).append
      (hothers.append hend)
    simp only [bracketed, List.map_cons, List.isEmpty_cons, Bool.false_eq_true, if_false,
      intercalate_cons, List.append_assoc, List.cons_append] at hlines ⊢
    exact .token hlines

end

namespace Value

theorem tokens_ne_nil (v : Value) : v.tokens ≠ [] := by
  cases v with
  | array elements =>
    rw [tokens]
    exact enclosed_ne_nil _ _ _
  | object members =>
    rw [tokens]
    exact enclosed_ne_nil _ _ _
  | _ => exact List.cons_ne_nil _ _

mutual

/-- A printed value consists of its tokens, at whatever depth it is printed. -/
theorem laidOut_write (depth : Nat) :
    ∀ (v : Value) (rest : List Char), LaidOut v.tokens (v.write depth ++ rest) rest
  | .null, rest => .token (.nil rest)
  | .bool true, rest => .token (.nil rest)
  | .bool false, rest => .token (.nil rest)
  | .number (.integer _), rest => .token (.nil rest)
  | .number (.real _), rest => .token (.nil rest)
  | .string _, rest => .token (.nil rest)
  | .array elements, rest => by
    rw [tokens, write, tokensOfElements_eq, writeElements_eq]
    exact laidOut_bracketed (laidOut_elements (depth + 1) elements) '[' ']' depth rest
  | .object members, rest => by
    rw [tokens, write, tokensOfMembers_eq, writeMembers_eq]
    exact laidOut_bracketed (laidOut_members (depth + 1) members) '\x7b' '\x7d' depth rest

theorem laidOut_elements (depth : Nat) :
    ∀ elements : List Value, ∀ v ∈ elements, v.tokens ≠ [] ∧
      ∀ rest, LaidOut v.tokens (v.write depth ++ rest) rest
  | [] => List.forall_mem_nil _
  | first :: others => List.forall_mem_cons.mpr
    ⟨⟨first.tokens_ne_nil, laidOut_write depth first⟩, laidOut_elements depth others⟩

theorem laidOut_members (depth : Nat) :
    ∀ members : List (String × Value), ∀ m ∈ members,
      memberTokens (escapedString m.1) m.2.tokens ≠ [] ∧
        ∀ rest, LaidOut (memberTokens (escapedString m.1) m.2.tokens)
          (escapedString m.1 ++ [':', ' '] ++ m.2.write depth ++ rest) rest
  | [] => List.forall_mem_nil _
  | (name, v) :: others => by
    refine List.forall_mem_cons.mpr ⟨⟨List.cons_ne_nil _ _, fun rest ↦ ?_⟩,
      laidOut_members depth others⟩
    have hspace : ∀ b ∈ [' '], Reader.isBlank b = true :=
      List.forall_mem_cons.mpr ⟨rfl, List.forall_mem_nil _⟩
    have hvalue := LaidOut.blanks_append hspace v.tokens_ne_nil (laidOut_write depth v rest)
    simp only [List.append_assoc]
    exact .token (.token hvalue)

end

end Value

end Mos6502.Json
