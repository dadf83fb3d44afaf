import ScriptEngine.Program.Grammar
import ScriptEngine.Proofs.Program.Relocation
import ScriptEngine.Proofs.Program.Running
import ScriptEngine.Proofs.Program.Writing

/-!
# Reading operands

The parser goes from the loosest operators to the tightest, and then to the suffixes of a primary.
On each level it reads an operand and goes on with what continues it. So the tokens of an operand
are described by what the parser does with whatever comes after them.
-/

namespace ScriptEngine

namespace Parser

open Lexeme

/-- The level on which a token continues the expression in front of it. -/
def extension : TokenKind → Option Nat
  | .or => some 0
  | .and => some 1
  | .equalEqual | .notEqual => some 2
  | .less | .lessEqual | .greater | .greaterEqual => some 3
  | .plus | .minus => some 4
  | .star | .slash | .percent => some 5
  | .leftParen | .leftBracket | .dot => some 7
  | _ => none

/-- The token continues no expression in front of it, and no step that may be the last of it. -/
def mayFollow (last : Bool) (kind : TokenKind) : Bool :=
  (extension kind).isNone && (!last || kind != .kwBy)

/-- The token after an operand continues none of the tighter levels. After the last operand it
continues nothing. -/
structure Follows (level : Nat) (last : Bool) (kind : TokenKind) : Prop where
  tighter (other : Nat) (h : level < other) : extension kind ≠ some other
  last (h : last = true) : mayFollow true kind

theorem operatorAt_eq_none {level : Nat} {kind : TokenKind} (h : extension kind ≠ some level) :
    operatorAt level kind = none := by
  unfold operatorAt
  split
  case h_14 => rfl
  all_goals exact absurd rfl h

theorem operatorAt_kind (operator : BinaryOperator) :
    operatorAt operator.level operator.kind = some operator := by
  cases operator <;> rfl

theorem extension_kind (operator : BinaryOperator) :
    extension operator.kind = some operator.level := by
  cases operator <;> rfl

theorem unaryOperatorAt_kind (operator : UnaryOperator) :
    unaryOperatorAt operator.kind = some operator := by
  cases operator <;> rfl

/-- The rule for the operands of a level. -/
def reader (level : Nat) (touching : Bool) (fuel : Nat) : Parser Expr :=
  match level with
  | 7 => postfixChain fuel touching
  | 6 => unary fuel
  | level => operand fuel level

/-- What goes on with an operand on its level. -/
def extender (level : Nat) (touching : Bool) (fuel : Nat) (left : Expr) : Parser Expr :=
  match level with
  | 7 => suffixes fuel touching left
  | 6 => pure left
  | level => operatorChain fuel level left

/-- The fuel that the rule of a level needs beside that for the tokens. -/
def cost : Nat → Nat
  | 7 => 4
  | 6 => 5
  | level => 12 - level

/-- In front of these tokens the rule of a level does what it goes on to do after them with the
expression, or with one that differs in its places. -/
def ReadsAs (level : Nat) (last : Bool) (tokens : List Lexeme) (nesting : Nat)
    (expression : Expr) : Prop :=
  ∀ (touching : Bool) (fuel : Nat) (rest : List Lexeme) (need : Nat) (good : Expr → Prop)
    (final : List Lexeme), Follows level last (headKind rest) →
    16 * (tokens ++ rest).length + cost level ≤ fuel →
    (∀ read spare, read.bare = expression.bare → 16 * rest.length + 1 ≤ spare →
      Meets (extender level touching spare read) rest need good final) →
    Meets (reader level touching fuel) (tokens ++ rest) (max nesting need) good final

section

variable {level fuel need nesting : Nat} {last touching : Bool} {tokens rest final : List Lexeme}
  {good : Expr → Prop} {expression read : Expr}

theorem meets_suffixes_of_stop (h : extension (headKind rest) ≠ some 7) (hfuel : 1 ≤ fuel)
    (hread : Meets (pure read) rest need good final) :
    Meets (suffixes fuel touching read) rest need good final := by
  obtain ⟨fuel, rfl⟩ : ∃ fewer, fuel = fewer + 1 := ⟨fuel - 1, by omega⟩
  unfold suffixes
  refine meets_isAttached fun attached _ => meets_current fun token hkind => ?_
  rw [← hkind] at h
  split
  · rename_i heq _
    rw [heq] at h
    exact absurd rfl h
  · rename_i heq _
    rw [heq] at h
    exact absurd rfl h
  · rename_i heq
    rw [heq] at h
    exact absurd rfl h
  · exact hread

theorem meets_operatorChain_of_stop (h : extension (headKind rest) ≠ some level)
    (hfuel : 1 ≤ fuel) (hread : Meets (pure read) rest need good final) :
    Meets (operatorChain fuel level read) rest need good final := by
  obtain ⟨fuel, rfl⟩ : ∃ fewer, fuel = fewer + 1 := ⟨fuel - 1, by omega⟩
  unfold operatorChain
  refine meets_current fun token hkind => ?_
  rw [← hkind] at h
  rw [operatorAt_eq_none h]
  exact hread

/-- An operand that nothing continues is the whole of what its level reads. -/
theorem ReadsAs.whole (h : ReadsAs level last tokens nesting expression) (hlevel : level ≤ 7)
    (hfollows : Follows level last (headKind rest)) (hstop : extension (headKind rest) ≠ some level)
    (hfuel : 16 * (tokens ++ rest).length + cost level ≤ fuel) :
    Meets (reader level touching fuel) (tokens ++ rest) nesting
      (fun read => read.bare = expression.bare) rest := by
  refine (h touching fuel rest 0 _ rest hfollows hfuel fun read spare hread hspare => ?_).congr
    (Nat.max_zero nesting)
  have hpure : Meets (pure read) rest 0 (fun read : Expr => read.bare = expression.bare) rest :=
    meets_pure hread
  unfold extender
  split
  · exact meets_suffixes_of_stop hstop (by omega) hpure
  · exact hpure
  · exact meets_operatorChain_of_stop hstop (by omega) hpure

theorem Follows.mono {other : Nat} {kind : TokenKind} (h : Follows level last kind)
    (hle : level ≤ other) : Follows other last kind :=
  ⟨fun tighter htighter => h.tighter tighter (hle.trans_lt htighter), h.last⟩

theorem reader_of_lt (h : level < 6) : reader level touching fuel = operand fuel level := by
  unfold reader
  split
  · omega
  · omega
  · rfl

theorem extender_of_lt (h : level < 6) :
    extender level touching fuel read = operatorChain fuel level read := by
  unfold extender
  split
  · omega
  · omega
  · rfl

theorem cost_of_lt (h : level < 6) : cost level = 12 - level := by
  unfold cost
  split
  · omega
  · omega
  · rfl

/-- The operand of an operator, as the rule for the operator reads it. -/
theorem ReadsAs.meets_operand (h : ReadsAs level last tokens nesting expression) (hlevel : level ≤ 6)
    (hfollows : Follows level last (headKind rest)) (hstop : extension (headKind rest) ≠ some level)
    (hfuel : 16 * (tokens ++ rest).length + (12 - level) ≤ fuel) :
    Meets (operand fuel level) (tokens ++ rest) nesting
      (fun read => read.bare = expression.bare) rest := by
  rcases Nat.lt_or_eq_of_le hlevel with hlt | rfl
  · rw [← cost_of_lt hlt] at hfuel
    have hwhole := @ReadsAs.whole level fuel nesting last false tokens rest expression h (by omega)
      hfollows hstop hfuel
    rwa [reader_of_lt hlt] at hwhole
  · obtain ⟨fuel, rfl⟩ : ∃ fewer, fuel = fewer + 1 := ⟨fuel - 1, by omega⟩
    have hcost : cost 6 = 5 := rfl
    have hwhole := @ReadsAs.whole 6 fuel nesting last false tokens rest expression h (by omega)
      hfollows hstop (by omega)
    unfold operand
    exact hwhole

/-- An operand of a tighter level is one of the level below it. -/
theorem ReadsAs.descend (h : ReadsAs (level + 1) last tokens nesting expression) (hlevel : level ≤ 6)
    (hhead : level = 6 → ∀ rest, unaryOperatorAt (headKind (tokens ++ rest)) = none) :
    ReadsAs level last tokens nesting expression := by
  intro touching fuel rest need good final hfollows hfuel hread
  have hstop : extension (headKind rest) ≠ some (level + 1) :=
    hfollows.tighter (level + 1) (Nat.lt_succ_self level)
  rcases Nat.lt_or_eq_of_le hlevel with hlt | rfl
  · rw [cost_of_lt hlt] at hfuel
    rw [reader_of_lt hlt]
    obtain ⟨fuel, rfl⟩ : ∃ fewer, fuel = fewer + 1 := ⟨fuel - 1, by omega⟩
    have hoperand := h.meets_operand (by omega) (hfollows.mono (Nat.le_succ level)) hstop
      (show 16 * (tokens ++ rest).length + (12 - (level + 1)) ≤ fuel by omega)
    unfold operand
    rw [if_pos (show level < operatorLevels from hlt)]
    refine hoperand.bind fun read hbare => ?_
    have hchain := hread read fuel hbare (by rw [List.length_append] at hfuel; omega)
    rwa [extender_of_lt hlt] at hchain
  · have hcost : cost 6 = 5 := rfl
    have hsuffix : cost (6 + 1) = 4 := rfl
    obtain ⟨fuel, rfl⟩ : ∃ fewer, fuel = fewer + 1 := ⟨fuel - 1, by omega⟩
    change Meets (unary (fuel + 1)) _ _ _ _
    unfold unary
    refine meets_current fun token hkind => ?_
    rw [hkind, hhead rfl rest]
    refine h false fuel rest need good final (hfollows.mono (by omega)) (by omega)
      fun read spare hbare hspare => ?_
    exact meets_suffixes_of_stop hstop (by omega) (hread read spare hbare hspare)

theorem ReadsAs.of_le {top : Nat} (h : ReadsAs top last tokens nesting expression) (htop : top ≤ 7)
    (hle : level ≤ top)
    (hhead : top = 7 → ∀ rest, unaryOperatorAt (headKind (tokens ++ rest)) = none) :
    ReadsAs level last tokens nesting expression := by
  obtain ⟨more, rfl⟩ := Nat.exists_eq_add_of_le hle
  induction more with
  | zero => exact h
  | succ more ih =>
      have hnext : ReadsAs (level + more + 1) last tokens nesting expression := h
      refine ih (hnext.descend (by omega) fun hsix => hhead (by omega)) (by omega) (by omega)
        fun hseven => absurd hseven (by omega)

theorem extension_of_mayFollow {kind : TokenKind} (h : mayFollow last kind) (other : Nat) :
    extension kind ≠ some other := by
  simp only [mayFollow, Bool.and_eq_true, Option.isNone_iff_eq_none] at h
  rw [h.1]
  exact (Option.some_ne_none other).symm

theorem follows_of_mayFollow {kind : TokenKind} (h : mayFollow last kind) :
    Follows level last kind :=
  ⟨fun other _ => extension_of_mayFollow h other, fun hlast => hlast ▸ h⟩

/-- A whole expression is one level further down. -/
theorem ReadsAs.meets_expression (h : ReadsAs 0 last tokens nesting expression)
    (hfollow : mayFollow last (headKind rest))
    (hfuel : 16 * (tokens ++ rest).length + 13 ≤ fuel) :
    Meets (Parser.expression fuel) (tokens ++ rest) (nesting + 1)
      (fun read => read.bare = expression.bare) rest := by
  obtain ⟨fuel, rfl⟩ : ∃ fewer, fuel = fewer + 1 := ⟨fuel - 1, by omega⟩
  unfold Parser.expression
  exact Meets.nested (h.meets_operand (by omega) (follows_of_mayFollow hfollow)
    (extension_of_mayFollow hfollow 0) (by omega))

/-- A primary is an operand of the tightest level. -/
theorem readsAs_of_primary
    (h : ∀ fuel rest, (last = true → mayFollow true (headKind rest)) →
      16 * (tokens ++ rest).length + 3 ≤ fuel →
      Meets (primary fuel) (tokens ++ rest) nesting (fun read => read.bare = expression.bare) rest) :
    ReadsAs 7 last tokens nesting expression := by
  intro touching fuel rest need good final hfollows hfuel hread
  have hcost : cost 7 = 4 := rfl
  obtain ⟨fuel, rfl⟩ : ∃ fewer, fuel = fewer + 1 := ⟨fuel - 1, by omega⟩
  change Meets (postfixChain (fuel + 1) touching) _ _ _ _
  unfold postfixChain
  refine (h fuel rest hfollows.last (by omega)).bind fun read hbare => ?_
  exact hread read fuel hbare (by rw [List.length_append] at hfuel; omega)

/-! ### Primaries -/

theorem meets_primary_name {name : String} {position : Position}
    (hname : TokenKind.ofWord name = .identifier) (hfuel : 1 ≤ fuel) :
    Meets (primary fuel) (word name :: rest) 0
      (fun read => read.bare = (Expr.name position name).bare) rest := by
  obtain ⟨fuel, rfl⟩ : ∃ fewer, fuel = fewer + 1 := ⟨fuel - 1, by omega⟩
  unfold primary
  refine meets_current_cons fun token hkind hliteral => ?_
  rw [hkind.trans hname]
  refine meets_advance fun _ _ _ => meets_pure ?_
  rw [hliteral]
  rfl

theorem meets_primary_string {value : String} {position : Position} (hfuel : 1 ≤ fuel) :
    Meets (primary fuel) (string value :: rest) 0
      (fun read => read.bare = (Expr.string position value).bare) rest := by
  obtain ⟨fuel, rfl⟩ : ∃ fewer, fuel = fewer + 1 := ⟨fuel - 1, by omega⟩
  unfold primary
  refine meets_current_cons fun token hkind hliteral => ?_
  rw [hkind]
  refine meets_advance fun _ _ _ => meets_pure ?_
  rw [hliteral]
  rfl

theorem meets_primary_number {digits : List Char} {value : Number} {position : Position}
    (hvalue : readNumber? digits = some value) (hfuel : 1 ≤ fuel) :
    Meets (primary fuel) (numeral digits :: rest) 0
      (fun read => read.bare = (Expr.number position value).bare) rest := by
  obtain ⟨fuel, rfl⟩ : ∃ fewer, fuel = fewer + 1 := ⟨fuel - 1, by omega⟩
  have hdigits : readNumber? (numeral digits).literal.toList = some value := by
    change readNumber? (String.ofList digits).toList = some value
    rw [String.toList_ofList, hvalue]
  unfold primary
  refine meets_current_cons fun token hkind hliteral => ?_
  rw [hkind]
  refine meets_advance fun _ _ _ => ?_
  rw [hliteral, hdigits]
  exact meets_pure rfl

theorem meets_primary_boolean {value : Bool} {position : Position} (hfuel : 1 ≤ fuel) :
    Meets (primary fuel) (fixed (if value then .kwTrue else .kwFalse) :: rest) 0
      (fun read => read.bare = (Expr.boolean position value).bare) rest := by
  obtain ⟨fuel, rfl⟩ : ∃ fewer, fuel = fewer + 1 := ⟨fuel - 1, by omega⟩
  unfold primary
  refine meets_current_cons fun token hkind _ => ?_
  rw [hkind]
  cases value with
  | true => exact meets_advance fun _ _ _ => meets_pure rfl
  | false => exact meets_advance fun _ _ _ => meets_pure rfl

theorem meets_primary_nil {position : Position} (hfuel : 1 ≤ fuel) :
    Meets (primary fuel) (fixed .kwNil :: rest) 0
      (fun read => read.bare = (Expr.nil position).bare) rest := by
  obtain ⟨fuel, rfl⟩ : ∃ fewer, fuel = fewer + 1 := ⟨fuel - 1, by omega⟩
  unfold primary
  refine meets_current_cons fun token hkind _ => ?_
  rw [hkind]
  exact meets_advance fun _ _ _ => meets_pure rfl

/-- Parentheses leave no trace but a level. -/
theorem meets_primary_parentheses (h : ReadsAs 0 true tokens nesting expression)
    (hfuel : 16 * ((fixed .leftParen :: (tokens ++ [fixed .rightParen])) ++ rest).length + 3 ≤ fuel) :
    Meets (primary fuel) ((fixed .leftParen :: (tokens ++ [fixed .rightParen])) ++ rest)
      (nesting + 1) (fun read => read.bare = expression.bare) rest := by
  obtain ⟨fuel, rfl⟩ : ∃ fewer, fuel = fewer + 1 := ⟨fuel - 1, by omega⟩
  rw [List.cons_append, List.append_assoc, List.singleton_append] at hfuel ⊢
  rw [List.length_cons] at hfuel
  unfold primary
  refine meets_current_cons fun token hkind _ => ?_
  rw [hkind]
  refine meets_advance fun _ _ _ => ?_
  refine ((h.meets_expression rfl (by omega)).bind fun read hread =>
    meets_expect rfl fun _ _ => meets_pure hread).congr (Nat.max_zero _)

/-- A block in braces. -/
theorem meets_primary_block {position : Position} (h : ReadsAs 0 true tokens nesting expression)
    (hfuel : 16 * ((fixed .leftBrace :: (tokens ++ [fixed .rightBrace])) ++ rest).length + 3 ≤ fuel) :
    Meets (primary fuel) ((fixed .leftBrace :: (tokens ++ [fixed .rightBrace])) ++ rest)
      (nesting + 1) (fun read => read.bare = (Expr.block position expression).bare) rest := by
  obtain ⟨fuel, rfl⟩ : ∃ fewer, fuel = fewer + 1 := ⟨fuel - 1, by omega⟩
  rw [List.cons_append, List.append_assoc, List.singleton_append] at hfuel ⊢
  rw [List.length_cons] at hfuel
  unfold primary
  refine meets_current_cons fun token hkind _ => ?_
  rw [hkind]
  refine meets_advance fun _ _ _ => ?_
  refine ((h.meets_expression rfl (by omega)).bind fun read hread =>
    meets_expect rfl fun _ _ => meets_pure ?_).congr (Nat.max_zero _)
  exact congrArg (Expr.block .first) hread

end

end Parser

end ScriptEngine
