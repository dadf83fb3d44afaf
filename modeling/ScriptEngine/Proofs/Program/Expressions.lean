import ScriptEngine.Proofs.Program.Operands

/-!
# Reading expressions

Every expression that can be written is read back as an operand of its own level, and in parentheses
as one of any other. The cases are those of the tree. The rules for what stands between brackets go
along the list that was written there.
-/

namespace ScriptEngine

open Lexeme

/-! ### First tokens -/

/-- The tokens that open an operand of the tightest level. -/
def opensChain : TokenKind → Bool
  | .identifier | .number | .string | .kwTrue | .kwFalse | .kwNil => true
  | .leftParen | .leftBracket | .leftBrace => true
  | _ => false

/-- The tokens that open an expression. -/
def opensExpression (kind : TokenKind) : Bool :=
  opensChain kind || kind matches .not | .minus | .kwInc | .kwDec

variable {spelling : NumberSpelling}

theorem headKind_placed {alone last : Bool} {plain : Bool → List Lexeme} {kind : TokenKind}
    {rest : List Lexeme} (h : ∀ last rest, headKind (plain last ++ rest) = kind) :
    headKind (NumberSpelling.placed alone last plain ++ rest) =
      if alone then kind else .leftParen := by
  unfold NumberSpelling.placed
  split
  · exact h last rest
  · rfl

theorem headKind_plain (expression : Expr) (h : expression.IsWritable spelling) (last : Bool)
    (rest : List Lexeme) :
    headKind (spelling.plain expression last ++ rest) = expression.opening :=
  match expression, h with
  | .number _ _, _ => rfl
  | .string _ _, _ => rfl
  | .boolean _ _, _ => rfl
  | .nil _, _ => rfl
  | .array _ _, _ => rfl
  | .hash _ _, _ => rfl
  | .name _ _, h => h.2
  | .index _ object _, h => by
      unfold NumberSpelling.plain
      rw [List.append_assoc]
      exact headKind_placed (headKind_plain object h.1)
  | .member _ object _, h => by
      unfold NumberSpelling.plain
      rw [List.append_assoc]
      exact headKind_placed (headKind_plain object h.1)
  | .call _ callee _, h => by
      unfold NumberSpelling.plain
      rw [List.append_assoc]
      exact headKind_placed (headKind_plain callee h.1)
  | .unary _ _ _, _ => rfl
  | .binary _ _ left _, h => by
      unfold NumberSpelling.plain
      rw [List.append_assoc]
      exact headKind_placed (headKind_plain left h.1)
  | .block _ _, _ => rfl
  | .step _ _ _ _, _ => rfl

theorem BinaryOperator.level_lt (operator : BinaryOperator) : operator.level < 6 := by
  cases operator <;> decide

namespace Expr

theorem level_le (expression : Expr) : expression.level ≤ 7 := by
  cases expression with
  | binary _ operator _ _ => exact (operator.level_lt.trans (Nat.lt_succ_self 6)).le
  | unary _ _ _ => exact Nat.le_succ 6
  | _ => exact Nat.le_refl 7

theorem standsAlone_iff {level : Nat} {last : Bool} {expression : Expr} :
    expression.standsAlone level last ↔
      level ≤ expression.level ∧ (last || !expression.isStep) := by
  unfold standsAlone
  rw [Bool.and_eq_true, decide_eq_true_eq]

theorem opensChain_ite {object : Expr}
    (h : 7 ≤ object.level → !object.isStep → opensChain object.opening) :
    opensChain (if object.standsAlone 7 false then object.opening else .leftParen) := by
  split
  · rename_i halone
    obtain ⟨hlevel, hstep⟩ := standsAlone_iff.mp halone
    exact h hlevel hstep
  · rfl

/-- Operands of the tightest level open with neither an operator nor a keyword of a statement. -/
theorem opensChain_opening (expression : Expr) (h : expression.IsWritable spelling)
    (hlevel : 7 ≤ expression.level) (hstep : !expression.isStep) :
    opensChain expression.opening :=
  match expression, h with
  | number _ _, _ => rfl
  | string _ _, _ => rfl
  | boolean _ true, _ => rfl
  | boolean _ false, _ => rfl
  | nil _, _ => rfl
  | array _ _, _ => rfl
  | hash _ _, _ => rfl
  | name _ _, _ => rfl
  | index _ object _, h => opensChain_ite (opensChain_opening object h.1)
  | member _ object _, h => opensChain_ite (opensChain_opening object h.1)
  | call _ callee _, h => opensChain_ite (opensChain_opening callee h.1)
  | unary _ _ _, _ => absurd hlevel (Nat.not_succ_le_self 6)
  | binary _ operator _ _, _ => absurd hlevel (Nat.not_le.mpr (operator.level_lt.trans (Nat.lt_succ_self 6)))
  | block _ _, _ => rfl
  | step _ _ _ _, _ => absurd hstep Bool.false_ne_true

theorem opensExpression_ite {object : Expr} {alone : Bool} (h : opensExpression object.opening) :
    opensExpression (if alone then object.opening else .leftParen) := by
  cases alone with
  | true => exact h
  | false => rfl

theorem opensExpression_opening (expression : Expr) (h : expression.IsWritable spelling) :
    opensExpression expression.opening :=
  match expression, h with
  | number _ _, _ => rfl
  | string _ _, _ => rfl
  | boolean _ true, _ => rfl
  | boolean _ false, _ => rfl
  | nil _, _ => rfl
  | array _ _, _ => rfl
  | hash _ _, _ => rfl
  | name _ _, _ => rfl
  | index _ object _, h => opensExpression_ite (opensExpression_opening object h.1)
  | member _ object _, h => opensExpression_ite (opensExpression_opening object h.1)
  | call _ callee _, h => opensExpression_ite (opensExpression_opening callee h.1)
  | unary _ .not _, _ => rfl
  | unary _ .negate _, _ => rfl
  | binary _ _ left _, h => opensExpression_ite (opensExpression_opening left h.1)
  | block _ _, _ => rfl
  | step _ .up _ _, _ => rfl
  | step _ .down _ _, _ => rfl

end Expr

namespace Parser

theorem unaryOperatorAt_of_opensChain {kind : TokenKind} (h : opensChain kind) :
    unaryOperatorAt kind = none := by
  cases kind <;> first | rfl | exact absurd h Bool.false_ne_true

theorem unaryOperatorAt_opening {expression : Expr} (h : expression.IsWritable spelling)
    (hlevel : 7 ≤ expression.level) : unaryOperatorAt expression.opening = none := by
  cases hstep : expression.isStep with
  | false =>
      refine unaryOperatorAt_of_opensChain (expression.opensChain_opening h hlevel ?_)
      rw [hstep]
      rfl
  | true =>
      cases expression with
      | step _ direction _ _ => cases direction <;> rfl
      | _ => exact absurd hstep Bool.false_ne_true

/-- **Reading back.** The expression can be written, and its tokens are read as an operand of its
own level. -/
structure ReadsBack (spelling : NumberSpelling) (expression : Expr) : Prop where
  writable : expression.IsWritable spelling
  reads (last : Bool) (h : last || !expression.isStep) :
    ReadsAs expression.level last (spelling.plain expression last) (expression.nesting last)
      expression

section

variable {level fuel : Nat} {last : Bool} {rest : List Lexeme} {expression : Expr}

theorem ReadsBack.head_ne {kind : TokenKind} (h : ReadsBack spelling expression)
    (hkind : opensExpression kind = false) :
    headKind (spelling.plain expression last ++ rest) ≠ kind := by
  rw [headKind_plain expression h.writable]
  intro heq
  have hopens := expression.opensExpression_opening h.writable
  rw [heq, hkind] at hopens
  exact absurd hopens Bool.false_ne_true

theorem ReadsBack.of_standsAlone (h : ReadsBack spelling expression)
    (halone : expression.standsAlone level last) :
    ReadsAs level last (spelling.plain expression last) (expression.nesting last) expression := by
  obtain ⟨hlevel, hstep⟩ := Expr.standsAlone_iff.mp halone
  refine (h.reads last hstep).of_le expression.level_le hlevel fun hseven rest => ?_
  rw [headKind_plain expression h.writable]
  exact unaryOperatorAt_opening h.writable hseven.ge

theorem ReadsBack.whole (h : ReadsBack spelling expression) :
    ReadsAs 0 true (spelling.plain expression true) (expression.nesting true) expression :=
  h.of_standsAlone (Expr.standsAlone_iff.mpr ⟨Nat.zero_le _, rfl⟩)

theorem ReadsBack.meets (h : ReadsBack spelling expression)
    (hfollow : mayFollow true (headKind rest))
    (hfuel : 16 * (spelling.plain expression true ++ rest).length + 13 ≤ fuel) :
    Meets (Parser.expression fuel) (spelling.plain expression true ++ rest)
      (expression.nesting true + 1) (fun read => read.bare = expression.bare) rest :=
  h.whole.meets_expression hfollow hfuel

/-- Parentheses make an expression an operand of any level. -/
theorem ReadsBack.parentheses (h : ReadsBack spelling expression) (hlevel : level ≤ 7) :
    ReadsAs level last (fixed .leftParen :: (spelling.plain expression true ++ [fixed .rightParen]))
      (expression.nesting true + 1) expression := by
  refine (readsAs_of_primary fun fuel rest _ hfuel => ?_).of_le (Nat.le_refl 7) hlevel
    fun _ _ => rfl
  exact meets_primary_parentheses h.whole hfuel

theorem ReadsBack.operand (h : ReadsBack spelling expression) (hlevel : level ≤ 7) :
    ReadsAs level last (spelling.operand level last expression)
      (placedNesting (expression.standsAlone level last) last expression.nesting) expression := by
  unfold NumberSpelling.operand NumberSpelling.placed placedNesting
  split
  · rename_i halone
    exact h.of_standsAlone halone
  · exact h.parentheses hlevel

end

/-! ### Lists between brackets -/

section

variable {fuel : Nat} {lexeme : Lexeme} {rest : List Lexeme}

/-- What follows an expression in a list does not continue it. -/
theorem mayFollow_itemTail (expressions : List Expr) (h : mayFollow true lexeme.kind) :
    mayFollow true (headKind (spelling.itemTail expressions ++ lexeme :: rest)) := by
  cases expressions with
  | nil => exact h
  | cons _ _ => rfl

theorem mayFollow_pairTail (entries : List Entry) (h : mayFollow true lexeme.kind) :
    mayFollow true (headKind (spelling.pairTail entries ++ lexeme :: rest)) := by
  cases entries with
  | nil => exact h
  | cons entry _ =>
      cases entry
      rfl

theorem meets_arguments {arguments : List Expr}
    (h : ∀ argument ∈ arguments, ReadsBack spelling argument)
    (hfuel : 16 * (spelling.items arguments ++ fixed .rightParen :: rest).length + 14 ≤ fuel) :
    Meets (Parser.arguments fuel) (spelling.items arguments ++ fixed .rightParen :: rest)
      (Expr.nestingAll arguments) (fun read => Expr.bareAll read = Expr.bareAll arguments) rest := by
  induction arguments generalizing fuel with
  | nil =>
      obtain ⟨fuel, rfl⟩ : ∃ fewer, fuel = fewer + 1 := ⟨fuel - 1, by omega⟩
      unfold Parser.arguments
      exact meets_accept rfl (meets_pure rfl)
  | cons argument others ih =>
      have hargument := h argument List.mem_cons_self
      unfold NumberSpelling.items at hfuel ⊢
      rw [List.append_assoc] at hfuel ⊢
      obtain ⟨fuel, rfl⟩ : ∃ fewer, fuel = fewer + 1 := ⟨fuel - 1, by omega⟩
      unfold Parser.arguments
      refine meets_accept_of_ne (hargument.head_ne rfl) ?_
      refine (hargument.meets (mayFollow_itemTail others rfl) (by omega)).bind fun value hvalue =>
        meets_check ?_
      rw [List.length_append] at hfuel
      cases others with
      | nil =>
          have hnone : Meets (Parser.arguments fuel) (fixed .rightParen :: rest) 0 (· = []) rest := by
            obtain ⟨fuel, rfl⟩ : ∃ fewer, fuel = fewer + 1 := ⟨fuel - 1, by omega⟩
            unfold Parser.arguments
            exact meets_accept rfl (meets_pure rfl)
          refine hnone.map fun values hvalues => ?_
          rw [hvalues]
          exact congrArg (· :: []) hvalue
      | cons other others =>
          refine meets_expect rfl fun _ _ => ?_
          refine Meets.map (ih (fun _ hmem => h _ (List.mem_cons_of_mem _ hmem)) ?_)
            fun values hvalues => congrArg₂ List.cons hvalue hvalues
          change 16 * (_ + (spelling.items (other :: others) ++ _ :: rest).length + 1) + 14 ≤ _
            at hfuel
          omega

theorem meets_elements {elements : List Expr}
    (h : ∀ element ∈ elements, ReadsBack spelling element)
    (hfuel : 16 * (spelling.itemTail elements ++ fixed .rightBracket :: rest).length ≤ fuel) :
    Meets (Parser.elements fuel) (spelling.itemTail elements ++ fixed .rightBracket :: rest)
      (Expr.nestingAll elements) (fun read => Expr.bareAll read = Expr.bareAll elements)
      (fixed .rightBracket :: rest) := by
  induction elements generalizing fuel with
  | nil =>
      obtain ⟨fuel, rfl⟩ : ∃ fewer, fuel = fewer + 1 := ⟨fuel - 1, by
        change 16 * (rest.length + 1) ≤ fuel at hfuel
        omega⟩
      unfold Parser.elements
      exact meets_accept_of_ne TokenKind.noConfusion (meets_pure rfl)
  | cons element others ih =>
      have helement := h element List.mem_cons_self
      unfold NumberSpelling.itemTail at hfuel ⊢
      rw [List.cons_append, List.append_assoc] at hfuel ⊢
      rw [List.length_cons] at hfuel
      obtain ⟨fuel, rfl⟩ : ∃ fewer, fuel = fewer + 1 := ⟨fuel - 1, by omega⟩
      unfold Parser.elements
      refine meets_accept rfl ?_
      refine (helement.meets (mayFollow_itemTail others rfl) (by omega)).bind fun value hvalue => ?_
      rw [List.length_append] at hfuel
      exact Meets.map (ih (fun _ hmem => h _ (List.mem_cons_of_mem _ hmem)) (by omega))
        fun values hvalues => congrArg₂ List.cons hvalue hvalues

theorem meets_entries {entries : List Entry}
    (h : ∀ entry ∈ entries, ReadsBack spelling entry.key ∧ ReadsBack spelling entry.value)
    (hfuel : 16 * (spelling.pairTail entries ++ fixed .rightBracket :: rest).length ≤ fuel) :
    Meets (Parser.entries fuel) (spelling.pairTail entries ++ fixed .rightBracket :: rest)
      (Entry.nestingAll entries) (fun read => Entry.bareAll read = Entry.bareAll entries)
      (fixed .rightBracket :: rest) := by
  induction entries generalizing fuel with
  | nil =>
      obtain ⟨fuel, rfl⟩ : ∃ fewer, fuel = fewer + 1 := ⟨fuel - 1, by
        change 16 * (rest.length + 1) ≤ fuel at hfuel
        omega⟩
      unfold Parser.entries
      exact meets_accept_of_ne TokenKind.noConfusion (meets_pure rfl)
  | cons entry others ih =>
      obtain ⟨key, value⟩ := entry
      have hkey : ReadsBack spelling key := (h (.mk key value) List.mem_cons_self).1
      have hvalue : ReadsBack spelling value := (h (.mk key value) List.mem_cons_self).2
      unfold NumberSpelling.pairTail at hfuel ⊢
      rw [List.cons_append, List.append_assoc, List.cons_append, List.append_assoc] at hfuel ⊢
      rw [List.length_cons] at hfuel
      obtain ⟨fuel, rfl⟩ : ∃ fewer, fuel = fewer + 1 := ⟨fuel - 1, by omega⟩
      unfold Parser.entries
      refine meets_accept rfl ?_
      refine (hkey.meets rfl (by omega)).bind fun readKey hreadKey => meets_expect rfl fun _ _ => ?_
      rw [List.length_append, List.length_cons] at hfuel
      refine (hvalue.meets (mayFollow_pairTail others rfl) (by omega)).bind
        fun readValue hreadValue => ?_
      rw [List.length_append] at hfuel
      exact Meets.map (ih (fun _ hmem => h _ (List.mem_cons_of_mem _ hmem)) (by omega))
        fun values hvalues => congrArg₂ List.cons (congrArg₂ Entry.mk hreadKey hreadValue) hvalues

end

/-! ### Operators and suffixes -/

section

variable {level nesting inner : Nat} {last : Bool} {tokens others : List Lexeme}
  {object extended subscript : Expr} {position : Position}

theorem follows_suffix {kind : TokenKind} (h : extension kind = some 7) : Follows 7 false kind :=
  ⟨fun _ hother heq => absurd (Option.some.inj (h.symm.trans heq)) hother.ne,
    fun hlast => absurd hlast Bool.false_ne_true⟩

/-- What a suffix makes of the object before it is an operand of the tightest level again. -/
theorem ReadsAs.extend (h : ReadsAs 7 false tokens nesting object)
    (hothers : ∀ rest, extension (headKind (others ++ rest)) = some 7)
    (hsuffix : ∀ touching fuel read rest need good final, read.bare = object.bare →
      16 * (others ++ rest).length ≤ fuel →
      (∀ result spare, result.bare = extended.bare → 16 * rest.length + 1 ≤ spare →
        Meets (suffixes spare touching result) rest need good final) →
      Meets (suffixes (fuel + 1) touching read) (others ++ rest) (max inner need) good final) :
    ReadsAs 7 last (tokens ++ others) (max nesting inner) extended := by
  intro touching fuel rest need good final hfollows hfuel hread
  rw [List.append_assoc] at hfuel ⊢
  refine (h touching fuel _ (max inner need) good final (follows_suffix (hothers rest)) hfuel
    fun read spare hbare hspare => ?_).congr (max_assoc nesting inner need).symm
  obtain ⟨spare, rfl⟩ : ∃ fewer, spare = fewer + 1 := ⟨spare - 1, by omega⟩
  exact hsuffix touching spare read rest need good final hbare (by omega) hread

theorem ReadsAs.index (h : ReadsAs 7 false tokens nesting object)
    (hsubscript : ReadsAs 0 true others inner subscript) :
    ReadsAs 7 last (tokens ++ Lexeme.touching .leftBracket :: (others ++ [fixed .rightBracket]))
      (max nesting (inner + 1)) (.index position object subscript) := by
  refine h.extend (fun _ => rfl) fun touching fuel read rest need good final hbare hfuel hread => ?_
  rw [List.cons_append, List.append_assoc, List.singleton_append, List.length_cons,
    List.length_append, List.length_cons] at hfuel
  rw [List.cons_append, List.append_assoc, List.singleton_append]
  unfold suffixes
  refine meets_isAttached fun attached hattached => meets_current fun token hkind => ?_
  rw [hkind, hattached _ rfl rfl, Bool.or_true]
  refine meets_advance fun _ _ _ => ?_
  refine (hsubscript.meets_expression rfl ?_).bind fun value hvalue => ?_
  · rw [List.length_append, List.length_cons]
    omega
  · exact meets_expect rfl fun _ _ =>
      hread _ fuel (congrArg₂ (Expr.index .first) hbare hvalue) (by omega)

theorem ReadsAs.member {property : String} (h : ReadsAs 7 false tokens nesting object)
    (hproperty : Lexer.IsWord property.toList) :
    ReadsAs 7 last (tokens ++ [fixed .dot, word property]) nesting
      (.member position object property) := by
  rw [← Nat.max_zero nesting]
  refine h.extend (fun _ => rfl) fun touching fuel read rest need good final hbare hfuel hread => ?_
  change 16 * (rest.length + 2) ≤ fuel at hfuel
  rw [Nat.zero_max]
  unfold suffixes
  refine meets_isAttached fun attached _ => meets_current fun token hkind => ?_
  rw [hkind]
  refine meets_advance fun _ _ _ => meets_expectMemberName hproperty ?_
  exact hread _ fuel (congrArg (Expr.member .first · property) hbare) (by omega)

theorem ReadsAs.call {arguments : List Expr} (h : ReadsAs 7 false tokens nesting object)
    (harguments : ∀ argument ∈ arguments, ReadsBack spelling argument) :
    ReadsAs 7 last
      (tokens ++ touching .leftParen :: (spelling.items arguments ++ [fixed .rightParen]))
      (max nesting (Expr.nestingAll arguments)) (.call position object arguments) := by
  refine h.extend (fun _ => rfl) fun touching fuel read rest need good final hbare hfuel hread => ?_
  rw [List.cons_append, List.append_assoc, List.singleton_append, List.length_cons] at hfuel
  rw [List.cons_append, List.append_assoc, List.singleton_append]
  unfold suffixes
  refine meets_isAttached fun attached hattached => meets_current fun token hkind => ?_
  rw [hkind, hattached _ rfl rfl, Bool.or_true]
  refine meets_advance fun _ _ _ => ?_
  refine (meets_arguments harguments (by omega)).bind fun values hvalues => ?_
  rw [List.length_append, List.length_cons] at hfuel
  exact hread _ fuel (congrArg₂ (Expr.call .first) hbare hvalues) (by omega)

theorem extension_ne_six (kind : TokenKind) : extension kind ≠ some 6 := by
  cases kind <;> decide

theorem ReadsAs.unary {operator : UnaryOperator} {operand : Expr}
    (h : ReadsAs 6 last tokens nesting operand) :
    ReadsAs 6 last (fixed operator.kind :: tokens) (nesting + 1)
      (.unary position operator operand) := by
  intro touching fuel rest need good final hfollows hfuel hread
  have hcost : cost 6 = 5 := rfl
  rw [List.cons_append, List.length_cons] at hfuel
  obtain ⟨fuel, rfl⟩ : ∃ fewer, fuel = fewer + 1 := ⟨fuel - 1, by omega⟩
  have hoperand : Meets (Parser.unary fuel) (tokens ++ rest) nesting
      (fun read => read.bare = operand.bare) rest :=
    @ReadsAs.whole 6 fuel nesting last false tokens rest operand h (by omega) hfollows
      (extension_ne_six _) (by omega)
  change Meets (Parser.unary (fuel + 1)) _ _ _ _
  unfold Parser.unary
  refine meets_current fun token hkind => ?_
  have hoperator : unaryOperatorAt token.kind = some operator :=
    hkind ▸ unaryOperatorAt_kind operator
  rw [hoperator]
  refine meets_advance fun _ _ _ => hoperand.nested.bind fun value hvalue => ?_
  exact hread _ _ (congrArg (Expr.unary .first operator) hvalue) (Nat.le_refl _)

/-- The left operand is one of the level of its operator, the right one is tighter. -/
theorem ReadsAs.binary {operator : BinaryOperator} {left right : Expr}
    (hleft : ReadsAs operator.level false tokens nesting left)
    (hright : ReadsAs (operator.level + 1) last others inner right) :
    ReadsAs operator.level last (tokens ++ fixed operator.kind :: others) (max nesting inner)
      (.binary position operator left right) := by
  intro touching fuel rest need good final hfollows hfuel hread
  have hlevel := operator.level_lt
  have hfollowsLeft : Follows operator.level false operator.kind := by
    refine ⟨fun other hother heq => ?_, fun hlast => absurd hlast Bool.false_ne_true⟩
    exact hother.ne (Option.some.inj ((extension_kind operator).symm.trans heq))
  rw [List.append_assoc] at hfuel ⊢
  rw [List.cons_append] at hfuel ⊢
  refine (hleft touching fuel (fixed operator.kind :: (others ++ rest)) (max inner need) good final
    hfollowsLeft hfuel fun read spare hbare hspare => ?_).congr (max_assoc nesting inner need).symm
  rw [List.length_cons] at hspare
  obtain ⟨spare, rfl⟩ : ∃ fewer, spare = fewer + 1 := ⟨spare - 1, by omega⟩
  rw [extender_of_lt hlevel]
  unfold operatorChain
  refine meets_current fun token hkind => ?_
  have hoperator : operatorAt operator.level token.kind = some operator :=
    hkind ▸ operatorAt_kind operator
  rw [hoperator]
  refine meets_advance fun _ _ _ => ?_
  refine (hright.meets_operand hlevel (hfollows.mono (Nat.le_succ _))
    (hfollows.tighter _ (Nat.lt_succ_self _)) (by omega)).bind fun value hvalue => ?_
  rw [List.length_append] at hspare
  have hchain := hread (.binary token.start operator read value) spare
    (congrArg₂ (Expr.binary .first operator) hbare hvalue) (by omega)
  rwa [extender_of_lt hlevel] at hchain

end

/-! ### Steps and literals -/

section

variable {fuel : Nat} {last : Bool} {rest : List Lexeme} {position : Position}

/-- A step takes for its target whatever it can. -/
theorem meets_stepTail {target : Expr} {amount : Option Expr} (htarget : ReadsBack spelling target)
    (hassignable : target.isAssignable) (hamount : ∀ value ∈ amount, ReadsBack spelling value)
    (hfollow : mayFollow true (headKind rest))
    (hfuel : 16 * (spelling.plain target false ++ (spelling.amountOf amount ++ rest)).length + 14
      ≤ fuel) :
    Meets (stepTail fuel) (spelling.plain target false ++ (spelling.amountOf amount ++ rest))
      (max (target.nesting false + 1) (Expr.nestingOptional amount))
      (fun read => read.1.bare = target.bare ∧
        Expr.bareOptional read.2 = Expr.bareOptional amount) rest := by
  obtain ⟨fuel, rfl⟩ : ∃ fewer, fuel = fewer + 1 := ⟨fuel - 1, by omega⟩
  have hstep : !target.isStep := by
    cases target <;> first | rfl | exact absurd hassignable Bool.false_ne_true
  have halone : target.standsAlone 0 false :=
    Expr.standsAlone_iff.mpr ⟨Nat.zero_le _, hstep⟩
  have hstop : mayFollow false (headKind (spelling.amountOf amount ++ rest)) := by
    cases amount with
    | none =>
        unfold mayFollow at hfollow ⊢
        rw [Bool.and_eq_true] at hfollow
        exact Bool.and_eq_true_iff.mpr ⟨hfollow.1, rfl⟩
    | some _ => rfl
  unfold stepTail
  refine meets_current fun _ _ => ?_
  refine ((htarget.of_standsAlone halone).meets_expression hstop (by omega)).bind
    fun value hvalue => ?_
  rw [if_pos ((Expr.isAssignable_of_bare_eq hvalue).trans hassignable)]
  cases amount with
  | none =>
      refine meets_accept_of_ne ?_ (meets_pure ⟨hvalue, rfl⟩)
      intro heq
      change mayFollow true (headKind rest) at hfollow
      rw [show headKind rest = .kwBy from heq] at hfollow
      exact absurd hfollow Bool.false_ne_true
  | some step =>
      have hby := hamount step rfl
      unfold NumberSpelling.amountOf at hfuel ⊢
      rw [List.length_append, List.cons_append, List.length_cons] at hfuel
      refine meets_accept rfl ?_
      refine Meets.map (hby.meets hfollow (by omega)) fun read hread => ⟨hvalue, ?_⟩
      exact congrArg some hread

theorem ReadsBack.step {direction : Direction} {target : Expr} {amount : Option Expr}
    (htarget : ReadsBack spelling target) (hassignable : target.isAssignable)
    (hamount : ∀ value ∈ amount, ReadsBack spelling value) :
    ReadsAs 7 true (spelling.plain (.step position direction target amount) true)
      ((Expr.step position direction target amount).nesting true)
      (.step position direction target amount) := by
  refine readsAs_of_primary fun fuel rest hfollow hfuel => ?_
  unfold NumberSpelling.plain at hfuel ⊢
  rw [List.cons_append, List.append_assoc] at hfuel ⊢
  rw [List.length_cons] at hfuel
  obtain ⟨fuel, rfl⟩ : ∃ fewer, fuel = fewer + 1 := ⟨fuel - 1, by omega⟩
  have htail := @meets_stepTail spelling fuel rest target amount htarget hassignable hamount
    (hfollow rfl) (by omega)
  unfold primary
  refine meets_current fun token hkind => ?_
  rw [hkind]
  cases direction with
  | up =>
      exact meets_advance fun _ _ _ => htail.map fun read hread =>
        congrArg₂ (Expr.step .first .up) hread.1 hread.2
  | down =>
      exact meets_advance fun _ _ _ => htail.map fun read hread =>
        congrArg₂ (Expr.step .first .down) hread.1 hread.2

theorem ReadsBack.array {elements : List Expr}
    (h : ∀ element ∈ elements, ReadsBack spelling element) :
    ReadsAs 7 last (spelling.plain (.array position elements) last) (Expr.nestingAll elements)
      (.array position elements) := by
  refine readsAs_of_primary fun fuel rest _ hfuel => ?_
  unfold NumberSpelling.plain at hfuel ⊢
  rw [List.cons_append, List.append_assoc, List.singleton_append] at hfuel ⊢
  rw [List.length_cons] at hfuel
  obtain ⟨fuel, rfl⟩ : ∃ fewer, fuel = fewer + 2 := ⟨fuel - 2, by omega⟩
  unfold primary
  refine meets_current fun token hkind => ?_
  rw [hkind]
  change Meets (collection (fuel + 1)) _ _ _ _
  unfold collection
  refine meets_advance fun opening _ _ => ?_
  cases elements with
  | nil =>
      exact meets_accept_of_ne TokenKind.noConfusion (meets_accept rfl (meets_pure rfl))
  | cons element others =>
      have helement := h element List.mem_cons_self
      unfold NumberSpelling.items at hfuel ⊢
      rw [List.append_assoc] at hfuel ⊢
      refine meets_accept_of_ne (helement.head_ne rfl) (meets_accept_of_ne (helement.head_ne rfl) ?_)
      refine (helement.meets (mayFollow_itemTail others rfl) (by omega)).bind fun value hvalue => ?_
      have hcolon : headKind (spelling.itemTail others ++ fixed .rightBracket :: rest) ≠ .colon := by
        cases others <;> exact TokenKind.noConfusion
      rw [List.length_append] at hfuel
      have hothers := @meets_elements spelling fuel rest others
        (fun _ hmem => h _ (List.mem_cons_of_mem _ hmem)) (by omega)
      refine meets_accept_of_ne hcolon ?_
      refine (hothers.bind fun values hvalues => meets_expect rfl fun _ _ => meets_pure ?_).congr
        (Nat.max_zero _)
      exact congrArg (Expr.array .first) (congrArg₂ List.cons hvalue hvalues)

theorem ReadsBack.hash {entries : List Entry}
    (h : ∀ entry ∈ entries, ReadsBack spelling entry.key ∧ ReadsBack spelling entry.value) :
    ReadsAs 7 last (spelling.plain (.hash position entries) last) (Entry.nestingAll entries)
      (.hash position entries) := by
  refine readsAs_of_primary fun fuel rest _ hfuel => ?_
  unfold NumberSpelling.plain at hfuel ⊢
  rw [List.cons_append, List.append_assoc, List.singleton_append] at hfuel ⊢
  rw [List.length_cons] at hfuel
  obtain ⟨fuel, rfl⟩ : ∃ fewer, fuel = fewer + 2 := ⟨fuel - 2, by omega⟩
  unfold primary
  refine meets_current fun token hkind => ?_
  rw [hkind]
  change Meets (collection (fuel + 1)) _ _ _ _
  unfold collection
  refine meets_advance fun opening _ _ => ?_
  cases entries with
  | nil =>
      exact meets_accept rfl (meets_expect rfl fun _ _ => meets_pure rfl)
  | cons entry others =>
      obtain ⟨key, value⟩ := entry
      have hkey : ReadsBack spelling key := (h (.mk key value) List.mem_cons_self).1
      have hvalue : ReadsBack spelling value := (h (.mk key value) List.mem_cons_self).2
      unfold NumberSpelling.pairs at hfuel ⊢
      rw [List.append_assoc, List.cons_append, List.append_assoc] at hfuel ⊢
      refine meets_accept_of_ne (hkey.head_ne rfl) (meets_accept_of_ne (hkey.head_ne rfl) ?_)
      refine (hkey.meets rfl (by omega)).bind fun readKey hreadKey => meets_accept rfl ?_
      rw [List.length_append, List.length_cons] at hfuel
      refine (hvalue.meets (mayFollow_pairTail others rfl) (by omega)).bind
        fun readValue hreadValue => ?_
      rw [List.length_append] at hfuel
      have hothers := @meets_entries spelling fuel rest others
        (fun _ hmem => h _ (List.mem_cons_of_mem _ hmem)) (by omega)
      refine (hothers.bind fun values hvalues => meets_expect rfl fun _ _ => meets_pure ?_).congr
        (Nat.max_zero _)
      exact congrArg (Expr.hash .first)
        (congrArg₂ List.cons (congrArg₂ Entry.mk hreadKey hreadValue) hvalues)

end

/-! ### The tree -/

mutual

/-- Every expression that can be written is read back. -/
theorem readsBack (expression : Expr) (h : expression.IsWritable spelling) :
    ReadsBack spelling expression :=
  match expression, h with
  | .number _ _, h => ⟨h, fun _ _ => readsAs_of_primary fun _ _ _ hfuel =>
      meets_primary_number h.2 (by omega)⟩
  | .string _ _, h => ⟨h, fun _ _ => readsAs_of_primary fun _ _ _ hfuel =>
      meets_primary_string (by omega)⟩
  | .boolean _ _, h => ⟨h, fun _ _ => readsAs_of_primary fun _ _ _ hfuel =>
      meets_primary_boolean (by omega)⟩
  | .nil _, h => ⟨h, fun _ _ => readsAs_of_primary fun _ _ _ hfuel =>
      meets_primary_nil (by omega)⟩
  | .array _ elements, h => ⟨h, fun _ _ => ReadsBack.array (allReadBack elements h)⟩
  | .hash _ entries, h => ⟨h, fun _ _ => ReadsBack.hash (entriesReadBack entries h)⟩
  | .name _ _, h => ⟨h, fun _ _ => readsAs_of_primary fun _ _ _ hfuel =>
      meets_primary_name h.2 (by omega)⟩
  | .index _ object subscript, h => ⟨h, fun _ _ =>
      ((readsBack object h.1).operand (Nat.le_refl 7)).index (readsBack subscript h.2).whole⟩
  | .member _ object _, h => ⟨h, fun _ _ =>
      ((readsBack object h.1).operand (Nat.le_refl 7)).member h.2⟩
  | .call _ callee arguments, h => ⟨h, fun _ _ =>
      ((readsBack callee h.1).operand (Nat.le_refl 7)).call (allReadBack arguments h.2)⟩
  | .unary _ _ operand, h => ⟨h, fun _ _ =>
      ((readsBack operand h).operand (Nat.le_succ 6)).unary⟩
  | .binary _ operator left right, h => ⟨h, fun _ _ =>
      ((readsBack left h.1).operand (operator.level_lt.trans (Nat.lt_succ_self 6)).le).binary
        ((readsBack right h.2).operand (operator.level_lt.trans (Nat.lt_succ_self 6)))⟩
  | .block _ body, h => ⟨h, fun _ _ => readsAs_of_primary fun _ _ _ hfuel =>
      meets_primary_block (readsBack body h).whole hfuel⟩
  | .step _ _ target amount, h => ⟨h, fun last hlast => by
      obtain rfl : last = true := (Bool.or_false last).symm.trans hlast
      exact ReadsBack.step (readsBack target h.2.1) h.1 (optionReadsBack amount h.2.2)⟩

theorem allReadBack (expressions : List Expr) (h : Expr.AllWritable spelling expressions) :
    ∀ expression ∈ expressions, ReadsBack spelling expression :=
  match expressions, h with
  | [], _ => fun _ hmem => absurd hmem List.not_mem_nil
  | first :: rest, h => List.forall_mem_cons.mpr ⟨readsBack first h.1, allReadBack rest h.2⟩

theorem optionReadsBack (amount : Option Expr) (h : Expr.OptionWritable spelling amount) :
    ∀ value ∈ amount, ReadsBack spelling value :=
  match amount, h with
  | none, _ => fun _ hmem => absurd hmem (Option.not_mem_none _)
  | some value, h => fun _ hmem => Option.some.inj hmem ▸ readsBack value h

theorem entriesReadBack (entries : List Entry) (h : Entry.AllWritable spelling entries) :
    ∀ entry ∈ entries, ReadsBack spelling entry.key ∧ ReadsBack spelling entry.value :=
  match entries, h with
  | [], _ => fun _ hmem => absurd hmem List.not_mem_nil
  | .mk key value :: rest, h => List.forall_mem_cons.mpr
      ⟨⟨readsBack key h.1, readsBack value h.2.1⟩, entriesReadBack rest h.2.2⟩

end

end Parser

end ScriptEngine
