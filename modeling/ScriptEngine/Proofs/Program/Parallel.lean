import ScriptEngine.Program.Grammar
import ScriptEngine.Proofs.Program.Relocation

/-!
# Parsers in parallel

How two runs of the parser proceed side by side, on tokens that differ at most in their places. The
rules of the grammar only ask for the current token, move on, and compare places in one way: whether
the current token touches the one before. `Parallel` lists these steps once, and
`rulesParallel` says that all rules are made of them. What two runs have in common is then an
induction on these few steps, and the rules need not be looked at again.
-/

namespace ScriptEngine

namespace LexicalError

def relocate (move : Position → Position) : LexicalError → LexicalError
  | unknownCharacter character position => unknownCharacter character (move position)
  | unterminatedString position => unterminatedString (move position)
  | unterminatedComment position => unterminatedComment (move position)

end LexicalError

namespace ParseError

/-- The error with its place moved. -/
def relocate (move : Position → Position) : ParseError → ParseError
  | unexpected expected found literal position =>
    unexpected expected found literal (move position)
  | invalidTarget position => invalidTarget (move position)
  | invalidLoopVariable position => invalidLoopVariable (move position)
  | invalidNumber literal position => invalidNumber literal (move position)
  | nestingTooDeep limit position => nestingTooDeep limit (move position)
  | lexical error => lexical (error.relocate move)
  | exhausted position => exhausted (move position)

/-- The error with its place forgotten. -/
def bare (error : ParseError) : ParseError :=
  error.relocate fun _ => .first

/-- The search was cut short. -/
def IsExhausted : ParseError → Prop
  | exhausted _ => True
  | _ => False

theorem bare_of_isExhausted {error : ParseError} (h : error.IsExhausted) :
    error.bare = exhausted .first := by
  cases error with
  | exhausted position => rfl
  | _ => exact h.elim

end ParseError

/-- The tokens are of one kind with one literal, and start at one place once each has been moved in
its own way. -/
structure Token.Corresponds (first second : Position → Position) (token other : Token) : Prop where
  kind : token.kind = other.kind
  literal : token.literal = other.literal
  start : first token.start = second other.start

namespace Parser

section

variable (first second : Position → Position) (strict : Prop)

/-- Two parsers that take the same steps and end in related values. Only `strict` ones let a result
depend on whether a token touches the one before, and none asks this of the mark at the end. The
first may give up early. -/
inductive Parallel : {α : Type} → (α → α → Prop) → Parser α → Parser α → Prop
  | pure {α : Type} {related : α → α → Prop} {value other : α} (h : related value other) :
      Parallel related (pure value) (pure other)
  | bind {α β : Type} {between : α → α → Prop} {related : β → β → Prop} {left right : Parser α}
      {leftNext rightNext : α → Parser β} (h : Parallel between left right)
      (hnext : ∀ value other, between value other →
        Parallel related (leftNext value) (rightNext other)) :
      Parallel related (left >>= leftNext) (right >>= rightNext)
  | current : Parallel (Token.Corresponds first second) current current
  | check (kind : TokenKind) : Parallel Eq (check kind) (check kind)
  | advance : Parallel (Token.Corresponds first second) advance advance
  | attached {α : Type} {related : α → α → Prop} {leftNext rightNext : Bool → Token → Parser α}
      (hnext : ∀ attached other token following, Token.Corresponds first second token following →
        (strict → token.kind ≠ .endOfInput → attached = other) →
        Parallel related (leftNext attached token) (rightNext other following)) :
      Parallel related (isAttached >>= fun attached => current >>= leftNext attached)
        (isAttached >>= fun attached => current >>= rightNext attached)
  | throw {α : Type} {related : α → α → Prop} {error other : ParseError}
      (h : error.relocate first = other.relocate second) :
      Parallel related (throw error) (throw other)
  | nested {α : Type} {related : α → α → Prop} {left right : Parser α}
      (h : Parallel related left right) : Parallel related (nested left) (nested right)
  | exhausted {α : Type} {related : α → α → Prop} (right : Parser α) :
      Parallel related exhausted right

end

/-! ### Derived steps -/

section

variable {first second : Position → Position} {strict : Prop} {α : Type} {related : α → α → Prop}

theorem parallel_unexpected (expected : String) :
    Parallel first second strict related (unexpected expected) (unexpected expected) := by
  refine .bind .current fun token other htoken => .throw ?_
  simp only [ParseError.relocate, htoken.kind, htoken.literal, htoken.start]

theorem parallel_accept (kind : TokenKind) :
    Parallel first second strict Eq (accept kind) (accept kind) := by
  refine .bind (.check kind) fun accepted other haccepted => ?_
  subst haccepted
  split
  · exact .bind .advance fun _ _ _ => .pure rfl
  · exact .pure rfl

theorem parallel_expect (kind : TokenKind) (expected : String) :
    Parallel first second strict (Token.Corresponds first second) (expect kind expected)
      (expect kind expected) := by
  refine .bind (.check kind) fun accepted other haccepted => ?_
  subst haccepted
  split
  · exact .advance
  · exact parallel_unexpected expected

theorem parallel_expectName : Parallel first second strict Eq expectName expectName :=
  .bind (parallel_expect _ _) fun _ _ htoken => .pure htoken.literal

theorem parallel_expectMemberName :
    Parallel first second strict Eq expectMemberName expectMemberName := by
  refine .bind .current fun token other htoken => ?_
  rw [htoken.kind, htoken.literal]
  split
  · exact .bind .advance fun _ _ htoken => .pure htoken.literal
  · exact parallel_unexpected _

theorem parallel_atStatementEnd : Parallel first second strict Eq atStatementEnd atStatementEnd := by
  refine .bind .current fun token other htoken => ?_
  rw [htoken.kind]
  split <;> exact .pure rfl

end

/-! ### Related trees -/

section

variable (first second : Position → Position)

abbrev SameExpr (left right : Expr) : Prop :=
  left.relocate first = right.relocate second

abbrev SameOptional (left right : Option Expr) : Prop :=
  Expr.relocateOptional first left = Expr.relocateOptional second right

abbrev SameExprs (left right : List Expr) : Prop :=
  Expr.relocateAll first left = Expr.relocateAll second right

abbrev SameEntries (left right : List Entry) : Prop :=
  Entry.relocateAll first left = Entry.relocateAll second right

abbrev SameStmt (left right : Stmt) : Prop :=
  left.relocate first = right.relocate second

abbrev SameBody (left right : List Stmt) : Prop :=
  Stmt.relocateAll first left = Stmt.relocateAll second right

/-- Branches with the body after them. -/
abbrev SameAlternatives (left right : List Branch × Option (List Stmt)) : Prop :=
  Branch.relocateAll first left.1 = Branch.relocateAll second right.1 ∧
    Stmt.relocateFallback first left.2 = Stmt.relocateFallback second right.2

/-- The target of a step with its amount. -/
abbrev SameStep (left right : Expr × Option Expr) : Prop :=
  SameExpr first second left.1 right.1 ∧ SameOptional first second left.2 right.2

end

/-- With `fuel` levels on the left and `more` on the right, all rules are parallel. Only the rules
of statements ask whether tokens touch. -/
structure RulesParallel (first second : Position → Position) (strict : Prop) (fuel more : Nat) :
    Prop where
  statement : strict →
    Parallel first second strict (SameStmt first second) (statement fuel) (statement more)
  simpleStatement : strict → Parallel first second strict (SameStmt first second)
    (simpleStatement fuel) (simpleStatement more)
  assignmentOrCall : strict → Parallel first second strict (SameStmt first second)
    (assignmentOrCall fuel) (assignmentOrCall more)
  spacedArguments {start place : Position} {callee head : Expr} {arguments others : List Expr}
    (hstart : first start = second place) (hcallee : SameExpr first second callee head)
    (harguments : SameExprs first second arguments others) :
    Parallel first second strict (SameStmt first second)
      (spacedArguments fuel start callee arguments) (spacedArguments more place head others)
  assignment {start place : Position} {target other : Expr} (hstart : first start = second place)
    (htarget : SameExpr first second target other) :
    Parallel first second strict (SameStmt first second) (assignment fuel start target)
      (assignment more place other)
  modified {simple other : Stmt} (hsimple : SameStmt first second simple other) :
    Parallel first second strict (SameStmt first second) (modified fuel simple)
      (modified more other)
  conditional (sense : Sense) : strict → Parallel first second strict (SameStmt first second)
    (conditional fuel sense) (conditional more sense)
  elseChain : strict →
    Parallel first second strict (SameAlternatives first second) (elseChain fuel) (elseChain more)
  loop (sense : Sense) : strict →
    Parallel first second strict (SameStmt first second) (loop fuel sense) (loop more sense)
  postLoop : strict →
    Parallel first second strict (SameStmt first second) (postLoop fuel) (postLoop more)
  each : strict → Parallel first second strict (SameStmt first second) (each fuel) (each more)
  sub : strict → Parallel first second strict (SameStmt first second) (sub fuel) (sub more)
  parameters : Parallel first second strict Eq (parameters fuel) (parameters more)
  declaration :
    Parallel first second strict (SameStmt first second) (declaration fuel) (declaration more)
  choice : strict →
    Parallel first second strict (SameStmt first second) (choice fuel) (choice more)
  caseList : strict →
    Parallel first second strict (SameAlternatives first second) (caseList fuel) (caseList more)
  block : strict →
    Parallel first second strict (SameBody first second) (block fuel) (block more)
  blockTail : strict →
    Parallel first second strict (SameBody first second) (blockTail fuel) (blockTail more)
  expression :
    Parallel first second strict (SameExpr first second) (expression fuel) (expression more)
  operand (level : Nat) : Parallel first second strict (SameExpr first second)
    (operand fuel level) (operand more level)
  operatorChain (level : Nat) {left right : Expr} (h : SameExpr first second left right) :
    Parallel first second strict (SameExpr first second) (operatorChain fuel level left)
      (operatorChain more level right)
  unary : Parallel first second strict (SameExpr first second) (unary fuel) (unary more)
  postfixChain (touching : Bool) (h : touching → strict) : Parallel first second strict
    (SameExpr first second) (postfixChain fuel touching) (postfixChain more touching)
  suffixes (touching : Bool) (h : touching → strict) {head other : Expr}
    (hhead : SameExpr first second head other) : Parallel first second strict
      (SameExpr first second) (suffixes fuel touching head) (suffixes more touching other)
  arguments :
    Parallel first second strict (SameExprs first second) (arguments fuel) (arguments more)
  primary : Parallel first second strict (SameExpr first second) (primary fuel) (primary more)
  stepTail :
    Parallel first second strict (SameStep first second) (stepTail fuel) (stepTail more)
  collection :
    Parallel first second strict (SameExpr first second) (collection fuel) (collection more)
  elements :
    Parallel first second strict (SameExprs first second) (elements fuel) (elements more)
  entries :
    Parallel first second strict (SameEntries first second) (entries fuel) (entries more)

section

variable {first second : Position → Position} {strict : Prop} {fuel more : Nat}

theorem position_of_sameExpr {left right : Expr} (h : SameExpr first second left right) :
    first left.position = second right.position := by
  have hposition := congrArg Expr.position h
  rwa [Expr.position_relocate, Expr.position_relocate] at hposition

theorem isAssignable_of_sameExpr {left right : Expr} (h : SameExpr first second left right) :
    left.isAssignable = right.isAssignable := by
  have hassignable := congrArg Expr.isAssignable h
  rwa [Expr.isAssignable_relocate, Expr.isAssignable_relocate] at hassignable

theorem Expr.exists_call_of_relocate_eq {position : Position} {callee other : Expr}
    {arguments : List Expr}
    (h : other.relocate first = (Expr.call position callee arguments).relocate second) :
    ∃ place head values, other = .call place head values ∧ first place = second position ∧
      SameExpr first second head callee ∧ SameExprs first second values arguments := by
  cases other with
  | call place head values => exact ⟨place, head, values, rfl, Expr.call.inj h⟩
  | _ => exact Expr.noConfusion h

theorem Expr.exists_name_of_relocate_eq {position : Position} {name : String} {other : Expr}
    (h : other.relocate first = (Expr.name position name).relocate second) :
    ∃ place, other = .name place name ∧ first place = second position := by
  cases other with
  | name place word =>
      obtain ⟨hplace, rfl⟩ := Expr.name.inj h
      exact ⟨place, rfl, hplace⟩
  | _ => exact Expr.noConfusion h

theorem reattach_relocate (move : Position → Position) (callee argument : Expr) :
    reattach (callee.relocate move) (argument.relocate move) =
      Expr.relocateOptional move (reattach callee argument) := by
  fun_induction reattach callee argument with
  | case1 position index => rfl
  | case2 position object index ih =>
      simp only [Expr.relocate, reattach, ih]
      cases reattach callee object <;> rfl
  | case3 position object property ih =>
      simp only [Expr.relocate, reattach, ih]
      cases reattach callee object <;> rfl
  | case4 argument hsingle hindex hmember =>
      cases argument with
      | array position elements =>
          match elements with
          | [] => rfl
          | [element] => exact absurd rfl (hsingle _ _)
          | _ :: _ :: _ => rfl
      | index position object index => exact absurd rfl (hindex _ _ _)
      | member position object property => exact absurd rfl (hmember _ _ _)
      | _ => rfl

theorem sameOptional_reattach {callee head argument other : Expr}
    (hcallee : SameExpr first second callee head) (hargument : SameExpr first second argument other) :
    SameOptional first second (reattach callee argument) (reattach head other) := by
  rw [SameOptional, ← reattach_relocate, ← reattach_relocate, hcallee, hargument]

theorem relocate_guardedBy (kind : TokenKind) {simple other : Stmt} {condition guard : Expr}
    (hsimple : SameStmt first second simple other) (hcondition : SameExpr first second condition guard) :
    SameStmt first second (guardedBy kind simple condition) (guardedBy kind other guard) := by
  have hplace : first simple.position = second other.position := by
    have hposition := congrArg Stmt.position hsimple
    rwa [Stmt.position_relocate, Stmt.position_relocate] at hposition
  unfold guardedBy
  split <;> simp only [SameStmt, Stmt.relocate, Stmt.relocateAll, Branch.relocateAll,
    Stmt.relocateFallback, hplace, hsimple, hcondition]

namespace RulesParallel

variable (ih : RulesParallel first second strict fuel more)
include ih

theorem expression_succ : Parallel first second strict (SameExpr first second)
    (Parser.expression (fuel + 1)) (Parser.expression (more + 1)) :=
  .nested (ih.operand 0)

theorem operand_succ (level : Nat) : Parallel first second strict (SameExpr first second)
    (Parser.operand (fuel + 1) level) (Parser.operand (more + 1) level) := by
  unfold Parser.operand
  split
  · exact .bind (ih.operand (level + 1)) fun _ _ hleft => ih.operatorChain level hleft
  · exact ih.unary

theorem operatorChain_succ (level : Nat) {left right : Expr}
    (h : SameExpr first second left right) :
    Parallel first second strict (SameExpr first second)
      (Parser.operatorChain (fuel + 1) level left) (Parser.operatorChain (more + 1) level right) := by
  refine .bind .current fun token other htoken => ?_
  rw [htoken.kind]
  split
  · exact .pure h
  · refine .bind .advance fun _ _ _ => .bind (ih.operand (level + 1)) fun _ _ hright => ?_
    refine ih.operatorChain level ?_
    simp only [SameExpr, Expr.relocate, htoken.start, h, hright]

theorem unary_succ : Parallel first second strict (SameExpr first second)
    (Parser.unary (fuel + 1)) (Parser.unary (more + 1)) := by
  refine .bind .current fun token other htoken => ?_
  rw [htoken.kind]
  split
  · exact ih.postfixChain false (absurd · Bool.false_ne_true)
  · refine .bind .advance fun _ _ _ => .bind (.nested ih.unary) fun _ _ hoperand => .pure ?_
    simp only [SameExpr, Expr.relocate, htoken.start, hoperand]

theorem postfixChain_succ (touching : Bool) (h : touching → strict) :
    Parallel first second strict (SameExpr first second)
      (Parser.postfixChain (fuel + 1) touching) (Parser.postfixChain (more + 1) touching) :=
  .bind ih.primary fun _ _ hhead => ih.suffixes touching h hhead

theorem suffixes_succ (touching : Bool) (h : touching → strict) {head other : Expr}
    (hhead : SameExpr first second head other) : Parallel first second strict
      (SameExpr first second) (Parser.suffixes (fuel + 1) touching head)
      (Parser.suffixes (more + 1) touching other) := by
  refine .attached fun attached other token following htoken hattached => ?_
  have hplace := position_of_sameExpr hhead
  rw [← htoken.kind]
  by_cases hend : token.kind = .endOfInput
  · simp only [hend]
    exact .pure hhead
  -- Without `touching` the chain goes on whether the token is attached or not.
  have hcontinues : (!touching || attached) = (!touching || other) := by
    cases touching with
    | false => rfl
    | true => exact congrArg _ (hattached (h rfl) hend)
  simp only [hcontinues]
  split
  · refine .bind .advance fun _ _ _ => .bind ih.arguments fun _ _ harguments => ?_
    refine ih.suffixes touching h ?_
    simp only [SameExpr, Expr.relocate, hplace, hhead, harguments]
  · refine .bind .advance fun _ _ _ => .bind ih.expression fun _ _ hindex => ?_
    refine .bind (parallel_expect _ _) fun _ _ _ => ih.suffixes touching h ?_
    simp only [SameExpr, Expr.relocate, hplace, hhead, hindex]
  · refine .bind .advance fun _ _ _ => .bind parallel_expectMemberName fun property _ hproperty => ?_
    subst hproperty
    refine ih.suffixes touching h ?_
    simp only [SameExpr, Expr.relocate, hplace, hhead]
  · exact .pure hhead

theorem arguments_succ : Parallel first second strict (SameExprs first second)
    (Parser.arguments (fuel + 1)) (Parser.arguments (more + 1)) := by
  refine .bind (parallel_accept _) fun closed _ hclosed => ?_
  subst hclosed
  split
  · exact .pure rfl
  · refine .bind ih.expression fun _ _ hargument => .bind (.check _) fun last _ hlast => ?_
    subst hlast
    split
    · refine .bind ih.arguments fun _ _ harguments => .pure ?_
      simp only [SameExprs, Expr.relocateAll, hargument, harguments]
    · refine .bind (parallel_expect _ _) fun _ _ _ => .bind ih.arguments fun _ _ harguments => .pure ?_
      simp only [SameExprs, Expr.relocateAll, hargument, harguments]

theorem primary_succ : Parallel first second strict (SameExpr first second)
    (Parser.primary (fuel + 1)) (Parser.primary (more + 1)) := by
  refine .bind .current fun token other htoken => ?_
  have hstart := htoken.start
  rw [htoken.kind, htoken.literal]
  split
  · refine .bind .advance fun _ _ _ => .pure ?_
    simp only [SameExpr, Expr.relocate, hstart]
  · refine .bind .advance fun _ _ _ => .pure ?_
    simp only [SameExpr, Expr.relocate, hstart]
  · refine .bind .advance fun _ _ _ => ?_
    split
    · refine .pure ?_
      simp only [SameExpr, Expr.relocate, hstart]
    · refine .throw ?_
      simp only [ParseError.relocate, hstart]
  · refine .bind .advance fun _ _ _ => .pure ?_
    simp only [SameExpr, Expr.relocate, hstart]
  · refine .bind .advance fun _ _ _ => .pure ?_
    simp only [SameExpr, Expr.relocate, hstart]
  · refine .bind .advance fun _ _ _ => .pure ?_
    simp only [SameExpr, Expr.relocate, hstart]
  · refine .bind .advance fun _ _ _ => .bind ih.expression fun _ _ hinner => ?_
    exact .bind (parallel_expect _ _) fun _ _ _ => .pure hinner
  · exact ih.collection
  · refine .bind .advance fun _ _ _ => .bind ih.expression fun _ _ hbody => ?_
    refine .bind (parallel_expect _ _) fun _ _ _ => .pure ?_
    simp only [SameExpr, Expr.relocate, hstart, hbody]
  · refine .bind .advance fun _ _ _ => .bind ih.stepTail fun _ _ hstep => .pure ?_
    simp only [SameExpr, Expr.relocate, hstart, hstep.1, hstep.2]
  · refine .bind .advance fun _ _ _ => .bind ih.stepTail fun _ _ hstep => .pure ?_
    simp only [SameExpr, Expr.relocate, hstart, hstep.1, hstep.2]
  · exact parallel_unexpected _

theorem stepTail_succ : Parallel first second strict (SameStep first second)
    (Parser.stepTail (fuel + 1)) (Parser.stepTail (more + 1)) := by
  refine .bind .current fun token other htoken => .bind ih.expression fun target _ htarget => ?_
  rw [isAssignable_of_sameExpr htarget]
  split
  · refine .bind (parallel_accept _) fun hasAmount _ hsame => ?_
    subst hsame
    split
    · refine .bind ih.expression fun _ _ hamount => .pure ⟨htarget, ?_⟩
      simp only [SameOptional, Expr.relocateOptional, hamount]
    · exact .pure ⟨htarget, rfl⟩
  · refine .throw ?_
    simp only [ParseError.relocate, htoken.start]

theorem collection_succ : Parallel first second strict (SameExpr first second)
    (Parser.collection (fuel + 1)) (Parser.collection (more + 1)) := by
  refine .bind .advance fun opening _ hopening => .bind (parallel_accept _) fun colon _ hcolon => ?_
  have hstart := hopening.start
  subst hcolon
  split
  · refine .bind (parallel_expect _ _) fun _ _ _ => .pure ?_
    simp only [SameExpr, Expr.relocate, hstart, Entry.relocateAll]
  · refine .bind (parallel_accept _) fun closed _ hclosed => ?_
    subst hclosed
    split
    · refine .pure ?_
      simp only [SameExpr, Expr.relocate, hstart, Expr.relocateAll]
    · refine .bind ih.expression fun _ _ hhead => .bind (parallel_accept _) fun hash _ hhash => ?_
      subst hhash
      split
      · refine .bind ih.expression fun _ _ hvalue => .bind ih.entries fun _ _ hentries => ?_
        refine .bind (parallel_expect _ _) fun _ _ _ => .pure ?_
        simp only [SameExpr, Expr.relocate, hstart, Entry.relocateAll, hhead, hvalue, hentries]
      · refine .bind ih.elements fun _ _ helements => ?_
        refine .bind (parallel_expect _ _) fun _ _ _ => .pure ?_
        simp only [SameExpr, Expr.relocate, hstart, Expr.relocateAll, hhead, helements]

theorem elements_succ : Parallel first second strict (SameExprs first second)
    (Parser.elements (fuel + 1)) (Parser.elements (more + 1)) := by
  refine .bind (parallel_accept _) fun comma _ hcomma => ?_
  subst hcomma
  split
  · refine .bind ih.expression fun _ _ helement => .bind ih.elements fun _ _ helements => .pure ?_
    simp only [SameExprs, Expr.relocateAll, helement, helements]
  · exact .pure rfl

theorem entries_succ : Parallel first second strict (SameEntries first second)
    (Parser.entries (fuel + 1)) (Parser.entries (more + 1)) := by
  refine .bind (parallel_accept _) fun comma _ hcomma => ?_
  subst hcomma
  split
  · refine .bind ih.expression fun _ _ hkey => .bind (parallel_expect _ _) fun _ _ _ => ?_
    refine .bind ih.expression fun _ _ hvalue => .bind ih.entries fun _ _ hentries => .pure ?_
    simp only [SameEntries, Entry.relocateAll, hkey, hvalue, hentries]
  · exact .pure rfl

/-! ### Statements -/

theorem statement_succ (h : strict) : Parallel first second strict (SameStmt first second)
    (Parser.statement (fuel + 1)) (Parser.statement (more + 1)) := by
  refine .bind .current fun token other htoken => ?_
  rw [htoken.kind]
  split
  · exact ih.conditional .whenTrue h
  · exact ih.conditional .whenFalse h
  · exact ih.loop .whenTrue h
  · exact ih.loop .whenFalse h
  · exact ih.each h
  · exact ih.sub h
  · exact ih.choice h
  · refine .bind (ih.postLoop h) fun _ _ hresult => ?_
    exact .bind (parallel_expect _ _) fun _ _ _ => .pure hresult
  · refine .bind ih.declaration fun _ _ hresult => ?_
    exact .bind (parallel_expect _ _) fun _ _ _ => .pure hresult
  · refine .bind (ih.simpleStatement h) fun _ _ hsimple => ?_
    refine .bind (ih.modified hsimple) fun _ _ hresult => ?_
    exact .bind (parallel_expect _ _) fun _ _ _ => .pure hresult

theorem simpleStatement_succ (h : strict) : Parallel first second strict (SameStmt first second)
    (Parser.simpleStatement (fuel + 1)) (Parser.simpleStatement (more + 1)) := by
  refine .bind .current fun token other htoken => ?_
  have hstart := htoken.start
  rw [htoken.kind]
  split
  · refine .bind .advance fun _ _ _ => .bind parallel_atStatementEnd fun ends _ hends => ?_
    subst hends
    split
    · refine .pure ?_
      simp only [SameStmt, Stmt.relocate, hstart, Expr.relocateOptional]
    · refine .bind ih.expression fun _ _ hvalue => .pure ?_
      simp only [SameStmt, Stmt.relocate, hstart, Expr.relocateOptional, hvalue]
  · refine .bind .advance fun _ _ _ => .pure ?_
    simp only [SameStmt, Stmt.relocate, hstart]
  · refine .bind .advance fun _ _ _ => .pure ?_
    simp only [SameStmt, Stmt.relocate, hstart]
  · refine .bind .advance fun _ _ _ => .bind ih.stepTail fun _ _ hstep => .pure ?_
    simp only [SameStmt, Stmt.relocate, hstart, hstep.1, hstep.2]
  · refine .bind .advance fun _ _ _ => .bind ih.stepTail fun _ _ hstep => .pure ?_
    simp only [SameStmt, Stmt.relocate, hstart, hstep.1, hstep.2]
  · exact ih.assignmentOrCall h

theorem assignmentOrCall_succ (h : strict) :
    Parallel first second strict (SameStmt first second) (Parser.assignmentOrCall (fuel + 1))
      (Parser.assignmentOrCall (more + 1)) := by
  refine .bind .current fun token other htoken => ?_
  refine .bind (ih.postfixChain true fun _ => h) fun head tail hhead => ?_
  refine .bind (parallel_accept _) fun equals _ hequals => ?_
  subst hequals
  split
  · exact ih.assignment htoken.start hhead
  · split
    · rename_i position callee arguments
      obtain ⟨place, others, values, rfl, _, hcallee, harguments⟩ :=
        Expr.exists_call_of_relocate_eq hhead.symm
      exact ih.spacedArguments htoken.start hcallee.symm harguments.symm
    · rename_i hnotCall
      split
      · rename_i position callee arguments
        obtain ⟨place, others, values, rfl, _⟩ := Expr.exists_call_of_relocate_eq hhead
        exact absurd rfl (hnotCall _ _ _)
      · exact ih.spacedArguments htoken.start hhead rfl

theorem spacedArguments_succ {start place : Position} {callee head : Expr}
    {arguments others : List Expr} (hstart : first start = second place)
    (hcallee : SameExpr first second callee head)
    (harguments : SameExprs first second arguments others) :
    Parallel first second strict (SameStmt first second)
      (Parser.spacedArguments (fuel + 1) start callee arguments)
      (Parser.spacedArguments (more + 1) place head others) := by
  refine .bind parallel_atStatementEnd fun ends _ hends => ?_
  subst hends
  split
  · refine .pure ?_
    simp only [SameStmt, Stmt.relocate, hstart, hcallee, harguments]
  · refine .bind ih.expression fun argument other hargument => ?_
    refine .bind (.check _) fun beforeEquals _ hbefore => ?_
    subst hbefore
    have hattached := sameOptional_reattach hcallee hargument
    have hmore : SameExprs first second (arguments ++ [argument]) (others ++ [other]) := by
      rw [SameExprs, Expr.relocateAll_append, Expr.relocateAll_append, harguments]
      exact congrArg _ (congrArg (· :: []) hargument)
    cases arguments with
    | cons head rest =>
        cases others with
        | nil => simp only [SameExprs, Expr.relocateAll, reduceCtorEq] at harguments
        | cons _ _ => exact ih.spacedArguments hstart hcallee hmore
    | nil =>
        cases others with
        | cons _ _ => simp only [SameExprs, Expr.relocateAll, reduceCtorEq] at harguments
        | nil =>
            cases beforeEquals with
            | false => exact ih.spacedArguments hstart hcallee hmore
            | true =>
                generalize reattach callee argument = target, reattach head other = place at hattached
                match target, place, hattached with
                | none, none, _ => exact ih.spacedArguments hstart hcallee hmore
                | some target, some place, hattached =>
                    exact .bind .advance fun _ _ _ =>
                      ih.assignment hstart (Option.some.inj hattached)

theorem assignment_succ {start place : Position} {target other : Expr}
    (hstart : first start = second place) (htarget : SameExpr first second target other) :
    Parallel first second strict (SameStmt first second)
      (Parser.assignment (fuel + 1) start target) (Parser.assignment (more + 1) place other) := by
  simp only [Parser.assignment]
  rw [isAssignable_of_sameExpr htarget]
  split
  · refine .bind ih.expression fun _ _ hvalue => .pure ?_
    simp only [SameStmt, Stmt.relocate, hstart, htarget, hvalue]
  · refine .throw ?_
    simp only [ParseError.relocate, hstart]

theorem modified_succ {simple other : Stmt} (hsimple : SameStmt first second simple other) :
    Parallel first second strict (SameStmt first second) (Parser.modified (fuel + 1) simple)
      (Parser.modified (more + 1) other) := by
  refine .bind .current fun token other htoken => ?_
  rw [htoken.kind]
  split
  · refine .bind .advance fun _ _ _ => .bind ih.expression fun _ _ hcondition => .pure ?_
    exact relocate_guardedBy _ hsimple hcondition
  · exact .pure hsimple

theorem conditional_succ (sense : Sense) (h : strict) :
    Parallel first second strict (SameStmt first second) (Parser.conditional (fuel + 1) sense)
      (Parser.conditional (more + 1) sense) := by
  refine .bind .advance fun token other htoken => .bind ih.expression fun _ _ hcondition => ?_
  refine .bind (ih.block h) fun _ _ hbody => .bind (ih.elseChain h) fun _ _ hbranches => .pure ?_
  simp only [SameStmt, Stmt.relocate, htoken.start, hcondition, hbody, hbranches.1, hbranches.2]

theorem elseChain_succ (h : strict) : Parallel first second strict (SameAlternatives first second)
    (Parser.elseChain (fuel + 1)) (Parser.elseChain (more + 1)) := by
  refine .bind (parallel_accept _) fun hasElse _ hsame => ?_
  subst hsame
  split
  · refine .bind (parallel_accept _) fun hasIf _ hsame => ?_
    subst hsame
    split
    · refine .bind ih.expression fun _ _ hcondition => .bind (ih.block h) fun _ _ hbody => ?_
      refine .bind (ih.elseChain h) fun _ _ hbranches => .pure ⟨?_, hbranches.2⟩
      simp only [Branch.relocateAll, hcondition, hbody, hbranches.1]
    · refine .bind (parallel_accept _) fun hasUnless _ hsame => ?_
      subst hsame
      split
      · refine .bind ih.expression fun _ _ hcondition => .bind (ih.block h) fun _ _ hbody => ?_
        refine .bind (ih.elseChain h) fun _ _ hbranches => .pure ⟨?_, hbranches.2⟩
        simp only [Branch.relocateAll, Expr.relocate, position_of_sameExpr hcondition, hcondition,
          hbody, hbranches.1]
      · refine .bind (ih.block h) fun _ _ hbody => .pure ⟨rfl, ?_⟩
        simp only [Stmt.relocateFallback, hbody]
  · exact .pure ⟨rfl, rfl⟩

theorem loop_succ (sense : Sense) (h : strict) :
    Parallel first second strict (SameStmt first second) (Parser.loop (fuel + 1) sense)
      (Parser.loop (more + 1) sense) := by
  refine .bind .advance fun token other htoken => .bind ih.expression fun _ _ hcondition => ?_
  refine .bind (ih.block h) fun _ _ hbody => .pure ?_
  simp only [SameStmt, Stmt.relocate, htoken.start, hcondition, hbody]

theorem postLoop_succ (h : strict) : Parallel first second strict (SameStmt first second)
    (Parser.postLoop (fuel + 1)) (Parser.postLoop (more + 1)) := by
  refine .bind .advance fun token other htoken => .bind (ih.block h) fun _ _ hbody => ?_
  refine .bind (parallel_accept _) fun isWhile _ hsame => ?_
  subst hsame
  split
  · refine .bind ih.expression fun _ _ hcondition => .pure ?_
    simp only [SameStmt, Stmt.relocate, htoken.start, hcondition, hbody]
  · refine .bind (parallel_expect _ _) fun _ _ _ => ?_
    refine .bind ih.expression fun _ _ hcondition => .pure ?_
    simp only [SameStmt, Stmt.relocate, htoken.start, hcondition, hbody]

theorem each_succ (h : strict) : Parallel first second strict (SameStmt first second)
    (Parser.each (fuel + 1)) (Parser.each (more + 1)) := by
  refine .bind .advance fun token other htoken => .bind ih.expression fun head tail hhead => ?_
  refine .bind (parallel_accept _) fun isNamed _ hsame => ?_
  subst hsame
  split
  · split
    · obtain ⟨place, rfl, _⟩ := Expr.exists_name_of_relocate_eq hhead.symm
      refine .bind ih.expression fun _ _ hiterable => .bind (ih.block h) fun _ _ hbody => .pure ?_
      simp only [SameStmt, Stmt.relocate, htoken.start, hiterable, hbody]
    · rename_i hnotName
      split
      · obtain ⟨place, rfl, _⟩ := Expr.exists_name_of_relocate_eq hhead
        exact absurd rfl (hnotName _ _)
      · refine .throw ?_
        simp only [ParseError.relocate, position_of_sameExpr hhead]
  · refine .bind (ih.block h) fun _ _ hbody => .pure ?_
    simp only [SameStmt, Stmt.relocate, htoken.start, hhead, hbody]

theorem sub_succ (h : strict) : Parallel first second strict (SameStmt first second)
    (Parser.sub (fuel + 1)) (Parser.sub (more + 1)) := by
  refine .bind .advance fun token other htoken => .bind parallel_expectName fun name _ hname => ?_
  subst hname
  refine .bind (parallel_accept _) fun hasParameters _ hsame => ?_
  subst hsame
  split
  · refine .bind ih.parameters fun parameters _ hparameters => .bind (ih.block h) fun _ _ hbody => ?_
    subst hparameters
    refine .pure ?_
    simp only [SameStmt, Stmt.relocate, htoken.start, hbody]
  · refine .bind (ih.block h) fun _ _ hbody => .pure ?_
    simp only [SameStmt, Stmt.relocate, htoken.start, hbody]

theorem parameters_succ : Parallel first second strict Eq (Parser.parameters (fuel + 1))
    (Parser.parameters (more + 1)) := by
  refine .bind (parallel_accept _) fun closed _ hclosed => ?_
  subst hclosed
  split
  · exact .pure rfl
  · refine .bind parallel_expectName fun name _ hname => .bind (.check _) fun last _ hlast => ?_
    subst hname hlast
    split
    · exact .bind ih.parameters fun _ _ hrest => .pure (congrArg _ hrest)
    · refine .bind (parallel_expect _ _) fun _ _ _ => ?_
      exact .bind ih.parameters fun _ _ hrest => .pure (congrArg _ hrest)

theorem declaration_succ : Parallel first second strict (SameStmt first second)
    (Parser.declaration (fuel + 1)) (Parser.declaration (more + 1)) := by
  refine .bind .advance fun token other htoken => .bind parallel_expectName fun name _ hname => ?_
  subst hname
  refine .bind (parallel_accept _) fun hasValue _ hsame => ?_
  subst hsame
  split
  · refine .bind ih.expression fun _ _ hvalue => .pure ?_
    simp only [SameStmt, Stmt.relocate, htoken.start, Expr.relocateOptional, hvalue]
  · refine .pure ?_
    simp only [SameStmt, Stmt.relocate, htoken.start, Expr.relocateOptional]

theorem choice_succ (h : strict) : Parallel first second strict (SameStmt first second)
    (Parser.choice (fuel + 1)) (Parser.choice (more + 1)) := by
  refine .bind .advance fun token other htoken => .bind (.check _) fun bare _ hsame => ?_
  subst hsame
  split
  · refine .bind (parallel_expect _ _) fun _ _ _ => ?_
    refine .bind (ih.caseList h) fun _ _ hbranches => .pure ?_
    simp only [SameStmt, Stmt.relocate, htoken.start, hbranches.1, hbranches.2]
  · refine .bind ih.expression fun _ _ hsubject => .bind (parallel_expect _ _) fun _ _ _ => ?_
    refine .bind (ih.caseList h) fun _ _ hbranches => .pure ?_
    simp only [SameStmt, Stmt.relocate, htoken.start, hsubject, hbranches.1, hbranches.2]

theorem caseList_succ (h : strict) : Parallel first second strict (SameAlternatives first second)
    (Parser.caseList (fuel + 1)) (Parser.caseList (more + 1)) := by
  refine .bind .current fun token other htoken => ?_
  rw [htoken.kind]
  split
  · exact .bind .advance fun _ _ _ => .pure ⟨rfl, rfl⟩
  · refine .bind .advance fun _ _ _ => .bind ih.expression fun _ _ hcondition => ?_
    refine .bind (ih.block h) fun _ _ hbody => .bind (ih.caseList h) fun _ _ hbranches => ?_
    refine .pure ⟨?_, hbranches.2⟩
    simp only [Branch.relocateAll, hcondition, hbody, hbranches.1]
  · refine .bind .advance fun _ _ _ => .bind (ih.block h) fun _ _ hbody => ?_
    refine .bind (parallel_expect _ _) fun _ _ _ => .pure ⟨rfl, ?_⟩
    simp only [Stmt.relocateFallback, hbody]
  · exact parallel_unexpected _

theorem block_succ (h : strict) : Parallel first second strict (SameBody first second)
    (Parser.block (fuel + 1)) (Parser.block (more + 1)) :=
  .bind (parallel_expect _ _) fun _ _ _ => .nested (ih.blockTail h)

theorem blockTail_succ (h : strict) : Parallel first second strict (SameBody first second)
    (Parser.blockTail (fuel + 1)) (Parser.blockTail (more + 1)) := by
  refine .bind .current fun token other htoken => ?_
  rw [htoken.kind]
  split
  · exact .bind .advance fun _ _ _ => .pure rfl
  · exact parallel_unexpected _
  · refine .bind (ih.statement h) fun _ _ hfirst => .bind (ih.blockTail h) fun _ _ hrest => .pure ?_
    simp only [SameBody, Stmt.relocateAll, hfirst, hrest]

end RulesParallel

/-- **The rules take parallel steps**, also if the second run may go further down. -/
theorem rulesParallel (first second : Position → Position) (strict : Prop) {fuel more : Nat}
    (h : fuel ≤ more) : RulesParallel first second strict fuel more := by
  induction fuel generalizing more with
  | zero =>
      constructor
      all_goals intros; exact .exhausted _
  | succ fuel ih =>
      obtain ⟨more, rfl⟩ : ∃ less, more = less + 1 := ⟨more - 1, by omega⟩
      have hrules := ih (Nat.le_of_succ_le_succ h)
      exact
        { statement := hrules.statement_succ
          simpleStatement := hrules.simpleStatement_succ
          assignmentOrCall := hrules.assignmentOrCall_succ
          spacedArguments := hrules.spacedArguments_succ
          assignment := hrules.assignment_succ
          modified := hrules.modified_succ
          conditional := hrules.conditional_succ
          elseChain := hrules.elseChain_succ
          loop := hrules.loop_succ
          postLoop := hrules.postLoop_succ
          each := hrules.each_succ
          sub := hrules.sub_succ
          parameters := hrules.parameters_succ
          declaration := hrules.declaration_succ
          choice := hrules.choice_succ
          caseList := hrules.caseList_succ
          block := hrules.block_succ
          blockTail := hrules.blockTail_succ
          expression := hrules.expression_succ
          operand := hrules.operand_succ
          operatorChain := hrules.operatorChain_succ
          unary := hrules.unary_succ
          postfixChain := hrules.postfixChain_succ
          suffixes := hrules.suffixes_succ
          arguments := hrules.arguments_succ
          primary := hrules.primary_succ
          stepTail := hrules.stepTail_succ
          collection := hrules.collection_succ
          elements := hrules.elements_succ
          entries := hrules.entries_succ }

end

end Parser

end ScriptEngine
