import ScriptEngine.Proofs.Program.Parallel
import ScriptEngine.Proofs.Source.Joining

/-!
# Progress of the parser

Each rule takes fuel, one unit for each rule that it calls in turn. How many rules are called before
a token is consumed depends on the rule and on nothing else, and it is at most sixteen. So sixteen
units a token are always enough. What must not happen for this is that a rule consumes the end mark
and finds it again: `advance` stays there. So what a rule consumes counts only if the mark was not
the current token, which the rule has to know.
-/

namespace ScriptEngine

/-- The tokens end with the end mark, unless a lexical error ends them. -/
def ParserState.IsWhole (state : ParserState) : Prop :=
  state.failure = none → (state.upcoming.getLastD state.current).kind = .endOfInput

theorem ParserState.IsWhole.next {current next : Token} {upcoming : List Token}
    {failure : Option LexicalError} {stop : Position} {depth : Nat}
    (h : IsWhole ⟨current, next :: upcoming, failure, stop, depth⟩) (passed : Position) :
    IsWhole ⟨next, upcoming, failure, passed, depth⟩ := by
  intro hfailure
  have hlast := h hfailure
  rwa [List.getLastD_cons] at hlast

namespace Parser

/-- How a parser ends. Either it has consumed so many tokens, if not more, or it has failed, and not
for a lack of fuel if there was enough for the tokens and `need` more. -/
def EndsWithin {α : Type} (fuel need taken : Nat) (state : ParserState) :
    EStateM.Result ParseError ParserState α → Prop
  | .ok _ after => after.IsWhole ∧ after.upcoming.length + taken ≤ state.upcoming.length
  | .error error _ => 16 * state.upcoming.length + need ≤ fuel → ¬ error.IsExhausted

/-- The parser ends within its bounds, wherever it starts. If `inside` holds, then only where the
current token is not the end mark. -/
def Progresses {α : Type} (fuel need taken : Nat) (inside : Prop) (parser : Parser α) : Prop :=
  ∀ state, state.IsWhole → (inside → state.current.kind ≠ .endOfInput) →
    EndsWithin fuel need taken state (parser state)

namespace Progresses

variable {α β : Type} {fuel need taken least more : Nat} {inside : Prop} {parser : Parser α}
  {next : α → Parser β}

theorem mono {other : Prop} (h : Progresses fuel need taken inside parser)
    (hneed : need ≤ more) (hinside : inside → other) : Progresses fuel more taken other parser := by
  intro state hstate hother
  have hends := h state hstate fun hin => hother (hinside hin)
  revert hends
  cases parser state with
  | ok value after => exact id
  | error error after => exact fun hends hfuel => hends (by omega)

/-- A parser that makes progress wherever it starts. -/
theorem anywhere (h : Progresses fuel need taken False parser) (hneed : need ≤ more) :
    Progresses fuel more taken inside parser :=
  h.mono hneed False.elim

/-- A parser that makes progress where it starts here. -/
theorem here (h : Progresses fuel need taken True parser) (hneed : need ≤ more) (hinside : inside) :
    Progresses fuel more taken inside parser :=
  h.mono hneed fun _ => hinside

/-- Calling a rule takes one unit of fuel. -/
theorem charge (h : Progresses fuel need taken inside parser) :
    Progresses (fuel + 1) (need + 1) taken inside parser := by
  intro state hstate hinside
  have hends := h state hstate hinside
  revert hends
  cases parser state with
  | ok value after => exact id
  | error error after => exact fun hends hfuel => hends (by omega)

theorem pure {value : α} : Progresses fuel need 0 inside (pure value) :=
  fun _ hstate _ => ⟨hstate, Nat.le_refl _⟩

theorem throw {error : ParseError} (h : ¬ error.IsExhausted) :
    Progresses fuel need taken inside (throw error : Parser α) :=
  fun _ _ _ _ => h

/-- What follows a parser has the fuel for the tokens that were consumed. -/
theorem bind (h : Progresses fuel need taken inside parser)
    (hnext : ∀ value, Progresses fuel (need + 16 * taken) (least - taken) False (next value)) :
    Progresses fuel need least inside (parser >>= next) := by
  intro state hstate hinside
  have hfirst := h state hstate hinside
  change EndsWithin fuel need least state (EStateM.bind parser next state)
  unfold EStateM.bind
  revert hfirst
  cases parser state with
  | error error middle => exact id
  | ok value middle =>
      intro ⟨hmiddle, hlength⟩
      have hsecond := hnext value middle hmiddle False.elim
      dsimp only
      revert hsecond
      cases next value middle with
      | ok result after =>
          intro ⟨hafter, hrest⟩
          exact ⟨hafter, by omega⟩
      | error error after => exact fun hsecond hfuel => hsecond (by omega)

theorem nested (h : Progresses fuel need taken inside parser) :
    Progresses fuel need taken inside (nested parser) := by
  intro state hstate hinside
  have hinner := h { state with depth := state.depth + 1 } hstate hinside
  unfold Parser.nested
  by_cases hdeep : nestingLimit ≤ state.depth
  · rw [if_pos hdeep]
    exact fun _ => id
  · rw [if_neg hdeep]
    revert hinner
    cases parser { state with depth := state.depth + 1 } with
    | ok value after => exact id
    | error error after => exact id

/-- After a look at the current token it is known. -/
theorem current {next : Token → Parser β}
    (h : ∀ token, Progresses fuel need least (inside ∨ token.kind ≠ .endOfInput) (next token)) :
    Progresses fuel need least inside (current >>= next) :=
  fun state hstate hinside => h state.current state hstate fun h => h.elim hinside id

end Progresses

/-! ### Steps -/

section

variable {α β : Type} {fuel need least : Nat} {inside : Prop}

theorem progresses_check (kind : TokenKind) : Progresses fuel need 0 inside (check kind) :=
  fun _ hstate _ => ⟨hstate, Nat.le_refl _⟩

theorem progresses_isAttached : Progresses fuel need 0 inside isAttached :=
  fun _ hstate _ => ⟨hstate, Nat.le_refl _⟩

theorem progresses_advance : Progresses fuel need 0 inside advance := by
  rintro ⟨current, upcoming, failure, stop, depth⟩ hstate -
  cases upcoming with
  | cons next upcoming => exact ⟨hstate.next _, Nat.le_succ _⟩
  | nil =>
      cases failure with
      | some fault => exact fun _ => id
      | none => exact ⟨hstate, Nat.le_refl _⟩

/-- A token that is not the end mark has another one after it, or a lexical error. -/
theorem advance_progresses (h : inside) : Progresses fuel need 1 inside advance := by
  rintro ⟨current, upcoming, failure, stop, depth⟩ hstate hinside
  cases upcoming with
  | cons next upcoming => exact ⟨hstate.next _, Nat.le_refl _⟩
  | nil =>
      cases failure with
      | some fault => exact fun _ => id
      | none => exact absurd (hstate rfl) (hinside h)

theorem advance_of_kind {token : Token} {kind : TokenKind} (h : token.kind = kind)
    (hkind : kind ≠ .endOfInput) :
    Progresses fuel need 1 (inside ∨ token.kind ≠ .endOfInput) advance :=
  advance_progresses (.inr (h ▸ hkind))

theorem progresses_unexpected (expected : String) :
    Progresses fuel need least inside (unexpected expected : Parser α) :=
  .current fun _ => .throw id

theorem progresses_exhausted (h : 0 < need) :
    Progresses 0 need least inside (exhausted : Parser α) :=
  fun _ _ _ hfuel => absurd hfuel (by omega)

/-- To accept a token is to look at it, and to move on if it is the one that was asked for. -/
theorem accept_bind_eq (kind : TokenKind) (next : Bool → Parser β) :
    (accept kind >>= next) = Parser.current >>= fun token =>
      if token.kind == kind then advance >>= fun _ => next true else next false := by
  funext state
  change ((if state.current.kind == kind then advance >>= fun _ => pure true else pure false) >>=
      next) state =
    (if state.current.kind == kind then advance >>= fun _ => next true else next false) state
  split
  · rw [bind_assoc]
    rfl
  · rfl

theorem progresses_accept {kind : TokenKind} (hkind : kind ≠ .endOfInput) {yes no : Parser β}
    (hyes : Progresses fuel (need + 16) (least - 1) False yes)
    (hno : Progresses fuel need least inside no) :
    Progresses fuel need least inside
      (accept kind >>= fun accepted => if accepted then yes else no) := by
  rw [accept_bind_eq]
  refine .current fun token => ?_
  split
  · next hfound =>
      have hinside : token.kind ≠ .endOfInput := by rwa [eq_of_beq hfound]
      exact (advance_progresses (.inr hinside)).bind fun _ => hyes
  · exact hno.mono (Nat.le_refl _) .inl

theorem progresses_acceptance (kind : TokenKind) : Progresses fuel need 0 inside (accept kind) := by
  refine (progresses_check kind).bind fun found => ?_
  split
  · exact progresses_advance.bind fun _ => .pure
  · exact .pure

theorem progresses_expect {kind : TokenKind} (hkind : kind ≠ .endOfInput) (expected : String) :
    Progresses fuel need 1 inside (expect kind expected) := by
  intro state hstate hinside
  change EndsWithin fuel need 1 state
    ((if state.current.kind == kind then advance else unexpected expected) state)
  split
  · next hfound =>
      have hcurrent : state.current.kind ≠ .endOfInput := by rwa [eq_of_beq hfound]
      exact advance_progresses True.intro state hstate fun _ => hcurrent
  · exact progresses_unexpected expected state hstate hinside

theorem progresses_expectName : Progresses fuel need 1 inside expectName :=
  (progresses_expect (by decide) _).bind fun _ => .pure

theorem progresses_expectMemberName : Progresses fuel need 0 inside expectMemberName := by
  refine .current fun token => ?_
  split
  · exact progresses_advance.bind fun _ => .pure
  · exact progresses_unexpected _

theorem progresses_atStatementEnd : Progresses fuel need 0 inside atStatementEnd := by
  refine .current fun token => ?_
  split <;> exact .pure

end

/-! ### Rules -/

theorem operatorAt_endOfInput (level : Nat) : operatorAt level .endOfInput = none := by
  unfold operatorAt
  split <;> first | rfl | contradiction

/-- What each rule needs before it has consumed a token, and whether it consumes one. The rules of
compound statements, and that of collections, pass the token that they were chosen by. -/
structure RulesProgress (fuel : Nat) : Prop where
  statement : Progresses fuel 6 1 False (statement fuel)
  simpleStatement : Progresses fuel 5 1 False (simpleStatement fuel)
  assignmentOrCall : Progresses fuel 4 1 False (assignmentOrCall fuel)
  spacedArguments (start : Position) (callee : Expr) (arguments : List Expr) :
    Progresses fuel 13 0 False (spacedArguments fuel start callee arguments)
  assignment (start : Position) (target : Expr) :
    Progresses fuel 13 0 False (assignment fuel start target)
  modified (simple : Stmt) : Progresses fuel 1 0 False (modified fuel simple)
  conditional (sense : Sense) : Progresses fuel 1 1 True (conditional fuel sense)
  elseChain : Progresses fuel 1 0 False (elseChain fuel)
  loop (sense : Sense) : Progresses fuel 1 1 True (loop fuel sense)
  postLoop : Progresses fuel 1 1 True (postLoop fuel)
  each : Progresses fuel 1 1 True (each fuel)
  sub : Progresses fuel 1 1 True (sub fuel)
  parameters : Progresses fuel 1 0 False (parameters fuel)
  declaration : Progresses fuel 1 1 True (declaration fuel)
  choice : Progresses fuel 1 1 True (choice fuel)
  caseList : Progresses fuel 1 0 False (caseList fuel)
  block : Progresses fuel 1 0 False (block fuel)
  blockTail : Progresses fuel 7 0 False (blockTail fuel)
  expression : Progresses fuel 12 1 False (expression fuel)
  operand (level : Nat) : Progresses fuel (operatorLevels - level + 5) 1 False (operand fuel level)
  operatorChain (level : Nat) (left : Expr) :
    Progresses fuel 1 0 False (operatorChain fuel level left)
  unary : Progresses fuel 4 1 False (unary fuel)
  postfixChain (touching : Bool) : Progresses fuel 3 1 False (postfixChain fuel touching)
  suffixes (touching : Bool) (head : Expr) : Progresses fuel 1 0 False (suffixes fuel touching head)
  arguments : Progresses fuel 13 0 False (arguments fuel)
  primary : Progresses fuel 2 1 False (primary fuel)
  stepTail : Progresses fuel 13 0 False (stepTail fuel)
  collection : Progresses fuel 1 1 True (collection fuel)
  elements : Progresses fuel 1 0 False (elements fuel)
  entries : Progresses fuel 1 0 False (entries fuel)

namespace RulesProgress

variable {fuel : Nat} (ih : RulesProgress fuel)
include ih

theorem expression_succ : Progresses (fuel + 1) 12 1 False (Parser.expression (fuel + 1)) :=
  .charge ((ih.operand 0).anywhere (Nat.le_refl _)).nested

theorem operand_succ (level : Nat) :
    Progresses (fuel + 1) (operatorLevels - level + 5) 1 False
      (Parser.operand (fuel + 1) level) := by
  refine .charge ?_
  unfold Parser.operand
  split
  · refine ((ih.operand (level + 1)).anywhere (by omega)).bind fun left => ?_
    exact (ih.operatorChain level left).anywhere (by omega)
  · exact ih.unary.anywhere (by omega)

theorem operatorChain_succ (level : Nat) (left : Expr) :
    Progresses (fuel + 1) 1 0 False (Parser.operatorChain (fuel + 1) level left) := by
  refine .charge (.current fun token => ?_)
  split
  · exact .pure
  · next hoperator =>
      have hinside : token.kind ≠ .endOfInput := by
        intro hend
        rw [hend, operatorAt_endOfInput] at hoperator
        exact nomatch hoperator
      have hlevel : operatorLevels - (level + 1) + 5 ≤ 16 := by
        unfold operatorLevels
        omega
      refine (advance_progresses (.inr hinside)).bind fun _ => ?_
      refine ((ih.operand (level + 1)).anywhere (by omega)).bind fun right => ?_
      exact (ih.operatorChain level _).anywhere (by omega)

theorem unary_succ : Progresses (fuel + 1) 4 1 False (Parser.unary (fuel + 1)) := by
  refine .charge (.current fun token => ?_)
  split
  · exact (ih.postfixChain false).anywhere (Nat.le_refl _)
  · next hoperator =>
      have hinside : token.kind ≠ .endOfInput := by
        intro hend
        rw [hend] at hoperator
        exact nomatch hoperator
      refine (advance_progresses (.inr hinside)).bind fun _ => ?_
      exact (ih.unary.anywhere (by omega)).nested.bind fun _ => .pure

theorem postfixChain_succ (touching : Bool) :
    Progresses (fuel + 1) 3 1 False (Parser.postfixChain (fuel + 1) touching) := by
  refine .charge ((ih.primary.anywhere (Nat.le_refl _)).bind fun head => ?_)
  exact (ih.suffixes touching head).anywhere (by omega)

theorem suffixes_succ (touching : Bool) (head : Expr) :
    Progresses (fuel + 1) 1 0 False (Parser.suffixes (fuel + 1) touching head) := by
  refine .charge (progresses_isAttached.bind fun attached => .current fun token => ?_)
  split
  · next hkind _ =>
      refine (advance_of_kind hkind (by decide)).bind fun _ => ?_
      refine (ih.arguments.anywhere (by omega)).bind fun arguments => ?_
      exact (ih.suffixes touching _).anywhere (by omega)
  · next hkind _ =>
      refine (advance_of_kind hkind (by decide)).bind fun _ => ?_
      refine (ih.expression.anywhere (by omega)).bind fun index => ?_
      refine (progresses_expect (by decide) _).bind fun _ => ?_
      exact (ih.suffixes touching _).anywhere (by omega)
  · next hkind =>
      refine (advance_of_kind hkind (by decide)).bind fun _ => ?_
      refine progresses_expectMemberName.bind fun property => ?_
      exact (ih.suffixes touching _).anywhere (by omega)
  · exact .pure

theorem arguments_succ : Progresses (fuel + 1) 13 0 False (Parser.arguments (fuel + 1)) := by
  refine .charge (progresses_accept (by decide) .pure ?_)
  refine (ih.expression.anywhere (by omega)).bind fun argument => ?_
  refine (progresses_check _).bind fun last => ?_
  split
  · exact (ih.arguments.anywhere (by omega)).bind fun rest => .pure
  · refine (progresses_expect (by decide) _).bind fun _ => ?_
    exact (ih.arguments.anywhere (by omega)).bind fun rest => .pure

theorem primary_succ : Progresses (fuel + 1) 2 1 False (Parser.primary (fuel + 1)) := by
  refine .charge (.current fun token => ?_)
  split
  · next hkind => exact (advance_of_kind hkind (by decide)).bind fun _ => .pure
  · next hkind => exact (advance_of_kind hkind (by decide)).bind fun _ => .pure
  · next hkind =>
      refine (advance_of_kind hkind (by decide)).bind fun _ => ?_
      split
      · exact .pure
      · exact .throw id
  · next hkind => exact (advance_of_kind hkind (by decide)).bind fun _ => .pure
  · next hkind => exact (advance_of_kind hkind (by decide)).bind fun _ => .pure
  · next hkind => exact (advance_of_kind hkind (by decide)).bind fun _ => .pure
  · next hkind =>
      refine (advance_of_kind hkind (by decide)).bind fun _ => ?_
      refine (ih.expression.anywhere (by omega)).bind fun inner => ?_
      exact (progresses_expect (by decide) _).bind fun _ => .pure
  · next hkind =>
      have hinside : token.kind ≠ .endOfInput := by rw [hkind]; decide
      exact ih.collection.here (Nat.le_refl _) (.inr hinside)
  · next hkind =>
      refine (advance_of_kind hkind (by decide)).bind fun _ => ?_
      refine (ih.expression.anywhere (by omega)).bind fun body => ?_
      exact (progresses_expect (by decide) _).bind fun _ => .pure
  · next hkind =>
      refine (advance_of_kind hkind (by decide)).bind fun _ => ?_
      exact (ih.stepTail.anywhere (by omega)).bind fun _ => .pure
  · next hkind =>
      refine (advance_of_kind hkind (by decide)).bind fun _ => ?_
      exact (ih.stepTail.anywhere (by omega)).bind fun _ => .pure
  · exact progresses_unexpected _

theorem stepTail_succ : Progresses (fuel + 1) 13 0 False (Parser.stepTail (fuel + 1)) := by
  refine .charge (.current fun token => ?_)
  refine (ih.expression.anywhere (Nat.le_refl _)).bind fun target => ?_
  split
  · refine progresses_accept (by decide) ?_ .pure
    exact (ih.expression.anywhere (by omega)).bind fun amount => .pure
  · exact .throw id

theorem collection_succ : Progresses (fuel + 1) 1 1 True (Parser.collection (fuel + 1)) := by
  refine .charge ((advance_progresses trivial).bind fun opening => ?_)
  refine progresses_accept (by decide) ?_ ?_
  · exact (progresses_expect (by decide) _).bind fun _ => .pure
  · refine progresses_accept (by decide) .pure ?_
    refine (ih.expression.anywhere (by omega)).bind fun head => ?_
    refine progresses_accept (by decide) ?_ ?_
    · refine (ih.expression.anywhere (by omega)).bind fun value => ?_
      refine (ih.entries.anywhere (by omega)).bind fun entries => ?_
      exact (progresses_expect (by decide) _).bind fun _ => .pure
    · refine (ih.elements.anywhere (by omega)).bind fun elements => ?_
      exact (progresses_expect (by decide) _).bind fun _ => .pure

theorem elements_succ : Progresses (fuel + 1) 1 0 False (Parser.elements (fuel + 1)) := by
  refine .charge (progresses_accept (by decide) ?_ .pure)
  refine (ih.expression.anywhere (by omega)).bind fun element => ?_
  exact (ih.elements.anywhere (by omega)).bind fun rest => .pure

theorem entries_succ : Progresses (fuel + 1) 1 0 False (Parser.entries (fuel + 1)) := by
  refine .charge (progresses_accept (by decide) ?_ .pure)
  refine (ih.expression.anywhere (by omega)).bind fun key => ?_
  refine (progresses_expect (by decide) _).bind fun _ => ?_
  refine (ih.expression.anywhere (by omega)).bind fun value => ?_
  exact (ih.entries.anywhere (by omega)).bind fun rest => .pure

/-! ### Rules of statements -/

theorem statement_succ : Progresses (fuel + 1) 6 1 False (Parser.statement (fuel + 1)) := by
  refine .charge (.current fun token => ?_)
  have hinside {kind : TokenKind} (hkind : token.kind = kind) (hother : kind ≠ .endOfInput) :
      False ∨ token.kind ≠ .endOfInput := .inr (hkind ▸ hother)
  split
  · next hkind => exact (ih.conditional .whenTrue).here (by omega) (hinside hkind (by decide))
  · next hkind => exact (ih.conditional .whenFalse).here (by omega) (hinside hkind (by decide))
  · next hkind => exact (ih.loop .whenTrue).here (by omega) (hinside hkind (by decide))
  · next hkind => exact (ih.loop .whenFalse).here (by omega) (hinside hkind (by decide))
  · next hkind => exact ih.each.here (by omega) (hinside hkind (by decide))
  · next hkind => exact ih.sub.here (by omega) (hinside hkind (by decide))
  · next hkind => exact ih.choice.here (by omega) (hinside hkind (by decide))
  · next hkind =>
      refine (ih.postLoop.here (by omega) (hinside hkind (by decide))).bind fun result => ?_
      exact (progresses_expect (by decide) _).bind fun _ => .pure
  · next hkind =>
      refine (ih.declaration.here (by omega) (hinside hkind (by decide))).bind fun result => ?_
      exact (progresses_expect (by decide) _).bind fun _ => .pure
  · refine (ih.simpleStatement.anywhere (by omega)).bind fun simple => ?_
    refine ((ih.modified simple).anywhere (by omega)).bind fun result => ?_
    exact (progresses_expect (by decide) _).bind fun _ => .pure

theorem simpleStatement_succ :
    Progresses (fuel + 1) 5 1 False (Parser.simpleStatement (fuel + 1)) := by
  refine .charge (.current fun token => ?_)
  split
  · next hkind =>
      refine (advance_of_kind hkind (by decide)).bind fun _ => ?_
      refine progresses_atStatementEnd.bind fun ends => ?_
      split
      · exact .pure
      · exact (ih.expression.anywhere (by omega)).bind fun value => .pure
  · next hkind => exact (advance_of_kind hkind (by decide)).bind fun _ => .pure
  · next hkind => exact (advance_of_kind hkind (by decide)).bind fun _ => .pure
  · next hkind =>
      refine (advance_of_kind hkind (by decide)).bind fun _ => ?_
      exact (ih.stepTail.anywhere (by omega)).bind fun _ => .pure
  · next hkind =>
      refine (advance_of_kind hkind (by decide)).bind fun _ => ?_
      exact (ih.stepTail.anywhere (by omega)).bind fun _ => .pure
  · exact ih.assignmentOrCall.anywhere (by omega)

theorem assignmentOrCall_succ :
    Progresses (fuel + 1) 4 1 False (Parser.assignmentOrCall (fuel + 1)) := by
  refine .charge (.current fun token => ?_)
  refine ((ih.postfixChain true).anywhere (by omega)).bind fun head => ?_
  refine progresses_accept (by decide) ?_ ?_
  · exact (ih.assignment _ _).anywhere (by omega)
  · split <;> exact (ih.spacedArguments _ _ _).anywhere (by omega)

theorem spacedArguments_succ (start : Position) (callee : Expr) (arguments : List Expr) :
    Progresses (fuel + 1) 13 0 False
      (Parser.spacedArguments (fuel + 1) start callee arguments) := by
  refine .charge (progresses_atStatementEnd.bind fun ends => ?_)
  split
  · exact .pure
  · refine (ih.expression.anywhere (by omega)).bind fun argument => ?_
    refine (progresses_check _).bind fun equals => ?_
    split
    · exact progresses_advance.bind fun _ => (ih.assignment _ _).anywhere (by omega)
    · exact (ih.spacedArguments _ _ _).anywhere (by omega)

theorem assignment_succ (start : Position) (target : Expr) :
    Progresses (fuel + 1) 13 0 False (Parser.assignment (fuel + 1) start target) := by
  refine .charge ?_
  simp only [Parser.assignment]
  split
  · exact (ih.expression.anywhere (by omega)).bind fun value => .pure
  · exact .throw id

theorem modified_succ (simple : Stmt) :
    Progresses (fuel + 1) 1 0 False (Parser.modified (fuel + 1) simple) := by
  refine .charge (.current fun token => ?_)
  split
  · next hmodifier =>
      have hinside : token.kind ≠ .endOfInput := by
        intro hend
        rw [hend] at hmodifier
        exact nomatch hmodifier
      refine (advance_progresses (.inr hinside)).bind fun _ => ?_
      exact (ih.expression.anywhere (by omega)).bind fun condition => .pure
  · exact .pure

theorem conditional_succ (sense : Sense) :
    Progresses (fuel + 1) 1 1 True (Parser.conditional (fuel + 1) sense) := by
  refine .charge ((advance_progresses trivial).bind fun first => ?_)
  refine (ih.expression.anywhere (by omega)).bind fun condition => ?_
  refine (ih.block.anywhere (by omega)).bind fun body => ?_
  exact (ih.elseChain.anywhere (by omega)).bind fun found => .pure

theorem elseChain_succ : Progresses (fuel + 1) 1 0 False (Parser.elseChain (fuel + 1)) := by
  refine .charge (progresses_accept (by decide) ?_ .pure)
  refine progresses_accept (by decide) ?_ ?_
  · refine (ih.expression.anywhere (by omega)).bind fun condition => ?_
    refine (ih.block.anywhere (by omega)).bind fun body => ?_
    exact (ih.elseChain.anywhere (by omega)).bind fun found => .pure
  · refine progresses_accept (by decide) ?_ ?_
    · refine (ih.expression.anywhere (by omega)).bind fun condition => ?_
      refine (ih.block.anywhere (by omega)).bind fun body => ?_
      exact (ih.elseChain.anywhere (by omega)).bind fun found => .pure
    · exact (ih.block.anywhere (by omega)).bind fun body => .pure

theorem loop_succ (sense : Sense) :
    Progresses (fuel + 1) 1 1 True (Parser.loop (fuel + 1) sense) := by
  refine .charge ((advance_progresses trivial).bind fun first => ?_)
  refine (ih.expression.anywhere (by omega)).bind fun condition => ?_
  exact (ih.block.anywhere (by omega)).bind fun body => .pure

theorem postLoop_succ : Progresses (fuel + 1) 1 1 True (Parser.postLoop (fuel + 1)) := by
  refine .charge ((advance_progresses trivial).bind fun first => ?_)
  refine (ih.block.anywhere (by omega)).bind fun body => ?_
  refine progresses_accept (by decide) ?_ ?_
  · exact (ih.expression.anywhere (by omega)).bind fun condition => .pure
  · refine (progresses_expect (by decide) _).bind fun _ => ?_
    exact (ih.expression.anywhere (by omega)).bind fun condition => .pure

theorem each_succ : Progresses (fuel + 1) 1 1 True (Parser.each (fuel + 1)) := by
  refine .charge ((advance_progresses trivial).bind fun first => ?_)
  refine (ih.expression.anywhere (by omega)).bind fun head => ?_
  refine progresses_accept (by decide) ?_ ?_
  · split
    · refine (ih.expression.anywhere (by omega)).bind fun iterable => ?_
      exact (ih.block.anywhere (by omega)).bind fun body => .pure
    · exact .throw id
  · exact (ih.block.anywhere (by omega)).bind fun body => .pure

theorem sub_succ : Progresses (fuel + 1) 1 1 True (Parser.sub (fuel + 1)) := by
  refine .charge ((advance_progresses trivial).bind fun first => ?_)
  refine progresses_expectName.bind fun name => progresses_accept (by decide) ?_ ?_
  · refine (ih.parameters.anywhere (by omega)).bind fun parameters => ?_
    exact (ih.block.anywhere (by omega)).bind fun body => .pure
  · exact (ih.block.anywhere (by omega)).bind fun body => .pure

theorem parameters_succ : Progresses (fuel + 1) 1 0 False (Parser.parameters (fuel + 1)) := by
  refine .charge (progresses_accept (by decide) .pure ?_)
  refine progresses_expectName.bind fun name => (progresses_check _).bind fun last => ?_
  split
  · exact (ih.parameters.anywhere (by omega)).bind fun rest => .pure
  · refine (progresses_expect (by decide) _).bind fun _ => ?_
    exact (ih.parameters.anywhere (by omega)).bind fun rest => .pure

theorem declaration_succ : Progresses (fuel + 1) 1 1 True (Parser.declaration (fuel + 1)) := by
  refine .charge ((advance_progresses trivial).bind fun first => ?_)
  refine progresses_expectName.bind fun name => progresses_accept (by decide) ?_ .pure
  exact (ih.expression.anywhere (by omega)).bind fun value => .pure

theorem choice_succ : Progresses (fuel + 1) 1 1 True (Parser.choice (fuel + 1)) := by
  refine .charge ((advance_progresses trivial).bind fun first => ?_)
  refine (progresses_check _).bind fun bare => ?_
  split
  · refine (progresses_expect (by decide) _).bind fun _ => ?_
    exact (ih.caseList.anywhere (by omega)).bind fun found => .pure
  · refine (ih.expression.anywhere (by omega)).bind fun subject => ?_
    refine (progresses_expect (by decide) _).bind fun _ => ?_
    exact (ih.caseList.anywhere (by omega)).bind fun found => .pure

theorem caseList_succ : Progresses (fuel + 1) 1 0 False (Parser.caseList (fuel + 1)) := by
  refine .charge (.current fun token => ?_)
  split
  · exact progresses_advance.bind fun _ => .pure
  · next hkind =>
      refine (advance_of_kind hkind (by decide)).bind fun _ => ?_
      refine (ih.expression.anywhere (by omega)).bind fun condition => ?_
      refine (ih.block.anywhere (by omega)).bind fun body => ?_
      exact (ih.caseList.anywhere (by omega)).bind fun found => .pure
  · next hkind =>
      refine (advance_of_kind hkind (by decide)).bind fun _ => ?_
      refine (ih.block.anywhere (by omega)).bind fun body => ?_
      exact (progresses_expect (by decide) _).bind fun _ => .pure
  · exact progresses_unexpected _

theorem block_succ : Progresses (fuel + 1) 1 0 False (Parser.block (fuel + 1)) := by
  refine .charge ((progresses_expect (by decide) _).bind fun _ => ?_)
  exact (ih.blockTail.anywhere (by omega)).nested

theorem blockTail_succ : Progresses (fuel + 1) 7 0 False (Parser.blockTail (fuel + 1)) := by
  refine .charge (.current fun token => ?_)
  split
  · exact progresses_advance.bind fun _ => .pure
  · exact progresses_unexpected _
  · refine (ih.statement.anywhere (by omega)).bind fun first => ?_
    exact (ih.blockTail.anywhere (by omega)).bind fun rest => .pure

end RulesProgress

/-- **The rules make progress.** -/
theorem rulesProgress (fuel : Nat) : RulesProgress fuel := by
  induction fuel with
  | zero =>
      constructor
      all_goals intros; exact progresses_exhausted (by omega)
  | succ fuel ih =>
      exact
        { statement := ih.statement_succ
          simpleStatement := ih.simpleStatement_succ
          assignmentOrCall := ih.assignmentOrCall_succ
          spacedArguments := ih.spacedArguments_succ
          assignment := ih.assignment_succ
          modified := ih.modified_succ
          conditional := ih.conditional_succ
          elseChain := ih.elseChain_succ
          loop := ih.loop_succ
          postLoop := ih.postLoop_succ
          each := ih.each_succ
          sub := ih.sub_succ
          parameters := ih.parameters_succ
          declaration := ih.declaration_succ
          choice := ih.choice_succ
          caseList := ih.caseList_succ
          block := ih.block_succ
          blockTail := ih.blockTail_succ
          expression := ih.expression_succ
          operand := ih.operand_succ
          operatorChain := ih.operatorChain_succ
          unary := ih.unary_succ
          postfixChain := ih.postfixChain_succ
          suffixes := ih.suffixes_succ
          arguments := ih.arguments_succ
          primary := ih.primary_succ
          stepTail := ih.stepTail_succ
          collection := ih.collection_succ
          elements := ih.elements_succ
          entries := ih.entries_succ }

end Parser

end ScriptEngine
