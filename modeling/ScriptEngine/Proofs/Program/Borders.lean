import ScriptEngine.Proofs.Program.Agreement
import ScriptEngine.Proofs.Program.Running

/-!
# Parts of statements up to their borders

What stands between the parts of a statement is a border: a semicolon, a keyword of a modifier, the
opening brace of a block, or the end of the text. No rule of expressions goes on with any of these,
and the rules of simple statements ask for nothing but whether one of them is there. So a part that
is read up to one border is read in the same way up to another (`rulesTransfer`). The argument is a
simulation like that of `Parallel`, but the tokens at the border differ, and each rule has to be
looked at for what it does there. The second run may be nested deeper than the first, and then may
come to the limit.
-/

namespace ScriptEngine

namespace Parser

/-- Whether an expression may end in front of a token. -/
def endsExpression : TokenKind → Bool
  | .leftBrace => true
  | kind => endsStatement kind

theorem endsExpression_of_endsStatement {kind : TokenKind} (h : endsStatement kind) :
    endsExpression kind := by
  cases kind
  all_goals first
    | rfl
    | exact h

theorem endsStatement_eq_false {kind : TokenKind} (h : endsExpression kind = false) :
    endsStatement kind = false :=
  Bool.eq_false_iff.mpr fun hends =>
    absurd (endsExpression_of_endsStatement hends) (Bool.eq_false_iff.mp h)

/-- Where a part of a statement ends: in the first row at a token of the kind, in the second row at
the sign, with what follows it. A statement is read strictly, as it depends on which tokens touch.
-/
structure Border where
  kind : TokenKind
  sign : Token
  following : List Token
  strict : Prop
  kind_ends : endsStatement kind
  sign_ends : endsExpression sign.kind
  strict_ends : strict → endsStatement sign.kind

section

variable (border : Border)

/-- Two rows, each from a place on, of which the tokens up to the border correspond. Before it there
is no mark. The border in the first row is no word, as any word may be the name of a member. -/
inductive Bordered : Position → List Token → Position → List Token → Prop
  | here {stop place : Position} {token : Token} {rest : List Token}
      (hkind : token.kind = border.kind)
      (hliteral : ¬ token.literal.toList.head?.any Lexer.isNameStart) :
      Bordered stop (token :: rest) place (border.sign :: border.following)
  | next {stop place : Position} {token other : Token} {tokens others : List Token}
      (htoken : Token.Corresponds forgotten forgotten token other)
      (hend : token.kind ≠ .endOfInput)
      (hattached : border.strict → (token.start = stop ↔ other.start = place))
      (hrest : Bordered token.stop tokens other.stop others) :
      Bordered stop (token :: tokens) place (other :: others)

/-- What two parsers have in hand: such rows, at their depths, and on the right no fault. -/
structure Borders (depth deeper : Nat) (state other : ParserState) : Prop where
  tokens : Bordered border state.previousStop (state.current :: state.upcoming)
    other.previousStop (other.current :: other.upcoming)
  failure : other.failure = none
  depth : state.depth = depth
  deeper : other.depth = deeper

/-- The second result is a related value, or the nesting is too deep for it. -/
inductive Reaches {α : Type} (related : α → α → Prop) (depth deeper : Nat) (value : α)
    (after : ParserState) : EStateM.Result ParseError ParserState α → Prop
  | ok {found : α} {rest : ParserState} (hvalue : related value found)
      (hafter : Borders border depth deeper after rest) :
      Reaches related depth deeper value after (.ok found rest)
  | tooDeep {position : Position} {rest : ParserState} (hdepth : depth < deeper) :
      Reaches related depth deeper value after (.error (.nestingTooDeep nestingLimit position) rest)

/-- Wherever the current kind is such, what the first parser finds up to the border is found by the
second one as well. -/
def Transfers (here : TokenKind → Prop) {α : Type} (related : α → α → Prop)
    (left right : Parser α) : Prop :=
  ∀ depth deeper, depth ≤ deeper → ∀ state other, Borders border depth deeper state other →
    here state.current.kind → ∀ value after, left state = .ok value after →
      Reaches border related depth deeper value after (right other)

/-- Any current token will do. -/
abbrev anyKind : TokenKind → Prop := fun _ => True

end

variable {border : Border}

theorem Bordered.head {stop place : Position} {token other : Token} {tokens others : List Token}
    (h : Bordered border stop (token :: tokens) place (other :: others)) :
    (token.kind = border.kind ∧ ¬ token.literal.toList.head?.any Lexer.isNameStart ∧
      other = border.sign) ∨
    (Token.Corresponds forgotten forgotten token other ∧
      (border.strict → (token.start = stop ↔ other.start = place)) ∧
      Bordered border token.stop tokens other.stop others) := by
  cases h with
  | here hkind hliteral => exact .inl ⟨hkind, hliteral, rfl⟩
  | next htoken _ hattached hrest => exact .inr ⟨htoken, hattached, hrest⟩

theorem Bordered.kind_ne_endOfInput {stop place : Position} {token : Token}
    {tokens others : List Token} (h : Bordered border stop (token :: tokens) place others)
    (hborder : border.kind ≠ .endOfInput) : token.kind ≠ .endOfInput := by
  cases h with
  | here hkind => rwa [hkind]
  | next _ hend => exact hend

/-- A row that is not read strictly may follow anything. -/
theorem Bordered.anywhere {stop place : Position} {tokens others : List Token}
    (h : Bordered border stop tokens place others) (hloose : ¬ border.strict)
    (other position : Position) : Bordered border other tokens position others := by
  cases h with
  | here hkind hliteral => exact .here hkind hliteral
  | next htoken hend _ hrest => exact .next htoken hend (absurd · hloose) hrest

/-- Aligned rows with something else in place of their marks. -/
theorem Aligned.bordered {stop place : Position} {row others rest : List Token}
    {mark final token : Token}
    (h : Aligned forgotten forgotten True true stop (row ++ [mark]) place (others ++ [final]))
    (hkinds : ∀ token ∈ row, token.kind ≠ .endOfInput) (hkind : token.kind = border.kind)
    (hliteral : ¬ token.literal.toList.head?.any Lexer.isNameStart) :
    Bordered border stop (row ++ token :: rest) place
      (others ++ border.sign :: border.following) := by
  induction row generalizing stop place others with
  | nil =>
      cases others with
      | nil => exact .here hkind hliteral
      | cons other others =>
          obtain ⟨-, -, ⟨-, hnil, -⟩ | hrest⟩ := h.head
          · simp at hnil
          · obtain ⟨_, _, _, _, hnil, -⟩ := hrest.exists_cons
            exact absurd hnil.symm (List.cons_ne_nil _ _)
  | cons head row ih =>
      obtain ⟨hhead, hrow⟩ := List.forall_mem_cons.mp hkinds
      cases others with
      | nil =>
          obtain ⟨-, -, ⟨hnil, -⟩ | hrest⟩ := h.head
          · simp at hnil
          · obtain ⟨_, _, _, _, -, hnil⟩ := hrest.exists_cons
            exact absurd hnil.symm (List.cons_ne_nil _ _)
      | cons other others =>
          obtain ⟨htoken, hattached, ⟨hnil, -⟩ | hrest⟩ := h.head
          · simp at hnil
          · exact .next htoken hhead (fun _ => hattached trivial hhead) (ih hrest hrow)

theorem Bordered.exists_cons {stop place : Position} {tokens others : List Token}
    (h : Bordered border stop tokens place others) :
    ∃ token rest other following, tokens = token :: rest ∧ others = other :: following := by
  cases h with
  | here => exact ⟨_, _, _, _, rfl, rfl⟩
  | next => exact ⟨_, _, _, _, rfl, rfl⟩

/-- Both runs move on over tokens that correspond. -/
theorem Borders.advance {depth deeper : Nat} {state other after : ParserState} {value : Token}
    (h : Borders border depth deeper state other)
    (htoken : Token.Corresponds forgotten forgotten state.current other.current)
    (hrest : Bordered border state.current.stop state.upcoming other.current.stop other.upcoming)
    (hrun : advance state = .ok value after) :
    Reaches border (Token.Corresponds forgotten forgotten) depth deeper value after
      (advance other) := by
  obtain ⟨current, upcoming, failure, stop, level⟩ := state
  obtain ⟨following, others, otherFailure, place, otherLevel⟩ := other
  obtain ⟨_, _, _, _, rfl, rfl⟩ := hrest.exists_cons
  cases hrun
  exact .ok htoken ⟨hrest, h.failure, h.depth, h.deeper⟩

namespace Transfers

variable {here there : TokenKind → Prop} {α β : Type} {related : α → α → Prop}
  {between : β → β → Prop} {left right : Parser α}

theorem mono (h : Transfers border here related left right)
    (himp : ∀ kind, there kind → here kind) : Transfers border there related left right :=
  fun depth deeper hdepth state other hstate hthere =>
    h depth deeper hdepth state other hstate (himp _ hthere)

theorem anywhere (h : Transfers border anyKind related left right) :
    Transfers border here related left right :=
  h.mono fun _ _ => trivial

theorem pure {value other : α} (h : related value other) :
    Transfers border here related (pure value) (pure other) := by
  intro depth deeper _ state other hstate _ value after hrun
  cases hrun
  exact .ok h hstate

/-- Where the first parser fails nothing has to be found. -/
theorem throw (error : ParseError) (right : Parser α) :
    Transfers border here related (throw error) right :=
  fun _ _ _ _ _ _ _ _ _ hrun => nomatch hrun

theorem unexpected (expected : String) (right : Parser α) :
    Transfers border here related (unexpected expected) right :=
  fun _ _ _ _ _ _ _ _ _ hrun => nomatch hrun

theorem exhausted (right : Parser α) : Transfers border here related exhausted right :=
  fun _ _ _ _ _ _ _ _ _ hrun => nomatch hrun

theorem bind {first second : Parser β} {leftNext rightNext : β → Parser α}
    (h : Transfers border here between first second)
    (hnext : ∀ value other, between value other →
      Transfers border anyKind related (leftNext value) (rightNext other)) :
    Transfers border here related (first >>= leftNext) (second >>= rightNext) := by
  intro depth deeper hdepth state other hstate hhere value after hrun
  obtain ⟨middle, inner, hfirst, hrun⟩ := exists_of_bind_ok hrun
  have hreaches := h depth deeper hdepth state other hstate hhere middle inner hfirst
  generalize hsecond : second other = result at hreaches
  cases hreaches with
  | ok hvalue hafter =>
      rw [bind_of_ok hsecond]
      exact hnext _ _ hvalue depth deeper hdepth _ _ hafter trivial _ _ hrun
  | tooDeep hless =>
      rw [bind_of_error hsecond]
      exact .tooDeep hless

theorem nested (h : Transfers border here related left right) :
    Transfers border here related (nested left) (nested right) := by
  intro depth deeper hdepth state other hstate hhere value after hrun
  obtain ⟨htokens, hfailure, rfl, rfl⟩ := hstate
  unfold Parser.nested at hrun ⊢
  split at hrun
  · cases hrun
  · next hlimit =>
      by_cases hdeep : nestingLimit ≤ other.depth
      · rw [if_pos hdeep]
        exact .tooDeep (by omega)
      · rw [if_neg hdeep]
        split at hrun
        · next inner hinner =>
            cases hrun
            have hreaches := h (state.depth + 1) (other.depth + 1) (Nat.succ_le_succ hdepth)
              { state with depth := state.depth + 1 } { other with depth := other.depth + 1 }
              ⟨htokens, hfailure, rfl, rfl⟩ hhere _ _ hinner
            generalize right { other with depth := other.depth + 1 } = result at hreaches
            cases hreaches with
            | ok hvalue hafter =>
                refine .ok hvalue ⟨hafter.tokens, hafter.failure, ?_, ?_⟩
                · exact congrArg (· - 1) hafter.depth
                · exact congrArg (· - 1) hafter.deeper
            | tooDeep hless => exact .tooDeep (Nat.lt_of_succ_lt_succ hless)
        · cases hrun

/-- A rule that is chosen by the current token. At the border it may be chosen differently. -/
theorem current {leftNext rightNext : Token → Parser α}
    (hsame : ∀ token other, Token.Corresponds forgotten forgotten token other →
      Transfers border (· = token.kind) related (leftNext token) (rightNext other))
    (hborder : ∀ token, token.kind = border.kind →
      Transfers border (· = border.kind) related (leftNext token) (rightNext border.sign)) :
    Transfers border here related (current >>= leftNext) (current >>= rightNext) := by
  intro depth deeper hdepth state other hstate _ value after hrun
  change Reaches border related depth deeper value after (rightNext other.current other)
  rcases hstate.tokens.head with ⟨hkind, -, hsign⟩ | ⟨htoken, -, -⟩
  · rw [hsign]
    exact hborder _ hkind depth deeper hdepth state other hstate hkind value after hrun
  · exact hsame _ _ htoken depth deeper hdepth state other hstate rfl value after hrun

/-- A rule that looks at the current token and goes on in the same way whatever it is. -/
theorem anyToken {leftNext rightNext : Token → Parser α}
    (h : ∀ token other, Transfers border here related (leftNext token) (rightNext other)) :
    Transfers border here related (Parser.current >>= leftNext) (Parser.current >>= rightNext) :=
  fun depth deeper hdepth state other hstate hhere value after hrun =>
    h state.current other.current depth deeper hdepth state other hstate hhere value after hrun

/-- A rule that looks at whether the current token touches the one before. -/
theorem attached {leftNext rightNext : Bool → Token → Parser α}
    (hsame : ∀ attached other token following,
      Token.Corresponds forgotten forgotten token following → (border.strict → attached = other) →
        Transfers border (· = token.kind) related (leftNext attached token)
          (rightNext other following))
    (hborder : ∀ attached other token, token.kind = border.kind →
      Transfers border (· = border.kind) related (leftNext attached token)
        (rightNext other border.sign)) :
    Transfers border here related
      (isAttached >>= fun attached => Parser.current >>= leftNext attached)
      (isAttached >>= fun attached => Parser.current >>= rightNext attached) := by
  intro depth deeper hdepth state other hstate _ value after hrun
  change Reaches border related depth deeper value after
    (rightNext (decide (other.current.start = other.previousStop)) other.current other)
  rcases hstate.tokens.head with ⟨hkind, -, hsign⟩ | ⟨htoken, hattached, -⟩
  · rw [hsign]
    exact hborder _ _ _ hkind depth deeper hdepth state other hstate hkind value after hrun
  · refine hsame _ _ _ _ htoken (fun hstrict => ?_) depth deeper hdepth state other hstate rfl value
      after hrun
    exact decide_eq_decide.mpr (hattached hstrict)

end Transfers

/-! ### Steps -/

section

variable {here : TokenKind → Prop} {α : Type} {related : α → α → Prop}

theorem Border.kind_ne {kind : TokenKind} (hkind : endsStatement kind = false) :
    border.kind ≠ kind := by
  rintro rfl
  exact absurd border.kind_ends (Bool.eq_false_iff.mp hkind)

theorem Border.sign_ne {kind : TokenKind} (hkind : endsExpression kind = false) :
    border.sign.kind ≠ kind := by
  rintro rfl
  exact absurd border.sign_ends (Bool.eq_false_iff.mp hkind)

theorem transfers_advance :
    Transfers border (· ≠ border.kind) (Token.Corresponds forgotten forgotten) advance advance := by
  intro depth deeper _ state other hstate hhere value after hrun
  rcases hstate.tokens.head with ⟨hkind, -⟩ | ⟨htoken, -, hrest⟩
  · exact absurd hkind hhere
  · exact hstate.advance htoken hrest hrun

/-- Moving on where the current token is none that ends a statement. -/
theorem transfers_advance_of {token : Token} {kind : TokenKind} (htoken : token.kind = kind)
    (hkind : endsStatement kind = false) :
    Transfers border (· = token.kind) (Token.Corresponds forgotten forgotten) advance advance :=
  transfers_advance.mono fun _ hsame => hsame ▸ htoken ▸ (Border.kind_ne hkind).symm

theorem accept_eq (kind : TokenKind) : accept kind = current >>= fun token =>
    if token.kind == kind then advance >>= fun _ => pure true else pure false :=
  rfl

theorem expect_eq (kind : TokenKind) (expected : String) : expect kind expected =
    current >>= fun token => if token.kind == kind then advance else unexpected expected :=
  rfl

theorem atStatementEnd_eq :
    atStatementEnd = current >>= fun token => pure (endsStatement token.kind) := by
  refine congrArg (current >>= ·) (funext fun token => ?_)
  cases token.kind <;> rfl

/-- To ask for a token. Where it is there it is none that ends an expression. -/
theorem transfers_check_bind {kind : TokenKind} (hkind : endsExpression kind = false)
    {leftNext rightNext : Bool → Parser α}
    (htrue : Transfers border (· = kind) related (leftNext true) (rightNext true))
    (hfalse : Transfers border anyKind related (leftNext false) (rightNext false)) :
    Transfers border here related (check kind >>= leftNext) (check kind >>= rightNext) := by
  have hless := endsStatement_eq_false hkind
  have hbind (next : Bool → Parser α) :
      (check kind >>= next) = current >>= fun token => next (token.kind == kind) := rfl
  rw [hbind, hbind]
  refine .current (fun token other htoken => ?_) fun token htoken => ?_
  · rw [← htoken.kind]
    cases hfound : token.kind == kind with
    | true => exact htrue.mono fun _ hsame => hsame.trans (eq_of_beq hfound)
    | false => exact hfalse.anywhere
  · rw [htoken, beq_false_of_ne (Border.kind_ne hless), beq_false_of_ne (Border.sign_ne hkind)]
    exact hfalse.anywhere

theorem transfers_check {kind : TokenKind} (hkind : endsExpression kind = false) :
    Transfers border here Eq (check kind) (check kind) := by
  rw [← bind_pure (check kind)]
  exact transfers_check_bind hkind (.pure rfl) (.pure rfl)

/-- To take a token that is asked for, if it is there. -/
theorem transfers_accept {kind : TokenKind} (hkind : endsExpression kind = false) :
    Transfers border here Eq (accept kind) (accept kind) := by
  have hless := endsStatement_eq_false hkind
  rw [accept_eq]
  refine .current (fun token other htoken => ?_) fun token htoken => ?_
  · rw [← htoken.kind]
    split
    · next hfound =>
        exact (transfers_advance_of (eq_of_beq hfound) hless).bind fun _ _ _ => .pure rfl
    · exact .pure rfl
  · rw [htoken, beq_false_of_ne (Border.kind_ne hless), beq_false_of_ne (Border.sign_ne hkind)]
    exact .pure rfl

theorem transfers_expect {kind : TokenKind} (hkind : endsExpression kind = false)
    (expected : String) :
    Transfers border here (Token.Corresponds forgotten forgotten) (expect kind expected)
      (expect kind expected) := by
  have hless := endsStatement_eq_false hkind
  rw [expect_eq]
  refine .current (fun token other htoken => ?_) fun token htoken => ?_
  · rw [← htoken.kind]
    split
    · next hfound => exact transfers_advance_of (eq_of_beq hfound) hless
    · exact .unexpected _ _
  · rw [htoken, beq_false_of_ne (Border.kind_ne hless)]
    exact .unexpected _ _

theorem transfers_expectMemberName :
    Transfers border here Eq expectMemberName expectMemberName := by
  intro depth deeper hdepth state other hstate _ value after hrun
  unfold expectMemberName at hrun ⊢
  rw [bind_of_ok (show current state = .ok state.current state from rfl)] at hrun
  rw [bind_of_ok (show current other = .ok other.current other from rfl)]
  rcases hstate.tokens.head with ⟨-, hliteral, -⟩ | ⟨htoken, -, hrest⟩
  · rw [if_neg fun hname => hliteral hname.2] at hrun
    exact nomatch hrun
  · rw [htoken.kind, htoken.literal] at hrun
    split at hrun
    · next hname =>
        rw [if_pos hname]
        obtain ⟨token, inner, hadvance, hrun⟩ := exists_of_bind_ok hrun
        cases hrun
        have hreaches := hstate.advance htoken hrest hadvance
        generalize hother : advance other = result at hreaches
        cases hreaches with
        | ok hvalue hafter =>
            rw [bind_of_ok hother]
            exact .ok hvalue.literal hafter
        | tooDeep hless =>
            rw [bind_of_error hother]
            exact .tooDeep hless
    · exact nomatch hrun

/-- Both runs find that a statement ends, or neither. -/
theorem transfers_atStatementEnd (hstrict : border.strict) :
    Transfers border here Eq atStatementEnd atStatementEnd := by
  rw [atStatementEnd_eq]
  refine .current (fun token other htoken => .pure ?_) fun token htoken => .pure ?_
  · rw [htoken.kind]
  · rw [htoken, border.kind_ends, border.strict_ends hstrict]

end

/-! ### Rules -/

theorem operatorAt_of_endsExpression {kind : TokenKind} (h : endsExpression kind) (level : Nat) :
    operatorAt level kind = none := by
  unfold operatorAt
  split
  all_goals first
    | rfl
    | exact absurd h Bool.false_ne_true

theorem unaryOperatorAt_of_endsExpression {kind : TokenKind} (h : endsExpression kind) :
    unaryOperatorAt kind = none := by
  cases kind
  all_goals first
    | rfl
    | exact absurd h Bool.false_ne_true

theorem Border.kind_endsExpression (border : Border) : endsExpression border.kind :=
  endsExpression_of_endsStatement border.kind_ends

/-- With `fuel` levels on the left and `more` on the right, what the rules of expressions find up to
one border they find up to the other. So do the rules of simple statements, if the border is one of
statements. -/
structure RulesTransfer (border : Border) (fuel more : Nat) : Prop where
  simpleStatement (h : border.strict) : Transfers border anyKind (SameStmt forgotten forgotten)
    (simpleStatement fuel) (simpleStatement more)
  assignmentOrCall (h : border.strict) : Transfers border anyKind (SameStmt forgotten forgotten)
    (assignmentOrCall fuel) (assignmentOrCall more)
  spacedArguments (h : border.strict) {start place : Position} {callee head : Expr}
    {arguments others : List Expr} (hcallee : SameExpr forgotten forgotten callee head)
    (harguments : SameExprs forgotten forgotten arguments others) :
    Transfers border anyKind (SameStmt forgotten forgotten)
      (spacedArguments fuel start callee arguments) (spacedArguments more place head others)
  assignment {start place : Position} {target other : Expr}
    (htarget : SameExpr forgotten forgotten target other) :
    Transfers border anyKind (SameStmt forgotten forgotten) (assignment fuel start target)
      (assignment more place other)
  expression : Transfers border anyKind (SameExpr forgotten forgotten) (expression fuel)
    (expression more)
  operand (level : Nat) : Transfers border anyKind (SameExpr forgotten forgotten)
    (operand fuel level) (operand more level)
  operatorChain (level : Nat) {left right : Expr} (h : SameExpr forgotten forgotten left right) :
    Transfers border anyKind (SameExpr forgotten forgotten) (operatorChain fuel level left)
      (operatorChain more level right)
  unary : Transfers border anyKind (SameExpr forgotten forgotten) (unary fuel) (unary more)
  postfixChain (touching : Bool) (h : touching → border.strict) :
    Transfers border anyKind (SameExpr forgotten forgotten) (postfixChain fuel touching)
      (postfixChain more touching)
  suffixes (touching : Bool) (h : touching → border.strict) {head other : Expr}
    (hhead : SameExpr forgotten forgotten head other) :
    Transfers border anyKind (SameExpr forgotten forgotten) (suffixes fuel touching head)
      (suffixes more touching other)
  arguments : Transfers border anyKind (SameExprs forgotten forgotten) (arguments fuel)
    (arguments more)
  primary : Transfers border anyKind (SameExpr forgotten forgotten) (primary fuel) (primary more)
  stepTail : Transfers border anyKind (SameStep forgotten forgotten) (stepTail fuel) (stepTail more)
  collection : Transfers border (· = .leftBracket) (SameExpr forgotten forgotten) (collection fuel)
    (collection more)
  elements : Transfers border anyKind (SameExprs forgotten forgotten) (elements fuel)
    (elements more)
  entries : Transfers border anyKind (SameEntries forgotten forgotten) (entries fuel) (entries more)

namespace RulesTransfer

variable {fuel more : Nat} (ih : RulesTransfer border fuel more)
include ih

theorem expression_succ : Transfers border anyKind (SameExpr forgotten forgotten)
    (Parser.expression (fuel + 1)) (Parser.expression (more + 1)) :=
  (ih.operand 0).nested

theorem operand_succ (level : Nat) : Transfers border anyKind (SameExpr forgotten forgotten)
    (Parser.operand (fuel + 1) level) (Parser.operand (more + 1) level) := by
  unfold Parser.operand
  split
  · exact (ih.operand (level + 1)).bind fun _ _ hleft => ih.operatorChain level hleft
  · exact ih.unary

theorem operatorChain_succ (level : Nat) {left right : Expr}
    (h : SameExpr forgotten forgotten left right) :
    Transfers border anyKind (SameExpr forgotten forgotten)
      (Parser.operatorChain (fuel + 1) level left)
      (Parser.operatorChain (more + 1) level right) := by
  refine .current (fun token other htoken => ?_) fun token htoken => ?_
  · rw [← htoken.kind]
    split
    · exact .pure h
    · next operator hoperator =>
        have hkind : token.kind ≠ border.kind := by
          intro hsame
          rw [hsame, operatorAt_of_endsExpression border.kind_endsExpression] at hoperator
          exact nomatch hoperator
        refine (transfers_advance.mono fun _ hsame => hsame ▸ hkind).bind fun _ _ _ => ?_
        refine (ih.operand (level + 1)).bind fun _ _ hright => ih.operatorChain level ?_
        simp only [SameExpr, Expr.relocate, h, hright]
  · rw [htoken, operatorAt_of_endsExpression border.kind_endsExpression,
      operatorAt_of_endsExpression border.sign_ends]
    exact .pure h

theorem unary_succ : Transfers border anyKind (SameExpr forgotten forgotten)
    (Parser.unary (fuel + 1)) (Parser.unary (more + 1)) := by
  have hchain := ih.postfixChain false (absurd · Bool.false_ne_true)
  refine .current (fun token other htoken => ?_) fun token htoken => ?_
  · rw [← htoken.kind]
    split
    · exact hchain.anywhere
    · next operator hoperator =>
        have hkind : token.kind ≠ border.kind := by
          intro hsame
          rw [hsame, unaryOperatorAt_of_endsExpression border.kind_endsExpression] at hoperator
          exact nomatch hoperator
        refine (transfers_advance.mono fun _ hsame => hsame ▸ hkind).bind fun _ _ _ => ?_
        refine ih.unary.nested.bind fun _ _ hoperand => .pure ?_
        simp only [SameExpr, Expr.relocate, hoperand]
  · rw [htoken, unaryOperatorAt_of_endsExpression border.kind_endsExpression,
      unaryOperatorAt_of_endsExpression border.sign_ends]
    exact hchain.anywhere

theorem postfixChain_succ (touching : Bool) (h : touching → border.strict) :
    Transfers border anyKind (SameExpr forgotten forgotten)
      (Parser.postfixChain (fuel + 1) touching) (Parser.postfixChain (more + 1) touching) :=
  ih.primary.bind fun _ _ hhead => ih.suffixes touching h hhead

theorem suffixes_succ (touching : Bool) (h : touching → border.strict) {head other : Expr}
    (hhead : SameExpr forgotten forgotten head other) :
    Transfers border anyKind (SameExpr forgotten forgotten)
      (Parser.suffixes (fuel + 1) touching head) (Parser.suffixes (more + 1) touching other) := by
  refine .attached (fun attached other token following htoken hattached => ?_)
    fun attached other token htoken => ?_
  · -- Without `touching` the chain goes on whether the token is attached or not.
    have hcontinues : (!touching || attached) = (!touching || other) := by
      cases touching with
      | false => rfl
      | true => exact congrArg _ (hattached (h rfl))
    rw [← htoken.kind, hcontinues]
    split
    · next hkind _ =>
        refine (transfers_advance_of hkind rfl).bind fun _ _ _ => ?_
        refine ih.arguments.bind fun _ _ harguments => ih.suffixes touching h ?_
        simp only [SameExpr, Expr.relocate, hhead, harguments]
    · next hkind _ =>
        refine (transfers_advance_of hkind rfl).bind fun _ _ _ => ?_
        refine ih.expression.bind fun _ _ hindex => ?_
        refine (transfers_expect rfl _).bind fun _ _ _ => ih.suffixes touching h ?_
        simp only [SameExpr, Expr.relocate, hhead, hindex]
    · next hkind =>
        refine (transfers_advance_of hkind rfl).bind fun _ _ _ => ?_
        refine transfers_expectMemberName.bind fun property _ hproperty => ?_
        subst hproperty
        refine ih.suffixes touching h ?_
        simp only [SameExpr, Expr.relocate, hhead]
    · exact .pure hhead
  · split
    · next hparen _ => exact absurd (htoken.symm.trans hparen) (Border.kind_ne rfl)
    · next hbracket _ => exact absurd (htoken.symm.trans hbracket) (Border.kind_ne rfl)
    · next hdot => exact absurd (htoken.symm.trans hdot) (Border.kind_ne rfl)
    · split
      · next hparen _ => exact absurd hparen (Border.sign_ne rfl)
      · next hbracket _ => exact absurd hbracket (Border.sign_ne rfl)
      · next hdot => exact absurd hdot (Border.sign_ne rfl)
      · exact .pure hhead

theorem arguments_succ : Transfers border anyKind (SameExprs forgotten forgotten)
    (Parser.arguments (fuel + 1)) (Parser.arguments (more + 1)) := by
  refine (transfers_accept rfl).bind fun closed _ hclosed => ?_
  subst hclosed
  split
  · exact .pure rfl
  · refine ih.expression.bind fun _ _ hargument => (transfers_check rfl).bind fun last _ hlast => ?_
    subst hlast
    split
    · refine ih.arguments.bind fun _ _ harguments => .pure ?_
      simp only [SameExprs, Expr.relocateAll, hargument, harguments]
    · refine (transfers_expect rfl _).bind fun _ _ _ => ih.arguments.bind fun _ _ harguments => ?_
      refine .pure ?_
      simp only [SameExprs, Expr.relocateAll, hargument, harguments]

theorem primary_succ : Transfers border anyKind (SameExpr forgotten forgotten)
    (Parser.primary (fuel + 1)) (Parser.primary (more + 1)) := by
  refine .current (fun token other htoken => ?_) fun token htoken => ?_
  · rw [← htoken.kind, ← htoken.literal]
    split
    · next hkind => exact (transfers_advance_of hkind rfl).bind fun _ _ _ => .pure rfl
    · next hkind => exact (transfers_advance_of hkind rfl).bind fun _ _ _ => .pure rfl
    · next hkind =>
        refine (transfers_advance_of hkind rfl).bind fun _ _ _ => ?_
        split
        · exact .pure rfl
        · exact .throw _ _
    · next hkind => exact (transfers_advance_of hkind rfl).bind fun _ _ _ => .pure rfl
    · next hkind => exact (transfers_advance_of hkind rfl).bind fun _ _ _ => .pure rfl
    · next hkind => exact (transfers_advance_of hkind rfl).bind fun _ _ _ => .pure rfl
    · next hkind =>
        refine (transfers_advance_of hkind rfl).bind fun _ _ _ => ?_
        refine ih.expression.bind fun _ _ hinner => ?_
        exact (transfers_expect rfl _).bind fun _ _ _ => .pure hinner
    · next hkind => exact ih.collection.mono fun _ hsame => hsame.trans hkind
    · next hkind =>
        refine (transfers_advance_of hkind rfl).bind fun _ _ _ => ?_
        refine ih.expression.bind fun _ _ hbody => ?_
        refine (transfers_expect rfl _).bind fun _ _ _ => .pure ?_
        simp only [SameExpr, Expr.relocate, hbody]
    · next hkind =>
        refine (transfers_advance_of hkind rfl).bind fun _ _ _ => ?_
        refine ih.stepTail.bind fun _ _ hstep => .pure ?_
        simp only [SameExpr, Expr.relocate, hstep.1, hstep.2]
    · next hkind =>
        refine (transfers_advance_of hkind rfl).bind fun _ _ _ => ?_
        refine ih.stepTail.bind fun _ _ hstep => .pure ?_
        simp only [SameExpr, Expr.relocate, hstep.1, hstep.2]
    · exact .unexpected _ _
  · have hkind : endsStatement token.kind := htoken ▸ border.kind_ends
    revert hkind
    cases token.kind
    all_goals first
      | exact fun hkind => absurd hkind Bool.false_ne_true
      | exact fun _ => .unexpected _ _

theorem stepTail_succ : Transfers border anyKind (SameStep forgotten forgotten)
    (Parser.stepTail (fuel + 1)) (Parser.stepTail (more + 1)) := by
  refine .anyToken fun token other => ih.expression.bind fun target _ htarget => ?_
  rw [isAssignable_of_sameExpr htarget]
  split
  · refine (transfers_accept rfl).bind fun hasAmount _ hsame => ?_
    subst hsame
    split
    · refine ih.expression.bind fun _ _ hamount => .pure ⟨htarget, ?_⟩
      simp only [SameOptional, Expr.relocateOptional, hamount]
    · exact .pure ⟨htarget, rfl⟩
  · exact .throw _ _

theorem collection_succ : Transfers border (· = .leftBracket) (SameExpr forgotten forgotten)
    (Parser.collection (fuel + 1)) (Parser.collection (more + 1)) := by
  refine (transfers_advance.mono fun _ hsame => ?_).bind fun opening _ _ => ?_
  · exact hsame ▸ (Border.kind_ne rfl).symm
  refine (transfers_accept rfl).bind fun colon _ hcolon => ?_
  subst hcolon
  split
  · exact (transfers_expect rfl _).bind fun _ _ _ => .pure rfl
  · refine (transfers_accept rfl).bind fun closed _ hclosed => ?_
    subst hclosed
    split
    · exact .pure rfl
    · refine ih.expression.bind fun _ _ hhead => (transfers_accept rfl).bind fun hash _ hhash => ?_
      subst hhash
      split
      · refine ih.expression.bind fun _ _ hvalue => ih.entries.bind fun _ _ hentries => ?_
        refine (transfers_expect rfl _).bind fun _ _ _ => .pure ?_
        simp only [SameExpr, Expr.relocate, Entry.relocateAll, hhead, hvalue, hentries]
      · refine ih.elements.bind fun _ _ helements => ?_
        refine (transfers_expect rfl _).bind fun _ _ _ => .pure ?_
        simp only [SameExpr, Expr.relocate, Expr.relocateAll, hhead, helements]

theorem elements_succ : Transfers border anyKind (SameExprs forgotten forgotten)
    (Parser.elements (fuel + 1)) (Parser.elements (more + 1)) := by
  refine (transfers_accept rfl).bind fun comma _ hcomma => ?_
  subst hcomma
  split
  · refine ih.expression.bind fun _ _ helement => ih.elements.bind fun _ _ helements => .pure ?_
    simp only [SameExprs, Expr.relocateAll, helement, helements]
  · exact .pure rfl

theorem entries_succ : Transfers border anyKind (SameEntries forgotten forgotten)
    (Parser.entries (fuel + 1)) (Parser.entries (more + 1)) := by
  refine (transfers_accept rfl).bind fun comma _ hcomma => ?_
  subst hcomma
  split
  · refine ih.expression.bind fun _ _ hkey => (transfers_expect rfl _).bind fun _ _ _ => ?_
    refine ih.expression.bind fun _ _ hvalue => ih.entries.bind fun _ _ hentries => .pure ?_
    simp only [SameEntries, Entry.relocateAll, hkey, hvalue, hentries]
  · exact .pure rfl

/-! ### Simple statements -/

theorem simpleStatement_succ (h : border.strict) :
    Transfers border anyKind (SameStmt forgotten forgotten) (Parser.simpleStatement (fuel + 1))
      (Parser.simpleStatement (more + 1)) := by
  refine .current (fun token other htoken => ?_) fun token htoken => ?_
  · rw [← htoken.kind]
    split
    · next hkind =>
        refine (transfers_advance_of hkind rfl).bind fun _ _ _ => ?_
        refine (transfers_atStatementEnd h).bind fun ends _ hends => ?_
        subst hends
        split
        · exact .pure rfl
        · refine ih.expression.bind fun _ _ hvalue => .pure ?_
          simp only [SameStmt, Stmt.relocate, Expr.relocateOptional, hvalue]
    · next hkind => exact (transfers_advance_of hkind rfl).bind fun _ _ _ => .pure rfl
    · next hkind => exact (transfers_advance_of hkind rfl).bind fun _ _ _ => .pure rfl
    · next hkind =>
        refine (transfers_advance_of hkind rfl).bind fun _ _ _ => ?_
        refine ih.stepTail.bind fun _ _ hstep => .pure ?_
        simp only [SameStmt, Stmt.relocate, hstep.1, hstep.2]
    · next hkind =>
        refine (transfers_advance_of hkind rfl).bind fun _ _ _ => ?_
        refine ih.stepTail.bind fun _ _ hstep => .pure ?_
        simp only [SameStmt, Stmt.relocate, hstep.1, hstep.2]
    · exact (ih.assignmentOrCall h).anywhere
  · split
    case h_6 =>
      split
      case h_6 => exact (ih.assignmentOrCall h).anywhere
      all_goals
        rename_i hsign
        exact absurd hsign (Border.sign_ne rfl)
    all_goals
      rename_i hkind
      exact absurd (htoken.symm.trans hkind) (Border.kind_ne rfl)

theorem assignmentOrCall_succ (h : border.strict) :
    Transfers border anyKind (SameStmt forgotten forgotten) (Parser.assignmentOrCall (fuel + 1))
      (Parser.assignmentOrCall (more + 1)) := by
  refine .anyToken fun token other => ?_
  refine (ih.postfixChain true fun _ => h).bind fun head tail hhead => ?_
  refine (transfers_accept rfl).bind fun equals _ hequals => ?_
  subst hequals
  split
  · exact ih.assignment hhead
  · split
    · rename_i position callee arguments
      obtain ⟨place, others, values, rfl, _, hcallee, harguments⟩ :=
        Expr.exists_call_of_relocate_eq hhead.symm
      exact ih.spacedArguments h hcallee.symm harguments.symm
    · rename_i hnotCall
      split
      · rename_i position callee arguments
        obtain ⟨place, others, values, rfl, _⟩ := Expr.exists_call_of_relocate_eq hhead
        exact absurd rfl (hnotCall _ _ _)
      · exact ih.spacedArguments h hhead rfl

theorem spacedArguments_succ (h : border.strict) {start place : Position} {callee head : Expr}
    {arguments others : List Expr} (hcallee : SameExpr forgotten forgotten callee head)
    (harguments : SameExprs forgotten forgotten arguments others) :
    Transfers border anyKind (SameStmt forgotten forgotten)
      (Parser.spacedArguments (fuel + 1) start callee arguments)
      (Parser.spacedArguments (more + 1) place head others) := by
  refine (transfers_atStatementEnd h).bind fun ends _ hends => ?_
  subst hends
  split
  · refine .pure ?_
    simp only [SameStmt, Stmt.relocate, hcallee, harguments]
  · refine ih.expression.bind fun argument other hargument => ?_
    have hattached := sameOptional_reattach hcallee hargument
    have hmore : SameExprs forgotten forgotten (arguments ++ [argument]) (others ++ [other]) := by
      rw [SameExprs, Expr.relocateAll_append, Expr.relocateAll_append, harguments]
      exact congrArg _ (congrArg (· :: []) hargument)
    have hnext : Transfers border anyKind (SameStmt forgotten forgotten)
        (Parser.spacedArguments fuel start callee (arguments ++ [argument]))
        (Parser.spacedArguments more place head (others ++ [other])) :=
      ih.spacedArguments h hcallee hmore
    cases arguments with
    | cons head rest =>
        cases others with
        | nil => simp only [SameExprs, Expr.relocateAll, reduceCtorEq] at harguments
        | cons _ _ => exact transfers_check_bind rfl hnext.anywhere hnext
    | nil =>
        cases others with
        | cons _ _ => simp only [SameExprs, Expr.relocateAll, reduceCtorEq] at harguments
        | nil =>
            generalize reattach callee argument = target, reattach head other = fixed at hattached
            cases target with
            | none =>
                cases fixed with
                | none => exact transfers_check_bind rfl hnext.anywhere hnext
                | some fixed => cases hattached
            | some target =>
                cases fixed with
                | none => cases hattached
                | some fixed =>
                    refine transfers_check_bind rfl ?_ hnext
                    refine (transfers_advance.mono fun _ hsame => ?_).bind fun _ _ _ => ?_
                    · exact hsame ▸ (Border.kind_ne rfl).symm
                    · exact ih.assignment (Option.some.inj hattached)

theorem assignment_succ {start place : Position} {target other : Expr}
    (htarget : SameExpr forgotten forgotten target other) :
    Transfers border anyKind (SameStmt forgotten forgotten)
      (Parser.assignment (fuel + 1) start target) (Parser.assignment (more + 1) place other) := by
  simp only [Parser.assignment]
  rw [isAssignable_of_sameExpr htarget]
  split
  · refine ih.expression.bind fun _ _ hvalue => .pure ?_
    simp only [SameStmt, Stmt.relocate, htarget, hvalue]
  · exact .throw _ _

end RulesTransfer

/-- **What is found up to one border is found up to another.** -/
theorem rulesTransfer (border : Border) {fuel more : Nat} (h : fuel ≤ more) :
    RulesTransfer border fuel more := by
  induction fuel generalizing more with
  | zero =>
      constructor
      all_goals intros; exact .exhausted _
  | succ fuel ih =>
      obtain ⟨more, rfl⟩ : ∃ less, more = less + 1 := ⟨more - 1, by omega⟩
      have hrules := ih (Nat.le_of_succ_le_succ h)
      exact
        { simpleStatement := hrules.simpleStatement_succ
          assignmentOrCall := hrules.assignmentOrCall_succ
          spacedArguments := hrules.spacedArguments_succ
          assignment := hrules.assignment_succ
          expression := hrules.expression_succ
          operand := hrules.operand_succ
          operatorChain := hrules.operatorChain_succ
          unary := hrules.unary_succ
          postfixChain := hrules.postfixChain_succ
          suffixes := hrules.suffixes_succ
          arguments := hrules.arguments_succ
          primary := hrules.primary_succ
          stepTail := hrules.stepTail_succ
          collection := hrules.collection_succ
          elements := hrules.elements_succ
          entries := hrules.entries_succ }

end Parser

end ScriptEngine
