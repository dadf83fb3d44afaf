import ScriptEngine.Proofs.Program.Borders
import ScriptEngine.Proofs.Program.Simple
import ScriptEngine.Proofs.Source.Tiling

/-!
# Rows of tokens that are taken

What a rule takes from the tokens in hand, said of the tokens alone. A row that was read as a part
of one statement is taken in front of any border (`TakesRow`), and the rules of statements take
their parts one after another. So a statement with a modifier and a statement with a block are put
together of the same two rows.
-/

namespace ScriptEngine

/-- The parser has these tokens in hand at a depth, and no fault behind them. -/
structure ParserState.Holds (state : ParserState) (tokens : List Token) (depth : Nat) : Prop where
  tokens : state.current :: state.upcoming = tokens
  failure : state.failure = none
  depth : state.depth = depth

namespace Parser

/-! ### What is taken from a row -/

section

variable (deep : Prop) (depth : Nat) (rest : List Token)

/-- A run ends in front of the rest with a good value, or it went too deep, if that may be. -/
inductive EndsBefore {α : Type} (good : α → Prop) : EStateM.Result ParseError ParserState α → Prop
  | ok {value : α} {after : ParserState} (hvalue : good value) (hafter : after.Holds rest depth) :
      EndsBefore good (.ok value after)
  | tooDeep {position : Position} {after : ParserState} (h : deep) :
      EndsBefore good (.error (.nestingTooDeep nestingLimit position) after)

end

/-- The parser finds a good value in the tokens and leaves the rest, or goes too deep. -/
def Takes {α : Type} (deep : Prop) (depth : Nat) (tokens rest : List Token) (parser : Parser α)
    (good : α → Prop) : Prop :=
  ∀ state : ParserState, state.Holds tokens depth → EndsBefore deep depth rest good (parser state)

section

variable {deep : Prop} {depth : Nat} {tokens middle rest : List Token} {token : Token}
  {α β : Type} {good : α → Prop} {final : β → Prop} {parser : Parser α} {next : α → Parser β}

namespace Takes

theorem pure {value : α} (h : good value) : Takes deep depth rest rest (pure value) good :=
  fun _ hstate => .ok h hstate

theorem bind (h : Takes deep depth tokens middle parser good)
    (hnext : ∀ value, good value → Takes deep depth middle rest (next value) final) :
    Takes deep depth tokens rest (parser >>= next) final := by
  intro state hstate
  have hfirst := h state hstate
  generalize hresult : parser state = result at hfirst
  cases hfirst with
  | ok hvalue hafter =>
      rw [bind_of_ok hresult]
      exact hnext _ hvalue _ hafter
  | tooDeep hdeep =>
      rw [bind_of_error hresult]
      exact .tooDeep hdeep

theorem current {next : Token → Parser β}
    (h : Takes deep depth (token :: tokens) rest (next token) final) :
    Takes deep depth (token :: tokens) rest (Parser.current >>= next) final := by
  intro state hstate
  obtain rfl := (List.cons.inj hstate.tokens).1
  exact h state hstate

/-- One level further down there has to be room, or it is too deep. -/
theorem nested (h : Takes deep (depth + 1) tokens rest parser good)
    (hroom : deep ∨ depth < nestingLimit) :
    Takes deep depth tokens rest (nested parser) good := by
  intro state hstate
  obtain ⟨htokens, hfailure, rfl⟩ := hstate
  unfold Parser.nested
  split
  · next hlimit => exact .tooDeep (hroom.resolve_right (Nat.not_lt.mpr hlimit))
  · have hends := h { state with depth := state.depth + 1 } ⟨htokens, hfailure, rfl⟩
    generalize parser { state with depth := state.depth + 1 } = result at hends
    cases hends with
    | ok hvalue hafter =>
        exact .ok hvalue ⟨hafter.tokens, hafter.failure, congrArg (· - 1) hafter.depth⟩
    | tooDeep hdeep => exact .tooDeep hdeep

end Takes

theorem takes_advance (hrest : rest ≠ []) :
    Takes deep depth (token :: rest) rest advance (· = token) := by
  rintro ⟨current, upcoming, failure, stop, level⟩ ⟨htokens, rfl, rfl⟩
  obtain ⟨rfl, rfl⟩ := List.cons.inj htokens
  obtain ⟨head, tail, rfl⟩ := List.exists_cons_of_ne_nil hrest
  exact .ok rfl ⟨rfl, rfl, rfl⟩

theorem takes_expect {kind : TokenKind} (hkind : token.kind = kind) (hrest : rest ≠ [])
    (expected : String) :
    Takes deep depth (token :: rest) rest (expect kind expected) (· = token) := by
  rw [expect_eq]
  refine .current ?_
  rw [if_pos (beq_iff_eq.mpr hkind)]
  exact takes_advance hrest

theorem takes_accept_of_ne {kind : TokenKind} (hkind : token.kind ≠ kind) :
    Takes deep depth (token :: rest) (token :: rest) (accept kind) (· = false) := by
  rw [accept_eq]
  refine .current ?_
  rw [if_neg (hkind ∘ eq_of_beq)]
  exact .pure rfl

end

/-! ### Parts, wherever they stand -/

/-- The first run stopped at the mark at the end, or at the token in front of it. -/
def StopsLast (kind : TokenKind) (after : ParserState) : Prop :=
  after.current.kind = kind ∧
    (kind = .endOfInput ∨ ∃ mark rest, after.upcoming = mark :: rest ∧ mark.kind = .endOfInput)

/-- If the mark comes after the next step, the run has stopped in front of it. -/
theorem StopsLast.of_advance {kind : TokenKind} {state after : ParserState} {token : Token}
    (hkind : state.current.kind = kind) (hne : kind ≠ .endOfInput)
    (hadvance : advance state = .ok token after) (hend : after.current.kind = .endOfInput) :
    StopsLast kind state := by
  refine ⟨hkind, .inr ?_⟩
  unfold advance at hadvance
  split at hadvance
  · next mark rest hupcoming =>
      cases hadvance
      exact ⟨mark, rest, hupcoming, hend⟩
  · cases hadvance
  · cases hadvance
    exact absurd (hkind.symm.trans hend) hne

/-- At the border the second run has the sign in hand, and what follows it. -/
theorem Borders.holds {border : Border} {depth deeper : Nat} {after rest : ParserState}
    (h : Borders border depth deeper after rest) (hstops : StopsLast border.kind after) :
    rest.Holds (border.sign :: border.following) deeper := by
  refine ⟨?_, h.failure, h.deeper⟩
  obtain ⟨current, upcoming, failure, stop, level⟩ := after
  obtain ⟨hkind, hlast⟩ := hstops
  have htokens := h.tokens
  generalize rest.current :: rest.upcoming = others at htokens ⊢
  cases htokens with
  | here => rfl
  | next _ hend _ hrest =>
      -- The border would have to come later, but there is nothing left except the mark.
      rcases hlast with hborder | ⟨mark, rest, rfl, hmark⟩
      · exact absurd (hkind.trans hborder) hend
      · exact absurd hmark (hrest.kind_ne_endOfInput (hkind ▸ hend))

/-- What was found up to the first border is taken up to the second one. -/
theorem Transfers.endsBefore {border : Border} {α : Type} {related : α → α → Prop}
    {left right : Parser α} {start after state : ParserState} {value : α} {level depth : Nat}
    {deep : Prop} (h : Transfers border anyKind related left right)
    (hborders : Borders border level depth start state) (hlevel : level ≤ depth)
    (hdeep : level < depth → deep) (hrun : left start = .ok value after)
    (hstops : StopsLast border.kind after) :
    EndsBefore deep depth (border.sign :: border.following) (related value) (right state) := by
  have hreaches := h level depth hlevel start state hborders trivial value after hrun
  generalize right state = result at hreaches
  cases hreaches with
  | ok hvalue hafter => exact .ok hvalue (hafter.holds hstops)
  | tooDeep hless => exact .tooDeep (hdeep hless)

/-- Whatever sign of such a kind comes after a row, the rule takes the row and finds the value, up
to places. Further down than the level it may be too deep. -/
def TakesRow {α : Type} (rule : Nat → Parser α) (related : α → α → Prop)
    (ends : TokenKind → Bool) (level : Nat) (row : List Token) (value : α) : Prop :=
  ∀ sign following, ends sign.kind → ∀ fuel, 16 * (row.length + 3) ≤ fuel →
    ∀ depth deep, level ≤ depth → (level < depth → deep) →
      Takes deep depth (row ++ sign :: following) (sign :: following) (rule fuel) (related value)

/-- The row is an expression in front of whatever an expression may end at. -/
abbrev TakesExpression : Nat → List Token → Expr → Prop :=
  TakesRow expression (SameExpr forgotten forgotten) endsExpression

/-- The row is a simple statement in front of a modifier or a semicolon. -/
abbrev TakesSimple : Nat → List Token → Stmt → Prop :=
  TakesRow simpleStatement (SameStmt forgotten forgotten) endsStatement

section

variable {row others : List Token} {mark final : Token} {fuel level : Nat} {place : Position}
  {start after : ParserState}

theorem takesExpression {tree : Expr}
    (haligned : Aligned forgotten forgotten True true .first (row ++ [mark]) place
      (others ++ [final]))
    (hkinds : ∀ token ∈ row, token.kind ≠ .endOfInput) (hmark : mark.content = (.endOfInput, ""))
    (hfuel : fuel ≤ 16 * (others.length + 3)) (hstart : start.Holds (row ++ [mark]) level)
    (hrun : expression fuel start = .ok tree after) (hend : after.current.kind = .endOfInput) :
    TakesExpression level others tree := by
  intro sign following hsign more hmore depth deep hlevel hdeep state hstate
  let border : Border := ⟨.endOfInput, sign, following, False, rfl, hsign, False.elim⟩
  obtain ⟨hkind, hliteral⟩ := Prod.mk.inj hmark
  have hword : ¬ mark.literal.toList.head?.any Lexer.isNameStart := by
    rw [hliteral]
    decide
  have hrow : Bordered border start.previousStop (start.current :: start.upcoming)
      state.previousStop (state.current :: state.upcoming) := by
    rw [hstart.tokens, hstate.tokens]
    exact (haligned.bordered hkinds hkind hword).anywhere id _ _
  have hborders : Borders border level depth start state :=
    ⟨hrow, hstate.failure, hstart.depth, hstate.depth⟩
  have hrule := (rulesTransfer border (hfuel.trans hmore)).expression
  exact hrule.endsBefore hborders hlevel hdeep hrun ⟨hend, .inl rfl⟩

theorem takesSimple {semicolon last : Token} {found : Stmt}
    (haligned : Aligned forgotten forgotten True true .first (row ++ [mark]) place
      (others ++ [final]))
    (hkinds : ∀ token ∈ row, token.kind ≠ .endOfInput)
    (hsemicolon : semicolon.content = (.semicolon, ";")) (hfuel : fuel ≤ 16 * (others.length + 3))
    (hstart : start.Holds (row ++ [semicolon, last]) level) (hstop : start.previousStop = .first)
    (hrun : simpleStatement fuel start = .ok found after) (hend : StopsLast .semicolon after) :
    TakesSimple level others found := by
  intro sign following hsign more hmore depth deep hlevel hdeep state hstate
  let border : Border :=
    ⟨.semicolon, sign, following, True, rfl, endsExpression_of_endsStatement hsign, fun _ => hsign⟩
  obtain ⟨hkind, hliteral⟩ := Prod.mk.inj hsemicolon
  have hword : ¬ semicolon.literal.toList.head?.any Lexer.isNameStart := by
    rw [hliteral]
    decide
  have hrow : Bordered border start.previousStop (start.current :: start.upcoming) place
      (state.current :: state.upcoming) := by
    rw [hstart.tokens, hstate.tokens, hstop]
    exact haligned.bordered hkinds hkind hword
  have hborders : Borders border level depth start { state with previousStop := place } :=
    ⟨hrow, hstate.failure, hstart.depth, hstate.depth⟩
  have hrule := (rulesTransfer border (hfuel.trans hmore)).simpleStatement trivial
  have hends := hrule.endsBefore hborders hlevel hdeep hrun hend
  -- Where the token before the first one stopped is not looked at.
  rcases fresh_simpleStatement more state place with ⟨value, next, hfresh, hplaced⟩ |
    ⟨error, next, other, hfresh, hplaced⟩
  · rw [hplaced] at hends
    rw [hfresh]
    exact hends
  · rw [hplaced] at hends
    rw [hfresh]
    cases hends with
    | tooDeep hdeep => exact .tooDeep hdeep

end

/-! ### Parts put together -/

section

variable {deep : Prop} {depth fuel level : Nat} {tokens rest : List Token}
  {token word first : Token}

theorem takes_statement_of_opensSimple {good : Stmt → Prop} (hopens : opensSimple first.kind)
    (h : Takes deep depth (first :: tokens) rest (plainStatement fuel) good) :
    Takes deep depth (first :: tokens) rest (statement (fuel + 1)) good := by
  intro state hstate
  obtain rfl := (List.cons.inj hstate.tokens).1
  rw [statement_of_opensSimple hopens]
  exact h state hstate

theorem takes_modified {simple : Stmt} {good : Expr → Prop} (hword : isModifier word.kind)
    (hne : tokens ≠ []) (h : Takes deep depth tokens rest (expression fuel) good) :
    Takes deep depth (word :: tokens) rest (modified (fuel + 1) simple) fun result =>
      ∃ condition, good condition ∧ result = guardedBy word.kind simple condition := by
  refine .current ?_
  rw [if_pos hword]
  exact (takes_advance hne).bind fun _ _ => h.bind fun condition hcondition =>
    .pure ⟨condition, hcondition, rfl⟩

theorem takes_modified_of_not {simple : Stmt} (htoken : isModifier token.kind = false) :
    Takes deep depth (token :: tokens) (token :: tokens) (modified (fuel + 1) simple)
      (· = simple) := by
  refine .current ?_
  rw [htoken]
  exact .pure rfl

theorem takes_elseChain_of_ne (htoken : token.kind ≠ .kwElse) :
    Takes deep depth (token :: tokens) (token :: tokens) (elseChain (fuel + 1)) (· = ([], none)) :=
  (takes_accept_of_ne htoken).bind fun hasElse hnone => by
    subst hnone
    exact .pure rfl

theorem takes_blockTail_cons {good : List Stmt → Prop} (hopens : opensSimple first.kind)
    (h : Takes deep depth (first :: tokens) rest (statement fuel >>= fun found =>
      blockTail fuel >>= fun others => pure (found :: others)) good) :
    Takes deep depth (first :: tokens) rest (blockTail (fuel + 1)) good := by
  refine .current ?_
  generalize first.kind = kind at hopens
  cases kind
  all_goals first
    | exact absurd hopens Bool.false_ne_true
    | exact h

theorem takes_blockTail_nil (htoken : token.kind = .rightBrace) (hrest : rest ≠ []) :
    Takes deep depth (token :: rest) rest (blockTail (fuel + 1)) (· = []) := by
  refine .current ?_
  rw [htoken]
  exact (takes_advance hrest).bind fun _ _ => .pure rfl

/-- A block of one simple statement. -/
theorem takes_block {row : List Token} {found : Stmt} {brace semicolon close : Token}
    (hsimple : TakesSimple level (first :: row) found) (hlevel : level ≤ 1)
    (hdeep : level < 1 → deep) (hopens : opensSimple first.kind) (hbrace : brace.kind = .leftBrace)
    (hsemicolon : semicolon.kind = .semicolon) (hclose : close.kind = .rightBrace)
    (hrest : rest ≠ []) (hfuel : 16 * (row.length + 4) ≤ fuel + 1) :
    Takes deep 0 (brace :: (first :: row ++ semicolon :: close :: rest)) rest (block (fuel + 4))
      (SameBody forgotten forgotten [found]) := by
  have hends : endsStatement semicolon.kind := hsemicolon ▸ rfl
  have hmodifier : isModifier semicolon.kind = false := hsemicolon ▸ rfl
  have hplain : Takes deep 1 (first :: row ++ semicolon :: close :: rest) (close :: rest)
      (plainStatement (fuel + 1)) (SameStmt forgotten forgotten found) := by
    refine (hsimple _ _ hends (fuel + 1) hfuel 1 deep hlevel hdeep).bind fun simple hsame => ?_
    refine (takes_modified_of_not hmodifier).bind fun result hresult => ?_
    refine (takes_expect hsemicolon (List.cons_ne_nil _ _) _).bind fun _ _ => .pure ?_
    rw [hresult]
    exact hsame
  refine (takes_expect hbrace (List.cons_ne_nil _ _) _).bind fun _ _ => ?_
  refine Takes.nested (takes_blockTail_cons hopens ?_) (.inr (by decide))
  refine (takes_statement_of_opensSimple hopens hplain).bind fun statement hsame => ?_
  refine (takes_blockTail_nil hclose hrest).bind fun others hnone => .pure ?_
  rw [hnone]
  exact congrArg (· :: []) hsame

/-- A simple statement with a modifier behind it. -/
theorem takes_trailing {row others : List Token} {found : Stmt} {tree : Expr} {semicolon : Token}
    (hsimple : TakesSimple 0 (first :: row) found) (hcondition : TakesExpression 0 others tree)
    (hopens : opensSimple first.kind) (hword : isModifier word.kind)
    (hsemicolon : semicolon.kind = .semicolon) (hrest : rest ≠ [])
    (hfuel : 16 * (row.length + others.length + 4) ≤ fuel) :
    Takes False 0 (first :: row ++ word :: (others ++ semicolon :: rest)) rest
      (statement (fuel + 2)) (SameStmt forgotten forgotten (guardedBy word.kind found tree)) := by
  have hends : endsStatement word.kind := by
    revert hword
    cases word.kind <;> decide
  have hclosed : endsExpression semicolon.kind := hsemicolon ▸ rfl
  have hsame : 16 * ((first :: row).length + 3) ≤ fuel + 1 := by
    rw [List.length_cons]
    omega
  refine takes_statement_of_opensSimple hopens ?_
  refine (hsimple _ _ hends (fuel + 1) hsame 0 False (Nat.le_refl 0)
    (absurd · (Nat.lt_irrefl 0))).bind fun simple hsimple => ?_
  have hguard := hcondition semicolon rest hclosed fuel (by omega) 0 False (Nat.le_refl 0)
    (absurd · (Nat.lt_irrefl 0))
  refine (takes_modified hword (List.append_ne_nil_of_right_ne_nil _ (List.cons_ne_nil _ _))
    hguard).bind fun result hresult => ?_
  obtain ⟨guard, hguard, rfl⟩ := hresult
  exact (takes_expect hsemicolon hrest _).bind fun _ _ =>
    .pure (relocate_guardedBy _ hsimple hguard)

theorem takes_conditional {middle : List Token} {found : Stmt} {tree : Expr} (sense : Sense)
    (hne : tokens ≠ [])
    (hcondition : Takes deep depth tokens middle (expression (fuel + 1))
      (SameExpr forgotten forgotten tree))
    (hblock : Takes deep depth middle (token :: rest) (block (fuel + 1))
      (SameBody forgotten forgotten [found])) (htoken : token.kind ≠ .kwElse) :
    Takes deep depth (word :: tokens) (token :: rest) (conditional (fuel + 2) sense)
      (SameStmt forgotten forgotten (.conditional found.position sense tree [found] [] none)) := by
  refine (takes_advance hne).bind fun _ _ => hcondition.bind fun condition hsame => ?_
  refine hblock.bind fun body hbody => (takes_elseChain_of_ne htoken).bind fun branches hnone => ?_
  subst hnone
  refine .pure ?_
  simp only [SameStmt, Stmt.relocate, hsame, hbody]

theorem takes_loop {middle : List Token} {found : Stmt} {tree : Expr} (sense : Sense)
    (hne : tokens ≠ [])
    (hcondition : Takes deep depth tokens middle (expression (fuel + 1))
      (SameExpr forgotten forgotten tree))
    (hblock : Takes deep depth middle rest (block (fuel + 1))
      (SameBody forgotten forgotten [found])) :
    Takes deep depth (word :: tokens) rest (loop (fuel + 2) sense)
      (SameStmt forgotten forgotten (.loop found.position sense tree [found])) := by
  refine (takes_advance hne).bind fun _ _ => hcondition.bind fun condition hsame => ?_
  refine hblock.bind fun body hbody => .pure ?_
  simp only [SameStmt, Stmt.relocate, hsame, hbody]

/-- The same statement in a block behind the keyword. -/
theorem takes_guarded {row others : List Token} {found : Stmt} {tree : Expr}
    {brace semicolon close : Token}
    (hsimple : TakesSimple level (first :: row) found) (hlevel : level ≤ 1)
    (hdeep : level < 1 → deep) (hcondition : TakesExpression 0 others tree)
    (hopens : opensSimple first.kind) (hword : isModifier word.kind)
    (hbrace : brace.kind = .leftBrace) (hsemicolon : semicolon.kind = .semicolon)
    (hclose : close.kind = .rightBrace) (htoken : token.kind ≠ .kwElse)
    (hfuel : 16 * (row.length + others.length + 4) ≤ fuel) :
    Takes deep 0
      (word :: (others ++ brace :: (first :: row ++ semicolon :: close :: token :: rest)))
      (token :: rest) (statement (fuel + 6)) (SameStmt forgotten forgotten (guardedBy word.kind found tree)) := by
  generalize htokens : first :: row ++ semicolon :: close :: token :: rest = tokens
  have hends : endsExpression brace.kind := hbrace ▸ rfl
  have hguard : Takes deep 0 (others ++ brace :: tokens) (brace :: tokens) (expression (fuel + 4))
      (SameExpr forgotten forgotten tree) :=
    hcondition brace tokens hends (fuel + 4) (by omega) 0 deep (Nat.le_refl 0)
      (absurd · (Nat.lt_irrefl 0))
  have hblock : Takes deep 0 (brace :: tokens) (token :: rest) (block (fuel + 4))
      (SameBody forgotten forgotten [found]) := by
    rw [← htokens]
    exact takes_block hsimple hlevel hdeep hopens hbrace hsemicolon hclose
      (List.cons_ne_nil token rest) (by omega)
  have hne : others ++ brace :: tokens ≠ [] :=
    List.append_ne_nil_of_right_ne_nil _ (List.cons_ne_nil _ _)
  refine .current ?_
  cases hkind : word.kind
  case kwIf => exact takes_conditional .whenTrue hne hguard hblock htoken
  case kwUnless => exact takes_conditional .whenFalse hne hguard hblock htoken
  case kwWhile => exact takes_loop .whenTrue hne hguard hblock
  case kwUntil => exact takes_loop .whenFalse hne hguard hblock
  all_goals
    rw [hkind] at hword
    exact absurd hword Bool.false_ne_true

end

end Parser

end ScriptEngine
