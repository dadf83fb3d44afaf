import ScriptEngine.Proofs.Program.Assignments
import ScriptEngine.Proofs.Program.Rows

/-!
# Trailing modifiers

A modifier behind a simple statement is short for the block with that one statement. The statement
and the condition are the same tokens in both texts, at other places and between other borders. So
each is read as it was on its own, and only the few tokens between them are new.
-/

namespace ScriptEngine

open Lexer ScriptEngine.Parser

/-! ### The texts of the parts -/

theorem Expr.exists_of_parse {text : String} {tree : Expr} {whole : Bool}
    (h : Expr.parse text = .ok (tree, whole)) :
    ∃ start after, ParserState.ofStream (.ofSource text) = .ok start ∧
      expression (fuelFor start) start = .ok tree after ∧
      decide (after.current.kind = .endOfInput) = whole := by
  unfold Expr.parse at h
  cases hstream : ParserState.ofStream (.ofSource text) with
  | error error =>
      rw [hstream] at h
      cases h
  | ok start =>
      rw [hstream] at h
      dsimp only [bind, Except.bind] at h
      cases hrun : expression (fuelFor start) start with
      | error error after =>
          rw [hrun] at h
          cases h
      | ok found after =>
          rw [hrun] at h
          obtain ⟨rfl, hwhole⟩ := Prod.mk.inj (Except.ok.inj h)
          exact ⟨start, after, rfl, hrun, hwhole⟩

/-- The mark at the end is reached only if there is no fault in front of it. -/
theorem failure_of_expression {text : String} {fuel : Nat} {start after : ParserState} {tree : Expr}
    (hsource : TokenStream.ofSource text = ⟨start.current :: start.upcoming, start.failure⟩)
    (hrun : expression fuel start = .ok tree after) (hend : after.current.kind = .endOfInput) :
    start.failure = none := by
  obtain ⟨current, upcoming, failure, stop, depth⟩ := start
  cases failure with
  | none => rfl
  | some error =>
      have hkinds := @kind_ne_endOfInput_of_failure text.toList .first
      have htokens : tokensFrom text.toList .first = ⟨current :: upcoming, some error⟩ := hsource
      rw [htokens] at hkinds
      have hself := matches_self_of_failure current upcoming error stop depth
      have hconsumes :=
        (rulesParallel id id True (Nat.le_refl fuel)).expression.consumes hself hrun
      have hmem := hconsumes.tokens.mem List.mem_cons_self
      exact absurd hend (hkinds (Option.some_ne_none error) _ hmem)

/-- The same text elsewhere has corresponding tokens, and they touch alike. -/
theorem Tiles.exists_aligned {text : List Char} {row : List Token} {mark : Token}
    {pieces : List Piece} (h : Tiles .first text (row ++ [mark]) pieces) (place : Position) :
    ∃ others final, Tiles place text (others ++ [final]) pieces ∧ others.length = row.length ∧
      Aligned forgotten forgotten True true .first (row ++ [mark]) place (others ++ [final]) := by
  obtain ⟨others, final, hothers, hcontent, hlength⟩ := h.exists_row_at place
  exact ⟨others, final, hothers, hlength, aligned_of_tiles h hothers hcontent.symm fun _ => rfl⟩

/-- Wherever it is placed, the tokens of a text are taken as the expression. -/
def ReadsExpression (text : List Char) (tree : Expr) : Prop :=
  ∀ place, ∃ row mark pieces, Tiles place text (row ++ [mark]) pieces ∧
    TakesExpression 0 row tree

/-- Wherever it is placed, the tokens of a text are taken as the simple statement. -/
def ReadsSimple (level : Nat) (text : List Char) (found : Stmt) : Prop :=
  ∀ place, ∃ first row mark pieces, Tiles place text (first :: row ++ [mark]) pieces ∧
    opensSimple first.kind ∧ TakesSimple level (first :: row) found

/-- A text that is an expression is read as that expression wherever it stands. -/
theorem readsExpression_of_parse {text : String} {tree : Expr}
    (h : Expr.parse text = .ok (tree, true)) : ReadsExpression text.toList tree := by
  obtain ⟨start, after, hstream, hrun, hwhole⟩ := Expr.exists_of_parse h
  have hend : after.current.kind = .endOfInput := of_decide_eq_true hwhole
  obtain ⟨hsource, hstart⟩ := ParserState.of_ofStream hstream
  have hfailure := failure_of_expression hsource hrun hend
  rw [hfailure] at hsource
  obtain ⟨pieces, hpieces⟩ := tiles_iff.mp hsource
  obtain ⟨row, mark, htokens, -⟩ := hpieces.exists_mark
  rw [htokens] at hpieces
  obtain ⟨hmark, hkinds⟩ := hpieces.mark_eq
  have hholds : start.Holds (row ++ [mark]) 0 :=
    ⟨htokens, hfailure, congrArg ParserState.depth hstart⟩
  have hlength : start.upcoming.length = row.length := by
    have hlengths := congrArg List.length htokens
    simpa using hlengths
  intro place
  obtain ⟨others, final, hothers, hsize, haligned⟩ := hpieces.exists_aligned place
  have hfuel : fuelFor start ≤ 16 * (others.length + 3) := by
    unfold fuelFor
    omega
  exact ⟨others, final, pieces, hothers,
    takesExpression haligned hkinds hmark hfuel hholds hrun hend⟩

/-- With so many levels used up already, the text is read as the program. -/
def Program.ParsesAt (depth : Nat) (source : String) (program : Program) : Prop :=
  ∃ start, ParserState.ofStream (.ofSource source) = .ok start ∧
    statementsFrom (fuelFor start) { start with depth := depth } = (program, none)

/-- What is a program further down is read from the same tokens. -/
theorem Program.ParsesAt.exists_tiles {depth : Nat} {source : String} {program found : Program}
    (h : Program.ParsesAt depth source found) (hparse : Program.parse source = .ok program) :
    ∃ start pieces, start.Holds (start.current :: start.upcoming) depth ∧
      start.previousStop = .first ∧
      Tiles .first source.toList (start.current :: start.upcoming) pieces ∧
      statementsFrom (16 * (start.upcoming.length + 2)) start = (found, none) := by
  obtain ⟨current, upcoming, pieces, hpieces, -⟩ := exists_tiles_of_parse hparse
  obtain ⟨start, hstream, hrun⟩ := h
  obtain rfl := Except.ok.inj (hpieces.ofStream_eq.symm.trans hstream)
  exact ⟨⟨current, upcoming, none, .first, depth⟩, pieces, ⟨rfl, rfl, rfl⟩, rfl, hpieces, hrun⟩

theorem Program.parsesAt_zero {source : String} {program : Program}
    (h : Program.parse source = .ok program) : Program.ParsesAt 0 source program := by
  obtain ⟨current, upcoming, pieces, hpieces, hrun⟩ := exists_tiles_of_parse h
  exact ⟨_, hpieces.ofStream_eq, hrun⟩

/-- A program of one simple statement, and how it is found in front of its semicolon. -/
theorem Program.ParsesAt.exists_simple {level : Nat} {text : String} {program : Program}
    {found : Stmt} (h : Program.ParsesAt level (text ++ ";") [found]) (hfound : found.isSimple)
    (hparse : Program.parse (text ++ ";") = .ok program) :
    ∃ row semicolon last mark pieces start middle, Tiles .first text.toList (row ++ [mark]) pieces ∧
      semicolon.content = (.semicolon, ";") ∧ start.Holds (row ++ [semicolon, last]) level ∧
      start.previousStop = .first ∧
      simpleStatement (16 * row.length + 46) start = .ok found middle ∧
      StopsLast .semicolon middle := by
  obtain ⟨start, pieces, hstart, hstop, hpieces, hrun⟩ := h.exists_tiles hparse
  rw [String.toList_append] at hpieces
  obtain ⟨row, semicolon, last, htokens, hsemicolon, hlast, mark, others, htext⟩ :=
    hpieces.exists_of_semicolon
  have hlength : start.upcoming.length = row.length + 1 := by
    have hlengths := congrArg List.length htokens
    simpa using hlengths
  -- Two calls are spent before the rule of simple statements is reached.
  have hfuel : 16 * (start.upcoming.length + 2) = 16 * row.length + 46 + 2 := by omega
  have hkind : start.current.kind ≠ .endOfInput := by
    intro hend
    rw [hfuel, statementsFrom, if_pos hend] at hrun
    exact List.cons_ne_nil _ _ (Prod.mk.inj hrun).1.symm
  rw [hfuel, statementsFrom_eq_single_iff hkind] at hrun
  obtain ⟨after, hstatement, hend⟩ := hrun
  obtain ⟨middle, token, hsimple, hmiddle, hadvance⟩ :=
    finds_statement _ found after hstatement hfound
  rw [htokens] at hstart
  exact ⟨row, semicolon, last, mark, others, start, middle, htext, hsemicolon, hstart, hstop,
    hsimple, .of_advance hmiddle (by decide) hadvance hend⟩

/-- A text that is a simple statement in front of a semicolon is read as that statement wherever it
stands. -/
theorem Program.ParsesAt.readsSimple {level : Nat} {text : String} {program : Program}
    {found : Stmt} (h : Program.ParsesAt level (text ++ ";") [found]) (hfound : found.isSimple)
    (hparse : Program.parse (text ++ ";") = .ok program) : ReadsSimple level text.toList found := by
  obtain ⟨row, semicolon, last, mark, pieces, start, middle, hpieces, hsemicolon, hstart, hstop,
    hrun, hend⟩ := h.exists_simple hfound hparse
  have hopens := finds_simpleStatement _ found middle hrun
  intro place
  obtain ⟨others, final, hothers, hsize, haligned⟩ := hpieces.exists_aligned place
  have htakes := takesSimple haligned hpieces.mark_eq.2 hsemicolon (by omega) hstart hstop
    hrun hend
  cases row with
  | nil =>
      rw [List.head_eq_of_cons_eq hstart.tokens, (Prod.mk.inj hsemicolon).1] at hopens
      exact absurd hopens Bool.false_ne_true
  | cons token row =>
      cases others with
      | nil => simp at hsize
      | cons first others =>
          rw [List.head_eq_of_cons_eq hstart.tokens, haligned.head.1.kind] at hopens
          exact ⟨first, others, final, pieces, hothers, hopens, htakes⟩

/-! ### The texts put together -/

theorem separates_nil : Separates [] :=
  fun _ _ => stops_nil _

/-- A lexeme in front of a text that it does not take from. -/
theorem Tiles.exists_lexeme {place : Position} {gap lexeme rest : List Char} {kind : TokenKind}
    {literal : String} {tokens : List Token} {pieces : List Piece} (hgap : IsGap gap)
    (hspelling : IsSpelling kind literal lexeme) (hseparates : Separates rest)
    (hrest : Tiles ((place.afterGap gap).afterLexeme lexeme) rest tokens pieces) :
    ∃ token row, token.kind = kind ∧ Tiles place (gap ++ (lexeme ++ rest)) (token :: tokens) row :=
  ⟨⟨kind, literal, place.afterGap gap, _⟩, _, rfl,
    .next hgap hspelling rfl rfl (hseparates _ _) hrest⟩

/-- The tokens of a text are taken by the rule of statements, up to their mark. -/
def IsTaken (deep : Prop) (text : List Char) (good : Stmt → Prop) : Prop :=
  ∃ first tokens stop pieces, Tiles .first text (first :: tokens) pieces ∧
    first.kind ≠ .endOfInput ∧ stop.kind = .endOfInput ∧
    Takes deep 0 (first :: tokens) [stop] (statement (16 * tokens.length + 31)) good

/-- Such a text is a program of one statement, or is nested too deep. -/
theorem IsTaken.parse {source : String} {deep : Prop} {good : Stmt → Prop}
    (h : IsTaken deep source.toList good) :
    (∃ found, Program.parse source = .ok [found] ∧ good found) ∨
      deep ∧ ∃ position, Program.parse source = .error (.nestingTooDeep nestingLimit position) := by
  obtain ⟨first, tokens, stop, pieces, hpieces, hfirst, hstop, htakes⟩ := h
  let start : ParserState := ⟨first, tokens, none, .first, 0⟩
  have hends := htakes start ⟨rfl, rfl, rfl⟩
  have hfuel : fuelFor start = 16 * tokens.length + 30 + 2 := Nat.mul_add 16 tokens.length 2
  have hparse : Program.parsePartially source =
      statementsFrom (16 * tokens.length + 30 + 2) start := by
    unfold Program.parsePartially
    rw [hpieces.ofStream_eq, ← hfuel]
  generalize hresult : statement (16 * tokens.length + 31) start = result at hends
  cases hends with
  | @ok found after hfound hafter =>
      refine .inl ⟨found, ?_, hfound⟩
      have hend : after.current.kind = .endOfInput := by
        rw [List.head_eq_of_cons_eq hafter.tokens]
        exact hstop
      rw [Program.parse_eq_ok_iff, hparse, statementsFrom_eq_single_iff hfirst]
      exact ⟨after, hresult, hend⟩
  | @tooDeep position after hdeep =>
      refine .inr ⟨hdeep, position, ?_⟩
      unfold Program.parse
      rw [hparse, statementsFrom, if_neg hfirst, hresult]

/-- A simple statement with a modifier behind it. -/
def trailingText (simple condition : String) (kind : TokenKind) : String :=
  simple ++ " " ++ kind.spelling ++ " " ++ condition ++ ";"

/-- The keyword of a modifier with the condition, and the statement in a block. -/
def guardedText (simple condition : String) (kind : TokenKind) : String :=
  kind.spelling ++ " " ++ condition ++ " \x7b " ++ simple ++ "; \x7d"

theorem isSpelling_of_isModifier {kind : TokenKind} (h : isModifier kind) :
    IsSpelling kind kind.spelling kind.spelling.toList := by
  have hkeyword : kind.isKeyword := by
    revert h
    cases kind <;> decide
  obtain ⟨hword, hkind⟩ := Lexeme.isWord_spelling hkeyword
  have hspelling := IsSpelling.word hword
  rwa [String.ofList_toList, hkind] at hspelling

section

variable {simple condition : List Char} {found : Stmt} {tree : Expr} {kind : TokenKind}

theorem isTaken_trailing (hsimple : ReadsSimple 0 simple found)
    (hcondition : ReadsExpression condition tree) (hkind : isModifier kind) :
    IsTaken False (simple ++ ([' '] ++ (kind.spelling.toList ++ ([' '] ++ (condition ++ [';'])))))
      (SameStmt forgotten forgotten (guardedBy kind found tree)) := by
  have hspace : IsGap [' '] := .blank (by decide) .nil
  obtain ⟨first, row, mark, pieces, hfirst, hopens, htakes⟩ := hsimple .first
  let start := (mark.start.afterGap [' ']).afterLexeme kind.spelling.toList
  obtain ⟨others, final, rows, hothers, hguard⟩ := hcondition (start.afterGap [' '])
  let last := final.start.afterLexeme [';']
  let stop : Token := ⟨.endOfInput, "", last, last⟩
  have hstop : Tiles last [] [stop] [] := .done .nil
  obtain ⟨semicolon, _, hsemicolon, hclosed⟩ :=
    Tiles.exists_lexeme .nil (@IsSpelling.symbol .semicolon rfl) separates_nil hstop
  obtain ⟨_, hpart⟩ := hothers.append (separates_semicolon []) hclosed
  obtain ⟨_, hspaced⟩ := hpart.prepend hspace
  obtain ⟨word, _, rfl, hword⟩ :=
    Tiles.exists_lexeme hspace (isSpelling_of_isModifier hkind) (separates_of_opensGap rfl _)
      hspaced
  obtain ⟨joined, hjoined⟩ := hfirst.append (separates_of_opensGap rfl _) hword
  have hend : first.kind ≠ .endOfInput := by
    intro hend
    rw [hend] at hopens
    exact absurd hopens Bool.false_ne_true
  refine ⟨first, row ++ word :: (others ++ [semicolon, stop]), stop, joined, hjoined, hend, rfl, ?_⟩
  refine takes_trailing htakes hguard hopens hkind hsemicolon (List.cons_ne_nil _ _) ?_
  simp only [List.length_append, List.length_cons, List.length_nil]
  omega

theorem isTaken_guarded {level : Nat} {deep : Prop} (hsimple : ReadsSimple level simple found)
    (hlevel : level ≤ 1) (hdeep : level < 1 → deep) (hcondition : ReadsExpression condition tree)
    (hkind : isModifier kind) :
    IsTaken deep (kind.spelling.toList ++ ([' '] ++ (condition ++ ([' '] ++ (['\x7b'] ++ ([' '] ++
        (simple ++ ([';'] ++ ([' '] ++ ['\x7d'])))))))))
      (SameStmt forgotten forgotten (guardedBy kind found tree)) := by
  have hspace : IsGap [' '] := .blank (by decide) .nil
  let start := Position.first.afterLexeme kind.spelling.toList
  obtain ⟨others, final, rows, hothers, hguard⟩ := hcondition (start.afterGap [' '])
  let inside := (final.start.afterGap [' ']).afterLexeme ['\x7b']
  obtain ⟨first, row, mark, pieces, hfirst, hopens, htakes⟩ := hsimple (inside.afterGap [' '])
  let last := ((mark.start.afterLexeme [';']).afterGap [' ']).afterLexeme ['\x7d']
  let stop : Token := ⟨.endOfInput, "", last, last⟩
  have hstop : Tiles last [] [stop] [] := .done .nil
  obtain ⟨close, _, hclose, hclosed⟩ :=
    Tiles.exists_lexeme hspace (@IsSpelling.symbol .rightBrace rfl) separates_nil hstop
  obtain ⟨semicolon, _, hsemicolon, hended⟩ :=
    Tiles.exists_lexeme .nil (@IsSpelling.symbol .semicolon rfl) (separates_of_opensGap rfl _)
      hclosed
  obtain ⟨_, hbody⟩ := hfirst.append (separates_semicolon _) hended
  obtain ⟨_, hspaced⟩ := hbody.prepend hspace
  obtain ⟨brace, _, hbrace, hblock⟩ :=
    Tiles.exists_lexeme hspace (@IsSpelling.symbol .leftBrace rfl) (separates_of_opensGap rfl _)
      hspaced
  obtain ⟨_, hpart⟩ := hothers.append (separates_of_opensGap rfl _) hblock
  obtain ⟨_, hgap⟩ := hpart.prepend hspace
  obtain ⟨word, joined, rfl, hword⟩ :=
    Tiles.exists_lexeme .nil (isSpelling_of_isModifier hkind) (separates_of_opensGap rfl _) hgap
  have hend : word.kind ≠ .endOfInput := (isSpelling_of_isModifier hkind).kind_ne_endOfInput
  refine ⟨word, others ++ brace :: (first :: row ++ [semicolon, close, stop]), stop, joined, hword,
    hend, rfl, ?_⟩
  refine takes_guarded htakes hlevel hdeep hguard hopens hkind hbrace hsemicolon hclose ?_ ?_
  · exact fun helse => nomatch helse
  simp only [List.length_append, List.length_cons, List.length_nil]
  omega

end

/-- **A trailing modifier is the block with one statement.** Let a text in front of a semicolon be a
simple statement, and another text an expression. The statement with a modifier and the expression
behind it is one statement: the loop or the conditional over the block with the statement. Written
with the block, it is the same statement up to places, unless that is nested too deep. This happens
only to statements that are not found one level further down, where the block has them. -/
theorem trailing_modifier_eq_block {simple condition : String} {found : Stmt} {tree : Expr}
    {kind : TokenKind} (hsimple : Program.parse (simple ++ ";") = .ok [found])
    (hfound : found.isSimple) (hcondition : Expr.parse condition = .ok (tree, true))
    (hkind : isModifier kind) :
    ∃ trailing, Program.parse (trailingText simple condition kind) = .ok [trailing] ∧
      trailing.bare = (guardedBy kind found tree).bare ∧
      ((∃ block, Program.parse (guardedText simple condition kind) = .ok [block] ∧
          block.bare = trailing.bare) ∨
        ¬ Program.ParsesAt 1 (simple ++ ";") [found] ∧
          ∃ position, Program.parse (guardedText simple condition kind) =
            .error (.nestingTooDeep nestingLimit position)) := by
  have hreads := (Program.parsesAt_zero hsimple).readsSimple hfound hsimple
  have hguard := readsExpression_of_parse hcondition
  -- The block has the statement one level down. If it is not found there, it still is further up.
  obtain ⟨level, hinside, hlevel, hdeep⟩ : ∃ level, ReadsSimple level simple.toList found ∧
      level ≤ 1 ∧ (level < 1 → ¬ Program.ParsesAt 1 (simple ++ ";") [found]) := by
    by_cases hdeeper : Program.ParsesAt 1 (simple ++ ";") [found]
    · exact ⟨1, hdeeper.readsSimple hfound hsimple, Nat.le_refl 1, (absurd · (Nat.lt_irrefl 1))⟩
    · exact ⟨0, hreads, Nat.zero_le 1, fun _ => hdeeper⟩
  have htrailing : IsTaken False (trailingText simple condition kind).toList
      (SameStmt forgotten forgotten (guardedBy kind found tree)) := by
    have htaken := isTaken_trailing hreads hguard hkind
    simpa [trailingText] using htaken
  have hblock : IsTaken (¬ Program.ParsesAt 1 (simple ++ ";") [found])
      (guardedText simple condition kind).toList
      (SameStmt forgotten forgotten (guardedBy kind found tree)) := by
    have htaken := isTaken_guarded hinside hlevel hdeep hguard hkind
    simpa [guardedText] using htaken
  obtain ⟨trailing, hparse, hsame⟩ := htrailing.parse.resolve_right (False.elim ·.1)
  refine ⟨trailing, hparse, hsame.symm, ?_⟩
  rcases hblock.parse with ⟨block, hfoundBlock, hbare⟩ | htooDeep
  · exact .inl ⟨block, hfoundBlock, hbare.symm.trans hsame⟩
  · exact .inr htooDeep

theorem trailing_modifier_eq_block_spaced :
    ∃ trailing block,
      Program.parse "table [key] = inc n by step unless done | f(\x7bit\x7d);" = .ok [trailing] ∧
      Program.parse "unless done | f(\x7bit\x7d) \x7b table [key] = inc n by step; \x7d" =
        .ok [block] ∧
      block.bare = trailing.bare := by
  have htrailing : trailingText "table [key] = inc n by step" "done | f(\x7bit\x7d)" .kwUnless =
      "table [key] = inc n by step unless done | f(\x7bit\x7d);" := rfl
  have hguarded : guardedText "table [key] = inc n by step" "done | f(\x7bit\x7d)" .kwUnless =
      "unless done | f(\x7bit\x7d) \x7b table [key] = inc n by step; \x7d" := rfl
  obtain ⟨found, hsimple, hfound⟩ : ∃ found,
      Program.parse ("table [key] = inc n by step" ++ ";") = .ok [found] ∧ found.isSimple :=
    ⟨_, by cbv, rfl⟩
  obtain ⟨tree, hcondition⟩ : ∃ tree, Expr.parse "done | f(\x7bit\x7d)" = .ok (tree, true) :=
    ⟨_, by cbv⟩
  obtain ⟨trailing, hparse, -, ⟨block, hblock, hsame⟩ | ⟨-, position, hdeep⟩⟩ :=
    trailing_modifier_eq_block hsimple hfound hcondition (show isModifier .kwUnless from rfl)
  · exact ⟨trailing, block, htrailing ▸ hparse, hguarded ▸ hblock, hsame⟩
  · have hok : (Program.parse
        "unless done | f(\x7bit\x7d) \x7b table [key] = inc n by step; \x7d").isOk = true := by
      cbv
    rw [hguarded] at hdeep
    rw [hdeep] at hok
    exact absurd hok Bool.false_ne_true

end ScriptEngine
