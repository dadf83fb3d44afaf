import ScriptEngine.Proofs.Program.Agreement
import ScriptEngine.Proofs.Source.Tiling

/-!
# Layout

A program depends on its tokens and on which of them touch the one before, and an expression on its
tokens alone. The parser compares the places of two tokens to find whether they touch, and this
comes to the same as an empty gap between their lexemes, wherever they stand.
-/

namespace ScriptEngine

/-! ### Gaps and places -/

namespace Position

variable (position : Position) (gap : List Char)

theorem column_afterGap (h : '\n' ∉ gap) :
    (position.afterGap gap).column = position.column + gap.length := by
  induction gap generalizing position with
  | nil => rfl
  | cons character gap ih =>
      obtain ⟨hhead, hgap⟩ := not_or.mp (List.mem_cons.not.mp h)
      rw [afterGap_cons, ih _ hgap, afterBlank, if_neg (Ne.symm hhead), advance, List.length_cons]
      exact Nat.add_right_comm _ _ _

theorem afterGap_eq_self_iff : position.afterGap gap = position ↔ gap = [] := by
  refine ⟨fun h => ?_, fun h => h ▸ rfl⟩
  have hline := (line_afterGap position gap).symm.trans (congrArg Position.line h)
  have hbreaks : '\n' ∉ gap := List.count_eq_zero.mp (by omega)
  have hcolumn := (column_afterGap position gap hbreaks).symm.trans (congrArg Position.column h)
  exact List.length_eq_zero_iff.mp (by omega)

end Position

/-- Whether nothing stands between the lexeme and the one before it. -/
def Piece.touches (piece : Piece) : Bool :=
  piece.gap.isEmpty

/-- For each token before the last, whether it starts where the one before it stops. -/
def Token.touching : Position → List Token → List Bool
  | stop, token :: next :: rest =>
    decide (token.start = stop) :: Token.touching token.stop (next :: rest)
  | _, _ => []

/-- Tokens touch if and only if there is nothing between their lexemes. -/
theorem Tiles.touching_eq {position : Position} {text : List Char} {tokens : List Token}
    {pieces : List Piece} (h : Tiles position text tokens pieces) :
    Token.touching position tokens = pieces.map Piece.touches := by
  induction h with
  | done => rfl
  | @next position gap lexeme rest token tokens pieces _ _ hstart _ _ hrest ih =>
      have hhead : decide (token.start = position) = gap.isEmpty := by
        rw [hstart, Bool.eq_iff_iff, decide_eq_true_iff, List.isEmpty_iff]
        exact Position.afterGap_eq_self_iff position gap
      obtain ⟨head, tail, rfl⟩ : ∃ head tail, tokens = head :: tail := by
        cases hrest with
        | done => exact ⟨_, _, rfl⟩
        | next => exact ⟨_, _, rfl⟩
      rw [Token.touching, ih, hhead]
      rfl

/-! ### Sources with the same tokens -/

namespace Parser

/-- Rows of the same kinds and literals are aligned, and as to touching if their gaps are. -/
theorem aligned_of_tiles {strict : Prop} {position place : Position} {text content : List Char}
    {tokens others : List Token} {pieces rows : List Piece}
    (h : Tiles position text tokens pieces) (hother : Tiles place content others rows)
    (hcontent : tokens.map Token.content = others.map Token.content)
    (htouching : strict → pieces.map Piece.touches = rows.map Piece.touches) :
    Aligned forgotten forgotten strict true position tokens place others := by
  induction h generalizing place content others rows with
  | done =>
      cases hother with
      | done => exact .last ⟨rfl, rfl, rfl⟩ (fun _ => rfl) fun _ hkind => absurd rfl hkind
      | next _ hspelling =>
          have hkind := congrArg Prod.fst (List.cons.inj hcontent).1
          exact absurd hkind.symm hspelling.kind_ne_endOfInput
  | @next position gap lexeme rest token tokens pieces _ hspelling hstart _ _ _ ih =>
      cases hother with
      | done =>
          have hkind := congrArg Prod.fst (List.cons.inj hcontent).1
          exact absurd hkind hspelling.kind_ne_endOfInput
      | @next _ space spelling remaining other others rows _ _ hplace _ _ hrest =>
          obtain ⟨hhead, htail⟩ := List.cons.inj hcontent
          obtain ⟨hkind, hliteral⟩ := Prod.mk.inj hhead
          refine .next ⟨hkind, hliteral, rfl⟩ (fun hstrict => ?_)
            (ih hrest htail fun hstrict => (List.cons.inj (htouching hstrict)).2)
          have hgaps : gap.isEmpty = space.isEmpty := (List.cons.inj (htouching hstrict)).1
          rw [hstart, hplace, Position.afterGap_eq_self_iff, Position.afterGap_eq_self_iff,
            ← List.isEmpty_iff, ← List.isEmpty_iff, hgaps]

/-- Statements from matching states are the same up to places, with the errors that end them. -/
theorem statementsFrom_of_matches (fuel : Nat) {state other : ParserState}
    (h : Matches forgotten forgotten True state other) :
    Program.bare (statementsFrom fuel state).1 = Program.bare (statementsFrom fuel other).1 ∧
      (statementsFrom fuel state).2.map ParseError.bare =
        (statementsFrom fuel other).2.map ParseError.bare := by
  induction fuel generalizing state other with
  | zero => exact ⟨rfl, rfl⟩
  | succ fuel ih =>
      have hrule := rulesParallel forgotten forgotten True (le_refl fuel)
      have hboth := ((hrule.statement trivial).agrees h).both ((hrule.statement trivial).agrees h.symm)
      unfold statementsFrom
      rw [h.current_corresponds.kind]
      split
      · exact ⟨rfl, rfl⟩
      · rcases hboth with ⟨first, second, after, rest, hfirst, hsecond, hsame, hafter⟩ |
          ⟨error, failure, after, rest, hfirst, hsecond, hsame⟩
        · obtain ⟨hstatements, herrors⟩ := ih hafter
          rw [hfirst, hsecond]
          exact ⟨congrArg₂ List.cons hsame hstatements, herrors⟩
        · rw [hfirst, hsecond]
          exact ⟨rfl, congrArg some hsame⟩

end Parser

/-- The state in which the parser of a source without lexical faults begins. -/
theorem Tiles.ofStream_eq {source : String} {current : Token} {upcoming : List Token}
    {pieces : List Piece} (h : Tiles .first source.toList (current :: upcoming) pieces) :
    ParserState.ofStream (.ofSource source) = .ok ⟨current, upcoming, none, .first, 0⟩ := by
  unfold TokenStream.ofSource
  rw [h.tokensFrom_eq]
  rfl

theorem Tiles.exists_cons {position : Position} {text : List Char} {tokens : List Token}
    {pieces : List Piece} (h : Tiles position text tokens pieces) :
    ∃ current upcoming, tokens = current :: upcoming := by
  cases h with
  | done => exact ⟨_, _, rfl⟩
  | next => exact ⟨_, _, rfl⟩

/-- The first tokens of aligned rows may as well be taken to touch what is before them. -/
theorem Parser.matches_of_tiles {place : Position} {text content : List Char}
    {current following : Token} {upcoming others : List Token} {pieces rows : List Piece}
    (h : Tiles place text (current :: upcoming) pieces)
    (hother : Tiles place content (following :: others) rows)
    (hcontent : (current :: upcoming).map Token.content = (following :: others).map Token.content)
    (htouching : pieces.tail.map Piece.touches = rows.tail.map Piece.touches) :
    Matches forgotten forgotten True ⟨current, upcoming, none, current.start, 0⟩
      ⟨following, others, none, following.start, 0⟩ := by
  refine ⟨?_, rfl, rfl⟩
  -- Only the first gaps may differ, and they are not looked at.
  have hloose := (aligned_of_tiles h hother hcontent (False.elim ·)).head.1
  cases h with
  | done =>
      cases hother with
      | done => exact aligned_mark hloose rfl _ _
      | next _ hspelling => exact absurd hloose.kind.symm hspelling.kind_ne_endOfInput
  | next _ hspelling _ _ _ hrest =>
      cases hother with
      | done => exact absurd hloose.kind hspelling.kind_ne_endOfInput
      | next _ _ _ _ _ hothers =>
          exact .next hloose (fun _ => iff_of_true rfl rfl)
            (aligned_of_tiles hrest hothers (List.cons.inj hcontent).2 fun _ => htouching)

theorem Parser.fuelFor_of_content {current following : Token} {upcoming others : List Token}
    (h : (current :: upcoming).map Token.content = (following :: others).map Token.content)
    (stop place : Position) :
    fuelFor ⟨current, upcoming, none, stop, 0⟩ = fuelFor ⟨following, others, none, place, 0⟩ := by
  have hlength := congrArg List.length h
  rw [List.length_map, List.length_map, List.length_cons, List.length_cons] at hlength
  unfold fuelFor
  rw [Nat.succ_injective hlength]

/-- **A program depends on its tokens and on which of them touch the one before.** Two sources
without lexical faults that have the same kinds and literals, and nothing in front of a token in one
where there is nothing in front of it in the other, are the same program or fail with the same
error, up to places. What is in front of the first token and of the mark at the end does not count,
and nor do the gaps if an expression is read. -/
theorem parse_of_touching {source other : String} {tokens others : List Token}
    {pieces rows : List Piece} (h : Tiles .first source.toList tokens pieces)
    (hother : Tiles .first other.toList others rows)
    (hcontent : tokens.map Token.content = others.map Token.content) :
    (pieces.tail.map Piece.touches = rows.tail.map Piece.touches →
      ((Program.parse source).map Program.bare).mapError ParseError.bare =
        ((Program.parse other).map Program.bare).mapError ParseError.bare) ∧
    ((Expr.parse source).map (Prod.map Expr.bare id)).mapError ParseError.bare =
      ((Expr.parse other).map (Prod.map Expr.bare id)).mapError ParseError.bare := by
  obtain ⟨current, upcoming, rfl⟩ := h.exists_cons
  obtain ⟨following, next, rfl⟩ := hother.exists_cons
  have hfuel := Parser.fuelFor_of_content hcontent .first .first
  refine ⟨fun htouching => ?_, ?_⟩
  · unfold Program.parse Program.parsePartially
    rw [h.ofStream_eq, hother.ofStream_eq]
    dsimp only
    have hmatches := Parser.matches_of_tiles h hother hcontent htouching
    obtain ⟨hprogram, herror⟩ := Parser.statementsFrom_of_matches
      (Parser.fuelFor ⟨following, next, none, .first, 0⟩) hmatches
    rw [hfuel, ← Parser.statementsFrom_previousStop _ _ current.start,
      ← Parser.statementsFrom_previousStop _ ⟨following, next, none, .first, 0⟩ following.start]
    generalize Parser.statementsFrom _ _ = read at hprogram herror ⊢
    generalize Parser.statementsFrom _ _ = found at hprogram herror ⊢
    match read, found, herror with
    | (_, none), (_, none), _ => exact congrArg Except.ok hprogram
    | (_, some _), (_, some _), herror => exact congrArg Except.error (Option.some.inj herror)
  · unfold Expr.parse
    rw [h.ofStream_eq, hother.ofStream_eq]
    have hmatches : Parser.Matches Parser.forgotten Parser.forgotten False
        ⟨current, upcoming, none, .first, 0⟩ ⟨following, next, none, .first, 0⟩ :=
      ⟨Parser.aligned_of_tiles h hother hcontent (False.elim ·), rfl, rfl⟩
    dsimp only [bind, Except.bind]
    rw [hfuel]
    have hrule := (Parser.rulesParallel Parser.forgotten Parser.forgotten False
      (le_refl (Parser.fuelFor ⟨following, next, none, .first, 0⟩))).expression
    rcases (hrule.agrees hmatches).both (hrule.agrees hmatches.symm) with
      ⟨value, found, after, rest, hvalue, hfound, hsame, hafter⟩ |
      ⟨error, failure, after, rest, herror, hfailure, hsame⟩
    · rw [hvalue, hfound]
      have hend : decide (after.current.kind = .endOfInput) =
          decide (rest.current.kind = .endOfInput) := by
        rw [hafter.current_corresponds.kind]
      exact congrArg Except.ok (congrArg₂ Prod.mk hsame hend)
    · rw [herror, hfailure]
      exact congrArg Except.error hsame

def compactSource : String :=
  "print [1];"

def spreadSource : String :=
  "\n  print # numbers\n\t[1];\n"

theorem parse_of_touching_spread :
    ∃ tokens others pieces rows, Tiles .first compactSource.toList tokens pieces ∧
      Tiles .first spreadSource.toList others rows ∧
      tokens.map Token.content = others.map Token.content ∧
      pieces.tail.map Piece.touches = rows.tail.map Piece.touches ∧
      ((Program.parse compactSource).map Program.bare).mapError ParseError.bare =
        ((Program.parse spreadSource).map Program.bare).mapError ParseError.bare := by
  obtain ⟨pieces, hpieces⟩ : ∃ pieces,
      Tiles .first compactSource.toList (TokenStream.ofSource compactSource).tokens pieces :=
    exists_tiles_of_tokensFrom (by cbv)
  obtain ⟨rows, hrows⟩ : ∃ rows,
      Tiles .first spreadSource.toList (TokenStream.ofSource spreadSource).tokens rows :=
    exists_tiles_of_tokensFrom (by cbv)
  have hcontent : (TokenStream.ofSource compactSource).tokens.map Token.content =
      (TokenStream.ofSource spreadSource).tokens.map Token.content := by cbv
  have htouching : pieces.tail.map Piece.touches = rows.tail.map Piece.touches := by
    rw [List.map_tail, List.map_tail, ← hpieces.touching_eq, ← hrows.touching_eq]
    cbv
  exact ⟨_, _, pieces, rows, hpieces, hrows, hcontent, htouching,
    (parse_of_touching hpieces hrows hcontent).1 htouching⟩

end ScriptEngine
