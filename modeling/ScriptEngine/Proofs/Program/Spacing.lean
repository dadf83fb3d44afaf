import ScriptEngine.Proofs.Program.Assignments
import ScriptEngine.Proofs.Source.Places

/-!
# Index assignments with a space

An assignment to an index may have a space before the bracket. The parser then first reads what
looks like a call with an array as its argument, and sets the bracket behind the head once it comes
to the equals sign. For all heads and brackets this is the same assignment as without the space, but
for one kind of head: if that ends in a call without arguments, the call is lost.
-/

namespace ScriptEngine

open Lexer ScriptEngine.Parser

/-- The text begins with a token of this kind and ends with a lexeme, and the rule of postfix chains
in which brackets have to touch takes it as a whole. -/
structure IsChain (opening : TokenKind) (text : List Char) (tree : Expr) : Prop where
  tight : ∀ last ∈ text.getLast?, last ∉ blanks
  found : ∃ state after, ParserState.ofStream (.ofSource (String.ofList text)) = .ok state ∧
    state.failure = none ∧ state.current.kind = opening ∧
    postfixChain (fuelFor state) true state = .ok tree after ∧ after.current.kind = .endOfInput

/-! ### Chains in longer texts -/

/-- The last token of the row stops here, as does the mark, and the parser knows once it is there. -/
def StopsAt (place : Position) (state : ParserState) : Prop :=
  state.failure = none ∧ ∃ initial mark, state.current :: state.upcoming = initial ++ [mark] ∧
    mark.stop = place ∧ Token.lastStop state.previousStop initial = place

theorem StopsAt.advance {place : Position} {state : ParserState} (h : StopsAt place state) :
    StopsAt place (finalState (Parser.advance state)) := by
  obtain ⟨current, upcoming, failure, stop, depth⟩ := state
  obtain ⟨hfailure, initial, mark, htokens, hmark, hlast⟩ := h
  dsimp only at hfailure htokens hlast
  subst hfailure
  cases initial with
  | nil =>
      obtain ⟨rfl, rfl⟩ := List.cons.inj htokens
      exact ⟨rfl, [], current, rfl, hmark, hmark⟩
  | cons token initial =>
      obtain ⟨rfl, rfl⟩ := List.cons.inj htokens
      cases initial with
      | nil => exact ⟨rfl, [], mark, rfl, hmark, hlast⟩
      | cons next initial => exact ⟨rfl, next :: initial, mark, rfl, hmark, hlast⟩

/-- A run that ends at the mark knows where the last token of the row stops. -/
theorem StopsAt.previousStop_eq {α : Type} {related : α → α → Prop} {left right : Parser α}
    {place : Position} {state after : ParserState} {value : α} (h : StopsAt place state)
    (hparallel : Parallel id id True related left right) (hrun : left state = .ok value after)
    (hupcoming : after.upcoming = []) : after.previousStop = place := by
  obtain ⟨events, hevents⟩ := hparallel.traced state
  have hafter : StopsAt place (finalState (left state)) :=
    hevents.preserves (fun _ => StopsAt.advance) (fun _ _ h => h) h
  rw [hrun] at hafter
  obtain ⟨-, initial, mark, htokens, -, hlast⟩ := hafter
  change after.current :: after.upcoming = initial ++ [mark] at htokens
  rw [hupcoming] at htokens
  cases initial with
  | nil => exact hlast
  | cons token initial => simp at htokens

/-- A chain that has been placed in a longer text: its tokens, and where the last of them stops. The
parser reads the same chain from them, and then goes on with what follows. -/
structure Placed (opening : TokenKind) (text : List Char) (tree : Expr) (place : Position)
    (first : Token) (row : List Token) (stop : Position) (found : Expr) : Prop where
  kind : first.kind = opening
  start : (∀ character ∈ text.head?, ¬ opensGap character) → first.start = place
  same : found.bare = tree.bare
  scan : ∀ more, Separates more → tokensFrom (text ++ more) place =
    ⟨first :: row ++ (tokensFrom more stop).tokens, (tokensFrom more stop).failure⟩
  run : ∀ next following fuel, 16 * (row.length + 3) ≤ fuel → ∃ less, fuel ≤ less + row.length + 3 ∧
    postfixChain fuel true ⟨first, row ++ next :: following, none, place, 0⟩ =
      suffixes (less + 1) true found ⟨next, following, none, stop, 0⟩

/-- A text that does not begin with a gap begins with its first token. -/
theorem Tiles.start_eq {position : Position} {text : List Char} {token : Token}
    {tokens : List Token} {pieces : List Piece} (h : Tiles position text (token :: tokens) pieces)
    (hopens : ∀ character ∈ text.head?, ¬ opensGap character) (hkind : token.kind ≠ .endOfInput) :
    token.start = position := by
  cases h with
  | done => exact absurd rfl hkind
  | @next _ gap lexeme rest _ _ _ hgap _ hstart =>
      rw [hstart, Position.afterGap_eq_self_iff]
      cases hgap with
      | nil => rfl
      | blank hblank =>
          have hgap : opensGap _ := List.contains_iff_mem.mpr (List.mem_append_left ['#'] hblank)
          exact absurd hgap (hopens _ rfl)
      | comment => exact absurd rfl (hopens '#' rfl)

/-- A chain that takes a row up to its mark is read first if more tokens follow. -/
theorem Parser.exists_run {first next : Token} {row following : List Token} {place stop : Position}
    {fuel more : Nat} {found : Expr} {last : ParserState}
    (hopening : first.kind = .identifier ∨ first.kind = .leftBracket)
    (hkinds : ∀ token ∈ first :: row, token.kind ≠ .endOfInput)
    (hstop : Token.lastStop place (first :: row) = stop)
    (hrun : postfixChain fuel true
      ⟨first, row ++ [⟨.endOfInput, "", stop, stop⟩], none, place, 0⟩ = .ok found last)
    (hlast : last.current.kind = .endOfInput) (hfuel : fuel ≤ more) :
    ∃ less, more ≤ less + row.length + 3 ∧
      postfixChain more true ⟨first, row ++ next :: following, none, place, 0⟩ =
        suffixes (less + 1) true found ⟨next, following, none, stop, 0⟩ := by
  let mark : Token := ⟨.endOfInput, "", stop, stop⟩
  have hextended : Extended next following ⟨first, row ++ [mark], none, place, 0⟩
      ⟨first, row ++ next :: following, none, place, 0⟩ := .inside rfl hkinds
  have hempty : HasEmptyMark ⟨first, row ++ [mark], none, place, 0⟩ := by
    intro token htoken hkind
    have hmem : token ∈ (first :: row) ++ [mark] := htoken
    rcases List.mem_append.mp hmem with hrow | hmark
    · exact absurd hkind (hkinds token hrow)
    · rw [List.mem_singleton.mp hmark]
  obtain ⟨less, rest, hbound, hrest, hchain⟩ :=
    postfixChain_extended hopening hfuel hextended hempty hrun
  have hparallel := (rulesParallel id id True (Nat.le_refl fuel)).postfixChain true fun _ => trivial
  refine ⟨less, ?_, ?_⟩
  · dsimp only at hbound
    rw [List.length_append, List.length_singleton] at hbound
    omega
  · have hdepth := hparallel.depth_eq ⟨first, row ++ [mark], none, place, 0⟩
    have hstops : StopsAt stop ⟨first, row ++ [mark], none, place, 0⟩ :=
      ⟨rfl, first :: row, mark, rfl, rfl, hstop⟩
    have hprevious := hstops.previousStop_eq hparallel hrun
    rw [hrun] at hdepth
    rw [hchain]
    cases hrest with
    | inside _ hinner => exact absurd hlast (hinner _ List.mem_cons_self)
    | @done _ previous depth _ =>
        obtain rfl : previous = stop := hprevious rfl
        obtain rfl : depth = 0 := hdepth
        rfl

/-- Wherever a chain is placed, the parser reads it there. -/
theorem IsChain.exists_placed {opening : TokenKind} {text : List Char} {tree : Expr}
    (h : IsChain opening text tree) (hopening : opening = .identifier ∨ opening = .leftBracket) :
    ∃ size, ∀ place, ∃ first row stop found, row.length = size ∧
      Placed opening text tree place first row stop found := by
  obtain ⟨state, after, hstream, hfailure, hkind, hrun, hafter⟩ := h.found
  have hend : opening ≠ .endOfInput := by rcases hopening with rfl | rfl <;> decide
  obtain ⟨htokens, hstate⟩ := ParserState.of_ofStream hstream
  generalize state.current = current at *
  generalize state.upcoming = upcoming at *
  rw [hfailure] at htokens hstate
  subst hstate
  rw [TokenStream.ofSource, String.toList_ofList] at htokens
  obtain ⟨pieces, hpieces⟩ := tiles_iff.mp htokens
  refine ⟨upcoming.length - 1, fun place => ?_⟩
  obtain ⟨others, hothers, hcontent⟩ := hpieces.exists_at place
  obtain ⟨initial, stop, rfl, hkinds, hstop, hscan⟩ := hothers.exists_append h.tight
  cases initial with
  | nil =>
      have hmark := congrArg Prod.fst (List.cons.inj hcontent).1
      exact absurd (hkind.symm.trans hmark.symm) hend
  | cons first row =>
      have hopens : first.kind = opening :=
        (congrArg Prod.fst (List.cons.inj hcontent).1).trans hkind
      have hlength : upcoming.length = row.length + 1 := by
        have hlengths := congrArg List.length hcontent
        simp only [List.length_map, List.length_append, List.length_cons, List.length_nil] at hlengths
        omega
      let fuel := fuelFor ⟨current, upcoming, none, .first, 0⟩
      let start : ParserState := ⟨first, row ++ [⟨.endOfInput, "", stop, stop⟩], none, place, 0⟩
      have hmatches : Matches forgotten forgotten True ⟨current, upcoming, none, .first, 0⟩ start :=
        ⟨aligned_of_tiles hpieces hothers hcontent.symm fun _ => rfl, rfl, rfl⟩
      have hrule := (rulesParallel forgotten forgotten True (Nat.le_refl fuel)).postfixChain true
        fun _ => trivial
      obtain ⟨found, last, hread, hsame, hlast⟩ := hrule.exists_ok hmatches hrun
      rw [hlast.current_corresponds.kind] at hafter
      refine ⟨first, row, stop, found, by omega, hopens, ?_, hsame.symm, hscan, ?_⟩
      · exact fun hgap => hothers.start_eq hgap (hopens ▸ hend)
      · intro next following more hmore
        refine exists_run (hopens ▸ hopening) hkinds hstop hread hafter ?_
        change 16 * (upcoming.length + 2) ≤ more
        omega

/-! ### Both texts -/

/-- An assignment with something between its head and the bracket. -/
def assignmentText (head space bracket rest : List Char) : String :=
  String.ofList (head ++ (space ++ (bracket ++ (" = ".toList ++ rest))))

theorem Lexer.tokensFrom_gap {gap rest : List Char} (hgap : IsGap gap) (hrest : Stops opensGap rest)
    (position : Position) :
    tokensFrom (gap ++ rest) position = tokensFrom rest (position.afterGap gap) := by
  have hskip := IsGap.nil.skipGap_append hrest (position.afterGap gap)
  rw [Lexeme.tokensFrom_eq, Lexeme.tokensFrom_eq rest, hgap.skipGap_append hrest]
  rw [List.nil_append] at hskip
  rw [hskip]
  rfl

/-- The equals sign is a token of its own. -/
theorem Lexer.exists_tokensFrom_equal (rest : List Char) (position : Position) :
    ∃ equal following, (tokensFrom (" = ".toList ++ rest) position).tokens = equal :: following ∧
      equal.kind = .equal := by
  have hspace : IsGap [' '] := .blank (by decide) .nil
  have hspelling : IsSpelling .equal "=" ['='] := @IsSpelling.symbol .equal rfl
  have hscan := @tokensFrom_piece position [' '] ['='] (' ' :: rest)
    ⟨.equal, "=", position.afterGap [' '], (position.afterGap [' ']).afterLexeme ['=']⟩ hspace
    hspelling rfl rfl (separates_of_opensGap rfl rest _ _)
  exact ⟨_, _, congrArg TokenStream.tokens hscan, rfl⟩

/-- A text without lexical faults has corresponding tokens elsewhere. -/
theorem Lexer.exists_elsewhere {text : List Char} {place : Position} {tokens : List Token}
    (h : tokensFrom text place = ⟨tokens, none⟩) (other : Position) :
    ∃ others, tokensFrom text other = ⟨others, none⟩ ∧ others.length = tokens.length ∧
      Aligned forgotten forgotten True true place tokens other others := by
  obtain ⟨pieces, hpieces⟩ := tiles_iff.mp h
  obtain ⟨others, hothers, hcontent⟩ := hpieces.exists_at other
  refine ⟨others, hothers.tokensFrom_eq, ?_,
    aligned_of_tiles hpieces hothers hcontent.symm fun _ => rfl⟩
  have hlength := congrArg List.length hcontent
  rwa [List.length_map, List.length_map] at hlength

section

variable {head gap inside rest : List Char} {tree bracket found joined : Expr}
  {first opening equal : Token} {row inner following : List Token} {place stop last : Position}

theorem Placed.bracket_start
    (h : Placed .leftBracket ('[' :: inside) bracket place opening inner last joined) :
    opening.start = place := by
  refine h.start fun character hmem => ?_
  rw [← Option.mem_some_iff.mp hmem]
  decide

/-- The tokens of an assignment, with any gap before the bracket. -/
theorem Placed.tokensFrom_eq
    (hhead : Placed .identifier head tree .first first row stop found) (hgap : IsGap gap)
    (hbracket : Placed .leftBracket ('[' :: inside) bracket (stop.afterGap gap) opening inner last
      joined) :
    tokensFrom (head ++ (gap ++ ('[' :: inside ++ (" = ".toList ++ rest)))) .first =
      ⟨first :: row ++ (opening :: inner ++ (tokensFrom (" = ".toList ++ rest) last).tokens),
        (tokensFrom (" = ".toList ++ rest) last).failure⟩ := by
  have hopens : Stops opensGap ('[' :: inside ++ (" = ".toList ++ rest)) := stops_cons rfl _
  have hseparates : Separates (gap ++ ('[' :: inside ++ (" = ".toList ++ rest))) := by
    cases hgap with
    | nil => exact separates_bracket _
    | blank h _ =>
        exact separates_of_opensGap (List.contains_iff_mem.mpr (List.mem_append_left ['#'] h)) _
    | comment => exact separates_of_opensGap rfl _
  have hequal : Separates (" = ".toList ++ rest) := separates_of_opensGap rfl _
  rw [hhead.scan _ hseparates, tokensFrom_gap hgap hopens, hbracket.scan _ hequal]

/-- The state in which the parser of an assignment begins. -/
theorem Placed.ofStream_eq
    (hhead : Placed .identifier head tree .first first row stop found) (hgap : IsGap gap)
    (hbracket : Placed .leftBracket ('[' :: inside) bracket (stop.afterGap gap) opening inner last
      joined)
    (hrest : tokensFrom (" = ".toList ++ rest) last = ⟨equal :: following, none⟩) :
    ParserState.ofStream (.ofSource (assignmentText head gap ('[' :: inside) rest)) =
      .ok ⟨first, row ++ opening :: (inner ++ equal :: following), none, .first, 0⟩ := by
  rw [TokenStream.ofSource, assignmentText, String.toList_ofList, hhead.tokensFrom_eq hgap hbracket,
    hrest]
  rfl

/-- From the equals sign on, an assignment has corresponding tokens wherever its bracket ends. -/
theorem Placed.exists_rest {program : Program}
    (hhead : Placed .identifier head tree .first first row stop found) (hgap : IsGap gap)
    (hbracket : Placed .leftBracket ('[' :: inside) bracket (stop.afterGap gap) opening inner last
      joined)
    (hparse : Program.parse (assignmentText head gap ('[' :: inside) rest) = .ok program)
    (place : Position) :
    ∃ equal following sign remaining, equal.kind = .equal ∧ remaining.length = following.length ∧
      tokensFrom (" = ".toList ++ rest) last = ⟨equal :: following, none⟩ ∧
      tokensFrom (" = ".toList ++ rest) place = ⟨sign :: remaining, none⟩ ∧
      Aligned forgotten forgotten True true last (equal :: following) place (sign :: remaining) := by
  obtain ⟨current, upcoming, pieces, hpieces, -⟩ := exists_tiles_of_parse hparse
  have hscan := hpieces.tokensFrom_eq
  rw [assignmentText, String.toList_ofList, hhead.tokensFrom_eq hgap hbracket] at hscan
  obtain ⟨-, hfailure⟩ := TokenStream.mk.inj hscan
  obtain ⟨equal, following, htokens, hequal⟩ := exists_tokensFrom_equal rest last
  have hrest : tokensFrom (" = ".toList ++ rest) last = ⟨equal :: following, none⟩ :=
    congrArg₂ TokenStream.mk htokens hfailure
  obtain ⟨others, hothers, hlength, haligned⟩ := exists_elsewhere hrest place
  obtain ⟨-, -, sign, remaining, -, rfl⟩ := haligned.exists_cons
  exact ⟨equal, following, sign, remaining, hequal, Nat.succ.inj hlength, hrest, hothers, haligned⟩

/-! ### Both runs -/

/-- A bracket in front of an equals sign is a chain wherever the token before it stops. -/
theorem Placed.postfixChain_eq
    (hbracket : Placed .leftBracket ('[' :: inside) bracket place opening inner last joined)
    (hequal : equal.kind = .equal) (previous : Position) :
    postfixChain (16 * (inner.length + 3)) true
      ⟨opening, inner ++ equal :: following, none, previous, 0⟩ =
        .ok joined ⟨equal, following, none, last, 0⟩ := by
  obtain ⟨less, -, hrun⟩ := hbracket.run equal following _ (Nat.le_refl _)
  have hends : EndsChain true ⟨equal, following, none, last, 0⟩ := by
    constructor
    · rw [hequal]
      decide
    · rw [hequal]
      exact fun h => absurd h (by decide)
  rw [suffixes_of_ends hends] at hrun
  rcases fresh_postfixChain (16 * (inner.length + 3)) true
    ⟨opening, inner ++ equal :: following, none, place, 0⟩ previous with
    ⟨value, after, hfound, hmoved⟩ | ⟨error, after, rest, hfailed, -⟩
  · rw [hrun] at hfound
    cases hfound
    exact hmoved
  · rw [hrun] at hfailed
    cases hfailed

/-- With something between its head and the bracket, an assignment is read as a call first. -/
theorem Placed.target_of_spaced {fuel : Nat} {start : Position} {target value : Expr}
    {after : ParserState} (hhead : Placed .identifier head tree .first first row stop found)
    (hbracket : Placed .leftBracket ('[' :: inside) bracket place opening inner last joined)
    (hapart : place ≠ stop) (hequal : equal.kind = .equal) (hfuel : 16 * (row.length + 3) ≤ fuel)
    (hrun : assignmentOrCall (fuel + 1)
      ⟨first, row ++ opening :: (inner ++ equal :: following), none, .first, 0⟩ =
        .ok (.assign start target value) after) :
    start = first.start ∧ reattach (withoutEmptyCall found) joined = some target ∧
      ∃ less passed next, fuel = less + 2 ∧
        advance ⟨equal, following, none, last, 0⟩ = .ok passed next ∧
        expression less next = .ok value after := by
  have hkind : opening.kind = .leftBracket := hbracket.kind
  obtain ⟨less, -, hchain⟩ := hhead.run opening (inner ++ equal :: following) fuel hfuel
  have hends : EndsChain true ⟨opening, inner ++ equal :: following, none, stop, 0⟩ := by
    constructor
    · rw [hkind]
      decide
    · exact fun _ => ⟨rfl, hbracket.bracket_start ▸ hapart⟩
  rw [suffixes_of_ends hends] at hchain
  rw [assignmentOrCall_of_call hchain (by rw [hkind]; decide)] at hrun
  obtain ⟨hstart, harguments, hreattach, hvalue⟩ :=
    spacedArguments_cases hkind (hbracket.postfixChain_eq hequal stop) hequal hrun
  rw [headParts_of_nil harguments] at hreattach
  exact ⟨hstart, hreattach, hvalue⟩

/-- With nothing between its head and the bracket, an assignment is read as one chain. -/
theorem Placed.assignment_of_touching {fuel : Nat} {target value : Expr} {passed : Token}
    {next after : ParserState} (hhead : Placed .identifier head tree .first first row stop found)
    (hbracket : Placed .leftBracket ('[' :: inside) bracket stop opening inner last joined)
    (hequal : equal.kind = .equal) (hreattach : reattach found joined = some target)
    (hfuel : 16 * (row.length + inner.length + 4) ≤ fuel + 5)
    (hadvance : advance ⟨equal, following, none, last, 0⟩ = .ok passed next)
    (hvalue : expression fuel next = .ok value after) :
    ∃ touching, touching.bare = target.bare ∧ assignmentOrCall (fuel + 2)
      ⟨first, row ++ opening :: (inner ++ equal :: following), none, .first, 0⟩ =
        .ok (.assign first.start touching value) after := by
  obtain ⟨less, hless, hchain⟩ :=
    hhead.run opening (inner ++ equal :: following) (fuel + 1) (by omega)
  let between : ParserState := ⟨opening, inner ++ equal :: following, none, stop, 0⟩
  have hinner : postfixChain (16 * (inner.length + 3)) true between =
      .ok joined ⟨equal, following, none, last, 0⟩ := hbracket.postfixChain_eq hequal stop
  have hkind : between.current.kind = .leftBracket := hbracket.kind
  have henough : 16 * (inner.length + 3) ≤ less + 1 := by omega
  obtain ⟨touching, hsuffixes, hbare⟩ :=
    suffixes_of_postfixChain hkind hbracket.bracket_start hinner hreattach henough
  rw [hsuffixes] at hchain
  have hassignable : touching.isAssignable := by
    rw [Expr.isAssignable_of_bare_eq hbare]
    exact isAssignable_reattach hreattach
  refine ⟨touching, hbare, ?_⟩
  rw [assignmentOrCall_of_assignment hchain hequal hadvance]
  exact assignment_of_ok hassignable hvalue

theorem fuelFor_row (first opening equal : Token) (row inner following : List Token) :
    fuelFor ⟨first, row ++ opening :: (inner ++ equal :: following), none, .first, 0⟩ =
      16 * (row.length + inner.length + following.length + 4) := by
  simp only [fuelFor, List.length_append, List.length_cons]
  omega

/-- A program of one assignment with a space before the bracket. -/
theorem Placed.of_spaced {fuel : Nat} {target value : Expr}
    {start : Position} (hhead : Placed .identifier head tree .first first row stop found)
    (hgap : IsGap gap) (hspace : gap ≠ [])
    (hbracket : Placed .leftBracket ('[' :: inside) bracket (stop.afterGap gap) opening inner last
      joined)
    (hrest : tokensFrom (" = ".toList ++ rest) last = ⟨equal :: following, none⟩)
    (hequal : equal.kind = .equal)
    (hfuel : 16 * (row.length + inner.length + following.length + 4) = fuel + 6)
    (hparse : Program.parse (assignmentText head gap ('[' :: inside) rest) =
      .ok [.assign start target value]) :
    start = first.start ∧ reattach (withoutEmptyCall found) joined = some target ∧
      Assigns fuel value ⟨equal, following, none, last, 0⟩ := by
  have hapart : stop.afterGap gap ≠ stop := fun hsame =>
    hspace ((Position.afterGap_eq_self_iff stop gap).mp hsame)
  obtain ⟨middle, token, after, hsimple, hmodifier, htoken, hend⟩ :=
    (Program.parse_eq_assign_iff (hhead.ofStream_eq hgap hbracket hrest) hhead.kind
      ((fuelFor_row _ _ _ _ _ _).trans hfuel)).mp hparse
  obtain ⟨hstart, htarget, less, passed, next, hless, hadvance, hvalue⟩ :=
    hhead.target_of_spaced hbracket hapart hequal (by omega) hsimple
  obtain rfl := Nat.add_right_cancel hless
  exact ⟨hstart, htarget, passed, next, middle, token, after, hadvance, hvalue, hmodifier, htoken,
    hend⟩

/-- A program of one assignment without a space before the bracket. -/
theorem Placed.of_touching {fuel : Nat} {target value : Expr}
    (hhead : Placed .identifier head tree .first first row stop found)
    (hbracket : Placed .leftBracket ('[' :: inside) bracket stop opening inner last joined)
    (hrest : tokensFrom (" = ".toList ++ rest) last = ⟨equal :: following, none⟩)
    (hequal : equal.kind = .equal)
    (hfuel : 16 * (row.length + inner.length + following.length + 4) = fuel + 5)
    (hreattach : reattach found joined = some target)
    (hvalue : Assigns fuel value ⟨equal, following, none, last, 0⟩) :
    ∃ touching, touching.bare = target.bare ∧
      Program.parse (assignmentText head [] ('[' :: inside) rest) =
        .ok [.assign first.start touching value] := by
  obtain ⟨passed, next, middle, token, after, hadvance, hvalue, hmodifier, htoken, hend⟩ := hvalue
  obtain ⟨touching, hbare, hsimple⟩ :=
    hhead.assignment_of_touching hbracket hequal hreattach (by omega) hadvance hvalue
  have hstream := hhead.ofStream_eq .nil hbracket hrest
  refine ⟨touching, hbare, ?_⟩
  exact (Program.parse_eq_assign_iff hstream hhead.kind ((fuelFor_row _ _ _ _ _ _).trans hfuel)).mpr
    ⟨middle, token, after, hsimple, hmodifier, htoken, hend⟩

end

/-- **A space before the bracket.** If a text with a space between a head and a bracket is an
assignment, the text without the space is one as well, of the same value. Without the space the
bracket is set behind the head. With the space it is set behind the head without its last call, if
that has no arguments. So both are the same assignment, up to places, unless the head ends in a call
without arguments. -/
theorem spaced_index_assignment {head space inside rest : List Char}
    {tree bracket target assigned : Expr} {place : Position} (hhead : IsChain .identifier head tree)
    (htail : IsChain .leftBracket ('[' :: inside) bracket) (hspace : space ≠ [])
    (hblank : ∀ character ∈ space, character ∈ blanks)
    (hparse : Program.parse (assignmentText head space ('[' :: inside) rest) =
      .ok [.assign place target assigned]) :
    ∃ touching value,
      Program.parse (assignmentText head [] ('[' :: inside) rest) =
        .ok [.assign place touching value] ∧
      value.bare = assigned.bare ∧
      reattach tree.bare bracket.bare = some touching.bare ∧
      reattach (withoutEmptyCall tree).bare bracket.bare = some target.bare ∧
      (target.bare = touching.bare ↔ ∀ position callee, tree ≠ .call position callee []) := by
  have hgap := isGap_of_blanks hblank
  obtain ⟨length, hheads⟩ := hhead.exists_placed (.inl rfl)
  obtain ⟨first, row, stop, found, -, hfirst⟩ := hheads .first
  obtain ⟨size, hbrackets⟩ := htail.exists_placed (.inr rfl)
  obtain ⟨opening, inner, last, joined, hinner, hspaced⟩ := hbrackets (stop.afterGap space)
  obtain ⟨attached, others, final, beside, hothers, hattached⟩ := hbrackets stop
  obtain ⟨equal, following, sign, remaining, hequal, hlength, hrest, hremaining, haligned⟩ :=
    hfirst.exists_rest hgap hspaced hparse final
  have hsign : sign.kind = .equal := haligned.head.1.kind.symm.trans hequal
  -- Both texts have the same number of tokens, and so the same fuel.
  obtain ⟨fuel, hfuel⟩ : ∃ fuel, 16 * (row.length + size + following.length + 4) = fuel + 6 :=
    ⟨_, (Nat.sub_add_cancel (by omega)).symm⟩
  obtain ⟨rfl, htarget, hassigned⟩ :=
    hfirst.of_spaced hgap hspace hspaced hrest hequal (hinner ▸ hfuel) hparse
  have hmatches : Matches forgotten forgotten True ⟨equal, following, none, last, 0⟩
      ⟨sign, remaining, none, final, 0⟩ := ⟨haligned, rfl, rfl⟩
  obtain ⟨value, hvalue, hsame⟩ := hassigned.of_matches hmatches
  obtain ⟨whole, hwhole⟩ : ∃ whole, reattach found beside = some whole :=
    exists_reattach htarget (hattached.same.trans hspaced.same.symm)
  obtain ⟨touching, hbare, hparsed⟩ :=
    hfirst.of_touching hattached hremaining hsign (by omega) hwhole hvalue
  have hspacedTarget : reattach (withoutEmptyCall tree).bare bracket.bare = some target.bare := by
    rw [withoutEmptyCall_bare, ← hfirst.same, ← withoutEmptyCall_bare, ← hspaced.same]
    exact reattach_bare htarget
  have htouchingTarget : reattach tree.bare bracket.bare = some touching.bare := by
    rw [hbare, ← hfirst.same, ← hattached.same]
    exact reattach_bare hwhole
  exact ⟨touching, value, hparsed, hsame, htouchingTarget, hspacedTarget,
    target_eq_iff htouchingTarget hspacedTarget⟩

/-- The call of `h.f() [i].x = v;` is lost. -/
theorem spaced_index_assignment_lost :
    ∃ target touching assigned value,
      Program.parse "h.f() [i].x = v;" = .ok [.assign .first target assigned] ∧
      Program.parse "h.f()[i].x = v;" = .ok [.assign .first touching value] ∧
      target.bare = .member .first
        (.index .first (.member .first (.name .first "h") "f") (.name .first "i")) "x" ∧
      touching.bare ≠ target.bare := by
  have hhead : IsChain .identifier "h.f()".toList
      (.call .first (.member .first (.name .first "h") "f") []) :=
    ⟨by rintro _ ⟨⟩; decide, _, _, by cbv, by rfl, by rfl, by cbv, by rfl⟩
  have htail : IsChain .leftBracket ('[' :: "i].x".toList)
      (.member .first (.array .first [.name ⟨1, 2⟩ "i"]) "x") :=
    ⟨by rintro _ ⟨⟩; decide, _, _, by cbv, by rfl, by rfl, by cbv, by rfl⟩
  have hspaced : assignmentText "h.f()".toList [' '] ('[' :: "i].x".toList) "v;".toList =
      "h.f() [i].x = v;" := rfl
  have htouching : assignmentText "h.f()".toList [] ('[' :: "i].x".toList) "v;".toList =
      "h.f()[i].x = v;" := rfl
  have hblank : ∀ character ∈ [' '], character ∈ blanks := by
    intro character hmem
    rw [List.mem_singleton.mp hmem]
    decide
  obtain ⟨target, assigned, hparse⟩ : ∃ target assigned,
      Program.parse "h.f() [i].x = v;" = .ok [.assign .first target assigned] := ⟨_, _, by cbv⟩
  obtain ⟨touching, value, hparsed, -, -, htarget, hsame⟩ :=
    spaced_index_assignment hhead htail (List.cons_ne_nil ' ' []) hblank (hspaced ▸ hparse)
  refine ⟨target, touching, assigned, value, hparse, htouching ▸ hparsed, ?_, ?_⟩
  · exact (Option.some.inj htarget).symm
  · exact fun heq => hsame.mp heq.symm _ _ rfl

end ScriptEngine
