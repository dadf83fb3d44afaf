import ScriptEngine.Proofs.Program.Extension
import ScriptEngine.Proofs.Program.Layout
import ScriptEngine.Proofs.Program.Simple
import ScriptEngine.Proofs.Source.Joining

/-!
# Joined programs

Two texts that are programs, with a line break between them, are one program. The statements of the
first text are read as if nothing followed, and leave the parser at the first token of the second.
-/

namespace ScriptEngine

namespace Parser

/-! ### Statements one after another -/

variable {next : Token} {following : List Token}

/-- The statements of a text are read first if more text follows, and each of them took a token. -/
theorem statementsFrom_extended (hnext : next.kind ≠ .kwElse) {fuel more : Nat} (hfuel : fuel ≤ more)
    {state other : ParserState} (h : Extended next following state other) {program : Program}
    (hrun : statementsFrom fuel state = (program, none)) :
    program.length ≤ state.upcoming.length ∧ ∃ stop,
      statementsFrom more other =
        let rest := statementsFrom (more - program.length) ⟨next, following, none, stop, state.depth⟩
        (program ++ rest.1, rest.2) := by
  induction fuel generalizing more state other program with
  | zero => cases hrun
  | succ fuel ih =>
      obtain ⟨more, rfl⟩ : ∃ less, more = less + 1 := ⟨more - 1, by omega⟩
      have hless := Nat.le_of_succ_le_succ hfuel
      unfold statementsFrom at hrun
      split at hrun
      · rename_i hend
        obtain ⟨rfl, -⟩ := Prod.mk.inj hrun
        cases h with
        | inside _ hkinds => exact absurd hend (List.forall_mem_cons.mp hkinds).1
        | @done mark stop depth _ => exact ⟨Nat.zero_le _, stop, rfl⟩
      · rename_i hend
        split at hrun
        · rename_i first after hfirst
          have hrule := (rulesClosing hnext following hless).statement
          have hupcoming : state.upcoming ≠ [] := fun hnil => hend (h.atMark hnil).kind
          obtain ⟨hlength, rest, hright, hrest⟩ :=
            hrule.inside state other h hupcoming first after hfirst
          have hdepth : after.depth = state.depth :=
            (((rulesParallel id id True (le_refl fuel)).statement trivial).consumes h.valid hfirst).depth
          obtain ⟨rfl, herror⟩ := Prod.mk.inj hrun
          obtain ⟨hshorter, stop, hstatements⟩ := ih hless hrest (Prod.ext rfl herror)
          refine ⟨Nat.le_trans (Nat.succ_le_succ hshorter) hlength, stop, ?_⟩
          have hcurrent : other.current.kind ≠ .endOfInput := by
            cases h with
            | inside => exact hend
            | done => exact absurd rfl hupcoming
          rw [statementsFrom, if_neg hcurrent, hright]
          dsimp only
          rw [hstatements, hdepth, List.length_cons, Nat.add_sub_add_right]
          rfl
        · cases hrun

/-- Corresponding tokens are read as corresponding statements. -/
theorem statementsFrom_matches {first second : Position → Position} {fuel more : Nat}
    (hfuel : fuel ≤ more) {state other : ParserState} (h : Matches first second True state other)
    {program : Program} (hrun : statementsFrom fuel state = (program, none)) :
    ∃ found, statementsFrom more other = (found, none) ∧ SameBody first second program found := by
  induction fuel generalizing more state other program with
  | zero => cases hrun
  | succ fuel ih =>
      obtain ⟨more, rfl⟩ : ∃ less, more = less + 1 := ⟨more - 1, by omega⟩
      have hless := Nat.le_of_succ_le_succ hfuel
      unfold statementsFrom at hrun ⊢
      rw [← h.current_corresponds.kind]
      split at hrun
      · rename_i hend
        obtain ⟨rfl, -⟩ := Prod.mk.inj hrun
        exact ⟨[], if_pos hend, rfl⟩
      · rename_i hend
        rw [if_neg hend]
        have hrule := (rulesParallel first second True hless).statement trivial
        split at hrun
        · rename_i statement after hstatement
          obtain ⟨first, rest, hfirst, hsame, hafter⟩ := hrule.exists_ok h hstatement
          obtain ⟨rfl, herror⟩ := Prod.mk.inj hrun
          obtain ⟨found, hfound, hbody⟩ := ih hless hafter (Prod.ext rfl herror)
          refine ⟨first :: found, ?_, ?_⟩
          · rw [hfirst]
            dsimp only
            rw [hfound]
          · simp only [SameBody, Stmt.relocateAll, hsame, hbody]
        · cases hrun

/-- A row that a lexical fault ends is aligned with itself. -/
theorem matches_self_of_failure (current : Token) (upcoming : List Token) (error : LexicalError)
    (stop : Position) (depth : Nat) :
    Matches id id True ⟨current, upcoming, some error, stop, depth⟩
      ⟨current, upcoming, some error, stop, depth⟩ := by
  obtain ⟨initial, final, htokens⟩ :=
    List.eq_nil_or_concat (current :: upcoming) |>.resolve_left (List.cons_ne_nil _ _)
  refine ⟨?_, rfl, rfl⟩
  rw [htokens, List.concat_eq_append]
  exact aligned_self (absurd · Bool.false_ne_true) stop

/-- Statements are read up to the end only if the tokens end in a mark. -/
theorem failure_of_statementsFrom {fuel : Nat} {state : ParserState} {program : Program}
    (h : Matches id id True state state)
    (hkinds : state.failure ≠ none →
      ∀ token ∈ state.current :: state.upcoming, token.kind ≠ .endOfInput)
    (hrun : statementsFrom fuel state = (program, none)) : state.failure = none := by
  induction fuel generalizing state program with
  | zero => cases hrun
  | succ fuel ih =>
      by_contra hfailure
      unfold statementsFrom at hrun
      split at hrun
      · rename_i hend
        exact hkinds hfailure _ List.mem_cons_self hend
      · split at hrun
        · rename_i first after hfirst
          have hrule := (rulesParallel id id True (le_refl fuel)).statement trivial
          have hconsumes := hrule.consumes h hfirst
          have hafter := (hrule.exists_found h hfirst).2
          obtain ⟨rfl, herror⟩ := Prod.mk.inj hrun
          refine hfailure (hconsumes.failure ▸ ih hafter (fun hfault token htoken => ?_)
            (Prod.ext rfl herror))
          exact hkinds hfailure token (hconsumes.tokens.mem htoken)
        · cases hrun

end Parser

theorem Program.parse_eq_ok_iff {source : String} {program : Program} :
    Program.parse source = .ok program ↔ Program.parsePartially source = (program, none) := by
  unfold Program.parse
  generalize Program.parsePartially source = read
  match read with
  | (statements, none) => exact ⟨fun h => congrArg (·, none) (Except.ok.inj h), fun h => by cases h; rfl⟩
  | (statements, some error) => exact ⟨fun h => (nomatch h), fun h => (nomatch h)⟩

theorem ParserState.of_ofStream {stream : TokenStream} {state : ParserState}
    (h : ofStream stream = .ok state) :
    stream = ⟨state.current :: state.upcoming, state.failure⟩ ∧
      state = ⟨state.current, state.upcoming, state.failure, .first, 0⟩ := by
  obtain ⟨tokens, failure⟩ := stream
  unfold ofStream at h
  split at h
  · next htokens =>
      cases h
      exact ⟨congrArg (TokenStream.mk · failure) htokens, rfl⟩
  · cases h
  · cases h

/-- A text that is a program has no lexical faults. -/
theorem exists_tiles_of_parse {source : String} {program : Program}
    (h : Program.parse source = .ok program) :
    ∃ current upcoming pieces, Tiles .first source.toList (current :: upcoming) pieces ∧
      Parser.statementsFrom (Parser.fuelFor ⟨current, upcoming, none, .first, 0⟩)
        ⟨current, upcoming, none, .first, 0⟩ = (program, none) := by
  rw [Program.parse_eq_ok_iff] at h
  unfold Program.parsePartially ParserState.ofStream TokenStream.ofSource at h
  have htiles := @exists_tiles_of_tokensFrom source.toList .first
  have hkinds := @Lexer.kind_ne_endOfInput_of_failure source.toList .first
  generalize Lexer.tokensFrom source.toList .first = stream at h htiles hkinds
  obtain ⟨tokens, failure⟩ := stream
  cases tokens with
  | nil => cases failure <;> cases h
  | cons current upcoming =>
      cases failure with
      | none =>
          obtain ⟨pieces, hpieces⟩ := htiles rfl
          exact ⟨current, upcoming, pieces, hpieces, h⟩
      | some error =>
          have hself := Parser.matches_self_of_failure current upcoming error .first 0
          exact absurd (Parser.failure_of_statementsFrom hself hkinds h) (Option.some_ne_none error)

theorem Parser.kind_ne_else_of_statementsFrom {fuel : Nat} {state : ParserState} {program : Program}
    (hrun : statementsFrom fuel state = (program, none)) : state.current.kind ≠ .kwElse := by
  intro helse
  cases fuel with
  | zero => cases hrun
  | succ fuel =>
      rw [statementsFrom, if_neg (helse ▸ by decide)] at hrun
      split at hrun
      · rename_i first after hfirst
        have hopens := finds_opensStatement fuel first after hfirst
        rw [helse] at hopens
        exact absurd hopens Bool.false_ne_true
      · cases hrun

/-- The states in which the first text and the joined texts begin. -/
theorem Parser.exists_extended {initial upcoming following : List Token} {current mark next : Token}
    (htokens : current :: upcoming = initial ++ [mark]) (hmark : mark.kind = .endOfInput)
    (hinitial : ∀ token ∈ initial, token.kind ≠ .endOfInput) (stop : Position) (depth : Nat) :
    ∃ head tail, initial ++ next :: following = head :: tail ∧
      tail.length = upcoming.length + following.length ∧
      Extended next following ⟨current, upcoming, none, stop, depth⟩
        ⟨head, tail, none, stop, depth⟩ := by
  cases initial with
  | nil =>
      obtain ⟨rfl, rfl⟩ := List.cons.inj htokens
      exact ⟨next, following, rfl, (Nat.zero_add _).symm, .done hmark⟩
  | cons token rest =>
      rw [List.cons_append] at htokens
      obtain ⟨rfl, rfl⟩ := List.cons.inj htokens
      refine ⟨current, rest ++ next :: following, rfl, ?_, .inside hmark hinitial⟩
      simp only [List.length_append, List.length_cons, List.length_nil]
      omega

/-- A text corresponds to the same text further down. -/
theorem Tiles.aligned_down {position : Position} {text : List Char} {tokens : List Token}
    {pieces : List Piece} (h : Tiles position text tokens pieces) (lines : Nat) :
    Parser.Aligned (Position.down lines) id True true position tokens (position.down lines)
      (tokens.map (Token.down lines)) := by
  induction h with
  | done => exact .last ⟨rfl, rfl, rfl⟩ (fun _ => rfl) fun _ hkind => absurd rfl hkind
  | @next position _ _ _ token _ _ _ _ _ _ _ _ ih =>
      refine .next ⟨rfl, rfl, rfl⟩ (fun _ => ?_) ih
      exact ⟨congrArg (Position.down lines), Position.down_injective lines⟩

/-- **Programs may be joined.** Two texts that are programs, with a line break between them, are one
program: the statements of the first and then those of the second, further down by the lines of the
first. -/
theorem Program.parse_join {first second : String} {program others : Program}
    (hfirst : Program.parse first = .ok program) (hsecond : Program.parse second = .ok others) :
    Program.parse (first ++ "\n" ++ second) =
      .ok (program ++ Stmt.relocateAll (Position.down (first.toList.count '\n' + 1)) others) := by
  obtain ⟨current, upcoming, pieces, hpieces, hprogram⟩ := exists_tiles_of_parse hfirst
  obtain ⟨next, following, rows, hrows, hothers⟩ := exists_tiles_of_parse hsecond
  obtain ⟨initial, mark, htokens, hmark, hinitial, hline⟩ := hpieces.exists_mark
  generalize hlines : first.toList.count '\n' + 1 = lines
  have hplace : mark.start.nextLine = Position.first.down lines := by
    unfold Position.nextLine
    rw [hline, ← hlines]
    rfl
  rw [htokens] at hpieces
  have hbelow := hrows.down lines
  rw [← hplace] at hbelow
  obtain ⟨joined, hjoined⟩ := hpieces.join hbelow
  have htext : first.toList ++ '\n' :: second.toList = (first ++ "\n" ++ second).toList := by simp
  rw [htext] at hjoined
  obtain ⟨head, tail, hhead, hlength, hextended⟩ := @Parser.exists_extended initial upcoming
    (following.map (Token.down lines)) current mark (next.down lines) htokens hmark hinitial .first 0
  rw [List.map_cons, hhead] at hjoined
  rw [List.length_map] at hlength
  have helse : (next.down lines).kind ≠ .kwElse := Parser.kind_ne_else_of_statementsFrom hothers
  have hfuel : Parser.fuelFor ⟨current, upcoming, none, .first, 0⟩ ≤
      Parser.fuelFor ⟨head, tail, none, .first, 0⟩ := by
    unfold Parser.fuelFor
    dsimp only
    omega
  obtain ⟨hshorter, stop, hstatements⟩ :=
    Parser.statementsFrom_extended helse hfuel hextended hprogram
  have hmatches : Parser.Matches (Position.down lines) id True ⟨next, following, none, .first, 0⟩
      ⟨next.down lines, following.map (Token.down lines), none, Position.first.down lines, 0⟩ :=
    ⟨hrows.aligned_down lines, rfl, rfl⟩
  have hrest : Parser.fuelFor ⟨next, following, none, .first, 0⟩ ≤
      Parser.fuelFor ⟨head, tail, none, .first, 0⟩ - program.length := by
    unfold Parser.fuelFor
    dsimp only at hshorter ⊢
    omega
  obtain ⟨found, hfound, hsame⟩ := Parser.statementsFrom_matches hrest hmatches hothers
  rw [Parser.SameBody, Stmt.relocateAll_id] at hsame
  rw [Program.parse_eq_ok_iff, hsame]
  unfold Program.parsePartially
  rw [hjoined.ofStream_eq]
  dsimp only
  rw [hstatements, (Parser.statementsFrom_previousStop _ _ stop).trans hfound]

end ScriptEngine
