import ScriptEngine.Proofs.Program.Parallel

/-!
# Runs that agree

Two parsers in parallel, run on rows of tokens that correspond, agree: they succeed together with
related values, or fail together with one error, or the first gives up early. Where the token before
the first one stopped does not matter to a statement (`fresh_statement`).
-/

namespace ScriptEngine

namespace Parser

/-! ### Rows of tokens -/

section

variable (first second : Position → Position) (strict : Prop)

/-- Two rows of tokens, each from a place on. Corresponding tokens touch the ones before them alike,
if this is asked for. Complete rows end in the mark at the end. -/
inductive Aligned (complete : Bool) : Position → List Token → Position → List Token → Prop
  | last {stop place : Position} {token other : Token}
      (htoken : Token.Corresponds first second token other)
      (hend : complete → token.kind = .endOfInput)
      (hattached : strict → token.kind ≠ .endOfInput →
        (token.start = stop ↔ other.start = place)) :
      Aligned complete stop [token] place [other]
  | next {stop place : Position} {token other : Token} {tokens others : List Token}
      (htoken : Token.Corresponds first second token other)
      (hattached : strict → (token.start = stop ↔ other.start = place))
      (hrest : Aligned complete token.stop tokens other.stop others) :
      Aligned complete stop (token :: tokens) place (other :: others)

/-- What two parsers have in hand: aligned rows that end alike, at one depth. -/
structure Matches (state other : ParserState) : Prop where
  tokens : Aligned first second strict state.failure.isNone state.previousStop
    (state.current :: state.upcoming) other.previousStop (other.current :: other.upcoming)
  failure : state.failure.map (LexicalError.relocate first) =
    other.failure.map (LexicalError.relocate second)
  depth : state.depth = other.depth

/-- Both results are values, or errors, or the first run was cut short. -/
inductive Agrees {α : Type} (related : α → α → Prop) :
    EStateM.Result ParseError ParserState α → EStateM.Result ParseError ParserState α → Prop
  | ok {value other : α} {after rest : ParserState} (hvalue : related value other)
      (hafter : Matches first second strict after rest) : Agrees related (.ok value after) (.ok other rest)
  | error {error other : ParseError} {after rest : ParserState}
      (h : error.relocate first = other.relocate second) :
      Agrees related (.error error after) (.error other rest)
  | cut {error : ParseError} {after : ParserState}
      {result : EStateM.Result ParseError ParserState α} (h : error.IsExhausted) :
      Agrees related (.error error after) result

end

section

variable {first second : Position → Position} {strict : Prop}

/-- What two aligned rows have in common at their heads, and that both end there or neither. -/
theorem Aligned.head {complete : Bool} {stop place : Position} {token other : Token}
    {tokens others : List Token}
    (h : Aligned first second strict complete stop (token :: tokens) place (other :: others)) :
    Token.Corresponds first second token other ∧
      (strict → token.kind ≠ .endOfInput → (token.start = stop ↔ other.start = place)) ∧
      (tokens = [] ∧ others = [] ∧ (complete → token.kind = .endOfInput) ∨
        Aligned first second strict complete token.stop tokens other.stop others) := by
  cases h with
  | last htoken hend hattached => exact ⟨htoken, hattached, .inl ⟨rfl, rfl, hend⟩⟩
  | next htoken hattached hrest => exact ⟨htoken, fun hstrict _ => hattached hstrict, .inr hrest⟩

theorem Aligned.exists_cons {complete : Bool} {stop place : Position} {tokens others : List Token}
    (h : Aligned first second strict complete stop tokens place others) :
    ∃ token rest other following, tokens = token :: rest ∧ others = other :: following := by
  cases h with
  | last => exact ⟨_, _, _, _, rfl, rfl⟩
  | next => exact ⟨_, _, _, _, rfl, rfl⟩

/-- The mark at the end, which touches nothing. -/
theorem aligned_mark {complete : Bool} {token other : Token}
    (htoken : Token.Corresponds first second token other) (hend : token.kind = .endOfInput)
    (stop place : Position) : Aligned first second strict complete stop [token] place [other] :=
  .last htoken (fun _ => hend) fun _ hkind => absurd hend hkind

theorem Matches.current_corresponds {state other : ParserState}
    (h : Matches first second strict state other) :
    Token.Corresponds first second state.current other.current :=
  h.tokens.head.1

theorem Matches.advance {state other : ParserState} (h : Matches first second strict state other) :
    Agrees first second strict (Token.Corresponds first second) (advance state) (advance other) := by
  obtain ⟨current, upcoming, failure, stop, depth⟩ := state
  obtain ⟨following, others, otherFailure, place, otherDepth⟩ := other
  obtain ⟨htokens, hfailure, hdepth⟩ := h
  obtain ⟨htoken, _, ⟨rfl, rfl, hend⟩ | hrest⟩ := htokens.head
  · match failure, otherFailure, hfailure with
    | none, none, _ => exact .ok htoken ⟨aligned_mark htoken (hend rfl) _ _, rfl, hdepth⟩
    | some error, some other, hfailure =>
        exact .error (congrArg ParseError.lexical (Option.some.inj hfailure))
  · obtain ⟨_, _, _, _, rfl, rfl⟩ := hrest.exists_cons
    exact .ok htoken ⟨hrest, hfailure, hdepth⟩

/-! ### Agreement -/

section

variable {α β : Type} {parser : Parser α} {next : α → Parser β} {state after : ParserState}

theorem bind_of_ok {value : α} (h : parser state = .ok value after) :
    (parser >>= next) state = next value after := by
  change EStateM.bind parser next state = _
  unfold EStateM.bind
  rw [h]

theorem bind_of_error {error : ParseError} (h : parser state = .error error after) :
    (parser >>= next) state = .error error after := by
  change EStateM.bind parser next state = _
  unfold EStateM.bind
  rw [h]

/-- A chain that gives a value does so after its first parser gave one. -/
theorem exists_of_bind_ok {value : β} (h : (parser >>= next) state = .ok value after) :
    ∃ first middle, parser state = .ok first middle ∧ next first middle = .ok value after := by
  cases hfirst : parser state with
  | ok first middle => exact ⟨first, middle, rfl, (bind_of_ok hfirst).symm.trans h⟩
  | error error middle =>
      rw [bind_of_error hfirst] at h
      cases h

end

theorem Matches.nested {α : Type} {related : α → α → Prop} {left right : Parser α}
    {state other : ParserState} (h : Matches first second strict state other)
    (hinner : ∀ {state other : ParserState}, Matches first second strict state other →
      Agrees first second strict related (left state) (right other)) :
    Agrees first second strict related (nested left state) (nested right other) := by
  unfold Parser.nested
  rw [← h.depth]
  split
  · refine .error ?_
    simp only [ParseError.relocate, h.current_corresponds.start]
  · have hagrees := @hinner { state with depth := state.depth + 1 }
      { other with depth := state.depth + 1 } ⟨h.tokens, h.failure, rfl⟩
    generalize left { state with depth := state.depth + 1 } = result at hagrees
    generalize right { other with depth := state.depth + 1 } = outcome at hagrees
    cases hagrees with
    | ok hvalue hafter =>
        refine .ok hvalue ⟨hafter.tokens, hafter.failure, ?_⟩
        exact congrArg (· - 1) hafter.depth
    | error h => exact .error h
    | cut h => exact .cut h

/-- **Parsers in parallel agree** on rows of tokens that correspond. -/
theorem Parallel.agrees {α : Type} {related : α → α → Prop} {left right : Parser α}
    (h : Parallel first second strict related left right) {state other : ParserState}
    (hmatches : Matches first second strict state other) :
    Agrees first second strict related (left state) (right other) := by
  induction h generalizing state other with
  | pure h => exact .ok h hmatches
  | @bind _ _ _ _ left right leftNext rightNext _ _ ih ihnext =>
      have hfirst := ih hmatches
      generalize hleft : left state = result at hfirst
      generalize hright : right other = outcome at hfirst
      cases hfirst with
      | ok hvalue hafter =>
          rw [bind_of_ok hleft, bind_of_ok hright]
          exact ihnext _ _ hvalue hafter
      | error h =>
          rw [bind_of_error hleft, bind_of_error hright]
          exact .error h
      | cut h =>
          rw [bind_of_error hleft]
          exact .cut h
  | current => exact .ok hmatches.current_corresponds hmatches
  | check kind =>
      exact .ok (congrArg (· == kind) hmatches.current_corresponds.kind) hmatches
  | advance => exact hmatches.advance
  | attached hnext ih =>
      refine ih _ _ _ _ hmatches.current_corresponds (fun hstrict hkind => ?_) hmatches
      exact decide_eq_decide.mpr (hmatches.tokens.head.2.1 hstrict hkind)
  | throw h => exact .error h
  | nested _ ih => exact hmatches.nested ih
  | exhausted => exact .cut trivial

/-- What one run finds, a parallel run finds on tokens that correspond. -/
theorem Parallel.exists_ok {α : Type} {related : α → α → Prop} {left right : Parser α}
    (h : Parallel first second strict related left right) {state other after : ParserState}
    {value : α} (hmatches : Matches first second strict state other)
    (hrun : left state = .ok value after) :
    ∃ found rest, right other = .ok found rest ∧ related value found ∧
      Matches first second strict after rest := by
  have hagrees := h.agrees hmatches
  rw [hrun] at hagrees
  generalize right other = result at hagrees
  cases hagrees with
  | ok hvalue hafter => exact ⟨_, _, rfl, hvalue, hafter⟩

end

/-! ### Both ways -/

theorem Aligned.symm {first second : Position → Position} {strict : Prop} {complete : Bool}
    {stop place : Position} {tokens others : List Token}
    (h : Aligned first second strict complete stop tokens place others) :
    Aligned second first strict complete place others stop tokens := by
  induction h with
  | last htoken hend hattached =>
      obtain ⟨hkind, hliteral, hstart⟩ := htoken
      rw [hkind] at hend hattached
      exact .last ⟨hkind.symm, hliteral.symm, hstart.symm⟩ hend fun hstrict hkind =>
        (hattached hstrict hkind).symm
  | next htoken hattached _ ih =>
      exact .next ⟨htoken.kind.symm, htoken.literal.symm, htoken.start.symm⟩
        (fun hstrict => (hattached hstrict).symm) ih

theorem Matches.symm {first second : Position → Position} {strict : Prop}
    {state other : ParserState} (h : Matches first second strict state other) :
    Matches second first strict other state := by
  refine ⟨?_, h.failure.symm, h.depth.symm⟩
  have hcomplete := congrArg Option.isNone h.failure
  rw [Option.isNone_map, Option.isNone_map] at hcomplete
  rw [← hcomplete]
  exact h.tokens.symm

section

/-- What `bare` does to each place. -/
abbrev forgotten : Position → Position := fun _ => .first

variable {strict : Prop} {α : Type} {related converse : α → α → Prop}
  {result outcome : EStateM.Result ParseError ParserState α}

/-- Results that agree both ways are both values or both errors, the same up to their places. -/
theorem Agrees.both (h : Agrees forgotten forgotten strict related result outcome)
    (hback : Agrees forgotten forgotten strict converse outcome result) :
    (∃ value other after rest, result = .ok value after ∧ outcome = .ok other rest ∧
      related value other ∧ Matches forgotten forgotten strict after rest) ∨
    (∃ error other after rest, result = .error error after ∧ outcome = .error other rest ∧
      error.bare = other.bare) := by
  cases h with
  | ok hvalue hafter => exact .inl ⟨_, _, _, _, rfl, rfl, hvalue, hafter⟩
  | error h => exact .inr ⟨_, _, _, _, rfl, rfl, h⟩
  | cut hcut =>
      cases hback with
      | error h => exact .inr ⟨_, _, _, _, rfl, rfl, h.symm⟩
      | cut h =>
          refine .inr ⟨_, _, _, _, rfl, rfl, ?_⟩
          rw [ParseError.bare_of_isExhausted hcut, ParseError.bare_of_isExhausted h]

end

/-! ### The token before the first -/

/-- The parser does not ask where the token before the current one stopped. -/
def Fresh {α : Type} (parser : Parser α) : Prop :=
  ∀ state place,
    (∃ value after, parser state = .ok value after ∧
      parser { state with previousStop := place } = .ok value after) ∨
    (∃ error after rest, parser state = .error error after ∧
      parser { state with previousStop := place } = .error error rest)

section

variable {α β : Type}

theorem Fresh.bind {parser : Parser α} (h : Fresh parser) (next : α → Parser β) :
    Fresh (parser >>= next) := by
  intro state place
  rcases h state place with ⟨value, after, hrun, hmoved⟩ | ⟨error, after, rest, hrun, hmoved⟩
  · rw [bind_of_ok hrun, bind_of_ok hmoved]
    cases hresult : next value after with
    | ok final last => exact .inl ⟨final, last, rfl, rfl⟩
    | error error last => exact .inr ⟨error, last, last, rfl, rfl⟩
  · rw [bind_of_error hrun, bind_of_error hmoved]
    exact .inr ⟨error, after, rest, rfl, rfl⟩

theorem fresh_current {next : Token → Parser β} (h : ∀ token, Fresh (next token)) :
    Fresh (current >>= next) :=
  fun state place => h state.current state place

theorem fresh_throw (error : ParseError) : Fresh (throw error : Parser α) :=
  fun state place => .inr ⟨error, state, { state with previousStop := place }, rfl, rfl⟩

theorem fresh_advance : Fresh advance := by
  intro state place
  unfold advance
  cases state.upcoming with
  | cons next rest => exact .inl ⟨_, _, rfl, rfl⟩
  | nil =>
      cases state.failure with
      | none => exact .inl ⟨_, _, rfl, rfl⟩
      | some error => exact .inr ⟨_, _, _, rfl, rfl⟩

theorem fresh_exhausted : Fresh (exhausted : Parser α) :=
  fresh_current fun _ => fresh_throw _

theorem fresh_unexpected (expected : String) : Fresh (unexpected expected : Parser α) :=
  fresh_current fun _ => fresh_throw _

end

theorem fresh_primary (fuel : Nat) : Fresh (primary fuel) := by
  cases fuel with
  | zero => exact fresh_exhausted
  | succ fuel =>
      refine fresh_current fun token => ?_
      split
      case h_8 =>
        cases fuel with
        | zero => exact fresh_exhausted
        | succ fuel => exact fresh_advance.bind _
      case h_12 => exact fresh_unexpected _
      all_goals exact fresh_advance.bind _

theorem fresh_assignmentOrCall (fuel : Nat) : Fresh (assignmentOrCall fuel) := by
  cases fuel with
  | zero => exact fresh_exhausted
  | succ fuel =>
      refine fresh_current fun token => .bind ?_ _
      cases fuel with
      | zero => exact fresh_exhausted
      | succ fuel => exact (fresh_primary fuel).bind _

theorem fresh_simpleStatement (fuel : Nat) : Fresh (simpleStatement fuel) := by
  cases fuel with
  | zero => exact fresh_exhausted
  | succ fuel =>
      refine fresh_current fun token => ?_
      split
      case h_6 => exact fresh_assignmentOrCall fuel
      all_goals exact fresh_advance.bind _

/-- A statement begins with a step to the next token, or fails. -/
theorem fresh_statement (fuel : Nat) : Fresh (statement fuel) := by
  cases fuel with
  | zero => exact fresh_exhausted
  | succ fuel =>
      refine fresh_current fun token => ?_
      split
      case h_10 => exact (fresh_simpleStatement fuel).bind _
      case h_8 =>
        refine .bind ?_ _
        cases fuel with
        | zero => exact fresh_exhausted
        | succ fuel => exact fresh_advance.bind _
      case h_9 =>
        refine .bind ?_ _
        cases fuel with
        | zero => exact fresh_exhausted
        | succ fuel => exact fresh_advance.bind _
      all_goals
        cases fuel with
        | zero => exact fresh_exhausted
        | succ fuel => exact fresh_advance.bind _

/-- Where the token before the first one stopped does not matter to the statements. -/
theorem statementsFrom_previousStop (fuel : Nat) (state : ParserState) (place : Position) :
    statementsFrom fuel { state with previousStop := place } = statementsFrom fuel state := by
  cases fuel with
  | zero => rfl
  | succ fuel =>
      unfold statementsFrom
      split
      · rfl
      · rcases fresh_statement fuel state place with
          ⟨value, after, hrun, hmoved⟩ | ⟨error, after, rest, hrun, hmoved⟩
        · rw [hrun, hmoved]
        · rw [hrun, hmoved]

end Parser

end ScriptEngine
