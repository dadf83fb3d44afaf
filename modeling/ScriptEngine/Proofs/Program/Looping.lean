import ScriptEngine.Proofs.Program.Progress
import ScriptEngine.Proofs.Program.Spacing

/-!
# The loops of the parser

A rule that calls itself at its end is a loop: one round after another, each with what the rounds
before it have carried. A round that goes on has consumed a token. So a loop has no more rounds than
there are tokens, and what would come after them makes no difference.
-/

namespace ScriptEngine

namespace Parser

/-- Two parsers do the same wherever fewer tokens than so many are left. If `inside` holds, then
only where the current token is not the end mark. -/
def AgreesBelow {γ : Type} (bound : Nat) (inside : Prop) (first second : ParserState → γ) : Prop :=
  ∀ state, state.IsWhole → (inside → state.current.kind ≠ .endOfInput) →
    state.upcoming.length < bound → first state = second state

namespace AgreesBelow

variable {α β γ : Type} {fuel need taken bound : Nat} {inside : Prop}

theorem refl (parser : ParserState → γ) : AgreesBelow bound inside parser parser :=
  fun _ _ _ _ => rfl

theorem mono {first second : ParserState → γ} (h : AgreesBelow bound inside first second)
    {less : Nat} {other : Prop} (hless : less ≤ bound) (hinside : inside → other) :
    AgreesBelow less other first second :=
  fun state hstate hother hlength =>
    h state hstate (fun hin => hother (hinside hin)) (Nat.lt_of_lt_of_le hlength hless)

/-- Behind a parser that takes tokens fewer are left. -/
theorem behind {parser : Parser α} {next others : α → Parser β} {more : Nat}
    (h : Progresses fuel need taken inside parser) (hmore : more ≤ bound + taken)
    (hnext : ∀ value, AgreesBelow bound False (next value) (others value)) :
    AgreesBelow more inside (parser >>= next) (parser >>= others) := by
  intro state hstate hinside hlength
  have hfirst := h state hstate hinside
  change EStateM.bind parser next state = EStateM.bind parser others state
  unfold EStateM.bind
  revert hfirst
  cases parser state with
  | error error middle => exact fun _ => rfl
  | ok value middle =>
      intro ⟨hmiddle, htaken⟩
      exact hnext value middle hmiddle False.elim (by omega)

theorem past {parser : Parser α} {next others : α → Parser β} {more : Nat}
    (h : Progresses 0 0 taken inside parser) (hmore : more ≤ bound + taken)
    (hnext : ∀ value, AgreesBelow bound False (next value) (others value)) :
    AgreesBelow more inside (parser >>= next) (parser >>= others) :=
  behind h hmore hnext

theorem bind {first second : Parser α} (h : AgreesBelow bound inside first second)
    (next : α → Parser β) : AgreesBelow bound inside (first >>= next) (second >>= next) := by
  intro state hstate hinside hlength
  change EStateM.bind first next state = EStateM.bind second next state
  unfold EStateM.bind
  rw [show first state = second state from h state hstate hinside hlength]

theorem current {next others : Token → Parser β}
    (h : ∀ token, AgreesBelow bound (inside ∨ token.kind ≠ .endOfInput) (next token)
      (others token)) :
    AgreesBelow bound inside (Parser.current >>= next) (Parser.current >>= others) :=
  fun state hstate hinside => h state.current state hstate fun h => h.elim hinside id

theorem accept {kind : TokenKind} (hkind : kind ≠ .endOfInput) {yes yesToo no noToo : Parser β}
    (hyes : AgreesBelow bound False yes yesToo)
    (hno : AgreesBelow (bound + 1) inside no noToo) :
    AgreesBelow (bound + 1) inside (accept kind >>= fun accepted => if accepted then yes else no)
      (Parser.accept kind >>= fun accepted => if accepted then yesToo else noToo) := by
  rw [accept_bind_eq, accept_bind_eq]
  refine current fun token => ?_
  split
  · next hfound =>
      exact past (advance_of_kind (eq_of_beq hfound) hkind) (Nat.le_refl _) fun _ => hyes
  · exact hno.mono (Nat.le_refl _) .inl

end AgreesBelow

/-- A round that goes on with the rounds after it has consumed a token before: what it does depends
on what those do where fewer tokens are left, and on nothing else of them. -/
def TakesToken {β γ : Type} (round : (β → ParserState → γ) → β → ParserState → γ) : Prop :=
  ∀ bound (rest others : β → ParserState → γ),
    (∀ carried, AgreesBelow bound False (rest carried) (others carried)) →
      ∀ carried, AgreesBelow (bound + 1) False (round rest carried) (round others carried)

/-- A rule is a loop: with one unit of fuel more it makes one round more, and each round that does
not return consumes a token. -/
structure IsLoop {β γ : Type} (rule : Nat → β → ParserState → γ)
    (round : Nat → (β → ParserState → γ) → β → ParserState → γ) : Prop where
  unroll (fuel : Nat) (carried : β) : rule (fuel + 1) carried = round fuel (rule fuel) carried
  takes (fuel : Nat) : TakesToken (round fuel)

/-- The first rounds of a loop, with something else in place of the further ones. -/
def firstRounds {β γ : Type} (round : Nat → (β → ParserState → γ) → β → ParserState → γ)
    (further : β → ParserState → γ) : Nat → Nat → β → ParserState → γ
  | 0, _ => further
  | _, 0 => further
  | count + 1, fuel + 1 => round fuel (firstRounds round further count fuel)

/-- A loop has no more rounds than there are tokens. -/
theorem IsLoop.eq_firstRounds {β γ : Type} {rule : Nat → β → ParserState → γ}
    {round : Nat → (β → ParserState → γ) → β → ParserState → γ} (h : IsLoop rule round)
    (further : β → ParserState → γ) {count fuel : Nat} (hfuel : count ≤ fuel) (carried : β) :
    AgreesBelow count False (rule fuel carried) (firstRounds round further count fuel carried) := by
  induction count generalizing fuel carried with
  | zero => exact fun _ _ _ hlength => absurd hlength (Nat.not_lt_zero _)
  | succ count ih =>
      obtain ⟨fuel, rfl⟩ := Nat.exists_eq_add_of_le' (Nat.le_trans (Nat.le_add_left 1 count) hfuel)
      rw [h.unroll]
      have hfewer : count ≤ fuel := Nat.le_of_succ_le_succ hfuel
      exact h.takes fuel count _ _ (fun carried => ih hfewer carried) carried

/-! ### Rounds -/

variable (fuel : Nat)

/-- One statement of a program. -/
def programRound (rest : Unit → ParserState → List Stmt × Option ParseError) :
    Unit → ParserState → List Stmt × Option ParseError :=
  fun _ state =>
    if state.current.kind = .endOfInput then
      ([], none)
    else
      match statement fuel state with
      | .ok first after =>
        let (others, error) := rest () after
        (first :: others, error)
      | .error error _ => ([], some error)

/-- One statement of a block. -/
def blockRound (rest : Unit → Parser (List Stmt)) : Unit → Parser (List Stmt) := fun _ => do
  match (← current).kind with
  | .rightBrace =>
    let _ ← advance
    return []
  | .endOfInput => unexpected "'\x7d'"
  | _ =>
    let first ← statement fuel
    return first :: (← rest ())

/-- A branch, with the branches after it. -/
def branchRound (sense : Expr → Expr) (rest : Unit → Parser (List Branch × Option (List Stmt))) :
    Parser (List Branch × Option (List Stmt)) := do
  let condition ← expression fuel
  let body ← block fuel
  let (branches, fallback) ← rest ()
  return (.mk (sense condition) body :: branches, fallback)

/-- One branch of a chain. -/
def elseRound (rest : Unit → Parser (List Branch × Option (List Stmt))) :
    Unit → Parser (List Branch × Option (List Stmt)) := fun _ => do
  if ← accept .kwElse then
    if ← accept .kwIf then
      branchRound fuel (fun condition => condition) rest
    else if ← accept .kwUnless then
      branchRound fuel (fun condition => .unary condition.position .not condition) rest
    else
      return ([], some (← block fuel))
  else
    return ([], none)

/-- One case of a `when`. -/
def caseRound (rest : Unit → Parser (List Branch × Option (List Stmt))) :
    Unit → Parser (List Branch × Option (List Stmt)) := fun _ => do
  match (← current).kind with
  | .rightBrace =>
    let _ ← advance
    return ([], none)
  | .kwCase =>
    let _ ← advance
    branchRound fuel (fun condition => condition) rest
  | .kwElse =>
    let _ ← advance
    let body ← block fuel
    let _ ← expect .rightBrace "'\x7d' after else branch"
    return ([], some body)
  | _ => unexpected "'case', 'else' or '\x7d'"

/-- One parameter of a sub. -/
def parameterRound (rest : Unit → Parser (List String)) : Unit → Parser (List String) := fun _ => do
  if ← accept .rightParen then
    return []
  else
    let name ← expectName
    if ← check .rightParen then
      return name :: (← rest ())
    else
      let _ ← expect .comma "',' or ')' in parameter list"
      return name :: (← rest ())

/-- One argument in parentheses. -/
def argumentRound (rest : Unit → Parser (List Expr)) : Unit → Parser (List Expr) := fun _ => do
  if ← accept .rightParen then
    return []
  else
    let argument ← expression fuel
    if ← check .rightParen then
      return argument :: (← rest ())
    else
      let _ ← expect .comma "',' or ')' in argument list"
      return argument :: (← rest ())

/-- One argument without parentheses. -/
def spacedRound (start : Position) (callee : Expr) (rest : List Expr → Parser Stmt) :
    List Expr → Parser Stmt := fun arguments => do
  if ← atStatementEnd then
    return .call start callee arguments
  else
    let argument ← expression fuel
    let beforeEquals ← check .equal
    match arguments, beforeEquals, reattach callee argument with
    | [], true, some target =>
      let _ ← advance
      assignment fuel start target
    | _, _, _ => rest (arguments ++ [argument])

/-- One further element of an array. -/
def elementRound (rest : Unit → Parser (List Expr)) : Unit → Parser (List Expr) := fun _ => do
  if ← accept .comma then
    let element ← expression fuel
    return element :: (← rest ())
  else
    return []

/-- One further entry of a hash. -/
def entryRound (rest : Unit → Parser (List Entry)) : Unit → Parser (List Entry) := fun _ => do
  if ← accept .comma then
    let key ← expression fuel
    let _ ← expect .colon "':' in hash literal"
    let value ← expression fuel
    return .mk key value :: (← rest ())
  else
    return []

/-- One operator with its right operand. -/
def operatorRound (level : Nat) (rest : Expr → Parser Expr) : Expr → Parser Expr := fun left => do
  let token ← current
  match operatorAt level token.kind with
  | none => return left
  | some operator =>
    let _ ← advance
    let right ← operand fuel (level + 1)
    rest (.binary token.start operator left right)

/-- One call, index or member. -/
def suffixRound (touching : Bool) (rest : Expr → Parser Expr) : Expr → Parser Expr := fun head => do
  let continues := !touching || (← isAttached)
  match (← current).kind, continues with
  | .leftParen, true =>
    let _ ← advance
    let arguments ← arguments fuel
    rest (.call head.position head arguments)
  | .leftBracket, true =>
    let _ ← advance
    let index ← expression fuel
    let _ ← expect .rightBracket "']' after index"
    rest (.index head.position head index)
  | .dot, _ =>
    let _ ← advance
    let property ← expectMemberName
    rest (.member head.position head property)
  | _, _ => return head

theorem isLoop_statementsFrom :
    IsLoop (fun fuel (_ : Unit) => statementsFrom fuel) programRound where
  unroll fuel _ := rfl
  takes fuel := by
    intro bound rest others hrest _ state hstate _ hlength
    unfold programRound
    split
    · rfl
    · have hfirst := (rulesProgress fuel).statement state hstate False.elim
      revert hfirst
      cases statement fuel state with
      | error error after => exact fun _ => rfl
      | ok first after =>
          intro ⟨hafter, htaken⟩
          have hagree := hrest () after hafter False.elim (by omega)
          simp only [hagree]

theorem isLoop_blockTail : IsLoop (fun fuel (_ : Unit) => blockTail fuel) blockRound where
  unroll fuel _ := rfl
  takes fuel := by
    intro bound rest others hrest _
    refine .current fun token => ?_
    split
    · exact .refl _
    · exact .refl _
    · refine .behind ((rulesProgress fuel).statement.anywhere (Nat.le_refl _)) (Nat.le_refl _)
        fun first => ?_
      exact (hrest ()).bind _

theorem agreesBelow_branchRound {bound : Nat} (sense : Expr → Expr)
    {rest others : Unit → Parser (List Branch × Option (List Stmt))}
    (h : ∀ carried, AgreesBelow bound False (rest carried) (others carried)) :
    AgreesBelow bound False (branchRound fuel sense rest) (branchRound fuel sense others) := by
  refine .behind (rulesProgress fuel).expression (Nat.le_add_right _ _) fun condition => ?_
  refine .behind (rulesProgress fuel).block (Nat.le_add_right _ _) fun body => ?_
  exact (h ()).bind _

theorem isLoop_elseChain : IsLoop (fun fuel (_ : Unit) => elseChain fuel) elseRound where
  unroll fuel _ := rfl
  takes fuel := by
    intro bound rest others hrest _
    refine .accept (by decide) ?_ (.refl _)
    refine .past (progresses_acceptance _) (Nat.le_refl _) fun hasIf => ?_
    split
    · exact agreesBelow_branchRound fuel _ hrest
    · refine .past (progresses_acceptance _) (Nat.le_refl _) fun hasUnless => ?_
      split
      · exact agreesBelow_branchRound fuel _ hrest
      · exact .refl _

theorem isLoop_caseList : IsLoop (fun fuel (_ : Unit) => caseList fuel) caseRound where
  unroll fuel _ := rfl
  takes fuel := by
    intro bound rest others hrest _
    refine .current fun token => ?_
    split
    · exact .refl _
    · next hkind =>
        refine .past (advance_of_kind hkind (by decide)) (Nat.le_refl _) fun _ => ?_
        exact agreesBelow_branchRound fuel _ hrest
    · exact .refl _
    · exact .refl _

theorem isLoop_parameters : IsLoop (fun fuel (_ : Unit) => parameters fuel)
    fun _ => parameterRound where
  unroll fuel _ := rfl
  takes fuel := by
    intro bound rest others hrest _
    refine .accept (by decide) (.refl _) ?_
    refine .past progresses_expectName (Nat.le_refl _) fun name => ?_
    refine .past (progresses_check _) (Nat.le_refl _) fun last => ?_
    split
    · exact (hrest ()).bind _
    · refine .past (progresses_expect (by decide) _) (Nat.le_add_right _ _) fun _ => ?_
      exact (hrest ()).bind _

theorem isLoop_arguments : IsLoop (fun fuel (_ : Unit) => arguments fuel) argumentRound where
  unroll fuel _ := rfl
  takes fuel := by
    intro bound rest others hrest _
    refine .accept (by decide) (.refl _) ?_
    refine .behind (rulesProgress fuel).expression (Nat.le_refl _) fun argument => ?_
    refine .past (progresses_check _) (Nat.le_refl _) fun last => ?_
    split
    · exact (hrest ()).bind _
    · refine .past (progresses_expect (by decide) _) (Nat.le_add_right _ _) fun _ => ?_
      exact (hrest ()).bind _

theorem isLoop_spacedArguments (start : Position) (callee : Expr) :
    IsLoop (fun fuel => spacedArguments fuel start callee)
      fun fuel => spacedRound fuel start callee where
  unroll fuel _ := rfl
  takes fuel := by
    intro bound rest others hrest arguments
    refine .past progresses_atStatementEnd (Nat.le_refl _) fun ends => ?_
    split
    · exact .refl _
    · refine .behind (rulesProgress fuel).expression (Nat.le_refl _) fun argument => ?_
      refine .past (progresses_check _) (Nat.le_refl _) fun equals => ?_
      cases arguments with
      | cons => exact hrest _
      | nil =>
          cases equals with
          | false => exact hrest _
          | true =>
              cases reattach callee argument with
              | none => exact hrest _
              | some target => exact .refl _

theorem isLoop_elements : IsLoop (fun fuel (_ : Unit) => elements fuel) elementRound where
  unroll fuel _ := rfl
  takes fuel := by
    intro bound rest others hrest _
    refine .accept (by decide) ?_ (.refl _)
    refine .behind (rulesProgress fuel).expression (Nat.le_add_right _ _) fun element => ?_
    exact (hrest ()).bind _

theorem isLoop_entries : IsLoop (fun fuel (_ : Unit) => entries fuel) entryRound where
  unroll fuel _ := rfl
  takes fuel := by
    intro bound rest others hrest _
    refine .accept (by decide) ?_ (.refl _)
    refine .behind (rulesProgress fuel).expression (Nat.le_add_right _ _) fun key => ?_
    refine .past (progresses_expect (by decide) _) (Nat.le_add_right _ _) fun _ => ?_
    refine .behind (rulesProgress fuel).expression (Nat.le_add_right _ _) fun value => ?_
    exact (hrest ()).bind _

theorem isLoop_operatorChain (level : Nat) :
    IsLoop (fun fuel => operatorChain fuel level) fun fuel => operatorRound fuel level where
  unroll fuel _ := rfl
  takes fuel := by
    intro bound rest others hrest left
    refine .current fun token => ?_
    split
    · exact .refl _
    · refine .past progresses_advance (Nat.le_refl _) fun _ => ?_
      refine .behind ((rulesProgress fuel).operand (level + 1)) (Nat.le_refl _) fun right => ?_
      exact hrest _

theorem isLoop_suffixes (touching : Bool) :
    IsLoop (fun fuel => suffixes fuel touching) fun fuel => suffixRound fuel touching where
  unroll fuel _ := rfl
  takes fuel := by
    intro bound rest others hrest head
    refine .past progresses_isAttached (Nat.le_refl _) fun attached => .current fun token => ?_
    split
    · next hkind _ =>
        refine .past (advance_of_kind hkind (by decide)) (Nat.le_refl _) fun _ => ?_
        refine .behind (rulesProgress fuel).arguments (Nat.le_add_right _ _) fun arguments => ?_
        exact hrest _
    · next hkind _ =>
        refine .past (advance_of_kind hkind (by decide)) (Nat.le_refl _) fun _ => ?_
        refine .behind (rulesProgress fuel).expression (Nat.le_add_right _ _) fun index => ?_
        refine .past (progresses_expect (by decide) _) (Nat.le_add_right _ _) fun _ => ?_
        exact hrest _
    · next hkind =>
        refine .past (advance_of_kind hkind (by decide)) (Nat.le_refl _) fun _ => ?_
        exact .past progresses_expectMemberName (Nat.le_refl _) fun property => hrest _
    · exact .refl _

/-- The loops of the parser, each with its round. -/
structure LoopsTakeTokens : Prop where
  program : IsLoop (fun fuel (_ : Unit) => statementsFrom fuel) programRound
  block : IsLoop (fun fuel (_ : Unit) => blockTail fuel) blockRound
  alternatives : IsLoop (fun fuel (_ : Unit) => elseChain fuel) elseRound
  cases : IsLoop (fun fuel (_ : Unit) => caseList fuel) caseRound
  parameters : IsLoop (fun fuel (_ : Unit) => parameters fuel) fun _ => parameterRound
  arguments : IsLoop (fun fuel (_ : Unit) => arguments fuel) argumentRound
  spaced (start : Position) (callee : Expr) : IsLoop (fun fuel => spacedArguments fuel start callee)
    fun fuel => spacedRound fuel start callee
  elements : IsLoop (fun fuel (_ : Unit) => elements fuel) elementRound
  entries : IsLoop (fun fuel (_ : Unit) => entries fuel) entryRound
  operators (level : Nat) : IsLoop (fun fuel => operatorChain fuel level)
    fun fuel => operatorRound fuel level
  suffixes (touching : Bool) : IsLoop (fun fuel => suffixes fuel touching)
    fun fuel => suffixRound fuel touching

theorem loopsTakeTokens : LoopsTakeTokens where
  program := isLoop_statementsFrom
  block := isLoop_blockTail
  alternatives := isLoop_elseChain
  cases := isLoop_caseList
  parameters := isLoop_parameters
  arguments := isLoop_arguments
  spaced := isLoop_spacedArguments
  elements := isLoop_elements
  entries := isLoop_entries
  operators := isLoop_operatorChain
  suffixes := isLoop_suffixes

/-! ### Whole texts -/

/-- Sixteen units of fuel for each token are enough for all statements. -/
theorem statementsFrom_not_exhausted {fuel : Nat} {state : ParserState} (hstate : state.IsWhole)
    (hfuel : 16 * state.upcoming.length + 7 ≤ fuel) {error : ParseError}
    (herror : (statementsFrom fuel state).2 = some error) : ¬ error.IsExhausted := by
  induction fuel generalizing state with
  | zero => exact absurd hfuel (by omega)
  | succ fuel ih =>
      unfold statementsFrom at herror
      split at herror
      · cases herror
      · have hfirst := (rulesProgress fuel).statement state hstate False.elim
        revert hfirst herror
        cases statement fuel state with
        | ok first after =>
            intro herror hspent
            obtain ⟨hafter, htaken⟩ := hspent
            exact ih hafter (by omega) herror
        | error fault after =>
            intro herror hfault
            rw [← Option.some.inj herror]
            exact hfault (by omega)

end Parser

/-- A text without lexical faults has an end mark. -/
theorem TokenStream.exists_mark {source : String} {tokens : List Token}
    (h : ofSource source = ⟨tokens, none⟩) :
    ∃ initial mark, tokens = initial ++ [mark] ∧ mark.kind = .endOfInput := by
  obtain ⟨pieces, hpieces⟩ := tiles_iff.mp h
  obtain ⟨initial, mark, htokens, hmark, -⟩ := hpieces.exists_mark
  exact ⟨initial, mark, htokens, hmark⟩

theorem ParserState.isWhole_ofStream {source : String} {state : ParserState}
    (h : ofStream (.ofSource source) = .ok state) : state.IsWhole := by
  intro hfailure
  obtain ⟨htokens, -⟩ := of_ofStream h
  rw [hfailure] at htokens
  obtain ⟨initial, mark, hrow, hmark⟩ := TokenStream.exists_mark htokens
  have hlast : state.upcoming.getLastD state.current = mark := by
    have hwhole : (state.current :: state.upcoming).getLastD state.current = mark := by
      rw [hrow, List.getLastD_concat]
    rwa [List.getLastD_cons] at hwhole
  rw [hlast]
  exact hmark

theorem ParserState.not_exhausted_of_ofStream {source : String} {error : ParseError}
    (h : ofStream (.ofSource source) = .error error) : ¬ error.IsExhausted := by
  cases hstream : TokenStream.ofSource source with
  | mk tokens failure =>
      rw [hstream] at h
      unfold ofStream at h
      split at h
      · exact nomatch h
      · cases h
        exact id
      · next htokens hfailure =>
          dsimp only at htokens hfailure
          rw [htokens, hfailure] at hstream
          obtain ⟨initial, mark, hrow, -⟩ := TokenStream.exists_mark hstream
          exact absurd hrow (by simp)

theorem Program.parse_not_exhausted {source : String} {error : ParseError}
    (h : parse source = .error error) : ¬ error.IsExhausted := by
  have hpartial : (parsePartially source).2 = some error := by
    unfold parse at h
    split at h
    · exact nomatch h
    · next hpair =>
        rw [hpair, Except.error.inj h]
  unfold parsePartially at hpartial
  split at hpartial
  · next state hstream =>
      exact Parser.statementsFrom_not_exhausted (ParserState.isWhole_ofStream hstream)
        (by unfold Parser.fuelFor; omega) hpartial
  · next fault hstream =>
      rw [← Option.some.inj hpartial]
      exact ParserState.not_exhausted_of_ofStream hstream

open ScriptEngine.Parser

/-- **The parser ends on every text.** A text is parsed, or refused with an error that says why. A
statement or an expression that is found has consumed a token, wherever it was sought. In each loop
of the parser a round that goes on has consumed a token. Sixteen units of fuel for each token are
always enough. -/
theorem parsing_ends :
    (∀ source, (∃ program, Program.parse source = .ok program) ∨
      ∃ error, Program.parse source = .error error ∧ ¬ error.IsExhausted) ∧
    (∀ source state, ParserState.ofStream (.ofSource source) = .ok state → state.IsWhole) ∧
    (∀ fuel state found after, state.IsWhole → statement fuel state = .ok found after →
      after.IsWhole ∧ after.upcoming.length < state.upcoming.length) ∧
    (∀ fuel state found after, state.IsWhole → expression fuel state = .ok found after →
      after.IsWhole ∧ after.upcoming.length < state.upcoming.length) ∧
    LoopsTakeTokens ∧
    ∀ fuel state, state.IsWhole → 16 * (state.upcoming.length + 1) ≤ fuel →
      (∀ error after, statement fuel state = .error error after → ¬ error.IsExhausted) ∧
      (∀ error after, expression fuel state = .error error after → ¬ error.IsExhausted) ∧
      ∀ error, (statementsFrom fuel state).2 = some error → ¬ error.IsExhausted := by
  refine ⟨fun source => ?_, fun source state => ParserState.isWhole_ofStream,
    fun fuel state found after hstate hfound => ?_, fun fuel state found after hstate hfound => ?_,
    loopsTakeTokens, fun fuel state hstate hfuel => ⟨fun error after herror => ?_,
      fun error after herror => ?_, fun error => ?_⟩⟩
  · cases hparse : Program.parse source with
    | ok program => exact .inl ⟨program, rfl⟩
    | error error => exact .inr ⟨error, rfl, Program.parse_not_exhausted hparse⟩
  · have hends := (rulesProgress fuel).statement state hstate False.elim
    rw [hfound] at hends
    exact hends
  · have hends := (rulesProgress fuel).expression state hstate False.elim
    rw [hfound] at hends
    exact hends
  · have hends := (rulesProgress fuel).statement state hstate False.elim
    rw [herror] at hends
    exact hends (by omega)
  · have hends := (rulesProgress fuel).expression state hstate False.elim
    rw [herror] at hends
    exact hends (by omega)
  · exact statementsFrom_not_exhausted hstate (by omega)

/-- A text that breaks off inside a block. -/
theorem parsing_ends_truncated :
    ∃ state, ParserState.ofStream (.ofSource "if a \x7b b(") = .ok state ∧ state.IsWhole ∧
      ∃ error after, statement 96 state = .error error after ∧ ¬ error.IsExhausted := by
  obtain ⟨state, hstream, hlength, error, after, herror⟩ :
      ∃ state, ParserState.ofStream (.ofSource "if a \x7b b(") = .ok state ∧
        state.upcoming.length = 5 ∧ ∃ error after, statement 96 state = .error error after :=
    ⟨_, by cbv, rfl, _, _, by cbv⟩
  have hwhole := parsing_ends.2.1 _ state hstream
  have henough := parsing_ends.2.2.2.2.2 96 state hwhole (by omega)
  exact ⟨state, hstream, hwhole, error, after, herror, henough.1 error after herror⟩

end ScriptEngine
