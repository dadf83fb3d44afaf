import ScriptEngine.Proofs.Program.Joining

/-!
# How assignments are read

A statement that begins with a name is read as a chain, and is an assignment if an equals sign comes
next. If a bracket comes next that does not touch the chain, the statement is read as a call with an
array as its first argument. Should an equals sign follow that, the bracket is set behind the head
of the call after all. A head that is a call with arguments cannot be assigned to in this way. A head
that is a call without arguments is taken for its callee.
-/

namespace ScriptEngine

open ScriptEngine.Parser

/-! ### Targets -/

/-- The head of a call as it is split: the callee, and the arguments in parentheses. -/
def headParts : Expr → Expr × List Expr
  | .call _ callee arguments => (callee, arguments)
  | head => (head, [])

/-- The head without a call without arguments that it ends in. -/
def withoutEmptyCall : Expr → Expr
  | .call _ callee [] => callee
  | head => head

theorem headParts_of_nil {head : Expr} (h : (headParts head).2 = []) :
    (headParts head).1 = withoutEmptyCall head := by
  cases head with
  | call position callee arguments =>
      obtain rfl : arguments = [] := h
      rfl
  | _ => rfl

theorem withoutEmptyCall_bare (head : Expr) :
    (withoutEmptyCall head).bare = withoutEmptyCall head.bare := by
  cases head with
  | call position callee arguments => cases arguments <;> rfl
  | _ => rfl

section

variable {callee other argument target : Expr}

/-- Whether something can be set behind a head does not depend on the head. -/
theorem Parser.isSome_reattach (callee other argument : Expr) :
    (reattach callee argument).isSome = (reattach other argument).isSome := by
  fun_induction reattach callee argument with
  | case1 => rfl
  | case2 position object index ih =>
      rw [reattach, Option.isSome_map, Option.isSome_map]
      exact ih
  | case3 position object property ih =>
      rw [reattach, Option.isSome_map, Option.isSome_map]
      exact ih
  | case4 argument hsingle hindex hmember =>
      rw [reattach]
      · exact hsingle
      · exact hindex
      · exact hmember

theorem Parser.isAssignable_reattach (h : reattach callee argument = some target) :
    target.isAssignable := by
  fun_induction reattach callee argument with
  | case1 =>
      cases h
      rfl
  | case2 position object index ih =>
      obtain ⟨inner, -, rfl⟩ := Option.map_eq_some_iff.mp h
      rfl
  | case3 position object property ih =>
      obtain ⟨inner, -, rfl⟩ := Option.map_eq_some_iff.mp h
      rfl
  | case4 => cases h

/-- The head can be told from what was set behind it. -/
theorem Parser.reattach_injective (h : reattach callee argument = some target)
    (hother : reattach other argument = some target) : callee = other := by
  fun_induction reattach callee argument generalizing target with
  | case1 =>
      cases h
      cases hother
      rfl
  | case2 position object index ih =>
      obtain ⟨inner, hinner, rfl⟩ := Option.map_eq_some_iff.mp h
      obtain ⟨found, hfound, hsame⟩ := Option.map_eq_some_iff.mp hother
      obtain ⟨-, rfl, -⟩ := Expr.index.inj hsame
      exact ih hinner hfound
  | case3 position object property ih =>
      obtain ⟨inner, hinner, rfl⟩ := Option.map_eq_some_iff.mp h
      obtain ⟨found, hfound, hsame⟩ := Option.map_eq_some_iff.mp hother
      obtain ⟨-, rfl, -⟩ := Expr.member.inj hsame
      exact ih hinner hfound
  | case4 => cases h

theorem Parser.reattach_bare (h : reattach callee argument = some target) :
    reattach callee.bare argument.bare = some target.bare := by
  have hbare := reattach_relocate forgotten callee argument
  rwa [h] at hbare

end

/-- What can be set behind one head can be set behind any. -/
theorem Parser.exists_reattach {callee other argument beside target : Expr}
    (h : reattach callee argument = some target) (hbare : beside.bare = argument.bare) :
    ∃ joined, reattach other beside = some joined := by
  have hsome : (reattach callee.bare argument.bare).isSome := by
    rw [reattach_bare h]
    rfl
  rw [← hbare, isSome_reattach callee.bare other.bare, Expr.bare, Expr.bare, reattach_relocate]
    at hsome
  cases hjoined : reattach other beside with
  | none =>
      rw [hjoined] at hsome
      cases hsome
  | some joined => exact ⟨joined, rfl⟩

/-- A callee is smaller than its call. -/
theorem ne_call (callee : Expr) (position : Position) (arguments : List Expr) :
    callee ≠ .call position callee arguments := by
  intro h
  have hsize := congrArg sizeOf h
  simp only [Expr.call.sizeOf_spec] at hsize
  omega

/-- Only the call without arguments is lost. -/
theorem target_eq_iff {tree bracket target touching : Expr}
    (htouching : reattach tree.bare bracket.bare = some touching.bare)
    (htarget : reattach (withoutEmptyCall tree).bare bracket.bare = some target.bare) :
    target.bare = touching.bare ↔ ∀ position callee, tree ≠ .call position callee [] := by
  constructor
  · rintro hsame position callee rfl
    rw [hsame] at htarget
    exact ne_call callee.bare .first [] (reattach_injective htarget htouching)
  · intro hother
    have hwhole : withoutEmptyCall tree = tree := by
      unfold withoutEmptyCall
      split
      · next position callee => exact absurd rfl (hother position callee)
      · rfl
    rw [hwhole, htouching] at htarget
    exact (Option.some.inj htarget).symm

/-! ### Statements -/

namespace Parser

section

variable {fuel more : Nat} {state middle after : ParserState}

/-- Nothing is found at an equals sign. -/
theorem expression_ne_ok_of_equal (hkind : state.current.kind = .equal) {tree : Expr} :
    expression fuel state ≠ .ok tree after := by
  intro hrun
  obtain ⟨less, found, middle, hfound, -⟩ := expression_cases hrun (by rw [hkind]; rfl)
  cases less with
  | zero => cases hfound
  | succ less =>
      obtain ⟨head, second, hhead, -⟩ := exists_of_bind_ok hfound
      cases less with
      | zero => cases hhead
      | succ less =>
          rw [primary, bind_of_ok (current_eq state), hkind] at hhead
          cases hhead

theorem atStatementEnd_eq_false
    (hkind : state.current.kind = .leftBracket ∨ state.current.kind = .equal) :
    atStatementEnd state = .ok false state := by
  unfold atStatementEnd
  rw [bind_of_ok (current_eq state)]
  rcases hkind with hkind | hkind
  · rw [hkind]; rfl
  · rw [hkind]; rfl

theorem spacedArguments_ne_ok_of_equal (hkind : state.current.kind = .equal) {start : Position}
    {callee : Expr} {arguments : List Expr} {found : Stmt} :
    spacedArguments fuel start callee arguments state ≠ .ok found after := by
  intro hrun
  cases fuel with
  | zero => cases hrun
  | succ fuel =>
      rw [spacedArguments, bind_of_ok (atStatementEnd_eq_false (.inr hkind))] at hrun
      obtain ⟨argument, middle, hargument, -⟩ := exists_of_bind_ok hrun
      exact expression_ne_ok_of_equal hkind hargument

theorem assignment_cases {start : Position} {target : Expr} {found : Stmt}
    (hrun : assignment fuel start target state = .ok found after) :
    ∃ less value, fuel = less + 1 ∧ target.isAssignable ∧
      expression less state = .ok value after ∧ found = .assign start target value := by
  cases fuel with
  | zero => cases hrun
  | succ fuel =>
      rw [assignment] at hrun
      by_cases hassignable : target.isAssignable
      · rw [if_pos hassignable] at hrun
        obtain ⟨value, middle, hvalue, hlast⟩ := exists_of_bind_ok hrun
        cases hlast
        exact ⟨fuel, value, rfl, hassignable, hvalue, rfl⟩
      · rw [if_neg hassignable] at hrun
        cases hrun

theorem assignment_of_ok {start : Position} {target value : Expr} (htarget : target.isAssignable)
    (hvalue : expression fuel state = .ok value after) :
    assignment (fuel + 1) start target state = .ok (.assign start target value) after := by
  rw [assignment, if_pos htarget, bind_of_ok hvalue]
  rfl

/-- An assignment that began as a call has a bracket that is set behind a head without arguments. -/
theorem spacedArguments_cases {start place : Position} {callee tree target value : Expr}
    {arguments : List Expr} (hkind : state.current.kind = .leftBracket)
    (hchain : postfixChain more true state = .ok tree middle)
    (hstop : middle.current.kind = .equal)
    (hrun : spacedArguments fuel start callee arguments state =
      .ok (.assign place target value) after) :
    place = start ∧ arguments = [] ∧ reattach callee tree = some target ∧
      ∃ less passed inner, fuel = less + 2 ∧ advance middle = .ok passed inner ∧
        expression less inner = .ok value after := by
  cases fuel with
  | zero => cases hrun
  | succ fuel =>
      rw [spacedArguments, bind_of_ok (atStatementEnd_eq_false (.inl hkind))] at hrun
      obtain ⟨argument, second, hargument, hchecked⟩ := exists_of_bind_ok hrun
      obtain ⟨rfl, rfl⟩ := expression_of_postfixChain hkind hargument hchain hstop
      have hcheck : check .equal second = .ok true second := by
        change EStateM.Result.ok (second.current.kind == .equal) second = _
        rw [hstop]
        rfl
      rw [bind_of_ok hcheck] at hchecked
      cases arguments with
      | cons => exact absurd hchecked (spacedArguments_ne_ok_of_equal hstop)
      | nil =>
          cases hreattach : reattach callee argument with
          | none =>
              rw [hreattach] at hchecked
              exact absurd hchecked (spacedArguments_ne_ok_of_equal hstop)
          | some joined =>
              rw [hreattach] at hchecked
              obtain ⟨passed, inner, hadvance, hassignment⟩ := exists_of_bind_ok hchecked
              obtain ⟨less, found, rfl, -, hvalue, hsame⟩ := assignment_cases hassignment
              obtain ⟨rfl, rfl, rfl⟩ := Stmt.assign.inj hsame
              exact ⟨rfl, rfl, rfl, less, passed, inner, rfl, hadvance, hvalue⟩

theorem assignmentOrCall_of_call {head : Expr} (hhead : postfixChain fuel true state = .ok head middle)
    (hkind : middle.current.kind ≠ .equal) :
    assignmentOrCall (fuel + 1) state =
      spacedArguments fuel state.current.start (headParts head).1 (headParts head).2 middle := by
  rw [assignmentOrCall, bind_of_ok (current_eq state), bind_of_ok hhead,
    bind_of_ok (accept_of_ne hkind)]
  cases head <;> rfl

theorem assignmentOrCall_of_assignment {head : Expr} {passed : Token}
    (hhead : postfixChain fuel true state = .ok head middle) (hkind : middle.current.kind = .equal)
    (hadvance : advance middle = .ok passed after) :
    assignmentOrCall (fuel + 1) state = assignment fuel state.current.start head after := by
  rw [assignmentOrCall, bind_of_ok (current_eq state), bind_of_ok hhead,
    bind_of_ok (accept_of_eq hkind hadvance)]
  rfl

theorem modified_of_not {simple : Stmt} (h : isModifier state.current.kind = false) :
    modified (fuel + 1) simple state = .ok simple state := by
  rw [modified, bind_of_ok (current_eq state), h]
  rfl

theorem statement_of_name (hkind : state.current.kind = .identifier) :
    statement (fuel + 2) state = (assignmentOrCall fuel >>= fun simple =>
      modified (fuel + 1) simple >>= fun result =>
        expect .semicolon "';'" >>= fun _ => pure result) state := by
  have hsimple : simpleStatement (fuel + 1) state = assignmentOrCall fuel state := by
    rw [simpleStatement, bind_of_ok (current_eq state), hkind]
  rw [statement, bind_of_ok (current_eq state), hkind]
  dsimp only
  cases hfound : assignmentOrCall fuel state with
  | ok simple second =>
      rw [bind_of_ok (hsimple.trans hfound), bind_of_ok hfound]
  | error error second =>
      rw [bind_of_error (hsimple.trans hfound), bind_of_error hfound]

/-- A statement that begins with a name is an assignment if its simple part is, and a semicolon and
no modifier follows. -/
theorem statement_eq_assign_iff (hkind : state.current.kind = .identifier) {place : Position}
    {target value : Expr} :
    statement (fuel + 2) state = .ok (.assign place target value) after ↔ ∃ middle token,
      assignmentOrCall fuel state = .ok (.assign place target value) middle ∧
        isModifier middle.current.kind = false ∧
        expect .semicolon "';'" middle = .ok token after := by
  rw [statement_of_name hkind]
  constructor
  · intro hrun
    obtain ⟨simple, middle, hsimple, hmodified⟩ := exists_of_bind_ok hrun
    obtain ⟨result, second, hresult, hexpect⟩ := exists_of_bind_ok hmodified
    obtain ⟨token, last, htoken, hlast⟩ := exists_of_bind_ok hexpect
    cases hlast
    obtain ⟨hmodifier, rfl, rfl⟩ := modified_cases rfl hresult
    exact ⟨second, token, hsimple, hmodifier, htoken⟩
  · rintro ⟨middle, token, hsimple, hmodifier, htoken⟩
    rw [bind_of_ok hsimple, bind_of_ok (modified_of_not hmodifier), bind_of_ok htoken]
    rfl

theorem statementsFrom_eq_nil_iff :
    statementsFrom (fuel + 1) state = ([], none) ↔ state.current.kind = .endOfInput := by
  unfold statementsFrom
  by_cases hend : state.current.kind = .endOfInput
  · rw [if_pos hend]
    exact iff_of_true rfl hend
  · rw [if_neg hend]
    refine iff_of_false ?_ hend
    cases statement fuel state with
    | ok first after => exact fun h => List.cons_ne_nil _ _ (Prod.mk.inj h).1
    | error error after => exact fun h => Option.some_ne_none _ (Prod.mk.inj h).2

/-- A program of a single statement. -/
theorem statementsFrom_eq_single_iff {found : Stmt} (hkind : state.current.kind ≠ .endOfInput) :
    statementsFrom (fuel + 2) state = ([found], none) ↔ ∃ after,
      statement (fuel + 1) state = .ok found after ∧ after.current.kind = .endOfInput := by
  rw [statementsFrom, if_neg hkind]
  cases hfirst : statement (fuel + 1) state with
  | error error after =>
      constructor
      · intro h
        cases h
      · rintro ⟨_, h, -⟩
        cases h
  | ok first after =>
      dsimp only
      constructor
      · intro h
        obtain ⟨hstatements, herror⟩ := Prod.mk.inj h
        obtain ⟨rfl, hrest⟩ := List.cons.inj hstatements
        exact ⟨after, rfl, statementsFrom_eq_nil_iff.mp (Prod.ext hrest herror)⟩
      · rintro ⟨after, hsame, hend⟩
        cases hsame
        rw [statementsFrom_eq_nil_iff.mpr hend]

end

end Parser

/-- From an equals sign on there is a value, and nothing behind it but a semicolon. -/
def Parser.Assigns (fuel : Nat) (value : Expr) (state : ParserState) : Prop :=
  ∃ passed next middle token after, advance state = .ok passed next ∧
    expression fuel next = .ok value middle ∧ isModifier middle.current.kind = false ∧
    expect .semicolon "';'" middle = .ok token after ∧ after.current.kind = .endOfInput

/-- A program that begins with a name is an assignment if its simple statement is. -/
theorem Program.parse_eq_assign_iff {source : String} {state : ParserState} {fuel : Nat}
    {place : Position} {target value : Expr}
    (hstream : ParserState.ofStream (.ofSource source) = .ok state)
    (hkind : state.current.kind = .identifier) (hfuel : fuelFor state = fuel + 3) :
    Program.parse source = .ok [.assign place target value] ↔ ∃ middle token after,
      assignmentOrCall fuel state = .ok (.assign place target value) middle ∧
        isModifier middle.current.kind = false ∧ expect .semicolon "';'" middle = .ok token after ∧
        after.current.kind = .endOfInput := by
  rw [Program.parse_eq_ok_iff, Program.parsePartially, hstream]
  dsimp only
  rw [hfuel, statementsFrom_eq_single_iff (by rw [hkind]; decide)]
  constructor
  · rintro ⟨after, hstatement, hend⟩
    obtain ⟨middle, token, hsimple, hmodifier, htoken⟩ := (statement_eq_assign_iff hkind).mp hstatement
    exact ⟨middle, token, after, hsimple, hmodifier, htoken, hend⟩
  · rintro ⟨middle, token, after, hsimple, hmodifier, htoken, hend⟩
    exact ⟨after, (statement_eq_assign_iff hkind).mpr ⟨middle, token, hsimple, hmodifier, htoken⟩, hend⟩

/-- What is assigned is the same wherever it stands. -/
theorem Parser.Assigns.of_matches {fuel : Nat} {value : Expr} {state other : ParserState}
    (h : Assigns fuel value state) (hmatches : Matches forgotten forgotten True state other) :
    ∃ assigned, Assigns (fuel + 1) assigned other ∧ assigned.bare = value.bare := by
  obtain ⟨passed, next, middle, token, after, hadvance, hvalue, hmodifier, htoken, hend⟩ := h
  have hrule := (rulesParallel forgotten forgotten True (Nat.le_succ fuel)).expression
  obtain ⟨_, otherNext, hfirst, -, hnext⟩ := Parallel.advance.exists_ok hmatches hadvance
  obtain ⟨assigned, otherMiddle, hsecond, hsame, hmiddle⟩ := hrule.exists_ok hnext hvalue
  obtain ⟨_, otherAfter, hthird, -, hafter⟩ := (parallel_expect _ _).exists_ok hmiddle htoken
  rw [hmiddle.current_corresponds.kind] at hmodifier
  rw [hafter.current_corresponds.kind] at hend
  exact ⟨assigned, ⟨_, otherNext, otherMiddle, _, otherAfter, hfirst, hsecond, hmodifier, hthird,
    hend⟩, hsame.symm⟩

end ScriptEngine
