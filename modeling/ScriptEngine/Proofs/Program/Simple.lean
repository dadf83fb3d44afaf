import ScriptEngine.Proofs.Program.Chains
import ScriptEngine.Proofs.Program.Statements

/-!
# How simple statements are found

Only one rule finds simple statements: the one that ends them with a semicolon. So the parts of such
a statement can be told from the whole. Whatever a rule finds begins with a token that opens it, and
no statement begins with anything else.
-/

namespace ScriptEngine

/-- A statement of one of the forms that end with a semicolon and take a modifier before it. -/
def Stmt.isSimple : Stmt → Bool
  | .returns _ _ | .breaks _ | .next _ | .step _ _ _ _ | .assign _ _ _ | .call _ _ _ => true
  | _ => false

namespace Parser

/-! ### What is found from a state -/

/-- Whatever the parser finds from a state, and where it stops, has the property. -/
def Finds {α : Type} (parser : Parser α) (state : ParserState) (holds : α → ParserState → Prop) :
    Prop :=
  ∀ value after, parser state = .ok value after → holds value after

namespace Finds

variable {α β : Type} {state : ParserState} {holds : α → ParserState → Prop}

theorem pure {value : α} (h : holds value state) : Finds (pure value) state holds := by
  intro found after hrun
  cases hrun
  exact h

theorem throw (error : ParseError) : Finds (throw error) state holds :=
  fun _ _ hrun => nomatch hrun

theorem unexpected (expected : String) : Finds (unexpected expected) state holds :=
  fun _ _ hrun => nomatch hrun

theorem exhausted : Finds exhausted state holds :=
  fun _ _ hrun => nomatch hrun

theorem current {next : Token → Parser α} (h : Finds (next state.current) state holds) :
    Finds (Parser.current >>= next) state holds :=
  h

/-- What comes last decides. -/
theorem after {parser : Parser β} {next : β → Parser α}
    (h : ∀ value middle, Finds (next value) middle holds) :
    Finds (parser >>= next) state holds := by
  intro value after hrun
  obtain ⟨first, middle, -, hrest⟩ := exists_of_bind_ok hrun
  exact h first middle value after hrest

/-- What comes first decides. -/
theorem before {parser : Parser β} {next : β → Parser α} {known : Prop}
    (h : Finds parser state fun _ _ => known) : Finds (parser >>= next) state fun _ _ => known := by
  intro value after hrun
  obtain ⟨first, middle, hfirst, -⟩ := exists_of_bind_ok hrun
  exact h first middle hfirst

end Finds

/-! ### Compound statements and declarations -/

section

variable {state : ParserState}

theorem finds_conditional (fuel : Nat) (sense : Sense) :
    Finds (conditional fuel sense) state fun found _ => found.isSimple = false := by
  cases fuel with
  | zero => exact .exhausted
  | succ fuel =>
      exact .after fun _ _ => .after fun _ _ => .after fun _ _ => .after fun _ _ => .pure rfl

theorem finds_loop (fuel : Nat) (sense : Sense) :
    Finds (loop fuel sense) state fun found _ => found.isSimple = false := by
  cases fuel with
  | zero => exact .exhausted
  | succ fuel => exact .after fun _ _ => .after fun _ _ => .after fun _ _ => .pure rfl

theorem finds_postLoop (fuel : Nat) :
    Finds (postLoop fuel) state fun found _ => found.isSimple = false := by
  cases fuel with
  | zero => exact .exhausted
  | succ fuel =>
      refine .after fun _ _ => .after fun _ _ => .after fun isWhile _ => ?_
      split
      · exact .after fun _ _ => .pure rfl
      · exact .after fun _ _ => .after fun _ _ => .pure rfl

theorem finds_each (fuel : Nat) :
    Finds (each fuel) state fun found _ => found.isSimple = false := by
  cases fuel with
  | zero => exact .exhausted
  | succ fuel =>
      refine .after fun _ _ => .after fun head _ => .after fun isNamed _ => ?_
      split
      · split
        · exact .after fun _ _ => .after fun _ _ => .pure rfl
        · exact .throw _
      · exact .after fun _ _ => .pure rfl

theorem finds_sub (fuel : Nat) :
    Finds (sub fuel) state fun found _ => found.isSimple = false := by
  cases fuel with
  | zero => exact .exhausted
  | succ fuel =>
      refine .after fun _ _ => .after fun _ _ => .after fun hasParameters _ => ?_
      split
      · exact .after fun _ _ => .after fun _ _ => .pure rfl
      · exact .after fun _ _ => .pure rfl

theorem finds_declaration (fuel : Nat) :
    Finds (declaration fuel) state fun found _ => found.isSimple = false := by
  cases fuel with
  | zero => exact .exhausted
  | succ fuel =>
      refine .after fun _ _ => .after fun _ _ => .after fun hasValue _ => ?_
      split
      · exact .after fun _ _ => .pure rfl
      · exact .pure rfl

theorem finds_choice (fuel : Nat) :
    Finds (choice fuel) state fun found _ => found.isSimple = false := by
  cases fuel with
  | zero => exact .exhausted
  | succ fuel =>
      refine .after fun _ _ => .after fun bare _ => ?_
      split
      · exact .after fun _ _ => .after fun _ _ => .pure rfl
      · exact .after fun _ _ => .after fun _ _ => .after fun _ _ => .pure rfl

end

/-! ### The rule of simple statements -/

theorem isSimple_guardedBy (kind : TokenKind) (simple : Stmt) (condition : Expr) :
    (guardedBy kind simple condition).isSimple = false := by
  unfold guardedBy
  split <;> rfl

/-- The rule for a statement without a keyword of its own. -/
def plainStatement (fuel : Nat) : Parser Stmt :=
  simpleStatement fuel >>= fun simple => modified fuel simple >>= fun result =>
    expect .semicolon "';'" >>= fun _ => pure result

/-- A simple statement, found on its own, in front of the semicolon that ends it. -/
def EndsSimply (fuel : Nat) (state : ParserState) (found : Stmt) (after : ParserState) : Prop :=
  found.isSimple → ∃ middle token, simpleStatement fuel state = .ok found middle ∧
    middle.current.kind = .semicolon ∧ advance middle = .ok token after

section

variable {fuel : Nat} {state after : ParserState}

/-- A simple statement has no modifier. -/
theorem modified_cases {simple found : Stmt} (hfound : found.isSimple)
    (hrun : modified fuel simple state = .ok found after) :
    isModifier state.current.kind = false ∧ simple = found ∧ after = state := by
  cases fuel with
  | zero => cases hrun
  | succ fuel =>
      rw [modified, bind_of_ok (current_eq state)] at hrun
      by_cases hmodifier : isModifier state.current.kind
      · rw [if_pos hmodifier] at hrun
        obtain ⟨passed, inner, -, hcondition⟩ := exists_of_bind_ok hrun
        obtain ⟨condition, last, -, hlast⟩ := exists_of_bind_ok hcondition
        obtain rfl := (EStateM.Result.ok.inj hlast).1
        exact absurd hfound (Bool.eq_false_iff.mp (isSimple_guardedBy _ _ _))
      · rw [if_neg hmodifier] at hrun
        cases hrun
        exact ⟨Bool.eq_false_iff.mpr hmodifier, rfl, rfl⟩

theorem Finds.endsSimply {parser : Parser Stmt}
    (h : Finds parser state fun found _ => found.isSimple = false) :
    Finds parser state (EndsSimply fuel state) :=
  fun value after hrun hsimple => absurd hsimple (Bool.eq_false_iff.mp (h value after hrun))

theorem Finds.closed {parser : Parser Stmt} {expected : String}
    (h : Finds parser state fun found _ => found.isSimple = false) :
    Finds (parser >>= fun value => expect .semicolon expected >>= fun _ => Pure.pure value) state
      fun found _ => found.isSimple = false := by
  intro value after hrun
  obtain ⟨first, middle, hfirst, hrest⟩ := exists_of_bind_ok hrun
  obtain ⟨_, _, -, hlast⟩ := exists_of_bind_ok hrest
  cases hlast
  exact h _ middle hfirst

theorem finds_plainStatement (fuel : Nat) :
    Finds (plainStatement fuel) state (EndsSimply fuel state) := by
  intro found after hrun hfound
  obtain ⟨simple, middle, hsimple, hrest⟩ := exists_of_bind_ok hrun
  obtain ⟨result, second, hresult, hexpect⟩ := exists_of_bind_ok hrest
  obtain ⟨token, last, htoken, hlast⟩ := exists_of_bind_ok hexpect
  cases hlast
  obtain ⟨-, rfl, rfl⟩ := modified_cases hfound hresult
  exact ⟨second, token, hsimple, (expect_eq_ok.mp htoken).1, (expect_eq_ok.mp htoken).2⟩

/-- A statement that is simple was found by the rule of simple statements, and ends there. -/
theorem finds_statement (fuel : Nat) :
    Finds (statement (fuel + 1)) state (EndsSimply fuel state) := by
  refine .current ?_
  split
  · exact (finds_conditional _ _).endsSimply
  · exact (finds_conditional _ _).endsSimply
  · exact (finds_loop _ _).endsSimply
  · exact (finds_loop _ _).endsSimply
  · exact (finds_each _).endsSimply
  · exact (finds_sub _).endsSimply
  · exact (finds_choice _).endsSimply
  · exact (finds_postLoop _).closed.endsSimply
  · exact (finds_declaration _).closed.endsSimply
  · exact finds_plainStatement fuel

/-! ### First tokens -/

theorem finds_primary (fuel : Nat) :
    Finds (primary fuel) state fun _ _ => opensSimple state.current.kind := by
  cases fuel with
  | zero => exact .exhausted
  | succ fuel =>
      refine .current ?_
      split
      case h_12 => exact .unexpected _
      all_goals
        rename_i hkind
        rw [hkind]
        exact fun _ _ _ => rfl

/-- What a simple statement begins with opens one. -/
theorem finds_simpleStatement (fuel : Nat) :
    Finds (simpleStatement fuel) state fun _ _ => opensSimple state.current.kind := by
  cases fuel with
  | zero => exact .exhausted
  | succ fuel =>
      refine .current ?_
      split
      case h_6 =>
        cases fuel with
        | zero => exact .exhausted
        | succ fuel =>
            refine .current (.before ?_)
            cases fuel with
            | zero => exact .exhausted
            | succ fuel => exact (finds_primary fuel).before
      all_goals
        rename_i hkind
        rw [hkind]
        exact fun _ _ _ => rfl

/-- What a statement begins with opens one. -/
theorem finds_opensStatement (fuel : Nat) :
    Finds (statement fuel) state fun _ _ => opensStatement state.current.kind := by
  cases fuel with
  | zero => exact .exhausted
  | succ fuel =>
      refine .current ?_
      split
      case h_10 =>
        exact .before fun simple middle hsimple =>
          opensStatement_of_opensSimple (finds_simpleStatement fuel simple middle hsimple)
      all_goals
        rename_i hkind
        rw [hkind]
        exact fun _ _ _ => rfl

theorem statement_of_opensSimple (hkind : opensSimple state.current.kind) :
    statement (fuel + 1) state = plainStatement fuel state := by
  rw [statement, bind_of_ok (current_eq state)]
  generalize state.current.kind = kind at hkind
  cases kind
  all_goals first
    | exact absurd hkind Bool.false_ne_true
    | rfl

end

end Parser

end ScriptEngine
