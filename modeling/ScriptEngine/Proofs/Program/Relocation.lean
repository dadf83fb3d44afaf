import ScriptEngine.Program.Tree

/-!
# Places in programs

A program with all of its places moved. Two programs are the same up to their places if they are
equal after all places have been forgotten.
-/

namespace ScriptEngine

section

variable (move : Position → Position)

mutual

/-- The expression with each place moved. -/
def Expr.relocate : Expr → Expr
  | .number position value => .number (move position) value
  | .string position value => .string (move position) value
  | .boolean position value => .boolean (move position) value
  | .nil position => .nil (move position)
  | .array position elements => .array (move position) (Expr.relocateAll elements)
  | .hash position entries => .hash (move position) (Entry.relocateAll entries)
  | .name position name => .name (move position) name
  | .index position object index => .index (move position) object.relocate index.relocate
  | .member position object property => .member (move position) object.relocate property
  | .call position callee arguments =>
    .call (move position) callee.relocate (Expr.relocateAll arguments)
  | .unary position operator operand => .unary (move position) operator operand.relocate
  | .binary position operator left right =>
    .binary (move position) operator left.relocate right.relocate
  | .block position body => .block (move position) body.relocate
  | .function position parameters body =>
    .function (move position) parameters (Stmt.relocateAll body)
  | .step position direction target amount =>
    .step (move position) direction target.relocate (Expr.relocateOptional amount)

def Expr.relocateAll : List Expr → List Expr
  | [] => []
  | expression :: rest => expression.relocate :: Expr.relocateAll rest

def Expr.relocateOptional : Option Expr → Option Expr
  | none => none
  | some expression => some expression.relocate

def Entry.relocateAll : List Entry → List Entry
  | [] => []
  | .mk key value :: rest => .mk key.relocate value.relocate :: Entry.relocateAll rest

def Stmt.relocate : Stmt → Stmt
  | .declare position name value => .declare (move position) name (Expr.relocateOptional value)
  | .sub position name parameters body =>
    .sub (move position) name parameters (Stmt.relocateAll body)
  | .conditional position sense condition body alternatives fallback =>
    .conditional (move position) sense condition.relocate (Stmt.relocateAll body)
      (Branch.relocateAll alternatives) (Stmt.relocateFallback fallback)
  | .loop position sense condition body =>
    .loop (move position) sense condition.relocate (Stmt.relocateAll body)
  | .postLoop position sense body condition =>
    .postLoop (move position) sense (Stmt.relocateAll body) condition.relocate
  | .each position name iterable body =>
    .each (move position) name iterable.relocate (Stmt.relocateAll body)
  | .choose position cases fallback =>
    .choose (move position) (Branch.relocateAll cases) (Stmt.relocateFallback fallback)
  | .compare position subject cases fallback =>
    .compare (move position) subject.relocate (Branch.relocateAll cases)
      (Stmt.relocateFallback fallback)
  | .call position callee arguments =>
    .call (move position) callee.relocate (Expr.relocateAll arguments)
  | .returns position value => .returns (move position) (Expr.relocateOptional value)
  | .assign position target value => .assign (move position) target.relocate value.relocate
  | .breaks position => .breaks (move position)
  | .next position => .next (move position)
  | .step position direction target amount =>
    .step (move position) direction target.relocate (Expr.relocateOptional amount)

def Stmt.relocateAll : List Stmt → List Stmt
  | [] => []
  | statement :: rest => statement.relocate :: Stmt.relocateAll rest

def Branch.relocateAll : List Branch → List Branch
  | [] => []
  | .mk condition body :: rest =>
    .mk condition.relocate (Stmt.relocateAll body) :: Branch.relocateAll rest

def Stmt.relocateFallback : Option (List Stmt) → Option (List Stmt)
  | none => none
  | some body => some (Stmt.relocateAll body)

end

end

/-! ### Places forgotten -/

def Expr.bare (expression : Expr) : Expr :=
  expression.relocate fun _ => .first

def Expr.bareAll (expressions : List Expr) : List Expr :=
  Expr.relocateAll (fun _ => .first) expressions

def Expr.bareOptional (expression : Option Expr) : Option Expr :=
  Expr.relocateOptional (fun _ => .first) expression

def Entry.bareAll (entries : List Entry) : List Entry :=
  Entry.relocateAll (fun _ => .first) entries

def Stmt.bare (statement : Stmt) : Stmt :=
  statement.relocate fun _ => .first

def Branch.bareAll (branches : List Branch) : List Branch :=
  Branch.relocateAll (fun _ => .first) branches

def Stmt.bareFallback (body : Option (List Stmt)) : Option (List Stmt) :=
  Stmt.relocateFallback (fun _ => .first) body

/-- The program with all places forgotten. -/
def Program.bare (program : Program) : Program :=
  Stmt.relocateAll (fun _ => .first) program

namespace Expr

variable {move : Position → Position}

theorem relocateAll_append (expressions others : List Expr) :
    relocateAll move (expressions ++ others) =
      relocateAll move expressions ++ relocateAll move others := by
  induction expressions with
  | nil => rfl
  | cons expression rest ih =>
      rw [List.cons_append, relocateAll, ih, relocateAll, List.cons_append]

theorem position_relocate (expression : Expr) :
    (expression.relocate move).position = move expression.position := by
  cases expression <;> rfl

theorem isAssignable_relocate (expression : Expr) :
    (expression.relocate move).isAssignable = expression.isAssignable := by
  cases expression <;> rfl

theorem isAssignable_of_bare_eq {left right : Expr} (h : left.bare = right.bare) :
    left.isAssignable = right.isAssignable := by
  rw [← isAssignable_relocate left, ← isAssignable_relocate right]
  exact congrArg isAssignable h

theorem eq_name_of_bare_eq {expression : Expr} {name : String}
    (h : expression.bare = .name .first name) : ∃ position, expression = .name position name := by
  cases expression with
  | name position other => exact ⟨position, congrArg _ (Expr.name.inj h).2⟩
  | _ => exact Expr.noConfusion h

theorem eq_call_of_bare_eq {expression callee : Expr} {arguments : List Expr}
    (h : expression.bare = .call .first callee arguments) :
    ∃ position head others, expression = .call position head others ∧ head.bare = callee ∧
      bareAll others = arguments := by
  cases expression with
  | call position head others => exact ⟨position, head, others, rfl, (Expr.call.inj h).2⟩
  | _ => exact Expr.noConfusion h

end Expr

theorem Stmt.position_relocate {move : Position → Position} (statement : Stmt) :
    (statement.relocate move).position = move statement.position := by
  cases statement <;> rfl

/-! ### Moving twice, and not at all -/

section

variable (move after : Position → Position)

mutual

theorem Expr.relocate_relocate : ∀ expression : Expr,
    (expression.relocate move).relocate after = expression.relocate (after ∘ move)
  | .number _ _ => rfl
  | .string _ _ => rfl
  | .boolean _ _ => rfl
  | .nil _ => rfl
  | .array position elements => by
    simp only [Expr.relocate, Function.comp_apply, Expr.relocateAll_relocateAll elements]
  | .hash position entries => by
    simp only [Expr.relocate, Function.comp_apply, Entry.relocateAll_relocateAll entries]
  | .name _ _ => rfl
  | .index position object index => by
    simp only [Expr.relocate, Function.comp_apply, Expr.relocate_relocate object,
      Expr.relocate_relocate index]
  | .member position object property => by
    simp only [Expr.relocate, Function.comp_apply, Expr.relocate_relocate object]
  | .call position callee arguments => by
    simp only [Expr.relocate, Function.comp_apply, Expr.relocate_relocate callee,
      Expr.relocateAll_relocateAll arguments]
  | .unary position operator operand => by
    simp only [Expr.relocate, Function.comp_apply, Expr.relocate_relocate operand]
  | .binary position operator left right => by
    simp only [Expr.relocate, Function.comp_apply, Expr.relocate_relocate left,
      Expr.relocate_relocate right]
  | .block position body => by
    simp only [Expr.relocate, Function.comp_apply, Expr.relocate_relocate body]
  | .function position parameters body => by
    simp only [Expr.relocate, Function.comp_apply, Stmt.relocateAll_relocateAll body]
  | .step position direction target amount => by
    simp only [Expr.relocate, Function.comp_apply, Expr.relocate_relocate target,
      Expr.relocateOptional_relocateOptional amount]

theorem Expr.relocateAll_relocateAll : ∀ expressions : List Expr,
    Expr.relocateAll after (Expr.relocateAll move expressions) =
      Expr.relocateAll (after ∘ move) expressions
  | [] => rfl
  | expression :: rest => by
    simp only [Expr.relocateAll, Expr.relocate_relocate expression,
      Expr.relocateAll_relocateAll rest]

theorem Expr.relocateOptional_relocateOptional : ∀ expression : Option Expr,
    Expr.relocateOptional after (Expr.relocateOptional move expression) =
      Expr.relocateOptional (after ∘ move) expression
  | none => rfl
  | some expression => by
    simp only [Expr.relocateOptional, Expr.relocate_relocate expression]

theorem Entry.relocateAll_relocateAll : ∀ entries : List Entry,
    Entry.relocateAll after (Entry.relocateAll move entries) =
      Entry.relocateAll (after ∘ move) entries
  | [] => rfl
  | .mk key value :: rest => by
    simp only [Entry.relocateAll, Expr.relocate_relocate key, Expr.relocate_relocate value,
      Entry.relocateAll_relocateAll rest]

theorem Stmt.relocate_relocate : ∀ statement : Stmt,
    (statement.relocate move).relocate after = statement.relocate (after ∘ move)
  | .declare position name value => by
    simp only [Stmt.relocate, Function.comp_apply, Expr.relocateOptional_relocateOptional value]
  | .sub position name parameters body => by
    simp only [Stmt.relocate, Function.comp_apply, Stmt.relocateAll_relocateAll body]
  | .conditional position sense condition body alternatives fallback => by
    simp only [Stmt.relocate, Function.comp_apply, Expr.relocate_relocate condition,
      Stmt.relocateAll_relocateAll body, Branch.relocateAll_relocateAll alternatives,
      Stmt.relocateFallback_relocateFallback fallback]
  | .loop position sense condition body => by
    simp only [Stmt.relocate, Function.comp_apply, Expr.relocate_relocate condition,
      Stmt.relocateAll_relocateAll body]
  | .postLoop position sense body condition => by
    simp only [Stmt.relocate, Function.comp_apply, Expr.relocate_relocate condition,
      Stmt.relocateAll_relocateAll body]
  | .each position name iterable body => by
    simp only [Stmt.relocate, Function.comp_apply, Expr.relocate_relocate iterable,
      Stmt.relocateAll_relocateAll body]
  | .choose position cases fallback => by
    simp only [Stmt.relocate, Function.comp_apply, Branch.relocateAll_relocateAll cases,
      Stmt.relocateFallback_relocateFallback fallback]
  | .compare position subject cases fallback => by
    simp only [Stmt.relocate, Function.comp_apply, Expr.relocate_relocate subject,
      Branch.relocateAll_relocateAll cases, Stmt.relocateFallback_relocateFallback fallback]
  | .call position callee arguments => by
    simp only [Stmt.relocate, Function.comp_apply, Expr.relocate_relocate callee,
      Expr.relocateAll_relocateAll arguments]
  | .returns position value => by
    simp only [Stmt.relocate, Function.comp_apply, Expr.relocateOptional_relocateOptional value]
  | .assign position target value => by
    simp only [Stmt.relocate, Function.comp_apply, Expr.relocate_relocate target,
      Expr.relocate_relocate value]
  | .breaks _ => rfl
  | .next _ => rfl
  | .step position direction target amount => by
    simp only [Stmt.relocate, Function.comp_apply, Expr.relocate_relocate target,
      Expr.relocateOptional_relocateOptional amount]

theorem Stmt.relocateAll_relocateAll : ∀ statements : List Stmt,
    Stmt.relocateAll after (Stmt.relocateAll move statements) =
      Stmt.relocateAll (after ∘ move) statements
  | [] => rfl
  | statement :: rest => by
    simp only [Stmt.relocateAll, Stmt.relocate_relocate statement,
      Stmt.relocateAll_relocateAll rest]

theorem Branch.relocateAll_relocateAll : ∀ branches : List Branch,
    Branch.relocateAll after (Branch.relocateAll move branches) =
      Branch.relocateAll (after ∘ move) branches
  | [] => rfl
  | .mk condition body :: rest => by
    simp only [Branch.relocateAll, Expr.relocate_relocate condition,
      Stmt.relocateAll_relocateAll body, Branch.relocateAll_relocateAll rest]

theorem Stmt.relocateFallback_relocateFallback : ∀ body : Option (List Stmt),
    Stmt.relocateFallback after (Stmt.relocateFallback move body) =
      Stmt.relocateFallback (after ∘ move) body
  | none => rfl
  | some body => by
    simp only [Stmt.relocateFallback, Stmt.relocateAll_relocateAll body]

end

end

end ScriptEngine
