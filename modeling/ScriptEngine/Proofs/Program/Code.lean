import ScriptEngine.Value.Heap

/-!
# Code

Expressions and statements with the code that they consist of. The body of a sub or block is no part
of the code around it: it is part of the callable that the code makes.
-/

namespace ScriptEngine

/-- An expression or a statement. -/
inductive Code
  | expression (expression : Expr)
  | statement (statement : Stmt)

namespace Code

def ofExpressions (expressions : List Expr) : List Code :=
  expressions.map expression

def ofBody (body : List Stmt) : List Code :=
  body.map statement

def ofOptional (expression : Option Expr) : List Code :=
  ofExpressions expression.toList

def ofEntries (entries : List Entry) : List Code :=
  entries.flatMap fun entry => [expression entry.key, expression entry.value]

def ofBranches (branches : List Branch) : List Code :=
  branches.flatMap fun branch => expression branch.condition :: ofBody branch.body

def ofFallback (fallback : Option (List Stmt)) : List Code :=
  ofBody (fallback.getD [])

@[simp]
theorem ofExpressions_cons (head : Expr) (rest : List Expr) :
    ofExpressions (head :: rest) = expression head :: ofExpressions rest := rfl

@[simp]
theorem ofEntries_cons (entry : Entry) (rest : List Entry) :
    ofEntries (entry :: rest) =
      expression entry.key :: expression entry.value :: ofEntries rest := rfl

@[simp]
theorem ofBranches_cons (branch : Branch) (rest : List Branch) :
    ofBranches (branch :: rest) =
      expression branch.condition :: ofBody branch.body ++ ofBranches rest := rfl

end Code

/-- What is evaluated for an expression. -/
def Expr.parts : Expr → List Code
  | .number _ _ => []
  | .string _ _ => []
  | .boolean _ _ => []
  | .nil _ => []
  | .array _ elements => Code.ofExpressions elements
  | .hash _ entries => Code.ofEntries entries
  | .name _ _ => []
  | .index _ object place => [.expression object, .expression place]
  | .member _ object _ => [.expression object]
  | .call _ callee arguments => .expression callee :: Code.ofExpressions arguments
  | .unary _ _ operand => [.expression operand]
  | .binary _ _ left right => [.expression left, .expression right]
  | .block _ _ => []
  | .function _ _ _ => []
  | .step _ _ target amount => .expression target :: Code.ofOptional amount

/-- What is evaluated and executed for a statement. -/
def Stmt.parts : Stmt → List Code
  | .declare _ _ value => Code.ofOptional value
  | .sub _ _ _ _ => []
  | .conditional _ _ condition body alternatives fallback =>
    .expression condition :: Code.ofBody body ++ Code.ofBranches alternatives ++
      Code.ofFallback fallback
  | .loop _ _ condition body => .expression condition :: Code.ofBody body
  | .postLoop _ _ body condition => .expression condition :: Code.ofBody body
  | .each _ _ iterable body => .expression iterable :: Code.ofBody body
  | .choose _ cases fallback => Code.ofBranches cases ++ Code.ofFallback fallback
  | .compare _ subject cases fallback =>
    .expression subject :: Code.ofBranches cases ++ Code.ofFallback fallback
  | .call _ callee arguments => .expression callee :: Code.ofExpressions arguments
  | .returns _ value => Code.ofOptional value
  | .assign _ target value => [.expression target, .expression value]
  | .breaks _ => []
  | .next _ => []
  | .step _ _ target amount => .expression target :: Code.ofOptional amount

def Code.parts : Code → List Code
  | .expression tree => tree.parts
  | .statement tree => tree.parts

/-- The callable that code makes of a body in it. -/
def Code.made? : Code → Option Callable
  | .expression (.block _ body) => some (.block body)
  | .expression (.function _ parameters body) => some (.sub none parameters body)
  | .statement (.sub _ name parameters body) => some (.sub (some name) parameters body)
  | _ => none

def Callable.parts : Callable → List Code
  | sub _ _ body => Code.ofBody body
  | block body => [.expression body]
  | native _ => []

/-- The name that a statement binds in the innermost frame. -/
def Stmt.declaredName? : Stmt → Option String
  | .declare _ name _ => some name
  | .sub _ name _ _ => some name
  | .each _ name _ _ => some name
  | _ => none

/-- The member that a statement gives a value. -/
def Stmt.assignedMember? : Stmt → Option String
  | .assign _ (.member _ _ property) _ => some property
  | _ => none

end ScriptEngine
