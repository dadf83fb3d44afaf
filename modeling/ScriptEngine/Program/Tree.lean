import ScriptEngine.Number.Basic
import ScriptEngine.Source.Position

namespace ScriptEngine

inductive BinaryOperator
  | add
  | subtract
  | multiply
  | divide
  | modulo
  | equal
  | notEqual
  | less
  | lessEqual
  | greater
  | greaterEqual
  | and
  | or
deriving DecidableEq, Repr

def BinaryOperator.spelling : BinaryOperator → String
  | add => "+"
  | subtract => "-"
  | multiply => "*"
  | divide => "/"
  | modulo => "%"
  | equal => "=="
  | notEqual => "!="
  | less => "<"
  | lessEqual => "<="
  | greater => ">"
  | greaterEqual => ">="
  | and => "&"
  | or => "|"

inductive UnaryOperator
  | not
  | negate
deriving DecidableEq, Repr

def UnaryOperator.spelling : UnaryOperator → String
  | not => "!"
  | negate => "-"

/-- Which truth value of a condition lets the guarded body run. -/
inductive Sense
  | whenTrue
  | whenFalse
deriving DecidableEq, Repr

/-- Whether `inc` or `dec` was written. -/
inductive Direction
  | up
  | down
deriving DecidableEq, Repr

mutual

/-- An expression, each node with the place where it starts. `block` is the one-argument callable
written in braces; `function` has named parameters and no written form. -/
inductive Expr
  | number (position : Position) (value : Number)
  | string (position : Position) (value : String)
  | boolean (position : Position) (value : Bool)
  | nil (position : Position)
  | array (position : Position) (elements : List Expr)
  | hash (position : Position) (entries : List Entry)
  | name (position : Position) (name : String)
  | index (position : Position) (object index : Expr)
  | member (position : Position) (object : Expr) (property : String)
  | call (position : Position) (callee : Expr) (arguments : List Expr)
  | unary (position : Position) (operator : UnaryOperator) (operand : Expr)
  | binary (position : Position) (operator : BinaryOperator) (left right : Expr)
  | block (position : Position) (body : Expr)
  | function (position : Position) (parameters : List String) (body : List Stmt)
  | step (position : Position) (direction : Direction) (target : Expr) (amount : Option Expr)

/-- A key of a hash literal and its value. -/
inductive Entry
  | mk (key value : Expr)

/-- A statement. `conditional` covers `if` and `unless`, `loop` covers `while` and `until`, and
`postLoop` their forms with the body in front. -/
inductive Stmt
  | declare (position : Position) (name : String) (value : Option Expr)
  | sub (position : Position) (name : String) (parameters : List String) (body : List Stmt)
  | conditional (position : Position) (sense : Sense) (condition : Expr) (body : List Stmt)
      (alternatives : List Branch) (fallback : Option (List Stmt))
  | loop (position : Position) (sense : Sense) (condition : Expr) (body : List Stmt)
  | postLoop (position : Position) (sense : Sense) (body : List Stmt) (condition : Expr)
  | each (position : Position) (name : String) (iterable : Expr) (body : List Stmt)
  | choose (position : Position) (cases : List Branch) (fallback : Option (List Stmt))
  | compare (position : Position) (subject : Expr) (cases : List Branch)
      (fallback : Option (List Stmt))
  | call (position : Position) (callee : Expr) (arguments : List Expr)
  | returns (position : Position) (value : Option Expr)
  | assign (position : Position) (target value : Expr)
  | breaks (position : Position)
  | next (position : Position)
  | step (position : Position) (direction : Direction) (target : Expr) (amount : Option Expr)

/-- A condition with the body that it guards. -/
inductive Branch
  | mk (condition : Expr) (body : List Stmt)

end

deriving instance Repr for Expr, Entry, Stmt, Branch

instance : Inhabited Expr := ⟨.nil .first⟩

instance : Inhabited Stmt := ⟨.breaks .first⟩

namespace Expr

def position : Expr → Position
  | number position _ => position
  | string position _ => position
  | boolean position _ => position
  | nil position => position
  | array position _ => position
  | hash position _ => position
  | name position _ => position
  | index position _ _ => position
  | member position _ _ => position
  | call position _ _ => position
  | unary position _ _ => position
  | binary position _ _ _ => position
  | block position _ => position
  | function position _ _ => position
  | step position _ _ _ => position

/-- Whether the expression may be the target of an assignment or a step. -/
def isAssignable : Expr → Bool
  | name _ _ => true
  | index _ _ _ => true
  | member _ _ _ => true
  | _ => false

end Expr

def Stmt.position : Stmt → Position
  | declare position _ _ => position
  | sub position _ _ _ => position
  | conditional position _ _ _ _ _ => position
  | loop position _ _ _ => position
  | postLoop position _ _ _ => position
  | each position _ _ _ => position
  | choose position _ _ => position
  | compare position _ _ _ => position
  | call position _ _ => position
  | returns position _ => position
  | assign position _ _ => position
  | breaks position => position
  | next position => position
  | step position _ _ _ => position

def Entry.key : Entry → Expr
  | mk key _ => key

def Entry.value : Entry → Expr
  | mk _ value => value

def Branch.condition : Branch → Expr
  | mk condition _ => condition

def Branch.body : Branch → List Stmt
  | mk _ body => body

/-- A program is the list of its statements. -/
abbrev Program := List Stmt

end ScriptEngine
