import ScriptEngine.Number.Notation
import ScriptEngine.Program.Tree
import ScriptEngine.Text.Outline
import ScriptEngine.Text.Quoted

namespace ScriptEngine

namespace Outline

/-- Numbers keep a fraction and are positional from 0.0001 up to sixteen digits. -/
def numberNotation : Notation :=
  ⟨fun exponent => -5 < exponent ∧ exponent < 16, 1, false⟩

def number (value : Number) : Outline :=
  atom (value.exact.render numberNotation)

def text (value : String) : Outline :=
  atom (quoted value)

def natural (value : Nat) : Outline :=
  atom (toString value)

def optional : Option Outline → Outline
  | none => atom "None"
  | some outline => group "Some" [outline]

def position (position : Position) : Outline :=
  record "Position"
    [.mk "line" (natural position.line), .mk "column" (natural position.column)]

/-- A node of a program: its fields, and last the place where it starts. -/
def node (name : String) (fields : List OutlineField) (start : Position) : Outline :=
  record name (fields ++ [.mk "position" (position start)])

def binaryName : BinaryOperator → String
  | .add => "Add"
  | .subtract => "Subtract"
  | .multiply => "Multiply"
  | .divide => "Divide"
  | .modulo => "Modulo"
  | .equal => "Equal"
  | .notEqual => "NotEqual"
  | .less => "Less"
  | .lessEqual => "LessEqual"
  | .greater => "Greater"
  | .greaterEqual => "GreaterEqual"
  | .and => "And"
  | .or => "Or"

def unaryName : UnaryOperator → String
  | .not => "Not"
  | .negate => "Negate"

def stepName : Direction → String
  | .up => "Increment"
  | .down => "Decrement"

/-- One of two names, for a condition that has to hold and for one that has not to. -/
def named (sense : Sense) (whenTrue whenFalse : String) : String :=
  match sense with
  | .whenTrue => whenTrue
  | .whenFalse => whenFalse

mutual

def ofExpr : Expr → Outline
  | .number start value => node "Number" [.mk "value" (number value)] start
  | .string start value => node "String" [.mk "value" (text value)] start
  | .boolean start value =>
    node "Boolean" [.mk "value" (atom (if value then "true" else "false"))] start
  | .nil start => node "Nil" [] start
  | .array start elements => node "Array" [.mk "elements" (list (ofExprs elements))] start
  | .hash start entries => node "Hash" [.mk "entries" (list (ofEntries entries))] start
  | .name start name => node "Variable" [.mk "name" (text name)] start
  | .index start object index =>
    node "Index" [.mk "object" (ofExpr object), .mk "index" (ofExpr index)] start
  | .member start object property =>
    node "Member" [.mk "object" (ofExpr object), .mk "property" (text property)] start
  | .call start callee arguments =>
    node "Call" [.mk "callee" (ofExpr callee), .mk "args" (list (ofExprs arguments))] start
  | .unary start operator operand =>
    node "Unary"
      [.mk "operator" (atom (unaryName operator)), .mk "operand" (ofExpr operand)] start
  | .binary start operator left right =>
    node "Binary"
      [.mk "left" (ofExpr left), .mk "operator" (atom (binaryName operator)),
        .mk "right" (ofExpr right)] start
  | .block start body => node "Block" [.mk "body" (ofExpr body)] start
  | .function start parameters body =>
    node "Function"
      [.mk "params" (list (parameters.map text)), .mk "body" (list (ofStmts body))] start
  | .step start direction target amount =>
    node (stepName direction)
      [.mk "target" (ofExpr target), .mk "amount" (ofOptional amount)] start

def ofExprs : List Expr → List Outline
  | [] => []
  | expression :: rest => ofExpr expression :: ofExprs rest

def ofOptional : Option Expr → Outline
  | none => optional none
  | some expression => optional (some (ofExpr expression))

def ofEntries : List Entry → List Outline
  | [] => []
  | .mk key value :: rest => group "" [ofExpr key, ofExpr value] :: ofEntries rest

def ofStmt : Stmt → Outline
  | .declare start name value =>
    node "My" [.mk "name" (text name), .mk "value" (ofOptional value)] start
  | .sub start name parameters body =>
    node "Sub"
      [.mk "name" (text name), .mk "params" (list (parameters.map text)),
        .mk "body" (list (ofStmts body))] start
  | .conditional start sense condition body alternatives fallback =>
    node (named sense "If" "Unless")
      [.mk "condition" (ofExpr condition), .mk "body" (list (ofStmts body)),
        .mk "else_ifs" (list (ofBranches alternatives)),
        .mk "else_body" (ofFallback fallback)] start
  | .loop start sense condition body =>
    node (named sense "While" "Until")
      [.mk "condition" (ofExpr condition), .mk "body" (list (ofStmts body))] start
  | .postLoop start sense body condition =>
    node (named sense "DoWhile" "DoUntil")
      [.mk "body" (list (ofStmts body)), .mk "condition" (ofExpr condition)] start
  | .each start name iterable body =>
    node "For"
      [.mk "variable" (text name), .mk "iterable" (ofExpr iterable),
        .mk "body" (list (ofStmts body))] start
  | .choose start cases fallback =>
    node "When"
      [.mk "cases" (list (ofBranches cases)), .mk "else_body" (ofFallback fallback)] start
  | .compare start subject cases fallback =>
    node "WhenMatch"
      [.mk "value" (ofExpr subject), .mk "cases" (list (ofBranches cases)),
        .mk "else_body" (ofFallback fallback)] start
  | .call start callee arguments =>
    node "Call" [.mk "callee" (ofExpr callee), .mk "args" (list (ofExprs arguments))] start
  | .returns start value => node "Return" [.mk "value" (ofOptional value)] start
  | .assign start target value =>
    node "Assign" [.mk "target" (ofExpr target), .mk "value" (ofExpr value)] start
  | .breaks start => node "Break" [] start
  | .next start => node "Next" [] start
  | .step start direction target amount =>
    node (stepName direction)
      [.mk "target" (ofExpr target), .mk "amount" (ofOptional amount)] start

def ofStmts : List Stmt → List Outline
  | [] => []
  | statement :: rest => ofStmt statement :: ofStmts rest

def ofBranches : List Branch → List Outline
  | [] => []
  | .mk condition body :: rest =>
    record "Branch" [.mk "condition" (ofExpr condition), .mk "body" (list (ofStmts body))] ::
      ofBranches rest

def ofFallback : Option (List Stmt) → Outline
  | none => optional none
  | some body => optional (some (list (ofStmts body)))

end

end Outline

def Program.outline (program : Program) : Outline :=
  .record "Program" [.mk "statements" (.list (Outline.ofStmts program))]

end ScriptEngine
