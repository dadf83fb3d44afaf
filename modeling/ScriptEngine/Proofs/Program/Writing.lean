import ScriptEngine.Number.Reader
import ScriptEngine.Program.Tree
import ScriptEngine.Proofs.Source.Lexemes

/-!
# Writing programs

The tokens of a program. An expression stands in parentheses if the place where it stands asks for a
tighter one, if it is a step with something after it that the step would take for itself, and if it
would open the subject of a `when` with a brace.
-/

namespace ScriptEngine

def BinaryOperator.kind : BinaryOperator → TokenKind
  | add => .plus
  | subtract => .minus
  | multiply => .star
  | divide => .slash
  | modulo => .percent
  | equal => .equalEqual
  | notEqual => .notEqual
  | less => .less
  | lessEqual => .lessEqual
  | greater => .greater
  | greaterEqual => .greaterEqual
  | and => .and
  | or => .or

/-- The precedence level of an operator, counted from the loosest. -/
def BinaryOperator.level : BinaryOperator → Nat
  | or => 0
  | and => 1
  | equal | notEqual => 2
  | less | lessEqual | greater | greaterEqual => 3
  | add | subtract => 4
  | multiply | divide | modulo => 5

def UnaryOperator.kind : UnaryOperator → TokenKind
  | not => .not
  | negate => .minus

def Sense.conditionalKind : Sense → TokenKind
  | whenTrue => .kwIf
  | whenFalse => .kwUnless

def Sense.loopKind : Sense → TokenKind
  | whenTrue => .kwWhile
  | whenFalse => .kwUntil

def Direction.kind : Direction → TokenKind
  | up => .kwInc
  | down => .kwDec

namespace Expr

/-- The level of operands that the expression may be one of: below the unary operators those of the
binary ones, above them those of calls, indices and members. -/
def level : Expr → Nat
  | binary _ operator _ _ => operator.level
  | unary _ _ _ => 6
  | _ => 7

def isStep : Expr → Bool
  | step _ _ _ _ => true
  | _ => false

/-- Whether the expression needs no parentheses as an operand of a level. With `last` nothing comes
after it that could belong to an expression. -/
def standsAlone (level : Nat) (last : Bool) (expression : Expr) : Bool :=
  level ≤ expression.level && (last || !expression.isStep)

/-- The first token of the expression. A part that does not stand alone begins with a parenthesis. -/
def opening : Expr → TokenKind
  | number _ _ => .number
  | string _ _ => .string
  | boolean _ value => if value then .kwTrue else .kwFalse
  | nil _ => .kwNil
  | array _ _ => .leftBracket
  | hash _ _ => .leftBracket
  | name _ _ => .identifier
  | index _ object _ => if object.standsAlone 7 false then object.opening else .leftParen
  | member _ object _ => if object.standsAlone 7 false then object.opening else .leftParen
  | call _ callee _ => if callee.standsAlone 7 false then callee.opening else .leftParen
  | unary _ operator _ => operator.kind
  | binary _ operator left _ =>
    if left.standsAlone operator.level false then left.opening else .leftParen
  | block _ _ => .leftBrace
  | function _ _ _ => .endOfInput
  | step _ direction _ _ => direction.kind

/-- Whether the first token of the expression is a brace. -/
def opensBrace (expression : Expr) : Bool :=
  expression.opening == .leftBrace

end Expr

/-- The digits of a number at a place. -/
abbrev NumberSpelling := Position → Number → List Char

namespace NumberSpelling

open Lexeme

/-- An expression or, if it does not stand alone, the expression in parentheses. -/
def placed (alone last : Bool) (plain : Bool → List Lexeme) : List Lexeme :=
  if alone then plain last else fixed .leftParen :: (plain true ++ [fixed .rightParen])

def parameterTail : List String → List Lexeme
  | [] => [fixed .rightParen]
  | name :: rest => fixed .comma :: word name :: parameterTail rest

/-- The names of parameters, up to the parenthesis that closes them. -/
def parameters : List String → List Lexeme
  | [] => [fixed .rightParen]
  | name :: rest => word name :: parameterTail rest

def braced (body : List Lexeme) : List Lexeme :=
  fixed .leftBrace :: (body ++ [fixed .rightBrace])

section

variable (spelling : NumberSpelling)

mutual

/-- The tokens of an expression without parentheses around it. -/
def plain : Expr → Bool → List Lexeme
  | .number position value, _ => [numeral (spelling position value)]
  | .string _ value, _ => [string value]
  | .boolean _ value, _ => [fixed (if value then .kwTrue else .kwFalse)]
  | .nil _, _ => [fixed .kwNil]
  | .array _ elements, _ => fixed .leftBracket :: (items elements ++ [fixed .rightBracket])
  | .hash _ entries, _ => fixed .leftBracket :: (pairs entries ++ [fixed .rightBracket])
  | .name _ name, _ => [word name]
  | .index _ object index, _ =>
    placed (object.standsAlone 7 false) false (plain object) ++
      touching .leftBracket :: (plain index true ++ [fixed .rightBracket])
  | .member _ object property, _ =>
    placed (object.standsAlone 7 false) false (plain object) ++ [fixed .dot, word property]
  | .call _ callee arguments, _ =>
    placed (callee.standsAlone 7 false) false (plain callee) ++
      touching .leftParen :: (items arguments ++ [fixed .rightParen])
  | .unary _ operator operand, last =>
    fixed operator.kind :: placed (operand.standsAlone 6 last) last (plain operand)
  | .binary _ operator left right, last =>
    placed (left.standsAlone operator.level false) false (plain left) ++
      fixed operator.kind ::
        placed (right.standsAlone (operator.level + 1) last) last (plain right)
  | .block _ body, _ => braced (plain body true)
  | .function _ _ _, _ => []
  | .step _ direction target amount, _ =>
    fixed direction.kind :: (plain target false ++ amountOf amount)

def itemTail : List Expr → List Lexeme
  | [] => []
  | expression :: rest => fixed .comma :: (plain expression true ++ itemTail rest)

/-- Expressions with commas between them. -/
def items : List Expr → List Lexeme
  | [] => []
  | expression :: rest => plain expression true ++ itemTail rest

def pairTail : List Entry → List Lexeme
  | [] => []
  | .mk key value :: rest =>
    fixed .comma :: (plain key true ++ fixed .colon :: (plain value true ++ pairTail rest))

/-- Keys and values. A colon alone stands for none. -/
def pairs : List Entry → List Lexeme
  | [] => [fixed .colon]
  | .mk key value :: rest => plain key true ++ fixed .colon :: (plain value true ++ pairTail rest)

def amountOf : Option Expr → List Lexeme
  | none => []
  | some amount => fixed .kwBy :: plain amount true

end

/-- An expression as an operand of a level. -/
def operand (level : Nat) (last : Bool) (expression : Expr) : List Lexeme :=
  placed (expression.standsAlone level last) last (plain spelling expression)

mutual

/-- The tokens of a statement. -/
def statement : Stmt → List Lexeme
  | .declare _ name none => [fixed .kwMy, word name, fixed .semicolon]
  | .declare _ name (some value) =>
    fixed .kwMy :: word name :: fixed .equal :: (plain spelling value true ++ [fixed .semicolon])
  | .sub _ name names body =>
    fixed .kwSub :: word name :: fixed .leftParen ::
      (parameters names ++ braced (statements body))
  | .conditional _ sense condition body alternatives fallback =>
    fixed sense.conditionalKind ::
      (plain spelling condition true ++ (braced (statements body) ++
        (elseBranches alternatives ++ elseBody fallback)))
  | .loop _ sense condition body =>
    fixed sense.loopKind ::
      (plain spelling condition true ++ braced (statements body))
  | .postLoop _ sense body condition =>
    fixed .kwDo :: (braced (statements body) ++
      fixed sense.loopKind ::
        (plain spelling condition true ++ [fixed .semicolon]))
  | .each _ name iterable body =>
    fixed .kwFor :: word name :: fixed .kwIn ::
      (plain spelling iterable true ++ braced (statements body))
  | .choose _ cases fallback =>
    fixed .kwWhen :: fixed .leftBrace ::
      (caseBranches cases ++ (elseBody fallback ++ [fixed .rightBrace]))
  | .compare _ subject cases fallback =>
    fixed .kwWhen :: (placed (!subject.opensBrace) true (plain spelling subject) ++
      fixed .leftBrace :: (caseBranches cases ++ (elseBody fallback ++ [fixed .rightBrace])))
  | .call _ callee arguments =>
    operand spelling 7 false callee ++
      touching .leftParen ::
        (items spelling arguments ++ [fixed .rightParen, fixed .semicolon])
  | .returns _ none => [fixed .kwReturn, fixed .semicolon]
  | .returns _ (some value) =>
    fixed .kwReturn :: (plain spelling value true ++ [fixed .semicolon])
  | .assign _ target value =>
    plain spelling target false ++
      fixed .equal :: (plain spelling value true ++ [fixed .semicolon])
  | .breaks _ => [fixed .kwBreak, fixed .semicolon]
  | .next _ => [fixed .kwNext, fixed .semicolon]
  | .step _ direction target amount =>
    fixed direction.kind ::
      (plain spelling target false ++ (amountOf spelling amount ++ [fixed .semicolon]))

def statements : List Stmt → List Lexeme
  | [] => []
  | first :: rest => statement first ++ statements rest

def elseBranches : List Branch → List Lexeme
  | [] => []
  | .mk condition body :: rest =>
    fixed .kwElse :: fixed .kwIf ::
      (plain spelling condition true ++ (braced (statements body) ++ elseBranches rest))

def elseBody : Option (List Stmt) → List Lexeme
  | none => []
  | some body => fixed .kwElse :: braced (statements body)

def caseBranches : List Branch → List Lexeme
  | [] => []
  | .mk condition body :: rest =>
    fixed .kwCase ::
      (plain spelling condition true ++ (braced (statements body) ++ caseBranches rest))

end

end

end NumberSpelling

/-! ### Nesting -/

/-- The nesting of an expression as it is placed. Parentheses go one level further down. -/
def placedNesting (alone last : Bool) (plain : Bool → Nat) : Nat :=
  if alone then plain last else plain true + 1

mutual

/-- How many levels the parser goes down for an expression without parentheses around it. -/
def Expr.nesting : Expr → Bool → Nat
  | .array _ elements, _ => Expr.nestingAll elements
  | .hash _ entries, _ => Entry.nestingAll entries
  | .index _ object index, _ =>
    max (placedNesting (object.standsAlone 7 false) false object.nesting) (index.nesting true + 1)
  | .member _ object _, _ =>
    placedNesting (object.standsAlone 7 false) false object.nesting
  | .call _ callee arguments, _ =>
    max (placedNesting (callee.standsAlone 7 false) false callee.nesting)
      (Expr.nestingAll arguments)
  | .unary _ _ operand, last =>
    placedNesting (operand.standsAlone 6 last) last operand.nesting + 1
  | .binary _ operator left right, last =>
    max (placedNesting (left.standsAlone operator.level false) false left.nesting)
      (placedNesting (right.standsAlone (operator.level + 1) last) last right.nesting)
  | .block _ body, _ => body.nesting true + 1
  | .step _ _ target amount, _ => max (target.nesting false + 1) (Expr.nestingOptional amount)
  | _, _ => 0

def Expr.nestingAll : List Expr → Nat
  | [] => 0
  | expression :: rest => max (expression.nesting true + 1) (Expr.nestingAll rest)

def Expr.nestingOptional : Option Expr → Nat
  | none => 0
  | some expression => expression.nesting true + 1

def Entry.nestingAll : List Entry → Nat
  | [] => 0
  | .mk key value :: rest =>
    max (key.nesting true + 1) (max (value.nesting true + 1) (Entry.nestingAll rest))

end

mutual

def Stmt.nesting : Stmt → Nat
  | .declare _ _ value => Expr.nestingOptional value
  | .sub _ _ _ body => Stmt.nestingAll body + 1
  | .conditional _ _ condition body alternatives fallback =>
    max (condition.nesting true + 1)
      (max (Stmt.nestingAll body + 1)
        (max (Branch.nestingAll alternatives) (Stmt.nestingFallback fallback)))
  | .loop _ _ condition body => max (condition.nesting true + 1) (Stmt.nestingAll body + 1)
  | .postLoop _ _ body condition => max (Stmt.nestingAll body + 1) (condition.nesting true + 1)
  | .each _ _ iterable body => max (iterable.nesting true + 1) (Stmt.nestingAll body + 1)
  | .choose _ cases fallback => max (Branch.nestingAll cases) (Stmt.nestingFallback fallback)
  | .compare _ subject cases fallback =>
    max (placedNesting (!subject.opensBrace) true subject.nesting + 1)
      (max (Branch.nestingAll cases) (Stmt.nestingFallback fallback))
  | .call _ callee arguments =>
    max (placedNesting (callee.standsAlone 7 false) false callee.nesting)
      (Expr.nestingAll arguments)
  | .returns _ value => Expr.nestingOptional value
  | .assign _ target value => max (target.nesting false) (value.nesting true + 1)
  | .breaks _ => 0
  | .next _ => 0
  | .step _ _ target amount => max (target.nesting false + 1) (Expr.nestingOptional amount)

def Stmt.nestingAll : List Stmt → Nat
  | [] => 0
  | statement :: rest => max statement.nesting (Stmt.nestingAll rest)

def Branch.nestingAll : List Branch → Nat
  | [] => 0
  | .mk condition body :: rest =>
    max (condition.nesting true + 1) (max (Stmt.nestingAll body + 1) (Branch.nestingAll rest))

def Stmt.nestingFallback : Option (List Stmt) → Nat
  | none => 0
  | some body => Stmt.nestingAll body + 1

end

/-! ### What can be written -/

/-- A word that is no keyword. -/
def IsName (name : String) : Prop :=
  Lexer.IsWord name.toList ∧ TokenKind.ofWord name = .identifier

/-- The digits are a numeral that is read as the number. -/
def SpellsNumber (digits : List Char) (value : Number) : Prop :=
  Lexer.IsNumeral digits ∧ readNumber? digits = some value

section

variable (spelling : NumberSpelling)

mutual

/-- The expression has a written form: its numbers are spelled, its strings have literals, its names
are no keywords, and its steps have a target. -/
def Expr.IsWritable : Expr → Prop
  | .number position value => SpellsNumber (spelling position value) value
  | .string _ value => ∃ literal, Lexer.IsStringLiteral literal value.toList
  | .boolean _ _ => True
  | .nil _ => True
  | .array _ elements => Expr.AllWritable elements
  | .hash _ entries => Entry.AllWritable entries
  | .name _ name => IsName name
  | .index _ object index => object.IsWritable ∧ index.IsWritable
  | .member _ object property => object.IsWritable ∧ Lexer.IsWord property.toList
  | .call _ callee arguments => callee.IsWritable ∧ Expr.AllWritable arguments
  | .unary _ _ operand => operand.IsWritable
  | .binary _ _ left right => left.IsWritable ∧ right.IsWritable
  | .block _ body => body.IsWritable
  | .function _ _ _ => False
  | .step _ _ target amount =>
    target.isAssignable ∧ target.IsWritable ∧ Expr.OptionWritable amount

def Expr.AllWritable : List Expr → Prop
  | [] => True
  | expression :: rest => expression.IsWritable ∧ Expr.AllWritable rest

def Expr.OptionWritable : Option Expr → Prop
  | none => True
  | some expression => expression.IsWritable

def Entry.AllWritable : List Entry → Prop
  | [] => True
  | .mk key value :: rest => key.IsWritable ∧ value.IsWritable ∧ Entry.AllWritable rest

end

mutual

def Stmt.IsWritable : Stmt → Prop
  | .declare _ name value => IsName name ∧ Expr.OptionWritable spelling value
  | .sub _ name parameters body =>
    IsName name ∧ (∀ parameter ∈ parameters, IsName parameter) ∧ Stmt.AllWritable body
  | .conditional _ _ condition body alternatives fallback =>
    condition.IsWritable spelling ∧ Stmt.AllWritable body ∧ Branch.AllWritable alternatives ∧
      Stmt.FallbackWritable fallback
  | .loop _ _ condition body => condition.IsWritable spelling ∧ Stmt.AllWritable body
  | .postLoop _ _ body condition => Stmt.AllWritable body ∧ condition.IsWritable spelling
  | .each _ name iterable body =>
    IsName name ∧ iterable.IsWritable spelling ∧ Stmt.AllWritable body
  | .choose _ cases fallback => Branch.AllWritable cases ∧ Stmt.FallbackWritable fallback
  | .compare _ subject cases fallback =>
    subject.IsWritable spelling ∧ Branch.AllWritable cases ∧ Stmt.FallbackWritable fallback
  | .call _ callee arguments => callee.IsWritable spelling ∧ Expr.AllWritable spelling arguments
  | .returns _ value => Expr.OptionWritable spelling value
  | .assign _ target value =>
    target.isAssignable ∧ target.IsWritable spelling ∧ value.IsWritable spelling
  | .breaks _ => True
  | .next _ => True
  | .step _ _ target amount =>
    target.isAssignable ∧ target.IsWritable spelling ∧ Expr.OptionWritable spelling amount

def Stmt.AllWritable : List Stmt → Prop
  | [] => True
  | statement :: rest => statement.IsWritable ∧ Stmt.AllWritable rest

def Branch.AllWritable : List Branch → Prop
  | [] => True
  | .mk condition body :: rest =>
    condition.IsWritable spelling ∧ Stmt.AllWritable body ∧ Branch.AllWritable rest

def Stmt.FallbackWritable : Option (List Stmt) → Prop
  | none => True
  | some body => Stmt.AllWritable body

end

end

end ScriptEngine
