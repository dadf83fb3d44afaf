import ScriptEngine.Number.Reader
import ScriptEngine.Program.Parser

namespace ScriptEngine

namespace Parser

/-- The number of precedence levels of binary operators, counted from the loosest. -/
def operatorLevels : Nat := 6

/-- The binary operator that a token spells on a precedence level. -/
def operatorAt : Nat → TokenKind → Option BinaryOperator
  | 0, .or => some .or
  | 1, .and => some .and
  | 2, .equalEqual => some .equal
  | 2, .notEqual => some .notEqual
  | 3, .less => some .less
  | 3, .lessEqual => some .lessEqual
  | 3, .greater => some .greater
  | 3, .greaterEqual => some .greaterEqual
  | 4, .plus => some .add
  | 4, .minus => some .subtract
  | 5, .star => some .multiply
  | 5, .slash => some .divide
  | 5, .percent => some .modulo
  | _, _ => none

def unaryOperatorAt : TokenKind → Option UnaryOperator
  | .not => some .not
  | .minus => some .negate
  | _ => none

/-- Reads `callee [i]…` as an index chain, given the part from the bracket on as the array that it
was first parsed as. -/
def reattach (callee : Expr) : Expr → Option Expr
  | .array position [index] => some (.index position callee index)
  | .index position object index =>
    (reattach callee object).map fun target => .index position target index
  | .member position object property =>
    (reattach callee object).map fun target => .member position target property
  | _ => none

/-- A statement under a trailing modifier. -/
def guardedBy (kind : TokenKind) (statement : Stmt) (condition : Expr) : Stmt :=
  match kind with
  | .kwIf => .conditional statement.position .whenTrue condition [statement] [] none
  | .kwUnless => .conditional statement.position .whenFalse condition [statement] [] none
  | .kwWhile => .loop statement.position .whenTrue condition [statement]
  | _ => .loop statement.position .whenFalse condition [statement]

def isModifier : TokenKind → Bool
  | .kwIf => true
  | .kwUnless => true
  | .kwWhile => true
  | .kwUntil => true
  | _ => false

mutual

def statement : Nat → Parser Stmt
  | 0 => exhausted
  | fuel + 1 => do
    match (← current).kind with
    | .kwIf => conditional fuel .whenTrue
    | .kwUnless => conditional fuel .whenFalse
    | .kwWhile => loop fuel .whenTrue
    | .kwUntil => loop fuel .whenFalse
    | .kwFor => each fuel
    | .kwSub => sub fuel
    | .kwWhen => choice fuel
    | .kwDo =>
      let result ← postLoop fuel
      let _ ← expect .semicolon "';' after do loop"
      return result
    | .kwMy =>
      let result ← declaration fuel
      let _ ← expect .semicolon "';' after declaration"
      return result
    | _ =>
      let simple ← simpleStatement fuel
      let result ← modified fuel simple
      let _ ← expect .semicolon "';'"
      return result

def simpleStatement : Nat → Parser Stmt
  | 0 => exhausted
  | fuel + 1 => do
    let first ← current
    match first.kind with
    | .kwReturn =>
      let _ ← advance
      if ← atStatementEnd then
        return .returns first.start none
      else
        return .returns first.start (some (← expression fuel))
    | .kwBreak =>
      let _ ← advance
      return .breaks first.start
    | .kwNext =>
      let _ ← advance
      return .next first.start
    | .kwInc =>
      let _ ← advance
      let (target, amount) ← stepTail fuel
      return .step first.start .up target amount
    | .kwDec =>
      let _ ← advance
      let (target, amount) ← stepTail fuel
      return .step first.start .down target amount
    | _ => assignmentOrCall fuel

/-- `target = value`, `callee(arguments) more arguments` or `callee argument argument`. The head
takes only parentheses and brackets that touch it. -/
def assignmentOrCall : Nat → Parser Stmt
  | 0 => exhausted
  | fuel + 1 => do
    let first ← current
    let head ← postfixChain fuel true
    if ← accept .equal then
      assignment fuel first.start head
    else
      match head with
      | .call _ callee arguments => spacedArguments fuel first.start callee arguments
      | callee => spacedArguments fuel first.start callee []

/-- The arguments that follow a statement head without parentheses. An assignment whose bracket is
set off from its head shows as a single array argument before the equals sign. -/
def spacedArguments : Nat → Position → Expr → List Expr → Parser Stmt
  | 0, _, _, _ => exhausted
  | fuel + 1, start, callee, arguments => do
    if ← atStatementEnd then
      return .call start callee arguments
    else
      let argument ← expression fuel
      let beforeEquals ← check .equal
      match arguments, beforeEquals, reattach callee argument with
      | [], true, some target =>
        let _ ← advance
        assignment fuel start target
      | _, _, _ => spacedArguments fuel start callee (arguments ++ [argument])

def assignment : Nat → Position → Expr → Parser Stmt
  | 0, _, _ => exhausted
  | fuel + 1, start, target => do
    if target.isAssignable then
      return .assign start target (← expression fuel)
    else
      throw (.invalidTarget start)

def modified : Nat → Stmt → Parser Stmt
  | 0, _ => exhausted
  | fuel + 1, simple => do
    let token ← current
    if isModifier token.kind then
      let _ ← advance
      return guardedBy token.kind simple (← expression fuel)
    else
      return simple

def conditional : Nat → Sense → Parser Stmt
  | 0, _ => exhausted
  | fuel + 1, sense => do
    let first ← advance
    let condition ← expression fuel
    let body ← block fuel
    let (alternatives, fallback) ← elseChain fuel
    return .conditional first.start sense condition body alternatives fallback

/-- The `else if` and `else unless` branches and the last `else`. The condition after `unless` is
negated. -/
def elseChain : Nat → Parser (List Branch × Option (List Stmt))
  | 0 => exhausted
  | fuel + 1 => do
    if ← accept .kwElse then
      if ← accept .kwIf then
        let condition ← expression fuel
        let body ← block fuel
        let (alternatives, fallback) ← elseChain fuel
        return (.mk condition body :: alternatives, fallback)
      else if ← accept .kwUnless then
        let condition ← expression fuel
        let body ← block fuel
        let (alternatives, fallback) ← elseChain fuel
        return (.mk (.unary condition.position .not condition) body :: alternatives, fallback)
      else
        return ([], some (← block fuel))
    else
      return ([], none)

def loop : Nat → Sense → Parser Stmt
  | 0, _ => exhausted
  | fuel + 1, sense => do
    let first ← advance
    let condition ← expression fuel
    let body ← block fuel
    return .loop first.start sense condition body

def postLoop : Nat → Parser Stmt
  | 0 => exhausted
  | fuel + 1 => do
    let first ← advance
    let body ← block fuel
    if ← accept .kwWhile then
      return .postLoop first.start .whenTrue body (← expression fuel)
    else
      let _ ← expect .kwUntil "'while' or 'until' after do block"
      return .postLoop first.start .whenFalse body (← expression fuel)

/-- `for name in iterable` or `for iterable`, which binds `it`. -/
def each : Nat → Parser Stmt
  | 0 => exhausted
  | fuel + 1 => do
    let first ← advance
    let head ← expression fuel
    if ← accept .kwIn then
      match head with
      | .name _ name =>
        let iterable ← expression fuel
        let body ← block fuel
        return .each first.start name iterable body
      | other => throw (.invalidLoopVariable other.position)
    else
      let body ← block fuel
      return .each first.start "it" head body

def sub : Nat → Parser Stmt
  | 0 => exhausted
  | fuel + 1 => do
    let first ← advance
    let name ← expectName
    if ← accept .leftParen then
      let parameters ← parameters fuel
      let body ← block fuel
      return .sub first.start name parameters body
    else
      let body ← block fuel
      return .sub first.start name [] body

def parameters : Nat → Parser (List String)
  | 0 => exhausted
  | fuel + 1 => do
    if ← accept .rightParen then
      return []
    else
      let name ← expectName
      if ← check .rightParen then
        return name :: (← parameters fuel)
      else
        let _ ← expect .comma "',' or ')' in parameter list"
        return name :: (← parameters fuel)

def declaration : Nat → Parser Stmt
  | 0 => exhausted
  | fuel + 1 => do
    let first ← advance
    let name ← expectName
    if ← accept .equal then
      return .declare first.start name (some (← expression fuel))
    else
      return .declare first.start name none

/-- `when` with or without a subject to compare the cases with. -/
def choice : Nat → Parser Stmt
  | 0 => exhausted
  | fuel + 1 => do
    let first ← advance
    if ← check .leftBrace then
      let _ ← expect .leftBrace "'\x7b' after when"
      let (cases, fallback) ← caseList fuel
      return .choose first.start cases fallback
    else
      let subject ← expression fuel
      let _ ← expect .leftBrace "'\x7b' after when"
      let (cases, fallback) ← caseList fuel
      return .compare first.start subject cases fallback

def caseList : Nat → Parser (List Branch × Option (List Stmt))
  | 0 => exhausted
  | fuel + 1 => do
    match (← current).kind with
    | .rightBrace =>
      let _ ← advance
      return ([], none)
    | .kwCase =>
      let _ ← advance
      let condition ← expression fuel
      let body ← block fuel
      let (cases, fallback) ← caseList fuel
      return (.mk condition body :: cases, fallback)
    | .kwElse =>
      let _ ← advance
      let body ← block fuel
      let _ ← expect .rightBrace "'\x7d' after else branch"
      return ([], some body)
    | _ => unexpected "'case', 'else' or '\x7d'"

def block : Nat → Parser (List Stmt)
  | 0 => exhausted
  | fuel + 1 => do
    let _ ← expect .leftBrace "'\x7b'"
    nested (blockTail fuel)

def blockTail : Nat → Parser (List Stmt)
  | 0 => exhausted
  | fuel + 1 => do
    match (← current).kind with
    | .rightBrace =>
      let _ ← advance
      return []
    | .endOfInput => unexpected "'\x7d'"
    | _ =>
      let first ← statement fuel
      return first :: (← blockTail fuel)

def expression : Nat → Parser Expr
  | 0 => exhausted
  | fuel + 1 => nested (operand fuel 0)

/-- An operand of the operators on the level just below. -/
def operand : Nat → Nat → Parser Expr
  | 0, _ => exhausted
  | fuel + 1, level => do
    if level < operatorLevels then
      let left ← operand fuel (level + 1)
      operatorChain fuel level left
    else
      unary fuel

/-- Operators of one level associate to the left. A node stands where its operator is written. -/
def operatorChain : Nat → Nat → Expr → Parser Expr
  | 0, _, _ => exhausted
  | fuel + 1, level, left => do
    let token ← current
    match operatorAt level token.kind with
    | none => return left
    | some operator =>
      let _ ← advance
      let right ← operand fuel (level + 1)
      operatorChain fuel level (.binary token.start operator left right)

def unary : Nat → Parser Expr
  | 0 => exhausted
  | fuel + 1 => do
    let token ← current
    match unaryOperatorAt token.kind with
    | none => postfixChain fuel false
    | some operator =>
      let _ ← advance
      return .unary token.start operator (← nested (unary fuel))

/-- A primary with the calls, indices and members after it. With `touching` a parenthesis or bracket
continues the chain only if it touches the token before it. -/
def postfixChain : Nat → Bool → Parser Expr
  | 0, _ => exhausted
  | fuel + 1, touching => do
    let head ← primary fuel
    suffixes fuel touching head

def suffixes : Nat → Bool → Expr → Parser Expr
  | 0, _, _ => exhausted
  | fuel + 1, touching, head => do
    let continues := !touching || (← isAttached)
    match (← current).kind, continues with
    | .leftParen, true =>
      let _ ← advance
      let arguments ← arguments fuel
      suffixes fuel touching (.call head.position head arguments)
    | .leftBracket, true =>
      let _ ← advance
      let index ← expression fuel
      let _ ← expect .rightBracket "']' after index"
      suffixes fuel touching (.index head.position head index)
    | .dot, _ =>
      let _ ← advance
      let property ← expectMemberName
      suffixes fuel touching (.member head.position head property)
    | _, _ => return head

def arguments : Nat → Parser (List Expr)
  | 0 => exhausted
  | fuel + 1 => do
    if ← accept .rightParen then
      return []
    else
      let argument ← expression fuel
      if ← check .rightParen then
        return argument :: (← arguments fuel)
      else
        let _ ← expect .comma "',' or ')' in argument list"
        return argument :: (← arguments fuel)

def primary : Nat → Parser Expr
  | 0 => exhausted
  | fuel + 1 => do
    let first ← current
    match first.kind with
    | .identifier =>
      let _ ← advance
      return .name first.start first.literal
    | .string =>
      let _ ← advance
      return .string first.start first.literal
    | .number =>
      let _ ← advance
      match readNumber? first.literal.toList with
      | some value => return .number first.start value
      | none => throw (.invalidNumber first.literal first.start)
    | .kwTrue =>
      let _ ← advance
      return .boolean first.start true
    | .kwFalse =>
      let _ ← advance
      return .boolean first.start false
    | .kwNil =>
      let _ ← advance
      return .nil first.start
    | .leftParen =>
      let _ ← advance
      let inner ← expression fuel
      let _ ← expect .rightParen "')'"
      return inner
    | .leftBracket => collection fuel
    | .leftBrace =>
      let _ ← advance
      let body ← expression fuel
      let _ ← expect .rightBrace "'\x7d' after block expression"
      return .block first.start body
    | .kwInc =>
      let _ ← advance
      let (target, amount) ← stepTail fuel
      return .step first.start .up target amount
    | .kwDec =>
      let _ ← advance
      let (target, amount) ← stepTail fuel
      return .step first.start .down target amount
    | _ => unexpected "expression"

/-- The target of a step and its amount, if one is given. -/
def stepTail : Nat → Parser (Expr × Option Expr)
  | 0 => exhausted
  | fuel + 1 => do
    let first ← current
    let target ← expression fuel
    if target.isAssignable then
      if ← accept .kwBy then
        return (target, some (← expression fuel))
      else
        return (target, none)
    else
      throw (.invalidTarget first.start)

/-- `[]`, `[:]`, `[a, b]` or `[k: v, …]`. -/
def collection : Nat → Parser Expr
  | 0 => exhausted
  | fuel + 1 => do
    let opening ← advance
    if ← accept .colon then
      let _ ← expect .rightBracket "']' after '[:'"
      return .hash opening.start []
    else if ← accept .rightBracket then
      return .array opening.start []
    else
      let head ← expression fuel
      if ← accept .colon then
        let value ← expression fuel
        let entries ← entries fuel
        let _ ← expect .rightBracket "']' after hash literal"
        return .hash opening.start (.mk head value :: entries)
      else
        let elements ← elements fuel
        let _ ← expect .rightBracket "']' after array literal"
        return .array opening.start (head :: elements)

def elements : Nat → Parser (List Expr)
  | 0 => exhausted
  | fuel + 1 => do
    if ← accept .comma then
      let element ← expression fuel
      return element :: (← elements fuel)
    else
      return []

def entries : Nat → Parser (List Entry)
  | 0 => exhausted
  | fuel + 1 => do
    if ← accept .comma then
      let key ← expression fuel
      let _ ← expect .colon "':' in hash literal"
      let value ← expression fuel
      return .mk key value :: (← entries fuel)
    else
      return []

end

/-- Enough for every text: no rule calls more than sixteen others before it consumes a token. -/
def fuelFor (state : ParserState) : Nat :=
  16 * (state.upcoming.length + 2)

/-- Statements up to the end of the text, with the error that cut them short if there is one. -/
def statementsFrom : Nat → ParserState → List Stmt × Option ParseError
  | 0, state => ([], some (.exhausted state.current.start))
  | fuel + 1, state =>
    if state.current.kind = .endOfInput then
      ([], none)
    else
      match statement fuel state with
      | .ok first after =>
        let (rest, error) := statementsFrom fuel after
        (first :: rest, error)
      | .error error _ => ([], some error)

end Parser

/-- The statements of a text up to the first error. -/
def Program.parsePartially (source : String) : List Stmt × Option ParseError :=
  match ParserState.ofStream (.ofSource source) with
  | .ok state => Parser.statementsFrom (Parser.fuelFor state) state
  | .error error => ([], some error)

def Program.parse (source : String) : Except ParseError Program :=
  match Program.parsePartially source with
  | (statements, none) => .ok statements
  | (_, some error) => .error error

/-- The statement at the head of a text. What follows it is not looked at. -/
def Stmt.parse (source : String) : Except ParseError Stmt := do
  let state ← ParserState.ofStream (.ofSource source)
  match Parser.statement (Parser.fuelFor state) state with
  | .ok statement _ => .ok statement
  | .error error _ => .error error

/-- The expression at the head of a text, and whether it is the whole text. -/
def Expr.parse (source : String) : Except ParseError (Expr × Bool) := do
  let state ← ParserState.ofStream (.ofSource source)
  match Parser.expression (Parser.fuelFor state) state with
  | .ok expression after => .ok (expression, after.current.kind = .endOfInput)
  | .error error _ => .error error

end ScriptEngine
