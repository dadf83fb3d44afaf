import ScriptEngine.Program.ParseError
import ScriptEngine.Program.Tree

namespace ScriptEngine

/-- What a parser has in hand: the token to look at, those after it, the lexical error that ends
them if there is one, the place where the last consumed token stopped, and the current nesting. -/
structure ParserState where
  current : Token
  upcoming : List Token
  failure : Option LexicalError
  previousStop : Position
  depth : Nat
deriving Repr

/-- A state whose current token is the first of a stream. -/
def ParserState.ofStream (stream : TokenStream) : Except ParseError ParserState :=
  match stream.tokens, stream.failure with
  | current :: upcoming, failure => .ok ⟨current, upcoming, failure, .first, 0⟩
  | [], some error => .error (.lexical error)
  | [], none => .error (.exhausted .first)

abbrev Parser := EStateM ParseError ParserState

namespace Parser

def nestingLimit : Nat := 128

def current : Parser Token :=
  return (← get).current

def check (kind : TokenKind) : Parser Bool :=
  return (← get).current.kind == kind

/-- Moves to the next token and gives the one just passed. A lexical error counts from here on; the
end mark is never passed. -/
def advance : Parser Token := fun state =>
  let passed := state.current
  match state.upcoming, state.failure with
  | next :: upcoming, _ =>
    .ok passed { state with current := next, upcoming := upcoming, previousStop := passed.stop }
  | [], some error => .error (.lexical error) { state with previousStop := passed.stop }
  | [], none => .ok passed { state with previousStop := passed.stop }

def accept (kind : TokenKind) : Parser Bool := do
  if ← check kind then
    let _ ← advance
    return true
  else
    return false

def unexpected {α : Type} (expected : String) : Parser α := do
  let token ← current
  throw (.unexpected expected token.kind token.literal token.start)

def expect (kind : TokenKind) (expected : String) : Parser Token := do
  if ← check kind then
    advance
  else
    unexpected expected

def expectName : Parser String :=
  return (← expect .identifier "identifier").literal

/-- A member name is any word, so that it may be spelled like a keyword. -/
def expectMemberName : Parser String := do
  let token ← current
  if token.kind ≠ .string ∧ token.literal.toList.head?.any Lexer.isNameStart then
    return (← advance).literal
  else
    unexpected "member name"

def atStatementEnd : Parser Bool := do
  match (← current).kind with
  | .semicolon => return true
  | .kwIf => return true
  | .kwUnless => return true
  | .kwWhile => return true
  | .kwUntil => return true
  | .endOfInput => return true
  | _ => return false

/-- Whether the current token touches the one before it. -/
def isAttached : Parser Bool := do
  let state ← get
  return state.current.start = state.previousStop

/-- Runs a parser one nesting level further down. The level is left again whether it succeeds or
fails. -/
def nested {α : Type} (inner : Parser α) : Parser α := fun state =>
  if nestingLimit ≤ state.depth then
    .error (.nestingTooDeep nestingLimit state.current.start) state
  else
    match inner { state with depth := state.depth + 1 } with
    | .ok value after => .ok value { after with depth := after.depth - 1 }
    | .error error after => .error error { after with depth := after.depth - 1 }

def exhausted {α : Type} : Parser α := do
  throw (.exhausted (← current).start)

end Parser

end ScriptEngine
