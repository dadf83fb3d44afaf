import ScriptEngine.Source.Token

namespace ScriptEngine

inductive LexicalError
  | unknownCharacter (character : Char) (position : Position)
  | unterminatedString (position : Position)
  | unterminatedComment (position : Position)
deriving DecidableEq, Repr

namespace LexicalError

def position : LexicalError → Position
  | unknownCharacter _ position => position
  | unterminatedString position => position
  | unterminatedComment position => position

def message : LexicalError → String
  | unknownCharacter character position => s!"unknown character '{character}' at {position.render}"
  | unterminatedString position => s!"unterminated string starting at {position.render}"
  | unterminatedComment position => s!"unterminated comment starting at {position.render}"

end LexicalError

/-- The tokens of a text in order. They end with the end mark, or with the error that stopped the
scan. -/
structure TokenStream where
  tokens : List Token
  failure : Option LexicalError
deriving DecidableEq, Repr

namespace Lexer

def isNameStart (character : Char) : Bool :=
  character.isAlpha || character == '_' || character == '$'

def isNamePart (character : Char) : Bool :=
  isNameStart character || character.isDigit

mutual

/-- Drops blanks, line breaks and comments. -/
def skipGap : List Char → Position → Except LexicalError (List Char × Position)
  | ' ' :: rest, position => skipGap rest (position.advance 1)
  | '\t' :: rest, position => skipGap rest (position.advance 1)
  | '\r' :: rest, position => skipGap rest (position.advance 1)
  | '\n' :: rest, position => skipGap rest position.nextLine
  | '#' :: rest, position => skipComment position rest (position.advance 1)
  | rest, position => .ok (rest, position)

/-- Drops the rest of a comment that opened at `start`. A comment needs the line break that ends
it. -/
def skipComment (start : Position) :
    List Char → Position → Except LexicalError (List Char × Position)
  | [], _ => .error (.unterminatedComment start)
  | '\n' :: rest, position => skipGap rest position.nextLine
  | _ :: rest, position => skipComment start rest (position.advance 1)

end

/-- The operator or punctuation mark at the head of a text, the longer spelling first: its kind, its
spelling and what follows. -/
def scanSymbol : List Char → Option (TokenKind × List Char × List Char)
  | '=' :: '=' :: rest => some (.equalEqual, ['=', '='], rest)
  | '<' :: '=' :: rest => some (.lessEqual, ['<', '='], rest)
  | '>' :: '=' :: rest => some (.greaterEqual, ['>', '='], rest)
  | '!' :: '=' :: rest => some (.notEqual, ['!', '='], rest)
  | '&' :: '&' :: rest => some (.and, ['&', '&'], rest)
  | '|' :: '|' :: rest => some (.or, ['|', '|'], rest)
  | '=' :: rest => some (.equal, ['='], rest)
  | '<' :: rest => some (.less, ['<'], rest)
  | '>' :: rest => some (.greater, ['>'], rest)
  | '!' :: rest => some (.not, ['!'], rest)
  | '&' :: rest => some (.and, ['&'], rest)
  | '|' :: rest => some (.or, ['|'], rest)
  | '+' :: rest => some (.plus, ['+'], rest)
  | '-' :: rest => some (.minus, ['-'], rest)
  | '*' :: rest => some (.star, ['*'], rest)
  | '/' :: rest => some (.slash, ['/'], rest)
  | '%' :: rest => some (.percent, ['%'], rest)
  | '(' :: rest => some (.leftParen, ['('], rest)
  | ')' :: rest => some (.rightParen, [')'], rest)
  | '{' :: rest => some (.leftBrace, ['{'], rest)
  | '}' :: rest => some (.rightBrace, ['}'], rest)
  | '[' :: rest => some (.leftBracket, ['['], rest)
  | ']' :: rest => some (.rightBracket, [']'], rest)
  | ',' :: rest => some (.comma, [','], rest)
  | ':' :: rest => some (.colon, [':'], rest)
  | ';' :: rest => some (.semicolon, [';'], rest)
  | '.' :: rest => some (.dot, ['.'], rest)
  | _ => none

/-- The digits at the head of a text, with one point and the digits after it. -/
def numberLength (text : List Char) : Nat :=
  let whole := text.takeWhile Char.isDigit
  match text.dropWhile Char.isDigit with
  | '.' :: rest => whole.length + 1 + (rest.takeWhile Char.isDigit).length
  | _ => whole.length

/-- The body of a string up to its closing delimiter, and the text after it. A backslash keeps a
delimiter right after it from closing the string. `taken` holds the body read so far, backwards. -/
def scanBody (delimiter : Char) (taken : List Char) : List Char → Option (List Char × List Char)
  | character :: next :: rest =>
    if character = delimiter then
      some (taken.reverse, next :: rest)
    else if character = '\\' ∧ next = delimiter then
      scanBody delimiter (next :: character :: taken) rest
    else
      scanBody delimiter (character :: taken) (next :: rest)
  | [character] => if character = delimiter then some (taken.reverse, []) else none
  | [] => none

/-- Replaces every backslash that `mark` follows by `replacement`, from left to right, together with
the mark. `done` holds the result so far, backwards. -/
def replaceEscape (mark replacement : Char) (done : List Char) : List Char → List Char
  | character :: next :: rest =>
    if character = '\\' ∧ next = mark then
      replaceEscape mark replacement (replacement :: done) rest
    else
      replaceEscape mark replacement (character :: done) (next :: rest)
  | text => done.reverse ++ text

/-- The text that a string body stands for. The four substitutions run one after another, each over
the result of the one before. -/
def unescape (delimiter : Char) (body : List Char) : List Char :=
  replaceEscape 't' '\t' [] <|
    replaceEscape 'r' '\r' [] <|
      replaceEscape 'n' '\n' [] <|
        replaceEscape delimiter delimiter [] body

def plainToken (kind : TokenKind) (spelling : List Char) (start : Position) : Token :=
  ⟨kind, String.ofList spelling, start, start.advance spelling.length⟩

/-- The token at the head of a text that starts with neither blank nor comment, and what follows
it. -/
def scanToken (head : Char) (tail : List Char) (start : Position) :
    Except LexicalError (Token × List Char) :=
  if head = '"' ∨ head = '\'' then
    match scanBody head [] tail with
    | none => .error (.unterminatedString start)
    | some (body, rest) =>
      .ok (⟨.string, String.ofList (unescape head body), start, start.afterQuoted body⟩, rest)
  else
    match scanSymbol (head :: tail) with
    | some (kind, spelling, rest) => .ok (plainToken kind spelling start, rest)
    | none =>
      if isNameStart head then
        let word := head :: tail.takeWhile isNamePart
        .ok (plainToken (.ofWord (String.ofList word)) word start, tail.dropWhile isNamePart)
      else if head.isDigit then
        let length := numberLength (head :: tail)
        .ok (plainToken .number ((head :: tail).take length) start, (head :: tail).drop length)
      else
        .error (.unknownCharacter head start)

theorem length_skipGap_le (text : List Char) :
    (∀ position rest after,
      skipGap text position = .ok (rest, after) → rest.length ≤ text.length) ∧
    (∀ start position rest after,
      skipComment start text position = .ok (rest, after) → rest.length ≤ text.length) := by
  induction text with
  | nil =>
    refine ⟨fun position rest after h => ?_, fun start position rest after h => ?_⟩
    · simp only [skipGap, Except.ok.injEq, Prod.mk.injEq] at h
      simp [← h.1]
    · simp [skipComment] at h
  | cons character text ih =>
    refine ⟨fun position rest after h => ?_, fun start position rest after h => ?_⟩
    · unfold skipGap at h
      split at h <;> rename_i heq <;> simp_all <;> grind
    · unfold skipComment at h
      split at h <;> rename_i heq <;> simp_all <;> grind

theorem length_of_scanBody {delimiter : Char} {taken text body rest : List Char}
    (h : scanBody delimiter taken text = some (body, rest)) : rest.length < text.length := by
  fun_induction scanBody delimiter taken text <;> grind

theorem length_of_scanSymbol {text spelling rest : List Char} {kind : TokenKind}
    (h : scanSymbol text = some (kind, spelling, rest)) : rest.length < text.length := by
  unfold scanSymbol at h
  split at h <;> grind

theorem numberLength_pos {head : Char} {tail : List Char} (h : head.isDigit = true) :
    0 < numberLength (head :: tail) := by
  unfold numberLength
  simp only [List.takeWhile_cons, h]
  split <;> grind

theorem length_of_scanToken {head : Char} {tail rest : List Char} {start : Position} {token : Token}
    (h : scanToken head tail start = .ok (token, rest)) : rest.length < (head :: tail).length := by
  unfold scanToken at h
  split at h
  · split at h
    · simp at h
    · rename_i body after hbody
      have hshorter := length_of_scanBody hbody
      simp only [Except.ok.injEq, Prod.mk.injEq] at h
      rw [← h.2, List.length_cons]
      omega
  · split at h
    · rename_i kind spelling after hsymbol
      have hshorter := length_of_scanSymbol hsymbol
      simp only [Except.ok.injEq, Prod.mk.injEq] at h
      rw [← h.2]
      exact hshorter
    · split at h
      · have hshorter := (List.dropWhile_sublist isNamePart (l := tail)).length_le
        simp only [Except.ok.injEq, Prod.mk.injEq] at h
        rw [← h.2, List.length_cons]
        omega
      · split at h
        · rename_i hdigit
          have : 0 < numberLength (head :: tail) := numberLength_pos hdigit
          simp only [Except.ok.injEq, Prod.mk.injEq] at h
          rw [← h.2, List.length_drop, List.length_cons]
          omega
        · simp at h

/-- All tokens of a text that starts at `position`. -/
def tokensFrom (text : List Char) (position : Position) : TokenStream :=
  match _hgap : skipGap text position with
  | .error failure => ⟨[], some failure⟩
  | .ok ([], stop) => ⟨[⟨.endOfInput, "", stop, stop⟩], none⟩
  | .ok (head :: tail, start) =>
    match _htoken : scanToken head tail start with
    | .error failure => ⟨[], some failure⟩
    | .ok (token, rest) =>
      let stream := tokensFrom rest token.stop
      ⟨token :: stream.tokens, stream.failure⟩
termination_by text.length
decreasing_by
  have := length_of_scanToken _htoken
  have := (length_skipGap_le text).1 _ _ _ _hgap
  omega

end Lexer

/-- The tokens of a whole source text. -/
def TokenStream.ofSource (source : String) : TokenStream :=
  Lexer.tokensFrom source.toList .first

end ScriptEngine
