namespace ScriptEngine

namespace CommandLine

/-- What the words of a command ask for. -/
structure Invocation where
  script : Option String
  arguments : List String
  printsTokens : Bool
  printsOutline : Bool
  settingsPath : Option String
  maxCallDepth : Option Nat
  listsLibrary : Bool
deriving DecidableEq, Repr

/-- Why no script is run: the help was asked for, or the words make no sense. -/
inductive Refusal
  | help
  | misuse
deriving DecidableEq, Repr

inductive Flag
  | tokens
  | outline
  | library
deriving DecidableEq, Repr

/-- An option that takes a value. -/
inductive Setting
  | settingsPath
  | maxCallDepth
deriving DecidableEq, Repr

inductive OptionName
  | flag (flag : Flag)
  | setting (setting : Setting)
  | help
deriving DecidableEq, Repr

def longOption? : String → Option OptionName
  | "print-tokens" => some (.flag .tokens)
  | "print-ast" => some (.flag .outline)
  | "docs" => some (.flag .library)
  | "config" => some (.setting .settingsPath)
  | "max-depth" => some (.setting .maxCallDepth)
  | "help" => some .help
  | _ => none

/-- A word of the command line by its form. -/
inductive Word
  | plain
  | separator
  | long (name : String) (value : Option String)
  | short (letters : List Char)
deriving DecidableEq, Repr

def Word.ofText (text : String) : Word :=
  match text.toList with
  | ['-', '-'] => .separator
  | '-' :: '-' :: rest =>
    let name := String.ofList (rest.takeWhile (· != '='))
    match rest.dropWhile (· != '=') with
    | [] => .long name none
    | _ :: value => .long name (some (String.ofList value))
  | '-' :: first :: rest => .short (first :: rest)
  | _ => .plain

/-- Whether a word has the form of an option but is none. -/
def Word.isUnknown : Word → Bool
  | long name _ => (longOption? name).isNone
  | short letters => letters.any (· != 'h')
  | _ => false

namespace Invocation

def empty : Invocation :=
  ⟨none, [], false, false, none, none, false⟩

def raise (invocation : Invocation) : Flag → Except Refusal Invocation
  | .tokens =>
    if invocation.printsTokens then .error .misuse
    else .ok { invocation with printsTokens := true }
  | .outline =>
    if invocation.printsOutline then .error .misuse
    else .ok { invocation with printsOutline := true }
  | .library =>
    if invocation.listsLibrary then .error .misuse
    else .ok { invocation with listsLibrary := true }

/-- A count of at most 64 bits, perhaps with a plus in front. -/
def readCount? (text : String) : Option Nat :=
  let digits := match text.toList with
    | '+' :: rest => rest
    | digits => digits
  if digits.isEmpty ∨ ¬ digits.all Char.isDigit then
    none
  else
    let count := digits.foldl (fun count digit => 10 * count + (digit.toNat - '0'.toNat)) 0
    if count ≤ 18446744073709551615 then some count else none

def set (invocation : Invocation) (setting : Setting) (value : String) :
    Except Refusal Invocation :=
  match setting with
  | .settingsPath =>
    if value.isEmpty ∨ invocation.settingsPath.isSome then .error .misuse
    else .ok { invocation with settingsPath := some value }
  | .maxCallDepth =>
    match readCount? value, invocation.maxCallDepth with
    | some count, none => .ok { invocation with maxCallDepth := some count }
    | _, _ => .error .misuse

def setScript (invocation : Invocation) (path : String) : Except Refusal Invocation :=
  if path.isEmpty then .error .misuse else .ok { invocation with script := some path }

/-- Takes all words as they are: the script, unless it is known already, and its arguments. -/
def takeAll (invocation : Invocation) (words : List String) : Except Refusal Invocation :=
  match invocation.script, words with
  | some _, words => .ok { invocation with arguments := words }
  | none, [] => .ok invocation
  | none, path :: rest => do
    return { ← invocation.setScript path with arguments := rest }

/-- Whether a word may be the value of the option before it. Behind the script this holds also for
words in the form of an option that is none. -/
def acceptsValue (invocation : Invocation) (word : String) : Bool :=
  let form := Word.ofText word
  form = .plain || (invocation.script.isSome && form.isUnknown)

/-- Reads the words from left to right. Options are known before the script and right behind it; the
first other word behind it starts the arguments of the script. -/
def readWords : List String → Invocation → Except Refusal Invocation
  | [], invocation => .ok invocation
  | word :: rest, invocation =>
    let form := Word.ofText word
    if invocation.script.isSome ∧ (form = .plain ∨ form.isUnknown) then
      .ok { invocation with arguments := word :: rest }
    else
      match form with
      | .plain => do
        readWords rest (← invocation.setScript word)
      | .separator => invocation.takeAll rest
      | .short letters => .error (if letters.head? = some 'h' then .help else .misuse)
      | .long name value =>
        match longOption? name, value, rest with
        | some (.flag flag), none, rest => do
          readWords rest (← invocation.raise flag)
        | some .help, none, _ => .error .help
        | some (.setting setting), some value, rest => do
          readWords rest (← invocation.set setting value)
        | some (.setting setting), none, value :: rest =>
          if invocation.acceptsValue value then do
            readWords rest (← invocation.set setting value)
          else
            .error .misuse
        | _, _, _ => .error .misuse

/-- The invocation that words make. A script is needed unless the library is to be listed. -/
def ofWords (words : List String) : Except Refusal Invocation := do
  let invocation ← readWords words empty
  if invocation.script.isNone ∧ ¬ invocation.listsLibrary then
    throw .misuse
  else
    return invocation

end Invocation

end CommandLine

end ScriptEngine
