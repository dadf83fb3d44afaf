import ScriptEngine.Proofs.Source.Literals

/-!
# Writing tokens

Tokens are written with a blank in front of each, except for opening parentheses and brackets that
have to touch what they follow. The scan gets the same tokens back.
-/

namespace ScriptEngine

namespace TokenKind

def isKeyword : TokenKind → Bool
  | kwTrue | kwFalse | kwNil | kwMy | kwSub | kwWhen | kwCase | kwIf | kwUnless | kwElse | kwWhile
  | kwFor | kwIn | kwUntil | kwDo | kwReturn | kwInc | kwDec | kwBy | kwBreak | kwNext => true
  | _ => false

def isSymbol : TokenKind → Bool
  | identifier | number | string | endOfInput => false
  | kind => !kind.isKeyword

/-- The spelling of a keyword or a symbol. -/
def spelling : TokenKind → String
  | kwTrue => "true"
  | kwFalse => "false"
  | kwNil => "nil"
  | kwMy => "my"
  | kwSub => "sub"
  | kwWhen => "when"
  | kwCase => "case"
  | kwIf => "if"
  | kwUnless => "unless"
  | kwElse => "else"
  | kwWhile => "while"
  | kwFor => "for"
  | kwIn => "in"
  | kwUntil => "until"
  | kwDo => "do"
  | kwReturn => "return"
  | kwInc => "inc"
  | kwDec => "dec"
  | kwBy => "by"
  | kwBreak => "break"
  | kwNext => "next"
  | plus => "+"
  | minus => "-"
  | star => "*"
  | slash => "/"
  | percent => "%"
  | and => "&"
  | or => "|"
  | not => "!"
  | equalEqual => "=="
  | notEqual => "!="
  | less => "<"
  | lessEqual => "<="
  | greater => ">"
  | greaterEqual => ">="
  | equal => "="
  | comma => ","
  | colon => ":"
  | semicolon => ";"
  | leftParen => "("
  | rightParen => ")"
  | leftBrace => "\x7b"
  | rightBrace => "\x7d"
  | leftBracket => "["
  | rightBracket => "]"
  | dot => "."
  | identifier => ""
  | number => ""
  | string => ""
  | endOfInput => ""

end TokenKind

/-- A token as it is to be written: its kind and its literal, how it is spelled, and whether it
touches the token before it. -/
structure Lexeme where
  kind : TokenKind
  literal : String
  spelling : List Char
  touches : Bool

namespace Lexeme

/-- A keyword or a symbol. -/
def fixed (kind : TokenKind) : Lexeme :=
  ⟨kind, kind.spelling, kind.spelling.toList, false⟩

/-- An opening parenthesis or bracket of a call or an index. -/
def touching (kind : TokenKind) : Lexeme :=
  { fixed kind with touches := true }

def word (text : String) : Lexeme :=
  ⟨.ofWord text, text, text.toList, false⟩

def numeral (text : List Char) : Lexeme :=
  ⟨.number, String.ofList text, text, false⟩

def string (value : String) : Lexeme :=
  ⟨.string, value, '"' :: (Lexer.quotedBody '"' value.toList ++ ['"']), false⟩

/-- The text of lexemes in a row. -/
def layout (lexemes : List Lexeme) : List Char :=
  lexemes.flatMap fun lexeme => if lexeme.touches then lexeme.spelling else ' ' :: lexeme.spelling

end Lexeme

open Lexer

/-- The lexeme is scanned as one token with its kind and its literal, before any blank, opening
parenthesis or opening bracket. -/
def Lexeme.IsScanned (lexeme : Lexeme) : Prop :=
  ∃ head tail, lexeme.spelling = head :: tail ∧ head ∉ [' ', '\t', '\r', '\n', '#'] ∧
    (lexeme.touches → isBoundary head) ∧
    ∀ rest start, (∀ next ∈ rest.head?, isBoundary next) → ∃ token,
      scanToken head (tail ++ rest) start = .ok (token, rest) ∧ token.kind = lexeme.kind ∧
        token.literal = lexeme.literal ∧ token.start = start

namespace Lexeme

theorem not_mem_gap {head : Char} (h : isNamePart head) :
    head ∉ [' ', '\t', '\r', '\n', '#'] := by
  intro hgap
  simp only [List.mem_cons, List.not_mem_nil, or_false] at hgap
  rcases hgap with rfl | rfl | rfl | rfl | rfl <;> exact absurd h (by decide)

theorem isScanned_word {text : String} (h : IsWord text.toList) : (word text).IsScanned := by
  obtain ⟨head, tail, htext, hhead, htail⟩ := h
  have hpart : isNamePart head := by
    unfold isNamePart
    rw [hhead]
    rfl
  refine ⟨head, tail, htext, not_mem_gap hpart, (absurd · Bool.false_ne_true),
    fun rest start hrest => ?_⟩
  refine ⟨_, scanToken_word hhead htail (stops_of_boundary (by decide) hrest) start, ?_, ?_, rfl⟩
  · rw [← htext, String.ofList_toList]
    rfl
  · rw [← htext]
    exact String.ofList_toList

theorem isScanned_numeral {text : List Char} (h : IsNumeral text) : (numeral text).IsScanned := by
  obtain ⟨head, tail, rfl, hhead, hlength⟩ := h
  have hpart : isNamePart head := by
    unfold isNamePart
    rw [hhead, Bool.or_true]
  refine ⟨head, tail, rfl, not_mem_gap hpart, (absurd · Bool.false_ne_true),
    fun rest start hrest => ?_⟩
  have hstops : Stops (extendsNumeral (head :: tail)) rest :=
    stops_of_boundary ⟨rfl, rfl, rfl⟩ hrest
  exact ⟨_, scanToken_numeral hhead hlength hstops start, rfl, rfl, rfl⟩

theorem isScanned_string {value : String} (h : IsPayload value.toList) :
    (string value).IsScanned := by
  refine ⟨'"', _, rfl, by decide, (absurd · Bool.false_ne_true), fun rest start hrest => ?_⟩
  rw [List.append_assoc, List.singleton_append, scanToken_quoted (.inl rfl) h]
  exact ⟨_, rfl, rfl, String.ofList_toList, rfl⟩

/-- Keywords are spelled as words. -/
theorem isWord_spelling {kind : TokenKind} (h : kind.isKeyword) :
    IsWord kind.spelling.toList ∧ TokenKind.ofWord kind.spelling = kind := by
  cases kind
  all_goals first
    | exact absurd h Bool.false_ne_true
    | exact ⟨⟨_, _, rfl, rfl, List.all_eq_true.mp rfl⟩, rfl⟩

theorem isScanned_keyword {kind : TokenKind} (h : kind.isKeyword) : (fixed kind).IsScanned := by
  obtain ⟨hword, hkind⟩ := isWord_spelling h
  have hscanned := isScanned_word hword
  unfold word at hscanned
  rw [hkind] at hscanned
  exact hscanned

theorem isScanned_symbol {kind : TokenKind} (h : kind.isSymbol) : (fixed kind).IsScanned := by
  cases kind
  all_goals first
    | exact absurd h Bool.false_ne_true
    | refine ⟨_, _, rfl, by decide, (absurd · Bool.false_ne_true), fun rest start hrest => ?_⟩
      rcases boundary_cases hrest with rfl | ⟨tail, rfl | rfl | rfl⟩ <;> exact ⟨_, rfl, rfl, rfl, rfl⟩

theorem isScanned_touching {kind : TokenKind} (h : kind = .leftParen ∨ kind = .leftBracket) :
    (touching kind).IsScanned := by
  rcases h with rfl | rfl
  · exact ⟨'(', [], rfl, by decide, fun _ => rfl, fun rest start hrest => ⟨_, rfl, rfl, rfl, rfl⟩⟩
  · exact ⟨'[', [], rfl, by decide, fun _ => rfl, fun rest start hrest => ⟨_, rfl, rfl, rfl, rfl⟩⟩

end Lexeme

/-- Tokens with the kinds and literals of lexemes, and the mark at the end of the text. A token that
is to touch what comes before it starts where that stops. -/
inductive Spells : Position → List Token → List Lexeme → Prop
  | done (stop place : Position) : Spells stop [⟨.endOfInput, "", place, place⟩] []
  | next {stop : Position} {token : Token} {tokens : List Token} {lexeme : Lexeme}
      {lexemes : List Lexeme} (kind : token.kind = lexeme.kind)
      (literal : token.literal = lexeme.literal) (touches : lexeme.touches → token.start = stop)
      (rest : Spells token.stop tokens lexemes) : Spells stop (token :: tokens) (lexeme :: lexemes)

/-- The kind of the first token. -/
def Lexeme.headKind (lexemes : List Lexeme) : TokenKind :=
  match lexemes with
  | [] => .endOfInput
  | lexeme :: _ => lexeme.kind

section

variable {stop : Position} {token : Token} {tokens : List Token} {lexeme : Lexeme}
  {lexemes : List Lexeme}

theorem Spells.kind_eq (h : Spells stop (token :: tokens) lexemes) :
    token.kind = Lexeme.headKind lexemes := by
  cases h with
  | done => rfl
  | next kind literal touches rest => exact kind

theorem Spells.of_cons (h : Spells stop (token :: tokens) (lexeme :: lexemes)) :
    token.literal = lexeme.literal ∧ (lexeme.touches → token.start = stop) ∧
      Spells token.stop tokens lexemes := by
  cases h with
  | next kind literal touches rest => exact ⟨literal, touches, rest⟩

theorem Spells.exists_cons (h : Spells stop tokens lexemes) :
    ∃ token rest, tokens = token :: rest := by
  cases h with
  | done => exact ⟨_, _, rfl⟩
  | next => exact ⟨_, _, rfl⟩

end

namespace Lexeme

theorem boundary_layout {lexemes : List Lexeme} (h : ∀ lexeme ∈ lexemes, lexeme.IsScanned) :
    ∀ next ∈ (layout lexemes).head?, isBoundary next := by
  cases lexemes with
  | nil => exact fun next hnext => absurd hnext (Option.not_mem_none next)
  | cons lexeme lexemes =>
      obtain ⟨head, tail, hspelling, _, htouches, _⟩ := h lexeme List.mem_cons_self
      intro next hnext
      unfold layout at hnext
      rw [List.flatMap_cons] at hnext
      by_cases htouch : lexeme.touches
      · rw [if_pos htouch, hspelling] at hnext
        rw [← Option.some.inj hnext]
        exact htouches htouch
      · rw [if_neg htouch] at hnext
        rw [← Option.some.inj hnext]
        rfl

theorem skipGap_of_not_mem {head : Char} (h : head ∉ [' ', '\t', '\r', '\n', '#'])
    (tail : List Char) (position : Position) :
    skipGap (head :: tail) position = .ok (head :: tail, position) := by
  simp only [List.mem_cons, List.not_mem_nil, or_false, not_or] at h
  obtain ⟨hspace, htab, hreturn, hnewline, hcomment⟩ := h
  unfold skipGap
  split
  case h_6 => rfl
  all_goals
    rename_i heq
    exact absurd (List.cons.inj heq).1 (by assumption)

/-- The blank in front of a lexeme is skipped. A token that touches starts at once. -/
theorem skipGap_layout {lexeme : Lexeme} {head : Char} {tail rest : List Char}
    (hspelling : lexeme.spelling = head :: tail) (hgap : head ∉ [' ', '\t', '\r', '\n', '#'])
    (position : Position) :
    ∃ start, skipGap ((if lexeme.touches then lexeme.spelling else ' ' :: lexeme.spelling) ++ rest)
        position = .ok (head :: (tail ++ rest), start) ∧
      (lexeme.touches → start = position) := by
  rw [hspelling]
  by_cases htouch : lexeme.touches
  · rw [if_pos htouch]
    exact ⟨position, skipGap_of_not_mem hgap _ position, fun _ => rfl⟩
  · rw [if_neg htouch]
    refine ⟨position.advance 1, ?_, fun htouches => absurd htouches htouch⟩
    exact skipGap_of_not_mem hgap _ (position.advance 1)

/-- The scan of a text, without the proofs that it ends. -/
theorem tokensFrom_eq (text : List Char) (position : Position) :
    tokensFrom text position =
      match skipGap text position with
      | .error failure => ⟨[], some failure⟩
      | .ok ([], stop) => ⟨[⟨.endOfInput, "", stop, stop⟩], none⟩
      | .ok (head :: tail, start) =>
        match scanToken head tail start with
        | .error failure => ⟨[], some failure⟩
        | .ok (token, rest) =>
          ⟨token :: (tokensFrom rest token.stop).tokens, (tokensFrom rest token.stop).failure⟩ := by
  rw [tokensFrom]
  split
  · rename_i hgap
    rw [hgap]
  · rename_i hgap
    rw [hgap]
  · rename_i hgap
    rw [hgap]
    dsimp only
    split
    · rename_i htoken
      rw [htoken]
    · rename_i htoken
      rw [htoken]

/-- **Scanning what is written.** The tokens of a layout are those of the lexemes. -/
theorem spells_tokensFrom {lexemes : List Lexeme} (h : ∀ lexeme ∈ lexemes, lexeme.IsScanned)
    (position : Position) :
    Spells position (tokensFrom (layout lexemes) position).tokens lexemes ∧
      (tokensFrom (layout lexemes) position).failure = none := by
  induction lexemes generalizing position with
  | nil =>
      unfold tokensFrom
      exact ⟨.done position position, rfl⟩
  | cons lexeme lexemes ih =>
      obtain ⟨hlexeme, hlexemes⟩ := List.forall_mem_cons.mp h
      obtain ⟨head, tail, hspelling, hgap, _, hscan⟩ := hlexeme
      obtain ⟨start, hskip, htouches⟩ :=
        @skipGap_layout lexeme head tail (layout lexemes) hspelling hgap position
      obtain ⟨token, htoken, hkind, hliteral, hstart⟩ :=
        hscan (layout lexemes) start (boundary_layout hlexemes)
      obtain ⟨hspells, hfailure⟩ := ih hlexemes token.stop
      have hlayout : skipGap (layout (lexeme :: lexemes)) position =
          .ok (head :: (tail ++ layout lexemes), start) := hskip
      have hstream : tokensFrom (layout (lexeme :: lexemes)) position =
          ⟨token :: (tokensFrom (layout lexemes) token.stop).tokens,
            (tokensFrom (layout lexemes) token.stop).failure⟩ := by
        rw [tokensFrom_eq, hlayout]
        dsimp only
        rw [htoken]
      rw [hstream]
      exact ⟨.next hkind hliteral (fun htouch => hstart.trans (htouches htouch)) hspells, hfailure⟩

end Lexeme

end ScriptEngine
