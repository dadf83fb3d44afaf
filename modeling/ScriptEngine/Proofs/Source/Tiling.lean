import Mathlib
import ScriptEngine.Proofs.Source.Lexemes

/-!
# Gaps and lexemes

A text without lexical faults is a row of gaps and lexemes, one lexeme for each token. Gaps hold
blanks, line breaks and comments, and each lexeme is as long as it can be. This describes the scan
completely (`tiles_iff`): whatever is such a row is scanned as these tokens.
-/

namespace ScriptEngine

/-- Blanks, line breaks, and comments with the line breaks that end them. -/
inductive IsGap : List Char → Prop
  | nil : IsGap []
  | blank {character : Char} {rest : List Char} (h : character ∈ [' ', '\t', '\r', '\n'])
      (hrest : IsGap rest) : IsGap (character :: rest)
  | comment {body rest : List Char} (h : '\n' ∉ body) (hrest : IsGap rest) :
      IsGap ('#' :: (body ++ '\n' :: rest))

namespace Position

/-- The place after one more character of a gap. -/
def afterBlank (position : Position) (character : Char) : Position :=
  if character = '\n' then position.nextLine else position.advance 1

def afterGap (position : Position) (gap : List Char) : Position :=
  gap.foldl afterBlank position

/-- The place after a lexeme. Only strings have line breaks, which leave the column running. -/
def afterLexeme (position : Position) (lexeme : List Char) : Position :=
  ⟨position.line + lexeme.count '\n', position.column + lexeme.length⟩

end Position

namespace Lexer

/-- The symbols of two characters that begin with a symbol of one. -/
def longSymbols : List (List Char) :=
  [['=', '='], ['<', '='], ['>', '='], ['!', '='], ['&', '&'], ['|', '|']]

/-- Whether a character right after the spelling of a token would belong to it. -/
def extendsSpelling (kind : TokenKind) (spelling : List Char) (next : Char) : Bool :=
  match kind with
  | .string => false
  | .number => extendsNumeral spelling next
  | .identifier => isNamePart next
  | kind => if kind.isKeyword then isNamePart next else longSymbols.contains (spelling ++ [next])

/-- A spelling of a token with a kind and a literal. `and` and `or` may be written twice. -/
inductive IsSpelling : TokenKind → String → List Char → Prop
  | word {text : List Char} (h : IsWord text) :
      IsSpelling (.ofWord (String.ofList text)) (String.ofList text) text
  | numeral {text : List Char} (h : IsNumeral text) : IsSpelling .number (String.ofList text) text
  | symbol {kind : TokenKind} (h : kind.isSymbol) :
      IsSpelling kind kind.spelling kind.spelling.toList
  | twice {kind : TokenKind} (h : kind = .and ∨ kind = .or) :
      IsSpelling kind (kind.spelling ++ kind.spelling) (kind.spelling ++ kind.spelling).toList
  | string {text payload : List Char} (h : IsStringLiteral text payload) :
      IsSpelling .string (String.ofList payload) text

end Lexer

open Lexer

/-- A lexeme with the gap before it. -/
structure Piece where
  gap : List Char
  lexeme : List Char

/-- A text, from a place on, is a row of pieces and a last gap. It has one token for each piece,
which starts after the gap and stops after the lexeme, and the mark at the end of the text. What
follows a lexeme does not extend it. -/
inductive Tiles : Position → List Char → List Token → List Piece → Prop
  | done {position : Position} {gap : List Char} (hgap : IsGap gap) :
      Tiles position gap
        [⟨.endOfInput, "", position.afterGap gap, position.afterGap gap⟩] []
  | next {position : Position} {gap lexeme rest : List Char} {token : Token} {tokens : List Token}
      {pieces : List Piece} (hgap : IsGap gap)
      (hspelling : IsSpelling token.kind token.literal lexeme)
      (hstart : token.start = position.afterGap gap)
      (hstop : token.stop = token.start.afterLexeme lexeme)
      (hlongest : Stops (extendsSpelling token.kind lexeme) rest)
      (hrest : Tiles token.stop rest tokens pieces) :
      Tiles position (gap ++ (lexeme ++ rest)) (token :: tokens) (⟨gap, lexeme⟩ :: pieces)

/-! ### Gaps -/

/-- The characters that a gap may begin with. -/
def opensGap (character : Char) : Bool :=
  [' ', '\t', '\r', '\n', '#'].contains character

namespace IsGap

variable {gap rest : List Char}

theorem append (h : IsGap gap) (hrest : IsGap rest) : IsGap (gap ++ rest) := by
  induction h with
  | nil => exact hrest
  | blank h _ ih => exact .blank h ih
  | comment h _ ih =>
      rw [List.cons_append, List.append_assoc, List.cons_append]
      exact .comment h ih

theorem skipComment_append {body : List Char} (h : '\n' ∉ body) (start position : Position) :
    skipComment start (body ++ '\n' :: rest) position =
      skipGap rest ((body ++ ['\n']).foldl Position.afterBlank position) := by
  induction body generalizing position with
  | nil => rfl
  | cons character body ih =>
      obtain ⟨hhead, hbody⟩ := not_or.mp (List.mem_cons.not.mp h)
      have hblank : position.afterBlank character = position.advance 1 := by
        unfold Position.afterBlank
        rw [if_neg (Ne.symm hhead)]
      rw [List.cons_append, List.cons_append, List.foldl_cons, hblank, ← ih hbody]
      rw [skipComment]
      exact fun heq => hhead heq.symm

/-- The scan skips a gap up to the first character that no gap begins with. -/
theorem skipGap_append (h : IsGap gap) (hrest : Stops opensGap rest) (position : Position) :
    skipGap (gap ++ rest) position = .ok (rest, position.afterGap gap) := by
  induction h generalizing position with
  | nil =>
      cases rest with
      | nil => rfl
      | cons head tail =>
          have hhead : opensGap head = false := hrest head rfl
          exact Lexeme.skipGap_of_not_mem (by simpa [opensGap] using hhead) tail position
  | blank h _ ih =>
      simp only [List.mem_cons, List.not_mem_nil, or_false] at h
      rcases h with rfl | rfl | rfl | rfl <;> exact ih _
  | @comment body others h _ ih =>
      have hskip := @skipComment_append (others ++ rest) body h position (position.advance 1)
      rw [List.cons_append, List.append_assoc, List.cons_append]
      change skipComment position (body ++ '\n' :: (others ++ rest)) (position.advance 1) = _
      rw [hskip, ih]
      unfold Position.afterGap
      rw [← List.foldl_append, List.append_assoc, List.singleton_append, List.foldl_cons]
      rfl

end IsGap

theorem afterGap_cons (position : Position) (character : Char) (gap : List Char) :
    position.afterGap (character :: gap) = (position.afterBlank character).afterGap gap := rfl

theorem Position.line_afterGap (position : Position) (gap : List Char) :
    (position.afterGap gap).line = position.line + gap.count '\n' := by
  induction gap generalizing position with
  | nil => rfl
  | cons character gap ih =>
      rw [afterGap_cons, ih, afterBlank]
      by_cases hbreak : character = '\n'
      · rw [if_pos hbreak, hbreak, List.count_cons_self, nextLine]
        exact Nat.add_right_comm _ _ _
      · rw [if_neg hbreak, List.count_cons_of_ne hbreak]
        rfl

/-- What the scan skips is a gap, and no gap begins with what it stops at. -/
theorem isGap_of_skipGap (text : List Char) :
    (∀ position rest after, skipGap text position = .ok (rest, after) →
      ∃ gap, IsGap gap ∧ text = gap ++ rest ∧ after = position.afterGap gap ∧
        Stops opensGap rest) ∧
    (∀ start position rest after, skipComment start text position = .ok (rest, after) →
      ∃ body gap, '\n' ∉ body ∧ IsGap gap ∧ text = body ++ '\n' :: (gap ++ rest) ∧
        after = position.afterGap (body ++ '\n' :: gap) ∧ Stops opensGap rest) := by
  induction text with
  | nil =>
      refine ⟨fun position rest after h => ?_, fun start position rest after h => ?_⟩
      · cases h
        exact ⟨[], .nil, rfl, rfl, stops_nil opensGap⟩
      · cases h
  | cons character text ih =>
      obtain ⟨ihgap, ihcomment⟩ := ih
      have hblank : ∀ (position : Position) rest after, character ∈ [' ', '\t', '\r', '\n'] →
          skipGap text (position.afterBlank character) = .ok (rest, after) →
          ∃ gap, IsGap gap ∧ character :: text = gap ++ rest ∧ after = position.afterGap gap ∧
            Stops opensGap rest := by
        intro position rest after hmem h
        obtain ⟨gap, hgap, rfl, rfl, hstops⟩ := ihgap _ _ _ h
        exact ⟨character :: gap, .blank hmem hgap, rfl, rfl, hstops⟩
      refine ⟨fun position rest after h => ?_, fun start position rest after h => ?_⟩
      · by_cases hopens : opensGap character
        · simp only [opensGap, List.contains_cons, List.contains_nil, Bool.or_false,
            Bool.or_eq_true, beq_iff_eq] at hopens
          rcases hopens with rfl | rfl | rfl | rfl | rfl
          · exact hblank position rest after (by decide) h
          · exact hblank position rest after (by decide) h
          · exact hblank position rest after (by decide) h
          · exact hblank position rest after (by decide) h
          · obtain ⟨body, gap, hbody, hgap, rfl, rfl, hstops⟩ := ihcomment _ _ _ _ h
            refine ⟨'#' :: (body ++ '\n' :: gap), .comment hbody hgap, ?_, rfl, hstops⟩
            rw [List.cons_append, List.append_assoc, List.cons_append]
        · rw [Lexeme.skipGap_of_not_mem (by simpa [opensGap] using hopens)] at h
          cases h
          exact ⟨[], .nil, rfl, rfl, stops_cons (Bool.eq_false_iff.mpr hopens) text⟩
      · by_cases hbreak : character = '\n'
        · subst hbreak
          obtain ⟨gap, hgap, rfl, rfl, hstops⟩ := ihgap _ _ _ h
          exact ⟨[], gap, List.not_mem_nil, hgap, rfl, rfl, hstops⟩
        · rw [skipComment] at h
          · obtain ⟨body, gap, hbody, hgap, rfl, rfl, hstops⟩ := ihcomment _ _ _ _ h
            refine ⟨character :: body, gap, ?_, hgap, rfl, ?_, hstops⟩
            · exact List.not_mem_cons_of_ne_of_not_mem (Ne.symm hbreak) hbody
            · rw [List.cons_append, afterGap_cons, Position.afterBlank, if_neg hbreak]
          · exact hbreak

/-! ### Lexemes -/

namespace Lexer

theorem extendsSpelling_ofWord {word : String} (text : List Char) :
    extendsSpelling (.ofWord word) text = isNamePart := by
  unfold TokenKind.ofWord
  split <;> rfl

/-- Only the character that completes a symbol of two characters extends a symbol. -/
theorem stops_symbol_iff {kind : TokenKind} {spelling rest : List Char} (hkind : kind.isSymbol) :
    Stops (extendsSpelling kind spelling) rest ↔
      ∀ next ∈ rest.head?, spelling ++ [next] ∉ longSymbols := by
  have hextends : ∀ next,
      extendsSpelling kind spelling next = longSymbols.contains (spelling ++ [next]) := by
    intro next
    cases kind
    all_goals first
      | exact absurd hkind Bool.false_ne_true
      | rfl
  unfold Stops
  simp [hextends]

theorem isSpelling_of_scanSymbol {text spelling rest : List Char} {kind : TokenKind}
    (h : scanSymbol text = some (kind, spelling, rest)) :
    text = spelling ++ rest ∧ IsSpelling kind (String.ofList spelling) spelling ∧
      spelling.count '\n' = 0 ∧ kind.isSymbol ∧
        ∀ next ∈ rest.head?, spelling ++ [next] ∉ longSymbols := by
  unfold scanSymbol at h
  split at h
  case h_28 => cases h
  case h_5 =>
    cases h
    exact ⟨rfl, .twice (.inl rfl), rfl, rfl, by simp [longSymbols]⟩
  case h_6 =>
    cases h
    exact ⟨rfl, .twice (.inr rfl), rfl, rfl, by simp [longSymbols]⟩
  all_goals
    cases h
    refine ⟨rfl, .symbol rfl, rfl, rfl, fun next hnext => ?_⟩
    obtain ⟨tail, rfl⟩ := List.head?_eq_some_iff.mp hnext
    simp [longSymbols]
  -- A symbol of one character that begins a longer one: the longer one was tried first.
  all_goals
    rename_i hother
    rintro rfl
    exact hother _ rfl

theorem scanSymbol_append {kind : TokenKind} {rest : List Char} (hkind : kind.isSymbol)
    (hrest : ∀ next ∈ rest.head?, kind.spelling.toList ++ [next] ∉ longSymbols) :
    scanSymbol (kind.spelling.toList ++ rest) = some (kind, kind.spelling.toList, rest) := by
  cases rest with
  | nil =>
      cases kind
      all_goals first
        | exact absurd hkind Bool.false_ne_true
        | rfl
  | cons next tail =>
      have hnext := hrest next rfl
      cases kind
      all_goals first
        | exact absurd hkind Bool.false_ne_true
        | rfl
        | simp [longSymbols, TokenKind.spelling] at hnext
          simp [scanSymbol, TokenKind.spelling, hnext]

/-- The numeral at the head of a text is as long as it can be. -/
theorem isNumeral_take_numberLength (text : List Char) :
    numberLength (text.take (numberLength text)) = (text.take (numberLength text)).length ∧
      Stops (extendsNumeral (text.take (numberLength text))) (text.drop (numberLength text)) := by
  have hsplit := List.takeWhile_append_dropWhile (p := Char.isDigit) (l := text)
  have hwhole : ∀ digit ∈ text.takeWhile Char.isDigit, digit.isDigit := fun digit hdigit =>
    List.mem_takeWhile_imp hdigit
  have hothers := stops_dropWhile Char.isDigit text
  generalize text.takeWhile Char.isDigit = whole at hsplit hwhole
  generalize text.dropWhile Char.isDigit = others at hsplit hothers
  subst hsplit
  by_cases hpoint : others.head? = some '.'
  · obtain ⟨after, rfl⟩ := List.head?_eq_some_iff.mp hpoint
    have hfraction : ∀ digit ∈ after.takeWhile Char.isDigit, digit.isDigit := fun digit hdigit =>
      List.mem_takeWhile_imp hdigit
    have hrest := stops_dropWhile Char.isDigit after
    rw [← List.takeWhile_append_dropWhile (p := Char.isDigit) (l := after)]
    generalize after.takeWhile Char.isDigit = fraction at hfraction
    generalize after.dropWhile Char.isDigit = rest at hrest
    rw [← List.cons_append, ← List.append_assoc, numberLength_of_point hwhole hfraction hrest,
      List.take_left, List.drop_left]
    refine ⟨?_, fun next hnext => ?_⟩
    · have hlength := numberLength_of_point hwhole hfraction (stops_nil Char.isDigit)
      rwa [List.append_nil] at hlength
    · have hmem : (whole ++ '.' :: fraction).contains '.' = true := by simp
      rw [extendsNumeral, hrest next hnext, hmem]
      simp
  · rw [numberLength_of_digits hwhole hothers hpoint, List.take_left, List.drop_left]
    refine ⟨?_, fun next hnext => ?_⟩
    · have hlength := numberLength_of_digits hwhole (stops_nil Char.isDigit) (Option.some_ne_none _).symm
      rwa [List.append_nil] at hlength
    · have hne : next ≠ '.' := fun heq => hpoint (heq ▸ hnext)
      rw [extendsNumeral, hothers next hnext]
      simp [hne]

section

variable {delimiter : Char} {taken text body rest : List Char}

/-- What follows a closed string does not change its body. -/
theorem scanBody_append (h : scanBody delimiter taken text = some (body, rest))
    (more : List Char) : scanBody delimiter taken (text ++ more) = some (body, rest ++ more) := by
  fun_induction scanBody delimiter taken text with
  | case1 taken next others =>
      cases h
      simp [scanBody]
  | case2 taken character next others hopen hpair ih =>
      rw [List.cons_append, List.cons_append, scanBody, if_neg hopen, if_pos hpair]
      exact ih h
  | case3 taken character next others hopen hpair ih =>
      rw [List.cons_append, List.cons_append, scanBody, if_neg hopen, if_neg hpair]
      exact ih h
  | case4 taken =>
      cases h
      cases more with
      | nil => simp [scanBody]
      | cons next more => simp [scanBody]
  | case5 taken character hopen => cases h
  | case6 taken => cases h

/-- A closed string is a body and a delimiter, and closes there whatever follows. -/
theorem exists_body_of_scanBody (h : scanBody delimiter taken text = some (body, rest)) :
    ∃ inner, body = taken.reverse ++ inner ∧ text = inner ++ delimiter :: rest ∧
      scanBody delimiter taken (inner ++ [delimiter]) = some (body, []) := by
  fun_induction scanBody delimiter taken text with
  | case1 taken next others =>
      cases h
      exact ⟨[], by simp, rfl, by simp [scanBody]⟩
  | case2 taken character next others hopen hpair ih =>
      obtain ⟨inner, hbody, rfl, hscan⟩ := ih h
      refine ⟨character :: next :: inner, by simp [hbody], rfl, ?_⟩
      rw [List.cons_append, List.cons_append, scanBody, if_neg hopen, if_pos hpair, hscan]
  | case3 taken character next others hopen hpair ih =>
      obtain ⟨inner, hbody, htext, hscan⟩ := ih h
      refine ⟨character :: inner, by simp [hbody], congrArg (character :: ·) htext, ?_⟩
      -- The body is followed by the delimiter, as it was by what the text has there.
      obtain ⟨first, others, hinner⟩ : ∃ first others, inner ++ [delimiter] = first :: others :=
        List.exists_cons_of_ne_nil (by simp)
      have hfirst : first = next := by
        have hhead := congrArg List.head? htext
        cases inner with
        | nil => simp_all
        | cons => simp_all
      rw [List.cons_append, hinner, scanBody, if_neg hopen, hfirst, if_neg hpair, ← hfirst,
        ← hinner, hscan]
  | case4 taken =>
      cases h
      exact ⟨[], by simp, rfl, by simp [scanBody]⟩
  | case5 taken character hopen => cases h
  | case6 taken => cases h

end

theorem afterLexeme_of_count {lexeme : List Char} (h : lexeme.count '\n' = 0)
    (start : Position) : start.afterLexeme lexeme = start.advance lexeme.length := by
  unfold Position.afterLexeme Position.advance
  rw [h, Nat.add_zero]

theorem afterLexeme_quoted {delimiter : Char} (hdelimiter : delimiter ≠ '\n') (body : List Char)
    (start : Position) :
    start.afterLexeme (delimiter :: (body ++ [delimiter])) = start.afterQuoted body := by
  have hlength : (delimiter :: (body ++ [delimiter])).length = body.length + 2 := by simp
  have hcount : (delimiter :: (body ++ [delimiter])).count '\n' = body.count '\n' := by
    simp [List.count_append, hdelimiter]
  unfold Position.afterLexeme Position.afterQuoted
  rw [hlength, hcount, Nat.add_assoc]

theorem IsWord.isNamePart_of_mem {text : List Char} (h : IsWord text) {part : Char}
    (hpart : part ∈ text) : isNamePart part := by
  obtain ⟨head, tail, rfl, hhead, htail⟩ := h
  rcases List.mem_cons.mp hpart with rfl | hmem
  · unfold isNamePart
    rw [hhead]
    rfl
  · exact htail _ hmem

theorem IsNumeral.isDigit_or_point_of_mem {text : List Char} (h : IsNumeral text) {part : Char}
    (hpart : part ∈ text) : part.isDigit ∨ part = '.' := by
  obtain ⟨head, tail, rfl, _, hlength⟩ := h
  rcases digits_or_point_of_numberLength hlength with hdigits | ⟨whole, fraction, hparts, hwhole, hfraction⟩
  · exact .inl (hdigits _ hpart)
  · rw [hparts] at hpart
    rcases List.mem_append.mp hpart with hmem | hmem
    · exact .inl (hwhole _ hmem)
    · rcases List.mem_cons.mp hmem with hpoint | hmem
      · exact .inr hpoint
      · exact .inl (hfraction _ hmem)

theorem IsWord.count_newline {text : List Char} (h : IsWord text) : text.count '\n' = 0 :=
  List.count_eq_zero.mpr fun hmem => absurd (h.isNamePart_of_mem hmem) (by decide)

theorem IsNumeral.count_newline {text : List Char} (h : IsNumeral text) : text.count '\n' = 0 :=
  List.count_eq_zero.mpr fun hmem => absurd (h.isDigit_or_point_of_mem hmem) (by decide)

theorem exists_spelling_of_isSymbol {kind : TokenKind} (h : kind.isSymbol) :
    ∃ head tail, kind.spelling.toList = head :: tail ∧ opensGap head = false ∧
      ¬ (head = '"' ∨ head = '\'') ∧ kind.spelling.toList.count '\n' = 0 := by
  cases kind
  all_goals first
    | exact absurd h Bool.false_ne_true
    | exact ⟨_, _, rfl, rfl, by decide, rfl⟩

theorem opensGap_of_isNamePart {head : Char} (h : isNamePart head) : opensGap head = false := by
  simpa [opensGap] using Lexeme.not_mem_gap h

/-- A spelling is scanned as its token if what follows does not extend it. -/
theorem IsSpelling.scanToken_append {kind : TokenKind} {literal : String}
    {lexeme rest : List Char} (h : IsSpelling kind literal lexeme)
    (hrest : Stops (extendsSpelling kind lexeme) rest) :
    ∃ head tail, lexeme = head :: tail ∧ opensGap head = false ∧ ∀ start,
      scanToken head (tail ++ rest) start =
        .ok (⟨kind, literal, start, start.afterLexeme lexeme⟩, rest) := by
  cases h with
  | word hword =>
      obtain ⟨head, tail, rfl, hhead, htail⟩ := id hword
      rw [extendsSpelling_ofWord] at hrest
      have hpart : isNamePart head := hword.isNamePart_of_mem List.mem_cons_self
      refine ⟨head, tail, rfl, opensGap_of_isNamePart hpart, fun start => ?_⟩
      rw [scanToken_word hhead htail hrest, afterLexeme_of_count hword.count_newline]
      rfl
  | numeral hnumeral =>
      obtain ⟨head, tail, rfl, hhead, hlength⟩ := id hnumeral
      have hpart : isNamePart head := by
        unfold isNamePart
        rw [hhead, Bool.or_true]
      refine ⟨head, tail, rfl, opensGap_of_isNamePart hpart, fun start => ?_⟩
      rw [scanToken_numeral hhead hlength hrest, afterLexeme_of_count hnumeral.count_newline]
      rfl
  | symbol hkind =>
      obtain ⟨head, tail, hspelling, hopens, hquote, hcount⟩ := exists_spelling_of_isSymbol hkind
      have hsymbol := scanSymbol_append hkind ((stops_symbol_iff hkind).mp hrest)
      refine ⟨head, tail, hspelling, hopens, fun start => ?_⟩
      rw [hspelling, List.cons_append] at hsymbol
      unfold scanToken
      rw [if_neg hquote, hsymbol, ← hspelling, afterLexeme_of_count hcount]
      dsimp only [plainToken]
      rw [String.ofList_toList]
  | twice hkind =>
      rcases hkind with rfl | rfl
      · exact ⟨'&', ['&'], rfl, rfl, fun start => rfl⟩
      · exact ⟨'|', ['|'], rfl, rfl, fun start => rfl⟩
  | string hliteral =>
      obtain ⟨delimiter, body, hquote, rfl, hscan, rfl⟩ := hliteral
      have hquoted : opensGap delimiter = false ∧ delimiter ≠ '\n' := by
        rcases hquote with rfl | rfl
        · decide
        · decide
      refine ⟨delimiter, body ++ [delimiter], rfl, hquoted.1, fun start => ?_⟩
      unfold scanToken
      rw [if_pos hquote, scanBody_append hscan, afterLexeme_quoted hquoted.2]
      rfl

/-- The token at the head of a text has a spelling, which the rest of the text does not extend. -/
theorem isSpelling_of_scanToken {head : Char} {tail rest : List Char} {start : Position}
    {token : Token} (h : scanToken head tail start = .ok (token, rest)) :
    ∃ lexeme, head :: tail = lexeme ++ rest ∧ IsSpelling token.kind token.literal lexeme ∧
      token.start = start ∧ token.stop = start.afterLexeme lexeme ∧
        Stops (extendsSpelling token.kind lexeme) rest := by
  unfold scanToken at h
  split at h
  · rename_i hquote
    split at h
    · cases h
    · rename_i body after hscan
      cases h
      obtain ⟨inner, hinner, rfl, hclosed⟩ := exists_body_of_scanBody hscan
      rw [List.reverse_nil, List.nil_append] at hinner
      subst hinner
      have hdelimiter : head ≠ '\n' := by
        rcases hquote with rfl | rfl
        · decide
        · decide
      refine ⟨head :: (body ++ [head]), by simp, .string ⟨head, body, hquote, rfl, hclosed, rfl⟩,
        rfl, (afterLexeme_quoted hdelimiter body start).symm, fun next hnext => rfl⟩
  · split at h
    · rename_i kind spelling after hsymbol
      cases h
      obtain ⟨htext, hspelling, hcount, hkind, hlong⟩ := isSpelling_of_scanSymbol hsymbol
      exact ⟨spelling, htext, hspelling, rfl, (afterLexeme_of_count hcount start).symm,
        (stops_symbol_iff hkind).mpr hlong⟩
    · split at h
      · rename_i hhead
        cases h
        have hword : IsWord (head :: tail.takeWhile isNamePart) :=
          ⟨head, _, rfl, hhead, fun part hpart => List.mem_takeWhile_imp hpart⟩
        refine ⟨_, ?_, .word hword, rfl, (afterLexeme_of_count hword.count_newline start).symm, ?_⟩
        · rw [List.cons_append, List.takeWhile_append_dropWhile]
        · change Stops (extendsSpelling (.ofWord _) _) _
          rw [extendsSpelling_ofWord]
          exact stops_dropWhile isNamePart tail
      · split at h
        · rename_i hdigit
          cases h
          obtain ⟨hlength, hstops⟩ := isNumeral_take_numberLength (head :: tail)
          have hnumeral : IsNumeral ((head :: tail).take (numberLength (head :: tail))) := by
            obtain ⟨count, hcount⟩ := Nat.exists_eq_add_of_lt (@numberLength_pos head tail hdigit)
            rw [hcount] at hlength ⊢
            exact ⟨head, _, List.take_succ_cons, hdigit, hlength⟩
          exact ⟨_, (List.take_append_drop _ _).symm, .numeral hnumeral, rfl,
            (afterLexeme_of_count hnumeral.count_newline start).symm, hstops⟩
        · cases h

end Lexer

/-! ### Rows of pieces -/

theorem exists_tiles_of_tokensFrom {text : List Char} {position : Position}
    (h : (tokensFrom text position).failure = none) :
    ∃ pieces, Tiles position text (tokensFrom text position).tokens pieces := by
  induction hlength : text.length using Nat.strong_induction_on generalizing text position with
  | _ length ih =>
  rw [Lexeme.tokensFrom_eq] at h ⊢
  cases hskip : skipGap text position with
  | error failure =>
      rw [hskip] at h
      cases h
  | ok reached =>
      obtain ⟨rest, start⟩ := reached
      rw [hskip] at h
      obtain ⟨gap, hgap, rfl, rfl, hstops⟩ := (isGap_of_skipGap text).1 _ _ _ hskip
      cases rest with
      | nil =>
          rw [List.append_nil]
          exact ⟨[], .done hgap⟩
      | cons head tail =>
          cases hscan : scanToken head tail (position.afterGap gap) with
          | error failure =>
              simp only [hscan] at h
              cases h
          | ok scanned =>
              obtain ⟨token, after⟩ := scanned
              simp only [hscan] at h ⊢
              obtain ⟨lexeme, htext, hspelling, hstart, hstop, hlongest⟩ :=
                isSpelling_of_scanToken hscan
              have hshorter := length_of_scanToken hscan
              rw [List.length_append] at hlength
              obtain ⟨pieces, hpieces⟩ := ih after.length (by omega) h rfl
              rw [htext]
              exact ⟨_, .next hgap hspelling hstart (hstart ▸ hstop) hlongest hpieces⟩

/-- A gap and a lexeme are scanned first, and then what follows them. -/
theorem Lexer.tokensFrom_piece {position : Position} {gap lexeme rest : List Char} {token : Token}
    (hgap : IsGap gap) (hspelling : IsSpelling token.kind token.literal lexeme)
    (hstart : token.start = position.afterGap gap)
    (hstop : token.stop = token.start.afterLexeme lexeme)
    (hlongest : Stops (extendsSpelling token.kind lexeme) rest) :
    tokensFrom (gap ++ (lexeme ++ rest)) position =
      ⟨token :: (tokensFrom rest token.stop).tokens, (tokensFrom rest token.stop).failure⟩ := by
  obtain ⟨head, tail, rfl, hopens, hscan⟩ := hspelling.scanToken_append hlongest
  have hskip := hgap.skipGap_append (stops_cons hopens (tail ++ rest)) position
  have htoken : token = ⟨token.kind, token.literal, position.afterGap gap,
      (position.afterGap gap).afterLexeme (head :: tail)⟩ := by
    rw [← hstart, ← hstop]
  rw [Lexeme.tokensFrom_eq, List.cons_append, hskip]
  dsimp only
  rw [hscan, ← htoken]

/-- A row of pieces is scanned as its tokens. -/
theorem Tiles.tokensFrom_eq {position : Position} {text : List Char} {tokens : List Token}
    {pieces : List Piece} (h : Tiles position text tokens pieces) :
    tokensFrom text position = ⟨tokens, none⟩ := by
  induction h with
  | @done position gap hgap =>
      have hskip := hgap.skipGap_append (stops_nil opensGap) position
      rw [List.append_nil] at hskip
      rw [Lexeme.tokensFrom_eq, hskip]
  | next hgap hspelling hstart hstop hlongest _ ih =>
      rw [tokensFrom_piece hgap hspelling hstart hstop hlongest, ih]

/-- **The scan splits a text into gaps and lexemes**, and there is no other way to do so. -/
theorem tiles_iff {position : Position} {text : List Char} {tokens : List Token} :
    tokensFrom text position = ⟨tokens, none⟩ ↔ ∃ pieces, Tiles position text tokens pieces := by
  constructor
  · intro h
    obtain ⟨pieces, hpieces⟩ := exists_tiles_of_tokensFrom (congrArg TokenStream.failure h)
    rw [h] at hpieces
    exact ⟨pieces, hpieces⟩
  · rintro ⟨pieces, hpieces⟩
    exact hpieces.tokensFrom_eq

/-! ### The lexemes alone -/

/-- What a token is, wherever it stands. -/
def Token.content (token : Token) : TokenKind × String :=
  (token.kind, token.literal)

namespace Piece

/-- The lexemes of pieces, joined by single spaces. -/
def joined (pieces : List Piece) : List Char :=
  [' '].intercalate (pieces.map Piece.lexeme)

/-- The lexemes of pieces with a space in front of each. -/
def spaced (pieces : List Piece) : List Char :=
  pieces.flatMap fun piece => ' ' :: piece.lexeme

theorem joined_cons (piece : Piece) (pieces : List Piece) :
    joined (piece :: pieces) = piece.lexeme ++ spaced pieces := by
  unfold joined spaced
  induction pieces generalizing piece with
  | nil => simp
  | cons next pieces ih =>
      rw [List.map_cons, List.map_cons, List.intercalate_cons_cons, ← List.map_cons, ih next]
      simp

theorem stops_spaced {member : Char → Bool} (h : member ' ' = false) (pieces : List Piece) :
    Stops member (spaced pieces) := by
  cases pieces with
  | nil => exact stops_nil member
  | cons piece pieces => exact stops_cons h _

end Piece

/-- A character that no word, no numeral and no long symbol goes on with extends no lexeme. -/
theorem Lexer.extendsSpelling_eq_false {next : Char}
    (hlong : ∀ symbol ∈ longSymbols, symbol.getLast? ≠ some next) (hname : isNamePart next = false)
    (hnumber : ∀ spelling, extendsNumeral spelling next = false) (kind : TokenKind)
    (spelling : List Char) : extendsSpelling kind spelling next = false := by
  have hsymbol : longSymbols.contains (spelling ++ [next]) = false := by
    rw [Bool.eq_false_iff]
    exact fun hmem => hlong _ (List.contains_iff_mem.mp hmem) List.getLast?_concat
  cases kind
  all_goals first
    | rfl
    | exact hname
    | exact hnumber spelling
    | exact hsymbol

/-- What a gap may begin with ends every lexeme. -/
theorem Lexer.extendsSpelling_of_opensGap {next : Char} (h : opensGap next) (kind : TokenKind)
    (spelling : List Char) : extendsSpelling kind spelling next = false := by
  have hcases : next = ' ' ∨ next = '\t' ∨ next = '\r' ∨ next = '\n' ∨ next = '#' := by
    simpa [opensGap] using h
  rcases hcases with rfl | rfl | rfl | rfl | rfl
  all_goals exact extendsSpelling_eq_false (by decide) rfl (fun _ => rfl) kind spelling

/-- Lexemes with a space in front of each are scanned as the same tokens. -/
theorem Tiles.exists_spaced {place : Position} {text : List Char} {tokens : List Token}
    {pieces : List Piece} (h : Tiles place text tokens pieces) (position : Position) :
    ∃ others row, Tiles position (Piece.spaced pieces) others row ∧
      others.map Token.content = tokens.map Token.content := by
  induction h generalizing position with
  | done => exact ⟨_, _, .done .nil, rfl⟩
  | @next place gap lexeme rest token tokens pieces _ hspelling _ _ _ _ ih =>
      have hspace : IsGap [' '] := .blank (by decide) .nil
      have hstops := Piece.stops_spaced (extendsSpelling_of_opensGap rfl token.kind lexeme) pieces
      let start := position.afterGap [' ']
      obtain ⟨others, row, hrow, hcontent⟩ := ih (start.afterLexeme lexeme)
      refine ⟨⟨token.kind, token.literal, start, start.afterLexeme lexeme⟩ :: others, _,
        .next hspace hspelling rfl rfl hstops hrow, ?_⟩
      rw [List.map_cons, List.map_cons, hcontent]
      rfl

/-- Lexemes joined by single spaces are scanned as the same tokens. -/
theorem Tiles.exists_joined {place : Position} {text : List Char} {tokens : List Token}
    {pieces : List Piece} (h : Tiles place text tokens pieces) (position : Position) :
    ∃ others row, Tiles position (Piece.joined pieces) others row ∧
      others.map Token.content = tokens.map Token.content := by
  cases h with
  | done => exact ⟨_, _, .done .nil, rfl⟩
  | @next place gap lexeme rest token tokens pieces _ hspelling _ _ _ hrest =>
      have hstops := Piece.stops_spaced (extendsSpelling_of_opensGap rfl token.kind lexeme) pieces
      obtain ⟨others, row, hrow, hcontent⟩ := hrest.exists_spaced (position.afterLexeme lexeme)
      rw [Piece.joined_cons]
      refine ⟨⟨token.kind, token.literal, position, position.afterLexeme lexeme⟩ :: others, _,
        .next .nil hspelling rfl rfl hstops hrow, ?_⟩
      rw [List.map_cons, List.map_cons, hcontent]
      rfl

theorem Lexer.IsSpelling.kind_ne_endOfInput {kind : TokenKind} {literal : String}
    {lexeme : List Char} (h : IsSpelling kind literal lexeme) : kind ≠ .endOfInput := by
  cases h with
  | word =>
      unfold TokenKind.ofWord
      split <;> exact TokenKind.noConfusion
  | numeral => exact TokenKind.noConfusion
  | symbol hkind =>
      rintro rfl
      exact absurd hkind Bool.false_ne_true
  | twice hkind => rcases hkind with rfl | rfl <;> exact TokenKind.noConfusion
  | string => exact TokenKind.noConfusion

/-- The literal of a token that is no string is its lexeme. -/
theorem Lexer.IsSpelling.literal_eq {kind : TokenKind} {literal : String} {lexeme : List Char}
    (h : IsSpelling kind literal lexeme) (hkind : kind ≠ .string) :
    literal = String.ofList lexeme := by
  cases h with
  | word => rfl
  | numeral => rfl
  | symbol => exact String.ofList_toList.symm
  | twice => exact String.ofList_toList.symm
  | string => exact absurd rfl hkind

/-- There is one token for each piece, and then the mark at the end of the text. -/
theorem Tiles.exists_initial {place : Position} {text : List Char} {tokens : List Token}
    {pieces : List Piece} (h : Tiles place text tokens pieces) :
    ∃ initial mark, tokens = initial ++ [mark] ∧ mark.kind = .endOfInput ∧
      List.Forall₂ (fun token piece => token.kind ≠ .endOfInput ∧
        (token.kind ≠ .string → token.literal = String.ofList piece.lexeme)) initial pieces := by
  induction h with
  | done => exact ⟨[], _, rfl, rfl, .nil⟩
  | @next place gap lexeme rest token tokens pieces _ hspelling _ _ _ _ ih =>
      obtain ⟨initial, mark, rfl, hmark, hinitial⟩ := ih
      exact ⟨token :: initial, mark, rfl, hmark,
        .cons ⟨hspelling.kind_ne_endOfInput, hspelling.literal_eq⟩ hinitial⟩

/-- **The scan loses nothing and takes the longest lexemes.** A source without lexical faults is a
row of gaps and lexemes, one lexeme for each token before the mark at the end, and none of them is
followed by a character that would extend it. A token that is no string has its lexeme as literal.
The lexemes alone, joined by single spaces, are scanned as the same kinds and literals. -/
theorem tokens_tile_source (source : String) (h : (TokenStream.ofSource source).failure = none) :
    ∃ pieces initial mark,
      Tiles .first source.toList (TokenStream.ofSource source).tokens pieces ∧
      (TokenStream.ofSource source).tokens = initial ++ [mark] ∧ mark.kind = .endOfInput ∧
      List.Forall₂ (fun token piece => token.kind ≠ .endOfInput ∧
        (token.kind ≠ .string → token.literal = String.ofList piece.lexeme)) initial pieces ∧
      (TokenStream.ofSource (String.ofList (Piece.joined pieces))).failure = none ∧
      (TokenStream.ofSource (String.ofList (Piece.joined pieces))).tokens.map Token.content =
        (TokenStream.ofSource source).tokens.map Token.content := by
  obtain ⟨pieces, hpieces⟩ := exists_tiles_of_tokensFrom h
  obtain ⟨initial, mark, htokens, hmark, hinitial⟩ := hpieces.exists_initial
  obtain ⟨others, row, hrow, hcontent⟩ := hpieces.exists_joined .first
  have hjoined : TokenStream.ofSource (String.ofList (Piece.joined pieces)) = ⟨others, none⟩ := by
    unfold TokenStream.ofSource
    rw [String.toList_ofList]
    exact hrow.tokensFrom_eq
  refine ⟨pieces, initial, mark, hpieces, htokens, hmark, hinitial, ?_, ?_⟩
  · rw [hjoined]
  · rw [hjoined]
    exact hcontent

/-- A numeral that ends in a point, a symbol of two characters, a string with a quote in it, and a
comment, with few blanks. -/
def crowdedSource : String :=
  "x=1.>='it\\'s'# note\n"

theorem tokens_tile_source_crowded :
    (TokenStream.ofSource crowdedSource).failure = none ∧
      ∃ pieces, Tiles .first crowdedSource.toList (TokenStream.ofSource crowdedSource).tokens pieces ∧
        (TokenStream.ofSource (String.ofList (Piece.joined pieces))).tokens.map Token.content =
          [(.identifier, "x"), (.equal, "="), (.number, "1."), (.greaterEqual, ">="),
            (.string, "it's"), (.endOfInput, "")] := by
  have h : (TokenStream.ofSource crowdedSource).failure = none := by cbv
  obtain ⟨pieces, initial, mark, hpieces, _, _, _, _, hjoined⟩ := tokens_tile_source crowdedSource h
  refine ⟨h, pieces, hpieces, hjoined.trans ?_⟩
  cbv

end ScriptEngine
