import ScriptEngine.Proofs.Source.Tiling

/-!
# Joined texts

A text that stands further down has the same tokens further down. Two texts with a line break
between them have the tokens of the first and then those of the second, and nothing of the first
reaches into the second. Nor does it without a line break, if the first text ends with a lexeme and
the second begins with a character that belongs to no lexeme in front of it.
-/

namespace ScriptEngine

open Lexer

namespace Position

/-- The place so many lines further down, in the same column. -/
def down (lines : Nat) (position : Position) : Position :=
  ⟨position.line + lines, position.column⟩

variable (lines : Nat) (position : Position)

theorem down_injective {position other : Position} (h : position.down lines = other.down lines) :
    position = other := by
  obtain ⟨hline, hcolumn⟩ := Position.mk.inj h
  exact congrArg₂ Position.mk (Nat.add_right_cancel hline) hcolumn

theorem afterBlank_down (character : Char) :
    (position.down lines).afterBlank character = (position.afterBlank character).down lines := by
  unfold afterBlank
  split
  · exact congrArg (Position.mk · 1) (Nat.add_right_comm _ _ _)
  · rfl

theorem afterGap_down (gap : List Char) :
    (position.down lines).afterGap gap = (position.afterGap gap).down lines := by
  induction gap generalizing position with
  | nil => rfl
  | cons character gap ih => rw [afterGap_cons, afterGap_cons, afterBlank_down, ih]

theorem afterLexeme_down (lexeme : List Char) :
    (position.down lines).afterLexeme lexeme = (position.afterLexeme lexeme).down lines :=
  congrArg (Position.mk · _) (Nat.add_right_comm _ _ _)

theorem afterGap_append (gap others : List Char) :
    position.afterGap (gap ++ others) = (position.afterGap gap).afterGap others :=
  List.foldl_append

end Position

/-- The token so many lines further down. -/
def Token.down (lines : Nat) (token : Token) : Token :=
  { token with start := token.start.down lines, stop := token.stop.down lines }

namespace Tiles

variable {position : Position} {text : List Char} {tokens : List Token} {pieces : List Piece}

/-- The same text further down has the same tokens further down. -/
theorem down (h : Tiles position text tokens pieces) (lines : Nat) :
    Tiles (position.down lines) text (tokens.map (Token.down lines)) pieces := by
  induction h with
  | @done position gap hgap =>
      have hmark := @Tiles.done (position.down lines) gap hgap
      rw [Position.afterGap_down] at hmark
      exact hmark
  | @next position gap lexeme rest token tokens pieces hgap hspelling hstart hstop hlongest _ ih =>
      refine .next hgap hspelling ?_ ?_ hlongest ih
      · rw [Position.afterGap_down, ← hstart]
        rfl
      · change token.stop.down lines = (token.start.down lines).afterLexeme lexeme
        rw [Position.afterLexeme_down, ← hstop]

/-- A gap in front of a text becomes part of its first gap. -/
theorem prepend {gap : List Char} (hgap : IsGap gap)
    (h : Tiles (position.afterGap gap) text tokens pieces) :
    ∃ row, Tiles position (gap ++ text) tokens row := by
  cases h with
  | @done _ others hothers =>
      rw [← Position.afterGap_append]
      exact ⟨[], .done (hgap.append hothers)⟩
  | @next _ others lexeme rest token tokens pieces hothers hspelling hstart hstop hlongest hrest =>
      rw [← List.append_assoc]
      rw [← Position.afterGap_append] at hstart
      exact ⟨_, .next (hgap.append hothers) hspelling hstart hstop hlongest hrest⟩

/-- The mark at the end is on the line that the line breaks of the text lead to. -/
theorem exists_mark (h : Tiles position text tokens pieces) :
    ∃ initial mark, tokens = initial ++ [mark] ∧ mark.kind = .endOfInput ∧
      (∀ token ∈ initial, token.kind ≠ .endOfInput) ∧
      mark.start.line = position.line + text.count '\n' := by
  induction h with
  | @done position gap _ =>
      exact ⟨[], _, rfl, rfl, List.forall_mem_nil _, Position.line_afterGap position gap⟩
  | @next position gap lexeme rest token tokens pieces _ hspelling hstart hstop _ _ ih =>
      obtain ⟨initial, mark, rfl, hmark, hinitial, hline⟩ := ih
      refine ⟨token :: initial, mark, rfl, hmark,
        List.forall_mem_cons.mpr ⟨hspelling.kind_ne_endOfInput, hinitial⟩, ?_⟩
      have hgap := Position.line_afterGap position gap
      rw [← hstart] at hgap
      have hlexeme : token.stop.line = token.start.line + lexeme.count '\n' :=
        congrArg Position.line hstop
      rw [List.count_append, List.count_append]
      omega

/-- The mark is a token without a literal, and the only one of its kind. -/
theorem mark_eq {row : List Token} {mark : Token} (h : Tiles position text (row ++ [mark]) pieces) :
    mark.content = (.endOfInput, "") ∧ ∀ token ∈ row, token.kind ≠ .endOfInput := by
  generalize htokens : row ++ [mark] = tokens at h
  induction h generalizing row with
  | done =>
      cases row with
      | cons token row => simp at htokens
      | nil =>
          obtain rfl := List.head_eq_of_cons_eq htokens
          exact ⟨rfl, List.forall_mem_nil _⟩
  | next _ hspelling _ _ _ hrest ih =>
      cases row with
      | nil =>
          obtain ⟨_, rfl⟩ := List.cons.inj htokens
          cases hrest
      | cons first row =>
          obtain ⟨rfl, htail⟩ := List.cons.inj htokens
          obtain ⟨hmark, hrow⟩ := ih htail
          exact ⟨hmark, List.forall_mem_cons.mpr ⟨hspelling.kind_ne_endOfInput, hrow⟩⟩

end Tiles

/-- Only a text without lexical faults has a mark at its end. -/
theorem Lexer.kind_ne_endOfInput_of_failure {text : List Char} {position : Position}
    (h : (tokensFrom text position).failure ≠ none) :
    ∀ token ∈ (tokensFrom text position).tokens, token.kind ≠ .endOfInput := by
  fun_induction tokensFrom text position with
  | case1 => exact List.forall_mem_nil _
  | case2 => exact absurd rfl h
  | case3 => exact List.forall_mem_nil _
  | case4 text position head tail start hgap token rest hscan stream ih =>
      obtain ⟨lexeme, _, hspelling, _⟩ := isSpelling_of_scanToken hscan
      exact List.forall_mem_cons.mpr ⟨hspelling.kind_ne_endOfInput, ih h⟩

/-- The text begins with a character that belongs to no lexeme in front of it. -/
def Separates (text : List Char) : Prop :=
  ∀ kind spelling, Stops (extendsSpelling kind spelling) text

theorem separates_of_opensGap {next : Char} (h : opensGap next) (rest : List Char) :
    Separates (next :: rest) :=
  fun kind spelling => stops_cons (extendsSpelling_of_opensGap h kind spelling) rest

/-- A text and another one that no lexeme in front of it takes from: the tokens of the first without
its mark, and then those of the second, which is scanned on its own from the mark on. -/
theorem Tiles.append {position : Position} {text rest : List Char} {initial others : List Token}
    {mark : Token} {pieces row : List Piece} (h : Tiles position text (initial ++ [mark]) pieces)
    (hseparates : Separates rest) (hrest : Tiles mark.start rest others row) :
    ∃ joined, Tiles position (text ++ rest) (initial ++ others) joined := by
  generalize htokens : initial ++ [mark] = tokens at h
  induction h generalizing initial with
  | @done position gap hgap =>
      cases initial with
      | cons token initial => simp at htokens
      | nil =>
          obtain rfl : mark = _ := List.head_eq_of_cons_eq htokens
          exact hrest.prepend hgap
  | @next position gap lexeme after token tokens pieces hgap hspelling hstart hstop hlongest hafter ih =>
      cases initial with
      | nil =>
          obtain ⟨_, rfl⟩ := List.cons.inj htokens
          cases hafter
      | cons first initial =>
          obtain ⟨rfl, htail⟩ := List.cons.inj htokens
          obtain ⟨joined, hjoined⟩ := ih htail
          rw [List.append_assoc, List.append_assoc]
          refine ⟨_, .next hgap hspelling hstart hstop ?_ hjoined⟩
          cases after with
          | nil => exact hseparates _ _
          | cons head tail => exact stops_cons (hlongest head rfl) _

/-- A text, a line break and another text: the tokens of the first without its mark, and then those
of the second, wherever that starts. -/
theorem Tiles.join {position : Position} {text rest : List Char} {initial others : List Token}
    {mark : Token} {pieces row : List Piece} (h : Tiles position text (initial ++ [mark]) pieces)
    (hrest : Tiles mark.start.nextLine rest others row) :
    ∃ joined, Tiles position (text ++ '\n' :: rest) (initial ++ others) joined := by
  have hbreak : IsGap ['\n'] := .blank (by decide) .nil
  obtain ⟨row, hrow⟩ := hrest.prepend hbreak
  exact h.append (separates_of_opensGap rfl rest) hrow

/-! ### Texts that touch -/

/-- The characters that a gap ends with. -/
def blanks : List Char :=
  [' ', '\t', '\r', '\n']

/-- A gap ends with a blank or a line break. -/
theorem IsGap.last_mem {gap : List Char} (h : IsGap gap) : ∀ last ∈ gap.getLast?, last ∈ blanks := by
  induction h with
  | nil => exact fun _ hlast => nomatch hlast
  | @blank character rest h _ ih =>
      cases rest with
      | nil => exact fun last hlast => Option.mem_some_iff.mp hlast ▸ h
      | cons next rest =>
          rw [List.getLast?_cons_cons]
          exact ih
  | @comment body rest _ _ ih =>
      have hlast : ('#' :: (body ++ '\n' :: rest)).getLast? = ('\n' :: rest).getLast? := by
        rw [← List.cons_append, List.getLast?_append_cons]
      rw [hlast]
      cases rest with
      | nil => exact fun last hlast => Option.mem_some_iff.mp hlast ▸ by decide
      | cons next rest =>
          rw [List.getLast?_cons_cons]
          exact ih

theorem isGap_of_blanks {text : List Char} (h : ∀ character ∈ text, character ∈ blanks) :
    IsGap text := by
  induction text with
  | nil => exact .nil
  | cons character text ih =>
      obtain ⟨hhead, htail⟩ := List.forall_mem_cons.mp h
      exact .blank hhead (ih htail)

/-- Where the last of the tokens stops, or where the row begins if there are none. -/
def Token.lastStop (stop : Position) : List Token → Position
  | [] => stop
  | token :: rest => Token.lastStop token.stop rest

theorem separates_bracket (rest : List Char) : Separates ('[' :: rest) :=
  fun kind spelling =>
    stops_cons (extendsSpelling_eq_false (by decide) rfl (fun _ => rfl) kind spelling) rest

theorem separates_semicolon (rest : List Char) : Separates (';' :: rest) :=
  fun kind spelling =>
    stops_cons (extendsSpelling_eq_false (by decide) rfl (fun _ => rfl) kind spelling) rest

namespace Tiles

variable {position : Position} {text : List Char} {tokens : List Token} {pieces : List Piece}

/-- The same text elsewhere has the same tokens elsewhere. -/
theorem exists_at (h : Tiles position text tokens pieces) (place : Position) :
    ∃ others, Tiles place text others pieces ∧
      others.map Token.content = tokens.map Token.content := by
  induction h generalizing place with
  | done hgap => exact ⟨_, .done hgap, rfl⟩
  | @next position gap lexeme rest token tokens pieces hgap hspelling _ _ hlongest _ ih =>
      let start := place.afterGap gap
      obtain ⟨others, hothers, hcontent⟩ := ih (start.afterLexeme lexeme)
      refine ⟨⟨token.kind, token.literal, start, start.afterLexeme lexeme⟩ :: others,
        .next hgap hspelling rfl rfl hlongest hothers, ?_⟩
      rw [List.map_cons, List.map_cons, hcontent]
      rfl

/-- The same, if the mark is kept apart. -/
theorem exists_row_at {row : List Token} {mark : Token}
    (h : Tiles position text (row ++ [mark]) pieces) (place : Position) :
    ∃ others final, Tiles place text (others ++ [final]) pieces ∧
      (others ++ [final]).map Token.content = (row ++ [mark]).map Token.content ∧
      others.length = row.length := by
  obtain ⟨tokens, htokens, hcontent⟩ := h.exists_at place
  rcases List.eq_nil_or_concat tokens with rfl | ⟨others, final, rfl⟩
  · simp at hcontent
  · rw [List.concat_eq_append] at htokens hcontent
    have hlength := congrArg List.length hcontent
    simp only [List.length_map, List.length_append, List.length_singleton] at hlength
    exact ⟨others, final, htokens, hcontent, Nat.add_right_cancel hlength⟩

/-- What follows a text that ends with a lexeme is scanned on its own, from where that lexeme
stops. -/
theorem exists_append (h : Tiles position text tokens pieces)
    (htight : ∀ last ∈ text.getLast?, last ∉ blanks) :
    ∃ initial stop, tokens = initial ++ [⟨.endOfInput, "", stop, stop⟩] ∧
      (∀ token ∈ initial, token.kind ≠ .endOfInput) ∧ Token.lastStop position initial = stop ∧
      ∀ more, Separates more → tokensFrom (text ++ more) position =
        ⟨initial ++ (tokensFrom more stop).tokens, (tokensFrom more stop).failure⟩ := by
  induction h with
  | @done position gap hgap =>
      obtain rfl : gap = [] := by
        by_contra hne
        obtain ⟨last, hlast⟩ := Option.ne_none_iff_exists'.mp (List.getLast?_eq_none_iff.not.mpr hne)
        exact htight last hlast (hgap.last_mem last hlast)
      exact ⟨[], position, rfl, List.forall_mem_nil _, rfl, fun more _ => rfl⟩
  | @next position gap lexeme rest token tokens pieces hgap hspelling hstart hstop hlongest _ ih =>
      have hlast : ∀ last ∈ rest.getLast?, last ∉ blanks := by
        intro last hlast
        refine htight last ?_
        rw [← List.append_assoc, List.getLast?_append, Option.mem_def.mp hlast]
        rfl
      obtain ⟨initial, stop, rfl, hkinds, hstops, happend⟩ := ih hlast
      refine ⟨token :: initial, stop, rfl,
        List.forall_mem_cons.mpr ⟨hspelling.kind_ne_endOfInput, hkinds⟩, hstops, ?_⟩
      intro more hmore
      have hlonger : Stops (extendsSpelling token.kind lexeme) (rest ++ more) := by
        cases rest with
        | nil => exact hmore token.kind lexeme
        | cons head tail => exact stops_cons (hlongest head rfl) _
      rw [List.append_assoc, List.append_assoc,
        tokensFrom_piece hgap hspelling hstart hstop hlonger, happend more hmore]
      rfl

end Tiles

/-! ### A semicolon at the end -/

/-- Of all lexemes only the semicolon ends with one. -/
theorem Lexer.IsSpelling.eq_semicolon {kind : TokenKind} {literal : String} {lexeme : List Char}
    (h : IsSpelling kind literal lexeme) (hlast : lexeme.getLast? = some ';') :
    kind = .semicolon ∧ literal = ";" ∧ lexeme = [';'] := by
  cases h with
  | word hword => exact absurd (hword.isNamePart_of_mem (List.mem_of_getLast? hlast)) (by decide)
  | numeral hnumeral =>
      exact absurd (hnumeral.isDigit_or_point_of_mem (List.mem_of_getLast? hlast)) (by decide)
  | symbol hkind =>
      revert hlast hkind
      cases kind
      all_goals first
        | exact fun _ _ => ⟨rfl, rfl, rfl⟩
        | exact fun _ hlast => absurd hlast (by decide)
  | twice hkind => rcases hkind with rfl | rfl <;> exact absurd hlast (by decide)
  | string hliteral =>
      obtain ⟨delimiter, body, hquote, rfl, -, -⟩ := hliteral
      rw [← List.cons_append, List.getLast?_concat] at hlast
      obtain rfl := Option.some.inj hlast
      exact absurd hquote (by decide)

/-- A text in front of a semicolon is scanned on its own. -/
theorem Tiles.exists_of_semicolon {position : Position} {text : List Char} {tokens : List Token}
    {pieces : List Piece} (h : Tiles position (text ++ [';']) tokens pieces) :
    ∃ initial semicolon last, tokens = initial ++ [semicolon, last] ∧
      semicolon.content = (.semicolon, ";") ∧ last.kind = .endOfInput ∧
      ∃ mark row, Tiles position text (initial ++ [mark]) row := by
  generalize hwhole : text ++ [';'] = whole at h
  induction h generalizing text with
  | @done position gap hgap =>
      have hlast : gap.getLast? = some ';' := hwhole ▸ List.getLast?_concat
      exact absurd (hgap.last_mem ';' hlast) (by decide)
  | @next position gap lexeme rest token tokens pieces hgap hspelling hstart hstop hlongest hrest ih =>
      rcases List.eq_nil_or_concat rest with rfl | ⟨others, character, rfl⟩
      · rw [List.append_nil] at hwhole
        have hne : lexeme ≠ [] := by
          obtain ⟨head, tail, rfl, -⟩ := hspelling.scanToken_append hlongest
          exact List.cons_ne_nil _ _
        have hlast : lexeme.getLast? = some ';' := by
          rw [← List.getLast?_append_of_ne_nil gap hne, ← hwhole, List.getLast?_concat]
        obtain ⟨hkind, hliteral, rfl⟩ := hspelling.eq_semicolon hlast
        obtain rfl := List.append_cancel_right hwhole
        have hend := hrest.tokensFrom_eq.symm.trans (Tiles.done IsGap.nil).tokensFrom_eq
        obtain rfl := congrArg TokenStream.tokens hend
        exact ⟨[], token, _, rfl, Prod.ext hkind hliteral, rfl, _, [], .done hgap⟩
      · rw [List.concat_eq_append] at *
        rw [← List.append_assoc, ← List.append_assoc] at hwhole
        obtain ⟨rfl, hlast⟩ := List.append_inj' hwhole rfl
        obtain rfl := List.head_eq_of_cons_eq hlast
        obtain ⟨initial, semicolon, last, rfl, hcontent, hkind, mark, row, hrow⟩ := ih rfl
        refine ⟨token :: initial, semicolon, last, rfl, hcontent, hkind, mark, ⟨gap, lexeme⟩ :: row, ?_⟩
        rw [List.append_assoc]
        refine .next hgap hspelling hstart hstop (fun next hnext => hlongest next ?_) hrow
        rw [List.head?_append, Option.mem_def.mp hnext]
        rfl

end ScriptEngine
