import ScriptEngine.Program.Parser
import ScriptEngine.Proofs.Source.Tiling

/-!
# Places and offsets

A place says where in the text a token stands. The line counts all line breaks before it, and the
column the characters since the last line break that is in no string. As a line break in a string
raises the line and leaves the column running, places grow with the offsets, so that equal places
are equal offsets. Hence two tokens touch, by their places, if nothing stands between them.
-/

namespace ScriptEngine

open Lexer

/-- A token with the offsets of its first character and of the one behind its last. -/
structure Span where
  token : Token
  first : Nat
  last : Nat

namespace Span

/-- Whether the character at an offset belongs to a string. -/
def isQuoted (spans : List Span) (offset : Nat) : Bool :=
  spans.any fun span =>
    span.token.kind == .string && decide (span.first ≤ offset) && decide (offset < span.last)

end Span

/-- Tokens in a text from an offset on, each as far as a scan gets that has come to this place.
Between them are gaps. Such a row may break off, as it does before a fault, or end in the mark at the
end of the text. -/
inductive Scanned (text : List Char) : Nat → Position → List Span → Prop
  | stopped (offset : Nat) (position : Position) : Scanned text offset position []
  | done {offset : Nat} {position : Position} (hoffset : offset ≤ text.length)
      (hgap : IsGap (text.extract offset text.length)) :
      Scanned text offset position
        [⟨⟨.endOfInput, "", position.afterGap (text.extract offset text.length),
          position.afterGap (text.extract offset text.length)⟩, text.length, text.length⟩]
  | next {offset : Nat} {position : Position} {span : Span} {spans : List Span}
      (hfirst : offset ≤ span.first) (hlast : span.first ≤ span.last)
      (hlength : span.last ≤ text.length) (hgap : IsGap (text.extract offset span.first))
      (hspelling : IsSpelling span.token.kind span.token.literal
        (text.extract span.first span.last))
      (hstart : span.token.start = position.afterGap (text.extract offset span.first))
      (hstop : span.token.stop =
        span.token.start.afterLexeme (text.extract span.first span.last))
      (hrest : Scanned text span.last span.token.stop spans) :
      Scanned text offset position (span :: spans)

/-! ### The place of an offset -/

section

variable (text : List Char) (quoted : Nat → Bool)

/-- How many characters before an offset come after the last line break that is not quoted. -/
def columnsBefore : Nat → Nat
  | 0 => 0
  | offset + 1 =>
    if text[offset]? = some '\n' ∧ quoted offset = false then 0 else columnsBefore offset + 1

/-- The place of an offset: lines and columns count from one, lines by all line breaks before it. -/
def placeAt (offset : Nat) : Position :=
  ⟨1 + (text.take offset).count '\n', 1 + columnsBefore text quoted offset⟩

end

namespace Position

/-- In the order of the lines, and in one line of the columns. -/
def Before (position other : Position) : Prop :=
  position.line < other.line ∨ position.line = other.line ∧ position.column < other.column

theorem Before.trans {first second third : Position} (h : first.Before second)
    (hnext : second.Before third) : first.Before third := by
  unfold Before at *
  omega

theorem Before.ne {first second : Position} (h : first.Before second) : first ≠ second := by
  rintro rfl
  unfold Before at h
  omega

end Position

section

variable {text rest : List Char} {quoted : Nat → Bool} {offset : Nat}

theorem placeAt_succ_of_break (hbreak : text[offset]? = some '\n') :
    placeAt text quoted (offset + 1) =
      if quoted offset then ⟨(placeAt text quoted offset).line + 1,
        (placeAt text quoted offset).column + 1⟩
      else (placeAt text quoted offset).nextLine := by
  unfold placeAt Position.nextLine
  rw [List.take_add_one, hbreak, List.count_append, columnsBefore, hbreak]
  cases quoted offset with
  | false => rfl
  | true => rfl

theorem placeAt_succ_of_ne (hbreak : text[offset]? ≠ some '\n') :
    placeAt text quoted (offset + 1) = (placeAt text quoted offset).advance 1 := by
  have hcount : (text[offset]?.toList).count '\n' = 0 := by
    cases hcharacter : text[offset]? with
    | none => rfl
    | some character =>
        rw [hcharacter] at hbreak
        exact List.count_eq_zero.mpr fun hmem =>
          hbreak (congrArg some (List.mem_singleton.mp hmem).symm)
  unfold placeAt Position.advance
  rw [List.take_add_one, List.count_append, hcount, columnsBefore, if_neg fun h => hbreak h.1]
  rfl

theorem placeAt_before_succ (text : List Char) (quoted : Nat → Bool) (offset : Nat) :
    (placeAt text quoted offset).Before (placeAt text quoted (offset + 1)) := by
  by_cases hbreak : text[offset]? = some '\n'
  · rw [placeAt_succ_of_break hbreak]
    split
    · exact .inl (Nat.lt_succ_self _)
    · exact .inl (Nat.lt_succ_self _)
  · rw [placeAt_succ_of_ne hbreak]
    exact .inr ⟨rfl, Nat.lt_succ_self _⟩

/-- Places grow with the offsets. -/
theorem placeAt_before (text : List Char) (quoted : Nat → Bool) {offset next : Nat}
    (h : offset < next) : (placeAt text quoted offset).Before (placeAt text quoted next) := by
  induction h with
  | refl => exact placeAt_before_succ text quoted offset
  | step _ ih => exact ih.trans (placeAt_before_succ text quoted _)

theorem placeAt_inj (text : List Char) (quoted : Nat → Bool) {offset next : Nat} :
    placeAt text quoted offset = placeAt text quoted next ↔ offset = next := by
  refine ⟨fun h => ?_, congrArg _⟩
  rcases Nat.lt_trichotomy offset next with hlt | heq | hgt
  · exact absurd h (placeAt_before text quoted hlt).ne
  · exact heq
  · exact absurd h.symm (placeAt_before text quoted hgt).ne

theorem getElem?_of_drop {head : Char} (h : text.drop offset = head :: rest) :
    text[offset]? = some head ∧ text.drop (offset + 1) = rest := by
  refine ⟨?_, ?_⟩
  · rw [← List.head?_drop, h]
    rfl
  · rw [← List.drop_drop, h]
    rfl

/-- Over a gap, in which nothing is quoted, the place moves as the scan moves it. -/
theorem placeAt_gap {gap : List Char} (htext : text.drop offset = gap ++ rest)
    (hquoted : ∀ place, offset ≤ place → place < offset + gap.length → quoted place = false) :
    placeAt text quoted (offset + gap.length) = (placeAt text quoted offset).afterGap gap := by
  induction gap generalizing offset with
  | nil => rfl
  | cons character gap ih =>
      obtain ⟨hhead, htail⟩ := getElem?_of_drop htext
      have hlength : offset + (character :: gap).length = offset + 1 + gap.length := by
        rw [List.length_cons]
        omega
      rw [hlength] at hquoted ⊢
      rw [ih htail fun place hlow hhigh => hquoted place (by omega) hhigh, afterGap_cons]
      have hopen := hquoted offset (Nat.le_refl offset) (by omega)
      congr 1
      unfold Position.afterBlank
      by_cases hbreak : character = '\n'
      · rw [placeAt_succ_of_break (hhead.trans (congrArg some hbreak)), hopen, if_pos hbreak]
        rfl
      · rw [placeAt_succ_of_ne fun h => hbreak (Option.some.inj (hhead.symm.trans h)),
          if_neg hbreak]

/-- Over a lexeme the place moves as the scan moves it, if its line breaks are quoted. -/
theorem placeAt_lexeme {lexeme : List Char} (htext : text.drop offset = lexeme ++ rest)
    (hquoted : ∀ place, offset ≤ place → place < offset + lexeme.length →
      quoted place = true ∨ lexeme.count '\n' = 0) :
    placeAt text quoted (offset + lexeme.length) =
      (placeAt text quoted offset).afterLexeme lexeme := by
  induction lexeme generalizing offset with
  | nil => rfl
  | cons character lexeme ih =>
      obtain ⟨hhead, htail⟩ := getElem?_of_drop htext
      have hlength : offset + (character :: lexeme).length = offset + 1 + lexeme.length := by
        rw [List.length_cons]
        omega
      rw [hlength] at hquoted ⊢
      have hinner : ∀ place, offset + 1 ≤ place → place < offset + 1 + lexeme.length →
          quoted place = true ∨ lexeme.count '\n' = 0 := by
        intro place hlow hhigh
        refine (hquoted place (by omega) hhigh).imp_right fun hcount => ?_
        exact Nat.le_zero.mp (hcount ▸ List.count_le_count_cons)
      rw [ih htail hinner]
      have hopen := hquoted offset (Nat.le_refl offset) (by omega)
      by_cases hbreak : character = '\n'
      · subst hbreak
        have hinside := hopen.resolve_right (by simp)
        rw [placeAt_succ_of_break hhead, hinside]
        simp only [Position.afterLexeme, List.count_cons_self, List.length_cons, if_true]
        congr 1 <;> omega
      · rw [placeAt_succ_of_ne fun h => hbreak (Option.some.inj (hhead.symm.trans h))]
        simp only [Position.afterLexeme, Position.advance, List.count_cons_of_ne hbreak,
          List.length_cons]
        congr 1
        omega

end

/-! ### Spans -/

theorem Lexer.IsSpelling.isString_or_count {kind : TokenKind} {literal : String}
    {lexeme : List Char} (h : IsSpelling kind literal lexeme) :
    kind = .string ∨ lexeme.count '\n' = 0 := by
  cases h with
  | word hword => exact .inr hword.count_newline
  | numeral hnumeral => exact .inr hnumeral.count_newline
  | symbol hkind =>
      obtain ⟨_, _, _, _, _, hcount⟩ := exists_spelling_of_isSymbol hkind
      exact .inr hcount
  | twice hkind => rcases hkind with rfl | rfl <;> exact .inr rfl
  | string => exact .inl rfl

theorem extract_of_drop {text part rest : List Char} {offset : Nat}
    (h : text.drop offset = part ++ rest) :
    text.extract offset (offset + part.length) = part ∧
      text.drop (offset + part.length) = rest := by
  rw [List.extract_eq_take_drop, ← List.drop_drop, h, Nat.add_sub_cancel_left]
  exact ⟨List.take_left, List.drop_left⟩

theorem extract_append_drop (text : List Char) {offset last : Nat} (h : offset ≤ last) :
    text.drop offset = text.extract offset last ++ text.drop last := by
  rw [List.extract_eq_take_drop]
  conv_lhs => rw [← List.take_append_drop (last - offset) (text.drop offset)]
  rw [List.drop_drop, Nat.add_sub_cancel' h]

theorem add_length_extract {text : List Char} {offset last : Nat} (h : offset ≤ last)
    (hlast : last ≤ text.length) : offset + (text.extract offset last).length = last := by
  rw [List.extract_eq_take_drop, List.length_take, List.length_drop]
  omega

namespace Scanned

variable {text : List Char} {offset : Nat} {position : Position} {spans : List Span}

/-- The tokens of a scan, whether or not it comes to a fault. -/
theorem exists_of_tokensFrom {rest : List Char} (htext : text.drop offset = rest)
    (hoffset : offset ≤ text.length) (position : Position) :
    ∃ spans, spans.map Span.token = (tokensFrom rest position).tokens ∧
      Scanned text offset position spans := by
  induction hlength : rest.length using Nat.strong_induction_on
    generalizing rest offset position with
  | _ length ih =>
  rw [Lexeme.tokensFrom_eq]
  cases hskip : skipGap rest position with
  | error failure => exact ⟨[], rfl, .stopped offset position⟩
  | ok reached =>
      obtain ⟨others, start⟩ := reached
      obtain ⟨gap, hgap, rfl, rfl, -⟩ := (isGap_of_skipGap rest).1 _ _ _ hskip
      obtain ⟨hbetween, hothers⟩ := extract_of_drop htext
      have hsize := congrArg List.length htext
      rw [List.length_drop, List.length_append] at hsize
      cases others with
      | nil =>
          have hend : text.length = offset + gap.length := by
            rw [List.length_nil] at hsize
            omega
          refine ⟨_, ?_, .done hoffset ?_⟩
          · rw [hend, hbetween]
            rfl
          · rwa [hend, hbetween]
      | cons head tail =>
          cases hscan : scanToken head tail (position.afterGap gap) with
          | error failure => exact ⟨[], by simp [hscan], .stopped offset position⟩
          | ok scanned =>
              obtain ⟨token, after⟩ := scanned
              obtain ⟨lexeme, hlexeme, hspelling, hstart, hstop, -⟩ := isSpelling_of_scanToken hscan
              rw [hlexeme] at hothers
              obtain ⟨hspelled, hafter⟩ := extract_of_drop hothers
              have hshorter := length_of_scanToken hscan
              have hparts := congrArg List.length hlexeme
              rw [List.length_append] at hparts hlength
              let span : Span := ⟨token, offset + gap.length, offset + gap.length + lexeme.length⟩
              have hinside : span.last ≤ text.length := by
                change offset + gap.length + lexeme.length ≤ text.length
                omega
              obtain ⟨spans, htokens, hspans⟩ :=
                ih after.length (by omega) hafter hinside token.stop rfl
              refine ⟨span :: spans, ?_, .next (Nat.le_add_right _ _) (Nat.le_add_right _ _)
                hinside ?_ ?_ ?_ ?_ hspans⟩
              · simp only [hscan, List.map_cons, htokens, span]
              · rwa [hbetween]
              · rwa [hspelled]
              · rw [hbetween]
                exact hstart
              · rw [hspelled, hstop, hstart]

theorem le_first (h : Scanned text offset position spans) :
    ∀ span ∈ spans, offset ≤ span.first := by
  induction h with
  | stopped => exact List.forall_mem_nil _
  | done hoffset => exact List.forall_mem_singleton.mpr hoffset
  | next hfirst hlast _ _ _ _ _ _ ih =>
      refine List.forall_mem_cons.mpr ⟨hfirst, fun span hspan => ?_⟩
      exact (hfirst.trans hlast).trans (ih span hspan)

/-- What comes before a row is in none of its strings. -/
theorem isQuoted_eq_false {place : Nat} (h : ∀ span ∈ spans, place < span.first) :
    Span.isQuoted spans place = false := by
  unfold Span.isQuoted
  rw [List.any_eq_false]
  intro span hspan
  simp [Nat.not_le.mpr (h span hspan)]

theorem isQuoted_cons_of_le {span : Span} {place : Nat} (h : span.last ≤ place) :
    Span.isQuoted (span :: spans) place = Span.isQuoted spans place := by
  unfold Span.isQuoted
  rw [List.any_cons, decide_eq_false (Nat.not_lt.mpr h), Bool.and_false, Bool.false_or]

theorem isQuoted_cons_of_mem {span : Span} {place : Nat} (h : span.token.kind = .string)
    (hfirst : span.first ≤ place) (hlast : place < span.last) :
    Span.isQuoted (span :: spans) place = true := by
  unfold Span.isQuoted
  rw [List.any_cons, h, decide_eq_true hfirst, decide_eq_true hlast]
  rfl

/-- All tokens are where their offsets say. -/
theorem places {quoted : Nat → Bool} (h : Scanned text offset position spans)
    (hposition : placeAt text quoted offset = position)
    (hquoted : ∀ place, offset ≤ place → quoted place = Span.isQuoted spans place) :
    ∀ span ∈ spans, span.token.start = placeAt text quoted span.first ∧
      span.token.stop = placeAt text quoted span.last := by
  induction h with
  | stopped => exact List.forall_mem_nil _
  | @done offset position hoffset hgap =>
      have hmark : placeAt text quoted text.length =
          position.afterGap (text.extract offset text.length) := by
        have hlength := add_length_extract hoffset (Nat.le_refl _)
        have hplace := @placeAt_gap _ _ quoted _ _ (extract_append_drop text hoffset)
        rw [hlength, hposition] at hplace
        refine hplace fun place hlow hhigh => ?_
        rw [hquoted place hlow]
        exact isQuoted_eq_false (List.forall_mem_singleton.mpr hhigh)
      exact List.forall_mem_singleton.mpr ⟨hmark.symm, hmark.symm⟩
  | @next offset position span spans hfirst hlast hlength hgap hspelling hstart hstop hrest ih =>
      have hgapLength := add_length_extract hfirst (hlast.trans hlength)
      have hlexemeLength := add_length_extract hlast hlength
      have hbegin : placeAt text quoted span.first = span.token.start := by
        have hplace := @placeAt_gap _ _ quoted _ _ (extract_append_drop text hfirst)
        rw [hgapLength, hposition, ← hstart] at hplace
        refine hplace fun place hlow hhigh => ?_
        rw [hquoted place hlow]
        refine isQuoted_eq_false (List.forall_mem_cons.mpr ⟨hhigh, fun later hlater => ?_⟩)
        exact hhigh.trans_le (hlast.trans (hrest.le_first later hlater))
      have hend : placeAt text quoted span.last = span.token.stop := by
        have hplace := @placeAt_lexeme _ _ quoted _ _ (extract_append_drop text hlast)
        rw [hlexemeLength, hbegin, ← hstop] at hplace
        refine hplace fun place hlow hhigh => ?_
        refine hspelling.isString_or_count.imp_left fun hstring => ?_
        rw [hquoted place (hfirst.trans hlow)]
        exact isQuoted_cons_of_mem hstring hlow hhigh
      refine List.forall_mem_cons.mpr ⟨⟨hbegin.symm, hend.symm⟩, ih hend fun place hplace => ?_⟩
      rw [hquoted place (hfirst.trans (hlast.trans hplace))]
      exact isQuoted_cons_of_le hplace

end Scanned

/-- The test for a touching token compares its start with the stop of the token passed. -/
theorem advance_isAttached {state : ParserState} {next : Token} {upcoming : List Token}
    (h : state.upcoming = next :: upcoming) :
    (Parser.advance >>= fun _ => Parser.isAttached) state =
      .ok (decide (next.start = state.current.stop))
        { state with current := next, upcoming := upcoming, previousStop := state.current.stop } := by
  have hadvance : Parser.advance state = .ok state.current
      { state with current := next, upcoming := upcoming, previousStop := state.current.stop } := by
    unfold Parser.advance
    rw [h]
  simp only [bind, EStateM.bind, hadvance]
  rfl

/-- **Places identify offsets.** Each token of a source, also of one with a lexical fault further
on, starts and stops at the places of its offsets, and places grow with the offsets. So the test for
a token that touches the one just passed tells whether nothing is between the two. -/
theorem places_identify_offsets (source : String) :
    ∃ spans, spans.map Span.token = (TokenStream.ofSource source).tokens ∧
      Scanned source.toList 0 .first spans ∧
      (∀ span ∈ spans,
        span.token.start = placeAt source.toList (Span.isQuoted spans) span.first ∧
          span.token.stop = placeAt source.toList (Span.isQuoted spans) span.last) ∧
      (∀ offset next, offset < next →
        (placeAt source.toList (Span.isQuoted spans) offset).Before
          (placeAt source.toList (Span.isQuoted spans) next)) ∧
      ∀ left right, [left, right] <:+: spans → ∀ state : ParserState,
        state.current = left.token → state.upcoming.head? = some right.token →
          ∃ after, (Parser.advance >>= fun _ => Parser.isAttached) state =
            .ok (decide (left.last = right.first)) after := by
  obtain ⟨spans, htokens, hscanned⟩ :=
    Scanned.exists_of_tokensFrom (List.drop_zero (l := source.toList)) (Nat.zero_le _) .first
  have hplaces : ∀ span ∈ spans, span.token.start = _ ∧ span.token.stop = _ :=
    hscanned.places rfl fun _ _ => rfl
  refine ⟨spans, htokens, hscanned, hplaces, fun offset next => placeAt_before _ _, ?_⟩
  intro left right hpair state hcurrent hupcoming
  have hleft := (hplaces left (hpair.subset List.mem_cons_self)).2
  have hright := (hplaces right (hpair.subset (List.mem_cons_of_mem _ List.mem_cons_self))).1
  have htouch : (right.token.start = left.token.stop) ↔ left.last = right.first := by
    rw [hleft, hright, placeAt_inj]
    exact eq_comm
  obtain ⟨upcoming, hcons⟩ := List.head?_eq_some_iff.mp hupcoming
  rw [advance_isAttached hcons, hcurrent, decide_eq_decide.mpr htouch]
  exact ⟨_, rfl⟩

/-- The line break in the string raises the line of the bracket and leaves its column running. -/
example : (TokenStream.ofSource "\"a\nb\"[").tokens.map Token.start =
    [⟨1, 1⟩, ⟨2, 6⟩, ⟨2, 7⟩] := by
  cbv

end ScriptEngine
