import ScriptEngine.Proofs.Source.Tiling

/-!
# Texts that strings can stand for

Which texts have a literal, for each of the two quotes. The scan for the closing quote and the four
substitutions after it are separate passes. They agree on what a backslash means for just those
texts in which no substitution has anything left to do, and these have a literal in which only the
quote itself is written with a backslash.
-/

namespace ScriptEngine

open Lexer

namespace Lexer

theorem avoids_iff_not_infix {mark : Char} {text : List Char} :
    Avoids mark text ↔ ¬ ['\\', mark] <:+: text := by
  unfold Avoids
  rw [List.isChain_iff_forall_rel_of_append_cons_cons]
  constructor
  · rintro h ⟨before, after, rfl⟩
    exact h (List.append_assoc before ['\\', mark] after) ⟨rfl, rfl⟩
  · rintro h first second before after rfl ⟨rfl, rfl⟩
    exact h ⟨before, after, by simp⟩

/-- No backslash ends a payload or comes before the letter of an escape. -/
theorem isPayload_iff {text : List Char} :
    IsPayload text ↔ text.getLast? ≠ some '\\' ∧
      ∀ mark ∈ ['n', 'r', 't'], ¬ ['\\', mark] <:+: text := by
  simp only [List.forall_mem_cons, ← avoids_iff_not_infix]
  constructor
  · exact fun h => ⟨h.last, h.newline, h.carriage, h.tab, List.forall_mem_nil _⟩
  · exact fun ⟨hlast, hnewline, hcarriage, htab, _⟩ => ⟨hnewline, hcarriage, htab, hlast⟩

/-- Only strings are spelled between quotes. -/
theorem IsSpelling.isPayload {payload : String} {lexeme : List Char}
    (h : IsSpelling .string payload lexeme) : IsPayload payload.toList := by
  generalize hkind : TokenKind.string = kind at h
  cases h with
  | word =>
      unfold TokenKind.ofWord at hkind
      split at hkind <;> cases hkind
  | numeral => cases hkind
  | symbol hsymbol =>
      subst hkind
      exact absurd hsymbol Bool.false_ne_true
  | twice htwice => rcases htwice with rfl | rfl <;> cases hkind
  | string hliteral =>
      rw [String.toList_ofList]
      exact hliteral.isPayload

end Lexer

/-- The text is scanned as one string, which stands for the payload, and the mark at the end. -/
def IsStringSource (text : List Char) (payload : String) : Prop :=
  ∃ tokens, TokenStream.ofSource (String.ofList text) = ⟨tokens, none⟩ ∧
    tokens.map Token.content = [(.string, payload), (.endOfInput, "")]

/-- A payload with a quote around it, in which each such quote has a backslash, is one string. -/
theorem isStringSource_quotedBody {delimiter : Char} (hquote : delimiter = '"' ∨ delimiter = '\'')
    {payload : String} (h : IsPayload payload.toList) :
    IsStringSource (delimiter :: (quotedBody delimiter payload.toList ++ [delimiter])) payload := by
  have hopens : delimiter ∉ [' ', '\t', '\r', '\n', '#'] := by
    rcases hquote with rfl | rfl
    · decide
    · decide
  let literal := delimiter :: (quotedBody delimiter payload.toList ++ [delimiter])
  let stop := Position.first.afterQuoted (quotedBody delimiter payload.toList)
  have hstream : tokensFrom literal .first =
      ⟨[⟨.string, payload, .first, stop⟩, ⟨.endOfInput, "", stop, stop⟩], none⟩ := by
    rw [Lexeme.tokensFrom_eq, Lexeme.skipGap_of_not_mem hopens]
    dsimp only
    rw [scanToken_quoted hquote h, String.ofList_toList]
    dsimp only
    rw [Lexeme.tokensFrom_eq]
    rfl
  have hsource : TokenStream.ofSource (String.ofList literal) = tokensFrom literal .first := by
    rw [TokenStream.ofSource, String.toList_ofList]
  exact ⟨_, hsource.trans hstream, rfl⟩

/-- What a single string stands for is a payload. -/
theorem IsStringSource.isPayload {text : List Char} {payload : String}
    (h : IsStringSource text payload) : IsPayload payload.toList := by
  obtain ⟨tokens, hstream, hcontent⟩ := h
  rw [TokenStream.ofSource, String.toList_ofList] at hstream
  obtain ⟨pieces, hpieces⟩ := tiles_iff.mp hstream
  cases hpieces with
  | done => cases hcontent
  | next _ hspelling =>
      obtain ⟨hkind, hliteral⟩ := Prod.mk.inj (List.cons.inj hcontent).1
      rw [hkind, hliteral] at hspelling
      exact hspelling.isPayload

/-- **Which texts have a literal.** For each quote there is a literal for just the texts that end in
no backslash and have none right before an `n`, an `r` or a `t`. It is enough to write a backslash
before each such quote in the text, and everything else as it is. -/
theorem exists_literal_iff {delimiter : Char} (hquote : delimiter = '"' ∨ delimiter = '\'')
    (payload : String) :
    ((∃ body, IsStringSource (delimiter :: (body ++ [delimiter])) payload) ↔
      payload.toList.getLast? ≠ some '\\' ∧
        ∀ mark ∈ ['n', 'r', 't'], ¬ ['\\', mark] <:+: payload.toList) ∧
    (payload.toList.getLast? ≠ some '\\' →
      (∀ mark ∈ ['n', 'r', 't'], ¬ ['\\', mark] <:+: payload.toList) →
      IsStringSource (delimiter :: (quotedBody delimiter payload.toList ++ [delimiter]))
        payload) := by
  rw [← isPayload_iff]
  refine ⟨⟨?_, fun h => ⟨_, isStringSource_quotedBody hquote h⟩⟩, fun hlast hmarks => ?_⟩
  · rintro ⟨body, hbody⟩
    exact hbody.isPayload
  · exact isStringSource_quotedBody hquote (isPayload_iff.mpr ⟨hlast, hmarks⟩)

/-- A line break, a quote of each kind, and backslashes before a quote and before each other. -/
def crookedPayload : String :=
  "it\\'s\n\\\\\"q\\x\""

theorem exists_literal_iff_crooked :
    ('\'' = '"' ∨ '\'' = '\'') ∧ crookedPayload.toList.getLast? ≠ some '\\' ∧
      (∀ mark ∈ ['n', 'r', 't'], ¬ ['\\', mark] <:+: crookedPayload.toList) ∧
      IsStringSource "'it\\\\'s\n\\\\\"q\\x\"'".toList crookedPayload := by
  have hpayload : IsPayload crookedPayload.toList := by
    constructor <;> simp [crookedPayload, Avoids]
  obtain ⟨hlast, hmarks⟩ := isPayload_iff.mp hpayload
  have hsource := (exists_literal_iff (.inr rfl) crookedPayload).2 hlast hmarks
  exact ⟨.inr rfl, hlast, hmarks, hsource⟩

end ScriptEngine
