import ScriptEngine.Program.Parser
import ScriptEngine.Proofs.Source.Lexemes

/-!
# Runs of the parser

What a parser makes of the tokens that lexemes stand for. It goes as many levels deep as it needs,
and fails with an error of its own if there are not that many left.
-/

namespace ScriptEngine

/-- The tokens in hand are those of lexemes, and the nesting is within the limit. -/
structure ParserState.Faces (state : ParserState) (lexemes : List Lexeme) : Prop where
  spells : Spells state.previousStop (state.current :: state.upcoming) lexemes
  failure : state.failure = none
  depth_le : state.depth ≤ Parser.nestingLimit

namespace Parser

open Lexeme

/-- In front of `lexemes`, with `need` levels left, the parser succeeds with a good value and leaves
`rest`. With fewer levels left it finds the nesting too deep. -/
def Meets {α : Type} (parser : Parser α) (lexemes : List Lexeme) (need : Nat) (good : α → Prop)
    (rest : List Lexeme) : Prop :=
  ∀ state : ParserState, state.Faces lexemes →
    (state.depth + need ≤ nestingLimit → ∃ value after, parser state = .ok value after ∧
      good value ∧ after.Faces rest ∧ after.depth = state.depth) ∧
    (nestingLimit < state.depth + need →
      ∃ position after, parser state = .error (.nestingTooDeep nestingLimit position) after)

section

variable {α β : Type} {parser : Parser α} {next : α → Parser β} {lexeme : Lexeme}
  {lexemes middle rest : List Lexeme} {need others : Nat} {good : α → Prop} {final : β → Prop}

theorem meets_pure {value : α} (h : good value) : Meets (pure value) rest 0 good rest :=
  fun state hstate => ⟨fun _ => ⟨value, state, rfl, h, hstate, rfl⟩,
    fun hlevels => absurd hstate.depth_le (Nat.not_le.mpr hlevels)⟩

theorem Meets.congr (h : Meets parser lexemes need good rest) (hneed : need = others) :
    Meets parser lexemes others good rest :=
  hneed ▸ h

theorem Meets.bind (h : Meets parser lexemes need good middle)
    (hnext : ∀ value, good value → Meets (next value) middle others final rest) :
    Meets (parser >>= next) lexemes (max need others) final rest := by
  intro state hstate
  obtain ⟨hfits, hdeep⟩ := h state hstate
  by_cases hlevels : state.depth + need ≤ nestingLimit
  · obtain ⟨value, between, hvalue, hgood, hfaces, hdepth⟩ := hfits hlevels
    have hrun : (parser >>= next) state = next value between := by
      change EStateM.bind parser next state = _
      unfold EStateM.bind
      rw [hvalue]
    obtain ⟨hrest, hrestDeep⟩ := hnext value hgood between hfaces
    rw [hrun]
    rw [hdepth] at hrest hrestDeep
    exact ⟨fun hall => hrest (by omega), fun hall => hrestDeep (by omega)⟩
  · obtain ⟨position, after, hafter⟩ := hdeep (Nat.lt_of_not_le hlevels)
    refine ⟨fun hall => absurd hall (by omega), fun _ => ⟨position, after, ?_⟩⟩
    change EStateM.bind parser next state = _
    unfold EStateM.bind
    rw [hafter]

theorem Meets.map (h : Meets parser lexemes need good rest) {transform : α → β}
    (htransform : ∀ value, good value → final (transform value)) :
    Meets (parser >>= fun value => pure (transform value)) lexemes need final rest :=
  (h.bind fun value hvalue => meets_pure (htransform value hvalue)).congr (Nat.max_zero need)

/-! ### Tokens -/

theorem kind_of_faces {state : ParserState} (h : state.Faces lexemes) :
    state.current.kind = headKind lexemes :=
  h.spells.kind_eq

theorem literal_of_faces {state : ParserState} (h : state.Faces (lexeme :: lexemes)) :
    state.current.literal = lexeme.literal :=
  h.spells.of_cons.1

theorem meets_current {next : Token → Parser β}
    (h : ∀ token, token.kind = headKind lexemes → Meets (next token) lexemes need final rest) :
    Meets (current >>= next) lexemes need final rest :=
  fun state hstate => h state.current (kind_of_faces hstate) state hstate

theorem meets_current_cons {next : Token → Parser β}
    (h : ∀ token, token.kind = lexeme.kind → token.literal = lexeme.literal →
      Meets (next token) (lexeme :: lexemes) need final rest) :
    Meets (current >>= next) (lexeme :: lexemes) need final rest :=
  fun state hstate =>
    h state.current (kind_of_faces hstate) (literal_of_faces hstate) state hstate

/-- Moving on leaves the token passed and faces the next lexemes. -/
theorem advance_of_faces {state : ParserState} (h : state.Faces (lexeme :: lexemes)) :
    ∃ after, advance state = .ok state.current after ∧ after.Faces lexemes ∧
      after.depth = state.depth := by
  have hrest := h.spells.of_cons.2.2
  obtain ⟨head, tail, hupcoming⟩ := hrest.exists_cons
  rw [hupcoming] at hrest
  refine ⟨{ state with current := head, upcoming := tail, previousStop := state.current.stop }, ?_,
    ⟨hrest, h.failure, h.depth_le⟩, rfl⟩
  unfold advance
  rw [hupcoming]

theorem meets_advance {next : Token → Parser β}
    (h : ∀ token, token.kind = lexeme.kind → token.literal = lexeme.literal →
      Meets (next token) lexemes need final rest) :
    Meets (advance >>= next) (lexeme :: lexemes) need final rest := by
  intro state hstate
  obtain ⟨after, hafter, hfaces, hdepth⟩ := advance_of_faces hstate
  have hrun : (advance >>= next) state = next state.current after := by
    change EStateM.bind advance next state = _
    unfold EStateM.bind
    rw [hafter]
  rw [hrun, ← hdepth]
  exact h state.current (kind_of_faces hstate) (literal_of_faces hstate) after hfaces

theorem meets_check {next : Bool → Parser β} {kind : TokenKind}
    (h : Meets (next (headKind lexemes == kind)) lexemes need final rest) :
    Meets (check kind >>= next) lexemes need final rest := by
  intro state hstate
  have hrest := h state hstate
  rw [← kind_of_faces hstate] at hrest
  exact hrest

theorem meets_accept {next : Bool → Parser β} {kind : TokenKind} (hkind : lexeme.kind = kind)
    (h : Meets (next true) lexemes need final rest) :
    Meets (accept kind >>= next) (lexeme :: lexemes) need final rest := by
  have haccept : Meets (accept kind) (lexeme :: lexemes) 0 (· = true) lexemes := by
    unfold accept
    refine meets_check ?_
    rw [if_pos (beq_iff_eq.mpr (show headKind (lexeme :: lexemes) = kind from hkind))]
    exact meets_advance fun _ _ _ => meets_pure rfl
  exact (haccept.bind fun value hvalue => hvalue ▸ h).congr (Nat.zero_max need)

theorem meets_accept_of_ne {next : Bool → Parser β} {kind : TokenKind}
    (hkind : headKind lexemes ≠ kind) (h : Meets (next false) lexemes need final rest) :
    Meets (accept kind >>= next) lexemes need final rest := by
  have haccept : Meets (accept kind) lexemes 0 (· = false) lexemes := by
    unfold accept
    refine meets_check ?_
    rw [if_neg (fun heq => hkind (beq_iff_eq.mp heq))]
    exact meets_pure rfl
  exact (haccept.bind fun value hvalue => hvalue ▸ h).congr (Nat.zero_max need)

theorem meets_expect {next : Token → Parser β} {kind : TokenKind} {expected : String}
    (hkind : lexeme.kind = kind)
    (h : ∀ token, token.literal = lexeme.literal → Meets (next token) lexemes need final rest) :
    Meets (expect kind expected >>= next) (lexeme :: lexemes) need final rest := by
  have hexpect : Meets (expect kind expected) (lexeme :: lexemes) 0
      (fun token => token.literal = lexeme.literal) lexemes := by
    unfold expect
    refine meets_check ?_
    rw [if_pos (beq_iff_eq.mpr (show headKind (lexeme :: lexemes) = kind from hkind)), ← bind_pure advance]
    exact meets_advance fun token _ hliteral => meets_pure hliteral
  exact (hexpect.bind fun token htoken => h token htoken).congr (Nat.zero_max need)

theorem meets_expectName {next : String → Parser β} {name : String}
    (hname : TokenKind.ofWord name = .identifier)
    (h : Meets (next name) lexemes need final rest) :
    Meets (expectName >>= next) (word name :: lexemes) need final rest := by
  have hexpect : Meets expectName (word name :: lexemes) 0 (· = name) lexemes :=
    meets_expect hname fun token hliteral => meets_pure hliteral
  exact (hexpect.bind fun value hvalue => hvalue ▸ h).congr (Nat.zero_max need)

theorem ofWord_ne_string (text : String) : TokenKind.ofWord text ≠ .string := by
  unfold TokenKind.ofWord
  split <;> exact TokenKind.noConfusion

theorem meets_expectMemberName {next : String → Parser β} {name : String}
    (hname : Lexer.IsWord name.toList) (h : Meets (next name) lexemes need final rest) :
    Meets (expectMemberName >>= next) (word name :: lexemes) need final rest := by
  have hexpect : Meets expectMemberName (word name :: lexemes) 0 (· = name) lexemes := by
    obtain ⟨head, tail, htext, hhead, _⟩ := hname
    refine meets_current_cons fun token hkind hliteral => ?_
    have hstart : token.literal.toList.head?.any Lexer.isNameStart := by
      rw [hliteral]
      change (name.toList.head?.any Lexer.isNameStart) = true
      rw [htext]
      exact hhead
    rw [if_pos ⟨fun hstring => ofWord_ne_string name (hkind.symm.trans hstring), hstart⟩]
    exact meets_advance fun token _ hliteral => meets_pure hliteral
  exact (hexpect.bind fun value hvalue => hvalue ▸ h).congr (Nat.zero_max need)

/-- Whether a statement may end in front of a token. -/
def endsStatement : TokenKind → Bool
  | .semicolon | .kwIf | .kwUnless | .kwWhile | .kwUntil | .endOfInput => true
  | _ => false

theorem meets_atStatementEnd {next : Bool → Parser β}
    (h : Meets (next (endsStatement (headKind lexemes))) lexemes need final rest) :
    Meets (atStatementEnd >>= next) lexemes need final rest := by
  have hend : Meets atStatementEnd lexemes 0 (· = endsStatement (headKind lexemes)) lexemes := by
    refine meets_current fun token hkind => ?_
    rw [← hkind]
    cases token.kind <;> exact meets_pure rfl
  exact (hend.bind fun value hvalue => hvalue ▸ h).congr (Nat.zero_max need)

theorem meets_isAttached {next : Bool → Parser β}
    (h : ∀ attached, (∀ lexeme ∈ lexemes.head?, lexeme.touches → attached = true) →
      Meets (next attached) lexemes need final rest) :
    Meets (isAttached >>= next) lexemes need final rest := by
  intro state hstate
  refine h (decide (state.current.start = state.previousStop)) ?_ state hstate
  intro lexeme hlexeme htouches
  cases lexemes with
  | nil => cases hlexeme
  | cons head tail =>
      cases hlexeme
      exact decide_eq_true (hstate.spells.of_cons.2.1 htouches)

/-! ### Levels -/

theorem Meets.nested (h : Meets parser lexemes need good rest) :
    Meets (nested parser) lexemes (need + 1) good rest := by
  intro state hstate
  by_cases hlimit : nestingLimit ≤ state.depth
  · refine ⟨fun hlevels => absurd hlevels (by omega), fun _ => ⟨state.current.start, state, ?_⟩⟩
    unfold Parser.nested
    rw [if_pos hlimit]
  · have hdeeper : ({ state with depth := state.depth + 1 } : ParserState).Faces lexemes :=
      ⟨hstate.spells, hstate.failure, Nat.not_le.mp hlimit⟩
    obtain ⟨hfits, hdeep⟩ := h _ hdeeper
    refine ⟨fun hlevels => ?_, fun hlevels => ?_⟩
    · obtain ⟨value, after, hvalue, hgood, hfaces, hdepth⟩ :=
        hfits (show state.depth + 1 + need ≤ nestingLimit by omega)
      refine ⟨value, { after with depth := after.depth - 1 }, ?_, hgood, ?_, ?_⟩
      · unfold Parser.nested
        rw [if_neg hlimit, hvalue]
      · exact ⟨hfaces.spells, hfaces.failure, (Nat.sub_le _ _).trans hfaces.depth_le⟩
      · change after.depth - 1 = state.depth
        rw [hdepth]
        rfl
    · obtain ⟨position, after, hafter⟩ :=
        hdeep (show nestingLimit < state.depth + 1 + need by omega)
      refine ⟨position, { after with depth := after.depth - 1 }, ?_⟩
      unfold Parser.nested
      rw [if_neg hlimit, hafter]

end

end Parser

end ScriptEngine
