import ScriptEngine.Proofs.Program.Grammatical
import ScriptEngine.Proofs.Source.Tiling

/-!
# What the parser yields

The words and numerals among the tokens of a text are what the scan takes for them. From there on
each rule of the grammar yields grammatical code, and none of them refuses a numeral. This is shown
for the few steps that the rules are made of, then for each rule, and for all of them together by
induction on the fuel.
-/

namespace ScriptEngine

/-! ### Numerals are numbers -/

namespace Lexer

open NumberReader

theorem toLower_of_isDigit {digit : Char} (h : digit.isDigit) : digit.toLower = digit := by
  have hcode := Char.isDigit_iff_toNat.mp h
  have hnine : '9'.toNat = 57 := rfl
  have hupper : ¬ (65 ≤ digit.val ∧ digit.val ≤ 90) := by
    rw [UInt32.le_iff_toNat_le, UInt32.le_iff_toNat_le]
    change ¬ (65 ≤ digit.toNat ∧ digit.toNat ≤ 90)
    omega
  unfold Char.toLower
  exact dif_neg hupper

/-- What begins with a digit is none of the words for numbers. -/
theorem readUnsigned?_of_isDigit {head : Char} (h : head.isDigit) (tail : List Char) :
    readUnsigned? (head :: tail) = (readDecimal? (head :: tail)).map .ofFloat := by
  have hword (word : String) (hword : word.toList.head?.all (¬ ·.isDigit)) :
      String.ofList ((head :: tail).map Char.toLower) ≠ word := by
    rintro rfl
    simp [toLower_of_isDigit h, h] at hword
  unfold readUnsigned?
  split
  · next heq => exact absurd heq (hword "inf" rfl)
  · next heq => exact absurd heq (hword "infinity" rfl)
  · next heq => exact absurd heq (hword "nan" rfl)
  · rfl

theorem exists_readDecimal? {text : List Char} (h : IsNumeral text) :
    ∃ value, readDecimal? text = some value := by
  obtain ⟨head, tail, htext, hhead, hlength⟩ := h
  have hwhole : (text.takeWhile Char.isDigit).isEmpty = false := by
    rw [htext, List.takeWhile_cons_of_pos hhead, List.isEmpty_cons]
  unfold readDecimal?
  dsimp only
  rw [hwhole]
  rcases digits_or_point_of_numberLength hlength with
    hdigits | ⟨whole, fraction, rfl, hdigits, hfraction⟩
  · rw [List.dropWhile_eq_nil_iff.mpr hdigits]
    simp
  · have hrest : (whole ++ '.' :: fraction).dropWhile Char.isDigit = '.' :: fraction := by
      rw [List.dropWhile_append_of_pos hdigits]
      rfl
    rw [hrest]
    simp [List.dropWhile_eq_nil_iff.mpr hfraction]

/-- Every numeral is read as a number. -/
theorem exists_readNumber? {text : List Char} (h : IsNumeral text) :
    ∃ value, readNumber? text = some value := by
  obtain ⟨value, hvalue⟩ := exists_readDecimal? h
  obtain ⟨head, tail, rfl, hhead, -⟩ := h
  refine ⟨.ofFloat value, ?_⟩
  unfold readNumber?
  split
  · next heq =>
      obtain ⟨rfl, -⟩ := List.cons.inj heq
      exact absurd hhead (by decide)
  · next heq =>
      obtain ⟨rfl, -⟩ := List.cons.inj heq
      exact absurd hhead (by decide)
  · rw [readUnsigned?_of_isDigit hhead, hvalue]
    rfl

end Lexer

/-! ### Genuine tokens -/

/-- An identifier is a word that is no keyword, and a number is a numeral. -/
structure Token.IsGenuine (token : Token) : Prop where
  name : token.kind = .identifier → IsName token.literal
  numeral : token.kind = .number → Lexer.IsNumeral token.literal.toList

def ParserState.IsGenuine (state : ParserState) : Prop :=
  ∀ token ∈ state.current :: state.upcoming, token.IsGenuine

theorem Lexer.IsSpelling.isGenuine {token : Token} {lexeme : List Char}
    (h : IsSpelling token.kind token.literal lexeme) : token.IsGenuine := by
  obtain ⟨kind, literal, start, stop⟩ := token
  dsimp only at h
  cases h with
  | word hword =>
      refine ⟨fun hkind => ⟨?_, hkind⟩, fun hkind => ?_⟩
      · rwa [String.toList_ofList]
      · dsimp only at hkind
        unfold TokenKind.ofWord at hkind
        split at hkind <;> cases hkind
  | numeral hnumeral =>
      refine ⟨nofun, fun _ => ?_⟩
      rwa [String.toList_ofList]
  | symbol hkind => refine ⟨?_, ?_⟩ <;> rintro rfl <;> cases hkind
  | twice hkind => rcases hkind with rfl | rfl <;> exact ⟨nofun, nofun⟩
  | string => exact ⟨nofun, nofun⟩

/-- All tokens that a scan finds are genuine, also those before a lexical error. -/
theorem Lexer.isGenuine_tokensFrom (text : List Char) (position : Position) :
    ∀ token ∈ (tokensFrom text position).tokens, token.IsGenuine := by
  induction hlength : text.length using Nat.strong_induction_on generalizing text position with
  | _ length ih =>
      rw [Lexeme.tokensFrom_eq]
      cases hskip : skipGap text position with
      | error failure => simp
      | ok reached =>
          obtain ⟨rest, start⟩ := reached
          have hrest := (length_skipGap_le text).1 _ _ _ hskip
          cases rest with
          | nil =>
              have hmark : Token.IsGenuine ⟨.endOfInput, "", start, start⟩ := ⟨nofun, nofun⟩
              simpa using hmark
          | cons head tail =>
              cases hscan : scanToken head tail start with
              | error failure => simp [hscan]
              | ok scanned =>
                  obtain ⟨token, after⟩ := scanned
                  obtain ⟨lexeme, -, hspelling, -⟩ := isSpelling_of_scanToken hscan
                  have hshorter := length_of_scanToken hscan
                  simp only [hscan, List.forall_mem_cons]
                  exact ⟨hspelling.isGenuine, ih after.length (by omega) after token.stop rfl⟩

/-! ### Steps -/

/-- The parser has refused a numeral. -/
def ParseError.IsNumberFault : ParseError → Prop
  | invalidNumber _ _ => True
  | _ => False

namespace Parser

/-- What was found has a property, and a fault is none of a numeral. -/
def IsSound {α : Type} (holds : α → Prop) : EStateM.Result ParseError ParserState α → Prop
  | .ok value after => holds value ∧ after.IsGenuine
  | .error error _ => ¬ error.IsNumberFault

theorem IsSound.imp {α : Type} {holds weaker : α → Prop}
    {result : EStateM.Result ParseError ParserState α} (h : IsSound holds result)
    (himp : ∀ value, holds value → weaker value) : IsSound weaker result := by
  cases result with
  | ok value after => exact ⟨himp value h.1, h.2⟩
  | error error after => exact h

/-- On genuine tokens the parser yields what has a property, and refuses no numeral. -/
def Yields {α : Type} (parser : Parser α) (holds : α → Prop) : Prop :=
  ∀ state, state.IsGenuine → IsSound holds (parser state)

namespace Yields

variable {α β : Type} {parser : Parser α} {next : α → Parser β} {holds : α → Prop}

theorem pure {value : α} (h : holds value) : Yields (pure value) holds :=
  fun _ hstate => ⟨h, hstate⟩

theorem throw {error : ParseError} (h : ¬ error.IsNumberFault) :
    Yields (throw error : Parser α) holds :=
  fun _ _ => h

theorem bind {others : β → Prop} (h : Yields parser holds)
    (hnext : ∀ value, holds value → Yields (next value) others) :
    Yields (parser >>= next) others := by
  intro state hstate
  have hfirst := h state hstate
  change IsSound others (EStateM.bind parser next state)
  unfold EStateM.bind
  revert hfirst
  cases parser state with
  | ok value middle => exact fun hfirst => hnext value hfirst.1 middle hfirst.2
  | error error middle => exact id

theorem nested (h : Yields parser holds) : Yields (nested parser) holds := by
  intro state hstate
  have hinner := h { state with depth := state.depth + 1 } hstate
  unfold Parser.nested
  by_cases hdeep : nestingLimit ≤ state.depth
  · rw [if_pos hdeep]
    exact id
  · rw [if_neg hdeep]
    revert hinner
    cases parser { state with depth := state.depth + 1 } with
    | ok value after => exact id
    | error error after => exact id

end Yields

theorem yields_current : Yields current Token.IsGenuine :=
  fun _ hstate => ⟨(List.forall_mem_cons.mp hstate).1, hstate⟩

theorem yields_check (kind : TokenKind) : Yields (check kind) fun _ => True :=
  fun _ hstate => ⟨trivial, hstate⟩

theorem yields_isAttached : Yields isAttached fun _ => True :=
  fun _ hstate => ⟨trivial, hstate⟩

/-- The token passed is the one that was looked at. -/
theorem isSound_advance {state : ParserState} (hstate : state.IsGenuine) :
    IsSound (fun token => token = state.current ∧ token.IsGenuine) (advance state) := by
  obtain ⟨current, upcoming, failure, stop, depth⟩ := state
  obtain ⟨hcurrent, hupcoming⟩ := List.forall_mem_cons.mp hstate
  cases upcoming with
  | cons next upcoming => exact ⟨⟨rfl, hcurrent⟩, hupcoming⟩
  | nil =>
      cases failure with
      | some fault => exact id
      | none => exact ⟨⟨rfl, hcurrent⟩, hstate⟩

theorem yields_advance : Yields advance Token.IsGenuine :=
  fun _ hstate => (isSound_advance hstate).imp fun _ hpassed => hpassed.2

section

variable {α : Type} {holds : α → Prop}

theorem yields_unexpected (expected : String) : Yields (unexpected expected) holds :=
  yields_current.bind fun _ _ => .throw id

theorem yields_exhausted : Yields exhausted holds :=
  yields_current.bind fun _ _ => .throw id

end

theorem yields_accept (kind : TokenKind) : Yields (accept kind) fun _ => True := by
  refine (yields_check kind).bind fun accepted _ => ?_
  split
  · exact yields_advance.bind fun _ _ => .pure trivial
  · exact .pure trivial

theorem yields_expect (kind : TokenKind) (expected : String) :
    Yields (expect kind expected) fun token => token.IsGenuine ∧ token.kind = kind := by
  intro state hstate
  change IsSound _ ((if state.current.kind == kind then advance else unexpected expected) state)
  split
  · next hkind =>
      refine (isSound_advance hstate).imp fun token htoken => ⟨htoken.2, ?_⟩
      rw [htoken.1]
      exact eq_of_beq hkind
  · exact yields_unexpected expected state hstate

theorem yields_expectName : Yields expectName IsName :=
  (yields_expect _ _).bind fun _ htoken => .pure (htoken.1.name htoken.2)

theorem yields_expectMemberName : Yields expectMemberName fun _ => True := by
  refine yields_current.bind fun token _ => ?_
  split
  · exact yields_advance.bind fun _ _ => .pure trivial
  · exact yields_unexpected _

theorem yields_atStatementEnd : Yields atStatementEnd fun _ => True := by
  refine yields_current.bind fun token _ => ?_
  split <;> exact .pure trivial

/-! ### Rules -/

open Code

/-- All code that has been found is grammatical. -/
def FoundBranches (found : List Branch × Option (List Stmt)) : Prop :=
  AreGrammatical (ofBranches found.1) ∧ AreGrammatical (ofFallback found.2)

theorem FoundBranches.cons {condition : Expr} {body : List Stmt}
    {found : List Branch × Option (List Stmt)} (hfound : FoundBranches found)
    (hcondition : condition.IsGrammatical) (hbody : AreGrammatical (ofBody body)) :
    FoundBranches (.mk condition body :: found.1, found.2) := by
  refine ⟨?_, hfound.2⟩
  rw [ofBranches_cons, AreGrammatical.append_iff, AreGrammatical.cons_iff]
  exact ⟨⟨hcondition, hbody⟩, hfound.1⟩

/-- A target has been found, and an amount. -/
def FoundStep (found : Expr × Option Expr) : Prop :=
  found.1.isAssignable ∧ AreGrammatical (.expression found.1 :: ofOptional found.2)

/-- With so much fuel all rules yield grammatical code. -/
structure RulesYield (fuel : Nat) : Prop where
  statement : Yields (statement fuel) Stmt.IsGrammatical
  simpleStatement : Yields (simpleStatement fuel) Stmt.IsGrammatical
  assignmentOrCall : Yields (assignmentOrCall fuel) Stmt.IsGrammatical
  spacedArguments (start : Position) {callee : Expr} {arguments : List Expr}
    (hcallee : callee.IsGrammatical) (harguments : AreGrammatical (ofExpressions arguments)) :
    Yields (spacedArguments fuel start callee arguments) Stmt.IsGrammatical
  assignment (start : Position) {target : Expr} (htarget : target.IsGrammatical) :
    Yields (assignment fuel start target) Stmt.IsGrammatical
  modified {simple : Stmt} (hsimple : simple.IsGrammatical) :
    Yields (modified fuel simple) Stmt.IsGrammatical
  conditional (sense : Sense) : Yields (conditional fuel sense) Stmt.IsGrammatical
  elseChain : Yields (elseChain fuel) FoundBranches
  loop (sense : Sense) : Yields (loop fuel sense) Stmt.IsGrammatical
  postLoop : Yields (postLoop fuel) Stmt.IsGrammatical
  each : Yields (each fuel) Stmt.IsGrammatical
  sub : Yields (sub fuel) Stmt.IsGrammatical
  parameters : Yields (parameters fuel) fun names => ∀ name ∈ names, IsName name
  declaration : Yields (declaration fuel) Stmt.IsGrammatical
  choice : Yields (choice fuel) Stmt.IsGrammatical
  caseList : Yields (caseList fuel) FoundBranches
  block : Yields (block fuel) fun body => AreGrammatical (ofBody body)
  blockTail : Yields (blockTail fuel) fun body => AreGrammatical (ofBody body)
  expression : Yields (expression fuel) Expr.IsGrammatical
  operand (level : Nat) : Yields (operand fuel level) Expr.IsGrammatical
  operatorChain (level : Nat) {left : Expr} (h : left.IsGrammatical) :
    Yields (operatorChain fuel level left) Expr.IsGrammatical
  unary : Yields (unary fuel) Expr.IsGrammatical
  postfixChain (touching : Bool) : Yields (postfixChain fuel touching) Expr.IsGrammatical
  suffixes (touching : Bool) {head : Expr} (h : head.IsGrammatical) :
    Yields (suffixes fuel touching head) Expr.IsGrammatical
  arguments : Yields (arguments fuel) fun found => AreGrammatical (ofExpressions found)
  primary : Yields (primary fuel) Expr.IsGrammatical
  stepTail : Yields (stepTail fuel) FoundStep
  collection : Yields (collection fuel) Expr.IsGrammatical
  elements : Yields (elements fuel) fun found => AreGrammatical (ofExpressions found)
  entries : Yields (entries fuel) fun found => AreGrammatical (ofEntries found)

namespace RulesYield

variable {fuel : Nat} (ih : RulesYield fuel)
include ih

theorem expression_succ : Yields (Parser.expression (fuel + 1)) Expr.IsGrammatical :=
  (ih.operand 0).nested

theorem operand_succ (level : Nat) :
    Yields (Parser.operand (fuel + 1) level) Expr.IsGrammatical := by
  unfold Parser.operand
  split
  · exact (ih.operand (level + 1)).bind fun left hleft => ih.operatorChain level hleft
  · exact ih.unary

theorem operatorChain_succ (level : Nat) {left : Expr} (h : left.IsGrammatical) :
    Yields (Parser.operatorChain (fuel + 1) level left) Expr.IsGrammatical := by
  refine yields_current.bind fun token _ => ?_
  split
  · exact .pure h
  · refine yields_advance.bind fun _ _ => (ih.operand (level + 1)).bind fun right hright => ?_
    refine ih.operatorChain level (.of_parts trivial rfl ?_)
    exact .cons h (.one hright)

theorem unary_succ : Yields (Parser.unary (fuel + 1)) Expr.IsGrammatical := by
  refine yields_current.bind fun token _ => ?_
  split
  · exact ih.postfixChain false
  · refine yields_advance.bind fun _ _ => ih.unary.nested.bind fun operand hoperand => .pure ?_
    exact .of_parts trivial rfl (.one hoperand)

theorem postfixChain_succ (touching : Bool) :
    Yields (Parser.postfixChain (fuel + 1) touching) Expr.IsGrammatical :=
  ih.primary.bind fun _ hhead => ih.suffixes touching hhead

theorem suffixes_succ (touching : Bool) {head : Expr} (h : head.IsGrammatical) :
    Yields (Parser.suffixes (fuel + 1) touching head) Expr.IsGrammatical := by
  refine yields_isAttached.bind fun attached _ => yields_current.bind fun token _ => ?_
  split
  · refine yields_advance.bind fun _ _ => ih.arguments.bind fun arguments harguments => ?_
    refine ih.suffixes touching (.of_parts trivial rfl ?_)
    exact .cons h harguments
  · refine yields_advance.bind fun _ _ => ih.expression.bind fun index hindex => ?_
    refine (yields_expect _ _).bind fun _ _ => ih.suffixes touching (.of_parts trivial rfl ?_)
    exact .cons h (.one hindex)
  · refine yields_advance.bind fun _ _ => yields_expectMemberName.bind fun property _ => ?_
    refine ih.suffixes touching (.of_parts trivial rfl ?_)
    exact .one h
  · exact .pure h

theorem arguments_succ : Yields (Parser.arguments (fuel + 1))
    fun found => AreGrammatical (ofExpressions found) := by
  refine (yields_accept _).bind fun closed _ => ?_
  split
  · exact .pure .nil
  · refine ih.expression.bind fun argument hargument => (yields_check _).bind fun last _ => ?_
    split
    · refine ih.arguments.bind fun rest hrest => .pure ?_
      exact .cons hargument hrest
    · refine (yields_expect _ _).bind fun _ _ => ih.arguments.bind fun rest hrest => .pure ?_
      exact .cons hargument hrest

theorem primary_succ : Yields (Parser.primary (fuel + 1)) Expr.IsGrammatical := by
  refine yields_current.bind fun token htoken => ?_
  have hleaf {tree : Expr} (hregular : tree.IsRegular)
      (hmade : (Code.expression tree).made? = none) (hparts : tree.parts = []) :
      tree.IsGrammatical := by
    refine .of_parts hregular hmade ?_
    rw [Code.parts, hparts]
    exact .nil
  split
  · next hkind => exact yields_advance.bind fun _ _ => .pure (hleaf (htoken.name hkind) rfl rfl)
  · exact yields_advance.bind fun _ _ => .pure (hleaf trivial rfl rfl)
  · next hkind =>
      obtain ⟨value, hvalue⟩ := Lexer.exists_readNumber? (htoken.numeral hkind)
      rw [hvalue]
      exact yields_advance.bind fun _ _ => .pure (hleaf trivial rfl rfl)
  · exact yields_advance.bind fun _ _ => .pure (hleaf trivial rfl rfl)
  · exact yields_advance.bind fun _ _ => .pure (hleaf trivial rfl rfl)
  · exact yields_advance.bind fun _ _ => .pure (hleaf trivial rfl rfl)
  · refine yields_advance.bind fun _ _ => ih.expression.bind fun inner hinner => ?_
    exact (yields_expect _ _).bind fun _ _ => .pure hinner
  · exact ih.collection
  · refine yields_advance.bind fun _ _ => ih.expression.bind fun body hbody => ?_
    refine (yields_expect _ _).bind fun _ _ => .pure (.of_made trivial rfl rfl ?_)
    exact .one hbody
  · refine yields_advance.bind fun _ _ => ih.stepTail.bind fun found hfound => .pure ?_
    exact .of_parts hfound.1 rfl hfound.2
  · refine yields_advance.bind fun _ _ => ih.stepTail.bind fun found hfound => .pure ?_
    exact .of_parts hfound.1 rfl hfound.2
  · exact yields_unexpected _

theorem stepTail_succ : Yields (Parser.stepTail (fuel + 1)) FoundStep := by
  refine yields_current.bind fun token _ => ih.expression.bind fun target htarget => ?_
  split
  · next hassignable =>
      refine (yields_accept _).bind fun hasAmount _ => ?_
      split
      · refine ih.expression.bind fun amount hamount => .pure ⟨hassignable, ?_⟩
        exact .cons htarget (.one hamount)
      · exact .pure ⟨hassignable, .one htarget⟩
  · exact .throw id

theorem collection_succ : Yields (Parser.collection (fuel + 1)) Expr.IsGrammatical := by
  refine yields_advance.bind fun opening _ => (yields_accept _).bind fun colon _ => ?_
  split
  · exact (yields_expect _ _).bind fun _ _ => .pure (.of_parts trivial rfl .nil)
  · refine (yields_accept _).bind fun closed _ => ?_
    split
    · exact .pure (.of_parts trivial rfl .nil)
    · refine ih.expression.bind fun head hhead => (yields_accept _).bind fun hash _ => ?_
      split
      · refine ih.expression.bind fun value hvalue => ih.entries.bind fun entries hentries => ?_
        refine (yields_expect _ _).bind fun _ _ => .pure (.of_parts trivial rfl ?_)
        exact .cons hhead (.cons hvalue hentries)
      · refine ih.elements.bind fun elements helements => (yields_expect _ _).bind fun _ _ => ?_
        refine .pure (.of_parts trivial rfl ?_)
        exact .cons hhead helements

theorem elements_succ : Yields (Parser.elements (fuel + 1))
    fun found => AreGrammatical (ofExpressions found) := by
  refine (yields_accept _).bind fun comma _ => ?_
  split
  · refine ih.expression.bind fun element helement => ih.elements.bind fun rest hrest => .pure ?_
    exact .cons helement hrest
  · exact .pure .nil

theorem entries_succ : Yields (Parser.entries (fuel + 1))
    fun found => AreGrammatical (ofEntries found) := by
  refine (yields_accept _).bind fun comma _ => ?_
  split
  · refine ih.expression.bind fun key hkey => (yields_expect _ _).bind fun _ _ => ?_
    refine ih.expression.bind fun value hvalue => ih.entries.bind fun rest hrest => .pure ?_
    exact .cons hkey (.cons hvalue hrest)
  · exact .pure .nil

/-! ### Rules of statements -/

theorem statement_succ : Yields (Parser.statement (fuel + 1)) Stmt.IsGrammatical := by
  refine yields_current.bind fun token _ => ?_
  split
  · exact ih.conditional .whenTrue
  · exact ih.conditional .whenFalse
  · exact ih.loop .whenTrue
  · exact ih.loop .whenFalse
  · exact ih.each
  · exact ih.sub
  · exact ih.choice
  · refine ih.postLoop.bind fun result hresult => ?_
    exact (yields_expect _ _).bind fun _ _ => .pure hresult
  · refine ih.declaration.bind fun result hresult => ?_
    exact (yields_expect _ _).bind fun _ _ => .pure hresult
  · refine ih.simpleStatement.bind fun simple hsimple => ?_
    refine (ih.modified hsimple).bind fun result hresult => ?_
    exact (yields_expect _ _).bind fun _ _ => .pure hresult

theorem simpleStatement_succ : Yields (Parser.simpleStatement (fuel + 1)) Stmt.IsGrammatical := by
  refine yields_current.bind fun token _ => ?_
  split
  · refine yields_advance.bind fun _ _ => yields_atStatementEnd.bind fun ends _ => ?_
    split
    · exact .pure (.of_parts trivial rfl .nil)
    · refine ih.expression.bind fun value hvalue => .pure (.of_parts trivial rfl ?_)
      exact .one hvalue
  · exact yields_advance.bind fun _ _ => .pure (.of_parts trivial rfl .nil)
  · exact yields_advance.bind fun _ _ => .pure (.of_parts trivial rfl .nil)
  · refine yields_advance.bind fun _ _ => ih.stepTail.bind fun found hfound => .pure ?_
    exact .of_parts hfound.1 rfl hfound.2
  · refine yields_advance.bind fun _ _ => ih.stepTail.bind fun found hfound => .pure ?_
    exact .of_parts hfound.1 rfl hfound.2
  · exact ih.assignmentOrCall

theorem assignmentOrCall_succ :
    Yields (Parser.assignmentOrCall (fuel + 1)) Stmt.IsGrammatical := by
  refine yields_current.bind fun token _ => (ih.postfixChain true).bind fun head hhead => ?_
  refine (yields_accept _).bind fun equals _ => ?_
  split
  · exact ih.assignment _ hhead
  · split
    · obtain ⟨hcallee, harguments⟩ := AreGrammatical.cons_iff.mp hhead.parts
      exact ih.spacedArguments _ hcallee harguments
    · exact ih.spacedArguments _ hhead .nil

theorem spacedArguments_succ (start : Position) {callee : Expr} {arguments : List Expr}
    (hcallee : callee.IsGrammatical) (harguments : AreGrammatical (ofExpressions arguments)) :
    Yields (Parser.spacedArguments (fuel + 1) start callee arguments) Stmt.IsGrammatical := by
  refine yields_atStatementEnd.bind fun ends _ => ?_
  split
  · exact .pure (.of_parts trivial rfl (.cons hcallee harguments))
  · refine ih.expression.bind fun argument hargument => (yields_check _).bind fun equals _ => ?_
    split
    · next hreattach =>
        exact yields_advance.bind fun _ _ =>
          ih.assignment start (isGrammatical_reattach hcallee hargument hreattach)
    · refine ih.spacedArguments start hcallee ?_
      rw [ofExpressions, List.map_append, AreGrammatical.append_iff]
      exact ⟨harguments, .one hargument⟩

theorem assignment_succ (start : Position) {target : Expr} (htarget : target.IsGrammatical) :
    Yields (Parser.assignment (fuel + 1) start target) Stmt.IsGrammatical := by
  simp only [Parser.assignment]
  split
  · next hassignable =>
      refine ih.expression.bind fun value hvalue => .pure (.of_parts hassignable rfl ?_)
      exact .cons htarget (.one hvalue)
  · exact .throw id

theorem modified_succ {simple : Stmt} (hsimple : simple.IsGrammatical) :
    Yields (Parser.modified (fuel + 1) simple) Stmt.IsGrammatical := by
  refine yields_current.bind fun token _ => ?_
  split
  · refine yields_advance.bind fun _ _ => ih.expression.bind fun condition hcondition => .pure ?_
    exact isGrammatical_guardedBy _ hsimple hcondition
  · exact .pure hsimple

theorem conditional_succ (sense : Sense) :
    Yields (Parser.conditional (fuel + 1) sense) Stmt.IsGrammatical := by
  refine yields_advance.bind fun first _ => ih.expression.bind fun condition hcondition => ?_
  refine ih.block.bind fun body hbody => ih.elseChain.bind fun found hfound => .pure ?_
  refine .of_parts trivial rfl ?_
  rw [Code.parts, Stmt.parts, AreGrammatical.append_iff, AreGrammatical.append_iff,
    AreGrammatical.cons_iff]
  exact ⟨⟨⟨hcondition, hbody⟩, hfound.1⟩, hfound.2⟩

theorem elseChain_succ : Yields (Parser.elseChain (fuel + 1)) FoundBranches := by
  refine (yields_accept _).bind fun hasElse _ => ?_
  split
  · refine (yields_accept _).bind fun hasIf _ => ?_
    split
    · refine ih.expression.bind fun condition hcondition => ih.block.bind fun body hbody => ?_
      exact ih.elseChain.bind fun found hfound => .pure (hfound.cons hcondition hbody)
    · refine (yields_accept _).bind fun hasUnless _ => ?_
      split
      · refine ih.expression.bind fun condition hcondition => ih.block.bind fun body hbody => ?_
        refine ih.elseChain.bind fun found hfound => .pure (hfound.cons ?_ hbody)
        exact .of_parts trivial rfl (.one hcondition)
      · exact ih.block.bind fun body hbody => .pure ⟨.nil, hbody⟩
  · exact .pure ⟨.nil, .nil⟩

theorem loop_succ (sense : Sense) :
    Yields (Parser.loop (fuel + 1) sense) Stmt.IsGrammatical := by
  refine yields_advance.bind fun first _ => ih.expression.bind fun condition hcondition => ?_
  refine ih.block.bind fun body hbody => .pure (.of_parts trivial rfl ?_)
  exact .cons hcondition hbody

theorem postLoop_succ : Yields (Parser.postLoop (fuel + 1)) Stmt.IsGrammatical := by
  refine yields_advance.bind fun first _ => ih.block.bind fun body hbody => ?_
  refine (yields_accept _).bind fun isWhile _ => ?_
  split
  · refine ih.expression.bind fun condition hcondition => .pure (.of_parts trivial rfl ?_)
    exact .cons hcondition hbody
  · refine (yields_expect _ _).bind fun _ _ => ih.expression.bind fun condition hcondition => ?_
    refine .pure (.of_parts trivial rfl ?_)
    exact .cons hcondition hbody

theorem each_succ : Yields (Parser.each (fuel + 1)) Stmt.IsGrammatical := by
  refine yields_advance.bind fun first _ => ih.expression.bind fun head hhead => ?_
  refine (yields_accept _).bind fun isNamed _ => ?_
  split
  · split
    · have hname : IsName _ := hhead.isRegular
      refine ih.expression.bind fun iterable hiterable => ih.block.bind fun body hbody => ?_
      refine .pure (.of_parts hname rfl ?_)
      exact .cons hiterable hbody
    · exact .throw id
  · have hit : IsName "it" :=
      ⟨⟨'i', ['t'], rfl, rfl, List.forall_mem_singleton.mpr rfl⟩, rfl⟩
    refine ih.block.bind fun body hbody => .pure (.of_parts hit rfl ?_)
    exact .cons hhead hbody

theorem sub_succ : Yields (Parser.sub (fuel + 1)) Stmt.IsGrammatical := by
  refine yields_advance.bind fun first _ => yields_expectName.bind fun name hname => ?_
  refine (yields_accept _).bind fun hasParameters _ => ?_
  split
  · refine ih.parameters.bind fun parameters hparameters => ih.block.bind fun body hbody => ?_
    exact .pure (.of_made ⟨hname, hparameters⟩ rfl rfl hbody)
  · refine ih.block.bind fun body hbody => .pure ?_
    exact .of_made ⟨hname, nofun⟩ rfl rfl hbody

theorem parameters_succ : Yields (Parser.parameters (fuel + 1))
    fun names => ∀ name ∈ names, IsName name := by
  refine (yields_accept _).bind fun closed _ => ?_
  split
  · exact .pure nofun
  · refine yields_expectName.bind fun name hname => (yields_check _).bind fun last _ => ?_
    split
    · exact ih.parameters.bind fun rest hrest => .pure (List.forall_mem_cons.mpr ⟨hname, hrest⟩)
    · refine (yields_expect _ _).bind fun _ _ => ih.parameters.bind fun rest hrest => .pure ?_
      exact List.forall_mem_cons.mpr ⟨hname, hrest⟩

theorem declaration_succ : Yields (Parser.declaration (fuel + 1)) Stmt.IsGrammatical := by
  refine yields_advance.bind fun first _ => yields_expectName.bind fun name hname => ?_
  refine (yields_accept _).bind fun hasValue _ => ?_
  split
  · refine ih.expression.bind fun value hvalue => .pure (.of_parts hname rfl ?_)
    exact .one hvalue
  · exact .pure (.of_parts hname rfl .nil)

theorem choice_succ : Yields (Parser.choice (fuel + 1)) Stmt.IsGrammatical := by
  refine yields_advance.bind fun first _ => (yields_check _).bind fun bare _ => ?_
  split
  · refine (yields_expect _ _).bind fun _ _ => ih.caseList.bind fun found hfound => ?_
    refine .pure (.of_parts trivial rfl ?_)
    exact AreGrammatical.append_iff.mpr hfound
  · refine ih.expression.bind fun subject hsubject => (yields_expect _ _).bind fun _ _ => ?_
    refine ih.caseList.bind fun found hfound => .pure (.of_parts trivial rfl ?_)
    rw [Code.parts, Stmt.parts, AreGrammatical.append_iff, AreGrammatical.cons_iff]
    exact ⟨⟨hsubject, hfound.1⟩, hfound.2⟩

theorem caseList_succ : Yields (Parser.caseList (fuel + 1)) FoundBranches := by
  refine yields_current.bind fun token _ => ?_
  split
  · exact yields_advance.bind fun _ _ => .pure ⟨.nil, .nil⟩
  · refine yields_advance.bind fun _ _ => ih.expression.bind fun condition hcondition => ?_
    refine ih.block.bind fun body hbody => ih.caseList.bind fun found hfound => .pure ?_
    exact hfound.cons hcondition hbody
  · refine yields_advance.bind fun _ _ => ih.block.bind fun body hbody => ?_
    exact (yields_expect _ _).bind fun _ _ => .pure ⟨.nil, hbody⟩
  · exact yields_unexpected _

theorem block_succ : Yields (Parser.block (fuel + 1)) fun body => AreGrammatical (ofBody body) :=
  (yields_expect _ _).bind fun _ _ => ih.blockTail.nested

theorem blockTail_succ :
    Yields (Parser.blockTail (fuel + 1)) fun body => AreGrammatical (ofBody body) := by
  refine yields_current.bind fun token _ => ?_
  split
  · exact yields_advance.bind fun _ _ => .pure .nil
  · exact yields_unexpected _
  · refine ih.statement.bind fun first hfirst => ih.blockTail.bind fun rest hrest => .pure ?_
    exact .cons hfirst hrest

end RulesYield

/-- **The rules yield grammatical code.** -/
theorem rulesYield (fuel : Nat) : RulesYield fuel := by
  induction fuel with
  | zero =>
      constructor
      all_goals intros; exact yields_exhausted
  | succ fuel ih =>
      exact
        { statement := ih.statement_succ
          simpleStatement := ih.simpleStatement_succ
          assignmentOrCall := ih.assignmentOrCall_succ
          spacedArguments := ih.spacedArguments_succ
          assignment := ih.assignment_succ
          modified := ih.modified_succ
          conditional := ih.conditional_succ
          elseChain := ih.elseChain_succ
          loop := ih.loop_succ
          postLoop := ih.postLoop_succ
          each := ih.each_succ
          sub := ih.sub_succ
          parameters := ih.parameters_succ
          declaration := ih.declaration_succ
          choice := ih.choice_succ
          caseList := ih.caseList_succ
          block := ih.block_succ
          blockTail := ih.blockTail_succ
          expression := ih.expression_succ
          operand := ih.operand_succ
          operatorChain := ih.operatorChain_succ
          unary := ih.unary_succ
          postfixChain := ih.postfixChain_succ
          suffixes := ih.suffixes_succ
          arguments := ih.arguments_succ
          primary := ih.primary_succ
          stepTail := ih.stepTail_succ
          collection := ih.collection_succ
          elements := ih.elements_succ
          entries := ih.entries_succ }

/-! ### Texts -/

theorem isGrammatical_statementsFrom (fuel : Nat) {state : ParserState}
    (hstate : state.IsGenuine) :
    (∀ statement ∈ (statementsFrom fuel state).1, statement.IsGrammatical) ∧
      ∀ error ∈ (statementsFrom fuel state).2, ¬ error.IsNumberFault := by
  induction fuel generalizing state with
  | zero =>
      refine ⟨nofun, fun error herror => ?_⟩
      rw [← Option.mem_some_iff.mp herror]
      exact id
  | succ fuel ih =>
      unfold statementsFrom
      by_cases hend : state.current.kind = .endOfInput
      · rw [if_pos hend]
        exact ⟨nofun, nofun⟩
      · rw [if_neg hend]
        have hfirst := (rulesYield fuel).statement state hstate
        revert hfirst
        cases statement fuel state with
        | ok first after =>
            intro hfirst
            obtain ⟨hrest, herror⟩ := ih hfirst.2
            exact ⟨List.forall_mem_cons.mpr ⟨hfirst.1, hrest⟩, herror⟩
        | error error after =>
            intro hfault
            refine ⟨nofun, fun other hother => ?_⟩
            rw [← Option.mem_some_iff.mp hother]
            exact hfault

end Parser

/-- A text is parsed as what has a property, or refused for another fault than one of a numeral. -/
def IsSoundParse {α : Type} (holds : α → Prop) : Except ParseError α → Prop
  | .ok value => holds value
  | .error error => ¬ error.IsNumberFault

theorem ParserState.isSound_ofStream (source : String) :
    IsSoundParse ParserState.IsGenuine (ofStream (.ofSource source)) := by
  have htokens := Lexer.isGenuine_tokensFrom source.toList .first
  change ∀ token ∈ (TokenStream.ofSource source).tokens, token.IsGenuine at htokens
  unfold ofStream
  split
  · next current upcoming failure hstream =>
      rw [hstream] at htokens
      exact htokens
  · exact id
  · exact id

/-- The statements up to the first error are grammatical, and the error is none of a numeral. -/
theorem Program.isGrammatical_parsePartially (source : String) :
    (∀ statement ∈ (parsePartially source).1, statement.IsGrammatical) ∧
      ∀ error ∈ (parsePartially source).2, ¬ error.IsNumberFault := by
  have hstate := ParserState.isSound_ofStream source
  unfold parsePartially
  revert hstate
  cases ParserState.ofStream (.ofSource source) with
  | ok state => exact Parser.isGrammatical_statementsFrom _
  | error error =>
      intro hfault
      refine ⟨nofun, fun other hother => ?_⟩
      rw [← Option.mem_some_iff.mp hother]
      exact hfault

theorem Program.isSound_parse (source : String) :
    IsSoundParse (fun program => ∀ statement ∈ program, statement.IsGrammatical)
      (parse source) := by
  have hpartial := isGrammatical_parsePartially source
  unfold parse
  revert hpartial
  match parsePartially source with
  | (statements, none) => exact fun hpartial => hpartial.1
  | (statements, some error) => exact fun hpartial => hpartial.2 error rfl

theorem Stmt.isSound_parse (source : String) :
    IsSoundParse Stmt.IsGrammatical (parse source) := by
  have hstream := ParserState.isSound_ofStream source
  unfold parse
  revert hstream
  cases ParserState.ofStream (.ofSource source) with
  | error fault => exact id
  | ok state =>
      intro hstate
      have hresult := (Parser.rulesYield (Parser.fuelFor state)).statement state hstate
      simp only [bind, Except.bind]
      revert hresult
      cases Parser.statement (Parser.fuelFor state) state with
      | ok found after => exact fun hresult => hresult.1
      | error error after => exact id

theorem Expr.isSound_parse (source : String) :
    IsSoundParse (fun found => found.1.IsGrammatical) (parse source) := by
  have hstream := ParserState.isSound_ofStream source
  unfold parse
  revert hstream
  cases ParserState.ofStream (.ofSource source) with
  | error fault => exact id
  | ok state =>
      intro hstate
      have hresult := (Parser.rulesYield (Parser.fuelFor state)).expression state hstate
      simp only [bind, Except.bind]
      revert hresult
      cases Parser.expression (Parser.fuelFor state) state with
      | ok found after => exact fun hresult => hresult.1
      | error error after => exact id

end ScriptEngine
