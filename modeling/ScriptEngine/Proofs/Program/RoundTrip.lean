import ScriptEngine.Proofs.Program.Statements

/-!
# Writing and reading programs

The text of a program that can be written is scanned into the lexemes that it was made of, and these
are read as the program. The only thing that may be in the way is the limit on nesting.
-/

namespace ScriptEngine

open Lexeme NumberSpelling

/-! ### Scanning -/

/-- All lexemes are scanned, wherever they stand. -/
def AllScanned (lexemes : List Lexeme) : Prop :=
  ∀ lexeme ∈ lexemes, lexeme.IsScanned

theorem allScanned_nil : AllScanned [] :=
  fun _ hmem => absurd hmem List.not_mem_nil

theorem AllScanned.cons {lexeme : Lexeme} {lexemes : List Lexeme} (hlexeme : lexeme.IsScanned)
    (h : AllScanned lexemes) : AllScanned (lexeme :: lexemes) :=
  List.forall_mem_cons.mpr ⟨hlexeme, h⟩

theorem AllScanned.append {lexemes others : List Lexeme} (h : AllScanned lexemes)
    (hothers : AllScanned others) : AllScanned (lexemes ++ others) :=
  List.forall_mem_append.mpr ⟨h, hothers⟩

theorem isScanned_fixed {kind : TokenKind} (h : kind.isKeyword || kind.isSymbol) :
    (fixed kind).IsScanned := by
  rcases (Bool.or_eq_true _ _).mp h with hkeyword | hsymbol
  · exact isScanned_keyword hkeyword
  · exact isScanned_symbol hsymbol

theorem AllScanned.fixed {kind : TokenKind} {lexemes : List Lexeme} (h : AllScanned lexemes)
    (hkind : (kind.isKeyword || kind.isSymbol) = true) : AllScanned (Lexeme.fixed kind :: lexemes) :=
  h.cons (isScanned_fixed hkind)

theorem AllScanned.closed {kind : TokenKind} {lexemes : List Lexeme} (h : AllScanned lexemes)
    (hkind : (kind.isKeyword || kind.isSymbol) = true) :
    AllScanned (lexemes ++ [Lexeme.fixed kind]) :=
  h.append (allScanned_nil.fixed hkind)

theorem AllScanned.braced {lexemes : List Lexeme} (h : AllScanned lexemes) :
    AllScanned (NumberSpelling.braced lexemes) :=
  (h.closed rfl).fixed rfl

theorem allScanned_placed {alone last : Bool} {plain : Bool → List Lexeme}
    (h : ∀ last, AllScanned (plain last)) : AllScanned (placed alone last plain) := by
  unfold placed
  split
  · exact h last
  · exact ((h true).closed rfl).fixed rfl

variable {spelling : NumberSpelling}

mutual

theorem allScanned_plain (expression : Expr) (h : expression.IsWritable spelling) (last : Bool) :
    AllScanned (spelling.plain expression last) :=
  match expression, h with
  | .number _ _, h => allScanned_nil.cons (isScanned_numeral h.1)
  | .string _ _, h => allScanned_nil.cons (isScanned_string (h.elim fun _ hliteral =>
      hliteral.isPayload))
  | .boolean _ true, _ => allScanned_nil.fixed rfl
  | .boolean _ false, _ => allScanned_nil.fixed rfl
  | .nil _, _ => allScanned_nil.fixed rfl
  | .array _ elements, h => ((allScanned_items elements h).closed rfl).fixed rfl
  | .hash _ entries, h => ((allScanned_pairs entries h).closed rfl).fixed rfl
  | .name _ _, h => allScanned_nil.cons (isScanned_word h.1)
  | .index _ object index, h =>
    (allScanned_placed (allScanned_plain object h.1)).append
      (((allScanned_plain index h.2 true).closed rfl).cons (isScanned_touching (.inr rfl)))
  | .member _ object _, h =>
    (allScanned_placed (allScanned_plain object h.1)).append
      ((allScanned_nil.cons (isScanned_word h.2)).fixed rfl)
  | .call _ callee arguments, h =>
    (allScanned_placed (allScanned_plain callee h.1)).append
      (((allScanned_items arguments h.2).closed rfl).cons (isScanned_touching (.inl rfl)))
  | .unary _ .not operand, h => (allScanned_placed (allScanned_plain operand h)).fixed rfl
  | .unary _ .negate operand, h => (allScanned_placed (allScanned_plain operand h)).fixed rfl
  | .binary _ operator left right, h =>
    (allScanned_placed (allScanned_plain left h.1)).append
      ((allScanned_placed (allScanned_plain right h.2)).fixed (by cases operator <;> rfl))
  | .block _ body, h => (allScanned_plain body h true).braced
  | .step _ direction target amount, h =>
    ((allScanned_plain target h.2.1 false).append (allScanned_amount amount h.2.2)).fixed
      (by cases direction <;> rfl)

theorem allScanned_itemTail (expressions : List Expr) (h : Expr.AllWritable spelling expressions) :
    AllScanned (spelling.itemTail expressions) :=
  match expressions, h with
  | [], _ => allScanned_nil
  | first :: rest, h =>
    ((allScanned_plain first h.1 true).append (allScanned_itemTail rest h.2)).fixed rfl

theorem allScanned_items (expressions : List Expr) (h : Expr.AllWritable spelling expressions) :
    AllScanned (spelling.items expressions) :=
  match expressions, h with
  | [], _ => allScanned_nil
  | first :: rest, h => (allScanned_plain first h.1 true).append (allScanned_itemTail rest h.2)

theorem allScanned_pairTail (entries : List Entry) (h : Entry.AllWritable spelling entries) :
    AllScanned (spelling.pairTail entries) :=
  match entries, h with
  | [], _ => allScanned_nil
  | .mk key value :: rest, h =>
    ((allScanned_plain key h.1 true).append (((allScanned_plain value h.2.1 true).append
      (allScanned_pairTail rest h.2.2)).fixed rfl)).fixed rfl

theorem allScanned_pairs (entries : List Entry) (h : Entry.AllWritable spelling entries) :
    AllScanned (spelling.pairs entries) :=
  match entries, h with
  | [], _ => allScanned_nil.fixed rfl
  | .mk key value :: rest, h =>
    (allScanned_plain key h.1 true).append (((allScanned_plain value h.2.1 true).append
      (allScanned_pairTail rest h.2.2)).fixed rfl)

theorem allScanned_amount (amount : Option Expr) (h : Expr.OptionWritable spelling amount) :
    AllScanned (spelling.amountOf amount) :=
  match amount, h with
  | none, _ => allScanned_nil
  | some value, h => (allScanned_plain value h true).fixed rfl

end

theorem allScanned_parameters {names : List String} (h : ∀ name ∈ names, IsName name) :
    AllScanned (parameters names) := by
  have htail (others : List String) (hothers : ∀ name ∈ others, IsName name) :
      AllScanned (parameterTail others) := by
    induction others with
    | nil => exact allScanned_nil.fixed rfl
    | cons name others ih =>
        obtain ⟨hname, hrest⟩ := List.forall_mem_cons.mp hothers
        exact ((ih hrest).cons (isScanned_word hname.1)).fixed rfl
  cases names with
  | nil => exact allScanned_nil.fixed rfl
  | cons name others =>
      obtain ⟨hname, hothers⟩ := List.forall_mem_cons.mp h
      exact (htail others hothers).cons (isScanned_word hname.1)

mutual

theorem allScanned_statement (statement : Stmt) (h : statement.IsWritable spelling) :
    AllScanned (spelling.statement statement) :=
  match statement, h with
  | .declare _ _ none, h =>
    ((allScanned_nil.fixed rfl).cons (isScanned_word h.1.1)).fixed rfl
  | .declare _ _ (some value), h =>
    ((((allScanned_plain value h.2 true).closed rfl).fixed rfl).cons
      (isScanned_word h.1.1)).fixed rfl
  | .sub _ _ _ body, h =>
    ((((allScanned_parameters h.2.1).append (allScanned_statements body h.2.2).braced).fixed
      rfl).cons (isScanned_word h.1.1)).fixed rfl
  | .conditional _ sense condition body alternatives fallback, h =>
    ((allScanned_plain condition h.1 true).append ((allScanned_statements body h.2.1).braced.append
      ((allScanned_elseBranches alternatives h.2.2.1).append
        (allScanned_elseBody fallback h.2.2.2)))).fixed (by cases sense <;> rfl)
  | .loop _ sense condition body, h =>
    ((allScanned_plain condition h.1 true).append
      (allScanned_statements body h.2).braced).fixed (by cases sense <;> rfl)
  | .postLoop _ sense body condition, h =>
    ((allScanned_statements body h.1).braced.append
      (((allScanned_plain condition h.2 true).closed rfl).fixed (by cases sense <;> rfl))).fixed rfl
  | .each _ _ iterable body, h =>
    ((((allScanned_plain iterable h.2.1 true).append
      (allScanned_statements body h.2.2).braced).fixed rfl).cons (isScanned_word h.1.1)).fixed rfl
  | .choose _ cases fallback, h =>
    (((allScanned_caseBranches cases h.1).append
      ((allScanned_elseBody fallback h.2).closed rfl)).fixed rfl).fixed rfl
  | .compare _ subject cases fallback, h =>
    ((allScanned_placed (allScanned_plain subject h.1)).append
      (((allScanned_caseBranches cases h.2.1).append
        ((allScanned_elseBody fallback h.2.2).closed rfl)).fixed rfl)).fixed rfl
  | .call _ callee arguments, h =>
    (allScanned_placed (allScanned_plain callee h.1)).append
      (((allScanned_items arguments h.2).append ((allScanned_nil.fixed rfl).fixed rfl)).cons
        (isScanned_touching (.inl rfl)))
  | .returns _ none, _ => (allScanned_nil.fixed rfl).fixed rfl
  | .returns _ (some value), h => ((allScanned_plain value h true).closed rfl).fixed rfl
  | .assign _ target value, h =>
    (allScanned_plain target h.2.1 false).append
      (((allScanned_plain value h.2.2 true).closed rfl).fixed rfl)
  | .breaks _, _ => (allScanned_nil.fixed rfl).fixed rfl
  | .next _, _ => (allScanned_nil.fixed rfl).fixed rfl
  | .step _ direction target amount, h =>
    ((allScanned_plain target h.2.1 false).append
      ((allScanned_amount amount h.2.2).closed rfl)).fixed (by cases direction <;> rfl)

theorem allScanned_statements (body : List Stmt) (h : Stmt.AllWritable spelling body) :
    AllScanned (spelling.statements body) :=
  match body, h with
  | [], _ => allScanned_nil
  | first :: rest, h => (allScanned_statement first h.1).append (allScanned_statements rest h.2)

theorem allScanned_elseBranches (branches : List Branch)
    (h : Branch.AllWritable spelling branches) : AllScanned (spelling.elseBranches branches) :=
  match branches, h with
  | [], _ => allScanned_nil
  | .mk condition body :: rest, h =>
    (((allScanned_plain condition h.1 true).append ((allScanned_statements body h.2.1).braced.append
      (allScanned_elseBranches rest h.2.2))).fixed rfl).fixed rfl

theorem allScanned_elseBody (fallback : Option (List Stmt))
    (h : Stmt.FallbackWritable spelling fallback) : AllScanned (spelling.elseBody fallback) :=
  match fallback, h with
  | none, _ => allScanned_nil
  | some body, h => (allScanned_statements body h).braced.fixed rfl

theorem allScanned_caseBranches (branches : List Branch)
    (h : Branch.AllWritable spelling branches) : AllScanned (spelling.caseBranches branches) :=
  match branches, h with
  | [], _ => allScanned_nil
  | .mk condition body :: rest, h =>
    ((allScanned_plain condition h.1 true).append ((allScanned_statements body h.2.1).braced.append
      (allScanned_caseBranches rest h.2.2))).fixed rfl

end

/-! ### Programs -/

/-- The text of a program. -/
def Program.write (spelling : NumberSpelling) (program : Program) : String :=
  String.ofList (layout (spelling.statements program))

/-- How many levels the parser goes down for a program. -/
def Program.nesting (program : Program) : Nat :=
  Stmt.nestingAll program

def Program.IsWritable (spelling : NumberSpelling) (program : Program) : Prop :=
  Stmt.AllWritable spelling program

namespace Parser

theorem headKind_statements_ne_end {first : Stmt} {others : List Stmt}
    (h : first.IsWritable spelling) :
    headKind (spelling.statements (first :: others)) ≠ .endOfInput :=
  opensStatement_ne (opensStatement_headKind first h (spelling.statements others)) rfl

section

variable {fuel : Nat} {state after : ParserState} {first : Stmt} {error : ParseError}

theorem statementsFrom_of_ok (hkind : state.current.kind ≠ .endOfInput)
    (h : statement fuel state = .ok first after) :
    statementsFrom (fuel + 1) state =
      (first :: (statementsFrom fuel after).1, (statementsFrom fuel after).2) := by
  rw [statementsFrom, if_neg hkind, h]

theorem statementsFrom_of_error (hkind : state.current.kind ≠ .endOfInput)
    (h : statement fuel state = .error error after) :
    statementsFrom (fuel + 1) state = ([], some error) := by
  rw [statementsFrom, if_neg hkind, h]

end

/-- One statement after the other, up to the end of the tokens or to one that goes too deep. -/
theorem statementsFrom_of_faces {program : Program} (h : ReadsBody spelling program)
    {state : ParserState} {fuel : Nat} (hstate : state.Faces (spelling.statements program))
    (hdepth : state.depth = 0) (hfuel : 16 * (spelling.statements program).length + 9 ≤ fuel) :
    (program.nesting ≤ nestingLimit → ∃ read, statementsFrom fuel state = (read, none) ∧
      Program.bare read = program.bare) ∧
    (nestingLimit < program.nesting → ∃ read position,
      statementsFrom fuel state = (read, some (.nestingTooDeep nestingLimit position))) := by
  obtain ⟨fuel, rfl⟩ : ∃ fewer, fuel = fewer + 1 := ⟨fuel - 1, by omega⟩
  induction program generalizing state fuel with
  | nil =>
      have hend : state.current.kind = .endOfInput := kind_of_faces hstate
      refine ⟨fun _ => ⟨[], ?_, rfl⟩, fun hlevels => absurd hlevels (Nat.not_lt_zero _)⟩
      unfold statementsFrom
      rw [if_pos hend]
  | cons first others ih =>
      have hfirst := h.writable first List.mem_cons_self
      have hlength := length_statement_pos hfirst
      have hkind : state.current.kind ≠ .endOfInput :=
        fun heq => headKind_statements_ne_end hfirst ((kind_of_faces hstate).symm.trans heq)
      have helse : headKind (spelling.statements others) ≠ .kwElse := by
        have hrest := @headKind_statements_ne_else spelling [] others h.tail TokenKind.noConfusion
        rwa [List.append_nil] at hrest
      unfold NumberSpelling.statements at hstate hfuel
      obtain ⟨hfits, hdeep⟩ := h.reads first List.mem_cons_self fuel (spelling.statements others)
        helse (by omega) state hstate
      rw [List.length_append] at hfuel
      rw [hdepth, Nat.zero_add] at hfits hdeep
      have hnesting : Program.nesting (first :: others) = max first.nesting (Program.nesting others) :=
        rfl
      rw [hnesting]
      by_cases hlevels : first.nesting ≤ nestingLimit
      · obtain ⟨statement, after, hread, hbare, hafter, hafterDepth⟩ := hfits hlevels
        obtain ⟨fuel, rfl⟩ : ∃ fewer, fuel = fewer + 1 := ⟨fuel - 1, by omega⟩
        obtain ⟨hok, herror⟩ := ih h.tail hafter hafterDepth fuel (by omega)
        rw [statementsFrom_of_ok hkind hread]
        refine ⟨fun hall => ?_, fun hall => ?_⟩
        · obtain ⟨read, hrest, hsame⟩ := hok (Nat.max_le.mp hall).2
          refine ⟨statement :: read, ?_, congrArg₂ List.cons hbare hsame⟩
          rw [hrest]
        · have hothers : nestingLimit < Program.nesting others := Nat.lt_of_not_le fun hle =>
            absurd hall (Nat.not_lt.mpr (Nat.max_le.mpr ⟨hlevels, hle⟩))
          obtain ⟨read, position, hrest⟩ := herror hothers
          refine ⟨statement :: read, position, ?_⟩
          rw [hrest]
      · obtain ⟨position, after, hread⟩ := hdeep (Nat.lt_of_not_le hlevels)
        rw [statementsFrom_of_error hkind hread]
        exact ⟨fun hall => absurd (Nat.max_le.mp hall).1 hlevels, fun _ => ⟨[], position, rfl⟩⟩

end Parser

theorem Spells.length_eq {stop : Position} {tokens : List Token} {lexemes : List Lexeme}
    (h : Spells stop tokens lexemes) : tokens.length = lexemes.length + 1 := by
  induction h with
  | done => rfl
  | next _ _ _ _ ih => exact congrArg (· + 1) ih

/-- **Round trip.** The text of a program is parsed to the program, up to its places, if it stays
within the limit on nesting. If it does not, the parser says so. -/
theorem parse_write (spelling : NumberSpelling) (program : Program)
    (h : program.IsWritable spelling) :
    (program.nesting ≤ Parser.nestingLimit →
      ∃ read, Program.parse (program.write spelling) = .ok read ∧ read.bare = program.bare) ∧
    (Parser.nestingLimit < program.nesting →
      ∃ position, Program.parse (program.write spelling) =
        .error (.nestingTooDeep Parser.nestingLimit position)) := by
  obtain ⟨hspells, hfailure⟩ := spells_tokensFrom (allScanned_statements program h) .first
  have hsource : TokenStream.ofSource (program.write spelling) =
      Lexer.tokensFrom (layout (spelling.statements program)) .first := by
    unfold TokenStream.ofSource Program.write
    rw [String.toList_ofList]
  obtain ⟨current, upcoming, htokens⟩ := hspells.exists_cons
  rw [htokens] at hspells
  have hlength : upcoming.length = (spelling.statements program).length :=
    Nat.succ_injective hspells.length_eq
  have hparse : Program.parsePartially (program.write spelling) =
      Parser.statementsFrom (16 * (upcoming.length + 2)) ⟨current, upcoming, none, .first, 0⟩ := by
    unfold Program.parsePartially ParserState.ofStream
    rw [hsource, htokens, hfailure]
    rfl
  obtain ⟨hfits, hdeep⟩ := @Parser.statementsFrom_of_faces spelling program
    (Parser.readsBody program h) ⟨current, upcoming, none, .first, 0⟩ (16 * (upcoming.length + 2))
    ⟨hspells, rfl, Nat.zero_le _⟩ rfl (by omega)
  unfold Program.parse
  rw [hparse]
  refine ⟨fun hlevels => ?_, fun hlevels => ?_⟩
  · obtain ⟨read, hread, hbare⟩ := hfits hlevels
    refine ⟨read, ?_, hbare⟩
    rw [hread]
  · obtain ⟨read, position, hread⟩ := hdeep hlevels
    refine ⟨position, ?_⟩
    rw [hread]

/-- The product of a sum in parentheses and a step, and a choice whose subject is a block. -/
def Program.counting : Program :=
  let five : Expr := .number .first ((readNumber? ['5']).getD 0)
  [.declare .first "x" (some (.binary .first .multiply
      (.binary .first .add (.name .first "a") five)
      (.step .first .up (.member .first (.name .first "b") "in") none))),
    .compare .first (.block .first (.name .first "it"))
      [.mk five [.call .first (.call .first (.name .first "f") [.name .first "x"])
        [.index .first (.name .first "a") five]]]
      (some [.step .first .down (.name .first "x") (some five)])]

theorem isWritable_counting : Program.counting.IsWritable fun _ _ => ['5'] := by
  have hfive : SpellsNumber ['5'] ((readNumber? ['5']).getD 0) :=
    ⟨⟨_, _, rfl, rfl, rfl⟩, rfl⟩
  have hword {text : String} {head : Char} {tail : List Char} (htext : text.toList = head :: tail)
      (hhead : Lexer.isNameStart head) (htail : tail.all Lexer.isNamePart) :
      Lexer.IsWord text.toList :=
    ⟨head, tail, htext, hhead, List.all_eq_true.mp htail⟩
  have ha : IsName "a" := ⟨hword rfl rfl rfl, rfl⟩
  have hb : IsName "b" := ⟨hword rfl rfl rfl, rfl⟩
  have hf : IsName "f" := ⟨hword rfl rfl rfl, rfl⟩
  have hx : IsName "x" := ⟨hword rfl rfl rfl, rfl⟩
  have hit : IsName "it" := ⟨hword rfl rfl rfl, rfl⟩
  have hin : Lexer.IsWord "in".toList := hword rfl rfl rfl
  exact ⟨⟨hx, ⟨ha, hfive⟩, rfl, ⟨hb, hin⟩, trivial⟩,
    ⟨hit, ⟨hfive, ⟨⟨⟨hf, hx, trivial⟩, ⟨ha, hfive⟩, trivial⟩, trivial⟩, trivial⟩,
      ⟨rfl, hx, hfive⟩, trivial⟩, trivial⟩

theorem parse_write_counting :
    ∃ read, Program.parse (Program.counting.write fun _ _ => ['5']) = .ok read ∧
      read.bare = Program.counting.bare :=
  (parse_write _ _ isWritable_counting).1 (by decide)

end ScriptEngine
