import ScriptEngine.Proofs.Program.Nesting

/-!
# The height of parsed code

How far code is nested. Bodies, operands of unary operators, and the expressions that the parser
reads on their own within others are one level further down. Chains of binary operators and of
suffixes stay on their level, however long they are. Where `room` levels are left, the parser finds
expressions of a height below `room`, and statements of a height of at most `room + 1`. The level
more is for what is made without being read: the negated condition after `else unless`, and the body
of a statement under a modifier.
-/

namespace ScriptEngine

mutual

/-- The height of an expression, that of an atom being zero. -/
def Expr.height : Expr → Nat
  | .number _ _ => 0
  | .string _ _ => 0
  | .boolean _ _ => 0
  | .nil _ => 0
  | .array _ elements => Expr.heightWithin elements
  | .hash _ entries => Entry.heightWithin entries
  | .name _ _ => 0
  | .index _ object index => max object.height (index.height + 1)
  | .member _ object _ => object.height
  | .call _ callee arguments => max callee.height (Expr.heightWithin arguments)
  | .unary _ _ operand => operand.height + 1
  | .binary _ _ left right => max left.height right.height
  | .block _ body => body.height + 1
  | .function _ _ body => Stmt.heightAll body + 1
  | .step _ _ target amount => max target.height (Expr.heightOptional amount) + 1

/-- The height of expressions with the level that they are further down. -/
def Expr.heightWithin : List Expr → Nat
  | [] => 0
  | expression :: rest => max (expression.height + 1) (Expr.heightWithin rest)

def Expr.heightOptional : Option Expr → Nat
  | none => 0
  | some expression => expression.height

def Entry.heightWithin : List Entry → Nat
  | [] => 0
  | .mk key value :: rest => max (max key.height value.height + 1) (Entry.heightWithin rest)

/-- The height of a statement. Conditions and bodies are one level further down. -/
def Stmt.height : Stmt → Nat
  | .declare _ _ value => Expr.heightOptional value
  | .sub _ _ _ body => Stmt.heightAll body + 1
  | .conditional _ _ condition body alternatives fallback =>
    max (max condition.height (Stmt.heightAll body))
      (max (Branch.heightAll alternatives) (Stmt.heightFallback fallback)) + 1
  | .loop _ _ condition body => max condition.height (Stmt.heightAll body) + 1
  | .postLoop _ _ body condition => max condition.height (Stmt.heightAll body) + 1
  | .each _ _ iterable body => max iterable.height (Stmt.heightAll body + 1)
  | .choose _ cases fallback => max (Branch.heightAll cases) (Stmt.heightFallback fallback) + 1
  | .compare _ subject cases fallback =>
    max subject.height (max (Branch.heightAll cases) (Stmt.heightFallback fallback) + 1)
  | .call _ callee arguments => max callee.height (Expr.heightWithin arguments)
  | .returns _ value => Expr.heightOptional value
  | .assign _ target value => max target.height value.height
  | .breaks _ => 0
  | .next _ => 0
  | .step _ _ target amount => max target.height (Expr.heightOptional amount) + 1

def Stmt.heightAll : List Stmt → Nat
  | [] => 0
  | statement :: rest => max statement.height (Stmt.heightAll rest)

def Branch.heightAll : List Branch → Nat
  | [] => 0
  | .mk condition body :: rest =>
    max (max condition.height (Stmt.heightAll body)) (Branch.heightAll rest)

def Stmt.heightFallback : Option (List Stmt) → Nat
  | none => 0
  | some body => Stmt.heightAll body

end

theorem Expr.heightWithin_append (expressions others : List Expr) :
    heightWithin (expressions ++ others) = max (heightWithin expressions) (heightWithin others) := by
  induction expressions with
  | nil => exact (Nat.zero_max _).symm
  | cons expression rest ih => rw [List.cons_append, heightWithin, ih, heightWithin, Nat.max_assoc]

namespace Parser

/-- A reattached bracket is as high as it was as an argument, one level further down at most. -/
theorem height_reattach {callee argument target : Expr} (h : reattach callee argument = some target) :
    target.height ≤ max callee.height argument.height := by
  fun_induction reattach callee argument generalizing target with
  | case1 position index =>
      cases h
      simp only [Expr.height, Expr.heightWithin]
      omega
  | case2 position object index ih =>
      obtain ⟨inner, hinner, rfl⟩ := Option.map_eq_some_iff.mp h
      have := ih hinner
      simp only [Expr.height]
      omega
  | case3 position object property ih =>
      obtain ⟨inner, hinner, rfl⟩ := Option.map_eq_some_iff.mp h
      have := ih hinner
      simpa only [Expr.height] using this
  | case4 => cases h

theorem height_guardedBy (kind : TokenKind) (simple : Stmt) (condition : Expr) :
    (guardedBy kind simple condition).height = max condition.height simple.height + 1 := by
  unfold guardedBy
  split <;> simp [Stmt.height, Stmt.heightAll, Branch.heightAll, Stmt.heightFallback]

/-! ### What is found with so much room -/

/-- Where so many levels are left, what is found has a property, and as many are left after it. -/
def FindsWithin {α : Type} (room : Nat) (parser : Parser α) (holds : α → Prop) : Prop :=
  ∀ state, nestingLimit = state.depth + room → ∀ value after,
    parser state = .ok value after → holds value ∧ after.depth = state.depth

namespace FindsWithin

variable {α β : Type} {room : Nat} {parser : Parser α} {next : α → Parser β} {holds : α → Prop}
  {others : β → Prop}

theorem pure {value : α} (h : holds value) : FindsWithin room (pure value) holds := by
  intro state _ found after hrun
  cases hrun
  exact ⟨h, rfl⟩

theorem throw (error : ParseError) : FindsWithin room (throw error : Parser α) holds :=
  fun _ _ _ _ hrun => nomatch hrun

theorem bind (h : FindsWithin room parser holds)
    (hnext : ∀ value, holds value → FindsWithin room (next value) others) :
    FindsWithin room (parser >>= next) others := by
  intro state hroom value after hrun
  obtain ⟨first, middle, hfirst, hrun⟩ := exists_of_bind_ok hrun
  obtain ⟨hholds, hdepth⟩ := h state hroom first middle hfirst
  obtain ⟨hothers, hafter⟩ := hnext first hholds middle (hdepth ▸ hroom) value after hrun
  exact ⟨hothers, hafter.trans hdepth⟩

theorem imp {weaker : α → Prop} (h : FindsWithin room parser holds)
    (himp : ∀ value, holds value → weaker value) : FindsWithin room parser weaker :=
  fun state hroom value after hrun =>
    (h state hroom value after hrun).imp_left (himp value)

/-- A nested run needs a level, and has one less. -/
theorem nested (h : ∀ less, room = less + 1 → FindsWithin less parser holds) :
    FindsWithin room (nested parser) holds := by
  intro state hroom value after hrun
  unfold Parser.nested at hrun
  split at hrun
  · cases hrun
  · rename_i hdepth
    split at hrun
    · rename_i inner hinner
      cases hrun
      obtain ⟨less, rfl⟩ : ∃ less, room = less + 1 := ⟨room - 1, by omega⟩
      have hless : nestingLimit = state.depth + 1 + less := by omega
      obtain ⟨hholds, hafter⟩ := h less rfl _ hless value inner hinner
      exact ⟨hholds, congrArg (· - 1) hafter⟩
    · cases hrun

end FindsWithin

section

variable {α : Type} {room : Nat} {holds : α → Prop}

/-- A parser that leaves the depth alone. -/
theorem finds_of_parallel {parser : Parser α} {related : α → α → Prop}
    (h : Parallel id id True related parser parser) :
    FindsWithin room parser fun _ => True := by
  intro state _ value after hrun
  obtain ⟨events, hevents⟩ := h.traced state
  have hdepth := hevents.depth_eq
  rw [hrun] at hdepth
  exact ⟨trivial, hdepth⟩

theorem finds_current : FindsWithin room current fun _ => True :=
  finds_of_parallel Parallel.current

theorem finds_advance : FindsWithin room advance fun _ => True :=
  finds_of_parallel Parallel.advance

theorem finds_check (kind : TokenKind) : FindsWithin room (check kind) fun _ => True :=
  finds_of_parallel (.check kind)

theorem finds_accept (kind : TokenKind) : FindsWithin room (accept kind) fun _ => True :=
  finds_of_parallel (parallel_accept kind)

theorem finds_expect (kind : TokenKind) (expected : String) :
    FindsWithin room (expect kind expected) fun _ => True :=
  finds_of_parallel (parallel_expect kind expected)

theorem finds_isAttached : FindsWithin room isAttached fun _ => True := by
  intro state _ value after hrun
  cases hrun
  exact ⟨trivial, rfl⟩

theorem finds_expectName : FindsWithin room expectName fun _ => True :=
  finds_of_parallel parallel_expectName

theorem finds_expectMemberName : FindsWithin room expectMemberName fun _ => True :=
  finds_of_parallel parallel_expectMemberName

theorem finds_atStatementEnd : FindsWithin room atStatementEnd fun _ => True :=
  finds_of_parallel parallel_atStatementEnd

theorem finds_parameters (fuel : Nat) : FindsWithin room (parameters fuel) fun _ => True :=
  finds_of_parallel (rulesParallel id id True (Nat.le_refl fuel)).parameters

theorem finds_unexpected (expected : String) :
    FindsWithin room (unexpected expected : Parser α) holds :=
  finds_current.bind fun _ _ => .throw _

theorem finds_exhausted : FindsWithin room (exhausted : Parser α) holds :=
  finds_current.bind fun _ _ => .throw _

end

/-! ### Rules -/

/-- The branches and the body after them fit with their level into one more than there is. -/
def FitBranches (room : Nat) (found : List Branch × Option (List Stmt)) : Prop :=
  Branch.heightAll found.1 ≤ room ∧ Stmt.heightFallback found.2 ≤ room

theorem FitBranches.cons {room : Nat} {condition : Expr} {body : List Stmt}
    {found : List Branch × Option (List Stmt)} (hfound : FitBranches room found)
    (hcondition : condition.height ≤ room) (hbody : Stmt.heightAll body ≤ room) :
    FitBranches room (.mk condition body :: found.1, found.2) := by
  refine ⟨?_, hfound.2⟩
  rw [Branch.heightAll]
  exact Nat.max_le.mpr ⟨Nat.max_le.mpr ⟨hcondition, hbody⟩, hfound.1⟩

def FitStep (room : Nat) (found : Expr × Option Expr) : Prop :=
  found.1.height < room ∧ Expr.heightOptional found.2 < room

theorem FitStep.height_step {room : Nat} {found : Expr × Option Expr} (h : FitStep room found) :
    max found.1.height (Expr.heightOptional found.2) + 1 ≤ room :=
  Nat.max_lt.mpr h

/-- With so much fuel all rules find what fits into the room. -/
structure RulesFit (fuel : Nat) : Prop where
  statement (room : Nat) : FindsWithin room (statement fuel) (·.height ≤ room + 1)
  simpleStatement (room : Nat) : FindsWithin room (simpleStatement fuel) (·.height ≤ room)
  assignmentOrCall (room : Nat) : FindsWithin room (assignmentOrCall fuel) (·.height ≤ room)
  spacedArguments (room : Nat) (start : Position) {callee : Expr} {arguments : List Expr}
    (hcallee : callee.height ≤ room) (harguments : Expr.heightWithin arguments ≤ room) :
    FindsWithin room (spacedArguments fuel start callee arguments) (·.height ≤ room)
  assignment (room : Nat) (start : Position) {target : Expr} (htarget : target.height ≤ room) :
    FindsWithin room (assignment fuel start target) (·.height ≤ room)
  modified (room : Nat) {simple : Stmt} (hsimple : simple.height ≤ room) :
    FindsWithin room (modified fuel simple) (·.height ≤ room + 1)
  conditional (room : Nat) (sense : Sense) :
    FindsWithin room (conditional fuel sense) (·.height ≤ room + 1)
  elseChain (room : Nat) : FindsWithin room (elseChain fuel) (FitBranches room)
  loop (room : Nat) (sense : Sense) : FindsWithin room (loop fuel sense) (·.height ≤ room + 1)
  postLoop (room : Nat) : FindsWithin room (postLoop fuel) (·.height ≤ room + 1)
  each (room : Nat) : FindsWithin room (each fuel) (·.height ≤ room + 1)
  sub (room : Nat) : FindsWithin room (sub fuel) (·.height ≤ room + 1)
  declaration (room : Nat) : FindsWithin room (declaration fuel) (·.height ≤ room)
  choice (room : Nat) : FindsWithin room (choice fuel) (·.height ≤ room + 1)
  caseList (room : Nat) : FindsWithin room (caseList fuel) (FitBranches room)
  block (room : Nat) : FindsWithin room (block fuel) (Stmt.heightAll · ≤ room)
  blockTail (room : Nat) : FindsWithin room (blockTail fuel) (Stmt.heightAll · ≤ room + 1)
  expression (room : Nat) : FindsWithin room (expression fuel) (·.height < room)
  operand (room level : Nat) : FindsWithin room (operand fuel level) (·.height ≤ room)
  operatorChain (room level : Nat) {left : Expr} (h : left.height ≤ room) :
    FindsWithin room (operatorChain fuel level left) (·.height ≤ room)
  unary (room : Nat) : FindsWithin room (unary fuel) (·.height ≤ room)
  postfixChain (room : Nat) (touching : Bool) :
    FindsWithin room (postfixChain fuel touching) (·.height ≤ room)
  suffixes (room : Nat) (touching : Bool) {head : Expr} (h : head.height ≤ room) :
    FindsWithin room (suffixes fuel touching head) (·.height ≤ room)
  arguments (room : Nat) : FindsWithin room (arguments fuel) (Expr.heightWithin · ≤ room)
  primary (room : Nat) : FindsWithin room (primary fuel) (·.height ≤ room)
  stepTail (room : Nat) : FindsWithin room (stepTail fuel) (FitStep room)
  collection (room : Nat) : FindsWithin room (collection fuel) (·.height ≤ room)
  elements (room : Nat) : FindsWithin room (elements fuel) (Expr.heightWithin · ≤ room)
  entries (room : Nat) : FindsWithin room (entries fuel) (Entry.heightWithin · ≤ room)

namespace RulesFit

variable {fuel : Nat} (ih : RulesFit fuel) (room : Nat)
include ih

theorem expression_succ : FindsWithin room (Parser.expression (fuel + 1)) (·.height < room) := by
  refine .nested fun less hless => ?_
  rw [hless]
  exact (ih.operand less 0).imp fun _ => Nat.lt_succ_of_le

theorem operand_succ (level : Nat) :
    FindsWithin room (Parser.operand (fuel + 1) level) (·.height ≤ room) := by
  unfold Parser.operand
  split
  · exact (ih.operand room (level + 1)).bind fun left hleft => ih.operatorChain room level hleft
  · exact ih.unary room

theorem operatorChain_succ (level : Nat) {left : Expr} (h : left.height ≤ room) :
    FindsWithin room (Parser.operatorChain (fuel + 1) level left) (·.height ≤ room) := by
  refine finds_current.bind fun token _ => ?_
  split
  · exact .pure h
  · refine finds_advance.bind fun _ _ => (ih.operand room (level + 1)).bind fun right hright => ?_
    refine ih.operatorChain room level ?_
    rw [Expr.height]
    exact Nat.max_le.mpr ⟨h, hright⟩

theorem unary_succ : FindsWithin room (Parser.unary (fuel + 1)) (·.height ≤ room) := by
  refine finds_current.bind fun token _ => ?_
  split
  · exact ih.postfixChain room false
  · have hoperand : FindsWithin room (nested (Parser.unary fuel)) (·.height < room) := by
      refine .nested fun less hless => ?_
      rw [hless]
      exact (ih.unary less).imp fun _ => Nat.lt_succ_of_le
    exact finds_advance.bind fun _ _ => hoperand.bind fun operand h => .pure h

theorem postfixChain_succ (touching : Bool) :
    FindsWithin room (Parser.postfixChain (fuel + 1) touching) (·.height ≤ room) :=
  (ih.primary room).bind fun _ hhead => ih.suffixes room touching hhead

theorem suffixes_succ (touching : Bool) {head : Expr} (h : head.height ≤ room) :
    FindsWithin room (Parser.suffixes (fuel + 1) touching head) (·.height ≤ room) := by
  refine finds_isAttached.bind fun attached _ => finds_current.bind fun token _ => ?_
  split
  · refine finds_advance.bind fun _ _ => (ih.arguments room).bind fun arguments harguments => ?_
    refine ih.suffixes room touching ?_
    rw [Expr.height]
    exact Nat.max_le.mpr ⟨h, harguments⟩
  · refine finds_advance.bind fun _ _ => (ih.expression room).bind fun index hindex => ?_
    refine (finds_expect _ _).bind fun _ _ => ih.suffixes room touching ?_
    rw [Expr.height]
    exact Nat.max_le.mpr ⟨h, hindex⟩
  · refine finds_advance.bind fun _ _ => finds_expectMemberName.bind fun property _ => ?_
    exact ih.suffixes room touching h
  · exact .pure h

theorem arguments_succ :
    FindsWithin room (Parser.arguments (fuel + 1)) (Expr.heightWithin · ≤ room) := by
  refine (finds_accept _).bind fun closed _ => ?_
  split
  · exact .pure (Nat.zero_le _)
  · refine (ih.expression room).bind fun argument hargument => (finds_check _).bind fun last _ => ?_
    split
    · exact (ih.arguments room).bind fun rest hrest => .pure (Nat.max_le.mpr ⟨hargument, hrest⟩)
    · refine (finds_expect _ _).bind fun _ _ => (ih.arguments room).bind fun rest hrest => ?_
      exact .pure (Nat.max_le.mpr ⟨hargument, hrest⟩)

theorem primary_succ : FindsWithin room (Parser.primary (fuel + 1)) (·.height ≤ room) := by
  refine finds_current.bind fun token _ => ?_
  split
  · exact finds_advance.bind fun _ _ => .pure (Nat.zero_le _)
  · exact finds_advance.bind fun _ _ => .pure (Nat.zero_le _)
  · refine finds_advance.bind fun _ _ => ?_
    split
    · exact .pure (Nat.zero_le _)
    · exact .throw _
  · exact finds_advance.bind fun _ _ => .pure (Nat.zero_le _)
  · exact finds_advance.bind fun _ _ => .pure (Nat.zero_le _)
  · exact finds_advance.bind fun _ _ => .pure (Nat.zero_le _)
  · refine finds_advance.bind fun _ _ => (ih.expression room).bind fun inner hinner => ?_
    exact (finds_expect _ _).bind fun _ _ => .pure (Nat.le_of_lt hinner)
  · exact ih.collection room
  · refine finds_advance.bind fun _ _ => (ih.expression room).bind fun body hbody => ?_
    exact (finds_expect _ _).bind fun _ _ => .pure hbody
  · refine finds_advance.bind fun _ _ => (ih.stepTail room).bind fun found hfound => .pure ?_
    exact hfound.height_step
  · refine finds_advance.bind fun _ _ => (ih.stepTail room).bind fun found hfound => .pure ?_
    exact hfound.height_step
  · exact finds_unexpected _

theorem stepTail_succ : FindsWithin room (Parser.stepTail (fuel + 1)) (FitStep room) := by
  refine finds_current.bind fun token _ => (ih.expression room).bind fun target htarget => ?_
  split
  · refine (finds_accept _).bind fun hasAmount _ => ?_
    split
    · exact (ih.expression room).bind fun amount hamount => .pure ⟨htarget, hamount⟩
    · exact .pure ⟨htarget, Nat.zero_lt_of_lt htarget⟩
  · exact .throw _

theorem collection_succ : FindsWithin room (Parser.collection (fuel + 1)) (·.height ≤ room) := by
  refine finds_advance.bind fun opening _ => (finds_accept _).bind fun colon _ => ?_
  split
  · exact (finds_expect _ _).bind fun _ _ => .pure (Nat.zero_le _)
  · refine (finds_accept _).bind fun closed _ => ?_
    split
    · exact .pure (Nat.zero_le _)
    · refine (ih.expression room).bind fun head hhead => (finds_accept _).bind fun hash _ => ?_
      split
      · refine (ih.expression room).bind fun value hvalue => ?_
        refine (ih.entries room).bind fun entries hentries => (finds_expect _ _).bind fun _ _ => ?_
        exact .pure (Nat.max_le.mpr ⟨Nat.max_lt.mpr ⟨hhead, hvalue⟩, hentries⟩)
      · refine (ih.elements room).bind fun elements helements => (finds_expect _ _).bind fun _ _ => ?_
        exact .pure (Nat.max_le.mpr ⟨hhead, helements⟩)

theorem elements_succ :
    FindsWithin room (Parser.elements (fuel + 1)) (Expr.heightWithin · ≤ room) := by
  refine (finds_accept _).bind fun comma _ => ?_
  split
  · refine (ih.expression room).bind fun element helement => ?_
    exact (ih.elements room).bind fun rest hrest => .pure (Nat.max_le.mpr ⟨helement, hrest⟩)
  · exact .pure (Nat.zero_le _)

theorem entries_succ :
    FindsWithin room (Parser.entries (fuel + 1)) (Entry.heightWithin · ≤ room) := by
  refine (finds_accept _).bind fun comma _ => ?_
  split
  · refine (ih.expression room).bind fun key hkey => (finds_expect _ _).bind fun _ _ => ?_
    refine (ih.expression room).bind fun value hvalue => (ih.entries room).bind fun rest hrest => ?_
    exact .pure (Nat.max_le.mpr ⟨Nat.max_lt.mpr ⟨hkey, hvalue⟩, hrest⟩)
  · exact .pure (Nat.zero_le _)

/-! ### Rules of statements -/

theorem statement_succ : FindsWithin room (Parser.statement (fuel + 1)) (·.height ≤ room + 1) := by
  refine finds_current.bind fun token _ => ?_
  split
  · exact ih.conditional room .whenTrue
  · exact ih.conditional room .whenFalse
  · exact ih.loop room .whenTrue
  · exact ih.loop room .whenFalse
  · exact ih.each room
  · exact ih.sub room
  · exact ih.choice room
  · refine (ih.postLoop room).bind fun result hresult => ?_
    exact (finds_expect _ _).bind fun _ _ => .pure hresult
  · refine (ih.declaration room).bind fun result hresult => ?_
    exact (finds_expect _ _).bind fun _ _ => .pure (Nat.le_succ_of_le hresult)
  · refine (ih.simpleStatement room).bind fun simple hsimple => ?_
    refine (ih.modified room hsimple).bind fun result hresult => ?_
    exact (finds_expect _ _).bind fun _ _ => .pure hresult

theorem simpleStatement_succ :
    FindsWithin room (Parser.simpleStatement (fuel + 1)) (·.height ≤ room) := by
  refine finds_current.bind fun token _ => ?_
  split
  · refine finds_advance.bind fun _ _ => finds_atStatementEnd.bind fun ends _ => ?_
    split
    · exact .pure (Nat.zero_le _)
    · exact (ih.expression room).bind fun value hvalue => .pure (Nat.le_of_lt hvalue)
  · exact finds_advance.bind fun _ _ => .pure (Nat.zero_le _)
  · exact finds_advance.bind fun _ _ => .pure (Nat.zero_le _)
  · refine finds_advance.bind fun _ _ => (ih.stepTail room).bind fun found hfound => .pure ?_
    exact hfound.height_step
  · refine finds_advance.bind fun _ _ => (ih.stepTail room).bind fun found hfound => .pure ?_
    exact hfound.height_step
  · exact ih.assignmentOrCall room

theorem assignmentOrCall_succ :
    FindsWithin room (Parser.assignmentOrCall (fuel + 1)) (·.height ≤ room) := by
  refine finds_current.bind fun token _ => (ih.postfixChain room true).bind fun head hhead => ?_
  refine (finds_accept _).bind fun equals _ => ?_
  split
  · exact ih.assignment room _ hhead
  · split
    · rw [Expr.height] at hhead
      obtain ⟨hcallee, harguments⟩ := Nat.max_le.mp hhead
      exact ih.spacedArguments room _ hcallee harguments
    · exact ih.spacedArguments room _ hhead (Nat.zero_le _)

theorem spacedArguments_succ (start : Position) {callee : Expr} {arguments : List Expr}
    (hcallee : callee.height ≤ room) (harguments : Expr.heightWithin arguments ≤ room) :
    FindsWithin room (Parser.spacedArguments (fuel + 1) start callee arguments)
      (·.height ≤ room) := by
  refine finds_atStatementEnd.bind fun ends _ => ?_
  split
  · exact .pure (Nat.max_le.mpr ⟨hcallee, harguments⟩)
  · refine (ih.expression room).bind fun argument hargument => (finds_check _).bind fun equals _ => ?_
    split
    · next hreattach =>
        have htarget := height_reattach hreattach
        refine finds_advance.bind fun _ _ => ih.assignment room start ?_
        exact Nat.le_trans htarget (Nat.max_le.mpr ⟨hcallee, Nat.le_of_lt hargument⟩)
    · refine ih.spacedArguments room start hcallee ?_
      rw [Expr.heightWithin_append]
      exact Nat.max_le.mpr ⟨harguments, Nat.max_le.mpr ⟨hargument, Nat.zero_le _⟩⟩

theorem assignment_succ (start : Position) {target : Expr} (htarget : target.height ≤ room) :
    FindsWithin room (Parser.assignment (fuel + 1) start target) (·.height ≤ room) := by
  simp only [Parser.assignment]
  split
  · refine (ih.expression room).bind fun value hvalue => .pure ?_
    exact Nat.max_le.mpr ⟨htarget, Nat.le_of_lt hvalue⟩
  · exact .throw _

theorem modified_succ {simple : Stmt} (hsimple : simple.height ≤ room) :
    FindsWithin room (Parser.modified (fuel + 1) simple) (·.height ≤ room + 1) := by
  refine finds_current.bind fun token _ => ?_
  split
  · refine finds_advance.bind fun _ _ => (ih.expression room).bind fun condition hcondition => ?_
    refine .pure ?_
    rw [height_guardedBy]
    exact Nat.succ_le_succ (Nat.max_le.mpr ⟨Nat.le_of_lt hcondition, hsimple⟩)
  · exact .pure (Nat.le_succ_of_le hsimple)

theorem conditional_succ (sense : Sense) :
    FindsWithin room (Parser.conditional (fuel + 1) sense) (·.height ≤ room + 1) := by
  refine finds_advance.bind fun first _ => (ih.expression room).bind fun condition hcondition => ?_
  refine (ih.block room).bind fun body hbody => (ih.elseChain room).bind fun found hfound => ?_
  refine .pure (Nat.succ_le_succ (Nat.max_le.mpr ⟨?_, Nat.max_le.mpr hfound⟩))
  exact Nat.max_le.mpr ⟨Nat.le_of_lt hcondition, hbody⟩

/-- The negation after `else unless` takes the level that the condition leaves. -/
theorem elseChain_succ : FindsWithin room (Parser.elseChain (fuel + 1)) (FitBranches room) := by
  refine (finds_accept _).bind fun hasElse _ => ?_
  split
  · refine (finds_accept _).bind fun hasIf _ => ?_
    split
    · refine (ih.expression room).bind fun condition hcondition => ?_
      refine (ih.block room).bind fun body hbody => (ih.elseChain room).bind fun found hfound => ?_
      exact .pure (hfound.cons (Nat.le_of_lt hcondition) hbody)
    · refine (finds_accept _).bind fun hasUnless _ => ?_
      split
      · refine (ih.expression room).bind fun condition hcondition => ?_
        refine (ih.block room).bind fun body hbody => (ih.elseChain room).bind fun found hfound => ?_
        exact .pure (hfound.cons hcondition hbody)
      · exact (ih.block room).bind fun body hbody => .pure ⟨Nat.zero_le _, hbody⟩
  · exact .pure ⟨Nat.zero_le _, Nat.zero_le _⟩

theorem loop_succ (sense : Sense) :
    FindsWithin room (Parser.loop (fuel + 1) sense) (·.height ≤ room + 1) := by
  refine finds_advance.bind fun first _ => (ih.expression room).bind fun condition hcondition => ?_
  refine (ih.block room).bind fun body hbody => .pure (Nat.succ_le_succ ?_)
  exact Nat.max_le.mpr ⟨Nat.le_of_lt hcondition, hbody⟩

theorem postLoop_succ : FindsWithin room (Parser.postLoop (fuel + 1)) (·.height ≤ room + 1) := by
  refine finds_advance.bind fun first _ => (ih.block room).bind fun body hbody => ?_
  refine (finds_accept _).bind fun isWhile _ => ?_
  split
  · refine (ih.expression room).bind fun condition hcondition => .pure (Nat.succ_le_succ ?_)
    exact Nat.max_le.mpr ⟨Nat.le_of_lt hcondition, hbody⟩
  · refine (finds_expect _ _).bind fun _ _ => ?_
    refine (ih.expression room).bind fun condition hcondition => .pure (Nat.succ_le_succ ?_)
    exact Nat.max_le.mpr ⟨Nat.le_of_lt hcondition, hbody⟩

theorem each_succ : FindsWithin room (Parser.each (fuel + 1)) (·.height ≤ room + 1) := by
  refine finds_advance.bind fun first _ => (ih.expression room).bind fun head hhead => ?_
  refine (finds_accept _).bind fun isNamed _ => ?_
  split
  · split
    · refine (ih.expression room).bind fun iterable hiterable => ?_
      refine (ih.block room).bind fun body hbody => .pure (Nat.max_le.mpr ⟨?_, ?_⟩)
      · exact Nat.le_succ_of_le (Nat.le_of_lt hiterable)
      · exact Nat.succ_le_succ hbody
    · exact .throw _
  · refine (ih.block room).bind fun body hbody => .pure (Nat.max_le.mpr ⟨?_, ?_⟩)
    · exact Nat.le_succ_of_le (Nat.le_of_lt hhead)
    · exact Nat.succ_le_succ hbody

theorem sub_succ : FindsWithin room (Parser.sub (fuel + 1)) (·.height ≤ room + 1) := by
  refine finds_advance.bind fun first _ => finds_expectName.bind fun name _ => ?_
  refine (finds_accept _).bind fun hasParameters _ => ?_
  split
  · refine (finds_parameters fuel).bind fun parameters _ => ?_
    exact (ih.block room).bind fun body hbody => .pure (Nat.succ_le_succ hbody)
  · exact (ih.block room).bind fun body hbody => .pure (Nat.succ_le_succ hbody)

theorem declaration_succ : FindsWithin room (Parser.declaration (fuel + 1)) (·.height ≤ room) := by
  refine finds_advance.bind fun first _ => finds_expectName.bind fun name _ => ?_
  refine (finds_accept _).bind fun hasValue _ => ?_
  split
  · exact (ih.expression room).bind fun value hvalue => .pure (Nat.le_of_lt hvalue)
  · exact .pure (Nat.zero_le _)

theorem choice_succ : FindsWithin room (Parser.choice (fuel + 1)) (·.height ≤ room + 1) := by
  refine finds_advance.bind fun first _ => (finds_check _).bind fun bare _ => ?_
  split
  · refine (finds_expect _ _).bind fun _ _ => (ih.caseList room).bind fun found hfound => ?_
    exact .pure (Nat.succ_le_succ (Nat.max_le.mpr hfound))
  · refine (ih.expression room).bind fun subject hsubject => (finds_expect _ _).bind fun _ _ => ?_
    refine (ih.caseList room).bind fun found hfound => .pure (Nat.max_le.mpr ⟨?_, ?_⟩)
    · exact Nat.le_succ_of_le (Nat.le_of_lt hsubject)
    · exact Nat.succ_le_succ (Nat.max_le.mpr hfound)

theorem caseList_succ : FindsWithin room (Parser.caseList (fuel + 1)) (FitBranches room) := by
  refine finds_current.bind fun token _ => ?_
  split
  · exact finds_advance.bind fun _ _ => .pure ⟨Nat.zero_le _, Nat.zero_le _⟩
  · refine finds_advance.bind fun _ _ => (ih.expression room).bind fun condition hcondition => ?_
    refine (ih.block room).bind fun body hbody => (ih.caseList room).bind fun found hfound => ?_
    exact .pure (hfound.cons (Nat.le_of_lt hcondition) hbody)
  · refine finds_advance.bind fun _ _ => (ih.block room).bind fun body hbody => ?_
    exact (finds_expect _ _).bind fun _ _ => .pure ⟨Nat.zero_le _, hbody⟩
  · exact finds_unexpected _

theorem block_succ : FindsWithin room (Parser.block (fuel + 1)) (Stmt.heightAll · ≤ room) := by
  refine (finds_expect _ _).bind fun _ _ => .nested fun less hless => ?_
  rw [hless]
  exact ih.blockTail less

theorem blockTail_succ :
    FindsWithin room (Parser.blockTail (fuel + 1)) (Stmt.heightAll · ≤ room + 1) := by
  refine finds_current.bind fun token _ => ?_
  split
  · exact finds_advance.bind fun _ _ => .pure (Nat.zero_le _)
  · exact finds_unexpected _
  · refine (ih.statement room).bind fun first hfirst => (ih.blockTail room).bind fun rest hrest => ?_
    exact .pure (Nat.max_le.mpr ⟨hfirst, hrest⟩)

end RulesFit

/-- **What the rules find fits into the room.** -/
theorem rulesFit (fuel : Nat) : RulesFit fuel := by
  induction fuel with
  | zero =>
      constructor
      all_goals intros; exact finds_exhausted
  | succ fuel ih =>
      exact
        { statement := ih.statement_succ
          simpleStatement := ih.simpleStatement_succ
          assignmentOrCall := ih.assignmentOrCall_succ
          spacedArguments := ih.spacedArguments_succ
          assignment := ih.assignment_succ
          modified := ih.modified_succ
          conditional := ih.conditional_succ
          elseChain := ih.elseChain_succ
          loop := ih.loop_succ
          postLoop := ih.postLoop_succ
          each := ih.each_succ
          sub := ih.sub_succ
          declaration := ih.declaration_succ
          choice := ih.choice_succ
          caseList := ih.caseList_succ
          block := ih.block_succ
          blockTail := ih.blockTail_succ
          expression := ih.expression_succ
          operand := ih.operand_succ
          operatorChain := ih.operatorChain_succ
          unary := ih.unary_succ
          postfixChain := ih.postfixChain_succ
          suffixes := ih.suffixes_succ
          arguments := ih.arguments_succ
          primary := ih.primary_succ
          stepTail := ih.stepTail_succ
          collection := ih.collection_succ
          elements := ih.elements_succ
          entries := ih.entries_succ }

/-! ### Runs -/

/-- A run ends on the level where it started, with a value or with any error. On the way it stays
within the limit and leaves only levels that it has entered. What it finds has a property. -/
def KeepsNesting {α : Type} (parser : Parser α) (state : ParserState) (holds : α → Prop) : Prop :=
  (finalState (parser state)).depth = state.depth ∧
    (∃ events, Traced parser state events (parser state) ∧ ∀ event ∈ events, event.IsAllowed) ∧
    ∀ value after, parser state = .ok value after → holds value

theorem keepsNesting_of_parallel {α : Type} {related : α → α → Prop} {holds : α → Prop}
    {parser : Parser α} {state : ParserState} {room : Nat}
    (hparallel : Parallel id id True related parser parser)
    (hfinds : FindsWithin room parser holds) (hroom : nestingLimit = state.depth + room) :
    KeepsNesting parser state holds := by
  obtain ⟨events, hevents⟩ := hparallel.traced state
  have hdepth : state.depth ≤ nestingLimit := hroom ▸ Nat.le_add_right _ _
  refine ⟨hevents.depth_eq, ⟨events, hevents, hevents.isAllowed hdepth⟩, fun value after hrun => ?_⟩
  exact (hfinds state hroom value after hrun).1

/-- **The nesting is balanced and bounds the tree.** From any state within the limit, on any tokens,
the rules of statements, blocks, expressions and unary operators end on their level, also with an
error, and find what is no higher than the levels that are left, a statement by one level more. -/
theorem rules_keep_nesting (fuel : Nat) {state : ParserState} (hdepth : state.depth ≤ nestingLimit) :
    KeepsNesting (statement fuel) state (·.height ≤ nestingLimit + 1 - state.depth) ∧
      KeepsNesting (block fuel) state (Stmt.heightAll · ≤ nestingLimit - state.depth) ∧
      KeepsNesting (expression fuel) state (·.height < nestingLimit - state.depth) ∧
      KeepsNesting (unary fuel) state (·.height ≤ nestingLimit - state.depth) := by
  have hrules := rulesParallel id id True (Nat.le_refl fuel)
  have hfit := rulesFit fuel
  have hroom : nestingLimit = state.depth + (nestingLimit - state.depth) :=
    (Nat.add_sub_cancel' hdepth).symm
  rw [Nat.sub_add_comm hdepth]
  refine ⟨?_, ?_, ?_, ?_⟩
  · exact keepsNesting_of_parallel (hrules.statement trivial) (hfit.statement _) hroom
  · exact keepsNesting_of_parallel (hrules.block trivial) (hfit.block _) hroom
  · exact keepsNesting_of_parallel hrules.expression (hfit.expression _) hroom
  · exact keepsNesting_of_parallel hrules.unary (hfit.unary _) hroom

/-- A negated name where one level is left. -/
def deepState : ParserState :=
  ⟨⟨.minus, "-", ⟨1, 1⟩, ⟨1, 2⟩⟩,
    [⟨.identifier, "x", ⟨1, 2⟩, ⟨1, 3⟩⟩, ⟨.endOfInput, "", ⟨1, 3⟩, ⟨1, 3⟩⟩], none, ⟨1, 1⟩, 127⟩

/-- The operator takes the last level. For the expression around it one more would be needed. -/
theorem rules_keep_nesting_deep :
    deepState.depth ≤ nestingLimit ∧
      (∃ tree after, unary 40 deepState = .ok tree after ∧ tree.height = 1 ∧
        tree.height ≤ nestingLimit - deepState.depth ∧ after.depth = 127) ∧
      ∃ after, expression 40 deepState = .error (.nestingTooDeep 128 ⟨1, 2⟩) after ∧
        after.depth = 127 := by
  have hdepth : deepState.depth ≤ nestingLimit := by decide
  obtain ⟨_, _, hexpression, hunary⟩ := rules_keep_nesting 40 hdepth
  refine ⟨hdepth, ?_, ?_⟩
  · refine ⟨_, _, rfl, rfl, hunary.2.2 _ _ rfl, hunary.1⟩
  · exact ⟨_, rfl, hexpression.1⟩

/-! ### Programs -/

theorem height_statementsFrom (fuel : Nat) {state : ParserState} (hstate : state.depth = 0) :
    Stmt.heightAll (statementsFrom fuel state).1 ≤ nestingLimit + 1 := by
  induction fuel generalizing state with
  | zero => exact Nat.zero_le _
  | succ fuel ih =>
      unfold statementsFrom
      split
      · exact Nat.zero_le _
      · have hroom : nestingLimit = state.depth + nestingLimit := by rw [hstate, Nat.zero_add]
        have hfirst := (rulesFit fuel).statement nestingLimit state hroom
        split
        · next first after hrun =>
            obtain ⟨hheight, hafter⟩ := hfirst first after hrun
            exact Nat.max_le.mpr ⟨hheight, ih (hafter.trans hstate)⟩
        · exact Nat.zero_le _

end Parser

/-- No program is higher than the limit, but for the level that a statement may have more. -/
theorem Program.height_parsePartially (source : String) :
    Stmt.heightAll (parsePartially source).1 ≤ Parser.nestingLimit + 1 := by
  unfold parsePartially
  cases hstream : ParserState.ofStream (.ofSource source) with
  | error error => exact Nat.zero_le _
  | ok state =>
      refine Parser.height_statementsFrom _ ?_
      unfold ParserState.ofStream at hstream
      split at hstream <;> cases hstream
      rfl

end ScriptEngine
