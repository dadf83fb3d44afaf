import ScriptEngine.Proofs.Program.Expressions

/-!
# Reading statements

Every statement that can be written is read back, if no `else` comes after it that it would take for
one of its own. Statements that begin with a keyword go by that keyword. The others are read as an
operand of the tightest level, which an equals sign makes the target of an assignment.
-/

namespace ScriptEngine

open Lexeme NumberSpelling

/-! ### First tokens -/

/-- The tokens that open a statement with a semicolon at its end and modifiers in front of it. -/
def opensSimple (kind : TokenKind) : Bool :=
  opensChain kind || kind matches .kwReturn | .kwBreak | .kwNext | .kwInc | .kwDec

def opensStatement (kind : TokenKind) : Bool :=
  opensSimple kind || kind matches .kwMy | .kwSub | .kwIf | .kwUnless | .kwWhile | .kwUntil
    | .kwDo | .kwFor | .kwWhen

variable {spelling : NumberSpelling}

theorem opensSimple_of_opensChain {kind : TokenKind} (h : opensChain kind) : opensSimple kind := by
  unfold opensSimple
  rw [h]
  rfl

theorem opensStatement_of_opensSimple {kind : TokenKind} (h : opensSimple kind) :
    opensStatement kind := by
  unfold opensStatement
  rw [h]
  rfl

/-- The target of an assignment or a step is an operand of the tightest level, and no step. -/
theorem Expr.standsAlone_of_isAssignable {target : Expr} (h : target.isAssignable) {level : Nat}
    (hlevel : level ≤ 7) : target.standsAlone level false := by
  refine standsAlone_iff.mpr ?_
  cases target <;> first | exact ⟨hlevel, rfl⟩ | exact absurd h Bool.false_ne_true

theorem opensChain_target {target : Expr} (h : target.IsWritable spelling)
    (hassignable : target.isAssignable) {rest : List Lexeme} :
    opensChain (headKind (spelling.plain target false ++ rest)) := by
  obtain ⟨hlevel, hstep⟩ :=
    Expr.standsAlone_iff.mp (Expr.standsAlone_of_isAssignable hassignable (Nat.le_refl 7))
  rw [headKind_plain target h]
  exact target.opensChain_opening h hlevel hstep

theorem opensChain_operand {callee : Expr} (h : callee.IsWritable spelling) {rest : List Lexeme} :
    opensChain (headKind (spelling.operand 7 false callee ++ rest)) := by
  unfold NumberSpelling.operand
  rw [headKind_placed (headKind_plain callee h)]
  exact Expr.opensChain_ite (callee.opensChain_opening h)

theorem opensStatement_headKind (statement : Stmt) (h : statement.IsWritable spelling)
    (rest : List Lexeme) : opensStatement (headKind (spelling.statement statement ++ rest)) :=
  match statement, h with
  | .declare _ _ none, _ => rfl
  | .declare _ _ (some _), _ => rfl
  | .sub _ _ _ _, _ => rfl
  | .conditional _ .whenTrue _ _ _ _, _ => rfl
  | .conditional _ .whenFalse _ _ _ _, _ => rfl
  | .loop _ .whenTrue _ _, _ => rfl
  | .loop _ .whenFalse _ _, _ => rfl
  | .postLoop _ _ _ _, _ => rfl
  | .each _ _ _ _, _ => rfl
  | .choose _ _ _, _ => rfl
  | .compare _ _ _ _, _ => rfl
  | .call _ _ _, h => by
      unfold NumberSpelling.statement
      rw [List.append_assoc]
      exact opensStatement_of_opensSimple (opensSimple_of_opensChain (opensChain_operand h.1))
  | .returns _ none, _ => rfl
  | .returns _ (some _), _ => rfl
  | .assign _ _ _, h => by
      unfold NumberSpelling.statement
      rw [List.append_assoc]
      exact opensStatement_of_opensSimple
        (opensSimple_of_opensChain (opensChain_target h.2.1 h.1))
  | .breaks _, _ => rfl
  | .next _, _ => rfl
  | .step _ .up _ _, _ => rfl
  | .step _ .down _ _, _ => rfl

namespace Parser

/-- The tokens of the statement are read as the statement. -/
def ReadsStatement (spelling : NumberSpelling) (statement : Stmt) : Prop :=
  ∀ fuel rest, headKind rest ≠ .kwElse →
    16 * (spelling.statement statement ++ rest).length + 8 ≤ fuel →
    Meets (Parser.statement fuel) (spelling.statement statement ++ rest) statement.nesting
      (fun read => read.bare = statement.bare) rest

section

variable {α : Type} {fuel need : Nat} {lexemes rest final : List Lexeme} {good : α → Prop}

/-! ### Bodies -/

structure ReadsBody (spelling : NumberSpelling) (body : List Stmt) : Prop where
  writable : ∀ statement ∈ body, statement.IsWritable spelling
  reads : ∀ statement ∈ body, ReadsStatement spelling statement

theorem ReadsBody.tail {statement : Stmt} {others : List Stmt}
    (h : ReadsBody spelling (statement :: others)) : ReadsBody spelling others :=
  ⟨fun _ hmem => h.writable _ (List.mem_cons_of_mem _ hmem),
    fun _ hmem => h.reads _ (List.mem_cons_of_mem _ hmem)⟩

theorem opensStatement_ne {kind other : TokenKind} (h : opensStatement kind)
    (hother : opensStatement other = false) : kind ≠ other :=
  fun heq => absurd (hother.symm.trans (heq ▸ h)) Bool.false_ne_true

theorem headKind_statements_ne_else {body : List Stmt} (h : ReadsBody spelling body)
    (hrest : headKind rest ≠ .kwElse) :
    headKind (spelling.statements body ++ rest) ≠ .kwElse := by
  cases body with
  | nil => exact hrest
  | cons first others =>
      unfold NumberSpelling.statements
      rw [List.append_assoc]
      exact opensStatement_ne (opensStatement_headKind first
        (h.writable first List.mem_cons_self) _) rfl

theorem length_statement_pos {statement : Stmt} (h : statement.IsWritable spelling) :
    0 < (spelling.statement statement).length := by
  have hopens := opensStatement_headKind statement h []
  rw [List.append_nil] at hopens
  cases hlexemes : spelling.statement statement with
  | nil =>
      rw [hlexemes] at hopens
      exact absurd hopens Bool.false_ne_true
  | cons _ _ => exact Nat.succ_pos _

theorem meets_blockTail {body : List Stmt} (h : ReadsBody spelling body)
    (hfuel : 16 * (spelling.statements body ++ fixed .rightBrace :: rest).length + 9 ≤ fuel) :
    Meets (blockTail fuel) (spelling.statements body ++ fixed .rightBrace :: rest)
      (Stmt.nestingAll body) (fun read => Program.bare read = Program.bare body) rest := by
  induction body generalizing fuel with
  | nil =>
      obtain ⟨fuel, rfl⟩ : ∃ fewer, fuel = fewer + 1 := ⟨fuel - 1, by omega⟩
      unfold blockTail
      refine meets_current fun token hkind => ?_
      rw [hkind]
      exact meets_advance fun _ _ _ => meets_pure rfl
  | cons first others ih =>
      have hfirst := h.writable first List.mem_cons_self
      have hlength := length_statement_pos hfirst
      have helse := @headKind_statements_ne_else spelling (fixed .rightBrace :: rest) others h.tail
        TokenKind.noConfusion
      unfold NumberSpelling.statements at hfuel ⊢
      rw [List.append_assoc] at hfuel ⊢
      obtain ⟨fuel, rfl⟩ : ∃ fewer, fuel = fewer + 1 := ⟨fuel - 1, by omega⟩
      have hread := h.reads first List.mem_cons_self fuel _ helse (by omega)
      have hopens := opensStatement_headKind first hfirst
        (spelling.statements others ++ fixed .rightBrace :: rest)
      rw [List.length_append] at hfuel
      have hall : Meets (do
          let statement ← Parser.statement fuel
          return statement :: (← blockTail fuel)) _
          (max first.nesting (Stmt.nestingAll others))
          (fun read => Program.bare read = Program.bare (first :: others)) rest :=
        hread.bind fun statement hstatement =>
          Meets.map (ih h.tail (by omega)) fun read hread => congrArg₂ List.cons hstatement hread
      unfold blockTail
      refine meets_current fun token hkind => ?_
      rw [← hkind] at hopens
      split
      · rename_i heq
        rw [heq] at hopens
        exact absurd hopens Bool.false_ne_true
      · rename_i heq
        rw [heq] at hopens
        exact absurd hopens Bool.false_ne_true
      · exact hall

theorem meets_block {body : List Stmt} (h : ReadsBody spelling body)
    (hfuel : 16 * (braced (spelling.statements body) ++ rest).length ≤ fuel) :
    Meets (block fuel) (braced (spelling.statements body) ++ rest) (Stmt.nestingAll body + 1)
      (fun read => Program.bare read = Program.bare body) rest := by
  unfold braced at hfuel ⊢
  rw [List.cons_append, List.append_assoc, List.singleton_append] at hfuel ⊢
  rw [List.length_cons] at hfuel
  obtain ⟨fuel, rfl⟩ : ∃ fewer, fuel = fewer + 1 := ⟨fuel - 1, by omega⟩
  unfold block
  exact meets_expect rfl fun _ _ => Meets.nested (meets_blockTail h (by omega))

/-- A condition and the body that it guards. -/
theorem meets_guarded {next : Expr → List Stmt → Parser α} {condition : Expr} {body : List Stmt}
    (hcondition : ReadsBack spelling condition) (hbody : ReadsBody spelling body)
    (hfuel : 16 * (spelling.plain condition true ++ (braced (spelling.statements body) ++ rest)).length + 13
      ≤ fuel)
    (hnext : ∀ read statements, read.bare = condition.bare →
      Program.bare statements = Program.bare body →
      Meets (next read statements) rest need good final) :
    Meets (do
        let read ← expression fuel
        let statements ← block fuel
        next read statements)
      (spelling.plain condition true ++ (braced (spelling.statements body) ++ rest))
      (max (condition.nesting true + 1) (max (Stmt.nestingAll body + 1) need)) good final := by
  refine (hcondition.meets rfl hfuel).bind fun read hread => ?_
  rw [List.length_append] at hfuel
  exact (meets_block hbody (by omega)).bind fun statements hstatements =>
    hnext read statements hread hstatements

/-! ### Branches -/

/-- The branches of a chain and what comes after all of them. -/
structure ReadsBranches (spelling : NumberSpelling) (branches : List Branch)
    (fallback : Option (List Stmt)) : Prop where
  conditions : ∀ branch ∈ branches, ReadsBack spelling branch.condition
  bodies : ∀ branch ∈ branches, ReadsBody spelling branch.body
  fallback : ∀ body ∈ fallback, ReadsBody spelling body

theorem ReadsBranches.tail {branch : Branch} {others : List Branch}
    {fallback : Option (List Stmt)} (h : ReadsBranches spelling (branch :: others) fallback) :
    ReadsBranches spelling others fallback :=
  ⟨fun _ hmem => h.conditions _ (List.mem_cons_of_mem _ hmem),
    fun _ hmem => h.bodies _ (List.mem_cons_of_mem _ hmem), h.fallback⟩

theorem nestingAll_cons (condition : Expr) (body : List Stmt) (others : List Branch) :
    Branch.nestingAll (.mk condition body :: others) =
      max (condition.nesting true + 1)
        (max (Stmt.nestingAll body + 1) (Branch.nestingAll others)) :=
  rfl

/-- What is read of branches differs from them in places only. -/
def SameBranches (branches : List Branch) (fallback : Option (List Stmt))
    (read : List Branch × Option (List Stmt)) : Prop :=
  Branch.bareAll read.1 = Branch.bareAll branches ∧
    Stmt.bareFallback read.2 = Stmt.bareFallback fallback

theorem meets_elseChain {alternatives : List Branch} {fallback : Option (List Stmt)}
    (h : ReadsBranches spelling alternatives fallback) (hrest : headKind rest ≠ .kwElse)
    (hfuel : 16 * (spelling.elseBranches alternatives ++ (spelling.elseBody fallback ++ rest)).length
      + 1 ≤ fuel) :
    Meets (elseChain fuel)
      (spelling.elseBranches alternatives ++ (spelling.elseBody fallback ++ rest))
      (max (Branch.nestingAll alternatives) (Stmt.nestingFallback fallback))
      (SameBranches alternatives fallback) rest := by
  induction alternatives generalizing fuel with
  | nil =>
      obtain ⟨fuel, rfl⟩ : ∃ fewer, fuel = fewer + 1 := ⟨fuel - 1, by omega⟩
      unfold elseChain
      cases fallback with
      | none => exact meets_accept_of_ne hrest (meets_pure ⟨rfl, rfl⟩)
      | some body =>
          change 16 * ((braced (spelling.statements body) ++ rest).length + 1) + 1 ≤ _ at hfuel
          refine meets_accept rfl (meets_accept_of_ne TokenKind.noConfusion
            (meets_accept_of_ne TokenKind.noConfusion ?_))
          refine (Meets.map (meets_block (h.fallback body rfl) (by omega))
            fun read hread => ⟨rfl, congrArg some hread⟩).congr (Nat.zero_max _).symm
  | cons branch others ih =>
      obtain ⟨condition, body⟩ := branch
      have hcondition : ReadsBack spelling condition := h.conditions _ List.mem_cons_self
      have hbody : ReadsBody spelling body := h.bodies _ List.mem_cons_self
      unfold elseBranches at hfuel ⊢
      simp only [List.cons_append, List.append_assoc, List.length_cons] at hfuel ⊢
      obtain ⟨fuel, rfl⟩ : ∃ fewer, fuel = fewer + 1 := ⟨fuel - 1, by omega⟩
      have hfuelOthers : 16 * (spelling.elseBranches others ++
          (spelling.elseBody fallback ++ rest)).length + 1 ≤ fuel := by
        simp only [List.length_append] at hfuel ⊢
        omega
      unfold elseChain
      refine meets_accept rfl (meets_accept rfl ?_)
      refine (meets_guarded hcondition hbody (by omega) fun read statements hread hstatements =>
        Meets.map (ih h.tail hfuelOthers) fun branches hbranches =>
          ⟨congrArg₂ List.cons (congrArg₂ Branch.mk hread hstatements) hbranches.1,
            hbranches.2⟩).congr ?_
      rw [nestingAll_cons]
      omega

theorem meets_caseList {cases : List Branch} {fallback : Option (List Stmt)}
    (h : ReadsBranches spelling cases fallback)
    (hfuel : 16 * (spelling.caseBranches cases ++
      (spelling.elseBody fallback ++ fixed .rightBrace :: rest)).length ≤ fuel) :
    Meets (caseList fuel)
      (spelling.caseBranches cases ++ (spelling.elseBody fallback ++ fixed .rightBrace :: rest))
      (max (Branch.nestingAll cases) (Stmt.nestingFallback fallback))
      (SameBranches cases fallback) rest := by
  induction cases generalizing fuel with
  | nil =>
      obtain ⟨fuel, rfl⟩ : ∃ fewer, fuel = fewer + 1 := ⟨fuel - 1, by
        simp only [List.length_append, List.length_cons] at hfuel
        omega⟩
      unfold caseList
      refine meets_current fun token hkind => ?_
      rw [hkind]
      cases fallback with
      | none => exact meets_advance fun _ _ _ => meets_pure ⟨rfl, rfl⟩
      | some body =>
          change 16 * ((braced (spelling.statements body) ++ _ :: rest).length + 1) ≤ _ at hfuel
          refine meets_advance fun _ _ _ => ?_
          refine ((meets_block (h.fallback body rfl) (by omega)).bind fun read hread =>
            meets_expect rfl fun _ _ => meets_pure ⟨rfl, congrArg some hread⟩).congr ?_
          exact (Nat.max_zero _).trans (Nat.zero_max _).symm
  | cons branch others ih =>
      obtain ⟨condition, body⟩ := branch
      have hcondition : ReadsBack spelling condition := h.conditions _ List.mem_cons_self
      have hbody : ReadsBody spelling body := h.bodies _ List.mem_cons_self
      unfold caseBranches at hfuel ⊢
      simp only [List.cons_append, List.append_assoc, List.length_cons] at hfuel ⊢
      obtain ⟨fuel, rfl⟩ : ∃ fewer, fuel = fewer + 1 := ⟨fuel - 1, by omega⟩
      have hfuelOthers : 16 * (spelling.caseBranches others ++
          (spelling.elseBody fallback ++ fixed .rightBrace :: rest)).length ≤ fuel := by
        simp only [List.length_append, List.length_cons] at hfuel ⊢
        omega
      unfold caseList
      refine meets_current fun token hkind => ?_
      rw [hkind]
      refine meets_advance fun _ _ _ => ?_
      refine (meets_guarded hcondition hbody (by omega) fun read statements hread hstatements =>
        Meets.map (ih h.tail hfuelOthers) fun branches hbranches =>
          ⟨congrArg₂ List.cons (congrArg₂ Branch.mk hread hstatements) hbranches.1,
            hbranches.2⟩).congr ?_
      rw [nestingAll_cons]
      omega

theorem meets_parameters {names : List String} (h : ∀ name ∈ names, IsName name)
    (hfuel : 16 * (NumberSpelling.parameters names ++ rest).length ≤ fuel) :
    Meets (Parser.parameters fuel) (NumberSpelling.parameters names ++ rest) 0 (· = names) rest := by
  induction names generalizing fuel with
  | nil =>
      change 16 * (rest.length + 1) ≤ fuel at hfuel
      obtain ⟨fuel, rfl⟩ : ∃ fewer, fuel = fewer + 1 := ⟨fuel - 1, by omega⟩
      unfold Parser.parameters
      exact meets_accept rfl (meets_pure rfl)
  | cons name others ih =>
      have hname := (h name List.mem_cons_self).2
      have hothers : ∀ other ∈ others, IsName other := fun _ hmem =>
        h _ (List.mem_cons_of_mem _ hmem)
      change 16 * ((parameterTail others ++ rest).length + 1) ≤ fuel at hfuel
      obtain ⟨fuel, rfl⟩ : ∃ fewer, fuel = fewer + 1 := ⟨fuel - 1, by omega⟩
      have hfirst : headKind (word name :: (parameterTail others ++ rest)) ≠ .rightParen := by
        change TokenKind.ofWord name ≠ .rightParen
        rw [hname]
        exact TokenKind.noConfusion
      unfold Parser.parameters
      refine meets_accept_of_ne hfirst (meets_expectName hname (meets_check ?_))
      cases others with
      | nil =>
          change 16 * ((rest.length + 1) + 1) ≤ fuel + 1 at hfuel
          have hnone : 16 * (NumberSpelling.parameters [] ++ rest).length ≤ fuel := by
            change 16 * (rest.length + 1) ≤ fuel
            omega
          exact Meets.map (ih hothers hnone) fun read hread => congrArg (name :: ·) hread
      | cons other others =>
          change 16 * ((NumberSpelling.parameters (other :: others) ++ rest).length + 2) ≤ _ at hfuel
          refine meets_expect rfl fun _ _ => ?_
          exact Meets.map (ih hothers (by omega)) fun read hread => congrArg (name :: ·) hread

end

/-! ### Statements with bodies -/

section

variable {fuel : Nat} {head : Lexeme} {rest : List Lexeme} {position : Position} {name : String}
  {sense : Sense} {condition : Expr} {body : List Stmt} {branches : List Branch}
  {fallback : Option (List Stmt)}

theorem meets_conditional (hcondition : ReadsBack spelling condition)
    (hbody : ReadsBody spelling body) (hbranches : ReadsBranches spelling branches fallback)
    (hrest : headKind rest ≠ .kwElse)
    (hfuel : 16 * (spelling.plain condition true ++ (braced (spelling.statements body) ++
      (spelling.elseBranches branches ++ (spelling.elseBody fallback ++ rest)))).length + 14 ≤ fuel) :
    Meets (conditional fuel sense)
      (head :: (spelling.plain condition true ++ (braced (spelling.statements body) ++
        (spelling.elseBranches branches ++ (spelling.elseBody fallback ++ rest)))))
      (Stmt.conditional position sense condition body branches fallback).nesting
      (fun read => read.bare =
        (Stmt.conditional position sense condition body branches fallback).bare) rest := by
  obtain ⟨fuel, rfl⟩ : ∃ fewer, fuel = fewer + 1 := ⟨fuel - 1, by omega⟩
  have hfuelChain : 16 * (spelling.elseBranches branches ++
      (spelling.elseBody fallback ++ rest)).length + 1 ≤ fuel := by
    simp only [List.length_append] at hfuel ⊢
    omega
  unfold conditional
  refine meets_advance fun first _ _ => ?_
  refine meets_guarded hcondition hbody (by omega) fun read statements hread hstatements =>
    Meets.map (meets_elseChain hbranches hrest hfuelChain) fun chain hchain => ?_
  change Stmt.conditional .first sense read.bare (Program.bare statements)
    (Branch.bareAll chain.1) (Stmt.bareFallback chain.2) = _
  rw [hread, hstatements, hchain.1, hchain.2]
  rfl

theorem meets_loop (hcondition : ReadsBack spelling condition) (hbody : ReadsBody spelling body)
    (hfuel : 16 * (spelling.plain condition true ++
      (braced (spelling.statements body) ++ rest)).length + 14 ≤ fuel) :
    Meets (loop fuel sense)
      (head :: (spelling.plain condition true ++ (braced (spelling.statements body) ++ rest)))
      (Stmt.loop position sense condition body).nesting
      (fun read => read.bare = (Stmt.loop position sense condition body).bare) rest := by
  obtain ⟨fuel, rfl⟩ : ∃ fewer, fuel = fewer + 1 := ⟨fuel - 1, by omega⟩
  unfold loop
  refine meets_advance fun first _ _ => ?_
  refine Meets.congr (meets_guarded hcondition hbody (by omega)
    fun read statements hread hstatements => meets_pure ?_) (congrArg (max _) (Nat.max_zero _))
  exact congrArg₂ (Stmt.loop .first sense) hread hstatements

theorem meets_postLoop (hcondition : ReadsBack spelling condition)
    (hbody : ReadsBody spelling body) (hrest : mayFollow true (headKind rest))
    (hfuel : 16 * (braced (spelling.statements body) ++
      fixed sense.loopKind :: (spelling.plain condition true ++ rest)).length + 1 ≤ fuel) :
    Meets (postLoop fuel)
      (head :: (braced (spelling.statements body) ++
        fixed sense.loopKind :: (spelling.plain condition true ++ rest)))
      (Stmt.postLoop position sense body condition).nesting
      (fun read => read.bare = (Stmt.postLoop position sense body condition).bare) rest := by
  obtain ⟨fuel, rfl⟩ : ∃ fewer, fuel = fewer + 1 := ⟨fuel - 1, by omega⟩
  unfold postLoop
  refine meets_advance fun first _ _ => ?_
  refine (meets_block hbody (by omega)).bind fun statements hstatements => ?_
  rw [List.length_append, List.length_cons] at hfuel
  cases sense with
  | whenTrue =>
      refine meets_accept rfl (Meets.map (hcondition.meets hrest (by omega)) fun read hread => ?_)
      exact congrArg₂ (Stmt.postLoop .first .whenTrue) hstatements hread
  | whenFalse =>
      refine meets_accept_of_ne TokenKind.noConfusion (meets_expect rfl fun _ _ => ?_)
      refine Meets.map (hcondition.meets hrest (by omega)) fun read hread => ?_
      exact congrArg₂ (Stmt.postLoop .first .whenFalse) hstatements hread

/-- The name is read as an expression, which `in` then makes the variable of the loop. -/
theorem meets_each (hname : IsName name) (hcondition : ReadsBack spelling condition)
    (hbody : ReadsBody spelling body)
    (hfuel : 16 * (word name :: fixed .kwIn :: (spelling.plain condition true ++
      (braced (spelling.statements body) ++ rest))).length + 14 ≤ fuel) :
    Meets (each fuel)
      (head :: word name :: fixed .kwIn :: (spelling.plain condition true ++
        (braced (spelling.statements body) ++ rest)))
      (Stmt.each position name condition body).nesting
      (fun read => read.bare = (Stmt.each position name condition body).bare) rest := by
  obtain ⟨fuel, rfl⟩ : ∃ fewer, fuel = fewer + 1 := ⟨fuel - 1, by omega⟩
  have hhead : ReadsBack spelling (.name position name) := readsBack (.name position name) hname
  have hvariable := @ReadsBack.meets spelling fuel (fixed .kwIn :: (spelling.plain condition true ++
    (braced (spelling.statements body) ++ rest))) (.name position name) hhead rfl
    (Nat.le_of_succ_le_succ hfuel)
  rw [List.length_cons, List.length_cons] at hfuel
  unfold each
  refine meets_advance fun first _ _ => ?_
  refine Meets.congr (show Meets _ _ (max (0 + 1) (max (condition.nesting true + 1)
    (max (Stmt.nestingAll body + 1) 0))) _ _ from hvariable.bind fun read hread => ?_) ?_
  · obtain ⟨place, rfl⟩ := Expr.eq_name_of_bare_eq hread
    refine meets_accept rfl (meets_guarded hcondition hbody (by omega)
      fun iterable statements hiterable hstatements => meets_pure ?_)
    exact congrArg₂ (Stmt.each .first name) hiterable hstatements
  · change _ = max (condition.nesting true + 1) (Stmt.nestingAll body + 1)
    omega

theorem meets_sub {names : List String} (hname : IsName name)
    (hnames : ∀ parameter ∈ names, IsName parameter) (hbody : ReadsBody spelling body)
    (hfuel : 16 * (NumberSpelling.parameters names ++
      (braced (spelling.statements body) ++ rest)).length + 1 ≤ fuel) :
    Meets (sub fuel)
      (head :: word name :: fixed .leftParen :: (NumberSpelling.parameters names ++
        (braced (spelling.statements body) ++ rest)))
      (Stmt.sub position name names body).nesting
      (fun read => read.bare = (Stmt.sub position name names body).bare) rest := by
  obtain ⟨fuel, rfl⟩ : ∃ fewer, fuel = fewer + 1 := ⟨fuel - 1, by omega⟩
  unfold sub
  refine meets_advance fun first _ _ => meets_expectName hname.2 (meets_accept rfl ?_)
  have hparameters : Meets (Parser.parameters fuel) (NumberSpelling.parameters names ++
      (braced (spelling.statements body) ++ rest)) 0 (· = names)
      (braced (spelling.statements body) ++ rest) := meets_parameters hnames (by omega)
  rw [List.length_append] at hfuel
  refine Meets.congr (hparameters.bind fun read hread =>
    Meets.map (meets_block hbody (by omega)) fun statements hstatements => ?_) (Nat.zero_max _)
  rw [hread]
  exact congrArg (Stmt.sub .first name names) hstatements

theorem meets_choose (h : ReadsBranches spelling branches fallback)
    (hfuel : 16 * (spelling.caseBranches branches ++
      (spelling.elseBody fallback ++ fixed .rightBrace :: rest)).length + 1 ≤ fuel) :
    Meets (choice fuel)
      (head :: fixed .leftBrace :: (spelling.caseBranches branches ++
        (spelling.elseBody fallback ++ fixed .rightBrace :: rest)))
      (Stmt.choose position branches fallback).nesting
      (fun read => read.bare = (Stmt.choose position branches fallback).bare) rest := by
  obtain ⟨fuel, rfl⟩ : ∃ fewer, fuel = fewer + 1 := ⟨fuel - 1, by omega⟩
  unfold choice
  refine meets_advance fun first _ _ => meets_check (meets_expect rfl fun _ _ => ?_)
  refine Meets.map (meets_caseList h (by omega)) fun chain hchain => ?_
  exact congrArg₂ (Stmt.choose .first) hchain.1 hchain.2

/-- The subject does not open with a brace, so it is not taken for the cases. -/
theorem meets_compare {subject : Expr} (hsubject : ReadsBack spelling subject)
    (h : ReadsBranches spelling branches fallback)
    (hfuel : 16 * (placed (!subject.opensBrace) true (spelling.plain subject) ++
      fixed .leftBrace :: (spelling.caseBranches branches ++
        (spelling.elseBody fallback ++ fixed .rightBrace :: rest))).length + 14 ≤ fuel) :
    Meets (choice fuel)
      (head :: (placed (!subject.opensBrace) true (spelling.plain subject) ++
        fixed .leftBrace :: (spelling.caseBranches branches ++
          (spelling.elseBody fallback ++ fixed .rightBrace :: rest))))
      (Stmt.compare position subject branches fallback).nesting
      (fun read => read.bare = (Stmt.compare position subject branches fallback).bare) rest := by
  obtain ⟨fuel, rfl⟩ : ∃ fewer, fuel = fewer + 1 := ⟨fuel - 1, by omega⟩
  have hreads : ReadsAs 0 true (placed (!subject.opensBrace) true (spelling.plain subject))
      (placedNesting (!subject.opensBrace) true subject.nesting) subject := by
    unfold placed placedNesting
    split
    · exact hsubject.whole
    · exact hsubject.parentheses (Nat.zero_le 7)
  have hbrace (after : List Lexeme) : (headKind (placed (!subject.opensBrace) true
      (spelling.plain subject) ++ after) == .leftBrace) = false := by
    rw [headKind_placed (headKind_plain subject hsubject.writable)]
    cases hopens : subject.opensBrace with
    | true => rfl
    | false => exact hopens
  unfold choice
  refine meets_advance fun first _ _ => meets_check ?_
  rw [hbrace]
  refine (hreads.meets_expression rfl (by omega)).bind fun read hread =>
    meets_expect rfl fun _ _ => ?_
  rw [List.length_append, List.length_cons] at hfuel
  refine Meets.map (meets_caseList h (by omega)) fun chain hchain => ?_
  change Stmt.compare .first read.bare (Branch.bareAll chain.1) (Stmt.bareFallback chain.2) = _
  rw [hread, hchain.1, hchain.2]
  rfl

end

/-! ### Statements that end with a semicolon -/

section

variable {fuel need : Nat} {rest tokens : List Lexeme} {position : Position} {name : String}
  {statement : Stmt}

theorem meets_declaration {value : Option Expr} (hname : IsName name)
    (hvalue : ∀ expression ∈ value, ReadsBack spelling expression)
    (hfuel : 16 * (spelling.statement (.declare position name value) ++ rest).length ≤ fuel) :
    Meets (declaration fuel) (spelling.statement (.declare position name value) ++ rest)
      (Expr.nestingOptional value)
      (fun read => read.bare = (Stmt.declare position name value).bare)
      (fixed .semicolon :: rest) := by
  cases value with
  | none =>
      change 16 * (rest.length + 3) ≤ fuel at hfuel
      obtain ⟨fuel, rfl⟩ : ∃ fewer, fuel = fewer + 1 := ⟨fuel - 1, by omega⟩
      unfold declaration
      refine meets_advance fun first _ _ => meets_expectName hname.2 ?_
      exact meets_accept_of_ne TokenKind.noConfusion (meets_pure rfl)
  | some expression =>
      unfold NumberSpelling.statement at hfuel ⊢
      simp only [List.cons_append, List.append_assoc, List.nil_append, List.length_cons] at hfuel ⊢
      obtain ⟨fuel, rfl⟩ : ∃ fewer, fuel = fewer + 1 := ⟨fuel - 1, by omega⟩
      unfold declaration
      refine meets_advance fun first _ _ => meets_expectName hname.2 (meets_accept rfl ?_)
      refine Meets.map ((hvalue expression rfl).meets rfl (by omega)) fun read hread => ?_
      exact congrArg (fun value => Stmt.declare .first name (some value)) hread

/-- A statement without a keyword of its own, up to its semicolon. No modifier comes before that. -/
theorem meets_simple (hsimple : opensSimple (headKind (tokens ++ fixed .semicolon :: rest)))
    (hfuel : 1 ≤ fuel)
    (h : Meets (simpleStatement fuel) (tokens ++ fixed .semicolon :: rest) need
      (fun read => read.bare = statement.bare) (fixed .semicolon :: rest)) :
    Meets (Parser.statement (fuel + 1)) (tokens ++ fixed .semicolon :: rest) need
      (fun read => read.bare = statement.bare) rest := by
  have hmodified (simple : Stmt) : Meets (modified fuel simple) (fixed .semicolon :: rest) 0
      (· = simple) (fixed .semicolon :: rest) := by
    obtain ⟨fuel, rfl⟩ : ∃ fewer, fuel = fewer + 1 := ⟨fuel - 1, by omega⟩
    unfold modified
    refine meets_current fun token hkind => ?_
    rw [hkind]
    exact meets_pure rfl
  have hall : Meets (do
      let simple ← simpleStatement fuel
      let result ← modified fuel simple
      let _ ← expect .semicolon "';'"
      return result) (tokens ++ fixed .semicolon :: rest) need
      (fun read => read.bare = statement.bare) rest := by
    refine Meets.congr (h.bind fun simple hbare => (hmodified simple).bind fun result hresult =>
      meets_expect rfl fun _ _ => meets_pure (hresult ▸ hbare)) ?_
    rw [Nat.max_zero, Nat.max_zero]
  unfold Parser.statement
  refine meets_current fun token hkind => ?_
  rw [← hkind] at hsimple
  generalize token.kind = kind at hsimple
  cases kind <;> first | exact absurd hsimple Bool.false_ne_true | exact hall

/-- A statement that opens with an operand. -/
theorem meets_assignmentOrCall (hchain : opensChain (headKind tokens))
    (h : Meets (assignmentOrCall fuel) tokens need
      (fun read => read.bare = statement.bare) rest) :
    Meets (simpleStatement (fuel + 1)) tokens need
      (fun read => read.bare = statement.bare) rest := by
  unfold simpleStatement
  refine meets_current fun token hkind => ?_
  rw [← hkind] at hchain
  generalize token.kind = kind at hchain
  cases kind <;> first | exact absurd hchain Bool.false_ne_true | exact h

theorem endsStatement_opening {expression : Expr} (h : expression.IsWritable spelling)
    {last : Bool} : endsStatement (headKind (spelling.plain expression last ++ rest)) = false := by
  have hopens := expression.opensExpression_opening h
  rw [headKind_plain expression h]
  generalize expression.opening = kind at hopens
  cases kind <;> first | rfl | exact absurd hopens Bool.false_ne_true

theorem readsStatement_returns {value : Option Expr}
    (hvalue : ∀ expression ∈ value, ReadsBack spelling expression) :
    ReadsStatement spelling (.returns position value) := by
  intro fuel rest _ hfuel
  cases value with
  | none =>
      obtain ⟨fuel, rfl⟩ : ∃ fewer, fuel = fewer + 2 := ⟨fuel - 2, by omega⟩
      refine @meets_simple (fuel + 1) 0 rest [fixed .kwReturn] _ rfl (by omega) ?_
      unfold simpleStatement
      refine meets_current fun token hkind => ?_
      rw [hkind]
      exact meets_advance fun _ _ _ => meets_atStatementEnd (meets_pure rfl)
  | some expression =>
      have hexpression := hvalue expression rfl
      unfold NumberSpelling.statement at hfuel ⊢
      rw [List.cons_append, List.append_assoc, List.singleton_append] at hfuel ⊢
      rw [List.length_cons] at hfuel
      obtain ⟨fuel, rfl⟩ : ∃ fewer, fuel = fewer + 2 := ⟨fuel - 2, by omega⟩
      rw [← List.cons_append]
      refine meets_simple rfl (by omega) ?_
      rw [List.cons_append]
      unfold simpleStatement
      refine meets_current fun token hkind => ?_
      rw [hkind]
      refine meets_advance fun _ _ _ => meets_atStatementEnd ?_
      rw [endsStatement_opening hexpression.writable]
      refine Meets.map (hexpression.meets rfl (by omega)) fun read hread => ?_
      exact congrArg (fun value => Stmt.returns .first (some value)) hread

theorem readsStatement_breaks : ReadsStatement spelling (.breaks position) := by
  intro fuel rest _ hfuel
  obtain ⟨fuel, rfl⟩ : ∃ fewer, fuel = fewer + 2 := ⟨fuel - 2, by omega⟩
  refine @meets_simple (fuel + 1) 0 rest [fixed .kwBreak] _ rfl (by omega) ?_
  unfold simpleStatement
  refine meets_current fun token hkind => ?_
  rw [hkind]
  exact meets_advance fun _ _ _ => meets_pure rfl

theorem readsStatement_next : ReadsStatement spelling (.next position) := by
  intro fuel rest _ hfuel
  obtain ⟨fuel, rfl⟩ : ∃ fewer, fuel = fewer + 2 := ⟨fuel - 2, by omega⟩
  refine @meets_simple (fuel + 1) 0 rest [fixed .kwNext] _ rfl (by omega) ?_
  unfold simpleStatement
  refine meets_current fun token hkind => ?_
  rw [hkind]
  exact meets_advance fun _ _ _ => meets_pure rfl

theorem readsStatement_step {direction : Direction} {target : Expr} {amount : Option Expr}
    (htarget : ReadsBack spelling target) (hassignable : target.isAssignable)
    (hamount : ∀ value ∈ amount, ReadsBack spelling value) :
    ReadsStatement spelling (.step position direction target amount) := by
  intro fuel rest _ hfuel
  unfold NumberSpelling.statement at hfuel ⊢
  simp only [List.cons_append, List.append_assoc, List.nil_append, List.length_cons] at hfuel ⊢
  obtain ⟨fuel, rfl⟩ : ∃ fewer, fuel = fewer + 2 := ⟨fuel - 2, by omega⟩
  have htail := @meets_stepTail spelling fuel (fixed .semicolon :: rest) target amount htarget
    hassignable hamount rfl (by omega)
  have hsimple : opensSimple direction.kind := by
    cases direction <;> rfl
  have hstep : Meets (simpleStatement (fuel + 1))
      ((fixed direction.kind :: (spelling.plain target false ++ spelling.amountOf amount)) ++
        fixed .semicolon :: rest)
      (max (target.nesting false + 1) (Expr.nestingOptional amount))
      (fun read => read.bare = (Stmt.step position direction target amount).bare)
      (fixed .semicolon :: rest) := by
    rw [List.cons_append, List.append_assoc]
    unfold simpleStatement
    refine meets_current fun token hkind => ?_
    rw [hkind]
    cases direction with
    | up =>
        exact meets_advance fun _ _ _ => htail.map fun read hread =>
          congrArg₂ (Stmt.step .first .up) hread.1 hread.2
    | down =>
        exact meets_advance fun _ _ _ => htail.map fun read hread =>
          congrArg₂ (Stmt.step .first .down) hread.1 hread.2
  have hread := @meets_simple (fuel + 1) _ rest
    (fixed direction.kind :: (spelling.plain target false ++ spelling.amountOf amount)) _ hsimple
    (by omega) hstep
  rwa [List.cons_append, List.append_assoc] at hread

/-- The last arguments of the head are those of the statement. -/
theorem readsStatement_call {callee : Expr} {arguments : List Expr}
    (hcallee : ReadsBack spelling callee)
    (harguments : ∀ argument ∈ arguments, ReadsBack spelling argument) :
    ReadsStatement spelling (.call position callee arguments) := by
  intro fuel rest _ hfuel
  have hlexemes : spelling.statement (.call position callee arguments) ++ rest =
      (spelling.operand 7 false callee ++
        touching .leftParen :: (spelling.items arguments ++ [fixed .rightParen])) ++
        fixed .semicolon :: rest := by
    unfold NumberSpelling.statement
    simp only [List.cons_append, List.append_assoc, List.nil_append]
  rw [hlexemes] at hfuel ⊢
  obtain ⟨fuel, rfl⟩ : ∃ fewer, fuel = fewer + 4 := ⟨fuel - 4, by omega⟩
  have hcost : cost 7 = 4 := rfl
  have hhead := @ReadsAs.whole 7 (fuel + 1) _ false true _ (fixed .semicolon :: rest)
    (.call position callee arguments) ((hcallee.operand (Nat.le_refl 7)).call harguments)
    (Nat.le_refl 7) (follows_of_mayFollow rfl) (@extension_of_mayFollow false _ rfl 7)
    (by omega)
  refine meets_simple ?_ (by omega) (meets_assignmentOrCall ?_ ?_)
  · rw [List.append_assoc]
    exact opensSimple_of_opensChain (opensChain_operand hcallee.writable)
  · rw [List.append_assoc]
    exact opensChain_operand hcallee.writable
  · unfold assignmentOrCall
    refine meets_current fun first _ => ?_
    refine Meets.congr (hhead.bind fun head hbare => meets_accept_of_ne TokenKind.noConfusion ?_)
      (Nat.max_zero _)
    obtain ⟨place, head, others, rfl, hcalleeBare, hothers⟩ := Expr.eq_call_of_bare_eq hbare
    change Meets (spacedArguments (fuel + 1) _ head others) _ _ _ _
    unfold spacedArguments
    exact meets_atStatementEnd (meets_pure (congrArg₂ (Stmt.call .first) hcalleeBare hothers))

theorem readsStatement_assign {target value : Expr} (htarget : ReadsBack spelling target)
    (hassignable : target.isAssignable) (hvalue : ReadsBack spelling value) :
    ReadsStatement spelling (.assign position target value) := by
  intro fuel rest _ hfuel
  have hlexemes : spelling.statement (.assign position target value) ++ rest =
      (spelling.plain target false ++ fixed .equal :: spelling.plain value true) ++
        fixed .semicolon :: rest := by
    unfold NumberSpelling.statement
    simp only [List.cons_append, List.append_assoc, List.nil_append]
  rw [hlexemes] at hfuel ⊢
  obtain ⟨fuel, rfl⟩ : ∃ fewer, fuel = fewer + 4 := ⟨fuel - 4, by omega⟩
  have hcost : cost 7 = 4 := rfl
  have hchain := fun rest => @opensChain_target spelling target htarget.writable hassignable rest
  refine meets_simple ?_ (by omega) (meets_assignmentOrCall ?_ ?_)
  · rw [List.append_assoc]
    exact opensSimple_of_opensChain (hchain _)
  · rw [List.append_assoc]
    exact hchain _
  · rw [List.append_assoc, List.cons_append] at hfuel ⊢
    have halone := Expr.standsAlone_of_isAssignable hassignable (Nat.le_refl 7)
    have hhead := @ReadsAs.whole 7 (fuel + 1) _ false true _
      (fixed .equal :: (spelling.plain value true ++ fixed .semicolon :: rest)) target
      (htarget.of_standsAlone halone) (Nat.le_refl 7) (follows_of_mayFollow rfl)
      (@extension_of_mayFollow false _ rfl 7) (by omega)
    rw [List.length_append, List.length_cons] at hfuel
    unfold assignmentOrCall
    refine meets_current fun first _ => hhead.bind fun head hbare => meets_accept rfl ?_
    change Meets (if head.isAssignable then _ else _) _ _ _ _
    rw [if_pos ((Expr.isAssignable_of_bare_eq hbare).trans hassignable)]
    exact Meets.map (hvalue.meets rfl (by omega)) fun read hread =>
      congrArg₂ (Stmt.assign .first) hbare hread

end

/-! ### Statements by keyword -/

section

variable {position : Position} {name : String} {sense : Sense} {condition : Expr}
  {body : List Stmt} {branches : List Branch} {fallback : Option (List Stmt)}

theorem readsStatement_conditional (hcondition : ReadsBack spelling condition)
    (hbody : ReadsBody spelling body) (hbranches : ReadsBranches spelling branches fallback) :
    ReadsStatement spelling (.conditional position sense condition body branches fallback) := by
  intro fuel rest hrest hfuel
  unfold NumberSpelling.statement at hfuel ⊢
  simp only [List.cons_append, List.append_assoc, List.length_cons] at hfuel ⊢
  obtain ⟨fuel, rfl⟩ : ∃ fewer, fuel = fewer + 1 := ⟨fuel - 1, by omega⟩
  unfold Parser.statement
  refine meets_current fun token hkind => ?_
  rw [hkind]
  cases sense <;> exact meets_conditional hcondition hbody hbranches hrest (by omega)

theorem readsStatement_loop (hcondition : ReadsBack spelling condition)
    (hbody : ReadsBody spelling body) :
    ReadsStatement spelling (.loop position sense condition body) := by
  intro fuel rest _ hfuel
  unfold NumberSpelling.statement at hfuel ⊢
  simp only [List.cons_append, List.append_assoc, List.length_cons] at hfuel ⊢
  obtain ⟨fuel, rfl⟩ : ∃ fewer, fuel = fewer + 1 := ⟨fuel - 1, by omega⟩
  unfold Parser.statement
  refine meets_current fun token hkind => ?_
  rw [hkind]
  cases sense <;> exact meets_loop hcondition hbody (by omega)

theorem readsStatement_postLoop (hcondition : ReadsBack spelling condition)
    (hbody : ReadsBody spelling body) :
    ReadsStatement spelling (.postLoop position sense body condition) := by
  intro fuel rest _ hfuel
  unfold NumberSpelling.statement at hfuel ⊢
  simp only [List.cons_append, List.append_assoc, List.nil_append, List.length_cons] at hfuel ⊢
  obtain ⟨fuel, rfl⟩ : ∃ fewer, fuel = fewer + 1 := ⟨fuel - 1, by omega⟩
  have hloop := @meets_postLoop spelling fuel (fixed .kwDo) (fixed .semicolon :: rest) position
    sense condition body hcondition hbody rfl (by omega)
  unfold Parser.statement
  refine meets_current fun token hkind => ?_
  rw [hkind]
  exact Meets.congr (hloop.bind fun read hread => meets_expect rfl fun _ _ => meets_pure hread)
    (Nat.max_zero _)

theorem readsStatement_each (hname : IsName name) (hcondition : ReadsBack spelling condition)
    (hbody : ReadsBody spelling body) :
    ReadsStatement spelling (.each position name condition body) := by
  intro fuel rest _ hfuel
  unfold NumberSpelling.statement at hfuel ⊢
  simp only [List.cons_append, List.append_assoc, List.length_cons] at hfuel ⊢
  obtain ⟨fuel, rfl⟩ : ∃ fewer, fuel = fewer + 1 := ⟨fuel - 1, by omega⟩
  unfold Parser.statement
  refine meets_current fun token hkind => ?_
  rw [hkind]
  exact meets_each hname hcondition hbody (by simp only [List.length_cons]; omega)

theorem readsStatement_sub {names : List String} (hname : IsName name)
    (hnames : ∀ parameter ∈ names, IsName parameter) (hbody : ReadsBody spelling body) :
    ReadsStatement spelling (.sub position name names body) := by
  intro fuel rest _ hfuel
  unfold NumberSpelling.statement at hfuel ⊢
  simp only [List.cons_append, List.append_assoc, List.length_cons] at hfuel ⊢
  obtain ⟨fuel, rfl⟩ : ∃ fewer, fuel = fewer + 1 := ⟨fuel - 1, by omega⟩
  unfold Parser.statement
  refine meets_current fun token hkind => ?_
  rw [hkind]
  exact meets_sub hname hnames hbody (by omega)

theorem readsStatement_declare {value : Option Expr} (hname : IsName name)
    (hvalue : ∀ expression ∈ value, ReadsBack spelling expression) :
    ReadsStatement spelling (.declare position name value) := by
  intro fuel rest _ hfuel
  obtain ⟨fuel, rfl⟩ : ∃ fewer, fuel = fewer + 1 := ⟨fuel - 1, by omega⟩
  have hdeclaration := @meets_declaration spelling fuel rest position name value hname hvalue
    (by omega)
  have hall : Meets (do
      let result ← declaration fuel
      let _ ← expect .semicolon "';' after declaration"
      return result) (spelling.statement (.declare position name value) ++ rest)
      (Expr.nestingOptional value)
      (fun read => read.bare = (Stmt.declare position name value).bare) rest :=
    Meets.congr (hdeclaration.bind fun read hread => meets_expect rfl fun _ _ => meets_pure hread)
      (Nat.max_zero _)
  unfold Parser.statement
  refine meets_current fun token hkind => ?_
  rw [hkind]
  cases value <;> exact hall

theorem readsStatement_choose (h : ReadsBranches spelling branches fallback) :
    ReadsStatement spelling (.choose position branches fallback) := by
  intro fuel rest _ hfuel
  unfold NumberSpelling.statement at hfuel ⊢
  simp only [List.cons_append, List.append_assoc, List.nil_append, List.length_cons] at hfuel ⊢
  obtain ⟨fuel, rfl⟩ : ∃ fewer, fuel = fewer + 1 := ⟨fuel - 1, by omega⟩
  unfold Parser.statement
  refine meets_current fun token hkind => ?_
  rw [hkind]
  exact meets_choose h (by omega)

theorem readsStatement_compare {subject : Expr} (hsubject : ReadsBack spelling subject)
    (h : ReadsBranches spelling branches fallback) :
    ReadsStatement spelling (.compare position subject branches fallback) := by
  intro fuel rest _ hfuel
  unfold NumberSpelling.statement at hfuel ⊢
  simp only [List.cons_append, List.append_assoc, List.nil_append, List.length_cons] at hfuel ⊢
  obtain ⟨fuel, rfl⟩ : ∃ fewer, fuel = fewer + 1 := ⟨fuel - 1, by omega⟩
  unfold Parser.statement
  refine meets_current fun token hkind => ?_
  rw [hkind]
  exact meets_compare hsubject h (by omega)

end

/-! ### The tree -/

theorem branchConditions (branches : List Branch) (h : Branch.AllWritable spelling branches) :
    ∀ branch ∈ branches, ReadsBack spelling branch.condition :=
  match branches, h with
  | [], _ => fun _ hmem => absurd hmem List.not_mem_nil
  | .mk condition _ :: others, h =>
    List.forall_mem_cons.mpr ⟨readsBack condition h.1, branchConditions others h.2.2⟩

mutual

/-- Every statement that can be written is read back. -/
theorem readsStatement (statement : Stmt) (h : statement.IsWritable spelling) :
    ReadsStatement spelling statement :=
  match statement, h with
  | .declare _ _ value, h => readsStatement_declare h.1 (optionReadsBack value h.2)
  | .sub _ _ _ body, h => readsStatement_sub h.1 h.2.1 (readsBody body h.2.2)
  | .conditional _ _ condition body alternatives fallback, h =>
    readsStatement_conditional (readsBack condition h.1) (readsBody body h.2.1)
      ⟨branchConditions alternatives h.2.2.1, branchBodies alternatives h.2.2.1,
        fallbackBody fallback h.2.2.2⟩
  | .loop _ _ condition body, h =>
    readsStatement_loop (readsBack condition h.1) (readsBody body h.2)
  | .postLoop _ _ body condition, h =>
    readsStatement_postLoop (readsBack condition h.2) (readsBody body h.1)
  | .each _ _ iterable body, h =>
    readsStatement_each h.1 (readsBack iterable h.2.1) (readsBody body h.2.2)
  | .choose _ cases fallback, h =>
    readsStatement_choose ⟨branchConditions cases h.1, branchBodies cases h.1,
      fallbackBody fallback h.2⟩
  | .compare _ subject cases fallback, h =>
    readsStatement_compare (readsBack subject h.1) ⟨branchConditions cases h.2.1,
      branchBodies cases h.2.1, fallbackBody fallback h.2.2⟩
  | .call _ callee arguments, h =>
    readsStatement_call (readsBack callee h.1) (allReadBack arguments h.2)
  | .returns _ value, h => readsStatement_returns (optionReadsBack value h)
  | .assign _ target value, h =>
    readsStatement_assign (readsBack target h.2.1) h.1 (readsBack value h.2.2)
  | .breaks _, _ => readsStatement_breaks
  | .next _, _ => readsStatement_next
  | .step _ _ target amount, h =>
    readsStatement_step (readsBack target h.2.1) h.1 (optionReadsBack amount h.2.2)

theorem readsBody (body : List Stmt) (h : Stmt.AllWritable spelling body) :
    ReadsBody spelling body :=
  match body, h with
  | [], _ => ⟨fun _ hmem => absurd hmem List.not_mem_nil,
      fun _ hmem => absurd hmem List.not_mem_nil⟩
  | first :: others, h =>
    ⟨List.forall_mem_cons.mpr ⟨h.1, (readsBody others h.2).writable⟩,
      List.forall_mem_cons.mpr ⟨readsStatement first h.1, (readsBody others h.2).reads⟩⟩

theorem branchBodies (branches : List Branch) (h : Branch.AllWritable spelling branches) :
    ∀ branch ∈ branches, ReadsBody spelling branch.body :=
  match branches, h with
  | [], _ => fun _ hmem => absurd hmem List.not_mem_nil
  | .mk _ body :: others, h =>
    List.forall_mem_cons.mpr ⟨readsBody body h.2.1, branchBodies others h.2.2⟩

theorem fallbackBody (fallback : Option (List Stmt)) (h : Stmt.FallbackWritable spelling fallback) :
    ∀ body ∈ fallback, ReadsBody spelling body :=
  match fallback, h with
  | none, _ => fun _ hmem => absurd hmem (Option.not_mem_none _)
  | some body, h => fun _ hmem => Option.some.inj hmem ▸ readsBody body h

end

end Parser

end ScriptEngine
