import ScriptEngine.Proofs.Program.Code
import ScriptEngine.Proofs.Program.Relocation

/-!
# The nodes of programs

The places of a program are those of its nodes, among them the nodes in the bodies of its subs and
blocks. Places that none of them has can be moved without any change to the program.
-/

namespace ScriptEngine

namespace Code

def position : Code → Position
  | expression tree => tree.position
  | statement tree => tree.position

/-- The code has a node in it, be it in the body of a sub or block. -/
inductive Encloses : Code → Code → Prop
  | refl (node : Code) : Encloses node node
  | part {whole part node : Code} (hpart : part ∈ whole.parts) (h : Encloses part node) :
      Encloses whole node
  | body {whole part node : Code} {made : Callable} (hmade : whole.made? = some made)
      (hpart : part ∈ made.parts) (h : Encloses part node) : Encloses whole node

/-- A node in the code is at the place. -/
def HasPlace (code : Code) (position : Position) : Prop :=
  ∃ node, code.Encloses node ∧ node.position = position

end Code

def Callable.HasPlace (callable : Callable) (position : Position) : Prop :=
  ∃ part ∈ callable.parts, part.HasPlace position

/-- A node in the body of a function that is stored is at the place. -/
def Heap.HasPlace (heap : Heap) (position : Position) : Prop :=
  ∃ callable ∈ heap.functions, callable.HasPlace position

variable {move : Position → Position}

namespace Code

/-- The places in the code stay where they are. -/
def IsFixed (move : Position → Position) (code : Code) : Prop :=
  ∀ position, code.HasPlace position → move position = position

def AreFixed (move : Position → Position) (parts : List Code) : Prop :=
  ∀ part ∈ parts, part.IsFixed move

theorem isFixed_id (code : Code) : code.IsFixed id :=
  fun _ _ => rfl

theorem areFixed_id (parts : List Code) : AreFixed id parts :=
  fun part _ => part.isFixed_id

namespace AreFixed

@[simp]
theorem cons_iff {part : Code} {rest : List Code} :
    AreFixed move (part :: rest) ↔ part.IsFixed move ∧ AreFixed move rest :=
  List.forall_mem_cons

@[simp]
theorem append_iff {first second : List Code} :
    AreFixed move (first ++ second) ↔ AreFixed move first ∧ AreFixed move second :=
  List.forall_mem_append

end AreFixed

namespace IsFixed

variable {whole : Code} (h : whole.IsFixed move)
include h

theorem position_eq : move whole.position = whole.position :=
  h whole.position ⟨whole, .refl whole, rfl⟩

theorem parts : AreFixed move whole.parts := by
  rintro part hpart position ⟨node, hnode, rfl⟩
  exact h node.position ⟨node, .part hpart hnode, rfl⟩

theorem body {made : Callable} (hmade : whole.made? = some made) :
    AreFixed move made.parts := by
  rintro part hpart position ⟨node, hnode, rfl⟩
  exact h node.position ⟨node, .body hmade hpart hnode, rfl⟩

end IsFixed

end Code

open Code.AreFixed

mutual

theorem Expr.relocate_eq_self : ∀ tree : Expr,
    Code.IsFixed move (.expression tree) → tree.relocate move = tree
  | .number _ _, h => congrArg (Expr.number · _) h.position_eq
  | .string _ _, h => congrArg (Expr.string · _) h.position_eq
  | .boolean _ _, h => congrArg (Expr.boolean · _) h.position_eq
  | .nil _, h => congrArg Expr.nil h.position_eq
  | .array position elements, h => by
    have hposition : move position = position := h.position_eq
    rw [Expr.relocate, hposition, Expr.relocateAll_eq_self elements h.parts]
  | .hash position entries, h => by
    have hposition : move position = position := h.position_eq
    rw [Expr.relocate, hposition, Entry.relocateAll_eq_self entries h.parts]
  | .name _ _, h => congrArg (Expr.name · _) h.position_eq
  | .index position object index, h => by
    have hposition : move position = position := h.position_eq
    obtain ⟨hobject, hrest⟩ := cons_iff.mp h.parts
    have hindex := (cons_iff.mp hrest).1
    rw [Expr.relocate, hposition, Expr.relocate_eq_self object hobject,
      Expr.relocate_eq_self index hindex]
  | .member position object property, h => by
    have hposition : move position = position := h.position_eq
    have hobject := (cons_iff.mp h.parts).1
    rw [Expr.relocate, hposition, Expr.relocate_eq_self object hobject]
  | .call position callee arguments, h => by
    have hposition : move position = position := h.position_eq
    obtain ⟨hcallee, harguments⟩ := cons_iff.mp h.parts
    rw [Expr.relocate, hposition, Expr.relocate_eq_self callee hcallee,
      Expr.relocateAll_eq_self arguments harguments]
  | .unary position operator operand, h => by
    have hposition : move position = position := h.position_eq
    have hoperand := (cons_iff.mp h.parts).1
    rw [Expr.relocate, hposition, Expr.relocate_eq_self operand hoperand]
  | .binary position operator left right, h => by
    have hposition : move position = position := h.position_eq
    obtain ⟨hleft, hrest⟩ := cons_iff.mp h.parts
    have hright := (cons_iff.mp hrest).1
    rw [Expr.relocate, hposition, Expr.relocate_eq_self left hleft,
      Expr.relocate_eq_self right hright]
  | .block position body, h => by
    have hposition : move position = position := h.position_eq
    have hbody := (cons_iff.mp (h.body rfl)).1
    rw [Expr.relocate, hposition, Expr.relocate_eq_self body hbody]
  | .function position parameters body, h => by
    have hposition : move position = position := h.position_eq
    rw [Expr.relocate, hposition, Stmt.relocateAll_eq_self body (h.body rfl)]
  | .step position direction target amount, h => by
    have hposition : move position = position := h.position_eq
    obtain ⟨htarget, hamount⟩ := cons_iff.mp h.parts
    rw [Expr.relocate, hposition, Expr.relocate_eq_self target htarget,
      Expr.relocateOptional_eq_self amount hamount]

theorem Expr.relocateAll_eq_self : ∀ expressions : List Expr,
    Code.AreFixed move (Code.ofExpressions expressions) →
      Expr.relocateAll move expressions = expressions
  | [], _ => rfl
  | expression :: rest, h => by
    obtain ⟨hhead, hrest⟩ := cons_iff.mp h
    rw [Expr.relocateAll, Expr.relocate_eq_self expression hhead,
      Expr.relocateAll_eq_self rest hrest]

theorem Expr.relocateOptional_eq_self : ∀ expression : Option Expr,
    Code.AreFixed move (Code.ofOptional expression) →
      Expr.relocateOptional move expression = expression
  | none, _ => rfl
  | some expression, h => by
    rw [Expr.relocateOptional, Expr.relocate_eq_self expression (cons_iff.mp h).1]

theorem Entry.relocateAll_eq_self : ∀ entries : List Entry,
    Code.AreFixed move (Code.ofEntries entries) → Entry.relocateAll move entries = entries
  | [], _ => rfl
  | .mk key value :: rest, h => by
    obtain ⟨hkey, hothers⟩ := cons_iff.mp h
    obtain ⟨hvalue, hrest⟩ := cons_iff.mp hothers
    rw [Entry.relocateAll, Expr.relocate_eq_self key hkey, Expr.relocate_eq_self value hvalue,
      Entry.relocateAll_eq_self rest hrest]

theorem Stmt.relocate_eq_self : ∀ tree : Stmt,
    Code.IsFixed move (.statement tree) → tree.relocate move = tree
  | .declare position name value, h => by
    have hposition : move position = position := h.position_eq
    rw [Stmt.relocate, hposition, Expr.relocateOptional_eq_self value h.parts]
  | .sub position name parameters body, h => by
    have hposition : move position = position := h.position_eq
    rw [Stmt.relocate, hposition, Stmt.relocateAll_eq_self body (h.body rfl)]
  | .conditional position sense condition body alternatives fallback, h => by
    have hposition : move position = position := h.position_eq
    obtain ⟨hothers, hfallback⟩ := append_iff.mp h.parts
    obtain ⟨hguarded, halternatives⟩ := append_iff.mp hothers
    obtain ⟨hcondition, hbody⟩ := cons_iff.mp hguarded
    rw [Stmt.relocate, hposition, Expr.relocate_eq_self condition hcondition,
      Stmt.relocateAll_eq_self body hbody, Branch.relocateAll_eq_self alternatives halternatives,
      Stmt.relocateFallback_eq_self fallback hfallback]
  | .loop position sense condition body, h => by
    have hposition : move position = position := h.position_eq
    obtain ⟨hcondition, hbody⟩ := cons_iff.mp h.parts
    rw [Stmt.relocate, hposition, Expr.relocate_eq_self condition hcondition,
      Stmt.relocateAll_eq_self body hbody]
  | .postLoop position sense body condition, h => by
    have hposition : move position = position := h.position_eq
    obtain ⟨hcondition, hbody⟩ := cons_iff.mp h.parts
    rw [Stmt.relocate, hposition, Expr.relocate_eq_self condition hcondition,
      Stmt.relocateAll_eq_self body hbody]
  | .each position name iterable body, h => by
    have hposition : move position = position := h.position_eq
    obtain ⟨hiterable, hbody⟩ := cons_iff.mp h.parts
    rw [Stmt.relocate, hposition, Expr.relocate_eq_self iterable hiterable,
      Stmt.relocateAll_eq_self body hbody]
  | .choose position cases fallback, h => by
    have hposition : move position = position := h.position_eq
    obtain ⟨hcases, hfallback⟩ := append_iff.mp h.parts
    rw [Stmt.relocate, hposition, Branch.relocateAll_eq_self cases hcases,
      Stmt.relocateFallback_eq_self fallback hfallback]
  | .compare position subject cases fallback, h => by
    have hposition : move position = position := h.position_eq
    obtain ⟨hothers, hfallback⟩ := append_iff.mp h.parts
    obtain ⟨hsubject, hcases⟩ := cons_iff.mp hothers
    rw [Stmt.relocate, hposition, Expr.relocate_eq_self subject hsubject,
      Branch.relocateAll_eq_self cases hcases, Stmt.relocateFallback_eq_self fallback hfallback]
  | .call position callee arguments, h => by
    have hposition : move position = position := h.position_eq
    obtain ⟨hcallee, harguments⟩ := cons_iff.mp h.parts
    rw [Stmt.relocate, hposition, Expr.relocate_eq_self callee hcallee,
      Expr.relocateAll_eq_self arguments harguments]
  | .returns position value, h => by
    have hposition : move position = position := h.position_eq
    rw [Stmt.relocate, hposition, Expr.relocateOptional_eq_self value h.parts]
  | .assign position target value, h => by
    have hposition : move position = position := h.position_eq
    obtain ⟨htarget, hrest⟩ := cons_iff.mp h.parts
    have hvalue := (cons_iff.mp hrest).1
    rw [Stmt.relocate, hposition, Expr.relocate_eq_self target htarget,
      Expr.relocate_eq_self value hvalue]
  | .breaks _, h => congrArg Stmt.breaks h.position_eq
  | .next _, h => congrArg Stmt.next h.position_eq
  | .step position direction target amount, h => by
    have hposition : move position = position := h.position_eq
    obtain ⟨htarget, hamount⟩ := cons_iff.mp h.parts
    rw [Stmt.relocate, hposition, Expr.relocate_eq_self target htarget,
      Expr.relocateOptional_eq_self amount hamount]

theorem Stmt.relocateAll_eq_self : ∀ statements : List Stmt,
    Code.AreFixed move (Code.ofBody statements) → Stmt.relocateAll move statements = statements
  | [], _ => rfl
  | statement :: rest, h => by
    obtain ⟨hhead, hrest⟩ := cons_iff.mp h
    rw [Stmt.relocateAll, Stmt.relocate_eq_self statement hhead,
      Stmt.relocateAll_eq_self rest hrest]

theorem Branch.relocateAll_eq_self : ∀ branches : List Branch,
    Code.AreFixed move (Code.ofBranches branches) → Branch.relocateAll move branches = branches
  | [], _ => rfl
  | .mk condition body :: rest, h => by
    obtain ⟨hguarded, hrest⟩ := append_iff.mp h
    obtain ⟨hcondition, hbody⟩ := cons_iff.mp hguarded
    rw [Branch.relocateAll, Expr.relocate_eq_self condition hcondition,
      Stmt.relocateAll_eq_self body hbody, Branch.relocateAll_eq_self rest hrest]

theorem Stmt.relocateFallback_eq_self : ∀ body : Option (List Stmt),
    Code.AreFixed move (Code.ofFallback body) → Stmt.relocateFallback move body = body
  | none, _ => rfl
  | some body, h => congrArg some (Stmt.relocateAll_eq_self body h)

end

theorem Expr.relocate_id (expression : Expr) : expression.relocate id = expression :=
  expression.relocate_eq_self (Code.isFixed_id _)

theorem Expr.relocateAll_id (expressions : List Expr) : relocateAll id expressions = expressions :=
  relocateAll_eq_self expressions (Code.areFixed_id _)

theorem Entry.relocateAll_id (entries : List Entry) : relocateAll id entries = entries :=
  relocateAll_eq_self entries (Code.areFixed_id _)

theorem Stmt.relocate_id (statement : Stmt) : statement.relocate id = statement :=
  statement.relocate_eq_self (Code.isFixed_id _)

theorem Stmt.relocateAll_id (statements : List Stmt) : relocateAll id statements = statements :=
  relocateAll_eq_self statements (Code.areFixed_id _)

end ScriptEngine
