import ScriptEngine.Proofs.Program.Code
import ScriptEngine.Proofs.Program.Parallel
import ScriptEngine.Proofs.Program.Writing

/-!
# Grammatical code

What the grammar promises of a tree at every depth, the bodies of subs and blocks included: names
are identifiers and no keywords, what is assigned or stepped is a name, an index or a member, and no
function stands among the expressions.
-/

namespace ScriptEngine

/-- What is asked of an expression apart from the code in it. -/
def Expr.IsRegular : Expr → Prop
  | .name _ word => IsName word
  | .function _ _ _ => False
  | .step _ _ target _ => target.isAssignable
  | _ => True

/-- What is asked of a statement apart from the code in it. -/
def Stmt.IsRegular : Stmt → Prop
  | .declare _ name _ => IsName name
  | .sub _ name parameters _ => IsName name ∧ ∀ parameter ∈ parameters, IsName parameter
  | .each _ name _ _ => IsName name
  | .assign _ target _ => target.isAssignable
  | .step _ _ target _ => target.isAssignable
  | _ => True

namespace Code

def IsRegular : Code → Prop
  | .expression tree => tree.IsRegular
  | .statement tree => tree.IsRegular

/-- The code is regular, and so are all parts of it and of the callables that it makes. -/
inductive IsGrammatical : Code → Prop
  | intro {whole : Code} (hwhole : whole.IsRegular)
      (hparts : ∀ part ∈ whole.parts, IsGrammatical part)
      (hmade : ∀ made ∈ whole.made?, ∀ part ∈ made.parts, IsGrammatical part) : IsGrammatical whole

def AreGrammatical (parts : List Code) : Prop :=
  ∀ part ∈ parts, part.IsGrammatical

end Code

def Expr.IsGrammatical (tree : Expr) : Prop :=
  (Code.expression tree).IsGrammatical

def Stmt.IsGrammatical (tree : Stmt) : Prop :=
  (Code.statement tree).IsGrammatical

/-- The body of the callable is grammatical. -/
def Callable.IsGrammatical (made : Callable) : Prop :=
  Code.AreGrammatical made.parts

/-- The body of every callable in the heap is grammatical. -/
def Heap.IsGrammatical (heap : Heap) : Prop :=
  ∀ callable ∈ heap.functions, callable.IsGrammatical

namespace Code

section

variable {whole : Code} {callable : Callable}

theorem IsGrammatical.isRegular (h : whole.IsGrammatical) : whole.IsRegular := by
  cases h with
  | intro hwhole _ _ => exact hwhole

theorem IsGrammatical.parts (h : whole.IsGrammatical) : AreGrammatical whole.parts := by
  cases h with
  | intro _ hparts _ => exact hparts

theorem IsGrammatical.made (h : whole.IsGrammatical) (hmade : whole.made? = some callable) :
    callable.IsGrammatical := by
  cases h with
  | intro _ _ hcallables => exact hcallables callable hmade

/-- Code that makes no callable is grammatical if its parts are. -/
theorem IsGrammatical.of_parts (hwhole : whole.IsRegular) (hnone : whole.made? = none)
    (hparts : AreGrammatical whole.parts) : whole.IsGrammatical := by
  refine .intro hwhole hparts fun made hmade => ?_
  rw [hnone] at hmade
  exact absurd hmade (Option.not_mem_none made)

/-- Code that only makes a callable is grammatical if the body of that is. -/
theorem IsGrammatical.of_made (hwhole : whole.IsRegular) (hmade : whole.made? = some callable)
    (hnone : whole.parts = []) (hbody : callable.IsGrammatical) : whole.IsGrammatical := by
  refine .intro hwhole (fun part hpart => ?_) fun other hother => ?_
  · rw [hnone] at hpart
    exact absurd hpart List.not_mem_nil
  · rw [hmade] at hother
    obtain rfl := Option.mem_some_iff.mp hother
    exact hbody

end

namespace AreGrammatical

variable {part : Code} {parts others : List Code}

@[simp]
theorem nil : AreGrammatical [] :=
  nofun

theorem cons (hpart : part.IsGrammatical) (hparts : AreGrammatical parts) :
    AreGrammatical (part :: parts) :=
  List.forall_mem_cons.mpr ⟨hpart, hparts⟩

theorem one (h : part.IsGrammatical) : AreGrammatical [part] :=
  .cons h .nil

@[simp]
theorem cons_iff : AreGrammatical (part :: parts) ↔ part.IsGrammatical ∧ AreGrammatical parts :=
  List.forall_mem_cons

@[simp]
theorem append_iff :
    AreGrammatical (parts ++ others) ↔ AreGrammatical parts ∧ AreGrammatical others :=
  List.forall_mem_append

end AreGrammatical

end Code

open Code

namespace Parser

/-- The target that is put together again has nothing in it but the parts of the callee and of the
argument. -/
theorem isGrammatical_reattach {callee argument target : Expr} (hcallee : callee.IsGrammatical)
    (hargument : argument.IsGrammatical) (h : reattach callee argument = some target) :
    target.IsGrammatical := by
  fun_induction reattach callee argument generalizing target with
  | case1 position index =>
      have hindex : AreGrammatical [.expression index] := hargument.parts
      rw [← Option.some.inj h]
      exact .of_parts trivial rfl (.cons hcallee hindex)
  | case2 position object index ih =>
      have hinner : AreGrammatical [.expression object, .expression index] := hargument.parts
      rw [AreGrammatical.cons_iff] at hinner
      obtain ⟨inner, hreattach, rfl⟩ := Option.map_eq_some_iff.mp h
      have htarget := ih hinner.1 hreattach
      exact .of_parts trivial rfl (.cons htarget hinner.2)
  | case3 position object property ih =>
      have hinner : AreGrammatical [.expression object] := hargument.parts
      obtain ⟨inner, hreattach, rfl⟩ := Option.map_eq_some_iff.mp h
      have htarget := ih (AreGrammatical.cons_iff.mp hinner).1 hreattach
      exact .of_parts trivial rfl (.one htarget)
  | case4 => cases h

theorem isGrammatical_guardedBy (kind : TokenKind) {simple : Stmt} {condition : Expr}
    (hsimple : simple.IsGrammatical) (hcondition : condition.IsGrammatical) :
    (guardedBy kind simple condition).IsGrammatical := by
  have hparts : AreGrammatical [.expression condition, .statement simple] := by
    rw [AreGrammatical.cons_iff, AreGrammatical.cons_iff]
    exact ⟨hcondition, hsimple, .nil⟩
  unfold guardedBy
  split <;> exact .of_parts trivial rfl hparts

end Parser

end ScriptEngine
