import ScriptEngine.Proofs.Program.Code

/-!
# Where control transfers stand

Code is placed well if each `return` in it is inside the body of a sub, and each `break` and `next`
inside the body of a loop without the body of a sub in between.
-/

namespace ScriptEngine

/-- What is around a statement: the body of a sub, and the body of a loop with no sub in between. -/
structure Place where
  inSub : Bool
  inLoop : Bool
deriving DecidableEq, Repr

namespace Place

/-- The place of the statements of a program. -/
def outermost : Place :=
  ⟨false, false⟩

def subBody : Place :=
  ⟨true, false⟩

def loopBody (place : Place) : Place :=
  { place with inLoop := true }

end Place

mutual

/-- What an expression has in the subs that it makes is placed well. -/
def Expr.isPlaced : Expr → Bool
  | .number _ _ => true
  | .string _ _ => true
  | .boolean _ _ => true
  | .nil _ => true
  | .array _ elements => Expr.arePlaced elements
  | .hash _ entries => Entry.arePlaced entries
  | .name _ _ => true
  | .index _ object place => object.isPlaced && place.isPlaced
  | .member _ object _ => object.isPlaced
  | .call _ callee arguments => callee.isPlaced && Expr.arePlaced arguments
  | .unary _ _ operand => operand.isPlaced
  | .binary _ _ left right => left.isPlaced && right.isPlaced
  | .block _ body => body.isPlaced
  | .function _ _ body => Stmt.arePlaced .subBody body
  | .step _ _ target amount => target.isPlaced && Expr.isPlacedOptional amount

def Expr.arePlaced : List Expr → Bool
  | [] => true
  | expression :: rest => expression.isPlaced && Expr.arePlaced rest

def Expr.isPlacedOptional : Option Expr → Bool
  | none => true
  | some expression => expression.isPlaced

def Entry.arePlaced : List Entry → Bool
  | [] => true
  | .mk key value :: rest => key.isPlaced && value.isPlaced && Entry.arePlaced rest

/-- The statement may stand at a place. -/
def Stmt.isPlaced (place : Place) : Stmt → Bool
  | .declare _ _ value => Expr.isPlacedOptional value
  | .sub _ _ _ body => Stmt.arePlaced .subBody body
  | .conditional _ _ condition body alternatives fallback =>
    condition.isPlaced && Stmt.arePlaced place body && Branch.arePlaced place alternatives &&
      Stmt.isPlacedFallback place fallback
  | .loop _ _ condition body => condition.isPlaced && Stmt.arePlaced place.loopBody body
  | .postLoop _ _ body condition => condition.isPlaced && Stmt.arePlaced place.loopBody body
  | .each _ _ iterable body => iterable.isPlaced && Stmt.arePlaced place.loopBody body
  | .choose _ cases fallback =>
    Branch.arePlaced place cases && Stmt.isPlacedFallback place fallback
  | .compare _ subject cases fallback =>
    subject.isPlaced && Branch.arePlaced place cases && Stmt.isPlacedFallback place fallback
  | .call _ callee arguments => callee.isPlaced && Expr.arePlaced arguments
  | .returns _ value => place.inSub && Expr.isPlacedOptional value
  | .assign _ target value => target.isPlaced && value.isPlaced
  | .breaks _ => place.inLoop
  | .next _ => place.inLoop
  | .step _ _ target amount => target.isPlaced && Expr.isPlacedOptional amount

def Stmt.arePlaced (place : Place) : List Stmt → Bool
  | [] => true
  | statement :: rest => statement.isPlaced place && Stmt.arePlaced place rest

def Branch.arePlaced (place : Place) : List Branch → Bool
  | [] => true
  | .mk condition body :: rest =>
    condition.isPlaced && Stmt.arePlaced place body && Branch.arePlaced place rest

def Stmt.isPlacedFallback (place : Place) : Option (List Stmt) → Bool
  | none => true
  | some body => Stmt.arePlaced place body

end

theorem Stmt.isPlaced_of_mem {place : Place} {body : List Stmt} (h : Stmt.arePlaced place body)
    {statement : Stmt} (hstatement : statement ∈ body) : statement.isPlaced place := by
  induction body with
  | nil => exact absurd hstatement List.not_mem_nil
  | cons head rest ih =>
      rw [Stmt.arePlaced, Bool.and_eq_true] at h
      rcases List.mem_cons.mp hstatement with rfl | hrest
      · exact h.1
      · exact ih h.2 hrest

/-- What the callable has in its body is placed well. -/
def Callable.isPlaced : Callable → Bool
  | sub _ _ body => Stmt.arePlaced .subBody body
  | block body => body.isPlaced
  | native _ => true

/-- The code is placed well, a statement for some place. -/
def Code.IsPlaced : Code → Prop
  | .expression tree => tree.isPlaced
  | .statement tree => ∃ place, tree.isPlaced place

namespace Code

variable {place : Place}

@[simp]
theorem isPlaced_expression (tree : Expr) : (expression tree).IsPlaced ↔ tree.isPlaced :=
  Iff.rfl

theorem isPlaced_ofExpressions {expressions : List Expr} (h : Expr.arePlaced expressions) :
    ∀ part ∈ ofExpressions expressions, part.IsPlaced := by
  induction expressions with
  | nil => simp [ofExpressions]
  | cons head rest ih =>
      rw [Expr.arePlaced, Bool.and_eq_true] at h
      rw [ofExpressions_cons, List.forall_mem_cons]
      exact ⟨h.1, ih h.2⟩

theorem isPlaced_ofOptional {expression : Option Expr} (h : Expr.isPlacedOptional expression) :
    ∀ part ∈ ofOptional expression, part.IsPlaced := by
  cases expression with
  | none => simp [ofOptional, ofExpressions]
  | some expression => simpa [ofOptional, ofExpressions, Expr.isPlacedOptional] using h

theorem isPlaced_ofEntries {entries : List Entry} (h : Entry.arePlaced entries) :
    ∀ part ∈ ofEntries entries, part.IsPlaced := by
  induction entries with
  | nil => simp [ofEntries]
  | cons entry rest ih =>
      obtain ⟨key, value⟩ := entry
      simp only [Entry.arePlaced, Bool.and_eq_true] at h
      rw [ofEntries_cons, List.forall_mem_cons, List.forall_mem_cons]
      exact ⟨h.1.1, h.1.2, ih h.2⟩

theorem isPlaced_ofBody {body : List Stmt} (h : Stmt.arePlaced place body) :
    ∀ part ∈ ofBody body, part.IsPlaced := by
  intro part hpart
  obtain ⟨tree, htree, rfl⟩ := List.mem_map.mp hpart
  exact ⟨place, Stmt.isPlaced_of_mem h htree⟩

theorem isPlaced_ofBranches {branches : List Branch} (h : Branch.arePlaced place branches) :
    ∀ part ∈ ofBranches branches, part.IsPlaced := by
  induction branches with
  | nil => simp [ofBranches]
  | cons branch rest ih =>
      obtain ⟨condition, body⟩ := branch
      simp only [Branch.arePlaced, Bool.and_eq_true] at h
      rw [ofBranches_cons, List.forall_mem_append, List.forall_mem_cons]
      exact ⟨⟨h.1.1, isPlaced_ofBody h.1.2⟩, ih h.2⟩

theorem isPlaced_ofFallback {fallback : Option (List Stmt)}
    (h : Stmt.isPlacedFallback place fallback) :
    ∀ part ∈ ofFallback fallback, part.IsPlaced := by
  cases fallback with
  | none => simp [ofFallback, ofBody]
  | some body => exact isPlaced_ofBody h

end Code

open Code

theorem Expr.isPlaced_parts {whole : Expr} (h : whole.isPlaced) :
    ∀ part ∈ whole.parts, part.IsPlaced := by
  cases whole with
  | array _ elements => exact isPlaced_ofExpressions h
  | hash _ entries => exact isPlaced_ofEntries h
  | call _ callee arguments =>
      simp only [isPlaced, Bool.and_eq_true] at h
      rw [parts, List.forall_mem_cons]
      exact ⟨h.1, isPlaced_ofExpressions h.2⟩
  | step _ _ target amount =>
      simp only [isPlaced, Bool.and_eq_true] at h
      rw [parts, List.forall_mem_cons]
      exact ⟨h.1, isPlaced_ofOptional h.2⟩
  | _ => simp_all [isPlaced, parts]

theorem Stmt.isPlaced_parts {place : Place} {whole : Stmt} (h : whole.isPlaced place) :
    ∀ part ∈ whole.parts, part.IsPlaced := by
  cases whole with
  | declare _ _ value => exact isPlaced_ofOptional h
  | sub => simp [parts]
  | conditional _ _ condition body alternatives fallback =>
      simp only [isPlaced, Bool.and_eq_true] at h
      obtain ⟨⟨⟨hcondition, hbody⟩, halternatives⟩, hfallback⟩ := h
      rw [parts, List.forall_mem_append, List.forall_mem_append, List.forall_mem_cons]
      exact ⟨⟨⟨hcondition, isPlaced_ofBody hbody⟩, isPlaced_ofBranches halternatives⟩,
        isPlaced_ofFallback hfallback⟩
  | loop _ _ condition body =>
      simp only [isPlaced, Bool.and_eq_true] at h
      rw [parts, List.forall_mem_cons]
      exact ⟨h.1, isPlaced_ofBody h.2⟩
  | postLoop _ _ body condition =>
      simp only [isPlaced, Bool.and_eq_true] at h
      rw [parts, List.forall_mem_cons]
      exact ⟨h.1, isPlaced_ofBody h.2⟩
  | each _ _ iterable body =>
      simp only [isPlaced, Bool.and_eq_true] at h
      rw [parts, List.forall_mem_cons]
      exact ⟨h.1, isPlaced_ofBody h.2⟩
  | choose _ cases fallback =>
      simp only [isPlaced, Bool.and_eq_true] at h
      rw [parts, List.forall_mem_append]
      exact ⟨isPlaced_ofBranches h.1, isPlaced_ofFallback h.2⟩
  | compare _ subject cases fallback =>
      simp only [isPlaced, Bool.and_eq_true] at h
      rw [parts, List.forall_mem_append, List.forall_mem_cons]
      exact ⟨⟨h.1.1, isPlaced_ofBranches h.1.2⟩, isPlaced_ofFallback h.2⟩
  | call _ callee arguments =>
      simp only [isPlaced, Bool.and_eq_true] at h
      rw [parts, List.forall_mem_cons]
      exact ⟨h.1, isPlaced_ofExpressions h.2⟩
  | returns _ value =>
      simp only [isPlaced, Bool.and_eq_true] at h
      exact isPlaced_ofOptional h.2
  | assign _ target value =>
      simp only [isPlaced, Bool.and_eq_true] at h
      simpa [parts] using h
  | breaks => simp [parts]
  | next => simp [parts]
  | step _ _ target amount =>
      simp only [isPlaced, Bool.and_eq_true] at h
      rw [parts, List.forall_mem_cons]
      exact ⟨h.1, isPlaced_ofOptional h.2⟩

namespace Code

theorem IsPlaced.part {whole part : Code} (h : whole.IsPlaced) (hpart : part ∈ whole.parts) :
    part.IsPlaced := by
  cases whole with
  | expression whole => exact whole.isPlaced_parts h part hpart
  | statement whole =>
      obtain ⟨place, hplace⟩ := h
      exact whole.isPlaced_parts hplace part hpart

theorem IsPlaced.made {whole : Code} {made : Callable} (h : whole.IsPlaced)
    (hmade : whole.made? = some made) : made.isPlaced := by
  unfold made? at hmade
  split at hmade
  · rw [← Option.some.inj hmade]
    exact h
  · rw [← Option.some.inj hmade]
    exact h
  · rw [← Option.some.inj hmade]
    exact h.choose_spec
  · simp at hmade

end Code

theorem Callable.isPlaced_parts {made : Callable} (h : made.isPlaced) :
    ∀ part ∈ made.parts, part.IsPlaced := by
  cases made with
  | sub _ _ body => exact isPlaced_ofBody h
  | block body => simpa [parts, isPlaced] using h
  | native => simp [parts]

end ScriptEngine
