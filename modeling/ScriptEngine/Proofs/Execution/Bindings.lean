import ScriptEngine.Execution.Scopes

/-!
# Bindings

What a name stands for after a change of the scopes, and properties that all values of the scopes
have. Values come into scopes only by being bound or assigned.
-/

namespace ScriptEngine

namespace Frame

theorem find?_cons (name other : String) (value : Value) (rest : Frame) :
    Frame.find? ((name, value) :: rest) other =
      if other = name then some value else rest.find? other := by
  rw [find?, List.lookup_cons]
  by_cases hname : other = name
  · rw [beq_iff_eq.mpr hname, if_pos hname]
  · rw [beq_eq_false_iff_ne.mpr hname, if_neg hname]
    rfl

theorem find?_update (frame : Frame) (name other : String) (value : Value) :
    (frame.update name value).find? other =
      if other = name then (frame.find? other).map fun _ => value else frame.find? other := by
  induction frame with
  | nil => simp [update, find?]
  | cons binding rest ih =>
      obtain ⟨head, stored⟩ := binding
      have hupdate : Frame.update ((head, stored) :: rest) name value =
          (if head = name then (name, value) else (head, stored)) ::
            Frame.update rest name value := by
        simp [update]
      rw [hupdate]
      by_cases hhead : head = name
      · rw [if_pos hhead, find?_cons, find?_cons, ih, hhead]
        split <;> rfl
      · rw [if_neg hhead, find?_cons, find?_cons, ih]
        by_cases hother : other = head
        · have hname : other ≠ name := hother ▸ hhead
          simp only [if_pos hother, if_neg hname]
        · simp only [if_neg hother]

theorem find?_bind (frame : Frame) (name other : String) (value : Value) :
    (frame.bind name value).find? other =
      if other = name then some value else frame.find? other := by
  unfold bind
  by_cases hname : frame.contains name
  · rw [if_pos hname, find?_update]
    split
    · rename_i hother
      obtain ⟨old, hold⟩ := Option.isSome_iff_exists.mp hname
      rw [hother, hold]
      rfl
    · rfl
  · rw [if_neg hname, find?_cons]

end Frame

/-- At top level a name is a global. -/
theorem Scopes.lookup?_of_locals {scopes : Scopes} (h : scopes.locals = []) (name : String) :
    scopes.lookup? name = scopes.global? name := by
  unfold lookup?
  rw [h]
  rfl

/-- All values of a frame have a property. -/
def Frame.All (holds : Value → Prop) (frame : Frame) : Prop :=
  ∀ binding ∈ frame, holds binding.2

namespace Frame.All

variable {holds : Value → Prop} {frame : Frame}

theorem nil : Frame.All holds [] :=
  List.forall_mem_nil _

theorem find? (h : frame.All holds) {name : String} {value : Value}
    (hfound : frame.find? name = some value) : holds value := by
  obtain ⟨before, after, hframe, -⟩ := List.lookup_eq_some_iff.mp hfound
  refine h (name, value) ?_
  rw [hframe]
  exact List.mem_append_right _ List.mem_cons_self

theorem update (h : frame.All holds) (name : String) {value : Value} (hvalue : holds value) :
    (frame.update name value).All holds := by
  intro binding hbinding
  obtain ⟨old, hold, rfl⟩ := List.mem_map.mp hbinding
  split
  · exact hvalue
  · exact h old hold

theorem bind (h : frame.All holds) (name : String) {value : Value} (hvalue : holds value) :
    (frame.bind name value).All holds := by
  unfold Frame.bind
  split
  · exact h.update name hvalue
  · exact List.forall_mem_cons.mpr ⟨hvalue, h⟩

theorem ofList {bindings : List (String × Value)} (h : ∀ binding ∈ bindings, holds binding.2) :
    (Frame.ofList bindings).All holds := by
  have hfold (frame : Frame) (hframe : frame.All holds) :
      (bindings.foldl (fun frame binding => frame.bind binding.1 binding.2) frame).All holds := by
    induction bindings generalizing frame with
    | nil => exact hframe
    | cons binding rest ih =>
        obtain ⟨hbinding, hrest⟩ := List.forall_mem_cons.mp h
        exact ih hrest _ (hframe.bind _ hbinding)
  exact hfold [] nil

end Frame.All

/-- All values of the frames have a property. -/
structure Scopes.All (holds : Value → Prop) (scopes : Scopes) : Prop where
  globals : scopes.globals.All holds
  locals : ∀ frame ∈ scopes.locals, Frame.All holds frame

namespace Scopes.All

variable {holds : Value → Prop} {scopes : Scopes} (h : scopes.All holds)
include h

theorem imp {weaker : Value → Prop} (himp : ∀ value, holds value → weaker value) :
    scopes.All weaker :=
  ⟨fun binding hbinding => himp _ (h.globals binding hbinding),
    fun frame hframe binding hbinding => himp _ (h.locals frame hframe binding hbinding)⟩

theorem lookup? {name : String} {value : Value} (hfound : scopes.lookup? name = some value) :
    holds value := by
  unfold Scopes.lookup? at hfound
  cases hlocal : scopes.locals.findSome? fun frame => frame.find? name with
  | some found =>
      rw [hlocal] at hfound
      obtain ⟨frame, hframe, hvalue⟩ := List.exists_of_findSome?_eq_some hlocal
      exact (h.locals frame hframe).find? (hvalue.trans hfound)
  | none =>
      rw [hlocal] at hfound
      exact h.globals.find? hfound

theorem defineGlobal (name : String) {value : Value} (hvalue : holds value) :
    (scopes.defineGlobal name value).All holds :=
  ⟨h.globals.bind name hvalue, h.locals⟩

theorem bind (name : String) {value : Value} (hvalue : holds value) :
    (scopes.bind name value).All holds := by
  unfold Scopes.bind
  split
  · rename_i frame outer hlocals
    have hframes := h.locals
    rw [hlocals, List.forall_mem_cons] at hframes
    exact ⟨h.globals, List.forall_mem_cons.mpr ⟨hframes.1.bind name hvalue, hframes.2⟩⟩
  · exact h.defineGlobal name hvalue

theorem declare? {name : String} {value : Value} (hvalue : holds value) {after : Scopes}
    (hafter : scopes.declare? name value = some after) : after.All holds := by
  unfold Scopes.declare? at hafter
  split at hafter
  · simp at hafter
  · rw [← Option.some.inj hafter]
    exact h.bind name hvalue

omit h in
theorem assignIn {name : String} {value : Value} (hvalue : holds value) {frames after : List Frame}
    (hframes : ∀ frame ∈ frames, Frame.All holds frame)
    (hafter : Scopes.assignIn name value frames = some after) :
    ∀ frame ∈ after, Frame.All holds frame := by
  induction frames generalizing after with
  | nil => simp [Scopes.assignIn] at hafter
  | cons frame outer ih =>
      obtain ⟨hframe, houter⟩ := List.forall_mem_cons.mp hframes
      unfold Scopes.assignIn at hafter
      split at hafter
      · rw [← Option.some.inj hafter]
        exact List.forall_mem_cons.mpr ⟨hframe.update name hvalue, houter⟩
      · obtain ⟨changed, hchanged, rfl⟩ := Option.map_eq_some_iff.mp hafter
        exact List.forall_mem_cons.mpr ⟨hframe, ih houter hchanged⟩

theorem assign? {name : String} {value : Value} (hvalue : holds value) {after : Scopes}
    (hafter : scopes.assign? name value = some after) : after.All holds := by
  unfold Scopes.assign? at hafter
  split at hafter
  · rename_i locals hlocals
    rw [← Option.some.inj hafter]
    exact ⟨h.globals, assignIn hvalue h.locals hlocals⟩
  · split at hafter
    · rw [← Option.some.inj hafter]
      exact ⟨h.globals.update name hvalue, h.locals⟩
    · simp at hafter

end Scopes.All

end ScriptEngine
