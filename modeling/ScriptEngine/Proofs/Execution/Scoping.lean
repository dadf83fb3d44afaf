import ScriptEngine.Proofs.Execution.Quiet

/-!
# Sequences of operations on scopes

Reading a name and writing it find the same frame, and a write changes one binding only. Frames that
are put aside when a call is entered are not touched until they are restored, so that a sequence in
which every call that is entered is left again gives the caller its frames back; of the globals it
takes nothing back.
-/

namespace ScriptEngine

namespace Scopes

variable {scopes after : Scopes} {name : String} {value : Value} {level : Nat}

/-! ### Reading and writing -/

/-- The innermost frame that has a name. -/
def level? (scopes : Scopes) (name : String) : Option Nat :=
  scopes.frames.findIdx? fun frame => frame.contains name

theorem length_frames (scopes : Scopes) : scopes.frames.length = scopes.depth := by
  simp [frames, depth, Nat.add_comm]

theorem binds_iff : scopes.binds level name ↔ ∃ found, scopes.value? level name = some found := by
  unfold binds value? Frame.contains
  cases scopes.frames[level]? with
  | none => simp
  | some frame => simp [Option.isSome_iff_exists]

theorem lt_depth_of_binds (h : scopes.binds level name) : level < scopes.depth := by
  obtain ⟨frame, hframe, -⟩ := (Option.any_eq_true ..).mp h
  exact scopes.length_frames ▸ (List.getElem?_eq_some_iff.mp hframe).1

theorem level?_eq_some_iff : scopes.level? name = some level ↔ scopes.Finds level name := by
  have hbinds {other : Nat} (hother : other < scopes.frames.length) :
      scopes.binds other name = scopes.frames[other].contains name := by
    rw [binds, List.getElem?_eq_getElem hother, Option.any_some]
  rw [level?, List.findIdx?_eq_some_iff_getElem]
  constructor
  · rintro ⟨hlevel, hfound, hinner⟩
    refine ⟨(hbinds hlevel).trans hfound, fun inner hlt => ?_⟩
    rw [hbinds (hlt.trans hlevel)]
    exact hinner inner hlt
  · rintro ⟨hfound, hinner⟩
    have hlevel : level < scopes.frames.length :=
      scopes.length_frames ▸ lt_depth_of_binds hfound
    refine ⟨hlevel, (hbinds hlevel).symm.trans hfound, fun inner hlt => ?_⟩
    rw [← hbinds (hlt.trans hlevel)]
    exact hinner inner hlt

/-- A name is read in the innermost frame that has it. -/
theorem lookup?_eq (scopes : Scopes) (name : String) :
    scopes.lookup? name = (scopes.level? name).bind fun level => scopes.value? level name := by
  have hframes : scopes.lookup? name = scopes.frames.findSome? fun frame => frame.find? name := by
    rw [lookup?, frames, List.findSome?_append]
    simp [global?]
  rw [hframes, level?]
  unfold value?
  induction scopes.frames with
  | nil => rfl
  | cons frame outer ih =>
      rw [List.findSome?_cons, List.findIdx?_cons, Frame.contains]
      cases hfound : frame.find? name with
      | none => simp [ih, Option.bind_map, Frame.contains]
      | some found => simp [hfound]

/-- A name is written in the innermost frame that has it. -/
theorem assign?_eq (scopes : Scopes) (name : String) (value : Value) :
    scopes.assign? name value =
      (scopes.level? name).map fun level => scopes.bindAt level name value := by
  cases hassign : scopes.assign? name value with
  | some after =>
      obtain ⟨level, hlevel, rfl⟩ := exists_of_assign? hassign
      rw [level?_eq_some_iff.mpr hlevel, Option.map_some]
  | none =>
      unfold assign? at hassign
      split at hassign
      · cases hassign
      · next hlocals =>
          split at hassign
          · cases hassign
          · next hglobals =>
              have hnone : scopes.level? name = none := by
                rw [level?, List.findIdx?_eq_none_iff, frames]
                intro frame hframe
                rw [Bool.eq_false_iff]
                intro hcontains
                rcases List.mem_append.mp hframe with hlocal | hglobal
                · obtain ⟨level, hlevel⟩ := List.mem_iff_getElem?.mp hlocal
                  apply not_any_of_assignIn hlocals level
                  rw [hlevel]
                  exact hcontains
                · rw [List.mem_singleton.mp hglobal] at hcontains
                  exact hglobals hcontains
              rw [hnone, Option.map_none]

/-- One binding has got a value, and all others in all frames are as they were. -/
structure Writes (before after : Scopes) (level : Nat) (name : String) (value : Value) : Prop where
  depth : after.depth = before.depth
  values (other : Nat) (found : String) : after.value? other found =
    if other = level ∧ found = name then some value else before.value? other found

theorem writes_bindAt (h : level < scopes.depth) (name : String) (value : Value) :
    scopes.Writes (scopes.bindAt level name value) level name value where
  depth := by rw [← length_frames, ← length_frames, frames_bindAt, List.length_modify]
  values other found := by
    by_cases htarget : other = level ∧ found = name
    · obtain ⟨rfl, rfl⟩ := htarget
      rw [← length_frames] at h
      rw [if_pos ⟨rfl, rfl⟩, value?, frames_bindAt, List.getElem?_modify,
        List.getElem?_eq_getElem h]
      simp [Frame.find?_bind]
    · rw [if_neg htarget]
      exact scopes.value?_bindAt_of_ne value fun hother hfound => htarget ⟨hother, hfound⟩

/-! ### Edits -/

inductive EditKind
  | defineGlobal
  | declare
  | bind
  | assign
deriving DecidableEq

/-- An operation that gives a name a value. -/
structure Edit where
  kind : EditKind
  name : String
  value : Value

/-- The scopes after an edit. A declaration of a name that is there already does nothing, and
neither does an assignment to a name that is nowhere. -/
def edit (scopes : Scopes) (edit : Edit) : Scopes :=
  match edit.kind with
  | .defineGlobal => scopes.defineGlobal edit.name edit.value
  | .declare => (scopes.declare? edit.name edit.value).getD scopes
  | .bind => scopes.bind edit.name edit.value
  | .assign => (scopes.assign? edit.name edit.value).getD scopes

/-- The frame that an edit writes to. -/
def target? (scopes : Scopes) (edit : Edit) : Option Nat :=
  match edit.kind with
  | .defineGlobal => some scopes.locals.length
  | .declare => if scopes.isDeclaredHere edit.name then none else some 0
  | .bind => some 0
  | .assign => scopes.level? edit.name

/-- Every edit binds its name in one frame or does nothing. -/
theorem edit_eq (scopes : Scopes) (change : Edit) : scopes.edit change =
    ((scopes.target? change).map fun level =>
      scopes.bindAt level change.name change.value).getD scopes := by
  obtain ⟨kind, name, value⟩ := change
  unfold edit target?
  cases kind with
  | defineGlobal => simp [defineGlobal, bindAt, List.modify_eq_self]
  | declare =>
      by_cases hdeclared : scopes.isDeclaredHere name <;>
        simp [declare?, hdeclared, bind_eq_bindAt]
  | bind => simp [bind_eq_bindAt]
  | assign => simp [assign?_eq]

theorem lt_depth_of_target? {change : Edit} (h : scopes.target? change = some level) :
    level < scopes.depth := by
  unfold target? at h
  split at h
  · simp [← Option.some.inj h, depth]
  · split at h
    · cases h
    · simp [← Option.some.inj h, depth]
  · simp [← Option.some.inj h, depth]
  · exact lt_depth_of_binds (level?_eq_some_iff.mp h).1

theorem writes_edit {change : Edit} (h : scopes.target? change = some level) :
    scopes.Writes (scopes.edit change) level change.name change.value := by
  rw [edit_eq, h]
  exact writes_bindAt (lt_depth_of_target? h) _ _

theorem edit_of_target?_eq_none {change : Edit} (h : scopes.target? change = none) :
    scopes.edit change = scopes := by
  rw [edit_eq, h]
  rfl

theorem length_locals_edit (scopes : Scopes) (change : Edit) :
    (scopes.edit change).locals.length = scopes.locals.length := by
  rw [edit_eq]
  cases scopes.target? change with
  | none => rfl
  | some level => exact List.length_modify ..

/-! ### Calls -/

/-- The scopes with the frames that callers have put aside, the latest ones first. -/
structure Nesting where
  scopes : Scopes
  saved : List (List Frame)

/-- An operation on scopes. What is restored is one of the rows of frames put aside, whichever. -/
inductive Action
  | edit (change : Edit)
  | enterCall (frame : Frame)
  | restore (index : Nat)

namespace Nesting

def empty : Nesting :=
  ⟨.empty, []⟩

def enter (nesting : Nesting) (frame : Frame) : Nesting :=
  ⟨(nesting.scopes.enterCall frame).1, (nesting.scopes.enterCall frame).2 :: nesting.saved⟩

/-- Frames that are restored are no longer put aside. -/
def leave (nesting : Nesting) (index : Nat) : Nesting :=
  match nesting.saved[index]? with
  | some caller => ⟨nesting.scopes.restore caller, nesting.saved.eraseIdx index⟩
  | none => nesting

def perform (nesting : Nesting) : Action → Nesting
  | .edit change => { nesting with scopes := nesting.scopes.edit change }
  | .enterCall frame => nesting.enter frame
  | .restore index => nesting.leave index

def run (nesting : Nesting) (actions : List Action) : Nesting :=
  actions.foldl perform nesting

variable {nesting : Nesting}

theorem run_cons (nesting : Nesting) (action : Action) (rest : List Action) :
    nesting.run (action :: rest) = (nesting.perform action).run rest := rfl

theorem run_append (nesting : Nesting) (first second : List Action) :
    nesting.run (first ++ second) = (nesting.run first).run second :=
  List.foldl_append

/-- There is one local frame at most, and there was in every caller. -/
structure IsShallow (nesting : Nesting) : Prop where
  active : nesting.scopes.locals.length ≤ 1
  saved : ∀ caller ∈ nesting.saved, caller.length ≤ 1

theorem isShallow_perform (h : nesting.IsShallow) (action : Action) :
    (nesting.perform action).IsShallow := by
  cases action with
  | edit change => exact ⟨(nesting.scopes.length_locals_edit change).trans_le h.active, h.saved⟩
  | enterCall frame =>
      refine ⟨Nat.le_refl 1, fun caller hcaller => ?_⟩
      rcases List.mem_cons.mp hcaller with rfl | hcaller
      · exact h.active
      · exact h.saved caller hcaller
  | restore index =>
      change (nesting.leave index).IsShallow
      unfold leave
      split
      · next caller hcaller =>
          refine ⟨h.saved caller (List.mem_of_getElem? hcaller), fun other hother => ?_⟩
          exact h.saved other (List.mem_of_mem_eraseIdx hother)
      · exact h

theorem isShallow_run (h : nesting.IsShallow) (actions : List Action) :
    (nesting.run actions).IsShallow := by
  induction actions generalizing nesting with
  | nil => exact h
  | cons action rest ih => exact ih (isShallow_perform h action)

/-- Some sequence of operations leads there from empty scopes. -/
def IsReached (nesting : Nesting) : Prop :=
  ∃ actions, nesting = empty.run actions

theorem IsReached.isShallow (h : nesting.IsReached) : nesting.IsShallow := by
  obtain ⟨actions, rfl⟩ := h
  have hempty : empty.IsShallow := ⟨Nat.zero_le 1, fun caller hcaller => nomatch hcaller⟩
  exact isShallow_run hempty actions

end Nesting

/-- Every call that is entered is left again, the latest one first, and no other. -/
inductive IsBalanced : List Action → Prop
  | nil : IsBalanced []
  | edit (change : Edit) {rest : List Action} (hrest : IsBalanced rest) :
      IsBalanced (.edit change :: rest)
  | call (frame : Frame) {body rest : List Action} (hbody : IsBalanced body)
      (hrest : IsBalanced rest) :
      IsBalanced (.enterCall frame :: body ++ .restore 0 :: rest)

namespace Nesting

variable {nesting : Nesting}

/-- A call whose body takes back nothing but what it has put aside itself gives the caller its
frames back. -/
theorem run_call {frame : Frame} {body : List Action}
    (hbody : ((nesting.enter frame).run body).saved = (nesting.enter frame).saved) :
    nesting.run (.enterCall frame :: body ++ [.restore 0]) =
      ⟨⟨((nesting.enter frame).run body).scopes.globals, nesting.scopes.locals⟩,
        nesting.saved⟩ := by
  rw [List.cons_append, run_cons, run_append]
  change ((nesting.enter frame).run body).leave 0 = _
  rw [leave, hbody]
  rfl

theorem saved_run {actions : List Action} (h : IsBalanced actions) (nesting : Nesting) :
    (nesting.run actions).saved = nesting.saved := by
  -- The scopes may be any where a body starts, since those inside a call are not those before it.
  induction h generalizing nesting with
  | nil => rfl
  | edit change _ ih => exact ih _
  | @call frame body rest _ _ ihbody ihrest =>
      rw [List.append_cons, run_append, ihrest, run_call (ihbody _)]

/-- The binding that an operation makes in the global frame. -/
def globalEdit? (nesting : Nesting) : Action → Option (String × Value)
  | .edit change =>
    if nesting.scopes.target? change = some nesting.scopes.locals.length then
      some (change.name, change.value)
    else
      none
  | _ => none

/-- The bindings that operations make in the global frame, in their order. -/
def globalEdits (nesting : Nesting) : List Action → List (String × Value)
  | [] => []
  | action :: rest =>
    (nesting.globalEdit? action).toList ++ (nesting.perform action).globalEdits rest

theorem globals_perform (nesting : Nesting) (action : Action) :
    (nesting.perform action).scopes.globals =
      (nesting.globalEdit? action).toList.foldl
        (fun frame binding => frame.bind binding.1 binding.2) nesting.scopes.globals := by
  cases action with
  | edit change =>
      change (nesting.scopes.edit change).globals = _
      rw [edit_eq, globalEdit?]
      cases nesting.scopes.target? change with
      | none => rfl
      | some level =>
          by_cases hlevel : level = nesting.scopes.locals.length <;> simp [hlevel, bindAt]
  | enterCall => rfl
  | restore index =>
      change (nesting.leave index).scopes.globals = nesting.scopes.globals
      unfold leave
      split <;> rfl

theorem globals_run (nesting : Nesting) (actions : List Action) :
    (nesting.run actions).scopes.globals =
      (nesting.globalEdits actions).foldl (fun frame binding => frame.bind binding.1 binding.2)
        nesting.scopes.globals := by
  induction actions generalizing nesting with
  | nil => rfl
  | cons action rest ih =>
      rw [run_cons, ih, globals_perform, globalEdits, List.foldl_append]

end Nesting

/-- Of several bindings of a name the last one counts. -/
theorem find?_foldl_bind (bindings : List (String × Value)) (frame : Frame) (name : String) :
    (bindings.foldl (fun frame binding => frame.bind binding.1 binding.2) frame).find? name =
      (bindings.reverse.lookup name <|> frame.find? name) := by
  induction bindings generalizing frame with
  | nil => rfl
  | cons binding rest ih =>
      rw [List.foldl_cons, ih, Frame.find?_bind, List.reverse_cons, List.lookup_append,
        List.lookup_cons]
      cases rest.reverse.lookup name with
      | some value => rfl
      | none =>
          by_cases hname : name = binding.1
          · simp [hname]
          · rw [if_neg hname, beq_false_of_ne hname]
            rfl

/-- Reading and writing a name go to the same frame, the innermost one that has it. -/
structure Resolves (scopes : Scopes) (name : String) : Prop where
  reads_iff : (∃ value, scopes.lookup? name = some value) ↔ ∃ level, scopes.Finds level name
  writes_iff (value : Value) :
    (∃ after, scopes.assign? name value = some after) ↔ ∃ level, scopes.Finds level name
  reads (level : Nat) (h : scopes.Finds level name) :
    scopes.lookup? name = scopes.value? level name
  writes (level : Nat) (h : scopes.Finds level name) (value : Value) :
    ∃ after, scopes.assign? name value = some after ∧ scopes.Writes after level name value

theorem resolves (scopes : Scopes) (name : String) : scopes.Resolves name where
  reads_iff := by
    simp only [lookup?_eq, Option.bind_eq_some_iff, level?_eq_some_iff]
    constructor
    · rintro ⟨value, level, hlevel, -⟩
      exact ⟨level, hlevel⟩
    · rintro ⟨level, hlevel⟩
      obtain ⟨value, hvalue⟩ := binds_iff.mp hlevel.1
      exact ⟨value, level, hlevel, hvalue⟩
  writes_iff value := by
    simp only [assign?_eq, Option.map_eq_some_iff, level?_eq_some_iff]
    constructor
    · rintro ⟨after, level, hlevel, -⟩
      exact ⟨level, hlevel⟩
    · rintro ⟨level, hlevel⟩
      exact ⟨_, level, hlevel, rfl⟩
  reads level h := by rw [lookup?_eq, level?_eq_some_iff.mpr h, Option.bind_some]
  writes level h value := by
    rw [assign?_eq, level?_eq_some_iff.mpr h]
    exact ⟨_, rfl, writes_bindAt (lt_depth_of_binds h.1) name value⟩

end Scopes

open Scopes

/-- **Names are resolved from the innermost frame outwards, and calls give frames back.** Whatever
operations have been done on scopes, there are one or two frames; a name is read and written in the
same frame; an edit changes one binding or none; a declaration fails if and only if the innermost
frame has the name; and a call, whatever is done and called in it, leaves the frames of its caller
and those that callers have put aside as they were, and the globals with all that it bound there. -/
theorem scopes_resolve_and_restore {nesting : Nesting} (h : nesting.IsReached) :
    (nesting.scopes.depth = 1 ∨ nesting.scopes.depth = 2) ∧
    (∀ name, nesting.scopes.Resolves name) ∧
    (∀ change level, nesting.scopes.target? change = some level →
      nesting.scopes.Writes (nesting.scopes.edit change) level change.name change.value) ∧
    (∀ change, nesting.scopes.target? change = none →
      nesting.scopes.edit change = nesting.scopes) ∧
    (∀ name value, (nesting.scopes.declare? name value = none ↔
        nesting.scopes.isDeclaredHere name) ∧
      (nesting.scopes.isDeclaredHere name →
        nesting.perform (.edit ⟨.declare, name, value⟩) = nesting) ∧
      ∀ after, nesting.scopes.declare? name value = some after →
        nesting.scopes.Writes after 0 name value) ∧
    ∀ frame body, IsBalanced body →
      nesting.run (.enterCall frame :: body ++ [.restore 0]) =
        ⟨⟨((nesting.enter frame).run body).scopes.globals, nesting.scopes.locals⟩,
          nesting.saved⟩ ∧
      ∀ name, (nesting.run (.enterCall frame :: body ++ [.restore 0])).scopes.global? name =
        (((nesting.enter frame).globalEdits body).reverse.lookup name <|>
          nesting.scopes.global? name) := by
  refine ⟨?_, nesting.scopes.resolves, fun change level => writes_edit,
    fun change => edit_of_target?_eq_none, fun name value => ⟨?_, fun hdeclared => ?_,
      fun after hafter => ?_⟩, fun frame body hbody => ?_⟩
  · have hactive := h.isShallow.active
    unfold depth
    omega
  · simp [declare?]
  · have htarget : nesting.scopes.target? ⟨.declare, name, value⟩ = none := by
      simp [target?, hdeclared]
    rw [Nesting.perform, edit_of_target?_eq_none htarget]
  · unfold declare? at hafter
    split at hafter
    · cases hafter
    · rw [← Option.some.inj hafter, bind_eq_bindAt]
      exact writes_bindAt (Nat.lt_add_right _ Nat.one_pos) name value
  · have hcall := Nesting.run_call (Nesting.saved_run hbody (nesting.enter frame))
    refine ⟨hcall, fun name => ?_⟩
    rw [hcall, global?, Nesting.globals_run, find?_foldl_bind]
    rfl

/-- A body that gives the global `g` a value, and makes a call that gives it another and declares a
name. -/
def nestedBody : List Action :=
  [.edit ⟨.assign, "g", .boolean true⟩, .enterCall [], .edit ⟨.declare, "x", .boolean true⟩,
    .edit ⟨.assign, "g", .boolean false⟩, .restore 0]

/-- Only `g` is there, and has no value yet. -/
def withGlobal : Nesting :=
  Nesting.empty.run [.edit ⟨.defineGlobal, "g", .nil⟩]

theorem scopes_resolve_and_restore_nestedBody :
    withGlobal.IsReached ∧ IsBalanced nestedBody ∧
      (withGlobal.run (.enterCall [("x", .nil)] :: nestedBody ++ [.restore 0])).scopes.global? "g" =
        some (.boolean false) := by
  have hreached : withGlobal.IsReached := ⟨_, rfl⟩
  have hbody : IsBalanced nestedBody := .edit _ (.call [] (.edit _ (.edit _ .nil)) .nil)
  have hcall := (scopes_resolve_and_restore hreached).2.2.2.2.2 [("x", .nil)] nestedBody hbody
  refine ⟨hreached, hbody, ?_⟩
  rw [hcall.2 "g"]
  rfl

end ScriptEngine
