import ScriptEngine.Proofs.Execution.Frames

/-!
# The names in frames

Names enter a frame only through the statements that declare them, executed while the frame is the
innermost one, and never leave it. So evaluating an expression or making a call declares nothing,
whatever code runs in it, and a name that was free before its value was evaluated is free after
that.
-/

namespace ScriptEngine

namespace Frame

theorem contains_iff {frame : Frame} {name : String} :
    frame.contains name ↔ name ∈ frame.map Prod.fst :=
  isSome_lookup_iff

theorem contains_update (frame : Frame) (name other : String) (value : Value) :
    (frame.update name value).contains other = frame.contains other := by
  have hnames : (frame.update name value).map Prod.fst = frame.map Prod.fst := by
    rw [update, List.map_map]
    refine List.map_congr_left fun binding _ => ?_
    by_cases hname : binding.1 = name <;> simp [hname]
  rw [Bool.eq_iff_iff, contains_iff, contains_iff, hnames]

theorem contains_bind {frame : Frame} {name other : String} (value : Value) :
    (frame.bind name value).contains other ↔ other = name ∨ frame.contains other := by
  unfold bind
  by_cases hname : frame.contains name
  · rw [if_pos hname, contains_update]
    refine ⟨.inr, ?_⟩
    rintro (rfl | hother)
    · exact hname
    · exact hother
  · rw [if_neg hname, contains_iff, contains_iff, List.map_cons, List.mem_cons]

theorem contains_foldl_bind {bindings : List (String × Value)} {frame : Frame} {name : String} :
    (bindings.foldl (fun frame binding => frame.bind binding.1 binding.2) frame).contains name ↔
      name ∈ bindings.map Prod.fst ∨ frame.contains name := by
  induction bindings generalizing frame with
  | nil => simp
  | cons binding rest ih =>
      rw [List.foldl_cons, ih, contains_bind, List.map_cons, List.mem_cons]
      exact or_left_comm.trans or_assoc.symm

/-- The frame of a call has the names of the parameters. -/
theorem contains_ofList_zip {parameters : List String} {arguments : List Value} {name : String}
    (h : parameters.length ≤ arguments.length) :
    (ofList (parameters.zip arguments)).contains name ↔ name ∈ parameters := by
  rw [ofList, contains_foldl_bind, List.map_fst_zip h]
  simp [contains, find?]

end Frame

namespace Scopes

/-- The frames in which a name is sought, from the innermost one to the global one. -/
def frames (scopes : Scopes) : List Frame :=
  scopes.locals ++ [scopes.globals]

/-- Whether a frame has a name. Frames are counted from the innermost one outwards. -/
def binds (scopes : Scopes) (level : Nat) (name : String) : Bool :=
  scopes.frames[level]?.any fun frame => frame.contains name

theorem binds_zero (scopes : Scopes) (name : String) :
    scopes.binds 0 name = scopes.isDeclaredHere name := by
  unfold binds frames isDeclaredHere
  cases scopes.locals <;> simp

/-- The global frame is the last one. -/
theorem binds_length (scopes : Scopes) (name : String) :
    scopes.binds scopes.locals.length name = scopes.globals.contains name := by
  simp [binds, frames]

/-- Which names are bound depends on the local frames and on the global one. -/
theorem binds_congr {first second : Scopes} {name : String}
    (hlength : first.locals.length = second.locals.length)
    (hlocals : ∀ level : Nat, (first.locals[level]?.any fun frame => frame.contains name) =
      second.locals[level]?.any fun frame => frame.contains name)
    (hglobals : first.globals.contains name = second.globals.contains name) (level : Nat) :
    first.binds level name = second.binds level name := by
  rw [binds, binds, frames, frames, List.getElem?_append, List.getElem?_append, hlength]
  by_cases hlevel : level < second.locals.length
  · rw [if_pos hlevel, if_pos hlevel]
    exact hlocals level
  · rw [if_neg hlevel, if_neg hlevel]
    cases level - second.locals.length with
    | zero => exact hglobals
    | succ => rfl

/-- Every frame keeps its names, and the innermost one has got none but the given ones besides. -/
structure Gains (names : String → Prop) (before after : Scopes) : Prop where
  keeps (level : Nat) (name : String) (h : before.binds level name) : after.binds level name
  adds (level : Nat) (name : String) (h : after.binds level name) :
    before.binds level name ∨ level = 0 ∧ names name

/-- Every frame has the names that it had. -/
structure SameNames (before after : Scopes) : Prop where
  binds (level : Nat) (name : String) : after.binds level name = before.binds level name
  innermost (name : String) : after.isDeclaredHere name = before.isDeclaredHere name
  globals (name : String) : after.globals.contains name = before.globals.contains name

namespace Gains

variable {names : String → Prop} {before middle after : Scopes}

theorem of_binds_eq (h : ∀ level name, after.binds level name = before.binds level name) :
    before.Gains names after where
  keeps level name hbinds := (h level name).trans hbinds
  adds level name hbinds := .inl ((h level name).symm.trans hbinds)

theorem refl (scopes : Scopes) : scopes.Gains names scopes :=
  of_binds_eq fun _ _ => rfl

theorem trans (hfirst : before.Gains names middle) (hsecond : middle.Gains names after) :
    before.Gains names after where
  keeps level name h := hsecond.keeps level name (hfirst.keeps level name h)
  adds level name h := (hsecond.adds level name h).elim (hfirst.adds level name) .inr

theorem binds_eq (h : before.Gains (fun _ => False) after) (level : Nat) (name : String) :
    after.binds level name = before.binds level name := by
  rw [Bool.eq_iff_iff]
  exact ⟨fun hafter => (h.adds level name hafter).resolve_right fun hnone => hnone.2,
    h.keeps level name⟩

theorem sameNames (h : before.Gains (fun _ => False) after)
    (hlength : after.locals.length = before.locals.length) : before.SameNames after where
  binds := h.binds_eq
  innermost name := by rw [← binds_zero, ← binds_zero, h.binds_eq]
  globals name := by rw [← binds_length, ← binds_length, hlength, h.binds_eq]

end Gains

/-! ### Operations on scopes -/

variable {scopes after : Scopes} {names : String → Prop}

theorem any_contains_assignIn {name other : String} {value : Value} {frames changed : List Frame}
    (h : assignIn name value frames = some changed) (level : Nat) :
    (changed[level]?.any fun frame => frame.contains other) =
      frames[level]?.any fun frame => frame.contains other := by
  induction frames generalizing changed level with
  | nil => simp [assignIn] at h
  | cons frame outer ih =>
      unfold assignIn at h
      split at h
      · rw [← Option.some.inj h]
        cases level with
        | zero => simp [Frame.contains_update]
        | succ level => rfl
      · obtain ⟨rest, hrest, rfl⟩ := Option.map_eq_some_iff.mp h
        cases level with
        | zero => rfl
        | succ level => exact ih hrest level

theorem gains_assign? {name : String} {value : Value}
    (h : scopes.assign? name value = some after) : scopes.Gains names after := by
  refine .of_binds_eq fun level other => ?_
  have hlength := length_locals_of_assign? h
  unfold assign? at h
  split at h
  · rename_i hlocals
    rw [← Option.some.inj h] at hlength ⊢
    exact binds_congr hlength (any_contains_assignIn hlocals) rfl level
  · split at h
    · rw [← Option.some.inj h]
      refine binds_congr ?_ (fun _ => ?_) ?_ level
      · rfl
      · rfl
      · exact scopes.globals.contains_update name other value
    · simp at h

theorem binds_bind (scopes : Scopes) {name other : String} (value : Value) (level : Nat) :
    (scopes.bind name value).binds level other ↔
      level = 0 ∧ other = name ∨ scopes.binds level other := by
  obtain ⟨globals, locals⟩ := scopes
  cases level with
  | zero =>
      rw [binds_zero, binds_zero, and_iff_right rfl]
      cases locals with
      | nil => exact Frame.contains_bind value
      | cons frame outer => exact Frame.contains_bind value
  | succ level =>
      rw [or_iff_right (by omega)]
      cases locals <;> exact Iff.rfl

theorem gains_bind (scopes : Scopes) {name : String} (hname : names name) (value : Value) :
    scopes.Gains names (scopes.bind name value) where
  keeps level other h := (scopes.binds_bind value level).mpr (.inr h)
  adds level other h := by
    rcases (scopes.binds_bind value level).mp h with ⟨hlevel, rfl⟩ | hother
    · exact .inr ⟨hlevel, hname⟩
    · exact .inl hother

end Scopes

/-- The names that an activity may bind in the innermost frame. -/
def Activity.names : Activity → String → Prop
  | hosting, _ => False
  | evaluating, _ => False
  | executing names, name => names name

/-- A call leaves the global frame with the names that it had, as its own frame comes before it. -/
theorem Scopes.Gains.leaveCall {names : String → Prop} {state after : State} {frame : Frame}
    (h : (state.enterCall frame).1.scopes.Gains names after.scopes)
    (hlength : after.scopes.locals.length = 1) (others : String → Prop) :
    state.scopes.Gains others (after.leaveCall (state.enterCall frame).2).scopes := by
  refine .of_binds_eq fun level name => ?_
  have hbefore : (state.enterCall frame).1.scopes.binds 1 name =
      state.scopes.globals.contains name :=
    (state.enterCall frame).1.scopes.binds_length name
  have hafter : after.scopes.binds 1 name = after.scopes.globals.contains name := by
    rw [← hlength, binds_length]
  have hglobals : after.scopes.globals.contains name = state.scopes.globals.contains name := by
    rw [← hafter, ← hbefore, Bool.eq_iff_iff]
    refine ⟨fun hname => ?_, h.keeps 1 name⟩
    exact (h.adds 1 name hname).resolve_right fun hinner => nomatch hinner.1
  refine binds_congr ?_ (fun _ => ?_) ?_ level
  · rfl
  · rfl
  · exact hglobals

/-- Nothing but a statement binds a name in a frame that there was. -/
theorem Advances.gains {regime : Regime} {activity : Activity} {before after : State}
    (h : Advances regime activity before after) :
    before.scopes.Gains activity.names after.scopes := by
  induction h with
  | trans _ _ ihfirst ihsecond => exact ihfirst.trans ihsecond
  | assign _ h => exact Scopes.gains_assign? h
  | bind state value hname => exact state.scopes.gains_bind hname value
  | frame activity h ih => exact ih.leaveCall h.length_locals activity.names
  | level _ _ ih => exact .of_binds_eq ih.binds_eq
  | _ => exact .refl _

theorem Advances.sameNames {regime : Regime} {activity : Activity} {before after : State}
    (h : Advances regime activity before after) (hnames : activity.names = fun _ => False) :
    before.scopes.SameNames after.scopes :=
  Scopes.Gains.sameNames (hnames ▸ h.gains) h.length_locals

namespace Interpreter

variable {interpreter : Interpreter} {members names : String → Prop}
  (h : interpreter.IsAdvancing members names)
include h

theorem sameNames_evaluateOr (default : Value) (expression : Option Expr) (state : State) :
    (interpreter.evaluateOr default expression state).Ends fun after =>
      state.scopes.SameNames after.scopes := by
  cases expression with
  | none => exact ⟨fun _ _ => rfl, fun _ => rfl, fun _ => rfl⟩
  | some expression =>
      exact (h.evaluate expression state).imp fun after hafter => hafter.sameNames rfl

/-- A name that is free before its value is evaluated is declared after that. -/
theorem executeDeclare_of_free {name : String} {state : State}
    (hfree : ¬ state.scopes.isDeclaredHere name) (value : Option Expr) :
    interpreter.executeDeclare name value state =
      (interpreter.evaluateOr .nil value state).andThen fun result after =>
        .ok .normal (after.bind name result) := by
  rw [executeDeclare, if_neg hfree]
  refine Outcome.andThen_congr fun result after hresult => ?_
  have hends := sameNames_evaluateOr h .nil value state
  rw [hresult] at hends
  have hstill : ¬ after.scopes.isDeclaredHere name := by
    rw [hends.innermost]
    exact hfree
  rw [State.declare, Scopes.declare?, if_neg hstill]
  rfl

end Interpreter

open Interpreter

/-! ### The frame of a call -/

/-- The body of a call begins in a state with one local frame, which has just the given names. The
rest is as the caller left it. -/
structure State.BeginsCall (names : String → Prop) (caller inner : State) : Prop where
  frame : inner.scopes.locals.length = 1
  declared (name : String) : inner.scopes.isDeclaredHere name ↔ names name
  globals : inner.scopes.globals = caller.scopes.globals
  rest : inner = { caller with scopes := inner.scopes }

theorem State.beginsCall_enterCall {names : String → Prop} {frame : Frame}
    (h : ∀ name, frame.contains name ↔ names name) (caller : State) :
    caller.BeginsCall names (caller.enterCall frame).1 :=
  ⟨rfl, h, rfl, rfl⟩

namespace Interpreter

variable {state : State} {arguments : List Value}

/-- The body of a sub runs in a frame that begins with the parameters. -/
theorem exists_callSub_eq (interpreter : Interpreter) (name : Option String)
    {parameters : List String} (hlength : parameters.length ≤ arguments.length)
    (body : List Stmt) :
    ∃ inner, state.BeginsCall (· ∈ parameters) inner ∧
      interpreter.callSub name parameters body arguments state =
        ((interpreter.executeBody body inner).mapState
          (State.leaveCall state.scopes.locals)).andThen callResult := by
  refine ⟨_, state.beginsCall_enterCall fun _ => Frame.contains_ofList_zip hlength, ?_⟩
  rw [callSub, if_neg (Nat.not_lt.mpr hlength)]
  rfl

/-- The body of a block runs in a frame that begins with the one name of its argument. -/
theorem exists_callBlock_eq (interpreter : Interpreter) (body : Expr) (value : Value) :
    ∃ inner, state.BeginsCall (· = blockParameter) inner ∧
      interpreter.callBlock body (value :: arguments) state =
        (interpreter.evaluate body inner).mapState (State.leaveCall state.scopes.locals) := by
  have hnames (name : String) :
      Frame.contains [(blockParameter, value)] name ↔ name = blockParameter := by
    rw [Frame.contains_iff, List.map_singleton, List.mem_singleton]
  exact ⟨_, state.beginsCall_enterCall hnames, rfl⟩

/-- A call that is neither stopped nor refused is one of the stored callable, a level deeper. -/
theorem call_stoppingUnless_eq {holds : Point → Bool} {fuel active : Nat} {ref : FunctionRef}
    {callable : Callable} (failure : RuntimeError)
    (hcallable : state.heap.callable? ref = some callable)
    (hdepth : state.callDepth < state.maxCallDepth)
    (hholds : holds ⟨.call (.function ref) arguments, active, state⟩) :
    (stoppingUnless holds failure (fuel + 1) active).call (.function ref) arguments state =
      ((stoppingUnless holds failure fuel (active + 1)).callCallable callable arguments
        (enterLevel state)).mapState leaveLevel := by
  change Point.stopUnless _ holds failure (callValue _ _ arguments state) = _
  rw [Point.stopUnless, if_pos hholds, callValue, if_neg (Nat.not_le.mpr hdepth), hcallable]

end Interpreter

/-- **Names enter by declarations.** Wherever a run is stopped, and however it ends, evaluating an
expression and making a call leave every frame with the names that it had. A statement, a body or a
program takes no name from a frame, and adds names to the innermost one only, which are names that
statements declare at points of the same call. The body of a sub is executed in a fresh frame that
has just the parameters, that of a block is evaluated in one that has just its one name, and a call
of a function value is a call of the sub, the block or the library function stored for it. A name
that is free before its value is evaluated is free after that, so that the second check of a
declaration never fails. -/
theorem names_enter_by_declarations (holds : Point → Bool) (failure : RuntimeError)
    (fuel active : Nat) :
    let interpreter := stoppingUnless holds failure fuel active
    (∀ expression state, (interpreter.evaluate expression state).Ends fun after =>
      state.scopes.SameNames after.scopes) ∧
    (∀ callee arguments state, (interpreter.call callee arguments state).Ends fun after =>
      state.scopes.SameNames after.scopes) ∧
    (∀ statement state, (interpreter.execute statement state).Ends fun after =>
      state.scopes.Gains (namesAt holds active) after.scopes) ∧
    (∀ body state, (interpreter.executeBody body state).Ends fun after =>
      state.scopes.Gains (namesAt holds active) after.scopes) ∧
    (∀ program state, (interpreter.run program state).Ends fun after =>
      state.scopes.Gains (namesAt holds active) after.scopes) ∧
    (∀ name (parameters : List String) body (arguments : List Value) (state : State),
      parameters.length ≤ arguments.length →
        ∃ inner, state.BeginsCall (· ∈ parameters) inner ∧
          interpreter.callSub name parameters body arguments state =
            ((interpreter.executeBody body inner).mapState
              (State.leaveCall state.scopes.locals)).andThen callResult ∧
          (interpreter.executeBody body inner).Ends fun after =>
            inner.scopes.Gains (namesAt holds active) after.scopes) ∧
    (∀ body value arguments (state : State),
      ∃ inner, state.BeginsCall (· = blockParameter) inner ∧
        interpreter.callBlock body (value :: arguments) state =
          (interpreter.evaluate body inner).mapState (State.leaveCall state.scopes.locals) ∧
        (interpreter.evaluate body inner).Ends fun after =>
          inner.scopes.SameNames after.scopes) ∧
    (∀ ref arguments (state : State), state.callDepth < state.maxCallDepth →
      holds ⟨.call (.function ref) arguments, active, state⟩ →
        let called := stoppingUnless holds failure fuel (active + 1)
        let calling :=
          (stoppingUnless holds failure (fuel + 1) active).call (.function ref) arguments state
        (∀ name parameters body, state.heap.callable? ref = some (.sub name parameters body) →
          calling = (called.callSub name parameters body arguments
            (enterLevel state)).mapState leaveLevel) ∧
        (∀ body, state.heap.callable? ref = some (.block body) →
          calling =
            (called.callBlock body arguments (enterLevel state)).mapState leaveLevel) ∧
        ∀ native, state.heap.callable? ref = some (.native native) →
          calling =
            (called.callNative native arguments (enterLevel state)).mapState leaveLevel) ∧
    ∀ name value state, ¬ state.scopes.isDeclaredHere name →
      interpreter.executeDeclare name value state =
        (interpreter.evaluateOr .nil value state).andThen fun result after =>
          .ok .normal (after.bind name result) := by
  intro interpreter
  have h := isAdvancing_stoppingUnless holds failure fuel active
  have hevaluate (expression : Expr) (state : State) :
      (interpreter.evaluate expression state).Ends fun after =>
        state.scopes.SameNames after.scopes :=
    (h.evaluate expression state).imp fun after hafter => hafter.sameNames rfl
  have hbody (body : List Stmt) (state : State) :
      (interpreter.executeBody body state).Ends fun after =>
        state.scopes.Gains (namesAt holds active) after.scopes :=
    (h.executeBody body state).imp fun after hafter => hafter.gains
  refine ⟨hevaluate, fun callee arguments state => ?_, fun statement state => ?_, hbody,
    fun program state => ?_, fun name parameters body arguments state hlength => ?_,
    fun body value arguments state => ?_,
    fun ref arguments state hdepth hholds => ⟨fun name parameters body hcallable => ?_,
      fun body hcallable => ?_, fun native hcallable => ?_⟩,
    fun name value state hfree => ?_⟩
  · exact (h.call callee arguments state).imp fun after hafter => hafter.sameNames rfl
  · exact (h.execute statement state).imp fun after hafter => hafter.gains
  · exact (h.run program state).imp fun after hafter => hafter.gains
  · obtain ⟨inner, hinner, hcall⟩ := interpreter.exists_callSub_eq name hlength body
    exact ⟨inner, hinner, hcall, hbody body inner⟩
  · obtain ⟨inner, hinner, hcall⟩ := interpreter.exists_callBlock_eq body value
    exact ⟨inner, hinner, hcall, hevaluate body inner⟩
  · exact call_stoppingUnless_eq failure hcallable hdepth hholds
  · exact call_stoppingUnless_eq failure hcallable hdepth hholds
  · exact call_stoppingUnless_eq failure hcallable hdepth hholds
  · exact executeDeclare_of_free h hfree value

/-- The sub `fill` declares `x` in a frame of its own. -/
def fillingState : State :=
  { State.blank with
    scopes := ⟨[("fill", .function ⟨0⟩)], []⟩
    heap := ⟨#[], #[], #[.sub (some "fill") ["y"]
      [.declare .first "x" (some (.name .first "y"))]]⟩ }

theorem names_enter_by_declarations_fillingState :
    let value := some (Expr.call .first (.name .first "fill") [.nil .first])
    let body := [Stmt.declare .first "x" (some (.name .first "y"))]
    ¬ fillingState.scopes.isDeclaredHere "x" ∧
      (ofFuel 9).executeDeclare "x" value fillingState =
        ((ofFuel 9).evaluateOr .nil value fillingState).andThen (fun result after =>
          .ok .normal (after.bind "x" result)) ∧
      fillingState.heap.callable? ⟨0⟩ = some (.sub "fill" ["y"] body) ∧
      fillingState.callDepth < fillingState.maxCallDepth ∧
      (ofFuel 10).call (.function ⟨0⟩) [.nil] fillingState =
        ((ofFuel 9).callSub "fill" ["y"] body [.nil] (enterLevel fillingState)).mapState
          leaveLevel ∧
      ["y"].length ≤ [Value.nil].length ∧
      ∃ inner, (enterLevel fillingState).BeginsCall (· ∈ ["y"]) inner ∧
        (ofFuel 9).callSub "fill" ["y"] body [.nil] (enterLevel fillingState) =
          (((ofFuel 9).executeBody body inner).mapState
            (State.leaveCall fillingState.scopes.locals)).andThen callResult := by
  intro value body
  have hfree : ¬ fillingState.scopes.isDeclaredHere "x" := by decide
  have hlength : ["y"].length ≤ [Value.nil].length := Nat.le_refl 1
  have hdepth : fillingState.callDepth < fillingState.maxCallDepth := by decide
  have h := names_enter_by_declarations (fun _ => true) .invalidTarget 9 0
  simp only [stoppingUnless_true] at h
  obtain ⟨-, -, -, -, -, hsub, -, hcalls, hdeclare⟩ := h
  obtain ⟨hcall, -, -⟩ := hcalls ⟨0⟩ [.nil] fillingState hdepth trivial
  obtain ⟨inner, hinner, hbody, -⟩ :=
    hsub "fill" ["y"] body [.nil] (enterLevel fillingState) hlength
  exact ⟨hfree, hdeclare "x" value fillingState hfree, rfl, hdepth, hcall _ _ _ rfl, hlength,
    inner, hinner, hbody⟩

end ScriptEngine
