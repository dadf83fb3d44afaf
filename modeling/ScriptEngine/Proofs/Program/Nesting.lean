import ScriptEngine.Proofs.Program.Agreement

/-!
# The nesting counter

The runs of the parser written out step by step, with all that happens to the counter of the nesting.
A step leaves it alone, and only `nested` moves it, down before a run and up after it. So whatever is
made of such steps leaves the counter where it was, whether it succeeds or fails
(`Traced.depth_eq`), and keeps it within the limit (`Traced.isAllowed`). All rules of the grammar
are made of them, as they run in parallel with themselves.
-/

namespace ScriptEngine

namespace Parser

/-- What happens at a depth: a step that does not change it, a step down, a step up. -/
inductive NestingEvent
  | stays (depth : Nat)
  | enters (depth : Nat)
  | leaves (depth : Nat)

/-- The depth is within the limit, also after a step down, and nothing is left from the top. -/
def NestingEvent.IsAllowed : NestingEvent → Prop
  | stays depth => depth ≤ nestingLimit
  | enters depth => depth < nestingLimit
  | leaves depth => 0 < depth ∧ depth ≤ nestingLimit

abbrev Outcome (α : Type) :=
  EStateM.Result ParseError ParserState α

/-- The state in which a run ends, with a value or with an error. -/
def finalState {α : Type} : Outcome α → ParserState
  | .ok _ after => after
  | .error _ after => after

/-- A result one level further up. -/
def ascended {α : Type} : Outcome α → Outcome α
  | .ok value after => .ok value { after with depth := after.depth - 1 }
  | .error error after => .error error { after with depth := after.depth - 1 }

theorem finalState_ascended {α : Type} (result : Outcome α) :
    finalState (ascended result) =
      { finalState result with depth := (finalState result).depth - 1 } := by
  cases result <;> rfl

/-- The steps that leave the nesting alone. -/
inductive IsStep : {α : Type} → Parser α → Prop
  | pure {α : Type} (value : α) : IsStep (pure value)
  | current : IsStep current
  | check (kind : TokenKind) : IsStep (check kind)
  | advance : IsStep advance
  | isAttached : IsStep isAttached
  | throw {α : Type} (error : ParseError) : IsStep (throw error : Parser α)

theorem IsStep.depth_eq {α : Type} {parser : Parser α} (h : IsStep parser) (state : ParserState) :
    (finalState (parser state)).depth = state.depth := by
  cases h with
  | advance =>
      unfold Parser.advance
      dsimp only
      split <;> rfl
  | _ => rfl

/-- How a run goes from a state, with what happens to the nesting on the way and with its result. -/
inductive Traced : {α : Type} → Parser α → ParserState → List NestingEvent → Outcome α → Prop
  | step {α : Type} {parser : Parser α} (h : IsStep parser) (state : ParserState) :
      Traced parser state [.stays state.depth] (parser state)
  | bind {α β : Type} {parser : Parser α} {next : α → Parser β} {state middle : ParserState}
      {value : α} {events others : List NestingEvent} {result : Outcome β}
      (h : Traced parser state events (.ok value middle))
      (hnext : Traced (next value) middle others result) :
      Traced (parser >>= next) state (events ++ others) result
  | fails {α β : Type} {parser : Parser α} {next : α → Parser β} {state after : ParserState}
      {error : ParseError} {events : List NestingEvent}
      (h : Traced parser state events (.error error after)) :
      Traced (parser >>= next) state events (.error error after)
  | refused {α : Type} (inner : Parser α) {state : ParserState} (h : nestingLimit ≤ state.depth) :
      Traced (nested inner) state []
        (.error (.nestingTooDeep nestingLimit state.current.start) state)
  | nested {α : Type} {inner : Parser α} {state : ParserState} {events : List NestingEvent}
      {result : Outcome α} (hdepth : state.depth < nestingLimit)
      (h : Traced inner { state with depth := state.depth + 1 } events result) :
      Traced (nested inner) state
        (.enters state.depth :: (events ++ [.leaves (finalState result).depth])) (ascended result)

namespace Traced

variable {α : Type} {parser : Parser α} {state : ParserState} {events : List NestingEvent}
  {result : Outcome α}

/-- **A run leaves the nesting as it was**, whether it succeeds or fails. -/
theorem depth_eq (h : Traced parser state events result) :
    (finalState result).depth = state.depth := by
  induction h with
  | step h state => exact h.depth_eq state
  | bind _ _ ih ihnext => exact ihnext.trans ih
  | fails _ ih => exact ih
  | refused => rfl
  | nested _ _ ih =>
      rw [finalState_ascended]
      exact congrArg (· - 1) ih

/-- A run that starts within the limit stays within it, and leaves only levels it has entered. -/
theorem isAllowed (h : Traced parser state events result) (hdepth : state.depth ≤ nestingLimit) :
    ∀ event ∈ events, event.IsAllowed := by
  induction h with
  | step _ state => exact List.forall_mem_singleton.mpr hdepth
  | bind h _ ih ihnext =>
      rw [List.forall_mem_append]
      exact ⟨ih hdepth, ihnext (h.depth_eq ▸ hdepth)⟩
  | fails _ ih => exact ih hdepth
  | refused => exact List.forall_mem_nil _
  | @nested _ inner state events result hless h ih =>
      have hleave : (finalState result).depth = state.depth + 1 := h.depth_eq
      rw [List.forall_mem_cons, List.forall_mem_append, List.forall_mem_singleton, hleave]
      exact ⟨hless, ih hless, Nat.succ_pos _, hless⟩

/-- A run keeps whatever moving on keeps, if the nesting does not matter for it. -/
theorem preserves {holds : ParserState → Prop} (h : Traced parser state events result)
    (hadvance : ∀ state, holds state → holds (finalState (advance state)))
    (hdepth : ∀ state depth, holds state → holds { state with depth := depth })
    (hstate : holds state) : holds (finalState result) := by
  induction h with
  | step h state =>
      cases h with
      | advance => exact hadvance state hstate
      | _ => exact hstate
  | bind _ _ ih ihnext => exact ihnext (ih hstate)
  | fails _ ih => exact ih hstate
  | refused => exact hstate
  | nested _ _ ih =>
      rw [finalState_ascended]
      exact hdepth _ _ (ih (hdepth _ _ hstate))

end Traced

theorem traced_exhausted {α : Type} (state : ParserState) :
    Traced (exhausted : Parser α) state [.stays state.depth, .stays state.depth]
      (.error (.exhausted state.current.start) state) :=
  .bind (.step .current state) (.step (.throw _) state)

theorem nested_of_lt {α : Type} (inner : Parser α) {state : ParserState}
    (h : state.depth < nestingLimit) :
    nested inner state = ascended (inner { state with depth := state.depth + 1 }) := by
  unfold nested
  rw [if_neg (Nat.not_le.mpr h)]
  cases inner { state with depth := state.depth + 1 } <;> rfl

/-- What runs in parallel with something is made of the steps. -/
theorem Parallel.traced {α : Type} {related : α → α → Prop} {left right : Parser α}
    (h : Parallel id id True related left right) (state : ParserState) :
    ∃ events, Traced left state events (left state) := by
  suffices hsuffices : ∀ state, (∃ events, Traced left state events (left state)) ∧
      ∀ value after, left state = .ok value after → ∃ found, related value found from
    (hsuffices state).1
  induction h with
  | @pure _ _ value other h =>
      refine fun state => ⟨⟨_, .step (.pure value) state⟩, fun found after hrun => ?_⟩
      cases hrun
      exact ⟨other, h⟩
  | @bind _ _ _ _ left _ leftNext _ _ _ ih ihnext =>
      intro state
      obtain ⟨⟨events, hevents⟩, hfound⟩ := ih state
      cases hleft : left state with
      | error error middle =>
          rw [bind_of_error hleft]
          rw [hleft] at hevents
          exact ⟨⟨events, .fails hevents⟩, fun _ _ hrun => nomatch hrun⟩
      | ok value middle =>
          obtain ⟨other, hother⟩ := hfound value middle hleft
          obtain ⟨⟨others, hothers⟩, hlast⟩ := ihnext value other hother middle
          rw [bind_of_ok hleft]
          rw [hleft] at hevents
          exact ⟨⟨events ++ others, .bind hevents hothers⟩, hlast⟩
  | current => exact fun state => ⟨⟨_, .step .current state⟩, fun _ _ _ => ⟨_, rfl, rfl, rfl⟩⟩
  | check kind => exact fun state => ⟨⟨_, .step (.check kind) state⟩, fun _ _ _ => ⟨_, rfl⟩⟩
  | advance => exact fun state => ⟨⟨_, .step .advance state⟩, fun _ _ _ => ⟨_, rfl, rfl, rfl⟩⟩
  | attached _ ih =>
      intro state
      obtain ⟨⟨events, hevents⟩, hfound⟩ := ih (decide (state.current.start = state.previousStop)) _
        state.current state.current ⟨rfl, rfl, rfl⟩ (fun _ _ => rfl) state
      refine ⟨⟨_, .bind (.step .isAttached state) (.bind (.step .current state) hevents)⟩, hfound⟩
  | throw => exact fun state => ⟨⟨_, .step (.throw _) state⟩, fun _ _ hrun => nomatch hrun⟩
  | @nested _ _ left _ _ ih =>
      intro state
      by_cases hdepth : state.depth < nestingLimit
      · obtain ⟨⟨events, hevents⟩, hfound⟩ := ih { state with depth := state.depth + 1 }
        rw [nested_of_lt left hdepth]
        refine ⟨⟨_, .nested hdepth hevents⟩, fun value after hrun => ?_⟩
        cases hinner : left { state with depth := state.depth + 1 } with
        | ok inner middle =>
            rw [hinner] at hrun
            cases hrun
            exact hfound value middle hinner
        | error error middle =>
            rw [hinner] at hrun
            cases hrun
      · have hrefused : Parser.nested left state =
            .error (.nestingTooDeep nestingLimit state.current.start) state := by
          unfold Parser.nested
          rw [if_pos (Nat.not_lt.mp hdepth)]
        rw [hrefused]
        exact ⟨⟨_, .refused left (Nat.not_lt.mp hdepth)⟩, fun _ _ hrun => nomatch hrun⟩
  | exhausted => exact fun state => ⟨⟨_, traced_exhausted state⟩, fun _ _ hrun => nomatch hrun⟩

end Parser

end ScriptEngine
