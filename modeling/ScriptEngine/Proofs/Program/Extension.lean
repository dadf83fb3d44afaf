import ScriptEngine.Proofs.Program.Agreement
import ScriptEngine.Proofs.Program.Nodes

/-!
# Statements before further tokens

A statement is read in the same way if more tokens follow the text that it ends. While a parser is
inside the text it cannot see what follows. It comes to the end only behind the last token of the
statement, and there only an `else` would make a difference.
-/

namespace ScriptEngine

namespace Parser

/-! ### Tokens after the end -/

theorem Aligned.self {first second : Position → Position} {strict : Prop} {complete : Bool}
    {stop place : Position} {tokens others : List Token}
    (h : Aligned first second strict complete stop tokens place others) :
    Aligned id id True complete stop tokens stop tokens := by
  induction h with
  | last _ hend => exact .last ⟨rfl, rfl, rfl⟩ hend fun _ _ => Iff.rfl
  | next _ _ _ ih => exact .next ⟨rfl, rfl, rfl⟩ (fun _ => Iff.rfl) ih

theorem Matches.self {first second : Position → Position} {strict : Prop}
    {state other : ParserState} (h : Matches first second strict state other) :
    Matches id id True state state :=
  ⟨h.tokens.self, rfl, rfl⟩

/-- A row that is not complete, or that ends in the mark, is aligned with itself. -/
theorem aligned_self {complete : Bool} {initial : List Token} {final : Token}
    (hfinal : complete → final.kind = .endOfInput) (stop : Position) :
    Aligned id id True complete stop (initial ++ [final]) stop (initial ++ [final]) := by
  induction initial generalizing stop with
  | nil => exact .last ⟨rfl, rfl, rfl⟩ hfinal fun _ _ => Iff.rfl
  | cons token rest ih => exact .next ⟨rfl, rfl, rfl⟩ (fun _ => Iff.rfl) (ih token.stop)

/-- Only the mark at the end is left. -/
structure AtMark (state : ParserState) : Prop where
  kind : state.current.kind = .endOfInput
  upcoming : state.upcoming = []
  failure : state.failure = none

theorem AtMark.valid {state : ParserState} (h : AtMark state) : Matches id id True state state := by
  refine ⟨?_, rfl, rfl⟩
  rw [h.upcoming]
  exact aligned_mark ⟨rfl, rfl, rfl⟩ h.kind _ _

section

variable (next : Token) (following : List Token)

/-- The second state has more tokens in place of the mark at the end of the first. -/
inductive Extended : ParserState → ParserState → Prop
  | inside {current mark : Token} {upcoming : List Token} {stop : Position} {depth : Nat}
      (hmark : mark.kind = .endOfInput)
      (hkinds : ∀ token ∈ current :: upcoming, token.kind ≠ .endOfInput) :
      Extended ⟨current, upcoming ++ [mark], none, stop, depth⟩
        ⟨current, upcoming ++ next :: following, none, stop, depth⟩
  | done {mark : Token} {stop : Position} {depth : Nat} (hmark : mark.kind = .endOfInput) :
      Extended ⟨mark, [], none, stop, depth⟩ ⟨next, following, none, stop, depth⟩

variable {α : Type}

/-- With more tokens after the end the second run ends like the first, unless that one has come to
the end. -/
def Loose (related : α → α → Prop) (left right : Parser α) : Prop :=
  ∀ state other, Extended next following state other → ∀ value after,
    left state = .ok value after → after.upcoming.length ≤ state.upcoming.length ∧
      ∃ found, related value found ∧
        ((∃ rest, right other = .ok found rest ∧ Extended next following after rest) ∨ AtMark after)

/-- With more tokens after the end the second run ends like the first. -/
def Faithful (left right : Parser α) : Prop :=
  ∀ state other, Extended next following state other → ∀ value after,
    left state = .ok value after → after.upcoming.length ≤ state.upcoming.length ∧
      ∃ rest, right other = .ok value rest ∧ Extended next following after rest

/-- Before the end the second run ends like the first, and takes a token. -/
def Inside (left right : Parser α) : Prop :=
  ∀ state other, Extended next following state other → state.upcoming ≠ [] → ∀ value after,
    left state = .ok value after → after.upcoming.length < state.upcoming.length ∧
      ∃ rest, right other = .ok value rest ∧ Extended next following after rest

/-- Nothing is found in certain states. -/
def Refuses (holds : ParserState → Prop) (left : Parser α) : Prop :=
  ∀ state, holds state → ∀ value after, left state ≠ .ok value after

/-- A rule that ends with a token of its own. -/
structure Closing (left right : Parser α) : Prop where
  inside : Inside next following left right
  refuses : Refuses AtMark left

end

/-! ### What a run takes -/

/-- A state that is left after tokens have been taken from the front. -/
structure Consumes (state after : ParserState) : Prop where
  tokens : after.current :: after.upcoming <:+ state.current :: state.upcoming
  failure : after.failure = state.failure
  depth : after.depth = state.depth

namespace Consumes

variable {state middle after : ParserState}

theorem refl (state : ParserState) : Consumes state state :=
  ⟨List.suffix_rfl, rfl, rfl⟩

theorem trans (hfirst : Consumes state middle) (hsecond : Consumes middle after) :
    Consumes state after :=
  ⟨hsecond.tokens.trans hfirst.tokens, hsecond.failure.trans hfirst.failure,
    hsecond.depth.trans hfirst.depth⟩

theorem length_le (h : Consumes state after) : after.upcoming.length ≤ state.upcoming.length :=
  Nat.le_of_succ_le_succ h.tokens.length_le

end Consumes

section

variable {α : Type} {related : α → α → Prop} {left right : Parser α}

/-- A run that succeeds has a parallel run on the same tokens. -/
theorem Parallel.exists_found (h : Parallel id id True related left right)
    {state after : ParserState} {value : α} (hstate : Matches id id True state state)
    (hrun : left state = .ok value after) :
    (∃ found, related value found) ∧ Matches id id True after after := by
  obtain ⟨found, rest, -, hvalue, hafter⟩ := h.exists_ok hstate hrun
  exact ⟨⟨found, hvalue⟩, hafter.self⟩

/-- A run takes tokens only from the front, and leaves the nesting as it was. -/
theorem Parallel.consumes (h : Parallel id id True related left right) :
    ∀ {state after : ParserState} {value : α}, Matches id id True state state →
      left state = .ok value after → Consumes state after := by
  induction h with
  | pure => exact fun _ hrun => by cases hrun; exact .refl _
  | @bind _ _ _ _ left _ leftNext _ h _ ih ihnext =>
      intro state after value hstate hrun
      obtain ⟨first, middle, hleft, hrun⟩ := exists_of_bind_ok hrun
      obtain ⟨⟨found, hfound⟩, hmiddle⟩ := h.exists_found hstate hleft
      exact (ih hstate hleft).trans (ihnext first found hfound hmiddle hrun)
  | current => exact fun _ hrun => by cases hrun; exact .refl _
  | check => exact fun _ hrun => by cases hrun; exact .refl _
  | advance =>
      intro state after value hstate hrun
      unfold Parser.advance at hrun
      split at hrun
      · rename_i next upcoming hupcoming
        cases hrun
        refine ⟨?_, rfl, rfl⟩
        rw [hupcoming]
        exact List.suffix_cons _ _
      · cases hrun
      · cases hrun
        exact ⟨List.suffix_rfl, rfl, rfl⟩
  | attached _ ih =>
      intro state after value hstate hrun
      exact ih _ _ _ _ ⟨rfl, rfl, rfl⟩ (fun _ _ => rfl) hstate hrun
  | throw => exact fun _ hrun => by cases hrun
  | nested _ ih =>
      intro state after value hstate hrun
      unfold Parser.nested at hrun
      split at hrun
      · cases hrun
      · split at hrun
        · rename_i hinner
          cases hrun
          have hdeeper : Matches id id True { state with depth := state.depth + 1 }
              { state with depth := state.depth + 1 } := ⟨hstate.tokens, rfl, rfl⟩
          have hconsumes := ih hdeeper hinner
          exact ⟨hconsumes.tokens, hconsumes.failure, congrArg (· - 1) hconsumes.depth⟩
        · cases hrun
  | exhausted => exact fun _ hrun => by cases hrun

/-- A run that begins at the mark ends there. -/
theorem Parallel.atMark (h : Parallel id id True related left right) {state after : ParserState}
    {value : α} (hstate : AtMark state) (hrun : left state = .ok value after) :
    (∃ found, related value found) ∧ AtMark after := by
  have hconsumes := h.consumes hstate.valid hrun
  have htokens := hconsumes.tokens
  rw [hstate.upcoming] at htokens
  obtain ⟨hcurrent, hupcoming⟩ := List.cons.inj
    (htokens.eq_of_length_le (Nat.succ_le_succ (Nat.zero_le _)))
  exact ⟨(h.exists_found hstate.valid hrun).1, hcurrent ▸ hstate.kind, hupcoming,
    hconsumes.failure.trans hstate.failure⟩

end

section

variable {next : Token} {following : List Token}

theorem Extended.valid {state other : ParserState} (h : Extended next following state other) :
    Matches id id True state state := by
  cases h with
  | @inside current mark upcoming stop depth hmark _ =>
      exact ⟨@aligned_self true (current :: upcoming) mark (fun _ => hmark) stop, rfl, rfl⟩
  | done hmark => exact ⟨aligned_mark ⟨rfl, rfl, rfl⟩ hmark _ _, rfl, rfl⟩

theorem Extended.atMark {state other : ParserState} (h : Extended next following state other)
    (hupcoming : state.upcoming = []) : AtMark state := by
  cases h with
  | inside => simp at hupcoming
  | done hmark => exact ⟨hmark, rfl, rfl⟩

/-- Up to the end both states look the same. -/
theorem Extended.head_or_atMark {state other : ParserState}
    (h : Extended next following state other) :
    (state.current = other.current ∧ state.previousStop = other.previousStop) ∨ AtMark state := by
  cases h with
  | inside => exact .inl ⟨rfl, rfl⟩
  | done hmark => exact .inr ⟨hmark, rfl, rfl⟩

theorem Extended.depth_eq {state other : ParserState} (h : Extended next following state other) :
    state.depth = other.depth := by
  cases h <;> rfl

theorem Extended.withDepth {state other : ParserState} (h : Extended next following state other)
    (depth : Nat) :
    Extended next following { state with depth := depth } { other with depth := depth } := by
  cases h with
  | inside hmark hkinds => exact .inside hmark hkinds
  | done hmark => exact .done hmark

/-- The last token before the mark is passed by both runs. -/
theorem Extended.advance {state other after : ParserState} {token : Token}
    (h : Extended next following state other) (hupcoming : state.upcoming ≠ [])
    (hrun : Parser.advance state = .ok token after) :
    after.upcoming.length < state.upcoming.length ∧
      ∃ rest, Parser.advance other = .ok token rest ∧ Extended next following after rest := by
  cases h with
  | done => exact absurd rfl hupcoming
  | @inside current mark upcoming stop depth hmark hkinds =>
      cases upcoming with
      | nil =>
          cases hrun
          exact ⟨Nat.zero_lt_one, _, rfl, .done hmark⟩
      | cons head tail =>
          cases hrun
          exact ⟨Nat.lt_succ_self _, _, rfl, .inside hmark (List.forall_mem_cons.mp hkinds).2⟩

/-- With more tokens after the end, parallel parsers stay together up to the end. -/
theorem Parallel.loose {α : Type} {related : α → α → Prop} {left right : Parser α}
    (h : Parallel id id True related left right) : Loose next following related left right := by
  suffices hsuffices : ∀ state other, Extended next following state other → ∀ value after,
      left state = .ok value after → ∃ found, related value found ∧
        ((∃ rest, right other = .ok found rest ∧ Extended next following after rest) ∨ AtMark after) from
    fun state other hstate value after hrun =>
      ⟨(h.consumes hstate.valid hrun).length_le, hsuffices state other hstate value after hrun⟩
  induction h with
  | pure h =>
      intro state other hstate value after hrun
      cases hrun
      exact ⟨_, h, .inl ⟨_, rfl, hstate⟩⟩
  | @bind _ _ _ _ left right leftNext rightNext h hnext ih ihnext =>
      intro state other hstate value after hrun
      obtain ⟨first, middle, hleft, hrun⟩ := exists_of_bind_ok hrun
      obtain ⟨found, hfound, ⟨rest, hright, hmiddle⟩ | hmark⟩ :=
        ih state other hstate first middle hleft
      · rw [bind_of_ok hright]
        exact ihnext first found hfound middle rest hmiddle value after hrun
      · obtain ⟨⟨last, hlast⟩, hafter⟩ := (hnext first found hfound).atMark hmark hrun
        exact ⟨last, hlast, .inr hafter⟩
  | current =>
      intro state other hstate value after hrun
      cases hrun
      refine ⟨_, ⟨rfl, rfl, rfl⟩, hstate.head_or_atMark.imp (fun hhead => ⟨other, ?_, hstate⟩) id⟩
      rw [hhead.1]
      rfl
  | check kind =>
      intro state other hstate value after hrun
      cases hrun
      refine ⟨_, rfl, hstate.head_or_atMark.imp (fun hhead => ⟨other, ?_, hstate⟩) id⟩
      rw [hhead.1]
      rfl
  | advance =>
      intro state other hstate value after hrun
      refine ⟨value, ⟨rfl, rfl, rfl⟩, ?_⟩
      by_cases hupcoming : state.upcoming = []
      · exact .inr (Parallel.advance.atMark (hstate.atMark hupcoming) hrun).2
      · exact .inl (hstate.advance hupcoming hrun).2
  | @attached _ related _ rightNext hnext ih =>
      intro state other hstate value after hrun
      rcases hstate.head_or_atMark with ⟨hcurrent, hstop⟩ | hmark
      · have hright : (isAttached >>= fun attached => Parser.current >>= rightNext attached) other =
            rightNext (decide (state.current.start = state.previousStop)) state.current other := by
          rw [hcurrent, hstop]
          rfl
        rw [hright]
        exact ih _ _ _ _ ⟨rfl, rfl, rfl⟩ (fun _ _ => rfl) state other hstate value after hrun
      · have hparallel := hnext (decide (state.current.start = state.previousStop)) _ state.current
          state.current ⟨rfl, rfl, rfl⟩ fun _ _ => rfl
        obtain ⟨⟨found, hfound⟩, hafter⟩ := hparallel.atMark hmark hrun
        exact ⟨found, hfound, .inr hafter⟩
  | throw => exact fun _ _ _ _ _ hrun => by cases hrun
  | @nested _ _ _ right _ ih =>
      intro state other hstate value after hrun
      unfold Parser.nested at hrun ⊢
      rw [← hstate.depth_eq]
      split at hrun
      · cases hrun
      · rename_i hdepth
        rw [if_neg hdepth]
        split at hrun
        · rename_i inner hinner
          cases hrun
          obtain ⟨found, hfound, ⟨rest, hright, hrest⟩ | hmark⟩ :=
            ih _ _ (hstate.withDepth (state.depth + 1)) _ _ hinner
          · refine ⟨found, hfound, .inl ⟨{ rest with depth := rest.depth - 1 }, ?_, ?_⟩⟩
            · simp only [hright]
            · rw [← hrest.depth_eq]
              exact hrest.withDepth _
          · exact ⟨found, hfound, .inr ⟨hmark.kind, hmark.upcoming, hmark.failure⟩⟩
        · cases hrun
  | exhausted => exact fun _ _ _ _ _ hrun => by cases hrun

/-! ### Rules that end with a token of their own -/

variable {α β : Type} {left right : Parser α} {leftNext rightNext : α → Parser β}

theorem Closing.faithful (h : Closing next following left right) :
    Faithful next following left right := by
  intro state other hstate value after hrun
  by_cases hupcoming : state.upcoming = []
  · exact absurd hrun (h.refuses state (hstate.atMark hupcoming) value after)
  · obtain ⟨hlength, hrest⟩ := h.inside state other hstate hupcoming value after hrun
    exact ⟨Nat.le_of_lt hlength, hrest⟩

theorem faithful_pure {value found : α} (h : value = found) :
    Faithful next following (pure value) (pure found) := by
  intro state other hstate result after hrun
  cases hrun
  exact ⟨Nat.le_refl _, other, h ▸ rfl, hstate⟩

theorem Faithful.bind (h : Faithful next following left right)
    (hnext : ∀ value, Faithful next following (leftNext value) (rightNext value)) :
    Faithful next following (left >>= leftNext) (right >>= rightNext) := by
  intro state other hstate value after hrun
  obtain ⟨first, middle, hleft, hrun⟩ := exists_of_bind_ok hrun
  obtain ⟨hlength, rest, hright, hrest⟩ := h state other hstate first middle hleft
  obtain ⟨hlast, hfinal⟩ := hnext first middle rest hrest value after hrun
  rw [bind_of_ok hright]
  exact ⟨Nat.le_trans hlast hlength, hfinal⟩

theorem Inside.bind (h : Inside next following left right)
    (hnext : ∀ value, Faithful next following (leftNext value) (rightNext value)) :
    Inside next following (left >>= leftNext) (right >>= rightNext) := by
  intro state other hstate hupcoming value after hrun
  obtain ⟨first, middle, hleft, hrun⟩ := exists_of_bind_ok hrun
  obtain ⟨hlength, rest, hright, hrest⟩ := h state other hstate hupcoming first middle hleft
  obtain ⟨hlast, hfinal⟩ := hnext first middle rest hrest value after hrun
  rw [bind_of_ok hright]
  exact ⟨Nat.lt_of_le_of_lt hlast hlength, hfinal⟩

theorem Refuses.bind {holds : ParserState → Prop} (h : Refuses holds left)
    (leftNext : α → Parser β) : Refuses holds (left >>= leftNext) := by
  intro state hstate value after hrun
  obtain ⟨first, middle, hleft, -⟩ := exists_of_bind_ok hrun
  exact h state hstate first middle hleft

theorem Closing.bind (h : Closing next following left right)
    (hnext : ∀ value, Faithful next following (leftNext value) (rightNext value)) :
    Closing next following (left >>= leftNext) (right >>= rightNext) :=
  ⟨h.inside.bind hnext, h.refuses.bind leftNext⟩

/-- What comes before a token of the rule may look at the tokens in any way. -/
theorem Parallel.closing {related : α → α → Prop} (h : Parallel id id True related left right)
    (hnext : ∀ value found, related value found →
      Closing next following (leftNext value) (rightNext found)) :
    Closing next following (left >>= leftNext) (right >>= rightNext) := by
  constructor
  · intro state other hstate hupcoming value after hrun
    obtain ⟨first, middle, hleft, hrun⟩ := exists_of_bind_ok hrun
    obtain ⟨hlength, found, hfound, hcases⟩ := h.loose state other hstate first middle hleft
    rcases hcases with ⟨rest, hright, hrest⟩ | hmark
    · by_cases hmiddle : middle.upcoming = []
      · exact absurd hrun
          ((hnext first found hfound).refuses middle (hrest.atMark hmiddle) value after)
      · obtain ⟨hlast, hfinal⟩ :=
          (hnext first found hfound).inside middle rest hrest hmiddle value after hrun
        rw [bind_of_ok hright]
        exact ⟨Nat.lt_of_lt_of_le hlast hlength, hfinal⟩
    · exact absurd hrun ((hnext first found hfound).refuses middle hmark value after)
  · intro state hstate value after hrun
    obtain ⟨first, middle, hleft, hrun⟩ := exists_of_bind_ok hrun
    obtain ⟨⟨found, hfound⟩, hmark⟩ := h.atMark hstate hleft
    exact (hnext first found hfound).refuses middle hmark value after hrun

theorem closing_throw (error other : ParseError) :
    Closing next following (throw error : Parser α) (throw other) :=
  ⟨fun _ _ _ _ _ _ hrun => (nomatch hrun), fun _ _ _ _ hrun => (nomatch hrun)⟩

theorem refuses_unexpected (holds : ParserState → Prop) (expected : String) :
    Refuses holds (unexpected expected : Parser α) :=
  fun _ _ _ _ hrun => nomatch hrun

theorem closing_unexpected (expected : String) :
    Closing next following (unexpected expected : Parser α) (unexpected expected) :=
  ⟨fun _ _ _ _ _ _ hrun => (nomatch hrun), refuses_unexpected AtMark expected⟩

theorem inside_advance : Inside next following advance advance :=
  fun _ _ hstate hupcoming _ _ hrun => hstate.advance hupcoming hrun

/-- A rule that is chosen by the current token. -/
theorem closing_current {leftNext rightNext : Token → Parser β}
    (hinside : ∀ token, token.kind ≠ .endOfInput →
      Inside next following (leftNext token) (rightNext token))
    (hrefuses : ∀ token, token.kind = .endOfInput → Refuses AtMark (leftNext token)) :
    Closing next following (current >>= leftNext) (current >>= rightNext) := by
  refine ⟨fun state other hstate hupcoming value after hrun => ?_, fun state hstate => ?_⟩
  · have hkind : state.current.kind ≠ .endOfInput ∧ state.current = other.current := by
      cases hstate with
      | inside hmark hkinds => exact ⟨(List.forall_mem_cons.mp hkinds).1, rfl⟩
      | done => exact absurd rfl hupcoming
    change _ ∧ ∃ rest, rightNext other.current other = _ ∧ _
    rw [← hkind.2]
    exact hinside _ hkind.1 state other hstate hupcoming value after hrun
  · exact hrefuses _ hstate.kind state hstate

theorem closing_check {kind : TokenKind} {leftNext rightNext : Bool → Parser β}
    (hkind : kind ≠ .endOfInput)
    (hinside : ∀ found, Inside next following (leftNext found) (rightNext found))
    (hrefuses : Refuses AtMark (leftNext false)) :
    Closing next following (check kind >>= leftNext) (check kind >>= rightNext) := by
  refine closing_current (fun token _ => hinside (token.kind == kind)) fun token hend => ?_
  rw [hend, beq_false_of_ne hkind.symm]
  exact hrefuses

theorem closing_expect {kind : TokenKind} (hkind : kind ≠ .endOfInput) (expected : String) :
    Closing next following (expect kind expected) (expect kind expected) := by
  refine closing_check hkind (fun found => ?_) (refuses_unexpected AtMark expected)
  cases found with
  | true => exact inside_advance
  | false => exact (closing_unexpected expected).inside

theorem closing_nested (h : Closing next following left right) :
    Closing next following (nested left) (nested right) := by
  constructor
  · intro state other hstate hupcoming value after hrun
    unfold Parser.nested at hrun ⊢
    rw [← hstate.depth_eq]
    split at hrun
    · cases hrun
    · rename_i hdepth
      rw [if_neg hdepth]
      split at hrun
      · rename_i inner hinner
        cases hrun
        obtain ⟨hlength, rest, hright, hrest⟩ := h.inside _ _ (hstate.withDepth (state.depth + 1))
          hupcoming _ _ hinner
        refine ⟨hlength, { rest with depth := rest.depth - 1 }, ?_, ?_⟩
        · rw [hright]
        · rw [← hrest.depth_eq]
          exact hrest.withDepth _
      · cases hrun
  · intro state hstate value after hrun
    unfold Parser.nested at hrun
    split at hrun
    · cases hrun
    · split at hrun
      · rename_i hinner
        have hdeeper : AtMark { state with depth := state.depth + 1 } :=
          ⟨hstate.kind, hstate.upcoming, hstate.failure⟩
        exact h.refuses _ hdeeper _ _ hinner
      · cases hrun

/-- Whether the current token is an `else`, both runs agree, if the first further token is none. -/
theorem kind_beq_else {state other : ParserState} (hnext : next.kind ≠ .kwElse)
    (h : Extended next following state other) :
    (state.current.kind == .kwElse) = (other.current.kind == .kwElse) := by
  cases h with
  | inside => rfl
  | done hmark =>
      rw [hmark, beq_false_of_ne hnext]
      rfl

/-- An `else` is the only token that a finished statement looks for. -/
theorem faithful_accept_else (hnext : next.kind ≠ .kwElse) :
    Faithful next following (accept .kwElse) (accept .kwElse) := by
  intro state other hstate value after hrun
  let branch (found : Bool) : Parser Bool :=
    if found = true then advance >>= fun _ => pure true else pure false
  change branch (state.current.kind == .kwElse) state = _ at hrun
  change _ ∧ ∃ rest, branch (other.current.kind == .kwElse) other = _ ∧ _
  rw [← kind_beq_else hnext hstate]
  cases helse : state.current.kind == .kwElse with
  | false =>
      rw [helse] at hrun
      exact faithful_pure rfl state other hstate value after hrun
  | true =>
      rw [helse] at hrun
      have hupcoming : state.upcoming ≠ [] := by
        intro hnil
        rw [(hstate.atMark hnil).kind] at helse
        exact absurd helse (by decide)
      obtain ⟨hlength, hrest⟩ := (inside_advance.bind fun _ => faithful_pure rfl) state other hstate
        hupcoming value after hrun
      exact ⟨Nat.le_of_lt hlength, hrest⟩

end

theorem eq_of_sameExpr {left right : Expr} (h : SameExpr id id left right) : left = right := by
  rwa [SameExpr, Expr.relocate_id, Expr.relocate_id] at h

theorem eq_of_sameStmt {left right : Stmt} (h : SameStmt id id left right) : left = right := by
  rwa [SameStmt, Stmt.relocate_id, Stmt.relocate_id] at h

/-- The rules of statements end with a token of their own, up to the chain of an `if`, which looks
for an `else`. -/
structure RulesClosing (next : Token) (following : List Token) (fuel more : Nat) : Prop where
  statement : Closing next following (statement fuel) (statement more)
  conditional (sense : Sense) :
    Closing next following (conditional fuel sense) (conditional more sense)
  elseChain : Faithful next following (elseChain fuel) (elseChain more)
  loop (sense : Sense) : Closing next following (loop fuel sense) (loop more sense)
  each : Closing next following (each fuel) (each more)
  sub : Closing next following (sub fuel) (sub more)
  choice : Closing next following (choice fuel) (choice more)
  caseList : Closing next following (caseList fuel) (caseList more)
  block : Closing next following (block fuel) (block more)
  blockTail : Closing next following (blockTail fuel) (blockTail more)

namespace RulesClosing

variable {next : Token} {following : List Token} {fuel more : Nat}
  (hrules : RulesParallel id id True fuel more) (ih : RulesClosing next following fuel more)
include hrules ih

theorem conditional_succ (sense : Sense) :
    Closing next following (Parser.conditional (fuel + 1) sense)
      (Parser.conditional (more + 1) sense) := by
  refine Parallel.advance.closing fun token other htoken => ?_
  refine hrules.expression.closing fun condition _ hcondition => ?_
  obtain rfl := eq_of_sameExpr hcondition
  refine ih.block.bind fun body => ih.elseChain.bind fun branches => faithful_pure ?_
  have hstart : token.start = other.start := htoken.start
  simp only [hstart]

theorem loop_succ (sense : Sense) :
    Closing next following (Parser.loop (fuel + 1) sense) (Parser.loop (more + 1) sense) := by
  refine Parallel.advance.closing fun token other htoken => ?_
  refine hrules.expression.closing fun condition _ hcondition => ?_
  obtain rfl := eq_of_sameExpr hcondition
  refine ih.block.bind fun body => faithful_pure ?_
  have hstart : token.start = other.start := htoken.start
  rw [hstart]

theorem elseChain_succ (hnext : next.kind ≠ .kwElse) :
    Faithful next following (Parser.elseChain (fuel + 1)) (Parser.elseChain (more + 1)) := by
  refine (faithful_accept_else hnext).bind fun hasElse => ?_
  cases hasElse with
  | false => exact faithful_pure rfl
  | true =>
      refine ((parallel_accept .kwIf).closing fun hasIf _ hsame => ?_).faithful
      subst hsame
      split
      · refine hrules.expression.closing fun condition _ hcondition => ?_
        obtain rfl := eq_of_sameExpr hcondition
        exact ih.block.bind fun body => ih.elseChain.bind fun branches => faithful_pure rfl
      · refine (parallel_accept .kwUnless).closing fun hasUnless _ hsame => ?_
        subst hsame
        split
        · refine hrules.expression.closing fun condition _ hcondition => ?_
          obtain rfl := eq_of_sameExpr hcondition
          exact ih.block.bind fun body => ih.elseChain.bind fun branches => faithful_pure rfl
        · exact ih.block.bind fun body => faithful_pure rfl

theorem each_succ :
    Closing next following (Parser.each (fuel + 1)) (Parser.each (more + 1)) := by
  refine Parallel.advance.closing fun token other htoken => ?_
  have hstart : token.start = other.start := htoken.start
  refine hrules.expression.closing fun head _ hhead => ?_
  obtain rfl := eq_of_sameExpr hhead
  refine (parallel_accept .kwIn).closing fun isNamed _ hsame => ?_
  subst hsame
  split
  · split
    · refine hrules.expression.closing fun iterable _ hiterable => ?_
      obtain rfl := eq_of_sameExpr hiterable
      refine ih.block.bind fun body => faithful_pure ?_
      rw [hstart]
    · exact closing_throw _ _
  · refine ih.block.bind fun body => faithful_pure ?_
    rw [hstart]

theorem sub_succ : Closing next following (Parser.sub (fuel + 1)) (Parser.sub (more + 1)) := by
  refine Parallel.advance.closing fun token other htoken => ?_
  have hstart : token.start = other.start := htoken.start
  refine parallel_expectName.closing fun name _ hname => ?_
  subst hname
  refine (parallel_accept .leftParen).closing fun hasParameters _ hsame => ?_
  subst hsame
  split
  · refine hrules.parameters.closing fun parameters _ hparameters => ?_
    subst hparameters
    refine ih.block.bind fun body => faithful_pure ?_
    rw [hstart]
  · refine ih.block.bind fun body => faithful_pure ?_
    rw [hstart]

theorem choice_succ :
    Closing next following (Parser.choice (fuel + 1)) (Parser.choice (more + 1)) := by
  refine Parallel.advance.closing fun token other htoken => ?_
  have hstart : token.start = other.start := htoken.start
  refine (Parallel.check .leftBrace).closing fun bare _ hsame => ?_
  subst hsame
  split
  · refine (parallel_expect _ _).closing fun _ _ _ => ?_
    refine ih.caseList.bind fun branches => faithful_pure ?_
    simp only [hstart]
  · refine hrules.expression.closing fun subject _ hsubject => ?_
    obtain rfl := eq_of_sameExpr hsubject
    refine (parallel_expect _ _).closing fun _ _ _ => ?_
    refine ih.caseList.bind fun branches => faithful_pure ?_
    simp only [hstart]

theorem caseList_succ :
    Closing next following (Parser.caseList (fuel + 1)) (Parser.caseList (more + 1)) := by
  refine closing_current (fun token _ => ?_) fun token hend => ?_
  · split
    · exact inside_advance.bind fun _ => faithful_pure rfl
    · refine Closing.inside (Parallel.advance.closing fun _ _ _ => ?_)
      refine hrules.expression.closing fun condition _ hcondition => ?_
      obtain rfl := eq_of_sameExpr hcondition
      exact ih.block.bind fun body => ih.caseList.faithful.bind fun branches => faithful_pure rfl
    · refine Closing.inside (Parallel.advance.closing fun _ _ _ => ?_)
      refine ih.block.bind fun body => Faithful.bind ?_ fun _ => faithful_pure rfl
      exact (closing_expect (by decide) _).faithful
    · exact (closing_unexpected _).inside
  · rw [hend]
    exact refuses_unexpected AtMark _

omit hrules in
theorem block_succ : Closing next following (Parser.block (fuel + 1)) (Parser.block (more + 1)) :=
  (parallel_expect _ _).closing fun _ _ _ => closing_nested ih.blockTail

omit hrules in
theorem blockTail_succ :
    Closing next following (Parser.blockTail (fuel + 1)) (Parser.blockTail (more + 1)) := by
  refine closing_current (fun token _ => ?_) fun token hend => ?_
  · split
    · exact inside_advance.bind fun _ => faithful_pure rfl
    · exact (closing_unexpected _).inside
    · refine (ih.statement.bind fun first => ?_).inside
      exact ih.blockTail.faithful.bind fun rest => faithful_pure rfl
  · rw [hend]
    exact refuses_unexpected AtMark _

theorem statement_succ :
    Closing next following (Parser.statement (fuel + 1)) (Parser.statement (more + 1)) := by
  refine Parallel.current.closing fun token other htoken => ?_
  rw [htoken.kind]
  split
  · exact ih.conditional .whenTrue
  · exact ih.conditional .whenFalse
  · exact ih.loop .whenTrue
  · exact ih.loop .whenFalse
  · exact ih.each
  · exact ih.sub
  · exact ih.choice
  · refine (hrules.postLoop trivial).closing fun result _ hresult => ?_
    exact (closing_expect (by decide) _).bind fun _ => faithful_pure (eq_of_sameStmt hresult)
  · refine hrules.declaration.closing fun result _ hresult => ?_
    exact (closing_expect (by decide) _).bind fun _ => faithful_pure (eq_of_sameStmt hresult)
  · refine (hrules.simpleStatement trivial).closing fun simple _ hsimple => ?_
    refine (hrules.modified hsimple).closing fun result _ hresult => ?_
    exact (closing_expect (by decide) _).bind fun _ => faithful_pure (eq_of_sameStmt hresult)

end RulesClosing

theorem closing_exhausted {next : Token} {following : List Token} {α : Type} (right : Parser α) :
    Closing next following exhausted right :=
  ⟨fun _ _ _ _ _ _ hrun => (nomatch hrun), fun _ _ _ _ hrun => (nomatch hrun)⟩

theorem rulesClosing {next : Token} (hnext : next.kind ≠ .kwElse) (following : List Token)
    {fuel more : Nat} (h : fuel ≤ more) : RulesClosing next following fuel more := by
  induction fuel generalizing more with
  | zero =>
      constructor
      case elseChain => exact (closing_exhausted _).faithful
      all_goals intros; exact closing_exhausted _
  | succ fuel ih =>
      obtain ⟨more, rfl⟩ : ∃ less, more = less + 1 := ⟨more - 1, by omega⟩
      have hless := Nat.le_of_succ_le_succ h
      have hrules := rulesParallel id id True hless
      have hclosing := ih hless
      exact
        { statement := hclosing.statement_succ hrules
          conditional := hclosing.conditional_succ hrules
          elseChain := hclosing.elseChain_succ hrules hnext
          loop := hclosing.loop_succ hrules
          each := hclosing.each_succ hrules
          sub := hclosing.sub_succ hrules
          choice := hclosing.choice_succ hrules
          caseList := hclosing.caseList_succ hrules
          block := hclosing.block_succ
          blockTail := hclosing.blockTail_succ }

end Parser

end ScriptEngine
