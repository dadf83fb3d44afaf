import ScriptEngine.Proofs.Program.Extension
import ScriptEngine.Proofs.Program.Nesting

/-!
# Postfix chains

A postfix chain is read suffix by suffix. What is found does not depend on how much fuel or how many
levels are left, as long as they are enough (`Parallel.lowered`), nor on what follows the chain, nor
on whether brackets have to touch, if they do. A bracket with suffixes that was read on its own, as
an array, can be set behind another head afterwards: it then is what would have been found behind
that head (`suffixes_of_reattach`).
-/

namespace ScriptEngine

namespace Parser

/-! ### Less nesting and more fuel -/

theorem lt_of_nested_ok {α : Type} {inner : Parser α} {state after : ParserState} {value : α}
    (h : nested inner state = .ok value after) : state.depth < nestingLimit := by
  unfold nested at h
  split at h
  · cases h
  · rename_i hdepth
    exact Nat.lt_of_not_le hdepth

/-- A run ends on the level where it started. -/
theorem Parallel.depth_eq {α : Type} {related : α → α → Prop} {left right : Parser α}
    (h : Parallel id id True related left right) (state : ParserState) :
    (finalState (left state)).depth = state.depth := by
  obtain ⟨events, hevents⟩ := h.traced state
  exact hevents.depth_eq

/-- A run that finds something finds it further up as well. -/
theorem Parallel.lowered {α : Type} {related : α → α → Prop} {left right : Parser α}
    (h : Parallel id id True related left right) {state after : ParserState} {value : α}
    {depth : Nat} (hdepth : depth ≤ state.depth) (hrun : left state = .ok value after) :
    ∃ found, related value found ∧
      right { state with depth := depth } = .ok found { after with depth := depth } := by
  induction h generalizing state after depth with
  | pure h =>
      cases hrun
      exact ⟨_, h, rfl⟩
  | @bind _ _ _ _ left _ leftNext _ h _ ih ihnext =>
      obtain ⟨first, middle, hfirst, hrun⟩ := exists_of_bind_ok hrun
      obtain ⟨found, hfound, hright⟩ := ih hdepth hfirst
      have hmiddle : middle.depth = state.depth := by
        have hbalanced := h.depth_eq state
        rwa [hfirst] at hbalanced
      obtain ⟨last, hlast, hnext⟩ := ihnext first found hfound (hmiddle ▸ hdepth) hrun
      rw [bind_of_ok hright]
      exact ⟨last, hlast, hnext⟩
  | current =>
      cases hrun
      exact ⟨_, ⟨rfl, rfl, rfl⟩, rfl⟩
  | check kind =>
      cases hrun
      exact ⟨_, rfl, rfl⟩
  | advance =>
      refine ⟨value, ⟨rfl, rfl, rfl⟩, ?_⟩
      unfold Parser.advance at hrun ⊢
      dsimp only at hrun ⊢
      split at hrun
      · cases hrun
        simp [*]
      · cases hrun
      · cases hrun
        simp [*]
  | attached _ ih => exact ih _ _ _ _ ⟨rfl, rfl, rfl⟩ (fun _ _ => rfl) hdepth hrun
  | throw => cases hrun
  | @nested _ _ left right _ ih =>
      have hless : state.depth < nestingLimit := lt_of_nested_ok hrun
      rw [nested_of_lt left hless] at hrun
      rw [nested_of_lt right (Nat.lt_of_le_of_lt hdepth hless)]
      cases hinner : left { state with depth := state.depth + 1 } with
      | ok inner middle =>
          rw [hinner] at hrun
          cases hrun
          obtain ⟨found, hfound, hright⟩ := ih (Nat.succ_le_succ hdepth) hinner
          refine ⟨found, hfound, ?_⟩
          dsimp only at hright ⊢
          rw [hright]
          rfl
      | error error middle =>
          rw [hinner] at hrun
          cases hrun
  | exhausted => cases hrun

section

variable {fuel more : Nat} {state after : ParserState} {tree : Expr}

/-- With more fuel the same is found. -/
theorem Parallel.found {α : Type} {related : α → α → Prop} {left right : Parser α} {value : α}
    (h : Parallel id id True related left right) (hrun : left state = .ok value after) :
    ∃ found, related value found ∧ right state = .ok found after := by
  obtain ⟨found, hfound, hright⟩ := h.lowered (Nat.le_refl state.depth) hrun
  have hdepth : after.depth = state.depth := by
    have hbalanced := h.depth_eq state
    rwa [hrun] at hbalanced
  have hafter : { after with depth := state.depth } = after := by rw [← hdepth]
  rw [hafter] at hright
  exact ⟨found, hfound, hright⟩

theorem expression_of_le (hfuel : fuel ≤ more) (hrun : expression fuel state = .ok tree after) :
    expression more state = .ok tree after := by
  obtain ⟨found, hfound, hmore⟩ := (rulesParallel id id True hfuel).expression.found hrun
  rwa [eq_of_sameExpr hfound]

theorem postfixChain_of_le (hfuel : fuel ≤ more) {touching : Bool}
    (hrun : postfixChain fuel touching state = .ok tree after) :
    postfixChain more touching state = .ok tree after := by
  obtain ⟨found, hfound, hmore⟩ :=
    ((rulesParallel id id True hfuel).postfixChain touching fun _ => trivial).found hrun
  rwa [eq_of_sameExpr hfound]

theorem suffixes_of_le (hfuel : fuel ≤ more) {touching : Bool} {head : Expr}
    (hrun : suffixes fuel touching head state = .ok tree after) :
    suffixes more touching head state = .ok tree after := by
  obtain ⟨found, hfound, hmore⟩ :=
    ((rulesParallel id id True hfuel).suffixes touching (fun _ => trivial) rfl).found hrun
  rwa [eq_of_sameExpr hfound]

/-- Whatever the fuel, at most one chain is found. -/
theorem postfixChain_unique {touching : Bool} {other : Expr} {rest : ParserState}
    (hrun : postfixChain fuel touching state = .ok tree after)
    (hother : postfixChain more touching state = .ok other rest) : tree = other ∧ after = rest := by
  have hleft := postfixChain_of_le (Nat.le_max_left fuel more) hrun
  rw [postfixChain_of_le (Nat.le_max_right fuel more) hother] at hleft
  cases hleft
  exact ⟨rfl, rfl⟩

theorem fresh_postfixChain (fuel : Nat) (touching : Bool) : Fresh (postfixChain fuel touching) := by
  cases fuel with
  | zero => exact fresh_exhausted
  | succ fuel => exact (fresh_primary fuel).bind _

end

/-! ### One suffix after another -/

/-- An index up to the bracket that closes it. -/
def closedIndex (fuel : Nat) : Parser Expr := do
  let index ← expression fuel
  let _ ← expect .rightBracket "']' after index"
  return index

/-- One suffix is read behind a head. -/
inductive ReadsSuffix (fuel : Nat) (head : Expr) (state : ParserState) : Expr → ParserState → Prop
  | call {passed : Token} {inner after : ParserState} {arguments : List Expr}
      (hkind : state.current.kind = .leftParen) (hadvance : advance state = .ok passed inner)
      (harguments : Parser.arguments fuel inner = .ok arguments after) :
      ReadsSuffix fuel head state (.call head.position head arguments) after
  | index {passed : Token} {inner after : ParserState} {index : Expr}
      (hkind : state.current.kind = .leftBracket) (hadvance : advance state = .ok passed inner)
      (hindex : closedIndex fuel inner = .ok index after) :
      ReadsSuffix fuel head state (.index head.position head index) after
  | member {passed : Token} {inner after : ParserState} {property : String}
      (hkind : state.current.kind = .dot) (hadvance : advance state = .ok passed inner)
      (hproperty : expectMemberName inner = .ok property after) :
      ReadsSuffix fuel head state (.member head.position head property) after

/-- A bracket continues a chain in which brackets have to touch only if it does. -/
def MayTouch (touching : Bool) (state : ParserState) : Prop :=
  touching → state.current.kind ≠ .dot → state.current.start = state.previousStop

/-- Nothing here continues the chain. -/
structure EndsChain (touching : Bool) (state : ParserState) : Prop where
  dot : state.current.kind ≠ .dot
  bracket : state.current.kind = .leftParen ∨ state.current.kind = .leftBracket →
    touching ∧ state.current.start ≠ state.previousStop

section

variable {fuel more : Nat} {touching : Bool} {head tree longer : Expr}
  {state middle after : ParserState}

theorem current_eq (state : ParserState) : current state = .ok state.current state :=
  rfl

theorem isAttached_eq (state : ParserState) :
    isAttached state = .ok (decide (state.current.start = state.previousStop)) state :=
  rfl

theorem expect_eq_ok {kind : TokenKind} {expected : String} {token : Token} :
    expect kind expected state = .ok token after ↔
      state.current.kind = kind ∧ advance state = .ok token after := by
  change (if state.current.kind == kind then advance else unexpected expected) state = _ ↔ _
  split
  · next hkind => exact (and_iff_right (eq_of_beq hkind)).symm
  · next hkind => exact ⟨fun h => (nomatch h), fun h => absurd (beq_iff_eq.mpr h.1) hkind⟩

theorem accept_of_ne {kind : TokenKind} (hkind : state.current.kind ≠ kind) :
    accept kind state = .ok false state := by
  change (if state.current.kind == kind then advance >>= fun _ => pure true else pure false) state = _
  rw [beq_false_of_ne hkind]
  rfl

theorem accept_of_eq {kind : TokenKind} {passed : Token} (hkind : state.current.kind = kind)
    (hadvance : advance state = .ok passed after) : accept kind state = .ok true after := by
  change (if state.current.kind == kind then advance >>= fun _ => pure true else pure false) state = _
  rw [beq_iff_eq.mpr hkind, if_pos rfl, bind_of_ok hadvance]
  rfl

theorem accept_cases {kind : TokenKind} {found : Bool} (hrun : accept kind state = .ok found after) :
    found = false ∧ state.current.kind ≠ kind ∧ after = state ∨
      found = true ∧ state.current.kind = kind ∧ ∃ token, advance state = .ok token after := by
  change (if state.current.kind == kind then advance >>= fun _ => pure true else pure false) state = _
    at hrun
  split at hrun
  · next hkind =>
      obtain ⟨token, middle, hadvance, hrun⟩ := exists_of_bind_ok hrun
      cases hrun
      exact .inr ⟨rfl, eq_of_beq hkind, token, hadvance⟩
  · next hkind =>
      cases hrun
      exact .inl ⟨rfl, fun h => hkind (beq_iff_eq.mpr h), rfl⟩

theorem closedIndex_eq_ok {index : Expr} :
    closedIndex fuel state = .ok index after ↔ ∃ middle token,
      expression fuel state = .ok index middle ∧
        expect .rightBracket "']' after index" middle = .ok token after := by
  constructor
  · intro h
    obtain ⟨first, middle, hfirst, h⟩ := exists_of_bind_ok h
    obtain ⟨token, rest, htoken, h⟩ := exists_of_bind_ok h
    cases h
    exact ⟨middle, token, hfirst, htoken⟩
  · rintro ⟨middle, token, hindex, htoken⟩
    unfold closedIndex
    rw [bind_of_ok hindex, bind_of_ok htoken]
    rfl

/-- The chain goes on behind a suffix. -/
theorem suffixes_of_reads (h : ReadsSuffix fuel head state longer middle)
    (htouch : MayTouch touching state) :
    suffixes (fuel + 1) touching head state = suffixes fuel touching longer middle := by
  rw [suffixes, bind_of_ok (isAttached_eq state), bind_of_ok (current_eq state)]
  have hcontinues (hkind : state.current.kind ≠ .dot) :
      (!touching || decide (state.current.start = state.previousStop)) = true := by
    cases touching with
    | false => rfl
    | true => exact decide_eq_true (htouch rfl hkind)
  cases h with
  | call hkind hadvance harguments =>
      rw [hcontinues (by rw [hkind]; decide), hkind]
      dsimp only
      rw [bind_of_ok hadvance, bind_of_ok harguments]
  | index hkind hadvance hindex =>
      obtain ⟨closing, token, hindex, htoken⟩ := closedIndex_eq_ok.mp hindex
      rw [hcontinues (by rw [hkind]; decide), hkind]
      dsimp only
      rw [bind_of_ok hadvance, bind_of_ok hindex, bind_of_ok htoken]
  | member hkind hadvance hproperty =>
      rw [hkind]
      dsimp only
      rw [bind_of_ok hadvance, bind_of_ok hproperty]

theorem suffixes_of_ends (h : EndsChain touching state) :
    suffixes (fuel + 1) touching head state = .ok head state := by
  rw [suffixes, bind_of_ok (isAttached_eq state), bind_of_ok (current_eq state)]
  have hcontinues (hkind : state.current.kind = .leftParen ∨ state.current.kind = .leftBracket) :
      (!touching || decide (state.current.start = state.previousStop)) = false := by
    obtain ⟨htouching, hapart⟩ := h.bracket hkind
    rw [htouching, decide_eq_false hapart]
    rfl
  generalize hkind : state.current.kind = kind
  generalize hflag : (!touching || decide (state.current.start = state.previousStop)) = continues
  rw [hkind, hflag] at hcontinues
  split
  · exact absurd (hcontinues (.inl rfl)) (by decide)
  · exact absurd (hcontinues (.inr rfl)) (by decide)
  · exact absurd hkind h.dot
  · rfl

/-- A chain ends, or there is a suffix and the chain goes on behind it. -/
theorem suffixes_cases (hrun : suffixes (fuel + 1) touching head state = .ok tree after) :
    (EndsChain touching state ∧ tree = head ∧ after = state) ∨
      ∃ longer middle, ReadsSuffix fuel head state longer middle ∧ MayTouch touching state ∧
        suffixes fuel touching longer middle = .ok tree after := by
  rw [suffixes, bind_of_ok (isAttached_eq state), bind_of_ok (current_eq state)] at hrun
  have hmay (h : (!touching || decide (state.current.start = state.previousStop)) = true) :
      MayTouch touching state := by
    intro htouching _
    rw [htouching] at h
    exact of_decide_eq_true h
  generalize hkind : state.current.kind = kind at hrun
  generalize hflag : (!touching || decide (state.current.start = state.previousStop)) = continues
    at hrun hmay
  split at hrun
  · obtain ⟨passed, inner, hadvance, hrun⟩ := exists_of_bind_ok hrun
    obtain ⟨arguments, middle, harguments, hrun⟩ := exists_of_bind_ok hrun
    exact .inr ⟨_, middle, .call hkind hadvance harguments, hmay rfl, hrun⟩
  · next =>
      obtain ⟨passed, inner, hadvance, hrun⟩ := exists_of_bind_ok hrun
      obtain ⟨index, closing, hindex, hrun⟩ := exists_of_bind_ok hrun
      obtain ⟨token, middle, htoken, hrun⟩ := exists_of_bind_ok hrun
      have hclosed := closedIndex_eq_ok.mpr ⟨closing, token, hindex, htoken⟩
      exact .inr ⟨_, middle, .index hkind hadvance hclosed, hmay rfl, hrun⟩
  · next =>
      obtain ⟨passed, inner, hadvance, hrun⟩ := exists_of_bind_ok hrun
      obtain ⟨property, middle, hproperty, hrun⟩ := exists_of_bind_ok hrun
      exact .inr ⟨_, middle, .member hkind hadvance hproperty, fun _ hdot => absurd hkind hdot, hrun⟩
  · next hdot hparen hbracket =>
      cases hrun
      refine .inl ⟨⟨fun hdotted => ?_, fun hbracketed => ?_⟩, rfl, rfl⟩
      · exact hdot (hkind.symm.trans hdotted)
      · have hfalse : (!touching || decide (state.current.start = state.previousStop)) = false := by
          rw [Bool.eq_false_iff, hflag]
          rw [hkind] at hbracketed
          exact fun htrue => hbracketed.elim (hparen · htrue) (hbracket · htrue)
        rw [Bool.or_eq_false_iff, Bool.not_eq_false', decide_eq_false_iff_not] at hfalse
        exact hfalse

/-- Where the chain ends before no bracket, brackets need not touch. -/
theorem suffixes_of_touching (hrun : suffixes fuel true head state = .ok tree after)
    (hparen : after.current.kind ≠ .leftParen) (hbracket : after.current.kind ≠ .leftBracket) :
    suffixes fuel false head state = .ok tree after := by
  induction fuel generalizing head state with
  | zero => cases hrun
  | succ fuel ih =>
      rcases suffixes_cases hrun with ⟨hends, rfl, rfl⟩ | ⟨longer, middle, hreads, -, hrest⟩
      · exact suffixes_of_ends ⟨hends.dot, fun h => (h.elim hparen hbracket).elim⟩
      · rw [suffixes_of_reads hreads fun h => absurd h Bool.false_ne_true]
        exact ih hrest

/-! ### Brackets read on their own -/

/-- What can be set behind a head could so without its last suffix, which then is read behind it. -/
theorem ReadsSuffix.reattach {callee target : Expr} (h : ReadsSuffix fuel head state longer middle)
    (hreattach : reattach callee longer = some target) :
    ∃ base, Parser.reattach callee head = some base ∧ ∀ other, other.bare = base.bare →
      ∃ found, ReadsSuffix fuel other state found middle ∧ found.bare = target.bare := by
  cases h with
  | call => cases hreattach
  | @index passed inner after index hkind hadvance hindex =>
      obtain ⟨base, hbase, rfl⟩ := Option.map_eq_some_iff.mp hreattach
      refine ⟨base, hbase, fun other hother => ⟨_, .index hkind hadvance hindex, ?_⟩⟩
      exact congrArg (Expr.index .first · index.bare) hother
  | @member passed inner after property hkind hadvance hproperty =>
      obtain ⟨base, hbase, rfl⟩ := Option.map_eq_some_iff.mp hreattach
      refine ⟨base, hbase, fun other hother => ⟨_, .member hkind hadvance hproperty, ?_⟩⟩
      exact congrArg (Expr.member .first · property) hother

/-- **Suffixes behind another head.** What can be set behind a head after its suffixes have been read
is, up to places, what would have been read behind that head. -/
theorem suffixes_of_reattach {callee target : Expr}
    (hrun : suffixes fuel true head state = .ok tree after)
    (hreattach : reattach callee tree = some target) :
    ∃ base, reattach callee head = some base ∧ ∀ other, other.bare = base.bare →
      ∃ found, suffixes fuel true other state = .ok found after ∧ found.bare = target.bare := by
  induction fuel generalizing head state with
  | zero => cases hrun
  | succ fuel ih =>
      rcases suffixes_cases hrun with ⟨hends, rfl, rfl⟩ | ⟨longer, middle, hreads, hmay, hrest⟩
      · exact ⟨target, hreattach, fun other hother => ⟨other, suffixes_of_ends hends, hother⟩⟩
      · obtain ⟨inner, hinner, hsuffixes⟩ := ih hrest
        obtain ⟨base, hbase, hreplaced⟩ := hreads.reattach hinner
        refine ⟨base, hbase, fun other hother => ?_⟩
        obtain ⟨longer, hlonger, hbare⟩ := hreplaced other hother
        rw [suffixes_of_reads hlonger hmay]
        exact hsuffixes longer hbare

theorem state_eq_of_elements_nil (hrun : elements fuel state = .ok [] after) : after = state := by
  cases fuel with
  | zero => cases hrun
  | succ fuel =>
      unfold elements at hrun
      obtain ⟨comma, middle, hcomma, hnext⟩ := exists_of_bind_ok hrun
      rcases accept_cases hcomma with ⟨rfl, -, rfl⟩ | ⟨rfl, -⟩
      · cases hnext
        rfl
      · obtain ⟨element, second, -, helement⟩ := exists_of_bind_ok hnext
        obtain ⟨rest, last, -, hrest⟩ := exists_of_bind_ok helement
        cases hrest

/-- A collection that can be set behind a head is a single index. -/
theorem collection_of_reattach {callee base target : Expr}
    (hrun : collection (fuel + 1) state = .ok base after)
    (hreattach : reattach callee base = some target) :
    ∃ passed inner index, advance state = .ok passed inner ∧
      closedIndex fuel inner = .ok index after ∧ target = .index passed.start callee index := by
  unfold collection at hrun
  obtain ⟨passed, inner, hadvance, hopened⟩ := exists_of_bind_ok hrun
  refine ⟨passed, inner, ?_⟩
  obtain ⟨colon, start, hcolon, hfirst⟩ := exists_of_bind_ok hopened
  rcases accept_cases hcolon with ⟨rfl, -, hstart⟩ | ⟨rfl, -⟩
  · obtain ⟨closed, first, hclosed, hsecond⟩ := exists_of_bind_ok hfirst
    rcases accept_cases hclosed with ⟨rfl, -, hsame⟩ | ⟨rfl, -⟩
    · obtain ⟨index, second, hindex, hthird⟩ := exists_of_bind_ok hsecond
      obtain ⟨pair, third, hpair, hfourth⟩ := exists_of_bind_ok hthird
      rcases accept_cases hpair with ⟨rfl, -, hunpaired⟩ | ⟨rfl, -⟩
      · obtain ⟨others, last, hothers, hfifth⟩ := exists_of_bind_ok hfourth
        obtain ⟨token, final, htoken, hlast⟩ := exists_of_bind_ok hfifth
        cases hlast
        cases others with
        | cons => cases hreattach
        | nil =>
            cases hreattach
            have hlisted := state_eq_of_elements_nil hothers
            rw [hsame, hstart] at hindex
            rw [hlisted, hunpaired] at htoken
            refine ⟨index, hadvance, closedIndex_eq_ok.mpr ⟨second, token, hindex, ?_⟩, rfl⟩
            exact expect_eq_ok.mpr (expect_eq_ok.mp htoken)
      · obtain ⟨value, last, -, hfifth⟩ := exists_of_bind_ok hfourth
        obtain ⟨entries, next, -, hsixth⟩ := exists_of_bind_ok hfifth
        obtain ⟨token, final, -, hlast⟩ := exists_of_bind_ok hsixth
        cases hlast
        cases hreattach
    · cases hsecond
      cases hreattach
  · obtain ⟨token, final, -, hlast⟩ := exists_of_bind_ok hfirst
    cases hlast
    cases hreattach

theorem closedIndex_of_le (hfuel : fuel ≤ more) {index : Expr}
    (hrun : closedIndex fuel state = .ok index after) :
    closedIndex more state = .ok index after := by
  obtain ⟨middle, token, hindex, htoken⟩ := closedIndex_eq_ok.mp hrun
  exact closedIndex_eq_ok.mpr ⟨middle, token, expression_of_le hfuel hindex, htoken⟩

theorem primary_of_name (hkind : state.current.kind = .identifier) :
    primary (fuel + 1) state =
      (advance >>= fun _ => pure (.name state.current.start state.current.literal)) state := by
  rw [primary, bind_of_ok (current_eq state), hkind]

theorem primary_of_bracket (hkind : state.current.kind = .leftBracket) :
    primary (fuel + 1) state = collection fuel state := by
  rw [primary, bind_of_ok (current_eq state), hkind]

/-- **A bracket behind a head.** What was read from a bracket on, and can be set behind a head, is up
to places what is read behind that head from there on, if the bracket touches it. -/
theorem suffixes_of_postfixChain {callee target : Expr} (hkind : state.current.kind = .leftBracket)
    (htouch : state.current.start = state.previousStop)
    (hrun : postfixChain fuel true state = .ok tree after)
    (hreattach : reattach callee tree = some target) (hfuel : fuel ≤ more) :
    ∃ found, suffixes more true callee state = .ok found after ∧ found.bare = target.bare := by
  match fuel with
  | 0 => cases hrun
  | 1 =>
      obtain ⟨base, middle, hprimary, -⟩ := exists_of_bind_ok hrun
      cases hprimary
  | 2 =>
      obtain ⟨base, middle, hprimary, -⟩ := exists_of_bind_ok hrun
      rw [primary_of_bracket hkind] at hprimary
      cases hprimary
  | fuel + 3 =>
      obtain ⟨more, rfl⟩ : ∃ less, more = less + 1 := ⟨more - 1, by omega⟩
      obtain ⟨base, middle, hprimary, hsuffixes⟩ := exists_of_bind_ok hrun
      rw [primary_of_bracket hkind] at hprimary
      obtain ⟨joined, hjoined, hreplaced⟩ := suffixes_of_reattach hsuffixes hreattach
      obtain ⟨passed, inner, index, hadvance, hindex, rfl⟩ :=
        collection_of_reattach hprimary hjoined
      have hclosed : closedIndex more inner = .ok index middle :=
        closedIndex_of_le (by omega) hindex
      obtain ⟨found, hfound, hbare⟩ := hreplaced (.index callee.position callee index) rfl
      refine ⟨found, ?_, hbare⟩
      rw [suffixes_of_reads (.index hkind hadvance hclosed) fun _ _ => htouch]
      exact suffixes_of_le (by omega) hfound

/-! ### Chains in expressions -/

theorem operatorChain_of_none {level : Nat} {left : Expr}
    (hrun : operatorChain fuel level left state = .ok tree after)
    (hnone : operatorAt level state.current.kind = none) : tree = left ∧ after = state := by
  cases fuel with
  | zero => cases hrun
  | succ fuel =>
      rw [operatorChain, bind_of_ok (current_eq state), hnone] at hrun
      cases hrun
      exact ⟨rfl, rfl⟩

/-- An operand without a unary operator begins with a chain, and is that chain if no operator
follows. -/
theorem operand_cases {level : Nat} (hrun : operand fuel level state = .ok tree after)
    (hunary : unaryOperatorAt state.current.kind = none) :
    ∃ less found middle, postfixChain less false state = .ok found middle ∧
      ((∀ level, operatorAt level middle.current.kind = none) → tree = found ∧ after = middle) := by
  induction fuel generalizing level tree after with
  | zero => cases hrun
  | succ fuel ih =>
      unfold operand at hrun
      split at hrun
      · obtain ⟨left, second, hleft, hchain⟩ := exists_of_bind_ok hrun
        obtain ⟨less, found, middle, hfound, hends⟩ := ih hleft
        refine ⟨less, found, middle, hfound, fun hnone => ?_⟩
        obtain ⟨rfl, rfl⟩ := hends hnone
        exact operatorChain_of_none hchain (hnone level)
      · cases fuel with
        | zero => cases hrun
        | succ fuel =>
            rw [unary, bind_of_ok (current_eq state), hunary] at hrun
            exact ⟨fuel, tree, after, hrun, fun _ => ⟨rfl, rfl⟩⟩

/-- An expression without a unary operator begins with a chain, which is found one level further up
as well, and is that chain if no operator follows. -/
theorem expression_cases (hrun : expression fuel state = .ok tree after)
    (hunary : unaryOperatorAt state.current.kind = none) :
    ∃ less found middle, postfixChain less false state = .ok found middle ∧
      ((∀ level, operatorAt level middle.current.kind = none) → tree = found ∧ after = middle) := by
  cases fuel with
  | zero => cases hrun
  | succ fuel =>
      have hless := lt_of_nested_ok hrun
      unfold expression at hrun
      rw [nested_of_lt _ hless] at hrun
      cases hinner : operand fuel 0 { state with depth := state.depth + 1 } with
      | error error inner =>
          rw [hinner] at hrun
          cases hrun
      | ok value inner =>
          rw [hinner] at hrun
          cases hrun
          obtain ⟨less, found, middle, hfound, hends⟩ := operand_cases hinner hunary
          have hparallel := (rulesParallel id id True (Nat.le_refl less)).postfixChain false
            fun _ => trivial
          obtain ⟨other, hsame, hlowered⟩ := hparallel.lowered (Nat.le_succ state.depth) hfound
          rw [← eq_of_sameExpr hsame] at hlowered
          refine ⟨less, found, _, hlowered, fun hnone => ?_⟩
          obtain ⟨rfl, rfl⟩ := hends hnone
          have hdepth : inner.depth = state.depth + 1 := by
            have hbalanced := ((rulesParallel id id True (Nat.le_refl fuel)).operand 0).depth_eq
              { state with depth := state.depth + 1 }
            rwa [hinner] at hbalanced
          rw [hdepth]
          exact ⟨rfl, rfl⟩

/-- **A bracket as an argument.** An argument that begins with a bracket and stops before an equals
sign is the chain that is found where brackets have to touch, if that one stops there. -/
theorem expression_of_postfixChain {found : Expr} {rest : ParserState}
    (hkind : state.current.kind = .leftBracket) (hrun : expression fuel state = .ok tree after)
    (hchain : postfixChain more true state = .ok found rest) (hstop : rest.current.kind = .equal) :
    tree = found ∧ after = rest := by
  have hunary : unaryOperatorAt state.current.kind = none := by rw [hkind]; rfl
  obtain ⟨less, other, middle, hother, hends⟩ := expression_cases hrun hunary
  have huntouching : postfixChain more false state = .ok found rest := by
    cases more with
    | zero => cases hchain
    | succ more =>
        obtain ⟨head, second, hhead, hsuffixes⟩ := exists_of_bind_ok hchain
        have hloose := suffixes_of_touching hsuffixes (by rw [hstop]; decide) (by rw [hstop]; decide)
        exact (bind_of_ok hhead).trans hloose
  obtain ⟨rfl, rfl⟩ := postfixChain_unique hother huntouching
  refine hends fun level => ?_
  rw [hstop]
  unfold operatorAt
  split <;> first | rfl | contradiction

end

/-! ### Chains before further tokens -/

section

variable {next : Token} {following : List Token} {fuel more : Nat}

/-- A rule that looks for a token takes it, or ends with a token of its own further on. -/
theorem closing_accept {α : Type} {kind : TokenKind} {leftNext rightNext : Bool → Parser α}
    (hkind : kind ≠ .endOfInput) (htrue : Faithful next following (leftNext true) (rightNext true))
    (hfalse : Closing next following (leftNext false) (rightNext false)) :
    Closing next following (accept kind >>= leftNext) (accept kind >>= rightNext) := by
  have hbranch (then_ : Bool → Parser α) : accept kind >>= then_ = check kind >>= fun found =>
      if found then advance >>= fun _ => then_ true else then_ false := by
    funext state
    change ((if state.current.kind == kind then advance >>= fun _ => pure true else pure false) >>=
        then_) state =
      (if state.current.kind == kind then advance >>= fun _ => then_ true else then_ false) state
    split
    · rw [bind_assoc]
      rfl
    · rfl
  rw [hbranch, hbranch]
  refine closing_check hkind (fun found => ?_) hfalse.refuses
  cases found with
  | true => exact inside_advance.bind fun _ => htrue
  | false => exact hfalse.inside

theorem closing_closedIndex (hfuel : fuel ≤ more) :
    Closing next following (closedIndex fuel) (closedIndex more) := by
  refine (rulesParallel id id True hfuel).expression.closing fun index _ hindex => ?_
  rw [eq_of_sameExpr hindex]
  exact (closing_expect (by decide) _).bind fun _ => faithful_pure rfl

theorem closing_arguments (hfuel : fuel ≤ more) :
    Closing next following (arguments fuel) (arguments more) := by
  induction fuel generalizing more with
  | zero => exact closing_exhausted _
  | succ fuel ih =>
      obtain ⟨more, rfl⟩ : ∃ less, more = less + 1 := ⟨more - 1, by omega⟩
      have hless := Nat.le_of_succ_le_succ hfuel
      refine closing_accept (by decide) (faithful_pure rfl) ?_
      refine (rulesParallel id id True hless).expression.closing fun argument _ hargument => ?_
      obtain rfl := eq_of_sameExpr hargument
      refine (Parallel.check .rightParen).closing fun last _ hsame => ?_
      subst hsame
      split
      · exact (ih hless).bind fun _ => faithful_pure rfl
      · refine (closing_expect (by decide) _).bind fun _ => ?_
        exact (ih hless).faithful.bind fun _ => faithful_pure rfl

theorem closing_collection (hfuel : fuel ≤ more) :
    Closing next following (collection fuel) (collection more) := by
  cases fuel with
  | zero => exact closing_exhausted _
  | succ fuel =>
      obtain ⟨more, rfl⟩ : ∃ less, more = less + 1 := ⟨more - 1, by omega⟩
      have hrules := rulesParallel id id True (Nat.le_of_succ_le_succ hfuel)
      refine Parallel.advance.closing fun opening other hopening => ?_
      have hstart : opening.start = other.start := hopening.start
      rw [hstart]
      refine (parallel_accept .colon).closing fun colon _ hsame => ?_
      subst hsame
      split
      · exact (closing_expect (by decide) _).bind fun _ => faithful_pure rfl
      · refine closing_accept (by decide) (faithful_pure rfl) ?_
        refine hrules.expression.closing fun head _ hhead => ?_
        obtain rfl := eq_of_sameExpr hhead
        refine (parallel_accept .colon).closing fun pair _ hsame => ?_
        subst hsame
        split
        · refine hrules.expression.closing fun value _ hvalue => ?_
          obtain rfl := eq_of_sameExpr hvalue
          refine hrules.entries.closing fun entries _ hentries => ?_
          rw [SameEntries, Entry.relocateAll_id, Entry.relocateAll_id] at hentries
          rw [hentries]
          exact (closing_expect (by decide) _).bind fun _ => faithful_pure rfl
        · refine hrules.elements.closing fun elements _ helements => ?_
          rw [SameExprs, Expr.relocateAll_id, Expr.relocateAll_id] at helements
          rw [helements]
          exact (closing_expect (by decide) _).bind fun _ => faithful_pure rfl

/-- The mark at the end of a row has no literal. -/
def HasEmptyMark (state : ParserState) : Prop :=
  ∀ token ∈ state.current :: state.upcoming, token.kind = .endOfInput → token.literal = ""

theorem Consumes.hasEmptyMark {state after : ParserState} (h : Consumes state after)
    (hmark : HasEmptyMark state) : HasEmptyMark after :=
  fun token htoken => hmark token (h.tokens.mem htoken)

section

variable {state other middle after : ParserState}

theorem Extended.current_eq (h : Extended next following state other)
    (hkind : state.current.kind ≠ .endOfInput) :
    state.upcoming ≠ [] ∧ state.current = other.current ∧
      state.previousStop = other.previousStop := by
  cases h with
  | inside => exact ⟨by simp, rfl, rfl⟩
  | done hmark => exact absurd hmark hkind

/-- The mark is no member name. -/
theorem expectMemberName_extended {property : String}
    (hstate : Extended next following state other) (hmark : HasEmptyMark state)
    (hrun : expectMemberName state = .ok property after) :
    after.upcoming.length ≤ state.upcoming.length ∧
      ∃ rest, expectMemberName other = .ok property rest ∧ Extended next following after rest := by
  unfold expectMemberName at hrun ⊢
  rw [bind_of_ok (current_eq state)] at hrun
  split at hrun
  · next hname =>
      have hkind : state.current.kind ≠ .endOfInput := by
        intro hkind
        rw [hmark _ List.mem_cons_self hkind] at hname
        exact absurd hname.2 (by decide)
      obtain ⟨hupcoming, hsame, -⟩ := hstate.current_eq hkind
      have hother : current other = .ok state.current other := by rw [hsame]; rfl
      rw [bind_of_ok hother, if_pos hname]
      obtain ⟨hlength, hrest⟩ := (inside_advance.bind fun token => faithful_pure rfl) state other
        hstate hupcoming property after hrun
      exact ⟨Nat.le_of_lt hlength, hrest⟩
  · exact nomatch hrun

/-- A suffix is read before further tokens as well. -/
theorem ReadsSuffix.extended {head longer : Expr} (h : ReadsSuffix fuel head state longer middle)
    (hstate : Extended next following state other) (hmark : HasEmptyMark state)
    (hfuel : fuel ≤ more) :
    middle.upcoming.length < state.upcoming.length ∧ HasEmptyMark middle ∧
      ∃ rest, ReadsSuffix more head other longer rest ∧ Extended next following middle rest := by
  have hrules := rulesParallel id id True (Nat.le_refl fuel)
  have hstep {passed : Token} {inner : ParserState} (hkind : state.current.kind ≠ .endOfInput)
      (hadvance : advance state = .ok passed inner) :
      inner.upcoming.length < state.upcoming.length ∧ HasEmptyMark inner ∧
        ∃ rest, advance other = .ok passed rest ∧ Extended next following inner rest := by
    obtain ⟨hlength, hrest⟩ := hstate.advance (hstate.current_eq hkind).1 hadvance
    exact ⟨hlength, (Parallel.advance.consumes hstate.valid hadvance).hasEmptyMark hmark, hrest⟩
  cases h with
  | @call passed inner _ arguments hkind hadvance harguments =>
      have hend : state.current.kind ≠ .endOfInput := by rw [hkind]; decide
      obtain ⟨hlength, hinner, start, hpassed, hstart⟩ := hstep hend hadvance
      obtain ⟨hshorter, rest, hfound, hrest⟩ :=
        (closing_arguments hfuel).faithful inner start hstart arguments middle harguments
      have hconsumes := hrules.arguments.consumes hstart.valid harguments
      rw [(hstate.current_eq hend).2.1] at hkind
      exact ⟨Nat.lt_of_le_of_lt hshorter hlength, hconsumes.hasEmptyMark hinner, rest,
        .call hkind hpassed hfound, hrest⟩
  | @index passed inner _ index hkind hadvance hindex =>
      have hend : state.current.kind ≠ .endOfInput := by rw [hkind]; decide
      obtain ⟨hlength, hinner, start, hpassed, hstart⟩ := hstep hend hadvance
      obtain ⟨hshorter, rest, hfound, hrest⟩ :=
        (closing_closedIndex hfuel).faithful inner start hstart index middle hindex
      have hparallel : Parallel id id True (SameExpr id id) (closedIndex fuel) (closedIndex fuel) :=
        .bind hrules.expression fun _ _ hsame => .bind (parallel_expect _ _) fun _ _ _ => .pure hsame
      have hconsumes := hparallel.consumes hstart.valid hindex
      rw [(hstate.current_eq hend).2.1] at hkind
      exact ⟨Nat.lt_of_le_of_lt hshorter hlength, hconsumes.hasEmptyMark hinner, rest,
        .index hkind hpassed hfound, hrest⟩
  | @member passed inner _ property hkind hadvance hproperty =>
      have hend : state.current.kind ≠ .endOfInput := by rw [hkind]; decide
      obtain ⟨hlength, hinner, start, hpassed, hstart⟩ := hstep hend hadvance
      obtain ⟨hshorter, rest, hfound, hrest⟩ := expectMemberName_extended hstart hinner hproperty
      have hconsumes := parallel_expectMemberName.consumes hstart.valid hproperty
      rw [(hstate.current_eq hend).2.1] at hkind
      exact ⟨Nat.lt_of_le_of_lt hshorter hlength, hconsumes.hasEmptyMark hinner, rest,
        .member hkind hpassed hfound, hrest⟩

/-- A chain that takes all tokens of a row is read first if more tokens follow. -/
theorem suffixes_extended {touching : Bool} {head tree : Expr} (hfuel : fuel ≤ more)
    (hstate : Extended next following state other) (hmark : HasEmptyMark state)
    (hrun : suffixes fuel touching head state = .ok tree after) :
    ∃ less rest, more ≤ less + 1 + state.upcoming.length ∧ Extended next following after rest ∧
      suffixes more touching head other = suffixes (less + 1) touching tree rest := by
  induction fuel generalizing more head state other with
  | zero => cases hrun
  | succ fuel ih =>
      obtain ⟨more, rfl⟩ : ∃ less, more = less + 1 := ⟨more - 1, by omega⟩
      have hless := Nat.le_of_succ_le_succ hfuel
      rcases suffixes_cases hrun with ⟨-, rfl, rfl⟩ | ⟨longer, middle, hreads, hmay, hrest⟩
      · exact ⟨more, other, Nat.le_add_right _ _, hstate, rfl⟩
      · obtain ⟨hlength, hinner, rest, hfound, hextended⟩ := hreads.extended hstate hmark hless
        obtain ⟨less, final, hbound, hfinal, hsuffixes⟩ := ih hless hextended hinner hrest
        refine ⟨less, final, by omega, hfinal, ?_⟩
        have hend : state.current.kind ≠ .endOfInput := by
          cases hreads with
          | call hkind => rw [hkind]; decide
          | index hkind => rw [hkind]; decide
          | member hkind => rw [hkind]; decide
        obtain ⟨-, hcurrent, hstop⟩ := hstate.current_eq hend
        have htouch : MayTouch touching other := by
          unfold MayTouch at hmay ⊢
          rwa [← hcurrent, ← hstop]
        rw [suffixes_of_reads hfound htouch, hsuffixes]

/-- What opens a chain, and is no operator and no name that more tokens could go on with. -/
theorem primary_extended {head : Expr}
    (hkind : state.current.kind = .identifier ∨ state.current.kind = .leftBracket)
    (hfuel : fuel ≤ more) (hstate : Extended next following state other)
    (hrun : primary fuel state = .ok head after) :
    after.upcoming.length ≤ state.upcoming.length ∧
      ∃ rest, primary more other = .ok head rest ∧ Extended next following after rest := by
  cases fuel with
  | zero => cases hrun
  | succ fuel =>
      obtain ⟨more, rfl⟩ : ∃ less, more = less + 1 := ⟨more - 1, by omega⟩
      have hend : state.current.kind ≠ .endOfInput := by
        rcases hkind with hkind | hkind
        · rw [hkind]; decide
        · rw [hkind]; decide
      obtain ⟨hupcoming, hcurrent, -⟩ := hstate.current_eq hend
      rcases hkind with hkind | hkind
      · rw [primary_of_name hkind] at hrun
        rw [primary_of_name (hcurrent ▸ hkind), ← hcurrent]
        obtain ⟨hlength, hrest⟩ := (inside_advance.bind fun _ => faithful_pure rfl) state other
          hstate hupcoming head after hrun
        exact ⟨Nat.le_of_lt hlength, hrest⟩
      · rw [primary_of_bracket hkind] at hrun
        rw [primary_of_bracket (hcurrent ▸ hkind)]
        exact (closing_collection (Nat.le_of_succ_le_succ hfuel)).faithful state other hstate head
          after hrun

/-- **A chain that is a whole row is read first if more tokens follow**, and then goes on with what
follows. -/
theorem postfixChain_extended {touching : Bool} {tree : Expr}
    (hkind : state.current.kind = .identifier ∨ state.current.kind = .leftBracket)
    (hfuel : fuel ≤ more) (hstate : Extended next following state other) (hmark : HasEmptyMark state)
    (hrun : postfixChain fuel touching state = .ok tree after) :
    ∃ less rest, more ≤ less + 2 + state.upcoming.length ∧ Extended next following after rest ∧
      postfixChain more touching other = suffixes (less + 1) touching tree rest := by
  cases fuel with
  | zero => cases hrun
  | succ fuel =>
      obtain ⟨more, rfl⟩ : ∃ less, more = less + 1 := ⟨more - 1, by omega⟩
      have hless := Nat.le_of_succ_le_succ hfuel
      obtain ⟨head, middle, hhead, hsuffixes⟩ := exists_of_bind_ok hrun
      obtain ⟨hlength, rest, hfound, hrest⟩ := primary_extended hkind hless hstate hhead
      have hconsumes :=
        (rulesParallel id id True (Nat.le_refl fuel)).primary.consumes hstate.valid hhead
      obtain ⟨less, final, hbound, hfinal, hchain⟩ :=
        suffixes_extended hless hrest (hconsumes.hasEmptyMark hmark) hsuffixes
      refine ⟨less, final, by omega, hfinal, ?_⟩
      exact (bind_of_ok hfound).trans hchain

end

end

end Parser

end ScriptEngine
