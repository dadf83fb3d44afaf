import ScriptEngine.Proofs.Execution.Confinement
import ScriptEngine.Proofs.Execution.Frames
import ScriptEngine.Proofs.Registry.Building
import ScriptEngine.Proofs.Value.Keys

/-!
# Loops over a snapshot

A loop over an array or a hash settles what it runs over before its first round. So it is described
by its rounds, whatever the body does to the container, to the name of the loop or to anything else.
The pairs that stand for the entries of a hash are new arrays. The body of a round can write to the
pair of that round and of those before it, but the later pairs are still in reserve: nothing that
the body comes across refers to them. This takes a heap in which no reference dangles, such as each
state of a session has (`isClosed_of_session`).
-/

namespace ScriptEngine

/-- The frame in which a name is bound now. -/
def Scopes.innermost (scopes : Scopes) : Frame :=
  match scopes.locals with
  | frame :: _ => frame
  | [] => scopes.globals

theorem Scopes.find?_innermost_bind (scopes : Scopes) (name : String) (value : Value) :
    (scopes.bind name value).innermost.find? name = some value := by
  unfold bind innermost
  cases hlocals : scopes.locals <;> simp [hlocals, defineGlobal, Frame.find?_bind]

/-- How a loop ends with a round. If the body ended normally or with `next`, then the round is not
the last one yet. -/
def roundEnding : Outcome Flow → Option (Outcome Flow)
  | .ok .normal _ => none
  | .ok .next _ => none
  | .ok .breaks after => some (.ok .normal after)
  | ending => some ending

/-- The rounds of a loop over items: the states in which the body starts, with the item bound in the
innermost frame, and how the loop ends. -/
inductive Rounds (interpreter : Interpreter) (name : String) (body : List Stmt) :
    List Value → State → List State → Outcome Flow → Prop
  | done (state : State) : Rounds interpreter name body [] state [] (.ok .normal state)
  | goesOn {item : Value} {rest : List Value} {state after : State} {flow : Flow}
      {starts : List State} {ending : Outcome Flow}
      (h : interpreter.executeBody body (state.bind name item) = .ok flow after)
      (hflow : flow = .normal ∨ flow = .next)
      (hrest : Rounds interpreter name body rest after starts ending) :
      Rounds interpreter name body (item :: rest) state (state.bind name item :: starts) ending
  | stops {item : Value} {state : State} {ending : Outcome Flow}
      (h : roundEnding (interpreter.executeBody body (state.bind name item)) = some ending)
      (rest : List Value) :
      Rounds interpreter name body (item :: rest) state [state.bind name item] ending

section

variable {interpreter : Interpreter} {name : String} {body : List Stmt} {items : List Value}
  {state : State} {starts : List State} {ending : Outcome Flow}

theorem exists_rounds (interpreter : Interpreter) (name : String) (body : List Stmt)
    (items : List Value) (state : State) :
    ∃ starts, Rounds interpreter name body items state starts
      (interpreter.executeRounds name body items state) := by
  induction items generalizing state with
  | nil => exact ⟨[], .done state⟩
  | cons item rest ih =>
      unfold Interpreter.executeRounds
      have hlast {ending : Outcome Flow}
          (h : roundEnding (interpreter.executeBody body (state.bind name item)) = some ending) :
          ∃ starts, Rounds interpreter name body (item :: rest) state starts ending :=
        ⟨_, .stops h rest⟩
      cases hbody : interpreter.executeBody body (state.bind name item) with
      | ok flow after =>
          obtain ⟨starts, hrest⟩ := ih after
          cases flow with
          | normal => exact ⟨_, .goesOn hbody (.inl rfl) hrest⟩
          | next => exact ⟨_, .goesOn hbody (.inr rfl) hrest⟩
          | breaks => exact hlast (by rw [hbody]; rfl)
          | returns value => exact hlast (by rw [hbody]; rfl)
      | error failure after => exact hlast (by rw [hbody]; rfl)
      | aborted => exact hlast (by rw [hbody]; rfl)
      | outOfFuel => exact hlast (by rw [hbody]; rfl)

/-- Each round has its item, which is bound when the body starts. -/
theorem Rounds.exists_item (h : Rounds interpreter name body items state starts ending)
    {round : Nat} {start : State} (hstart : starts[round]? = some start) :
    ∃ item, items[round]? = some item ∧ start.scopes.innermost.find? name = some item := by
  have hbound (item : Value) (before : State) :
      (before.bind name item).scopes.innermost.find? name = some item :=
    before.scopes.find?_innermost_bind name item
  induction h generalizing round with
  | done => simp at hstart
  | @goesOn item _ before _ _ _ _ _ _ _ ih =>
      cases round with
      | zero => exact ⟨item, rfl, Option.some.inj hstart ▸ hbound item before⟩
      | succ round => exact ih hstart
  | @stops item before _ _ _ =>
      cases round with
      | zero => exact ⟨item, rfl, Option.some.inj hstart ▸ hbound item before⟩
      | succ round => simp at hstart

end

/-! ### The pairs of a hash -/

/-- The arrays from a cell on, as many as there are entries. -/
def pairsFrom (first : Nat) (entries : List (Key × Value)) : List Value :=
  (List.range' first entries.length).map fun index => .array ⟨index⟩

/-- A new array of a key and a value for each entry. -/
def Heap.withPairs (heap : Heap) (entries : List (Key × Value)) : Heap :=
  { heap with
    arrays := heap.arrays ++ (entries.map fun entry => #[entry.1.toValue, entry.2]).toArray }

theorem pairsFrom_cons (first : Nat) (entry : Key × Value) (rest : List (Key × Value)) :
    pairsFrom first (entry :: rest) = .array ⟨first⟩ :: pairsFrom (first + 1) rest := by
  simp [pairsFrom, List.range'_succ]

theorem getElem?_pairsFrom {first index : Nat} {entries : List (Key × Value)} {item : Value}
    (h : (pairsFrom first entries)[index]? = some item) : item = .array ⟨first + index⟩ := by
  rw [pairsFrom, List.getElem?_map, Option.map_eq_some_iff] at h
  obtain ⟨cell, hcell, rfl⟩ := h
  obtain ⟨hindex, rfl⟩ := List.getElem?_eq_some_iff.mp hcell
  rw [List.getElem_range', Nat.one_mul]

theorem State.newPairs_eq (state : State) (entries : List (Key × Value)) :
    state.newPairs entries = .ok (pairsFrom state.heap.arrays.size entries)
      { state with heap := state.heap.withPairs entries } := by
  induction entries generalizing state with
  | nil => simp [newPairs, pairsFrom, Heap.withPairs]
  | cons entry rest ih =>
      obtain ⟨key, value⟩ := entry
      simp [newPairs, newArray, Outcome.andThen, Outcome.map, Heap.newArray, ih, pairsFrom_cons,
        Heap.withPairs]

namespace Heap

variable (heap : Heap) (entries : List (Key × Value))

theorem items_withPairs_of_lt {ref : ArrayRef} (h : ref.index < heap.arrays.size) :
    (heap.withPairs entries).items ref = heap.items ref := by
  simp [withPairs, items, Array.getElem?_append, h]

theorem items_withPairs {index : Nat} {entry : Key × Value} (h : entries[index]? = some entry) :
    (heap.withPairs entries).items ⟨heap.arrays.size + index⟩ =
      #[entry.1.toValue, entry.2] := by
  have hindex : ¬heap.arrays.size + index < heap.arrays.size := by omega
  simp [withPairs, items, Array.getElem?_append, h, hindex]

end Heap

/-! ### Pairs in reserve -/

/-- The arrays of a range of cells. -/
def Reserve.ofArrays (heap : Heap) (low : Nat) : Reserve where
  heap := heap
  holds container := ∃ ref, container = .array ref ∧ low ≤ ref.index ∧ ref.index < heap.arrays.size
  array_cell := by
    rintro ref ⟨_, heq, -, hhigh⟩
    cases heq
    exact hhigh
  hash_cell := by
    rintro ref ⟨_, heq, -⟩
    exact nomatch heq

variable {heap : Heap} {low : Nat}

theorem Reserve.holds_ofArrays {ref : ArrayRef} :
    (Reserve.ofArrays heap low).holds (.array ref) ↔
      low ≤ ref.index ∧ ref.index < heap.arrays.size := by
  simp [ofArrays]

/-- A value of a smaller heap is clear of what has been added. -/
theorem Value.IsIn.isClear_ofArrays {base : Heap} (hbase : base.arrays.size ≤ low) {value : Value}
    (h : value.IsIn base) : value.IsClear (.ofArrays heap low) := by
  cases value with
  | array ref =>
      rintro ⟨_, heq, hlow, -⟩
      cases heq
      exact absurd (Nat.le_trans hbase hlow) (Nat.not_le.mpr h)
  | hash ref =>
      rintro ⟨_, heq, -⟩
      exact nomatch heq
  | _ => trivial

/-- What is clear of a range is clear of the rest of it. -/
theorem Value.IsClear.succ {value : Value} (h : value.IsClear (.ofArrays heap low)) :
    value.IsClear (.ofArrays heap (low + 1)) := by
  cases value with
  | array ref =>
      rintro ⟨_, heq, hlow, hhigh⟩
      cases heq
      exact h ⟨ref, rfl, Nat.le_of_succ_le hlow, hhigh⟩
  | hash ref =>
      rintro ⟨_, heq, -⟩
      exact nomatch heq
  | _ => trivial

/-- The first container of a range is given free. -/
theorem State.Obeys.release {state : State} (h : state.Obeys (.sparing (.ofArrays heap low)))
    (hitems : ItemsAll (·.IsClear (.ofArrays heap (low + 1))) (heap.items ⟨low⟩)) :
    state.Obeys (.sparing (.ofArrays heap (low + 1))) where
  scopes := h.scopes.imp fun _ => Value.IsClear.succ
  heap := {
    arrays_le := h.heap.arrays_le
    hashes_le := h.heap.hashes_le
    items_eq := fun {ref} hheld => by
      obtain ⟨hlow, hhigh⟩ := Reserve.holds_ofArrays.mp hheld
      exact h.heap.items_eq (Reserve.holds_ofArrays.mpr ⟨Nat.le_of_succ_le hlow, hhigh⟩)
    table_eq := fun {ref} hheld => by
      obtain ⟨_, heq, -⟩ := hheld
      exact nomatch heq
    items_clear := fun {ref} hfree => by
      by_cases hheld : (Reserve.ofArrays heap low).holds (.array ref)
      · obtain ⟨hlow, hhigh⟩ := Reserve.holds_ofArrays.mp hheld
        have hindex : ref.index = low :=
          Nat.le_antisymm (Nat.le_of_not_lt fun hlater =>
            hfree (Reserve.holds_ofArrays.mpr ⟨hlater, hhigh⟩)) hlow
        obtain rfl : ref = ⟨low⟩ := congrArg ArrayRef.mk hindex
        rw [h.heap.items_eq hheld]
        exact hitems
      · exact (h.heap.items_clear hheld).imp fun _ => Value.IsClear.succ
    table_clear := fun {ref} _ => by
      have hfree : ¬(Reserve.ofArrays heap low).holds (.hash ref) := by
        rintro ⟨_, heq, -⟩
        exact nomatch heq
      exact (h.heap.table_clear hfree).imp fun _ => Value.IsClear.succ }

/-- Nothing refers to the pairs of a loop that is about to start. -/
theorem State.obeys_withPairs {state : State} (hscopes : state.scopes.All (·.IsIn state.heap))
    (hheap : state.heap.IsClosed) (entries : List (Key × Value)) :
    { state with heap := state.heap.withPairs entries }.Obeys
      (.sparing (.ofArrays (state.heap.withPairs entries) state.heap.arrays.size)) where
  scopes := hscopes.imp fun _ h => h.isClear_ofArrays (Nat.le_refl _)
  heap := {
    arrays_le := Nat.le_refl _
    hashes_le := Nat.le_refl _
    items_eq := fun _ => rfl
    table_eq := fun _ => rfl
    items_clear := fun {ref} hfree item hitem => by
      by_cases hold : ref.index < state.heap.arrays.size
      · rw [state.heap.items_withPairs_of_lt entries hold] at hitem
        exact (hheap.items ref item hitem).isClear_ofArrays (Nat.le_refl _)
      · have hbeyond : (state.heap.withPairs entries).arrays.size ≤ ref.index :=
          Nat.le_of_not_lt fun hcell =>
            hfree (Reserve.holds_ofArrays.mpr ⟨Nat.le_of_not_lt hold, hcell⟩)
        rw [Heap.items, Array.getElem?_eq_none hbeyond] at hitem
        exact absurd hitem (Array.not_mem_empty item)
    table_clear := fun {ref} _ =>
      (hheap.table ref).imp fun _ h => h.isClear_ofArrays (Nat.le_refl _) }

/-- The pair of a round is as it was made when the round starts, since no earlier round could write
to it. -/
theorem Rounds.items_eq {fuel : Nat} {name : String} {body : List Stmt}
    {entries : List (Key × Value)} {state : State} {starts : List State} {ending : Outcome Flow}
    (h : Rounds (.ofFuel fuel) name body (pairsFrom low entries) state starts ending)
    (hstate : state.Obeys (.sparing (.ofArrays heap low))) (hsize : low + entries.length ≤ heap.arrays.size)
    (hitems : ∀ index entry, entries[index]? = some entry →
      heap.items ⟨low + index⟩ = #[entry.1.toValue, entry.2])
    (hclear : ∀ entry ∈ entries, entry.2.IsClear (.ofArrays heap low))
    {round : Nat} {start : State} (hstart : starts[round]? = some start) :
    ∃ entry, entries[round]? = some entry ∧
      start.heap.items ⟨low + round⟩ = #[entry.1.toValue, entry.2] := by
  induction entries generalizing low state starts round with
  | nil =>
      cases h
      simp at hstart
  | cons entry rest ih =>
      rw [List.length_cons] at hsize
      obtain ⟨hentry, hrest⟩ := List.forall_mem_cons.mp hclear
      have hheld : (Reserve.ofArrays heap low).holds (.array ⟨low⟩) :=
        Reserve.holds_ofArrays.mpr ⟨Nat.le_refl low, by change low < _; omega⟩
      have hpair : heap.items ⟨low⟩ = #[entry.1.toValue, entry.2] := hitems 0 entry rfl
      have hbefore : state.heap.items ⟨low⟩ = #[entry.1.toValue, entry.2] :=
        (hstate.heap.items_eq hheld).trans hpair
      have hfirst {start : State} (hstart : some (state.bind name (.array ⟨low⟩)) = some start) :
          start.heap.items ⟨low⟩ = #[entry.1.toValue, entry.2] :=
        Option.some.inj hstart ▸ hbefore
      rw [pairsFrom_cons] at h
      cases h with
      | stops =>
          cases round with
          | zero => exact ⟨entry, rfl, hfirst hstart⟩
          | succ round => simp at hstart
      | @goesOn _ _ _ after flow _ _ hbody _ hrounds =>
          cases round with
          | zero => exact ⟨entry, rfl, hfirst hstart⟩
          | succ round =>
              -- From here on the body may know the first pair, but none of those after it.
              let later := Policy.sparing (.ofArrays heap (low + 1))
              have hreleased : state.Obeys later := by
                refine hstate.release ?_
                rw [hpair]
                exact Policy.allows_pair (later.allows_key heap entry.1) hentry.succ
              have hname : later.allows state.heap (.array ⟨low⟩) := fun hheld =>
                absurd (Reserve.holds_ofArrays.mp hheld).1 (Nat.not_succ_le_self low)
              have hafter : after.Obeys later := by
                have hobeys := Interpreter.obeys_ofFuel later fuel
                have hends := hobeys.executeBody (hreleased.bind name hname) body
                rw [hbody] at hends
                exact hends.2.1
              obtain ⟨found, hfound, hholds⟩ := ih hrounds hafter (by omega)
                (fun index other hother => by
                  rw [← hitems (index + 1) other hother, Nat.add_right_comm, Nat.add_assoc])
                (fun other hother => (hrest other hother).succ) hstart
              exact ⟨found, hfound, by rw [← hholds, Nat.add_right_comm, Nat.add_assoc]⟩

open Interpreter

/-- **A loop runs over a snapshot.** A loop over an array has one round for each item that the array
had when the loop started, in order. A loop over a hash has one round for each entry that the hash
had then, in the order of the keys, with a new array of the key and the value that no earlier round
could write to. At the start of a round its item is bound in the innermost frame. The loop ends
before that only with a round whose body breaks, returns or fails. -/
theorem loops_run_over_snapshots {fuel : Nat} (position : Position) (name : String)
    {iterable : Expr} (body : List Stmt) {state before : State} {subject : Value}
    (hsubject : (ofFuel fuel).evaluate iterable state = .ok subject before) :
    let outcome := (ofFuel (fuel + 1)).execute (.each position name iterable body) state
    (∀ ref, subject = .array ref → ∃ starts ending,
      Rounds (ofFuel fuel) name body (before.heap.items ref).toList before starts ending ∧
        outcome = ending.locatedAt position ∧
        ∀ (round : Nat) (start : State), starts[round]? = some start →
          ∃ item, (before.heap.items ref)[round]? = some item ∧
            start.scopes.innermost.find? name = some item) ∧
    ∀ ref, subject = .hash ref →
      let entries := (before.heap.table ref).entries
      let first := before.heap.arrays.size
      (entries.Pairwise fun entry later => entry.1.Before later.1) ∧ ∃ starts ending,
        Rounds (ofFuel fuel) name body (pairsFrom first entries)
          { before with heap := before.heap.withPairs entries } starts ending ∧
        outcome = ending.locatedAt position ∧
        ∀ (round : Nat) (start : State), starts[round]? = some start →
          start.scopes.innermost.find? name = some (.array ⟨first + round⟩) ∧
            (before.scopes.All (·.IsIn before.heap) → before.heap.IsClosed →
              ∃ entry, entries[round]? = some entry ∧
                start.heap.items ⟨first + round⟩ = #[entry.1.toValue, entry.2]) := by
  intro outcome
  have houtcome : outcome =
      (((before.iterationItems subject).locatedAt iterable.position).andThen fun items state =>
        (ofFuel fuel).executeRounds name body items state).locatedAt position := by
    change ((((ofFuel fuel).evaluate iterable state).andThen _).locatedAt position) = _
    rw [hsubject]
    rfl
  rw [houtcome]
  refine ⟨?_, ?_⟩
  · rintro ref rfl
    obtain ⟨starts, hrounds⟩ :=
      exists_rounds (ofFuel fuel) name body (before.heap.items ref).toList before
    refine ⟨starts, _, hrounds, rfl, fun round start hstart => ?_⟩
    obtain ⟨item, hitem, hbound⟩ := hrounds.exists_item hstart
    exact ⟨item, by rwa [Array.getElem?_toList] at hitem, hbound⟩
  · rintro ref rfl entries first
    obtain ⟨starts, hrounds⟩ := exists_rounds (ofFuel fuel) name body (pairsFrom first entries)
      { before with heap := before.heap.withPairs entries }
    have hascending : entries.Pairwise fun entry later => entry.1.Before later.1 :=
      (before.heap.table ref).ascending.imp (Key.before_iff _ _).mpr
    refine ⟨hascending, starts, _, hrounds, ?_, fun round start hstart =>
      ⟨?_, fun hscopes hheap => ?_⟩⟩
    · rw [State.iterationItems, State.newPairs_eq]
      rfl
    · obtain ⟨item, hitem, hbound⟩ := hrounds.exists_item hstart
      rw [getElem?_pairsFrom hitem] at hbound
      exact hbound
    · have hin (entry : Key × Value) (hentry : entry ∈ entries) : entry.2.IsIn before.heap :=
        hheap (.hash ref) entry.2 (List.mem_map_of_mem hentry)
      exact hrounds.items_eq (before.obeys_withPairs hscopes hheap entries)
        (by simp [Heap.withPairs, first]) (fun index entry => before.heap.items_withPairs entries)
        (fun entry hentry => (hin entry hentry).isClear_ofArrays (Nat.le_refl _)) hstart

/-- A hash with one key, under the name `table`. -/
def tableState : State :=
  { State.blank with
    scopes := ⟨[("table", .hash ⟨0⟩)], []⟩
    heap := ⟨#[], #[.ofList [(.string "key", .nil)]], #[]⟩ }

/-- Adds the pair to the hash, and gives the name of the loop away. -/
def growingBody : List Stmt :=
  [.assign .first (.member .first (.name .first "table") "other") (.name .first "pair"),
    .assign .first (.name .first "pair") (.name .first "table")]

theorem isClosed_tableState : tableState.heap.IsClosed :=
  Heap.isClosed_ofList (List.forall_mem_singleton.mpr trivial)

/-- The member that the first round adds gets no round. -/
theorem loops_run_over_snapshots_growing :
    let outcome :=
      (ofFuel 5).execute (.each .first "pair" (.name .first "table") growingBody) tableState
    (outcome.Ends fun after => (after.heap.table ⟨0⟩).contains (.string "other")) ∧
      ∃ starts ending, Rounds (ofFuel 4) "pair" growingBody [.array ⟨0⟩]
          { tableState with heap := tableState.heap.withPairs [(.string "key", .nil)] } starts
          ending ∧
        outcome = ending.locatedAt .first ∧
        ∀ (round : Nat) (start : State), starts[round]? = some start →
          ∃ entry, [(Key.string "key", Value.nil)][round]? = some entry ∧
            start.heap.items ⟨0 + round⟩ = #[entry.1.toValue, entry.2] := by
  intro outcome
  have hsubject : (ofFuel 4).evaluate (.name .first "table") tableState =
      .ok (.hash ⟨0⟩) tableState := rfl
  have hscopes : tableState.scopes.All (·.IsIn tableState.heap) :=
    ⟨List.forall_mem_singleton.mpr Nat.zero_lt_one, List.forall_mem_nil _⟩
  obtain ⟨-, starts, ending, hrounds, heq, hstarts⟩ :=
    (loops_run_over_snapshots .first "pair" growingBody hsubject).2 ⟨0⟩ rfl
  refine ⟨rfl, starts, ending, hrounds, heq, fun round start hstart => ?_⟩
  exact (hstarts round start hstart).2 hscopes isClosed_tableState

end ScriptEngine
