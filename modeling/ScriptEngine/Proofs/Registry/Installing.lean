import ScriptEngine.Proofs.Execution.Confinement
import ScriptEngine.Proofs.Execution.Frames
import ScriptEngine.Proofs.Library.RoundTrip
import ScriptEngine.Proofs.Registry.Building
import ScriptEngine.Proofs.Value.Correspondence

/-!
# Installing a registry

Two interpreters that install one registry share the values that were registered, with every
container that these reach: what a program of one writes there, the other finds there. The hashes
that stand for modules are made anew by each installation. They are a reserve of the interpreter
that they are made for, since neither a registered value nor anything of the other interpreter leads
to them.
-/

namespace ScriptEngine

open Outcome

/-! ### What an installation makes -/

/-- A hash with a cell from one number on and before another. -/
def Value.IsHashIn (low high : Nat) (value : Value) : Prop :=
  ∃ ref : HashRef, value = .hash ref ∧ low ≤ ref.index ∧ ref.index < high

/-- A value of a heap, or a hash with a cell from one number on and before another. -/
def Value.IsInOrNew (base : Heap) (low high : Nat) (value : Value) : Prop :=
  value.IsIn base ∨ value.IsHashIn low high

theorem Value.IsInOrNew.mono {base : Heap} {low high wider : Nat} {value : Value}
    (h : value.IsInOrNew base low high) (hwider : high ≤ wider) :
    value.IsInOrNew base low wider := by
  rcases h with hold | ⟨ref, hvalue, hlow, hhigh⟩
  · exact .inl hold
  · exact .inr ⟨ref, hvalue, hlow, Nat.lt_of_lt_of_le hhigh hwider⟩

namespace Binding

/-- The value that a binding gives a name: what was registered, or for a module a hash of its
members, with a cell from `low` on. -/
def Gives (heap : Heap) (low : Nat) : Binding → Value → Prop
  | function _ registered, value => value = registered
  | constant registered, value => value = registered
  | module members, value => ∃ ref : HashRef, value = .hash ref ∧ low ≤ ref.index ∧
      ref.index < heap.hashes.size ∧ heap.table ref = .ofList (members.map Member.entry)

theorem Gives.later {before after : Heap} {low lower : Nat} {binding : Binding} {value : Value}
    (h : binding.Gives before low value) (hlower : lower ≤ low) (hlater : before.Allocates after) :
    binding.Gives after lower value := by
  cases binding with
  | function arity registered => exact h
  | constant registered => exact h
  | module members =>
      obtain ⟨ref, hvalue, hlow, hcell, htable⟩ := h
      refine ⟨ref, hvalue, Nat.le_trans hlower hlow, Nat.lt_of_lt_of_le hcell hlater.hashes_le, ?_⟩
      rw [hlater.table_eq hcell, htable]

variable (heap : Heap) (binding : Binding)

theorem gives_newBinding :
    binding.Gives (heap.newBinding binding).2 heap.hashes.size (heap.newBinding binding).1 := by
  cases binding with
  | function arity registered => rfl
  | constant registered => rfl
  | module members =>
      refine ⟨⟨heap.hashes.size⟩, rfl, Nat.le_refl _, ?_, ?_⟩
      · simp [Heap.newBinding, Heap.newHash]
      · exact (heap.table_newHash _ _).trans (if_pos rfl)

theorem allocates_newBinding : heap.Allocates (heap.newBinding binding).2 := by
  cases binding with
  | function arity registered => exact .refl heap
  | constant registered => exact .refl heap
  | module members => exact .newHash _ (.refl heap)

variable {heap binding}

theorem holdsOnly_newBinding {holds : Value → Prop} (h : heap.HoldsOnly holds)
    (hvalues : ∀ value ∈ binding.values, holds value) :
    (heap.newBinding binding).2.HoldsOnly holds := by
  cases binding with
  | function arity registered => exact h
  | constant registered => exact h
  | module members =>
      refine h.newHash (.ofList fun entry hentry => ?_)
      obtain ⟨member, hmember, rfl⟩ := List.mem_map.mp hentry
      exact hvalues _ (List.mem_map_of_mem hmember)

theorem isInOrNew_newBinding {base : Heap} {low : Nat} (hlow : low ≤ heap.hashes.size)
    (hvalues : ∀ value ∈ binding.values, value.IsIn base) :
    (heap.newBinding binding).1.IsInOrNew base low (heap.newBinding binding).2.hashes.size := by
  cases binding with
  | function arity registered => exact .inl (List.forall_mem_singleton.mp hvalues)
  | constant registered => exact .inl (List.forall_mem_singleton.mp hvalues)
  | module members =>
      exact .inr ⟨⟨heap.hashes.size⟩, rfl, hlow, by simp [Heap.newBinding, Heap.newHash]⟩

end Binding

/-- What installing entries makes of an interpreter. All that its names stand for and all that its
heap holds are values of a heap `base`, but for hashes with cells from `low` on. -/
structure Installs (base : Heap) (low : Nat) (entries : List RegistryEntry)
    (before after : State) : Prop where
  allocates : before.heap.Allocates after.heap
  fits : before.heap.FitsIn after.heap
  holdsOnly : after.heap.HoldsOnly (·.IsIn base)
  scopes : after.scopes.All (·.IsInOrNew base low after.heap.hashes.size)
  gives : ∀ entry ∈ entries, ∃ value, after.scopes.global? entry.name = some value ∧
    entry.binding.Gives after.heap low value
  others : ∀ name ∉ entries.map RegistryEntry.name,
    after.scopes.global? name = before.scopes.global? name

namespace State

variable {base : Heap} {low : Nat} {state : State} {entry : RegistryEntry}

theorem global?_installEntry (state : State) (entry : RegistryEntry) (name : String) :
    (state.installEntry entry).scopes.global? name =
      if name = entry.name then some (state.heap.newBinding entry.binding).1
      else state.scopes.global? name :=
  Frame.find?_bind _ _ _ _

theorem scopes_installEntry (hlow : low ≤ state.heap.hashes.size)
    (hvalues : ∀ value ∈ entry.binding.values, value.IsIn base)
    (hscopes : state.scopes.All (·.IsInOrNew base low state.heap.hashes.size)) :
    (state.installEntry entry).scopes.All
      (·.IsInOrNew base low (state.installEntry entry).heap.hashes.size) := by
  have hwider := (Binding.allocates_newBinding state.heap entry.binding).hashes_le
  have hmade := Binding.isInOrNew_newBinding hlow hvalues
  exact (hscopes.imp fun _ h => h.mono hwider).defineGlobal entry.name hmade

end State

namespace Installs

variable {base : Heap} {low : Nat} {entry : RegistryEntry} {rest : List RegistryEntry}
  {before after : State}

theorem nil (hheap : before.heap.HoldsOnly (·.IsIn base))
    (hscopes : before.scopes.All (·.IsInOrNew base low before.heap.hashes.size)) :
    Installs base low [] before before :=
  ⟨.refl _, .refl _, hheap, hscopes, List.forall_mem_nil _, fun _ _ => rfl⟩

/-- What the first entry gave its name stays, since no later entry has the name. -/
theorem cons (hnew : entry.name ∉ rest.map RegistryEntry.name)
    (hlow : low ≤ before.heap.hashes.size)
    (h : Installs base low rest (before.installEntry entry) after) :
    Installs base low (entry :: rest) before after where
  allocates := (Binding.allocates_newBinding before.heap entry.binding).trans h.allocates
  fits := (Binding.allocates_newBinding before.heap entry.binding).fitsIn.trans h.fits
  holdsOnly := h.holdsOnly
  scopes := h.scopes
  gives := by
    refine List.forall_mem_cons.mpr ⟨⟨(before.heap.newBinding entry.binding).1, ?_, ?_⟩, h.gives⟩
    · rw [h.others _ hnew, before.global?_installEntry, if_pos rfl]
    · exact (Binding.gives_newBinding before.heap entry.binding).later hlow h.allocates
  others name hname := by
    rw [List.map_cons, List.mem_cons, not_or] at hname
    obtain ⟨hhead, hrest⟩ := hname
    rw [h.others name hrest, before.global?_installEntry, if_neg hhead]

end Installs

/-- Entry by entry, the heap gains a hash for each module and the globals gain a name. -/
theorem installs_foldl {base : Heap} {low : Nat} {entries : List RegistryEntry}
    (hnames : (entries.map RegistryEntry.name).Nodup)
    (hvalues : ∀ entry ∈ entries, ∀ value ∈ entry.binding.values, value.IsIn base)
    {before : State} (hlow : low ≤ before.heap.hashes.size)
    (hheap : before.heap.HoldsOnly (·.IsIn base))
    (hscopes : before.scopes.All (·.IsInOrNew base low before.heap.hashes.size)) :
    Installs base low entries before (entries.foldl State.installEntry before) := by
  induction entries generalizing before with
  | nil => exact .nil hheap hscopes
  | cons entry rest ih =>
      obtain ⟨hnew, hnames⟩ := List.nodup_cons.mp hnames
      obtain ⟨hvalue, hvalues⟩ := List.forall_mem_cons.mp hvalues
      have hallocates := Binding.allocates_newBinding before.heap entry.binding
      have hlater := ih hnames hvalues (Nat.le_trans hlow hallocates.hashes_le)
        (Binding.holdsOnly_newBinding hheap hvalue) (State.scopes_installEntry hlow hvalue hscopes)
      exact hlater.cons hnew hlow

/-! ### The hashes of an installation are a reserve -/

/-- The hashes with cells from one number on and before another. -/
def Reserve.ofHashes (heap : Heap) (low high : Nat) (h : high ≤ heap.hashes.size) : Reserve where
  heap := heap
  holds container := ∃ ref : HashRef, container = .hash ref ∧ low ≤ ref.index ∧ ref.index < high
  array_cell := by
    rintro _ ⟨_, heq, -⟩
    exact nomatch heq
  hash_cell := by
    rintro ref ⟨_, heq, -, hhigh⟩
    cases heq
    exact Nat.lt_of_lt_of_le hhigh h

namespace Heap

variable {base heap : Heap} {low high : Nat} (hhigh : high ≤ heap.hashes.size)

theorem isClear_of_isIn (hlow : base.hashes.size ≤ low) {value : Value} (h : value.IsIn base) :
    value.IsClear (.ofHashes heap low high hhigh) := by
  cases value with
  | array ref =>
      rintro ⟨_, heq, -⟩
      exact nomatch heq
  | hash ref =>
      rintro ⟨_, heq, hfrom, -⟩
      cases heq
      exact absurd (Nat.lt_of_lt_of_le h hlow) (Nat.not_lt.mpr hfrom)
  | _ => trivial

theorem isClear_of_isInOrNew {start stop : Nat} (hlow : base.hashes.size ≤ low)
    (hapart : stop ≤ low ∨ high ≤ start) {value : Value} (h : value.IsInOrNew base start stop) :
    value.IsClear (.ofHashes heap low high hhigh) := by
  rcases h with hold | ⟨ref, rfl, hstart, hstop⟩
  · exact isClear_of_isIn hhigh hlow hold
  · rintro ⟨_, heq, hfrom, hto⟩
    cases heq
    omega

theorem spares_of_holdsOnly (hlow : base.hashes.size ≤ low)
    (h : heap.HoldsOnly (·.IsIn base)) : heap.Spares (.ofHashes heap low high hhigh) :=
  spares_self fun container _ value hvalue =>
    isClear_of_isIn hhigh hlow (h container value hvalue)

end Heap

/-! ### What is left alone -/

/-- A value that is no container. -/
def Value.IsPlain (value : Value) : Prop :=
  ∀ container : ContainerRef, value ≠ container.toValue

/-- What stays of a value that was received under a binding. The hash of a module goes on holding
the registered members. If no container was registered, then the value prints the same, and all that
it reaches holds the same. -/
structure Binding.Keeps (binding : Binding) (value : Value) (before after : Heap) : Prop where
  module {members : List Member} (hmodule : binding = .module members) :
    ∃ ref : HashRef, value = .hash ref ∧
      before.table ref = .ofList (members.map Member.entry) ∧ after.table ref = before.table ref
  print (hplain : ∀ registered ∈ binding.values, registered.IsPlain) :
    after.print value = before.print value
  contents (hplain : ∀ registered ∈ binding.values, registered.IsPlain) {container : ContainerRef}
    (hreaches : before.Reaches value container) : after.SameAt before container

namespace Binding

variable {made heap after : Heap} {low : Nat} {binding : Binding} {value : Value}

/-- A registered value that is no container reaches nothing. -/
theorem not_reaches_of_mem_values (hplain : ∀ registered ∈ binding.values, registered.IsPlain)
    (hvalue : value ∈ binding.values) (container : ContainerRef) : ¬heap.Reaches value container :=
  fun ⟨start, hstart, _⟩ => hplain value hvalue start hstart

/-- The hash of a module reaches nothing but itself if no container was registered in it. -/
theorem eq_of_reaches_hash {members : List Member} {ref : HashRef}
    (htable : heap.table ref = .ofList (members.map Member.entry))
    (hplain : ∀ registered ∈ (module members).values, registered.IsPlain)
    {container : ContainerRef} (hreaches : heap.Reaches (.hash ref) container) :
    container = .hash ref := by
  obtain ⟨start, hstart, hpath⟩ := hreaches
  obtain rfl : .hash ref = start := Heap.toValue_injective hstart
  rcases hpath.cases_head with rfl | ⟨next, hnext, -⟩
  · rfl
  · obtain ⟨stored, hmem, hnext⟩ := List.mem_map.mp hnext
    rw [htable] at hmem
    obtain ⟨member, hmember, rfl⟩ := List.mem_map.mp (Table.mem_ofList hmem)
    exact absurd hnext (hplain _ (List.mem_map_of_mem hmember) next)

/-- A value is kept if all that it reaches is, and a module if its hash is. -/
theorem keeps_of_sameAt (hclosed : heap.IsClosed) (hvalue : value.IsIn heap)
    (hcallables : heap.KeepsCallables after)
    (hmodule : ∀ members, binding = .module members → ∃ ref : HashRef, value = .hash ref ∧
      heap.table ref = .ofList (members.map Member.entry) ∧ after.table ref = heap.table ref)
    (hsame : (∀ registered ∈ binding.values, registered.IsPlain) →
      ∀ container, heap.Reaches value container → after.SameAt heap container) :
    binding.Keeps value heap after where
  module {members} := hmodule members
  print hplain := Heap.print_eq_of_sameAt hclosed hcallables hvalue (hsame hplain)
  contents hplain {container} := hsame hplain container

/-- A heap that spares the hashes of an installation keeps what was received from it. -/
theorem keeps_of_spares (hclosed : heap.IsClosed)
    (hin : ∀ registered ∈ binding.values, registered.IsIn heap)
    (hgives : binding.Gives made low value) (hlater : made.Allocates heap)
    (hspares : after.Spares (.ofHashes heap low made.hashes.size hlater.hashes_le))
    (hcallables : heap.KeepsCallables after) : binding.Keeps value heap after := by
  cases binding with
  | function arity registered =>
      obtain rfl : value = registered := hgives
      exact keeps_of_sameAt hclosed (hin value List.mem_cons_self) hcallables nofun
        fun hplain container h => absurd h (not_reaches_of_mem_values hplain List.mem_cons_self _)
  | constant registered =>
      obtain rfl : value = registered := hgives
      exact keeps_of_sameAt hclosed (hin value List.mem_cons_self) hcallables nofun
        fun hplain container h => absurd h (not_reaches_of_mem_values hplain List.mem_cons_self _)
  | module members =>
      obtain ⟨ref, rfl, hlow, hcell, htable⟩ := hgives
      rw [← hlater.table_eq hcell] at htable
      have hsame : after.table ref = heap.table ref := hspares.table_eq ⟨ref, rfl, hlow, hcell⟩
      have hvalue : (Value.hash ref).IsIn heap := Nat.lt_of_lt_of_le hcell hlater.hashes_le
      refine keeps_of_sameAt hclosed hvalue hcallables (fun others hothers => ?_)
        fun hplain container hreaches => ?_
      · cases hothers
        exact ⟨ref, rfl, htable, hsame⟩
      · rw [eq_of_reaches_hash htable hplain hreaches]
        exact hsame

end Binding

/-! ### What is shared -/

/-- A program that makes a member `nil`. -/
def clearMember (name property : String) : Program :=
  [.assign .first (.member .first (.name .first name) property) (.nil .first)]

/-- A program that makes an item `nil`. -/
def clearItem (name : String) (index : Number) : Program :=
  [.assign .first (.index .first (.name .first name) (.number .first index)) (.nil .first)]

namespace Interpreter

variable {state : State} {name : String}

theorem run_clearMember {ref : HashRef} (hname : state.scopes.lookup? name = some (.hash ref))
    (property : String) :
    ((ofFuel 2).run (clearMember name property) state).state? =
      some { state with heap := state.heap.setEntry ref (.string property) .nil } := by
  simp [run, runStatements, clearMember, ofFuel, executeStmt, assign, assignMember, evaluateExpr,
    evaluateName, hname, Heap.newMemberSlot, Outcome.andThen, Outcome.map, Outcome.locatedAt,
    Outcome.ofExcept, State.writeSlot, Heap.writeSlot, State.flush]
  split <;> rfl

theorem run_clearItem {ref : ArrayRef} (hname : state.scopes.lookup? name = some (.array ref))
    {index : Number} {slot : Nat}
    (hslot : arraySlot (.number index) (state.heap.items ref).size = .ok slot) :
    ((ofFuel 2).run (clearItem name index) state).state? =
      some { state with heap := state.heap.setItem ref slot .nil } := by
  simp [run, runStatements, clearItem, ofFuel, executeStmt, assign, assignIndex, evaluateExpr,
    evaluateName, hname, Heap.indexSlot, hslot, Except.map, Outcome.andThen, Outcome.map,
    Outcome.locatedAt, Outcome.ofExcept, State.writeSlot, Heap.writeSlot, State.flush]
  split <;> rfl

end Interpreter

/-! ### Two installations -/

/-- An interpreter that is not in a call, and whose names stand for values of a heap. -/
structure State.IsReadyOn (heap : Heap) (state : State) : Prop where
  values : state.scopes.All (·.IsIn heap)
  top : state.IsAtTopLevel

/-- How far two interpreters with one registry on one heap depend on each other. A registered
constant is the same value for both, and what a program of the first writes into it is written for
the second. Besides that, no program of the first changes what the second has received. -/
structure Registry.SharesOnlyValues (registry : Registry) (heap : Heap) (running watching : State) :
    Prop where
  constant {entry : RegistryEntry} (hentry : entry ∈ registry.entries) {value : Value}
    (hconstant : entry.binding = .constant value) :
    running.scopes.global? entry.name = some value ∧ watching.scopes.global? entry.name = some value
  member {entry : RegistryEntry} (hentry : entry ∈ registry.entries) {ref : HashRef}
    (hconstant : entry.binding = .constant (.hash ref)) (property : String) :
    ∃ fuel after, ((Interpreter.ofFuel fuel).run (clearMember entry.name property)
        { running with heap := heap }).state? = some after ∧
      after.heap = heap.setEntry ref (.string property) .nil
  item {entry : RegistryEntry} (hentry : entry ∈ registry.entries) {ref : ArrayRef}
    (hconstant : entry.binding = .constant (.array ref)) {index : Number} {slot : Nat}
    (hslot : arraySlot (.number index) (heap.items ref).size = .ok slot) :
    ∃ fuel after, ((Interpreter.ofFuel fuel).run (clearItem entry.name index)
        { running with heap := heap }).state? = some after ∧
      after.heap = heap.setItem ref slot .nil
  keeps {entry : RegistryEntry} (hentry : entry ∈ registry.entries) :
    ∃ value, watching.scopes.global? entry.name = some value ∧
      ∀ fuel program after, ((Interpreter.ofFuel fuel).run program
          { running with heap := heap }).state? = some after →
        entry.binding.Keeps value heap after.heap

/-- A constant is given as it was registered. -/
theorem Installs.constant {base : Heap} {low : Nat} {entries : List RegistryEntry}
    {before after : State} (h : Installs base low entries before after) {entry : RegistryEntry}
    (hentry : entry ∈ entries) {value : Value} (hconstant : entry.binding = .constant value) :
    after.scopes.global? entry.name = some value := by
  obtain ⟨given, hglobal, hgives⟩ := h.gives entry hentry
  rw [hconstant] at hgives
  obtain rfl : given = value := hgives
  exact hglobal

namespace Registry

variable {registry : Registry} {base heap : Heap}

/-- Interpreters depend on each other only through registered values if their installations made
different hashes. -/
theorem sharesOnlyValues_of_installs (hregistry : registry.IsIn base) (hfits : base.FitsIn heap)
    (hheap : heap.HoldsOnly (·.IsIn base)) {low other : Nat}
    {first second running watching : State}
    (hrunning : Installs base other registry.entries first running)
    (hwatching : Installs base low registry.entries second watching)
    (htop : running.IsAtTopLevel) (hlow : base.hashes.size ≤ low)
    (hlater : watching.heap.Allocates heap)
    (hapart : running.heap.hashes.size ≤ low ∨ watching.heap.hashes.size ≤ other) :
    registry.SharesOnlyValues heap running watching where
  constant {entry} hentry {value} hconstant :=
    ⟨hrunning.constant hentry hconstant, hwatching.constant hentry hconstant⟩
  member {entry} hentry {ref} hconstant property := by
    have hglobal := hrunning.constant hentry hconstant
    have hlookup := (Scopes.lookup?_of_locals htop.1 entry.name).trans hglobal
    exact ⟨2, _, Interpreter.run_clearMember (by exact hlookup) property, rfl⟩
  item {entry} hentry {ref} hconstant {index slot} hslot := by
    have hglobal := hrunning.constant hentry hconstant
    have hlookup := (Scopes.lookup?_of_locals htop.1 entry.name).trans hglobal
    exact ⟨2, _, Interpreter.run_clearItem (by exact hlookup) hslot, rfl⟩
  keeps {entry} hentry := by
    obtain ⟨value, hglobal, hgives⟩ := hwatching.gives entry hentry
    refine ⟨value, hglobal, fun fuel program after hafter => ?_⟩
    have hspares : { running with heap := heap }.Obeys
        (.sparing (.ofHashes heap low watching.heap.hashes.size hlater.hashes_le)) :=
      ⟨hrunning.scopes.imp fun _ h => Heap.isClear_of_isInOrNew _ hlow hapart h,
        Heap.spares_of_holdsOnly _ hlow hheap⟩
    have hend := (Interpreter.ends_run fuel program hspares).of_state? hafter
    have hadvances := ((Interpreter.isAdvancing_ofFuel fuel).run program _).of_state? hafter
    have hin (registered : Value) (h : registered ∈ entry.binding.values) : registered.IsIn heap :=
      hfits.isIn (hregistry.values entry hentry registered h)
    have hclosed : heap.IsClosed := hheap.imp fun _ => hfits.isIn
    exact Binding.keeps_of_spares hclosed hin hgives hlater hend hadvances.callable?_eq_some

end Registry

/-- **Two installations share the registered values and nothing else.** An interpreter that installs
a registry after another one did, on the same heap, is given the same constants, so that it finds
whatever a program of the other writes into them. The hashes that stand for its modules are its own:
no program of the other changes them, and they print as before if no container was registered in
them. The same holds the other way round. -/
theorem installs_share_only_values {registry : Registry} {first second : State}
    (hbuilt : registry.IsBuilt first.heap) (hfirst : first.IsReadyOn first.heap)
    (hsecond : second.IsReadyOn first.heap) :
    let earlier := registry.install first
    let later := registry.install { second with heap := earlier.heap }
    registry.SharesOnlyValues later.heap earlier later ∧
      registry.SharesOnlyValues later.heap later earlier := by
  intro earlier later
  have hregistry := hbuilt.isIn
  have hearlier : Installs first.heap first.heap.hashes.size registry.entries first earlier :=
    installs_foldl hregistry.names hregistry.values (Nat.le_refl _) hregistry.closed
      (hfirst.values.imp fun _ => .inl)
  have hlater : Installs first.heap earlier.heap.hashes.size registry.entries
      { second with heap := earlier.heap } later :=
    installs_foldl hregistry.names hregistry.values (Nat.le_refl _) hearlier.holdsOnly
      (hsecond.values.imp fun _ => .inl)
  have hfits : first.heap.FitsIn later.heap := hearlier.fits.trans hlater.fits
  have hearlierTop : earlier.IsAtTopLevel := registry.isAtTopLevel_install hfirst.top
  have hlaterTop : later.IsAtTopLevel := registry.isAtTopLevel_install hsecond.top
  constructor
  · exact Registry.sharesOnlyValues_of_installs hregistry hfits hlater.holdsOnly hearlier hlater
      hearlierTop hearlier.fits.hashes (.refl _) (.inl (Nat.le_refl _))
  · exact Registry.sharesOnlyValues_of_installs hregistry hfits hlater.holdsOnly hlater hearlier
      hlaterTop (Nat.le_refl _) hlater.allocates (.inr (Nat.le_refl _))

/-- A heap with a hash in it. -/
def optionsHeap : Heap :=
  ⟨#[], #[.ofList [(.string "loud", .boolean true)]], #[]⟩

/-- The hash as a constant, and a module with a member. -/
def optionsRegistry : Registry :=
  (Registry.empty.registerItems optionsHeap [.constant "options" (.hash ⟨0⟩) "Settings.",
    .module "light" "Signals." [.constant "red" (.boolean true) "Whether to stop."]]).1

def optionsReader : State :=
  { State.blank with heap := optionsHeap }

theorem isClosed_optionsHeap : optionsHeap.IsClosed :=
  Heap.isClosed_ofList (List.forall_mem_singleton.mpr trivial)

/-- One interpreter clears a member of the module and one of the constant. The other finds its own
module as it was, and the constant without the member. -/
theorem installs_share_only_values_options :
    optionsRegistry.IsBuilt optionsReader.heap ∧ optionsReader.IsReadyOn optionsReader.heap ∧
    let earlier := optionsRegistry.install optionsReader
    let later := optionsRegistry.install { optionsReader with heap := earlier.heap }
    optionsRegistry.SharesOnlyValues later.heap earlier later ∧
      ∃ after, ((Interpreter.ofFuel 2).run
          (clearMember "light" "red" ++ clearMember "options" "loud")
          { earlier with heap := later.heap }).state? = some after ∧
        (later.scopes.globals.map fun binding => (binding.1, after.heap.print binding.2)) =
          [("light", "[red: true]"), ("options", "[loud: nil]")] := by
  have hbuilt : optionsRegistry.IsBuilt optionsReader.heap := by
    refine (Registry.IsBuilt.empty isClosed_optionsHeap).registerItems ?_
    simp [LibraryItem.IsIn, MemberItem.IsIn, Value.IsIn, optionsHeap]
  have hready : optionsReader.IsReadyOn optionsReader.heap :=
    ⟨⟨Frame.All.nil, List.forall_mem_nil _⟩, rfl, rfl⟩
  refine ⟨hbuilt, hready, (installs_share_only_values hbuilt hready hready).1, _, rfl, ?_⟩
  cbv

end ScriptEngine
