import ScriptEngine.Proofs.Value.Cells
import ScriptEngine.Proofs.Value.Entries

/-!
# Heaps that correspond

Two heaps may hold the same values in different cells. A correspondence links containers of one heap
with containers of the other, one to one, so that linked arrays hold linked values in the same places
and linked hashes hold linked values under the same keys. Values that are linked print alike. In
particular a value prints alike in two heaps that hold the same wherever it leads.
-/

namespace ScriptEngine

namespace Heap

variable {links : ContainerRef → ContainerRef → Prop} {first second : Heap}

/-- A value of one heap and one of another: the same scalar, the same function, or containers that
are linked. -/
inductive Linked (links : ContainerRef → ContainerRef → Prop) (first second : Heap) :
    Value → Value → Prop
  | scalar {value : Value} (h : (Key.ofValue? value).isSome) : Linked links first second value value
  | function {left right : FunctionRef} (h : first.callable? left = second.callable? right) :
      Linked links first second (.function left) (.function right)
  | container {left right : ContainerRef} (h : links left right) :
      Linked links first second left.toValue right.toValue

/-- The containers of two heaps are linked one to one, and linked ones hold the same. -/
structure Corresponds (links : ContainerRef → ContainerRef → Prop) (first second : Heap) : Prop where
  functional {left right other : ContainerRef} (h : links left right) (hother : links left other) :
    right = other
  injective {left right other : ContainerRef} (h : links left right) (hother : links other right) :
    left = other
  array {left : ArrayRef} {right : ContainerRef} (h : links (.array left) right) :
    ∃ ref, right = .array ref ∧
      List.Forall₂ (Linked links first second) (first.items left).toList (second.items ref).toList
  hash {left : HashRef} {right : ContainerRef} (h : links (.hash left) right) :
    ∃ ref, right = .hash ref ∧ ∀ key,
      Option.Rel (Linked links first second) ((first.table left).find? key)
        ((second.table ref).find? key)

theorem print_eq_render (heap : Heap) (value : Value) :
    heap.print value = (heap.printout [] value).render := by
  apply printBelow_eq_render
  have := heap.closedCount_le []
  omega

namespace Corresponds

theorem mem_iff (h : Corresponds links first second) {opened others : List ContainerRef}
    (hopened : List.Forall₂ links opened others) {left right : ContainerRef}
    (hlink : links left right) : left ∈ opened ↔ right ∈ others := by
  induction hopened with
  | nil => simp
  | cons hhead _ ih =>
      rw [List.mem_cons, List.mem_cons, ih]
      have hsame : ∀ {head other : ContainerRef}, links head other → (left = head ↔ right = other) := by
        intro head other hhead
        constructor
        · intro heq
          subst heq
          exact h.functional hlink hhead
        · intro heq
          subst heq
          exact h.injective hlink hhead
      rw [hsame hhead]

/-- The entries of linked hashes are linked one by one. -/
theorem entries (h : Corresponds links first second) {left right : HashRef}
    (hlink : links (.hash left) (.hash right)) :
    List.Forall₂ (fun entry other => entry.1 = other.1 ∧ Linked links first second entry.2 other.2)
      (first.table left).entries (second.table right).entries := by
  obtain ⟨ref, href, hfound⟩ := h.hash hlink
  cases href
  exact Table.forall₂_of_lookup (first.table left).ascending (second.table right).ascending hfound

/-- Linked values have the same printout, whatever is open. -/
theorem printout_eq (h : Corresponds links first second) {opened others : List ContainerRef}
    {value other : Value} (hopened : List.Forall₂ links opened others)
    (hvalue : Linked links first second value other) :
    first.printout opened value = second.printout others other := by
  induction hcount : first.closedCount opened using Nat.strong_induction_on
    generalizing opened others value other with
  | _ count ih =>
    have hinside {left right : ContainerRef} (hlink : links left right) (hleft : left ∉ opened)
        {inner otherInner : Value} (hinner : inner ∈ first.contents left)
        (hlinked : Linked links first second inner otherInner) :
        first.printout (left :: opened) inner = second.printout (right :: others) otherInner := by
      have hless := first.closedCount_cons_lt hleft hinner
      exact ih _ (hcount ▸ hless) (.cons hlink hopened) hlinked rfl
    cases hvalue with
    | scalar hscalar =>
        cases value with
        | array ref => exact nomatch hscalar
        | hash ref => exact nomatch hscalar
        | function ref => exact nomatch hscalar
        | _ => rw [printout, printout]
    | function hsame => rw [printout, printout, printFunction, printFunction, hsame]
    | @container left right hlink =>
        by_cases hleft : left ∈ opened
        · have hright := (h.mem_iff hopened hlink).mp hleft
          rw [first.printout_of_mem hleft, second.printout_of_mem hright]
        · have hright := mt (h.mem_iff hopened hlink).mpr hleft
          cases left with
          | array left =>
              obtain ⟨right, rfl, hitems⟩ := h.array hlink
              simp only [ContainerRef.toValue]
              rw [first.printout_array hleft, second.printout_array hright]
              refine congrArg Printout.array (map_eq_map_of_forall₂ hitems ?_)
              intro item hitem otherItem hlinked
              exact hinside hlink hleft hitem hlinked
          | hash left =>
              obtain ⟨right, rfl, -⟩ := h.hash hlink
              simp only [ContainerRef.toValue]
              rw [first.printout_hash hleft, second.printout_hash hright]
              refine congrArg Printout.hash (map_eq_map_of_forall₂ (h.entries hlink) ?_)
              intro entry hentry otherEntry hlinked
              have hprinted := hinside hlink hleft (first.mem_contents_of_mem_entries hentry)
                hlinked.2
              rw [hlinked.1, hprinted]

theorem print_eq (h : Corresponds links first second) {value other : Value}
    (hvalue : Linked links first second value other) : first.print value = second.print other := by
  rw [print_eq_render, print_eq_render, h.printout_eq .nil hvalue]

end Corresponds

/-! ### Heaps that hold the same -/

/-- Functions that are in the first heap are the same in the second. -/
def KeepsCallables (before after : Heap) : Prop :=
  ∀ {ref callable}, before.callable? ref = some callable → after.callable? ref = some callable

variable {before after : Heap}

/-- A value is linked with itself if the container that it may be is. -/
theorem linked_self {value : Value} (hvalue : value.IsIn before)
    (hcallables : before.KeepsCallables after)
    (hlinks : ∀ container : ContainerRef, value = container.toValue → links container container) :
    Linked links after before value value := by
  cases value with
  | array ref => exact .container (hlinks (.array ref) rfl)
  | hash ref => exact .container (hlinks (.hash ref) rfl)
  | function ref =>
      have hbefore : before.callable? ref = some before.functions[ref.index] :=
        Array.getElem?_eq_getElem hvalue
      exact .function ((hcallables hbefore).trans hbefore.symm)
  | _ => exact .scalar rfl

/-- If all that a value reaches holds the same in a later heap, then the value prints the same. -/
theorem print_eq_of_sameAt (hclosed : before.IsClosed) (hcallables : before.KeepsCallables after)
    {value : Value} (hvalue : value.IsIn before)
    (hsame : ∀ container, before.Reaches value container → after.SameAt before container) :
    after.print value = before.print value := by
  let links (left right : ContainerRef) : Prop := left = right ∧ before.Reaches value left
  -- What is in a container that the value reaches is linked with itself, as the container is.
  have hinside {outer : ContainerRef} (houter : before.Reaches value outer) {inner : Value}
      (hinner : inner ∈ before.contents outer) : Linked links after before inner inner := by
    refine linked_self (hclosed outer inner hinner) hcallables ?_
    rintro container rfl
    exact ⟨rfl, houter.tail hinner⟩
  have hcorresponds : Corresponds links after before := by
    refine ⟨fun h hother => h.1.symm.trans hother.1, fun h hother => h.1.trans hother.1.symm, ?_, ?_⟩
    · rintro left _ ⟨rfl, hreaches⟩
      refine ⟨left, rfl, ?_⟩
      have hitems : after.items left = before.items left := hsame _ hreaches
      rw [hitems]
      exact List.forall₂_same.mpr fun item hitem => hinside hreaches hitem
    · rintro left _ ⟨rfl, hreaches⟩
      refine ⟨left, rfl, fun key => ?_⟩
      have htable : after.table left = before.table left := hsame _ hreaches
      rw [htable]
      cases hfound : (before.table left).find? key with
      | none => exact .none
      | some stored =>
          have hentry := (Table.mem_iff_lookup (before.table left).ascending).mpr hfound
          exact .some (hinside hreaches (before.mem_contents_of_mem_entries hentry))
  refine hcorresponds.print_eq (linked_self hvalue hcallables ?_)
  rintro container rfl
  exact ⟨rfl, reaches_self container⟩

end Heap

end ScriptEngine
