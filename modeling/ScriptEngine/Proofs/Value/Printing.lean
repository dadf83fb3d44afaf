import Mathlib.Logic.Relation
import ScriptEngine.Value.Printing

/-!
# Printing

Printing ends on every heap, whatever cycles it has. `Heap.printout` prints without a bound on how
many containers are entered: it ends because each container that is entered is open from then on.
The bound in `Heap.print` is never felt. From a value that reaches no cycle, no container is ever
met again while it is open, so that the check for open containers could be left out.
-/

namespace ScriptEngine

/-! ### The text of a container -/

def arrayText (items : List String) : String :=
  "[" ++ ", ".intercalate items ++ "]"

def hashText : List String → String
  | [] => "[:]"
  | entries => arrayText entries

def entryText (key : Key) (value : String) : String :=
  key.print ++ ": " ++ value

/-- The form in which a value is printed, before it is put into a text. -/
inductive Printout
  | text (written : String)
  | marker
  | array (items : List Printout)
  | hash (entries : List Printout)
  | entry (key : Key) (value : Printout)

namespace Printout

mutual

def render : Printout → String
  | .text written => written
  | .marker => "[...]"
  | .array items => arrayText (renderAll items)
  | .hash entries => hashText (renderAll entries)
  | .entry key value => entryText key value.render

def renderAll : List Printout → List String
  | [] => []
  | first :: rest => first.render :: renderAll rest

end

theorem renderAll_eq_map (printouts : List Printout) :
    renderAll printouts = printouts.map render := by
  induction printouts with
  | nil => rfl
  | cons first rest ih => rw [renderAll, ih, List.map_cons]

end Printout

def ContainerRef.toValue : ContainerRef → Value
  | array ref => .array ref
  | hash ref => .hash ref

namespace Heap

variable (heap : Heap)

/-- The values in a container, in the order in which they are printed. -/
def contents : ContainerRef → List Value
  | .array ref => (heap.items ref).toList
  | .hash ref => (heap.table ref).entries.map Prod.snd

/-! ### Containers that are not open -/

/-- The containers that have a cell in the heap. -/
def containers : List ContainerRef :=
  (List.range heap.arrays.size).map (fun index => .array ⟨index⟩) ++
    (List.range heap.hashes.size).map fun index => .hash ⟨index⟩

/-- How many containers are not open. -/
def closedCount (opened : List ContainerRef) : Nat :=
  (heap.containers.filter fun container => container ∉ opened).length

theorem closedCount_le (opened : List ContainerRef) :
    heap.closedCount opened ≤ heap.arrays.size + heap.hashes.size := by
  have hsize : heap.containers.length = heap.arrays.size + heap.hashes.size := by
    simp [containers]
  exact hsize ▸ List.length_filter_le _ _

theorem mem_containers_of_mem_contents {container : ContainerRef} {value : Value}
    (h : value ∈ heap.contents container) : container ∈ heap.containers := by
  cases container with
  | array ref =>
      by_cases hcell : ref.index < heap.arrays.size
      · exact List.mem_append_left _ (List.mem_map.mpr ⟨ref.index, List.mem_range.mpr hcell, rfl⟩)
      · simp [contents, items, hcell] at h
  | hash ref =>
      by_cases hcell : ref.index < heap.hashes.size
      · exact List.mem_append_right _ (List.mem_map.mpr ⟨ref.index, List.mem_range.mpr hcell, rfl⟩)
      · simp [contents, table, hcell, Table.empty] at h

/-- Where a container that was not open has something in it, entering it leaves fewer containers
that are not open. -/
theorem closedCount_cons_lt {opened : List ContainerRef} {container : ContainerRef} {value : Value}
    (hopened : container ∉ opened) (hvalue : value ∈ heap.contents container) :
    heap.closedCount (container :: opened) < heap.closedCount opened := by
  have hfilter : (heap.containers.filter fun other => other ∉ container :: opened) =
      (heap.containers.filter fun other => other ∉ opened).filter
        fun other => other ≠ container := by
    rw [List.filter_filter]
    congr
    funext other
    simp [List.mem_cons, not_or]
  have hcell := heap.mem_containers_of_mem_contents hvalue
  unfold closedCount
  rw [hfilter, List.length_filter_lt_length_iff_exists]
  exact ⟨container, by simp [hcell, hopened], by simp⟩

theorem mem_contents_of_mem_entries {ref : HashRef} {entry : Key × Value}
    (h : entry ∈ (heap.table ref).entries) : entry.2 ∈ heap.contents (.hash ref) :=
  List.mem_map_of_mem h

/-! ### Printing without a bound -/

/-- What is printed for a value below the containers in `opened`. Each step down enters a container
that was not open. -/
def printout (heap : Heap) (opened : List ContainerRef) (value : Value) : Printout :=
  match value with
  | .nil => .text "nil"
  | .boolean value => .text (if value then "true" else "false")
  | .number value => .text (Value.printNumber value)
  | .string value => .text value
  | .function ref => .text (heap.printFunction ref)
  | .array ref =>
    if .array ref ∈ opened then
      .marker
    else
      .array ((heap.items ref).toList.attach.map fun item =>
        heap.printout (.array ref :: opened) item.1)
  | .hash ref =>
    if .hash ref ∈ opened then
      .marker
    else
      .hash ((heap.table ref).entries.attach.map fun entry =>
        .entry entry.1.1 (heap.printout (.hash ref :: opened) entry.1.2))
termination_by heap.closedCount opened
decreasing_by
  · exact heap.closedCount_cons_lt ‹_› item.2
  · exact heap.closedCount_cons_lt ‹_› (heap.mem_contents_of_mem_entries entry.2)

theorem printout_of_mem {opened : List ContainerRef} {container : ContainerRef}
    (h : container ∈ opened) : heap.printout opened container.toValue = .marker := by
  cases container with
  | array ref => rw [ContainerRef.toValue, printout, if_pos h]
  | hash ref => rw [ContainerRef.toValue, printout, if_pos h]

theorem printout_array {opened : List ContainerRef} {ref : ArrayRef}
    (h : .array ref ∉ opened) :
    heap.printout opened (.array ref) =
      .array ((heap.items ref).toList.map (heap.printout (.array ref :: opened))) := by
  rw [printout, if_neg h, List.attach_map_val]

theorem printout_hash {opened : List ContainerRef} {ref : HashRef} (h : .hash ref ∉ opened) :
    heap.printout opened (.hash ref) =
      .hash ((heap.table ref).entries.map fun entry =>
        .entry entry.1 (heap.printout (.hash ref :: opened) entry.2)) := by
  rw [printout, if_neg h]
  let print (entry : Key × Value) : Printout :=
    .entry entry.1 (heap.printout (.hash ref :: opened) entry.2)
  exact congrArg Printout.hash (List.attach_map_val (f := print))

/-- A container is marked just if it is open. -/
theorem printout_eq_marker_iff (opened : List ContainerRef) (container : ContainerRef) :
    heap.printout opened container.toValue = .marker ↔ container ∈ opened := by
  refine ⟨fun h => ?_, heap.printout_of_mem⟩
  refine Classical.byContradiction fun hopened => ?_
  cases container with
  | array ref =>
      rw [ContainerRef.toValue, heap.printout_array hopened] at h
      exact nomatch h
  | hash ref =>
      rw [ContainerRef.toValue, heap.printout_hash hopened] at h
      exact nomatch h

/-! ### The bound is never felt -/

theorem printBelow_of_mem {opened : List ContainerRef} {container : ContainerRef}
    (h : container ∈ opened) (levels : Nat) :
    heap.printBelow levels opened container.toValue = "[...]" := by
  have hcontains := List.contains_iff_mem.mpr h
  cases levels with
  | zero => cases container <;> rfl
  | succ levels =>
      cases container with
      | array ref => rw [ContainerRef.toValue, printBelow, if_pos hcontains]
      | hash ref => rw [ContainerRef.toValue, printBelow, if_pos hcontains]

theorem printBelow_array {opened : List ContainerRef} {ref : ArrayRef} (h : .array ref ∉ opened)
    (levels : Nat) :
    heap.printBelow (levels + 1) opened (.array ref) =
      arrayText ((heap.items ref).toList.map
        (heap.printBelow levels (.array ref :: opened))) := by
  rw [printBelow, if_neg (mt List.contains_iff_mem.mp h)]
  rfl

theorem printBelow_hash {opened : List ContainerRef} {ref : HashRef} (h : .hash ref ∉ opened)
    (levels : Nat) :
    heap.printBelow (levels + 1) opened (.hash ref) =
      hashText ((heap.table ref).entries.map fun entry =>
        entryText entry.1 (heap.printBelow levels (.hash ref :: opened) entry.2)) := by
  rw [printBelow, if_neg (mt List.contains_iff_mem.mp h)]
  cases (heap.table ref).entries <;> rfl

/-- With enough levels left, printing goes as far as it does without a bound. -/
theorem printBelow_eq_render {levels : Nat} {opened : List ContainerRef} (value : Value)
    (h : heap.closedCount opened < levels) :
    heap.printBelow levels opened value = (heap.printout opened value).render := by
  induction levels generalizing opened value with
  | zero => exact absurd h (Nat.not_lt_zero _)
  | succ levels ih =>
      have hinside {container : ContainerRef} (hopened : container ∉ opened) {inner : Value}
          (hinner : inner ∈ heap.contents container) :
          heap.printBelow levels (container :: opened) inner =
            (heap.printout (container :: opened) inner).render := by
        have hless := heap.closedCount_cons_lt hopened hinner
        exact ih inner (by omega)
      cases value with
      | array ref =>
          by_cases hopened : .array ref ∈ opened
          · have hmarker := heap.printout_of_mem hopened
            exact (heap.printBelow_of_mem hopened _).trans (congrArg Printout.render hmarker).symm
          · rw [heap.printout_array hopened, heap.printBelow_array hopened, Printout.render,
              Printout.renderAll_eq_map, List.map_map]
            exact congrArg arrayText (List.map_congr_left fun item hitem =>
              hinside hopened hitem)
      | hash ref =>
          by_cases hopened : .hash ref ∈ opened
          · have hmarker := heap.printout_of_mem hopened
            exact (heap.printBelow_of_mem hopened _).trans (congrArg Printout.render hmarker).symm
          · rw [heap.printout_hash hopened, heap.printBelow_hash hopened, Printout.render,
              Printout.renderAll_eq_map, List.map_map]
            refine congrArg hashText (List.map_congr_left fun entry hentry => ?_)
            have hvalue := hinside hopened (heap.mem_contents_of_mem_entries hentry)
            exact congrArg (entryText entry.1) hvalue
      | _ => rw [printout]; rfl

/-! ### Cycles -/

/-- One container is in another. -/
def Holds (outer inner : ContainerRef) : Prop :=
  inner.toValue ∈ heap.contents outer

/-- A container is the value or is below it. -/
def Reaches (value : Value) (container : ContainerRef) : Prop :=
  ∃ start : ContainerRef, value = start.toValue ∧ Relation.ReflTransGen heap.Holds start container

/-- No container that the value reaches is below itself. -/
def IsAcyclicFrom (value : Value) : Prop :=
  ∀ container, heap.Reaches value container → ¬ Relation.TransGen heap.Holds container container

variable {heap}

theorem Reaches.below {outer container : ContainerRef} {value : Value}
    (hvalue : value ∈ heap.contents outer) (h : heap.Reaches value container) :
    Relation.TransGen heap.Holds outer container := by
  obtain ⟨start, rfl, hpath⟩ := h
  exact .head' hvalue hpath

theorem reaches_self (container : ContainerRef) : heap.Reaches container.toValue container :=
  ⟨container, rfl, .refl⟩

theorem Reaches.tail {outer inner : ContainerRef} {value : Value}
    (h : heap.Reaches value outer) (hholds : heap.Holds outer inner) :
    heap.Reaches value inner := by
  obtain ⟨start, rfl, hpath⟩ := h
  exact ⟨start, rfl, hpath.tail hholds⟩

theorem Reaches.outer {outer container : ContainerRef} {value : Value}
    (hvalue : value ∈ heap.contents outer) (h : heap.Reaches value container) :
    heap.Reaches outer.toValue container :=
  ⟨outer, rfl, (h.below hvalue).to_reflTransGen⟩

theorem IsAcyclicFrom.inside {outer : ContainerRef} {value : Value}
    (h : heap.IsAcyclicFrom outer.toValue) (hvalue : value ∈ heap.contents outer) :
    heap.IsAcyclicFrom value :=
  fun container hreaches => h container (hreaches.outer hvalue)

theorem toValue_injective {first second : ContainerRef} (h : first.toValue = second.toValue) :
    first = second := by
  cases first <;> cases second <;> simp_all [ContainerRef.toValue]

/-- A cycle that a container reaches is reached by something in it. -/
theorem isAcyclicFrom_of_contents (outer : ContainerRef)
    (h : ∀ value ∈ heap.contents outer, heap.IsAcyclicFrom value) :
    heap.IsAcyclicFrom outer.toValue := by
  rintro container ⟨start, hstart, hpath⟩ hcycle
  obtain rfl := toValue_injective hstart
  rcases hpath.cases_head with rfl | ⟨next, hnext, hrest⟩
  · obtain ⟨next, hnext, hback⟩ := Relation.TransGen.head'_iff.mp hcycle
    exact h next.toValue hnext outer ⟨next, rfl, hback⟩ hcycle
  · exact h next.toValue hnext container ⟨next, rfl, hrest⟩ hcycle

/-! ### Printing without a check -/

variable (heap) in
/-- The printed form of a value, made without a look at what is open. There is none if containers
are more than `depth` deep in one another. -/
def printPlainly? : Nat → Value → Option String
  | _, .nil => some "nil"
  | _, .boolean value => some (if value then "true" else "false")
  | _, .number value => some (Value.printNumber value)
  | _, .string value => some value
  | _, .function ref => some (heap.printFunction ref)
  | 0, .array _ => none
  | 0, .hash _ => none
  | depth + 1, .array ref =>
    ((heap.items ref).toList.mapM (printPlainly? depth)).map arrayText
  | depth + 1, .hash ref =>
    ((heap.table ref).entries.mapM fun entry =>
      (printPlainly? depth entry.2).map (entryText entry.1)).map hashText

theorem mapM_eq_some_map {α β : Type} {read : α → Option β} {image : α → β} {items : List α}
    (h : ∀ item ∈ items, read item = some (image item)) :
    items.mapM read = some (items.map image) := by
  induction items with
  | nil => rfl
  | cons item rest ih =>
      rw [List.forall_mem_cons] at h
      rw [List.mapM_cons, h.1, ih h.2]
      rfl

theorem isSome_of_mapM_eq_some {α β : Type} {read : α → Option β} {items : List α}
    {results : List β} (h : items.mapM read = some results) :
    ∀ item ∈ items, (read item).isSome := by
  induction items generalizing results with
  | nil => exact nofun
  | cons item rest ih =>
      rw [List.mapM_cons] at h
      obtain ⟨first, hfirst, hrest⟩ := Option.bind_eq_some_iff.mp h
      obtain ⟨others, hothers, -⟩ := Option.bind_eq_some_iff.mp hrest
      rw [List.forall_mem_cons]
      exact ⟨Option.isSome_of_eq_some hfirst, ih hothers⟩

/-- What is below an acyclic container reaches neither it nor what was out of reach already. -/
theorem not_reaches_inside {opened : List ContainerRef} {outer : ContainerRef} {value : Value}
    (hopened : ∀ container ∈ opened, ¬ heap.Reaches outer.toValue container)
    (hacyclic : heap.IsAcyclicFrom outer.toValue) (hvalue : value ∈ heap.contents outer) :
    ∀ container ∈ outer :: opened, ¬ heap.Reaches value container := by
  intro container hcontainer hreaches
  rcases List.mem_cons.mp hcontainer with rfl | hmem
  · exact hacyclic container (reaches_self container) (hreaches.below hvalue)
  · exact hopened container hmem (hreaches.outer hvalue)

/-- As long as no open container is reached, the check makes no difference. -/
theorem printPlainly?_eq_render {depth : Nat} {opened : List ContainerRef} {value : Value}
    (hdepth : heap.closedCount opened < depth)
    (hopened : ∀ container ∈ opened, ¬ heap.Reaches value container)
    (hacyclic : heap.IsAcyclicFrom value) :
    heap.printPlainly? depth value = some (heap.printout opened value).render := by
  induction depth generalizing opened value with
  | zero => exact absurd hdepth (Nat.not_lt_zero _)
  | succ depth ih =>
      have hinside {container : ContainerRef} (hself : value = container.toValue) {inner : Value}
          (hinner : inner ∈ heap.contents container) :
          heap.printPlainly? depth inner =
            some (heap.printout (container :: opened) inner).render := by
        subst hself
        have hclosed : container ∉ opened := fun h => hopened container h (reaches_self container)
        have hless := heap.closedCount_cons_lt hclosed hinner
        exact ih (by omega) (not_reaches_inside hopened hacyclic hinner) (hacyclic.inside hinner)
      cases value with
      | array ref =>
          have hclosed : .array ref ∉ opened := fun h => hopened _ h (reaches_self (.array ref))
          have hitems : (heap.items ref).toList.mapM (heap.printPlainly? depth) =
              some ((heap.items ref).toList.map fun item =>
                (heap.printout (.array ref :: opened) item).render) :=
            mapM_eq_some_map fun _ hitem => hinside rfl hitem
          rw [printPlainly?, hitems, heap.printout_array hclosed, Printout.render,
            Printout.renderAll_eq_map, List.map_map]
          rfl
      | hash ref =>
          have hclosed : .hash ref ∉ opened := fun h => hopened _ h (reaches_self (.hash ref))
          have hentries : (heap.table ref).entries.mapM (fun entry =>
              (heap.printPlainly? depth entry.2).map (entryText entry.1)) =
              some ((heap.table ref).entries.map fun entry =>
                entryText entry.1 (heap.printout (.hash ref :: opened) entry.2).render) := by
            refine mapM_eq_some_map fun entry hentry => ?_
            rw [hinside rfl (heap.mem_contents_of_mem_entries hentry)]
            rfl
          rw [printPlainly?, hentries, heap.printout_hash hclosed, Printout.render,
            Printout.renderAll_eq_map, List.map_map]
          rfl
      | _ => rw [printout]; rfl

theorem isAcyclicFrom_of_ne {value : Value}
    (h : ∀ container : ContainerRef, value ≠ container.toValue) : heap.IsAcyclicFrom value :=
  fun _ ⟨start, hstart, _⟩ => absurd hstart (h start)

/-- Printing without a check only ends where there is no cycle. -/
theorem isAcyclicFrom_of_printPlainly? {depth : Nat} {value : Value}
    (h : (heap.printPlainly? depth value).isSome) : heap.IsAcyclicFrom value := by
  induction depth generalizing value with
  | zero =>
      cases value with
      | array ref => exact nomatch h
      | hash ref => exact nomatch h
      | _ => exact isAcyclicFrom_of_ne fun container => by cases container <;> exact nofun
  | succ depth ih =>
      cases value with
      | array ref =>
          rw [printPlainly?, Option.isSome_map] at h
          obtain ⟨items, hitems⟩ := Option.isSome_iff_exists.mp h
          exact isAcyclicFrom_of_contents (.array ref) fun item hitem =>
            ih (isSome_of_mapM_eq_some hitems item hitem)
      | hash ref =>
          rw [printPlainly?, Option.isSome_map] at h
          obtain ⟨entries, hentries⟩ := Option.isSome_iff_exists.mp h
          refine isAcyclicFrom_of_contents (.hash ref) fun value hvalue => ?_
          obtain ⟨entry, hentry, rfl⟩ := List.mem_map.mp hvalue
          have hprinted := isSome_of_mapM_eq_some hentries entry hentry
          rw [Option.isSome_map] at hprinted
          exact ih hprinted
      | _ => exact isAcyclicFrom_of_ne fun container => by cases container <;> exact nofun

end Heap

open Heap

/-- **Printing ends and is exact.** On any heap, printing goes as far as it does without a bound,
and so do more levels than there are cells. What is printed for a container is a marker just if it
is among the containers that have been entered on the way to it; otherwise it is entered, and what
stands in it is printed one by one, each with nothing open but the container and what was open
before. From a value, no cycle is reached just if printing ends without that check, and then the
check makes no difference. -/
theorem printing_exact (heap : Heap) :
    (∀ value, heap.print value = (heap.printout [] value).render) ∧
    (∀ value levels, heap.arrays.size + heap.hashes.size < levels →
      heap.printBelow levels [] value = heap.print value) ∧
    (∀ opened container, heap.printout opened container.toValue = .marker ↔ container ∈ opened) ∧
    (∀ opened ref, .array ref ∉ opened → heap.printout opened (.array ref) =
      .array ((heap.items ref).toList.map (heap.printout (.array ref :: opened)))) ∧
    (∀ opened ref, .hash ref ∉ opened → heap.printout opened (.hash ref) =
      .hash ((heap.table ref).entries.map fun entry =>
        .entry entry.1 (heap.printout (.hash ref :: opened) entry.2))) ∧
    (∀ value, heap.IsAcyclicFrom value ↔ ∃ depth, (heap.printPlainly? depth value).isSome) ∧
    ∀ value depth, heap.IsAcyclicFrom value → heap.arrays.size + heap.hashes.size < depth →
      heap.printPlainly? depth value = some (heap.print value) := by
  have hbound {levels : Nat} (h : heap.arrays.size + heap.hashes.size < levels) :
      heap.closedCount [] < levels := Nat.lt_of_le_of_lt (heap.closedCount_le []) h
  have hprint (value : Value) : heap.print value = (heap.printout [] value).render :=
    heap.printBelow_eq_render value (hbound (Nat.lt_succ_self _))
  have hplain (value : Value) (depth : Nat) (hacyclic : heap.IsAcyclicFrom value)
      (hdepth : heap.arrays.size + heap.hashes.size < depth) :
      heap.printPlainly? depth value = some (heap.print value) := by
    rw [hprint]
    exact printPlainly?_eq_render (hbound hdepth) nofun hacyclic
  refine ⟨hprint, fun value levels hlevels => ?_, heap.printout_eq_marker_iff,
    fun opened ref => heap.printout_array, fun opened ref => heap.printout_hash,
    fun value => ⟨fun hacyclic => ?_, fun ⟨depth, hprinted⟩ => ?_⟩, hplain⟩
  · rw [hprint]
    exact heap.printBelow_eq_render value (hbound hlevels)
  · have hprinted := hplain value _ hacyclic (Nat.lt_succ_self _)
    exact ⟨_, Option.isSome_of_eq_some hprinted⟩
  · exact isAcyclicFrom_of_printPlainly? hprinted

/-- An array that holds another one twice, next to a hash that holds itself. -/
def sharingHeap : Heap :=
  ⟨#[#[.array ⟨1⟩, .array ⟨1⟩], #[.boolean true]],
    #[Table.empty.insert (.string "self") (.hash ⟨0⟩)], #[]⟩

example : sharingHeap.print (.array ⟨0⟩) = "[[true], [true]]" := by decide

example : sharingHeap.print (.hash ⟨0⟩) = "[self: [...]]" := by decide

theorem printing_exact_sharingHeap :
    sharingHeap.IsAcyclicFrom (.array ⟨0⟩) ∧
      sharingHeap.arrays.size + sharingHeap.hashes.size < 4 ∧
      sharingHeap.printPlainly? 4 (.array ⟨0⟩) = some (sharingHeap.print (.array ⟨0⟩)) ∧
      ¬ sharingHeap.IsAcyclicFrom (.hash ⟨0⟩) := by
  have hexact := printing_exact sharingHeap
  have hacyclic : sharingHeap.IsAcyclicFrom (.array ⟨0⟩) :=
    (hexact.2.2.2.2.2.1 _).mpr ⟨4, rfl⟩
  have hsize : sharingHeap.arrays.size + sharingHeap.hashes.size < 4 := by decide
  refine ⟨hacyclic, hsize, hexact.2.2.2.2.2.2 _ 4 hacyclic hsize, fun h => ?_⟩
  exact h (.hash ⟨0⟩) (reaches_self (.hash ⟨0⟩)) (.single (List.mem_singleton_self _))

end ScriptEngine
