import ScriptEngine.Proofs.Value.Cells

/-!
# Policies

References cannot be made up: a value that a run has at hand is a scalar, or it stood in a container
at hand, or it is new. So a property of values and heaps is kept by every run if it is kept by the
changes that can be made to a heap with the values at hand. A policy is such a property.
-/

namespace ScriptEngine

/-- Which values may be at hand in a heap, and which heaps are in order. -/
structure Policy where
  allows : Heap → Value → Prop
  accepts : Heap → Prop
  allows_mono {before after : Heap} (h : before.FitsIn after) {value : Value}
    (hvalue : allows before value) : allows after value
  allows_scalar (heap : Heap) {value : Value} (h : (Key.ofValue? value).isSome) :
    allows heap value
  allows_items {heap : Heap} (h : accepts heap) {ref : ArrayRef}
    (href : allows heap (.array ref)) : ItemsAll (allows heap) (heap.items ref)
  allows_table {heap : Heap} (h : accepts heap) {ref : HashRef}
    (href : allows heap (.hash ref)) : (heap.table ref).All (allows heap)
  allows_newArray {heap : Heap} (h : accepts heap) (items : Array Value) :
    allows (heap.newArray items).2 (heap.newArray items).1
  allows_newHash {heap : Heap} (h : accepts heap) (table : Table) :
    allows (heap.newHash table).2 (heap.newHash table).1
  allows_newFunction {heap : Heap} (h : accepts heap) (callable : Callable) :
    allows (heap.newFunction callable).2 (heap.newFunction callable).1
  accepts_newArray {heap : Heap} (h : accepts heap) {items : Array Value}
    (hitems : ItemsAll (allows heap) items) : accepts (heap.newArray items).2
  accepts_newHash {heap : Heap} (h : accepts heap) {table : Table}
    (htable : table.All (allows heap)) : accepts (heap.newHash table).2
  accepts_newFunction {heap : Heap} (h : accepts heap) (callable : Callable) :
    accepts (heap.newFunction callable).2
  accepts_setItem {heap : Heap} (h : accepts heap) {ref : ArrayRef}
    (href : allows heap (.array ref)) (slot : Nat) {value : Value} (hvalue : allows heap value) :
    accepts (heap.setItem ref slot value)
  accepts_setEntry {heap : Heap} (h : accepts heap) {ref : HashRef}
    (href : allows heap (.hash ref)) (key : Key) {value : Value} (hvalue : allows heap value) :
    accepts (heap.setEntry ref key value)

namespace Policy

/-- All values have their cells. -/
def closed : Policy where
  allows heap value := value.IsIn heap
  accepts heap := heap.IsClosed
  allows_mono h _ hvalue := h.isIn hvalue
  allows_scalar heap _ h := Value.isIn_of_scalar heap h
  allows_items h ref _ := h.items ref
  allows_table h ref _ := h.table ref
  allows_newArray _ items := Heap.isIn_newArray _ items
  allows_newHash _ table := Heap.isIn_newHash _ table
  allows_newFunction _ callable := Heap.isIn_newFunction _ callable
  accepts_newArray h _ hitems := h.newArray hitems
  accepts_newHash h _ htable := h.newHash htable
  accepts_newFunction h callable := h.newFunction callable
  accepts_setItem h ref _ slot _ hvalue := h.setItem ref slot hvalue
  accepts_setEntry h ref _ key _ hvalue := h.setEntry ref key hvalue

variable {policy : Policy} {heap : Heap}

theorem allows_key (policy : Policy) (heap : Heap) (key : Key) :
    policy.allows heap key.toValue :=
  policy.allows_scalar heap key.isSome_ofValue?_toValue

/-- A value that was looked for, or `nil`. -/
theorem allows_getD {found : Option Value}
    (h : ∀ value, found = some value → policy.allows heap value) :
    policy.allows heap (found.getD .nil) := by
  cases found with
  | none => exact policy.allows_scalar heap rfl
  | some value => exact h value rfl

end Policy

end ScriptEngine
