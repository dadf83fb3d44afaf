import ScriptEngine.Execution.RuntimeError

namespace ScriptEngine

namespace Value

def toKey (value : Value) : Except RuntimeError Key :=
  match Key.ofValue? value with
  | some key => .ok key
  | none => .error (.unusableKey value)

end Value

/-- The place of an index in an array: any integral number from zero up to the length. -/
def arraySlot (index : Value) (length : Nat) : Except RuntimeError Nat :=
  match index with
  | .number number =>
    match integerOf? number with
    | some slot =>
      if 0 ≤ slot ∧ slot < length then
        .ok slot.toNat
      else
        .error (.indexOutOfRange number length)
    | none => .error (.indexNotInteger number)
  | other => .error (.indexNotNumber other)

/-- A place inside a container. -/
inductive Slot
  | item (ref : ArrayRef) (slot : Nat)
  | entry (ref : HashRef) (key : Key)
deriving DecidableEq, Repr

namespace Heap

/-- The place of an entry that a hash has. -/
def entrySlot (heap : Heap) (ref : HashRef) (key : Key) : Except RuntimeError Slot :=
  if (heap.table ref).contains key then .ok (.entry ref key) else .error (.keyNotFound key)

/-- The place in a container under an index. `refused` is the error for a value that is no
container. -/
def indexSlot (heap : Heap) (container index : Value) (refused : Value → RuntimeError) :
    Except RuntimeError Slot :=
  match container with
  | .array ref => (arraySlot index (heap.items ref).size).map (.item ref)
  | .hash ref =>
    match index.toKey with
    | .ok key => heap.entrySlot ref key
    | .error failure => .error failure
  | other => .error (refused other)

/-- The place of a member that a hash has. -/
def memberSlot (heap : Heap) (container : Value) (property : String) : Except RuntimeError Slot :=
  match container with
  | .hash ref => heap.entrySlot ref (.string property)
  | other => .error (.noMember property other)

/-- The place of a member that is to be written. A hash need not have it yet. -/
def newMemberSlot (container : Value) (property : String) : Except RuntimeError Slot :=
  match container with
  | .hash ref => .ok (.entry ref (.string property))
  | other => .error (.noMemberAssignment property other)

def readSlot (heap : Heap) : Slot → Value
  | .item ref slot => (heap.items ref)[slot]?.getD .nil
  | .entry ref key => ((heap.table ref).find? key).getD .nil

def writeSlot (heap : Heap) (slot : Slot) (value : Value) : Heap :=
  match slot with
  | .item ref slot => heap.setItem ref slot value
  | .entry ref key => heap.setEntry ref key value

end Heap

/-- The value of a slot after a step by `delta`. -/
def stepped (value : Value) (delta : Number) : Except RuntimeError Value :=
  match value with
  | .number number => .ok (.number (number + delta))
  | other => .error (.notSteppable other)

end ScriptEngine
