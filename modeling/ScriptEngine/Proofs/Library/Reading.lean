import ScriptEngine.Library.Dispatch

/-!
# What library functions read

Of the functions in a heap a library function sees only how they print. Arrays and hashes it may
read and make, functions it neither reads nor makes.
-/

namespace ScriptEngine

/-- The heap with other functions in place of its own. -/
def Heap.withFunctions (heap : Heap) (functions : Array Callable) : Heap :=
  { heap with functions := functions }

namespace Heap

variable {heap : Heap} {functions : Array Callable}

section

variable (h : (heap.withFunctions functions).printFunction = heap.printFunction)
include h

theorem printBelow_withFunctions (levels : Nat) (opened : List ContainerRef) (value : Value) :
    (heap.withFunctions functions).printBelow levels opened value =
      heap.printBelow levels opened value := by
  induction levels generalizing opened value with
  | zero =>
      cases value with
      | function ref => exact congrFun h ref
      | _ => rfl
  | succ levels ih =>
      have hbelow : ∀ opened, (heap.withFunctions functions).printBelow levels opened =
          heap.printBelow levels opened := fun opened => funext (ih opened)
      cases value with
      | function ref => exact congrFun h ref
      | array ref =>
          simp only [printBelow, hbelow]
          rfl
      | hash ref =>
          simp only [printBelow, hbelow]
          rfl
      | _ => rfl

theorem print_withFunctions : (heap.withFunctions functions).print = heap.print :=
  funext fun value => printBelow_withFunctions h _ [] value

theorem renderVerb_withFunctions (verb : Char) (directive : Format.Directive) (value : Value) :
    Format.renderVerb (heap.withFunctions functions) verb directive value =
      Format.renderVerb heap verb directive value := by
  unfold Format.renderVerb
  rw [print_withFunctions h]

theorem format_withFunctions (format : String) (arguments : List Value) :
    (heap.withFunctions functions).format format arguments = heap.format format arguments := by
  unfold Heap.format
  fun_induction Format.render heap (Format.segments format.toList) arguments with
  | case1 => simp only [Format.render, print_withFunctions h]
  | case2 _ _ _ ih => simp only [Format.render, ih]
  | case3 _ _ ih => simp only [Format.render, ih]
  | case4 _ _ ih => simp only [Format.render, ih]
  | case5 _ _ _ ih => simp only [Format.render, ih]
  | case6 _ _ _ _ _ _ ih =>
      simp only [Format.render, renderVerb_withFunctions h, ih]
      rfl

end

/-- Numbers, texts and containers are encoded without a look at functions. -/
theorem encode_withFunctions (order : EntryOrder) (levels : Nat) (value : Value) :
    JsonCodec.encode order (heap.withFunctions functions) levels value =
      JsonCodec.encode order heap levels value := by
  induction levels generalizing value with
  | zero => rfl
  | succ levels ih =>
      have hbelow : JsonCodec.encode order (heap.withFunctions functions) levels =
          JsonCodec.encode order heap levels := funext ih
      cases value with
      | array ref =>
          simp only [JsonCodec.encode, hbelow]
          rfl
      | hash ref =>
          simp only [JsonCodec.encode, hbelow]
          rfl
      | _ => rfl

theorem toJson_withFunctions : (heap.withFunctions functions).toJson = heap.toJson :=
  funext fun order => funext fun value => encode_withFunctions order _ value

end Heap

section

variable {heap : Heap} {functions : Array Callable}

theorem JsonOperation.apply_withFunctions (operation : JsonOperation) (arguments : List Value)
    (order : EntryOrder) :
    operation.apply arguments order (heap.withFunctions functions) =
      operation.apply arguments order heap := by
  cases operation with
  | encode =>
      unfold apply JsonText.write
      rw [Heap.toJson_withFunctions]
  | decode => rfl
  | validate => rfl

variable (h : (heap.withFunctions functions).printFunction = heap.printFunction)
include h

theorem ConversionOperation.apply_withFunctions (operation : ConversionOperation)
    (arguments : List Value) :
    operation.apply arguments (heap.withFunctions functions) = operation.apply arguments heap := by
  unfold apply
  rw [Heap.print_withFunctions h]

theorem CollectionOperation.apply_withFunctions (operation : CollectionOperation)
    (arguments : List Value) :
    operation.apply arguments (heap.withFunctions functions) = operation.apply arguments heap := by
  cases operation with
  | join =>
      unfold apply
      rw [Heap.print_withFunctions h]
      rfl
  | _ => rfl

theorem TimeOperation.apply_withFunctions (operation : TimeOperation) (arguments : List Value)
    (now : Int) :
    operation.apply arguments now (heap.withFunctions functions) =
      operation.apply arguments now heap := by
  have hfield : Clock.field (heap.withFunctions functions) = Clock.field heap := by
    unfold Clock.field
    rw [Heap.print_withFunctions h]
  have hmoment : Clock.momentArgument (heap.withFunctions functions) = Clock.momentArgument heap := by
    unfold Clock.momentArgument Clock.ofTable
    rw [hfield]
    rfl
  cases operation with
  | diff => simp only [apply, hmoment]
  | format => simp only [apply, hmoment]
  | str => simp only [apply, hmoment]
  | _ => rfl

theorem FileOperation.apply_withFunctions (operation : FileOperation) (arguments : List Value)
    (world : World) :
    operation.apply arguments (heap.withFunctions functions) world =
      operation.apply arguments heap world := by
  cases operation with
  | persist =>
      unfold apply Storage.persist JsonText.write
      rw [Heap.toJson_withFunctions]
  | write =>
      unfold apply
      rw [Heap.print_withFunctions h]
  | _ => rfl

namespace Console

theorem adjacentText_withFunctions (values : List Value) :
    adjacentText (heap.withFunctions functions) values = adjacentText heap values := by
  fun_induction adjacentText heap values with
  | case1 => rfl
  | case2 value => simp only [adjacentText, Heap.print_withFunctions h]
  | case3 first second rest gap ih =>
      simp only [adjacentText, Heap.print_withFunctions h, ih]
      rfl

theorem lineText_withFunctions (values : List Value) :
    lineText (heap.withFunctions functions) values = lineText heap values := by
  unfold lineText
  rw [Heap.print_withFunctions h]

end Console

end

/-! ### New containers -/

namespace JsonCodec

variable {functions : Array Callable}

mutual

theorem decode_withFunctions (heap : Heap) : (document : JsonDocument) →
    decode (heap.withFunctions functions) document =
      (decode heap document).map id (·.withFunctions functions)
  | .null => rfl
  | .boolean _ => rfl
  | .number _ => rfl
  | .string _ => rfl
  | .array elements => by
      simp only [decode, decodeElements_withFunctions heap elements]
      rfl
  | .object members => by
      simp only [decode, decodeMembers_withFunctions heap members]
      rfl

theorem decodeElements_withFunctions (heap : Heap) : (elements : List JsonDocument) →
    decodeElements (heap.withFunctions functions) elements =
      (decodeElements heap elements).map id (·.withFunctions functions)
  | [] => rfl
  | head :: rest => by
      simp only [decodeElements, decode_withFunctions heap head, Prod.map,
        decodeElements_withFunctions (decode heap head).2 rest]
      rfl

theorem decodeMembers_withFunctions (heap : Heap) : (members : List JsonMember) →
    decodeMembers (heap.withFunctions functions) members =
      (decodeMembers heap members).map id (·.withFunctions functions)
  | [] => rfl
  | .mk _ document :: rest => by
      simp only [decodeMembers, decode_withFunctions heap document, Prod.map,
        decodeMembers_withFunctions (decode heap document).2 rest]
      rfl

end

end JsonCodec

namespace Heap

variable (heap : Heap)

theorem newHashes_withFunctions (functions : Array Callable)
    (inner : List (Key × List (Key × Value))) :
    (heap.withFunctions functions).newHashes inner =
      (heap.newHashes inner).map id (·.withFunctions functions) := by
  induction inner generalizing heap with
  | nil => rfl
  | cons entry rest ih =>
      have hrest := ih (heap.newHash (.ofList entry.2)).2
      change (_ :: (((heap.newHash (.ofList entry.2)).2.withFunctions functions).newHashes rest).1,
        (((heap.newHash (.ofList entry.2)).2.withFunctions functions).newHashes rest).2) = _
      rw [hrest]
      rfl

theorem realize_withFunctions (functions : Array Callable) (result : LibraryResult) :
    (heap.withFunctions functions).realize result =
      (heap.realize result).map id (·.withFunctions functions) := by
  cases result with
  | hash entries inner =>
      simp only [realize, newHashes_withFunctions]
      rfl
  | document document => exact JsonCodec.decode_withFunctions heap document
  | _ => rfl

/-- A result has no new functions in it. -/
theorem functions_realize (result : LibraryResult) :
    (heap.realize result).2.functions = heap.functions :=
  congrArg (fun made => made.2.functions) (heap.realize_withFunctions heap.functions result)

end Heap

end ScriptEngine
