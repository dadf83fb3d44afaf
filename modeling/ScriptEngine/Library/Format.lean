import ScriptEngine.Text.Quoted
import ScriptEngine.Value.Printing

namespace ScriptEngine

namespace Format

/-- A part of a format text. `directive` takes an argument; `incomplete` stands for a percent sign
that no verb follows. -/
inductive Segment
  | literal (character : Char)
  | percent
  | directive (flags : List Char) (verb : Char)
  | incomplete
deriving DecidableEq, Repr

def isFlag (character : Char) : Bool :=
  character.isDigit || character == '.' || character == '-'

/-- The parts of a format text in order. Nothing follows an incomplete one. -/
def segments : List Char → List Segment
  | [] => []
  | character :: rest =>
    if character = '%' then
      match _hrest : rest.dropWhile isFlag with
      | [] => [.incomplete]
      | verb :: after =>
        let segment := if verb = '%' then .percent else .directive (rest.takeWhile isFlag) verb
        segment :: segments after
    else
      .literal character :: segments rest
termination_by text => text.length
decreasing_by
  · have := (List.dropWhile_sublist isFlag (l := rest)).length_le
    rw [_hrest] at this
    simp only [List.length_cons] at *
    omega
  · simp

/-- The greatest width or precision that a layout can have. -/
def greatestWidth : Nat := 65535

/-- A count of digits only that fits 64 bits. -/
def readCount? (digits : List Char) : Option Nat :=
  if digits.isEmpty ∨ ¬ digits.all Char.isDigit then
    none
  else
    let count := digits.foldl (fun value digit => 10 * value + (digit.toNat - '0'.toNat)) 0
    if count ≤ 18446744073709551615 then some count else none

/-- What the flags before a verb ask for. -/
structure Directive where
  leftAligned : Bool
  width : Option Nat
  precision : Option Nat
deriving DecidableEq, Repr

def Directive.ofFlags (flags : List Char) : Directive :=
  let body := flags.dropWhile (· == '-')
  let width := readCount? (body.takeWhile (· != '.'))
  let leftAligned := flags.head? == some '-'
  match body.dropWhile (· != '.') with
  | [] => ⟨leftAligned, width, none⟩
  | _ :: precision => ⟨leftAligned, width, some ((readCount? precision).getD 0)⟩

/-- Fills a text with blanks up to the width. There is no result for a width that is too great. -/
def Directive.pad (directive : Directive) (text : String) : Option String :=
  match directive.width with
  | none => some text
  | some width =>
    if greatestWidth < width then
      none
    else
      let blanks := String.ofList (List.replicate (width - text.length) ' ')
      some (if directive.leftAligned then text ++ blanks else blanks ++ text)

def hexText (number : Int) : String :=
  String.ofList (Nat.toDigits 16 (number % 18446744073709551616).toNat)

def hexByte (byte : UInt8) : List Char :=
  [Nat.digitChar (byte.toNat / 16), Nat.digitChar (byte.toNat % 16)]

def hexOfText (text : String) : String :=
  String.ofList (text.toUTF8.toList.flatMap hexByte)

/-- The text of a value under a verb. A verb that does not fit the value says so in place. There is
no result for a precision that is too great. -/
def renderVerb (heap : Heap) (verb : Char) (directive : Directive) (value : Value) :
    Option String :=
  match verb, value with
  | 'v', _ => some (heap.print value)
  | 's', _ =>
    match directive.precision with
    | some limit => some (String.ofList ((heap.print value).toList.take limit))
    | none => some (heap.print value)
  | 'd', .number number => some (toString (saturatedInt number))
  | 'f', .number number =>
    let places := directive.precision.getD 6
    if greatestWidth < places then
      none
    else
      some (number.exact.renderFixed places)
  | 't', .boolean value => some (if value then "true" else "false")
  | 'q', .string text => some (quoted text)
  | 'x', .number number => some (hexText (saturatedInt number))
  | 'x', .string text => some (hexOfText text)
  | _, _ => some s!"%!{verb}({value.typeName}={heap.print value})"

/-- Renders the parts of a format text, each directive with the next argument. Arguments that no
directive takes are listed at the end. -/
def render (heap : Heap) : List Segment → List Value → Option String
  | [], extra =>
    some (String.join (extra.map fun value => s!"%!(EXTRA {value.typeName}={heap.print value})"))
  | .literal character :: rest, arguments =>
    (render heap rest arguments).map fun text => character.toString ++ text
  | .percent :: rest, arguments =>
    (render heap rest arguments).map fun text => "%" ++ text
  | .incomplete :: rest, arguments =>
    (render heap rest arguments).map fun text => "%!(NOVERB)" ++ text
  | .directive _ verb :: rest, [] =>
    (render heap rest []).map fun text => s!"%!{verb}(MISSING)" ++ text
  | .directive flags verb :: rest, value :: arguments => do
    let directive := Directive.ofFlags flags
    let text ← directive.pad (← renderVerb heap verb directive value)
    let following ← render heap rest arguments
    return text ++ following

end Format

/-- Renders a format text with arguments. There is no result if a width or precision is too
great. -/
def Heap.format (heap : Heap) (format : String) (arguments : List Value) : Option String :=
  Format.render heap (Format.segments format.toList) arguments

end ScriptEngine
