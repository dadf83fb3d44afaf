namespace ScriptEngine

/-- How many arguments a library function takes. -/
inductive Arity
  | exactly (count : Nat)
  | between (minimum : Nat) (maximum : Option Nat)
deriving DecidableEq, Repr

namespace Arity

def atLeast (minimum : Nat) : Arity :=
  between minimum none

def accepts : Arity → Nat → Bool
  | exactly expected, count => expected == count
  | between minimum none, count => minimum ≤ count
  | between minimum (some maximum), count => minimum ≤ count && count ≤ maximum

def describe : Arity → String
  | exactly 1 => "1 argument"
  | exactly count => s!"{count} arguments"
  | between minimum (some maximum) =>
    if minimum = maximum then s!"{minimum} arguments" else s!"{minimum}..={maximum} arguments"
  | between 0 none => "any number of arguments"
  | between minimum none => s!"at least {minimum} arguments"

end Arity

end ScriptEngine
