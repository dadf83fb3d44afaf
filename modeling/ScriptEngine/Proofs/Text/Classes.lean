import Mathlib.Data.List.Basic

/-!
# Characters of a class

How much of a text belongs to a class of characters, when what follows begins with none of them.
-/

namespace ScriptEngine

variable {text rest : List Char}

/-- The text begins with no character of a class. -/
def Stops (member : Char → Bool) (text : List Char) : Prop :=
  ∀ head ∈ text.head?, member head = false

theorem takeWhile_append_of_stops {member : Char → Bool} (htext : ∀ head ∈ text, member head)
    (hrest : Stops member rest) :
    (text ++ rest).takeWhile member = text ∧ (text ++ rest).dropWhile member = rest := by
  have hnone : rest.takeWhile member = [] ∧ rest.dropWhile member = rest := by
    cases rest with
    | nil => exact ⟨rfl, rfl⟩
    | cons head tail =>
        have hhead : member head = false := hrest head rfl
        exact ⟨List.takeWhile_cons_of_neg (by simp [hhead]),
          List.dropWhile_cons_of_neg (by simp [hhead])⟩
  rw [List.takeWhile_append_of_pos htext, List.dropWhile_append_of_pos htext, hnone.1, hnone.2,
    List.append_nil]
  exact ⟨rfl, rfl⟩

theorem stops_nil (member : Char → Bool) : Stops member [] :=
  fun head hhead => absurd hhead (Option.not_mem_none head)

theorem stops_cons {member : Char → Bool} {head : Char} (h : member head = false)
    (text : List Char) : Stops member (head :: text) := by
  intro first hfirst
  obtain rfl : first = head := (Option.some.inj hfirst).symm
  exact h

theorem stops_dropWhile (member : Char → Bool) (text : List Char) :
    Stops member (text.dropWhile member) := by
  induction text with
  | nil => exact stops_nil member
  | cons head tail ih =>
      cases hhead : member head with
      | true => rwa [List.dropWhile_cons_of_pos hhead]
      | false =>
          rw [List.dropWhile_cons_of_neg (by simp [hhead])]
          exact stops_cons hhead tail

end ScriptEngine
