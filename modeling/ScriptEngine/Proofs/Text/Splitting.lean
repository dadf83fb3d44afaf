import Mathlib.Data.List.Basic
import ScriptEngine.Text.Split

/-!
# Splitting a text

Separators are taken from the left. Put together again with the separator between them, the parts
are the text, and none of them holds the separator, since an earlier one would have been taken. For
a separator of one character this is `List.splitOn`, so that a row of parts without that character
is split where it was put together.
-/

namespace ScriptEngine

variable (first : Char) (others : List Char)

theorem splitAround_ne_nil (part text : List Char) : splitAround first others part text ≠ [] := by
  fun_induction splitAround first others part text with
  | case1 part => exact List.cons_ne_nil _ _
  | case2 part character rest hmatch ih => exact List.cons_ne_nil _ _
  | case3 part character rest hmatch ih => exact ih

/-- The parts hold what has been passed already and the text after it. -/
theorem intercalate_splitAround (part text : List Char) :
    (first :: others).intercalate (splitAround first others part text) = part.reverse ++ text := by
  fun_induction splitAround first others part text with
  | case1 part => simp
  | case2 part character rest hmatch ih =>
      obtain ⟨rfl, hprefix⟩ := hmatch
      obtain ⟨after, rfl⟩ := List.isPrefixOf_iff_prefix.mp hprefix
      calc (character :: others).intercalate (part.reverse :: splitAround character others []
              ((others ++ after).drop others.length))
          = part.reverse ++ character :: others ++ (character :: others).intercalate
              (splitAround character others [] ((others ++ after).drop others.length)) :=
            List.intercalate_cons_of_ne_nil (splitAround_ne_nil character others [] _)
        _ = part.reverse ++ character :: others ++ after := by rw [ih]; simp
        _ = part.reverse ++ character :: (others ++ after) := by simp
  | case3 part character rest hmatch ih =>
      rw [ih]
      simp

/-- In a text of which some characters have been passed, no separator begins with one of these. -/
def PassedNone (separator part text : List Char) : Prop :=
  ∀ before after, part.reverse ++ text = before ++ separator ++ after →
    part.length ≤ before.length

variable {first others}

/-- A separator in what has been passed would begin there. -/
theorem PassedNone.not_infix {part text : List Char} (h : PassedNone (first :: others) part text) :
    ¬(first :: others) <:+: part.reverse := by
  rintro ⟨before, after, heq⟩
  have hbegins : part.length ≤ before.length := by
    apply h before (after ++ text)
    rw [← heq, List.append_assoc]
  have hlength := congrArg List.length heq
  simp only [List.length_append, List.length_cons, List.length_reverse] at hlength
  omega

/-- A character at which no separator begins may be passed. -/
theorem PassedNone.cons {part text : List Char} {character : Char}
    (h : PassedNone (first :: others) part (character :: text))
    (hcharacter : ¬(character = first ∧ others.isPrefixOf text)) :
    PassedNone (first :: others) (character :: part) text := by
  intro before after heq
  have htext : part.reverse ++ character :: text = before ++ (first :: others) ++ after := by
    rw [← heq]
    simp
  have hbegins := h before after htext
  by_contra hshort
  have hlength : before.length = part.reverse.length := by
    simp only [List.length_cons, List.length_reverse] at *
    omega
  rw [List.append_assoc] at htext
  obtain ⟨rfl, hrest⟩ := List.append_inj htext hlength.symm
  obtain ⟨rfl, rfl⟩ := List.cons.inj hrest
  exact hcharacter ⟨rfl, List.isPrefixOf_iff_prefix.mpr (List.prefix_append others after)⟩

theorem not_infix_of_mem_splitAround {part text : List Char}
    (h : PassedNone (first :: others) part text) :
    ∀ piece ∈ splitAround first others part text, ¬(first :: others) <:+: piece := by
  fun_induction splitAround first others part text with
  | case1 part =>
      intro piece hpiece
      rw [List.mem_singleton.mp hpiece]
      exact h.not_infix
  | case2 part character rest hmatch ih =>
      intro piece hpiece
      rcases List.mem_cons.mp hpiece with rfl | hrest
      · exact h.not_infix
      · exact ih (fun _ _ _ => Nat.zero_le _) piece hrest
  | case3 part character rest hmatch ih => exact ih (h.cons hmatch)

theorem splitAround_nil (part text : List Char) :
    splitAround first [] part text = text.splitOnPPrepend (· == first) part := by
  induction text generalizing part with
  | nil => rw [splitAround, List.splitOnPPrepend_nil]
  | cons character rest ih =>
      rw [splitAround, List.splitOnPPrepend_cons_eq_if, List.length_nil, List.drop_zero, ih, ih,
        ← List.splitOnP_eq_splitOnPPrepend]
      simp

/-! ### Any separator -/

theorem intercalate_nil_singletons (text : List Char) :
    [].intercalate (text.map fun character => [character]) = text := by
  induction text with
  | nil => rfl
  | cons character rest ih =>
      by_cases hrest : rest = []
      · rw [hrest]
        rfl
      · rw [List.map_cons, List.intercalate_cons_of_ne_nil (mt List.map_eq_nil_iff.mp hrest), ih]
        rfl

/-- Splitting loses nothing. -/
theorem intercalate_splitText (text separator : List Char) :
    separator.intercalate (splitText text separator) = text := by
  cases separator with
  | nil => exact intercalate_nil_singletons text
  | cons first others => exact intercalate_splitAround first others [] text

theorem not_infix_of_mem_splitText {text separator piece : List Char} (h : separator ≠ [])
    (hpiece : piece ∈ splitText text separator) : ¬separator <:+: piece := by
  obtain ⟨first, others, rfl⟩ := List.exists_cons_of_ne_nil h
  exact not_infix_of_mem_splitAround (fun _ _ _ => Nat.zero_le _) piece hpiece

theorem splitText_singleton (text : List Char) (separator : Char) :
    splitText text [separator] = text.splitOn separator := by
  rw [splitText, splitAround_nil, ← List.splitOnP_eq_splitOnPPrepend]
  rfl

/-- Parts without a character are split where they were put together with it. -/
theorem splitText_intercalate {separator : Char} {parts : List (List Char)} (hparts : parts ≠ [])
    (h : ∀ part ∈ parts, separator ∉ part) :
    splitText ([separator].intercalate parts) [separator] = parts := by
  rw [splitText_singleton]
  exact List.splitOn_intercalate separator h hparts

end ScriptEngine
