import Mathlib.Data.List.Infix
import ScriptEngine.Proofs.Library.Collections
import ScriptEngine.Proofs.Text.Splitting

/-!
# Splitting and joining

The parts of a text, joined with the separator between them, are the text, whatever the separator. A
row of texts without a character, joined with that character between them, is split into these
texts.
-/

namespace ScriptEngine

/-! ### Parts of a text -/

/-- The parts of a text around a separator, as texts. -/
def textParts (text separator : String) : List String :=
  (splitText text.toList separator.toList).map String.ofList

theorem map_toList_textParts (text separator : String) :
    (textParts text separator).map String.toList =
      splitText text.toList separator.toList := by
  have hsame : String.toList ∘ String.ofList = id := by
    funext characters
    exact String.toList_ofList
  rw [textParts, List.map_map, hsame, List.map_id]

theorem intercalate_textParts (text separator : String) :
    separator.intercalate (textParts text separator) = text := by
  apply String.toList_inj.mp
  rw [String.toList_intercalate, map_toList_textParts]
  exact intercalate_splitText text.toList separator.toList

theorem not_infix_of_mem_textParts {text separator part : String} (h : separator ≠ "")
    (hpart : part ∈ textParts text separator) : ¬separator.toList <:+: part.toList := by
  apply not_infix_of_mem_splitText (mt String.toList_eq_nil_iff.mp h)
  rw [← map_toList_textParts]
  exact List.mem_map_of_mem hpart

theorem textParts_intercalate {separator : String} {parts : List String}
    (h : separator.length = 1) (hparts : parts ≠ [])
    (hfree : ∀ part ∈ parts, ¬separator.toList <:+: part.toList) :
    textParts (separator.intercalate parts) separator = parts := by
  obtain ⟨character, hseparator⟩ := List.length_eq_one_iff.mp (String.length_toList.trans h)
  have hsplit : splitText ([character].intercalate (parts.map String.toList)) [character] =
      parts.map String.toList := by
    apply splitText_intercalate (mt List.map_eq_nil_iff.mp hparts)
    intro characters hcharacters
    obtain ⟨part, hpart, rfl⟩ := List.mem_map.mp hcharacters
    rw [← List.singleton_infix_iff, ← hseparator]
    exact hfree part hpart
  have hsame : String.ofList ∘ String.toList = id := by
    funext part
    exact String.ofList_toList
  rw [textParts, String.toList_intercalate, hseparator, hsplit, List.map_map, hsame, List.map_id]

/-! ### The two functions -/

namespace CollectionOperation

theorem applied_split (heap : Heap) (text separator : String) :
    split.applied [.string text, .string separator] heap =
      .ok (heap.newArray ((textParts text separator).map .string).toArray) := by
  rw [textParts, List.map_map]
  rfl

theorem applied_join {heap : Heap} {ref : ArrayRef} {pieces : List String}
    (h : (heap.items ref).toList = pieces.map .string) (separator : String) :
    join.applied [.array ref, .string separator] heap =
      .ok (.string (separator.intercalate pieces), heap) := by
  have hprint : (heap.items ref).toList.map heap.print = pieces := by
    rw [h, List.map_map]
    exact List.map_id pieces
  change Except.ok (Value.string (separator.intercalate ((heap.items ref).toList.map heap.print)),
    heap) = _
  rw [hprint]

end CollectionOperation

open CollectionOperation

/-- **Splitting and joining.** Every text is split by every separator, and what comes out is joined
with the separator to the text again; unless the separator is empty, no part contains it. An array
of texts, not empty, is joined with a separator of one character that none of them contains, and
what comes out is split by it into an array of the same texts. -/
theorem splitting_inverts_joining (heap : Heap) (separator : String) :
    (∀ text, ∃ parts after,
      split.applied [.string text, .string separator] heap = .ok (.array parts, after) ∧
      join.applied [.array parts, .string separator] after = .ok (.string text, after) ∧
      (separator ≠ "" → ∀ item ∈ (after.items parts).toList, ∃ piece,
        item = .string piece ∧ ¬separator.toList <:+: piece.toList)) ∧
    ∀ (ref : ArrayRef) (pieces : List String), separator.length = 1 → pieces ≠ [] →
      (∀ piece ∈ pieces, ¬separator.toList <:+: piece.toList) →
      (heap.items ref).toList = pieces.map .string →
        ∃ joined parts after,
          join.applied [.array ref, .string separator] heap = .ok (.string joined, heap) ∧
          split.applied [.string joined, .string separator] heap = .ok (.array parts, after) ∧
          (after.items parts).toList = (heap.items ref).toList := by
  constructor
  · intro text
    let items := ((textParts text separator).map Value.string).toArray
    have hitems : ((heap.newArray items).2.items ⟨heap.arrays.size⟩).toList =
        (textParts text separator).map .string := by
      rw [heap.items_made]
    refine ⟨⟨heap.arrays.size⟩, (heap.newArray items).2, applied_split heap text separator, ?_, ?_⟩
    · rw [applied_join hitems, intercalate_textParts]
    · intro hseparator item hitem
      rw [hitems] at hitem
      obtain ⟨piece, hpiece, rfl⟩ := List.mem_map.mp hitem
      exact ⟨piece, rfl, not_infix_of_mem_textParts hseparator hpiece⟩
  · intro ref pieces hseparator hpieces hfree hitems
    let items := (pieces.map Value.string).toArray
    refine ⟨separator.intercalate pieces, ⟨heap.arrays.size⟩, (heap.newArray items).2,
      applied_join hitems separator, ?_, ?_⟩
    · rw [applied_split, textParts_intercalate hseparator hpieces hfree]
      rfl
    · rw [heap.items_made, hitems]

/-- An array of two texts, of which one is empty. -/
def piecesHeap : Heap :=
  ⟨#[#[.string "a", .string ""]], #[], #[]⟩

theorem splitting_inverts_joining_pieces :
    ",".length = 1 ∧ (∀ piece ∈ ["a", ""], ¬",".toList <:+: piece.toList) ∧
    (∃ joined parts after,
      join.applied [.array ⟨0⟩, .string ","] piecesHeap = .ok (.string joined, piecesHeap) ∧
      split.applied [.string joined, .string ","] piecesHeap = .ok (.array parts, after) ∧
      (after.items parts).toList = [.string "a", .string ""]) ∧
    ∃ parts after,
      split.applied [.string "a,,b", .string ","] piecesHeap = .ok (.array parts, after) ∧
      join.applied [.array parts, .string ","] after = .ok (.string "a,,b", after) := by
  have hlength : ",".length = 1 := by decide
  have hfree : ∀ piece ∈ ["a", ""], ¬",".toList <:+: piece.toList := by decide
  obtain ⟨hsplit, hjoin⟩ := splitting_inverts_joining piecesHeap ","
  obtain ⟨parts, after, hparts, hjoined, -⟩ := hsplit "a,,b"
  exact ⟨hlength, hfree, hjoin ⟨0⟩ ["a", ""] hlength (by decide) hfree rfl, parts, after, hparts,
    hjoined⟩

end ScriptEngine
