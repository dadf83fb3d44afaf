import Mathlib
import ScriptEngine.Library.Format
import ScriptEngine.Proofs.Text.Classes

/-!
# Formatting

A format text has just one reading as a list of parts. Each part becomes a text of its own, and the
result is these texts in order. The arguments are handed out in order to the parts that take one.
What is left of them is listed at the end, and a part that finds none left says so. A text in which
each percent sign is doubled comes out as it was before.
-/

namespace ScriptEngine

namespace Format

/-! ### The reading of a format text -/

/-- A format text is made of these parts. Flags may stand before a second percent sign too, where
they have no meaning. -/
inductive Comprises : List Char → List Segment → Prop
  | nil : Comprises [] []
  | literal {character : Char} {text : List Char} {parts : List Segment} (h : character ≠ '%')
      (hrest : Comprises text parts) : Comprises (character :: text) (.literal character :: parts)
  | percent {flags text : List Char} {parts : List Segment} (hflags : ∀ flag ∈ flags, isFlag flag)
      (hrest : Comprises text parts) :
      Comprises ('%' :: (flags ++ '%' :: text)) (.percent :: parts)
  | directive {flags text : List Char} {verb : Char} {parts : List Segment}
      (hflags : ∀ flag ∈ flags, isFlag flag) (hverb : isFlag verb = false) (h : verb ≠ '%')
      (hrest : Comprises text parts) :
      Comprises ('%' :: (flags ++ verb :: text)) (.directive flags verb :: parts)
  | incomplete {flags : List Char} (hflags : ∀ flag ∈ flags, isFlag flag) :
      Comprises ('%' :: flags) [.incomplete]

theorem isFlag_of_mem_takeWhile (text : List Char) :
    ∀ flag ∈ text.takeWhile isFlag, isFlag flag := by
  intro flag hflag
  exact List.all_eq_true.mp List.all_takeWhile flag hflag

theorem comprises_segments (text : List Char) : Comprises text (segments text) := by
  fun_induction segments text with
  | case1 => exact .nil
  | case2 rest hrest =>
      have hflags : rest.takeWhile isFlag = rest := by
        have hsplit := List.takeWhile_append_dropWhile (p := isFlag) (l := rest)
        rwa [hrest, List.append_nil] at hsplit
      exact .incomplete (hflags ▸ isFlag_of_mem_takeWhile rest)
  | case3 rest verb after hrest segment ih =>
      have hsplit := List.takeWhile_append_dropWhile (p := isFlag) (l := rest)
      have hverb := stops_dropWhile isFlag rest
      have hflags := isFlag_of_mem_takeWhile rest
      rw [hrest] at hsplit hverb
      by_cases hpercent : verb = '%'
      · obtain rfl := hpercent
        have hpart := Comprises.percent hflags ih
        rwa [hsplit] at hpart
      · have hsegment : segment = .directive (rest.takeWhile isFlag) verb := if_neg hpercent
        have hpart := Comprises.directive hflags (hverb verb rfl) hpercent ih
        rwa [hsplit, ← hsegment] at hpart
  | case4 character rest hcharacter ih => exact .literal hcharacter ih

section

variable {flags text : List Char} (hflags : ∀ flag ∈ flags, isFlag flag)
include hflags

theorem segments_of_flags : segments ('%' :: flags) = [.incomplete] := by
  have hdrop := (takeWhile_append_of_stops hflags (stops_nil isFlag)).2
  rw [List.append_nil] at hdrop
  rw [segments, if_pos rfl]
  split
  · rfl
  · rename_i verb after hrest
    rw [hdrop] at hrest
    cases hrest

theorem segments_of_verb {verb : Char} (hverb : isFlag verb = false) :
    segments ('%' :: (flags ++ verb :: text)) =
      (if verb = '%' then .percent else .directive flags verb) :: segments text := by
  obtain ⟨htake, hdrop⟩ := takeWhile_append_of_stops hflags (stops_cons hverb text)
  rw [segments, if_pos rfl]
  split
  · rename_i hrest
    rw [hdrop] at hrest
    cases hrest
  · rename_i found after hrest
    rw [hdrop] at hrest
    cases hrest
    rw [htake]

end

/-- A text is made of no other parts than those that are read. -/
theorem Comprises.segments_eq {text : List Char} {parts : List Segment}
    (h : Comprises text parts) : segments text = parts := by
  induction h with
  | nil => rw [segments]
  | literal hcharacter _ ih => rw [segments, if_neg hcharacter, ih]
  | percent hflags _ ih => rw [segments_of_verb hflags (by decide), if_pos rfl, ih]
  | directive hflags hverb hpercent _ ih =>
      rw [segments_of_verb hflags hverb, if_neg hpercent, ih]
  | incomplete hflags => exact segments_of_flags hflags

/-! ### What becomes of the parts -/

def Segment.takesArgument : Segment → Bool
  | .directive _ _ => true
  | _ => false

/-- The text of an argument that no part takes. -/
def extraText (heap : Heap) (value : Value) : String :=
  s!"%!(EXTRA {value.typeName}={heap.print value})"

/-- What a part of a format text becomes with the argument that it takes. -/
def Segment.written? (heap : Heap) : Segment → Option Value → Option String
  | .literal character, _ => some character.toString
  | .percent, _ => some "%"
  | .incomplete, _ => some "%!(NOVERB)"
  | .directive _ verb, none => some s!"%!{verb}(MISSING)"
  | .directive flags verb, some value =>
    (renderVerb heap verb (.ofFlags flags) value).bind (Directive.ofFlags flags).pad

/-- Neither the width nor the precision of a part is too great. -/
def Segment.isWithinLimits : Segment → Bool
  | .directive flags _ =>
    (Directive.ofFlags flags).width.all (· ≤ greatestWidth) &&
      (Directive.ofFlags flags).precision.all (· ≤ greatestWidth)
  | _ => true

variable {heap : Heap}

theorem isSome_pad {directive : Directive} (h : directive.width.all (· ≤ greatestWidth))
    (text : String) : (directive.pad text).isSome := by
  unfold Directive.pad
  cases hwidth : directive.width with
  | none => rfl
  | some width =>
      have hwide : ¬greatestWidth < width := by
        rw [hwidth] at h
        simpa using h
      simp [hwide]

theorem isSome_renderVerb (heap : Heap) {directive : Directive}
    (h : directive.precision.all (· ≤ greatestWidth)) (verb : Char) (value : Value) :
    (renderVerb heap verb directive value).isSome := by
  have hplaces : ¬greatestWidth < directive.precision.getD 6 := by
    cases hprecision : directive.precision with
    | none => decide
    | some places =>
        rw [hprecision] at h
        simpa using h
  unfold renderVerb
  split
  · rfl
  · split <;> rfl
  · rfl
  · simp [hplaces]
  · rfl
  · rfl
  · rfl
  · rfl
  · rfl

theorem Segment.isSome_written? (heap : Heap) {part : Segment} (h : part.isWithinLimits)
    (argument : Option Value) : (part.written? heap argument).isSome := by
  cases part with
  | directive flags verb =>
      cases argument with
      | none => rfl
      | some value =>
          obtain ⟨hwidth, hprecision⟩ := (Bool.and_eq_true _ _).mp h
          obtain ⟨text, htext⟩ := Option.isSome_iff_exists.mp
            (isSome_renderVerb heap hprecision verb value)
          rw [written?, htext]
          exact isSome_pad hwidth text
  | _ => rfl

/-- A part takes the first argument or none, and the parts after it take the others. -/
theorem render_cons (part : Segment) (rest : List Segment) (arguments : List Value) :
    render heap (part :: rest) arguments =
      (part.written? heap arguments[0]?).bind fun text =>
        (render heap rest (arguments.drop (if part.takesArgument then 1 else 0))).map
          fun following => text ++ following := by
  cases part with
  | directive flags verb =>
      cases arguments with
      | nil => rfl
      | cons value arguments =>
          simp only [render, Segment.written?, Segment.takesArgument, bind, pure, Option.bind_assoc,
            Option.map_eq_bind, List.getElem?_cons_zero]
          rfl
  | _ => rfl

/-- Each part becomes what it is with the argument whose number is that of the parts before it that
take one. The arguments beyond these parts are listed. -/
theorem exists_texts_of_render {parts : List Segment} (arguments : List Value)
    (h : ∀ part ∈ parts, part.isWithinLimits) :
    ∃ texts : List String,
      render heap parts arguments = some (String.join texts ++ String.join
        ((arguments.drop (parts.countP Segment.takesArgument)).map (extraText heap))) ∧
      texts.length = parts.length ∧
      ∀ (index : Nat) (part : Segment), parts[index]? = some part →
        part.written? heap arguments[(parts.take index).countP Segment.takesArgument]? =
          texts[index]? := by
  induction parts generalizing arguments with
  | nil =>
      refine ⟨[], ?_, rfl, nofun⟩
      rw [render, String.join_nil, String.empty_append]
      rfl
  | cons part rest ih =>
      obtain ⟨hpart, hrest⟩ := List.forall_mem_cons.mp h
      obtain ⟨text, htext⟩ := Option.isSome_iff_exists.mp
        (Segment.isSome_written? heap hpart arguments[0]?)
      obtain ⟨texts, hrender, hlength, htexts⟩ :=
        ih (arguments.drop (if part.takesArgument then 1 else 0)) hrest
      refine ⟨text :: texts, ?_, congrArg Nat.succ hlength, ?_⟩
      · rw [List.drop_drop, Nat.add_comm, ← List.countP_cons] at hrender
        rw [render_cons, htext, hrender, String.join_cons, String.append_assoc]
        rfl
      · intro index found hfound
        cases index with
        | zero =>
            obtain rfl : part = found := Option.some.inj hfound
            exact htext
        | succ index =>
            rw [List.take_succ_cons, List.countP_cons, Nat.add_comm, ← List.getElem?_drop]
            exact htexts index found hfound

/-! ### Doubled percent signs -/

/-- A text with each percent sign doubled. -/
def escaped (text : String) : List Char :=
  text.toList.flatMap fun character => if character = '%' then ['%', '%'] else [character]

/-- Texts with the printed form of an argument between each two of them. -/
def interpolation (first : String) (others : List String) : List Char :=
  escaped first ++ others.flatMap fun text => '%' :: 'v' :: escaped text

/-- The part of a format text that becomes a character. -/
def Segment.ofChar (character : Char) : Segment :=
  if character = '%' then .percent else .literal character

def interpolationParts (first : String) (others : List String) : List Segment :=
  first.toList.map .ofChar ++ others.flatMap fun text =>
    .directive [] 'v' :: text.toList.map .ofChar

theorem Comprises.escaped {rest : List Char} {parts : List Segment} (h : Comprises rest parts)
    (text : String) : Comprises (escaped text ++ rest) (text.toList.map .ofChar ++ parts) := by
  unfold Format.escaped
  induction text.toList with
  | nil => exact h
  | cons character characters ih =>
      rw [List.flatMap_cons, List.map_cons, Segment.ofChar]
      by_cases hpercent : character = '%'
      · rw [if_pos hpercent, if_pos hpercent]
        have hpart := Comprises.percent (List.forall_mem_nil _) ih
        exact hpart
      · rw [if_neg hpercent, if_neg hpercent]
        exact .literal hpercent ih

theorem comprises_interpolation (first : String) (others : List String) :
    Comprises (interpolation first others) (interpolationParts first others) := by
  apply Comprises.escaped
  induction others with
  | nil => exact .nil
  | cons text others ih =>
      rw [List.flatMap_cons, List.flatMap_cons]
      have hpart := Comprises.directive (List.forall_mem_nil _) (by decide : isFlag 'v' = false)
        (by decide) (ih.escaped text)
      exact hpart

theorem Segment.written?_ofChar (character : Char) (argument : Option Value) :
    (Segment.ofChar character).written? heap argument = some character.toString := by
  unfold ofChar
  by_cases hpercent : character = '%'
  · rw [if_pos hpercent, hpercent]
    rfl
  · rw [if_neg hpercent]
    rfl

theorem Segment.takesArgument_ofChar (character : Char) :
    (Segment.ofChar character).takesArgument = false := by
  unfold ofChar
  split <;> rfl

theorem render_ofChar (characters : List Char) (rest : List Segment) (arguments : List Value) :
    render heap (characters.map .ofChar ++ rest) arguments =
      (render heap rest arguments).map fun following => String.ofList characters ++ following := by
  induction characters with
  | nil => simp
  | cons character characters ih =>
      rw [List.map_cons, List.cons_append, render_cons, Segment.written?_ofChar,
        Segment.takesArgument_ofChar, Option.bind_some, if_neg Bool.false_ne_true, List.drop_zero,
        ih, Option.map_map]
      congr 1
      funext following
      apply String.toList_injective
      simp

/-- A text with doubled percent signs comes out as it was, and each `%v` as the next argument. -/
theorem render_interpolationParts (first : String) (pieces : List (Value × String)) :
    render heap (interpolationParts first (pieces.map Prod.snd)) (pieces.map Prod.fst) =
      some (first ++ String.join (pieces.map fun piece => heap.print piece.1 ++ piece.2)) := by
  rw [interpolationParts, render_ofChar, String.ofList_toList]
  induction pieces generalizing first with
  | nil => rfl
  | cons piece rest ih =>
      obtain ⟨value, text⟩ := piece
      have hvalue : (Segment.directive [] 'v').written? heap (some value) =
          some (heap.print value) := rfl
      have hrest := ih text
      rw [List.map_cons, List.map_cons, List.flatMap_cons, List.cons_append, render_cons,
        List.getElem?_cons_zero, hvalue, Option.bind_some, Segment.takesArgument, if_pos rfl,
        List.drop_one, List.tail_cons, render_ofChar, String.ofList_toList, hrest]
      simp [String.append_assoc]

end Format

open Format

/-- **Formatting accounts for every argument.** Texts with their percent signs doubled and `%v`
between them give these texts with the printed arguments between them. Every format text has just
one reading. Each part of it that takes an argument is written with the argument whose number is
that of the parts before it that take one, and says so if there is no such argument; all other parts
take none. The result is what the parts become, in order, and after it the arguments that no part
takes. Widths and precisions have to be within the limits. -/
theorem formatting_accounts_for_arguments (heap : Heap) :
    (∀ (first : String) (pieces : List (Value × String)),
      heap.format (String.ofList (interpolation first (pieces.map Prod.snd)))
          (pieces.map Prod.fst) =
        some (first ++ String.join (pieces.map fun piece => heap.print piece.1 ++ piece.2))) ∧
    ∀ (format : String) (arguments : List Value), ∃ parts : List Segment,
      (∀ others, Comprises format.toList others ↔ others = parts) ∧
      ((∀ part ∈ parts, part.isWithinLimits) → ∃ texts : List String,
        heap.format format arguments = some (String.join texts ++ String.join
          ((arguments.drop (parts.countP Segment.takesArgument)).map (extraText heap))) ∧
        texts.length = parts.length ∧
        ∀ (index : Nat) (part : Segment), parts[index]? = some part →
          part.written? heap arguments[(parts.take index).countP Segment.takesArgument]? =
            texts[index]?) := by
  constructor
  · intro first pieces
    unfold Heap.format
    rw [String.toList_ofList, (comprises_interpolation first _).segments_eq,
      render_interpolationParts]
  · intro format arguments
    refine ⟨segments format.toList, fun others => ?_, exists_texts_of_render arguments⟩
    constructor
    · intro hothers
      exact hothers.segments_eq.symm
    · rintro rfl
      exact comprises_segments format.toList

example : Heap.empty.format "%-4s|%3v|100%%" [.string "ab", .boolean true] =
    some "ab  |true|100%" := by cbv

/-- Flags before a doubled percent sign, a verb without an argument, and flags without a verb. -/
def lackingParts : List Segment :=
  [.directive ['3'] 'v', .percent, .directive ['5'] 'd', .incomplete]

theorem comprises_lackingParts : Comprises "%3v%-2%%5d%.".toList lackingParts := by
  have hone {flag : Char} (h : isFlag flag) : ∀ other ∈ [flag], isFlag other :=
    List.forall_mem_singleton.mpr h
  have htwo : ∀ flag ∈ ['-', '2'], isFlag flag := List.forall_mem_cons.mpr ⟨rfl, hone rfl⟩
  have hlast : Comprises ['%', '.'] [.incomplete] := .incomplete (hone rfl)
  have hthird := Comprises.directive (hone (rfl : isFlag '5')) (rfl : isFlag 'd' = false)
    (by decide) hlast
  have hsecond := Comprises.percent htwo hthird
  have hfirst := Comprises.directive (hone (rfl : isFlag '3')) (rfl : isFlag 'v' = false)
    (by decide) hsecond
  exact hfirst

theorem formatting_accounts_for_arguments_lacking :
    (∀ part ∈ lackingParts, part.isWithinLimits) ∧ ∃ texts : List String,
      Heap.empty.format "%3v%-2%%5d%." [.string "a"] = some (String.join texts) ∧
        texts[0]? = some "  a" ∧ texts[1]? = some "%" ∧ texts[2]? = some "%!d(MISSING)" ∧
        texts[3]? = some "%!(NOVERB)" := by
  obtain ⟨parts, honly, hresult⟩ :=
    (formatting_accounts_for_arguments .empty).2 "%3v%-2%%5d%." [.string "a"]
  obtain rfl := (honly lackingParts).mp comprises_lackingParts
  have hlimits : ∀ part ∈ lackingParts, part.isWithinLimits := by decide
  obtain ⟨texts, hformat, -, htexts⟩ := hresult hlimits
  refine ⟨hlimits, texts, ?_, ?_, ?_, ?_, ?_⟩
  · rw [hformat]
    exact congrArg some (String.append_empty)
  · exact (htexts 0 _ rfl).symm.trans (by cbv)
  · exact (htexts 1 _ rfl).symm.trans rfl
  · exact (htexts 2 _ rfl).symm.trans (by cbv)
  · exact (htexts 3 _ rfl).symm.trans rfl

end ScriptEngine
