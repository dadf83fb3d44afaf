import Mathlib.Data.List.Chain
import Mathlib.Data.List.TakeWhile
import ScriptEngine.Proofs.Text.Classes
import ScriptEngine.Source.Lexer

/-!
# Words, numerals and strings

The texts that are scanned as one token, whatever follows them that cannot belong to them. A string
has a literal if no backslash ends it or comes before the letter of an escape.
-/

namespace ScriptEngine

namespace Lexer

/-! ### Words and numerals -/

/-- Letters, digits and the like, of which the first is no digit. -/
def IsWord (text : List Char) : Prop :=
  ∃ head tail, text = head :: tail ∧ isNameStart head ∧ ∀ part ∈ tail, isNamePart part

/-- Digits, with one point after the first of them at most. -/
def IsNumeral (text : List Char) : Prop :=
  ∃ head tail, text = head :: tail ∧ head.isDigit ∧ numberLength text = text.length

/-- A character that neither extends a token nor is one of the characters of a longer symbol. -/
def isBoundary (character : Char) : Bool :=
  character == ' ' || character == '(' || character == '['

theorem boundary_cases {rest : List Char} (h : ∀ head ∈ rest.head?, isBoundary head) :
    rest = [] ∨ ∃ tail, rest = ' ' :: tail ∨ rest = '(' :: tail ∨ rest = '[' :: tail := by
  cases rest with
  | nil => exact .inl rfl
  | cons head tail =>
      have hhead : isBoundary head := h head rfl
      simp only [isBoundary, Bool.or_eq_true, beq_iff_eq] at hhead
      rcases hhead with (rfl | rfl) | rfl
      · exact .inr ⟨tail, .inl rfl⟩
      · exact .inr ⟨tail, .inr (.inl rfl)⟩
      · exact .inr ⟨tail, .inr (.inr rfl)⟩

theorem stops_of_boundary {member : Char → Bool} {rest : List Char}
    (hmember : member ' ' = false ∧ member '(' = false ∧ member '[' = false)
    (h : ∀ head ∈ rest.head?, isBoundary head) : Stops member rest := by
  rcases boundary_cases h with rfl | ⟨tail, rfl | rfl | rfl⟩
  · exact fun head hhead => absurd hhead (Option.not_mem_none head)
  · exact stops_cons hmember.1 tail
  · exact stops_cons hmember.2.1 tail
  · exact stops_cons hmember.2.2 tail

/-- No symbol begins like a word or a numeral. -/
theorem scanSymbol_eq_none {head : Char} (h : isNamePart head) (tail : List Char) :
    scanSymbol (head :: tail) = none := by
  unfold scanSymbol
  split
  case h_28 => rfl
  all_goals
    rename_i heq
    obtain rfl := (List.cons.inj heq).1
    exact absurd h (by decide)

theorem not_isQuote {head : Char} (h : isNamePart head) : ¬ (head = '"' ∨ head = '\'') := by
  rintro (rfl | rfl)
  · exact absurd h (by decide)
  · exact absurd h (by decide)

theorem scanToken_word {head : Char} {tail rest : List Char} (hhead : isNameStart head)
    (htail : ∀ part ∈ tail, isNamePart part) (hrest : Stops isNamePart rest) (start : Position) :
    scanToken head (tail ++ rest) start =
      .ok (plainToken (.ofWord (String.ofList (head :: tail))) (head :: tail) start, rest) := by
  have hpart : isNamePart head := by
    unfold isNamePart
    rw [hhead]
    rfl
  obtain ⟨htake, hdrop⟩ := takeWhile_append_of_stops htail hrest
  unfold scanToken
  rw [if_neg (not_isQuote hpart), scanSymbol_eq_none hpart]
  simp only [hhead, if_true, htake, hdrop]

/-- Whether a character right after a numeral belongs to it: a digit does, and so does a point if
the numeral has none. -/
def extendsNumeral (numeral : List Char) (next : Char) : Bool :=
  next.isDigit || (next == '.' && !numeral.contains '.')

theorem stops_isDigit_of_extendsNumeral {numeral rest : List Char}
    (h : Stops (extendsNumeral numeral) rest) : Stops Char.isDigit rest :=
  fun next hnext => (Bool.or_eq_false_iff.mp (h next hnext)).1

theorem numberLength_of_digits {whole rest : List Char} (hwhole : ∀ digit ∈ whole, digit.isDigit)
    (hrest : Stops Char.isDigit rest) (hpoint : rest.head? ≠ some '.') :
    numberLength (whole ++ rest) = whole.length := by
  obtain ⟨htake, hdrop⟩ := takeWhile_append_of_stops hwhole hrest
  unfold numberLength
  rw [htake, hdrop]
  split
  · exact absurd rfl hpoint
  · rfl

theorem numberLength_of_point {whole fraction rest : List Char}
    (hwhole : ∀ digit ∈ whole, digit.isDigit) (hfraction : ∀ digit ∈ fraction, digit.isDigit)
    (hrest : Stops Char.isDigit rest) :
    numberLength (whole ++ '.' :: fraction ++ rest) = (whole ++ '.' :: fraction).length := by
  obtain ⟨htake, hdrop⟩ := takeWhile_append_of_stops hwhole
    (stops_cons (show Char.isDigit '.' = false by decide) (fraction ++ rest))
  have hback := (takeWhile_append_of_stops hfraction hrest).1
  unfold numberLength
  rw [List.append_assoc, List.cons_append, htake, hdrop]
  change whole.length + 1 + ((fraction ++ rest).takeWhile Char.isDigit).length = _
  rw [hback, List.length_append, List.length_cons]
  omega

/-- A numeral is digits, or digits, a point and digits. -/
theorem digits_or_point_of_numberLength {text : List Char} (h : numberLength text = text.length) :
    (∀ digit ∈ text, digit.isDigit) ∨ ∃ whole fraction, text = whole ++ '.' :: fraction ∧
      (∀ digit ∈ whole, digit.isDigit) ∧ ∀ digit ∈ fraction, digit.isDigit := by
  have hwhole : ∀ digit ∈ text.takeWhile Char.isDigit, digit.isDigit := fun digit hdigit =>
    List.mem_takeWhile_imp hdigit
  have htext := List.takeWhile_append_dropWhile (p := Char.isDigit) (l := text)
  unfold numberLength at h
  dsimp only at h
  generalize text.takeWhile Char.isDigit = whole at h hwhole htext
  generalize text.dropWhile Char.isDigit = others at h htext
  subst htext
  split at h
  · rename_i fraction
    have hfraction : fraction.takeWhile Char.isDigit = fraction := by
      refine (List.takeWhile_prefix _).eq_of_length ?_
      rw [List.length_append, List.length_cons] at h
      omega
    refine .inr ⟨whole, fraction, rfl, hwhole, fun digit hdigit => ?_⟩
    rw [← hfraction] at hdigit
    exact List.mem_takeWhile_imp hdigit
  · have hnone : others = [] := by
      rw [List.length_append] at h
      exact List.length_eq_zero_iff.mp (by omega)
    rw [hnone, List.append_nil]
    exact .inl hwhole

theorem not_mem_point_of_digits {text : List Char} (h : ∀ digit ∈ text, digit.isDigit) :
    '.' ∉ text :=
  fun hpoint => absurd (h '.' hpoint) (by decide)

/-- What follows a numeral without extending it leaves its length as it is. -/
theorem numberLength_append {text rest : List Char} (h : numberLength text = text.length)
    (hrest : Stops (extendsNumeral text) rest) : numberLength (text ++ rest) = text.length := by
  have hdigits := stops_isDigit_of_extendsNumeral hrest
  rcases digits_or_point_of_numberLength h with htext | ⟨whole, fraction, rfl, hwhole, hfraction⟩
  · refine numberLength_of_digits htext hdigits fun hpoint => ?_
    have hstop := hrest '.' hpoint
    have hnone : text.contains '.' = false := by
      simpa using not_mem_point_of_digits htext
    rw [extendsNumeral, hnone] at hstop
    exact absurd hstop (by decide)
  · exact numberLength_of_point hwhole hfraction hdigits

theorem isNameStart_of_isDigit {digit : Char} (h : digit.isDigit) : isNameStart digit = false := by
  have hcode := Char.isDigit_iff_toNat.mp h
  have hzero : '0'.toNat = 48 := rfl
  have hnine : '9'.toNat = 57 := rfl
  rw [Bool.eq_false_iff]
  intro hstart
  change ((decide (digit.val ≥ 65 ∧ digit.val ≤ 90) ||
    (decide (digit.val ≥ 97) && decide (digit.val ≤ 122))) || digit == '_') || digit == '$' at hstart
  simp only [Bool.or_eq_true, Bool.and_eq_true, decide_eq_true_eq, beq_iff_eq, ge_iff_le,
    UInt32.le_iff_toNat_le] at hstart
  change (((65 ≤ digit.toNat ∧ digit.toNat ≤ 90) ∨ 97 ≤ digit.toNat ∧ digit.toNat ≤ 122) ∨
    digit = '_') ∨ digit = '$' at hstart
  rcases hstart with ((hupper | hlower) | rfl) | rfl
  · omega
  · omega
  · exact absurd h (by decide)
  · exact absurd h (by decide)

theorem scanToken_numeral {head : Char} {tail rest : List Char} (hhead : head.isDigit)
    (hlength : numberLength (head :: tail) = (head :: tail).length)
    (hrest : Stops (extendsNumeral (head :: tail)) rest) (start : Position) :
    scanToken head (tail ++ rest) start = .ok (plainToken .number (head :: tail) start, rest) := by
  have hpart : isNamePart head := by
    unfold isNamePart
    rw [hhead, Bool.or_true]
  have happend := numberLength_append hlength hrest
  unfold scanToken
  rw [if_neg (not_isQuote hpart), scanSymbol_eq_none hpart]
  simp only [isNameStart_of_isDigit hhead, Bool.false_eq_true, if_false, hhead, if_true]
  rw [← List.cons_append, happend, List.take_left, List.drop_left]

/-! ### Strings -/

/-- No backslash stands right before `mark`. -/
def Avoids (mark : Char) (text : List Char) : Prop :=
  text.IsChain fun first second => ¬ (first = '\\' ∧ second = mark)

/-- A text that a string literal can stand for. -/
structure IsPayload (text : List Char) : Prop where
  newline : Avoids 'n' text
  carriage : Avoids 'r' text
  tab : Avoids 't' text
  last : text.getLast? ≠ some '\\'

section

variable {mark replacement : Char} {done text : List Char}

theorem replaceEscape_of_avoids (h : Avoids mark text) :
    replaceEscape mark replacement done text = done.reverse ++ text := by
  fun_induction replaceEscape mark replacement done text with
  | case1 done character next rest hpair ih =>
      exact absurd hpair (List.isChain_cons_cons.mp h).1
  | case2 done character next rest hpair ih =>
      rw [ih (List.isChain_cons_cons.mp h).2, List.reverse_cons, List.append_assoc,
        List.singleton_append]
  | case3 done text hshort => rfl

/-- Induction along the scan for a backslash with a mark after it. -/
theorem escape_induction {motive : List Char → Prop} (mark : Char) (nil : motive [])
    (single : ∀ character, motive [character])
    (pair : ∀ character next rest, character = '\\' ∧ next = mark → motive rest →
      motive (character :: next :: rest))
    (other : ∀ character next rest, ¬ (character = '\\' ∧ next = mark) → motive (next :: rest) →
      motive (character :: next :: rest)) : ∀ text, motive text
  | [] => nil
  | [character] => single character
  | character :: next :: rest =>
      if hpair : character = '\\' ∧ next = mark then
        pair character next rest hpair (escape_induction mark nil single pair other rest)
      else
        other character next rest hpair (escape_induction mark nil single pair other (next :: rest))

/-- What was replaced so far stays in front. -/
theorem replaceEscape_append (done text : List Char) :
    replaceEscape mark replacement done text =
      done.reverse ++ replaceEscape mark replacement [] text := by
  induction text using escape_induction mark generalizing done with
  | nil => simp [replaceEscape]
  | single character => rfl
  | pair character next rest hpair ih =>
      rw [replaceEscape, if_pos hpair, ih, replaceEscape, if_pos hpair, ih [replacement]]
      simp
  | other character next rest hpair ih =>
      rw [replaceEscape, if_neg hpair, ih, replaceEscape, if_neg hpair, ih [character]]
      simp

theorem replaceEscape_pair {character next : Char} {rest : List Char}
    (hpair : character = '\\' ∧ next = mark) :
    replaceEscape mark replacement [] (character :: next :: rest) =
      replacement :: replaceEscape mark replacement [] rest := by
  rw [replaceEscape, if_pos hpair, replaceEscape_append]
  rfl

theorem replaceEscape_other {character next : Char} {rest : List Char}
    (hpair : ¬ (character = '\\' ∧ next = mark)) :
    replaceEscape mark replacement [] (character :: next :: rest) =
      character :: replaceEscape mark replacement [] (next :: rest) := by
  rw [replaceEscape, if_neg hpair, replaceEscape_append]
  rfl

theorem head?_replaceEscape (text : List Char) :
    (replaceEscape mark replacement [] text).head? = text.head? ∨
      (replaceEscape mark replacement [] text).head? = some replacement := by
  match text with
  | [] => exact .inl rfl
  | [character] => exact .inl rfl
  | character :: next :: rest =>
      by_cases hpair : character = '\\' ∧ next = mark
      · rw [replaceEscape_pair hpair]
        exact .inr rfl
      · rw [replaceEscape_other hpair]
        exact .inl rfl

theorem avoids_cons {character : Char} (h : Avoids mark text)
    (hhead : character = '\\' → text.head? ≠ some mark) : Avoids mark (character :: text) := by
  cases text with
  | nil => exact .singleton character
  | cons next rest =>
      refine List.isChain_cons_cons.mpr ⟨fun hpair => ?_, h⟩
      exact hhead hpair.1 (congrArg some hpair.2)

/-- A replacement leaves no pair that it replaces, and makes none that was not there. -/
theorem avoids_replaceEscape {other : Char} (hreplacement : replacement ≠ '\\')
    (hother : replacement ≠ other) (h : other = mark ∨ Avoids other text) :
    Avoids other (replaceEscape mark replacement [] text) := by
  induction text using escape_induction mark with
  | nil => exact .nil
  | single character => exact .singleton character
  | pair character next rest hpair ih =>
      rw [replaceEscape_pair hpair]
      refine avoids_cons (ih ?_) fun heq => absurd heq hreplacement
      exact h.imp_right fun h => (List.isChain_cons_cons.mp h).2.tail
  | other character next rest hpair ih =>
      rw [replaceEscape_other hpair]
      refine avoids_cons (ih (h.imp_right fun h => (List.isChain_cons_cons.mp h).2))
        fun heq hhead => ?_
      rcases @head?_replaceEscape mark replacement (next :: rest) with hfirst | hfirst
      · rw [hfirst] at hhead
        have hnext : next = other := Option.some.inj hhead
        rcases h with rfl | h
        · exact hpair ⟨heq, hnext⟩
        · exact (List.isChain_cons_cons.mp h).1 ⟨heq, hnext⟩
      · rw [hfirst] at hhead
        exact hother (Option.some.inj hhead)

theorem getLast?_cons_ne {character : Char} (h : text.getLast? ≠ some '\\')
    (hsingle : text = [] → character ≠ '\\') : (character :: text).getLast? ≠ some '\\' := by
  cases text with
  | nil =>
      intro hlast
      exact hsingle rfl (Option.some.inj hlast)
  | cons next rest => rwa [List.getLast?_cons_cons]

theorem getLast?_replaceEscape (hreplacement : replacement ≠ '\\')
    (h : text.getLast? ≠ some '\\') :
    (replaceEscape mark replacement [] text).getLast? ≠ some '\\' := by
  induction text using escape_induction mark with
  | nil => exact h
  | single character => exact h
  | pair character next rest hpair ih =>
      rw [replaceEscape_pair hpair]
      refine getLast?_cons_ne ?_ fun _ => hreplacement
      cases rest with
      | nil => exact Option.some_ne_none _ ∘ Eq.symm
      | cons third rest => exact ih h
  | other character next rest hpair ih =>
      rw [replaceEscape_other hpair]
      refine getLast?_cons_ne (ih h) fun hnil => ?_
      have hhead := @head?_replaceEscape mark replacement (next :: rest)
      rw [hnil] at hhead
      exact absurd hhead (by simp)

/-! A body in quotes. -/

/-- The body that stands for a text between two delimiters. -/
def quotedBody (delimiter : Char) (text : List Char) : List Char :=
  text.flatMap fun character =>
    if character = delimiter then ['\\', delimiter] else [character]

variable {delimiter : Char}

/-- What follows a backslash in a quoted body is no delimiter, unless it is quoted. -/
theorem head?_quotedBody (hdelimiter : delimiter ≠ '\\') (text rest : List Char)
    (hne : text ≠ []) : (quotedBody delimiter text ++ rest).head? ≠ some delimiter := by
  obtain ⟨character, text, rfl⟩ := List.exists_cons_of_ne_nil hne
  unfold quotedBody
  rw [List.flatMap_cons]
  by_cases hquote : character = delimiter
  · rw [if_pos hquote]
    exact fun heq => hdelimiter (Option.some.inj heq).symm
  · rw [if_neg hquote]
    exact fun heq => hquote (Option.some.inj heq)

theorem scanBody_quotedBody (hdelimiter : delimiter ≠ '\\') {taken rest : List Char}
    (hlast : text.getLast? ≠ some '\\') :
    scanBody delimiter taken (quotedBody delimiter text ++ delimiter :: rest) =
      some (taken.reverse ++ quotedBody delimiter text, rest) := by
  induction text generalizing taken with
  | nil =>
      cases rest with
      | nil => simp [quotedBody, scanBody]
      | cons head rest => simp [quotedBody, scanBody]
  | cons character text ih =>
      have htail : text.getLast? ≠ some '\\' := by
        cases text with
        | nil => exact Option.some_ne_none _ ∘ Eq.symm
        | cons next text => rwa [List.getLast?_cons_cons] at hlast
      have hcons : quotedBody delimiter (character :: text) =
          (if character = delimiter then ['\\', delimiter] else [character]) ++
            quotedBody delimiter text := by
        rw [quotedBody, List.flatMap_cons, quotedBody]
      rw [hcons]
      by_cases hquote : character = delimiter
      · rw [if_pos hquote]
        have hnext := @ih (delimiter :: '\\' :: taken) htail
        simp only [List.cons_append, List.nil_append]
        rw [scanBody, if_neg (Ne.symm hdelimiter), if_pos ⟨rfl, rfl⟩, hnext]
        simp
      · rw [if_neg hquote]
        have hnext := @ih (character :: taken) htail
        obtain ⟨first, others, hfollowing⟩ : ∃ first others,
            quotedBody delimiter text ++ delimiter :: rest = first :: others :=
          List.exists_cons_of_ne_nil (by simp)
        have hpair : ¬ (character = '\\' ∧ first = delimiter) := by
          rintro ⟨rfl, rfl⟩
          refine hlast (by_contra fun hne => ?_)
          refine head?_quotedBody hdelimiter text (first :: rest) ?_ (congrArg List.head? hfollowing)
          rintro rfl
          exact hne rfl
        simp only [List.cons_append, List.nil_append]
        rw [hfollowing] at hnext ⊢
        rw [scanBody, if_neg hquote, if_neg hpair, hnext]
        simp

theorem replaceEscape_quotedBody (hdelimiter : delimiter ≠ '\\') (text : List Char) :
    replaceEscape delimiter delimiter [] (quotedBody delimiter text) = text := by
  induction text with
  | nil => rfl
  | cons character text ih =>
      have hcons : quotedBody delimiter (character :: text) =
          (if character = delimiter then ['\\', delimiter] else [character]) ++
            quotedBody delimiter text := by
        rw [quotedBody, List.flatMap_cons, quotedBody]
      rw [hcons]
      by_cases hquote : character = delimiter
      · rw [if_pos hquote, List.cons_append, List.cons_append, List.nil_append,
          replaceEscape_pair ⟨rfl, rfl⟩, ih, hquote]
      · rw [if_neg hquote, List.cons_append, List.nil_append]
        have hhead := head?_quotedBody hdelimiter text []
        rw [List.append_nil] at hhead
        cases hbody : quotedBody delimiter text with
        | nil =>
            rw [hbody] at ih
            rw [← ih]
            rfl
        | cons first others =>
            rw [hbody] at ih hhead
            rw [replaceEscape_other, ih]
            rintro ⟨_, rfl⟩
            refine hhead ?_ rfl
            rintro rfl
            cases hbody

/-- A payload comes back from its quoted body. -/
theorem unescape_quotedBody (hdelimiter : delimiter ≠ '\\') (h : IsPayload text) :
    unescape delimiter (quotedBody delimiter text) = text := by
  unfold unescape
  rw [replaceEscape_quotedBody hdelimiter, replaceEscape_of_avoids h.newline, List.reverse_nil,
    List.nil_append, replaceEscape_of_avoids h.carriage, List.reverse_nil, List.nil_append,
    replaceEscape_of_avoids h.tab, List.reverse_nil, List.nil_append]

/-- The body of a literal does not end in a backslash. -/
theorem body_of_scanBody (hdelimiter : delimiter ≠ '\\') {taken body rest : List Char}
    (h : scanBody delimiter taken text = some (body, rest)) :
    ∃ tail, body = taken.reverse ++ tail ∧ tail.getLast? ≠ some '\\' ∧
      (tail = [] → text.head? = some delimiter) := by
  fun_induction scanBody delimiter taken text with
  | case1 taken next others =>
      cases h
      exact ⟨[], by simp, by simp, fun _ => rfl⟩
  | case2 taken character next others hopen hpair ih =>
      obtain ⟨tail, rfl, hlast, _⟩ := ih h
      refine ⟨character :: next :: tail, by simp, ?_, by simp⟩
      rw [List.getLast?_cons_cons]
      exact getLast?_cons_ne hlast fun _ => hpair.2 ▸ hdelimiter
  | case3 taken character next others hopen hpair ih =>
      obtain ⟨tail, rfl, hlast, hnil⟩ := ih h
      refine ⟨character :: tail, by simp, getLast?_cons_ne hlast fun hempty heq => ?_, by simp⟩
      exact hpair ⟨heq, Option.some.inj (hnil hempty)⟩
  | case4 taken =>
      cases h
      exact ⟨[], by simp, by simp, fun _ => rfl⟩
  | case5 taken character hopen => cases h
  | case6 taken => cases h

/-- Every text that a literal stands for is a payload. -/
theorem isPayload_unescape (hdelimiter : delimiter ≠ '\\') {body : List Char}
    (hlast : body.getLast? ≠ some '\\') : IsPayload (unescape delimiter body) := by
  unfold unescape
  constructor
  · exact avoids_replaceEscape (by decide) (by decide) (.inr <|
      avoids_replaceEscape (by decide) (by decide) (.inr <|
        avoids_replaceEscape (by decide) (by decide) (.inl rfl)))
  · exact avoids_replaceEscape (by decide) (by decide) (.inr <|
      avoids_replaceEscape (by decide) (by decide) (.inl rfl))
  · exact avoids_replaceEscape (by decide) (by decide) (.inl rfl)
  · refine getLast?_replaceEscape (by decide) (getLast?_replaceEscape (by decide) ?_)
    exact getLast?_replaceEscape (by decide) (getLast?_replaceEscape hdelimiter hlast)

theorem ne_backslash_of_isQuote (h : delimiter = '"' ∨ delimiter = '\'') : delimiter ≠ '\\' := by
  rcases h with rfl | rfl
  · decide
  · decide

/-- A quote, a body and the quote again, as one string that stands for a payload. -/
def IsStringLiteral (literal payload : List Char) : Prop :=
  ∃ delimiter body, (delimiter = '"' ∨ delimiter = '\'') ∧
    literal = delimiter :: (body ++ [delimiter]) ∧
    scanBody delimiter [] (body ++ [delimiter]) = some (body, []) ∧
    unescape delimiter body = payload

theorem IsStringLiteral.isPayload {literal payload : List Char}
    (h : IsStringLiteral literal payload) : IsPayload payload := by
  obtain ⟨delimiter, body, hquote, _, hscan, rfl⟩ := h
  have hdelimiter := ne_backslash_of_isQuote hquote
  obtain ⟨tail, hbody, hlast, _⟩ := body_of_scanBody hdelimiter hscan
  rw [List.reverse_nil, List.nil_append] at hbody
  subst hbody
  exact isPayload_unescape hdelimiter hlast

theorem scanToken_quoted (hquote : delimiter = '"' ∨ delimiter = '\'') {payload : List Char}
    (h : IsPayload payload) (rest : List Char) (start : Position) :
    scanToken delimiter (quotedBody delimiter payload ++ delimiter :: rest) start =
      .ok (⟨.string, String.ofList payload, start,
        start.afterQuoted (quotedBody delimiter payload)⟩, rest) := by
  have hdelimiter := ne_backslash_of_isQuote hquote
  have hscan := @scanBody_quotedBody payload delimiter hdelimiter [] rest h.last
  rw [List.reverse_nil, List.nil_append] at hscan
  unfold scanToken
  rw [if_pos hquote, hscan]
  dsimp only
  rw [unescape_quotedBody hdelimiter h]

end

end Lexer

end ScriptEngine
