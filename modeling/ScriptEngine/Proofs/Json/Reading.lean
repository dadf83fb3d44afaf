import ScriptEngine.Json.Reader
import ScriptEngine.Json.Writer
import ScriptEngine.Proofs.Text.Classes

/-!
# Runs of the reader

What a reader makes of a text, with the offsets left out: a value and the text after it, or an
error of some kind.
-/

namespace ScriptEngine

namespace JsonReader

variable {α β : Type} {reader : Reader α} {next : α → Reader β} {text rest final : List Char}
  {value : α} {result : β} {kind : JsonErrorKind}

/-- The reader reads a value off a text and leaves `rest` of it. -/
def Reads (reader : Reader α) (text : List Char) (value : α) (rest : List Char) : Prop :=
  ∀ offset, ∃ after, reader ⟨text, offset⟩ = .ok value ⟨rest, after⟩

/-- The reader finds an error in a text. -/
def Refuses (reader : Reader α) (text : List Char) (kind : JsonErrorKind) : Prop :=
  ∀ offset, ∃ place after, reader ⟨text, offset⟩ = .error ⟨kind, place⟩ after

theorem reads_pure (value : α) (text : List Char) : Reads (pure value) text value text :=
  fun offset => ⟨offset, rfl⟩

theorem Reads.bind (h : Reads reader text value rest) (hnext : Reads (next value) rest result final) :
    Reads (reader >>= next) text result final := by
  intro offset
  obtain ⟨middle, hmiddle⟩ := h offset
  obtain ⟨after, hafter⟩ := hnext middle
  refine ⟨after, ?_⟩
  change EStateM.bind reader next ⟨text, offset⟩ = _
  unfold EStateM.bind
  rw [hmiddle]
  exact hafter

theorem Reads.map (h : Reads reader text value rest) (transform : α → β) :
    Reads (reader >>= fun value => pure (transform value)) text (transform value) rest :=
  h.bind (reads_pure _ _)

theorem Refuses.bind (h : Refuses reader text kind) : Refuses (reader >>= next) text kind := by
  intro offset
  obtain ⟨place, after, hafter⟩ := h offset
  refine ⟨place, after, ?_⟩
  change EStateM.bind reader next ⟨text, offset⟩ = _
  unfold EStateM.bind
  rw [hafter]

theorem Reads.bind_refuses (h : Reads reader text value rest)
    (hnext : Refuses (next value) rest kind) : Refuses (reader >>= next) text kind := by
  intro offset
  obtain ⟨middle, hmiddle⟩ := h offset
  obtain ⟨place, after, hafter⟩ := hnext middle
  refine ⟨place, after, ?_⟩
  change EStateM.bind reader next ⟨text, offset⟩ = _
  unfold EStateM.bind
  rw [hmiddle]
  exact hafter

theorem Reads.of_if {condition : Prop} [Decidable condition] {other : Reader α} (hcondition : condition)
    (h : Reads reader text value rest) :
    Reads (if condition then reader else other) text value rest := by
  rwa [if_pos hcondition]

theorem reads_peek (text : List Char) : Reads peek text text.head? text :=
  fun offset => ⟨offset, rfl⟩

theorem reads_skip (head : Char) (text : List Char) : Reads skip (head :: text) () text :=
  fun offset => ⟨offset + 1, rfl⟩

theorem reads_takeAll (member : Char → Bool) (text : List Char) :
    Reads (takeAll member) text (text.takeWhile member) (text.dropWhile member) :=
  fun offset => ⟨offset + (text.takeWhile member).length, rfl⟩

theorem refuses_failNext (kind : JsonErrorKind) (text : List Char) :
    Refuses (failNext kind : Reader α) text kind :=
  fun offset => ⟨_, ⟨text, offset⟩, rfl⟩

theorem reads_takeAll_append {member : Char → Bool} (htext : ∀ head ∈ text, member head)
    (hrest : Stops member rest) : Reads (takeAll member) (text ++ rest) text rest := by
  obtain ⟨htake, hdrop⟩ := takeWhile_append_of_stops htext hrest
  have h := reads_takeAll member (text ++ rest)
  rwa [htake, hdrop] at h

theorem reads_skipSpace (h : Stops isSpace text) : Reads skipSpace text () text :=
  (@reads_takeAll_append [] text isSpace (by simp) h).bind (reads_pure _ _)

theorem reads_word (expected : List Char) (rest : List Char) :
    Reads (word expected) (expected ++ rest) () rest := by
  induction expected with
  | nil => exact reads_pure () rest
  | cons head tail ih =>
      refine (reads_peek _).bind ?_
      simp only [List.cons_append, List.head?_cons, if_true]
      exact (reads_skip head _).bind ih

theorem Reads.get_bind {next : Cursor → Reader β}
    (h : ∀ offset, Reads (next ⟨text, offset⟩) text result final) :
    Reads (get >>= next) text result final :=
  fun offset => h offset offset

theorem reads_set (text : List Char) (cursor : Cursor) :
    Reads (set cursor) text ⟨⟩ cursor.rest :=
  fun _ => ⟨cursor.offset, rfl⟩

/-! ### Strings -/

theorem fourHex_of_control : ∀ code < 0x20,
    fourHex? '0' '0' (Nat.digitChar (code / 16)) (Nat.digitChar (code % 16)) = some code := by
  decide

theorem reads_hexEscape {a b c d : Char} {unit : Nat} (h : fourHex? a b c d = some unit)
    (rest : List Char) : Reads hexEscape (a :: b :: c :: d :: rest) unit rest := by
  refine Reads.get_bind fun offset => ?_
  have hlong : ¬ byteLength ((a :: b :: c :: d :: rest).take 4) < 4 := by
    have ha := a.utf8Size_pos
    have hb := b.utf8Size_pos
    have hc := c.utf8Size_pos
    have hd := d.utf8Size_pos
    simp only [List.take, byteLength, List.foldl]
    omega
  simp only [hlong, if_false, h]
  exact (reads_set _ _).bind (reads_pure unit rest)

/-- The four digits after `\\u` of a character below the space. -/
theorem reads_unicodeEscape {character : Char} (h : character.toNat < 0x20) (rest : List Char) :
    Reads unicodeEscape
      ('0' :: '0' :: Nat.digitChar (character.toNat / 16) :: Nat.digitChar (character.toNat % 16) ::
        rest) character rest := by
  refine (reads_hexEscape (fourHex_of_control _ h) rest).bind ?_
  have htrailing : isTrailing character.toNat = false := by
    simp only [isTrailing, Bool.and_eq_false_iff, decide_eq_false_iff_not]
    omega
  have hleading : isLeading character.toNat = false := by
    simp only [isLeading, Bool.and_eq_false_iff, decide_eq_false_iff_not]
    omega
  simp only [htrailing, hleading, Bool.false_eq_true, if_false, Char.ofNat_toNat]
  exact reads_pure character rest

theorem reads_stringTail_escaped {fuel : Nat} {taken : List Char} {escaped : Char} {value : String}
    (hescape : Reads escape text escaped rest)
    (h : Reads (stringTail fuel (escaped :: taken)) rest value final) :
    Reads (stringTail (fuel + 1) taken) ('\\' :: text) value final := by
  refine Reads.get_bind fun offset => ?_
  exact (reads_skip _ _).bind (hescape.bind h)

/-- An escape of one letter is read as what it stands for. -/
theorem reads_escape {letter escaped : Char}
    (h : (letter, escaped) ∈ [('"', '"'), ('\\', '\\'), ('n', '\n'), ('r', '\r'), ('t', '\t'),
      ('b', Char.ofNat 0x8), ('f', Char.ofNat 0xC)]) (rest : List Char) :
    Reads escape (letter :: rest) escaped rest := by
  refine (reads_peek _).bind ?_
  simp only [List.mem_cons, Prod.mk.injEq, List.not_mem_nil, or_false] at h
  rcases h with h | h | h | h | h | h | h <;>
    (obtain ⟨rfl, rfl⟩ := h
     exact (reads_skip _ _).bind (reads_pure _ _))

/-- What is written for a character is read as that character. -/
theorem reads_stringTail_escape {fuel : Nat} {taken : List Char} {value : String}
    (character : Char) (h : Reads (stringTail fuel (character :: taken)) rest value final) :
    Reads (stringTail (fuel + 1) taken) (JsonDocument.escape character ++ rest) value final := by
  unfold JsonDocument.escape
  by_cases hquote : character = '"'
  · subst hquote
    exact reads_stringTail_escaped (reads_escape (by decide) rest) h
  by_cases hbackslash : character = '\\'
  · subst hbackslash
    exact reads_stringTail_escaped (reads_escape (by decide) rest) h
  by_cases hnewline : character = '\n'
  · subst hnewline
    exact reads_stringTail_escaped (reads_escape (by decide) rest) h
  by_cases hreturn : character = '\r'
  · subst hreturn
    exact reads_stringTail_escaped (reads_escape (by decide) rest) h
  by_cases htab : character = '\t'
  · subst htab
    exact reads_stringTail_escaped (reads_escape (by decide) rest) h
  simp only [hquote, hbackslash, hnewline, hreturn, htab, if_false]
  by_cases hbackspace : character.toNat = 0x8
  · obtain rfl : character = Char.ofNat 0x8 := by rw [← hbackspace, Char.ofNat_toNat]
    exact reads_stringTail_escaped (reads_escape (by decide) rest) h
  by_cases hformFeed : character.toNat = 0xC
  · obtain rfl : character = Char.ofNat 0xC := by rw [← hformFeed, Char.ofNat_toNat]
    exact reads_stringTail_escaped (reads_escape (by decide) rest) h
  simp only [hbackspace, hformFeed, if_false]
  by_cases hcontrol : character.toNat < 0x20
  · simp only [hcontrol, if_true]
    refine reads_stringTail_escaped ?_ h
    exact (reads_peek _).bind ((reads_skip _ _).bind (reads_unicodeEscape hcontrol rest))
  · simp only [hcontrol, if_false]
    refine Reads.get_bind fun offset => ?_
    simp only [List.cons_append, List.nil_append, hquote, hbackslash, hcontrol, if_false]
    exact (reads_set _ _).bind h

theorem reads_stringTail {fuel : Nat} {taken : List Char} (content rest : List Char)
    (hfuel : content.length < fuel) :
    Reads (stringTail fuel taken) (content.flatMap JsonDocument.escape ++ '"' :: rest)
      (String.ofList (taken.reverse ++ content)) rest := by
  induction content generalizing fuel taken with
  | nil =>
      obtain ⟨fuel, rfl⟩ := Nat.exists_eq_add_of_lt hfuel
      refine Reads.get_bind fun offset => ?_
      rw [List.append_nil]
      exact (reads_skip _ _).bind (reads_pure _ _)
  | cons character content ih =>
      cases fuel with
      | zero => exact absurd hfuel (Nat.not_lt_zero _)
      | succ fuel =>
          have htail := @ih fuel (character :: taken) (Nat.lt_of_succ_lt_succ hfuel)
          rw [List.reverse_cons, List.append_assoc, List.singleton_append] at htail
          rw [List.flatMap_cons, List.append_assoc]
          exact reads_stringTail_escape character htail

theorem length_le_length_escaped (content : List Char) :
    content.length ≤ (content.flatMap JsonDocument.escape).length := by
  induction content with
  | nil => exact Nat.le_refl 0
  | cons character content ih =>
      have hpos : 1 ≤ (JsonDocument.escape character).length := by
        unfold JsonDocument.escape
        repeat' split
        all_goals simp only [List.length_cons]; omega
      rw [List.flatMap_cons, List.length_append, List.length_cons]
      omega

/-- A string is read as what was written. -/
theorem reads_string (value : String) (rest : List Char) :
    Reads string ((JsonDocument.renderString value).toList ++ rest) value rest := by
  have htext : (JsonDocument.renderString value).toList ++ rest =
      '"' :: (value.toList.flatMap JsonDocument.escape ++ '"' :: rest) := by
    simp [JsonDocument.renderString]
  rw [htext]
  refine (reads_skip _ _).bind (Reads.get_bind fun offset => ?_)
  have hlength := length_le_length_escaped value.toList
  have hread := @reads_stringTail
    ((value.toList.flatMap JsonDocument.escape ++ '"' :: rest).length + 1) [] value.toList rest
    (by rw [List.length_append]; omega)
  rwa [List.reverse_nil, List.nil_append, String.ofList_toList] at hread

end JsonReader

end ScriptEngine
