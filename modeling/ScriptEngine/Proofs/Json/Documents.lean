import ScriptEngine.Proofs.Json.Reading

/-!
# Reading what was written

The text of a document is read as that document, as far as the reader allows the nesting: a document
with containers `nestingLimit` levels deep is refused. That the numbers in a document are read is a
hypothesis here.
-/

namespace ScriptEngine

namespace JsonDocument

mutual

/-- How many containers are around the innermost value, itself included. -/
def depth : JsonDocument → Nat
  | .array elements => depthElements elements + 1
  | .object members => depthMembers members + 1
  | _ => 0

def depthElements : List JsonDocument → Nat
  | [] => 0
  | head :: rest => max (depth head) (depthElements rest)

def depthMembers : List JsonMember → Nat
  | [] => 0
  | .mk _ value :: rest => max (depth value) (depthMembers rest)

end

end JsonDocument

/-- The number with nothing said about which real it is. -/
def JsonNumber.eraseReal : JsonNumber → JsonNumber
  | integer value => integer value
  | real _ => real 0

namespace JsonDocument

mutual

def eraseReals : JsonDocument → JsonDocument
  | .null => .null
  | .boolean value => .boolean value
  | .number value => .number value.eraseReal
  | .string value => .string value
  | .array elements => .array (eraseElements elements)
  | .object members => .object (eraseMembers members)

def eraseElements : List JsonDocument → List JsonDocument
  | [] => []
  | head :: rest => eraseReals head :: eraseElements rest

def eraseMembers : List JsonMember → List JsonMember
  | [] => []
  | .mk name value :: rest => .mk name (eraseReals value) :: eraseMembers rest

end

mutual

/-- Each number of a document has a property. -/
def AllNumbers (holds : JsonNumber → Prop) : JsonDocument → Prop
  | .number value => holds value
  | .array elements => AllElements holds elements
  | .object members => AllMembers holds members
  | _ => True

def AllElements (holds : JsonNumber → Prop) : List JsonDocument → Prop
  | [] => True
  | head :: rest => AllNumbers holds head ∧ AllElements holds rest

def AllMembers (holds : JsonNumber → Prop) : List JsonMember → Prop
  | [] => True
  | .mk _ value :: rest => AllNumbers holds value ∧ AllMembers holds rest

end

/-- The text of elements that come after another one. -/
def elementsTail (elements : List JsonDocument) : List Char :=
  elements.flatMap fun element => ',' :: element.render.toList

def memberText : JsonMember → List Char
  | .mk name value => (renderString name).toList ++ ':' :: value.render.toList

def membersTail (members : List JsonMember) : List Char :=
  members.flatMap fun member => ',' :: memberText member

theorem toList_intercalate_renderElements (head : JsonDocument) (rest : List JsonDocument) :
    (",".intercalate (renderElements (head :: rest))).toList =
      head.render.toList ++ elementsTail rest := by
  induction rest generalizing head with
  | nil => simp [renderElements, elementsTail]
  | cons next rest ih =>
      rw [renderElements, renderElements, String.intercalate_cons_cons, String.toList_append,
        String.toList_append, ← renderElements, ih]
      simp [elementsTail]

theorem toList_intercalate_renderMembers (head : JsonMember) (rest : List JsonMember) :
    (",".intercalate (renderMembers (head :: rest))).toList =
      memberText head ++ membersTail rest := by
  induction rest generalizing head with
  | nil =>
      obtain ⟨name, value⟩ := head
      simp [renderMembers, membersTail, memberText]
  | cons next rest ih =>
      obtain ⟨name, value⟩ := head
      obtain ⟨nextName, nextValue⟩ := next
      rw [renderMembers, renderMembers, String.intercalate_cons_cons, String.toList_append,
        String.toList_append, ← renderMembers, ih]
      simp [membersTail, memberText]

end JsonDocument

namespace JsonReader

open JsonDocument

/-- A reader gets a value from a text exactly if something fits, and finds too many levels
otherwise. -/
structure Meets {α : Type} (reader : Reader α) (text : List Char) (fits : Prop)
    (accepted : α → Prop) (rest : List Char) : Prop where
  reads (h : fits) : ∃ value, Reads reader text value rest ∧ accepted value
  refuses (h : ¬ fits) : Refuses reader text .nestingLimit

namespace Meets

variable {α β : Type} {reader : Reader α} {next : α → Reader β} {text middle rest : List Char}
  {fits more : Prop} {accepted : α → Prop} {result : β → Prop}

theorem of_reads {value : α} (h : Reads reader text value rest) (hfits : fits)
    (hvalue : accepted value) : Meets reader text fits accepted rest :=
  ⟨fun _ => ⟨value, h, hvalue⟩, fun hnot => absurd hfits hnot⟩

theorem bind (h : Meets reader text fits accepted middle)
    (hnext : ∀ value, accepted value → Meets (next value) middle more result rest) :
    Meets (reader >>= next) text (fits ∧ more) result rest := by
  constructor
  · intro hfits
    obtain ⟨value, hvalue, haccepted⟩ := h.reads hfits.1
    obtain ⟨final, hfinal, hresult⟩ := (hnext value haccepted).reads hfits.2
    exact ⟨final, hvalue.bind hfinal, hresult⟩
  · intro hnot
    by_cases hfits : fits
    · obtain ⟨value, hvalue, haccepted⟩ := h.reads hfits
      have hmore : ¬ more := fun hmore => hnot ⟨hfits, hmore⟩
      exact hvalue.bind_refuses ((hnext value haccepted).refuses hmore)
    · exact (h.refuses hfits).bind

theorem map (h : Meets reader text fits accepted rest) {transform : α → β}
    (htransform : ∀ value, accepted value → result (transform value)) :
    Meets (reader >>= fun value => pure (transform value)) text fits result rest := by
  constructor
  · intro hfits
    obtain ⟨value, hvalue, haccepted⟩ := h.reads hfits
    exact ⟨transform value, hvalue.map transform, htransform value haccepted⟩
  · exact fun hnot => (h.refuses hnot).bind

/-- A step that needs no level comes first. -/
theorem after {value : α} (hvalue : Reads reader text value middle)
    (h : Meets (next value) middle fits result rest) :
    Meets (reader >>= next) text fits result rest := by
  constructor
  · intro hfits
    obtain ⟨final, hfinal, hresult⟩ := h.reads hfits
    exact ⟨final, hvalue.bind hfinal, hresult⟩
  · exact fun hnot => hvalue.bind_refuses (h.refuses hnot)

theorem congr (h : Meets reader text fits accepted rest) (hfits : fits ↔ more) :
    Meets reader text more accepted rest :=
  ⟨fun hmore => h.reads (hfits.mpr hmore), fun hnot => h.refuses fun hfit => hnot (hfits.mp hfit)⟩

end Meets

/-- A character that a number could go on with. -/
def isNumberPart (character : Char) : Bool :=
  character.isDigit || character == '.' || character == 'e' || character == 'E'

/-- A number is read from its text, as a real if it is one. -/
structure ReadsBack (number : JsonNumber) : Prop where
  start : ∃ head tail, (renderNumber number).toList = head :: tail ∧
    (head = '-' ∨ head.isDigit)
  reads (fuel levels : Nat) (rest : List Char) (hrest : Stops isNumberPart rest) :
    ∃ read : JsonNumber, Reads (value (fuel + 1) levels) ((renderNumber number).toList ++ rest)
      (.number read) rest ∧ read.eraseReal = number.eraseReal

theorem isSpace_of_isDigit {character : Char} (h : character.isDigit) :
    isSpace character = false := by
  rw [Bool.eq_false_iff]
  intro hspace
  simp only [isSpace, Bool.or_eq_true, beq_iff_eq] at hspace
  rcases hspace with ((rfl | rfl) | rfl) | rfl <;> exact absurd h (by decide)

/-- The text of a document begins with neither a blank nor a closing bracket. -/
theorem exists_head_render {document : JsonDocument} (h : document.AllNumbers ReadsBack) :
    ∃ head tail, document.render.toList = head :: tail ∧ isSpace head = false ∧ head ≠ ']' := by
  cases document with
  | null => exact ⟨'n', ['u', 'l', 'l'], by simp [render], by decide, by decide⟩
  | boolean value =>
      cases value with
      | true => exact ⟨'t', ['r', 'u', 'e'], by simp [render], by decide, by decide⟩
      | false => exact ⟨'f', ['a', 'l', 's', 'e'], by simp [render], by decide, by decide⟩
  | number number =>
      obtain ⟨head, tail, htext, hhead⟩ := h.start
      refine ⟨head, tail, by rw [render, htext], ?_, ?_⟩
      · rcases hhead with rfl | hdigit
        · decide
        · exact isSpace_of_isDigit hdigit
      · rcases hhead with rfl | hdigit
        · decide
        · rintro rfl
          exact absurd hdigit (by decide)
  | string value =>
      refine ⟨'"', value.toList.flatMap JsonDocument.escape ++ ['"'], ?_, by decide, by decide⟩
      simp [render, renderString]
  | array elements =>
      refine ⟨'[', (",".intercalate (renderElements elements)).toList ++ [']'], ?_, by decide,
        by decide⟩
      rw [render, String.toList_append, String.toList_append]
      rfl
  | object members =>
      refine ⟨'{', (",".intercalate (renderMembers members)).toList ++ ['}'], ?_, by decide,
        by decide⟩
      rw [render, String.toList_append, String.toList_append]
      rfl

variable {fuel levels : Nat} {rest : List Char}

/-! ### Scalars -/

theorem reads_value_null (fuel levels : Nat) (rest : List Char) :
    Reads (value (fuel + 1) levels) ((render .null).toList ++ rest) .null rest := by
  unfold value
  rw [render]
  refine (reads_skipSpace (stops_cons (by decide) _)).bind ((reads_peek _).bind ?_)
  exact (reads_skip _ _).bind ((reads_word _ _).bind (reads_pure _ _))

theorem reads_value_boolean (fuel levels : Nat) (truth : Bool) (rest : List Char) :
    Reads (value (fuel + 1) levels) ((render (.boolean truth)).toList ++ rest) (.boolean truth)
      rest := by
  unfold value
  rw [render]
  cases truth with
  | true =>
      refine (reads_skipSpace (stops_cons (by decide) _)).bind ((reads_peek _).bind ?_)
      exact (reads_skip _ _).bind ((reads_word _ _).bind (reads_pure _ _))
  | false =>
      refine (reads_skipSpace (stops_cons (by decide) _)).bind ((reads_peek _).bind ?_)
      exact (reads_skip _ _).bind ((reads_word _ _).bind (reads_pure _ _))

theorem reads_value_string (fuel levels : Nat) (text : String) (rest : List Char) :
    Reads (value (fuel + 1) levels) ((render (.string text)).toList ++ rest) (.string text)
      rest := by
  have hread := reads_string text rest
  unfold value
  rw [render]
  have htext : (renderString text).toList ++ rest =
      '"' :: (text.toList.flatMap JsonDocument.escape ++ '"' :: rest) := by
    simp [renderString]
  rw [htext] at hread ⊢
  refine (reads_skipSpace (stops_cons (by decide) _)).bind ((reads_peek _).bind ?_)
  exact hread.map _

/-! ### Containers -/

/-- What reading the value of a document comes to, with `levels` left for it. -/
abbrev ValueMeets (fuel levels : Nat) (document : JsonDocument) (rest : List Char) : Prop :=
  Meets (value fuel levels) (document.render.toList ++ rest) (document.depth < levels)
    (fun read => read.eraseReals = document.eraseReals) rest

/-- What reading elements up to the closing bracket comes to, all of them after a comma. -/
abbrev ElementsMeet (fuel levels : Nat) (items : List JsonDocument) (rest : List Char) : Prop :=
  Meets (elements fuel levels false) (elementsTail items ++ ']' :: rest)
    (depthElements items < levels) (fun read => eraseElements read = eraseElements items) rest

/-- The same with a first element, which comes after no comma. -/
abbrev FirstElementsMeet (fuel levels : Nat) (items : List JsonDocument) (rest : List Char) :
    Prop :=
  Meets (elements fuel levels true)
    ((",".intercalate (renderElements items)).toList ++ ']' :: rest)
    (depthElements items < levels) (fun read => eraseElements read = eraseElements items) rest

theorem toList_render_array (items : List JsonDocument) (rest : List Char) :
    (render (.array items)).toList ++ rest =
      '[' :: ((",".intercalate (renderElements items)).toList ++ ']' :: rest) := by
  simp [render]

/-- The last level is not for containers. -/
theorem meets_value_array_one (fuel : Nat) (items : List JsonDocument) (rest : List Char) :
    ValueMeets (fuel + 1) 1 (.array items) rest := by
  unfold ValueMeets value
  rw [toList_render_array, depth]
  refine .after (reads_skipSpace (stops_cons (by decide) _)) (.after (reads_peek _) ?_)
  exact ⟨fun hfits => absurd hfits (by omega), fun _ => refuses_failNext _ _⟩

theorem meets_value_array {items : List JsonDocument}
    (h : FirstElementsMeet fuel (levels + 1) items rest) :
    ValueMeets (fuel + 1) (levels + 2) (.array items) rest := by
  unfold ValueMeets value
  rw [toList_render_array, depth]
  refine .after (reads_skipSpace (stops_cons (by decide) _)) (.after (reads_peek _) ?_)
  refine .after (reads_skip _ _) (Meets.congr (h.map ?_) ?_)
  · intro read hread
    rw [eraseReals, eraseReals, hread]
  · omega

theorem meets_cons_elements {head : JsonDocument} {items : List JsonDocument}
    (h : ValueMeets fuel levels head (elementsTail items ++ ']' :: rest))
    (hitems : ElementsMeet fuel levels items rest) :
    Meets (value fuel levels >>= fun head => elements fuel levels false >>= fun items =>
        pure (head :: items))
      (head.render.toList ++ (elementsTail items ++ ']' :: rest))
      (depthElements (head :: items) < levels)
      (fun read => eraseElements read = eraseElements (head :: items)) rest := by
  refine Meets.congr (h.bind fun first hfirst => hitems.map fun others hothers => ?_) ?_
  · rw [eraseElements, eraseElements, hfirst, hothers]
  · rw [depthElements]
    omega

theorem meets_elements_nil (hlevels : 0 < levels) : ElementsMeet (fuel + 1) levels [] rest := by
  unfold ElementsMeet elements
  refine .after (reads_skipSpace (stops_cons (by decide) _)) (.after (reads_peek _) ?_)
  exact .of_reads ((reads_skip _ _).bind (reads_pure _ _)) hlevels rfl

theorem meets_elements_cons {head : JsonDocument} {items : List JsonDocument}
    (hhead : head.AllNumbers ReadsBack)
    (h : ValueMeets fuel levels head (elementsTail items ++ ']' :: rest))
    (hitems : ElementsMeet fuel levels items rest) :
    ElementsMeet (fuel + 1) levels (head :: items) rest := by
  have htext : elementsTail (head :: items) ++ ']' :: rest =
      ',' :: (head.render.toList ++ (elementsTail items ++ ']' :: rest)) := by
    simp [elementsTail]
  have hcons := meets_cons_elements h hitems
  unfold ElementsMeet elements
  rw [htext]
  refine .after (reads_skipSpace (stops_cons (by decide) _)) (.after (reads_peek _) ?_)
  obtain ⟨first, text, hrender, hspace, hbracket⟩ := exists_head_render hhead
  rw [hrender, List.cons_append] at hcons ⊢
  refine .after (reads_skip _ _) (.after (reads_skipSpace (stops_cons hspace _)) ?_)
  refine .after (reads_peek _) ?_
  simp only [List.head?_cons]
  exact hcons

theorem meets_firstElements_nil (hlevels : 0 < levels) :
    FirstElementsMeet (fuel + 1) levels [] rest := by
  unfold FirstElementsMeet elements
  refine .after (reads_skipSpace (stops_cons (by decide) _)) (.after (reads_peek _) ?_)
  exact .of_reads ((reads_skip _ _).bind (reads_pure _ _)) hlevels rfl

theorem meets_firstElements_cons {head : JsonDocument} {items : List JsonDocument}
    (hhead : head.AllNumbers ReadsBack)
    (h : ValueMeets fuel levels head (elementsTail items ++ ']' :: rest))
    (hitems : ElementsMeet fuel levels items rest) :
    FirstElementsMeet (fuel + 1) levels (head :: items) rest := by
  have hcons := meets_cons_elements h hitems
  unfold FirstElementsMeet elements
  rw [toList_intercalate_renderElements, List.append_assoc]
  obtain ⟨first, text, hrender, hspace, hbracket⟩ := exists_head_render hhead
  rw [hrender, List.cons_append] at hcons ⊢
  refine .after (reads_skipSpace (stops_cons hspace _)) (.after (reads_peek _) ?_)
  simp only [List.head?_cons]
  exact hcons

/-! ### Members -/

/-- What reading members up to the closing brace comes to, all of them after a comma. -/
abbrev MembersMeet (fuel levels : Nat) (items : List JsonMember) (rest : List Char) : Prop :=
  Meets (members fuel levels false) (membersTail items ++ '}' :: rest)
    (depthMembers items < levels) (fun read => eraseMembers read = eraseMembers items) rest

/-- The same with a first member, which comes after no comma. -/
abbrev FirstMembersMeet (fuel levels : Nat) (items : List JsonMember) (rest : List Char) : Prop :=
  Meets (members fuel levels true)
    ((",".intercalate (renderMembers items)).toList ++ '}' :: rest)
    (depthMembers items < levels) (fun read => eraseMembers read = eraseMembers items) rest

theorem toList_render_object (items : List JsonMember) (rest : List Char) :
    (render (.object items)).toList ++ rest =
      '{' :: ((",".intercalate (renderMembers items)).toList ++ '}' :: rest) := by
  simp [render]

theorem meets_value_object_one (fuel : Nat) (items : List JsonMember) (rest : List Char) :
    ValueMeets (fuel + 1) 1 (.object items) rest := by
  unfold ValueMeets value
  rw [toList_render_object, depth]
  refine .after (reads_skipSpace (stops_cons (by decide) _)) (.after (reads_peek _) ?_)
  exact ⟨fun hfits => absurd hfits (by omega), fun _ => refuses_failNext _ _⟩

theorem meets_value_object {items : List JsonMember}
    (h : FirstMembersMeet fuel (levels + 1) items rest) :
    ValueMeets (fuel + 1) (levels + 2) (.object items) rest := by
  unfold ValueMeets value
  rw [toList_render_object, depth]
  refine .after (reads_skipSpace (stops_cons (by decide) _)) (.after (reads_peek _) ?_)
  refine .after (reads_skip _ _) (Meets.congr (h.map ?_) ?_)
  · intro read hread
    rw [eraseReals, eraseReals, hread]
  · omega

theorem meets_cons_members (name : String) {document : JsonDocument} {items : List JsonMember}
    (h : ValueMeets fuel levels document (membersTail items ++ '}' :: rest))
    (hitems : MembersMeet (fuel + 1) levels items rest) :
    Meets (member (fuel + 1) levels >>= fun head => members (fuel + 1) levels false >>= fun items =>
        pure (head :: items))
      (memberText (.mk name document) ++ (membersTail items ++ '}' :: rest))
      (depthMembers (.mk name document :: items) < levels)
      (fun read => eraseMembers read = eraseMembers (.mk name document :: items)) rest := by
  have hmember : Meets (member (fuel + 1) levels)
      (memberText (.mk name document) ++ (membersTail items ++ '}' :: rest))
      (document.depth < levels)
      (fun read => eraseMembers [read] = eraseMembers [.mk name document])
      (membersTail items ++ '}' :: rest) := by
    unfold member
    rw [memberText, List.append_assoc, List.cons_append]
    refine .after (reads_string name _) (.after (reads_skipSpace (stops_cons (by decide) _)) ?_)
    refine .after (reads_peek _) (.after (reads_skip _ _) (h.map fun read hread => ?_))
    simp only [eraseMembers, hread]
  refine Meets.congr (hmember.bind fun first hfirst => hitems.map fun others hothers => ?_) ?_
  · obtain ⟨firstName, firstValue⟩ := first
    simp only [eraseMembers, List.cons.injEq, and_true] at hfirst ⊢
    exact ⟨hfirst, hothers⟩
  · rw [depthMembers]
    omega

theorem meets_members_nil (hlevels : 0 < levels) : MembersMeet (fuel + 1) levels [] rest := by
  unfold MembersMeet members
  refine .after (reads_skipSpace (stops_cons (by decide) _)) (.after (reads_peek _) ?_)
  exact .of_reads ((reads_skip _ _).bind (reads_pure _ _)) hlevels rfl

theorem exists_tail_memberText (item : JsonMember) :
    ∃ tail, memberText item = '"' :: tail := by
  obtain ⟨name, document⟩ := item
  refine ⟨name.toList.flatMap JsonDocument.escape ++ ['"'] ++ ':' :: document.render.toList, ?_⟩
  simp [memberText, renderString]

theorem meets_members_cons {name : String} {document : JsonDocument} {items : List JsonMember}
    (h : ValueMeets fuel levels document (membersTail items ++ '}' :: rest))
    (hitems : MembersMeet (fuel + 1) levels items rest) :
    MembersMeet (fuel + 2) levels (.mk name document :: items) rest := by
  have htext : membersTail (.mk name document :: items) ++ '}' :: rest =
      ',' :: (memberText (.mk name document) ++ (membersTail items ++ '}' :: rest)) := by
    simp [membersTail]
  have hcons := meets_cons_members name h hitems
  unfold MembersMeet members
  rw [htext]
  refine .after (reads_skipSpace (stops_cons (by decide) _)) (.after (reads_peek _) ?_)
  obtain ⟨text, hquote⟩ := exists_tail_memberText (.mk name document)
  rw [hquote, List.cons_append] at hcons ⊢
  refine .after (reads_skip _ _) (.after (reads_skipSpace (stops_cons (by decide) _)) ?_)
  exact .after (reads_peek _) hcons

theorem meets_firstMembers_nil (hlevels : 0 < levels) :
    FirstMembersMeet (fuel + 1) levels [] rest := by
  unfold FirstMembersMeet members
  refine .after (reads_skipSpace (stops_cons (by decide) _)) (.after (reads_peek _) ?_)
  exact .of_reads ((reads_skip _ _).bind (reads_pure _ _)) hlevels rfl

theorem meets_firstMembers_cons {name : String} {document : JsonDocument}
    {items : List JsonMember}
    (h : ValueMeets fuel levels document (membersTail items ++ '}' :: rest))
    (hitems : MembersMeet (fuel + 1) levels items rest) :
    FirstMembersMeet (fuel + 2) levels (.mk name document :: items) rest := by
  have hcons := meets_cons_members name h hitems
  unfold FirstMembersMeet members
  rw [toList_intercalate_renderMembers, List.append_assoc]
  obtain ⟨text, hquote⟩ := exists_tail_memberText (.mk name document)
  rw [hquote, List.cons_append] at hcons ⊢
  refine .after (reads_skipSpace (stops_cons (by decide) _)) (.after (reads_peek _) ?_)
  exact hcons

/-! ### Documents -/

theorem stops_elementsTail (items : List JsonDocument) (rest : List Char) :
    Stops isNumberPart (elementsTail items ++ ']' :: rest) := by
  cases items with
  | nil => exact stops_cons (by decide) _
  | cons head tail => exact stops_cons (by decide) _

theorem stops_membersTail (items : List JsonMember) (rest : List Char) :
    Stops isNumberPart (membersTail items ++ '}' :: rest) := by
  cases items with
  | nil => exact stops_cons (by decide) _
  | cons head tail => exact stops_cons (by decide) _

theorem length_render_array (items : List JsonDocument) :
    (render (.array items)).toList.length =
      (",".intercalate (renderElements items)).toList.length + 2 := by
  have h := congrArg List.length (toList_render_array items [])
  rwa [List.append_nil, List.length_cons, List.length_append] at h

theorem length_render_object (items : List JsonMember) :
    (render (.object items)).toList.length =
      (",".intercalate (renderMembers items)).toList.length + 2 := by
  have h := congrArg List.length (toList_render_object items [])
  rwa [List.append_nil, List.length_cons, List.length_append] at h

theorem length_elementsTail_cons (head : JsonDocument) (items : List JsonDocument) :
    (elementsTail (head :: items)).length =
      head.render.toList.length + (elementsTail items).length + 1 := by
  rw [elementsTail, List.flatMap_cons, List.length_append, List.length_cons, elementsTail]
  omega

theorem length_membersTail_cons (name : String) (document : JsonDocument)
    (items : List JsonMember) :
    document.render.toList.length + (membersTail items).length + 2 ≤
      (membersTail (.mk name document :: items)).length := by
  simp only [membersTail, List.flatMap_cons, List.length_append, List.length_cons, memberText]
  omega

mutual

/-- The reader gets a document back from its text, or finds it too deep. -/
theorem meets_value : (document : JsonDocument) → {fuel levels : Nat} → {rest : List Char} →
    document.AllNumbers ReadsBack → 2 * document.render.toList.length + 1 ≤ fuel → 0 < levels →
    Stops isNumberPart rest → ValueMeets fuel levels document rest
  | .null, fuel, levels, rest, _, hfuel, hlevels, _ => by
      obtain ⟨fuel, rfl⟩ : ∃ fewer, fuel = fewer + 1 := ⟨fuel - 1, by omega⟩
      exact .of_reads (reads_value_null fuel levels rest) hlevels rfl
  | .boolean truth, fuel, levels, rest, _, hfuel, hlevels, _ => by
      obtain ⟨fuel, rfl⟩ : ∃ fewer, fuel = fewer + 1 := ⟨fuel - 1, by omega⟩
      exact .of_reads (reads_value_boolean fuel levels truth rest) hlevels rfl
  | .number number, fuel, levels, rest, hnumber, hfuel, hlevels, hrest => by
      obtain ⟨fuel, rfl⟩ : ∃ fewer, fuel = fewer + 1 := ⟨fuel - 1, by omega⟩
      obtain ⟨read, hread, herase⟩ := ReadsBack.reads hnumber fuel levels rest hrest
      exact .of_reads hread hlevels (congrArg JsonDocument.number herase)
  | .string text, fuel, levels, rest, _, hfuel, hlevels, _ => by
      obtain ⟨fuel, rfl⟩ : ∃ fewer, fuel = fewer + 1 := ⟨fuel - 1, by omega⟩
      exact .of_reads (reads_value_string fuel levels text rest) hlevels rfl
  | .array [], fuel, levels, rest, hnumbers, hfuel, hlevels, _ => by
      rw [length_render_array] at hfuel
      obtain ⟨fuel, rfl⟩ : ∃ fewer, fuel = fewer + 2 := ⟨fuel - 2, by omega⟩
      match levels with
      | 1 => exact meets_value_array_one _ _ rest
      | levels + 2 => exact meets_value_array (meets_firstElements_nil (Nat.succ_pos levels))
  | .array (head :: items), fuel, levels, rest, hnumbers, hfuel, hlevels, _ => by
      rw [length_render_array, toList_intercalate_renderElements, List.length_append] at hfuel
      obtain ⟨fuel, rfl⟩ : ∃ fewer, fuel = fewer + 2 := ⟨fuel - 2, by omega⟩
      match levels with
      | 1 => exact meets_value_array_one _ _ rest
      | levels + 2 =>
          exact meets_value_array (meets_firstElements_cons hnumbers.1
            (meets_value head hnumbers.1 (by omega) (Nat.succ_pos levels)
              (stops_elementsTail items rest))
            (meets_elements items hnumbers.2 (by omega) (Nat.succ_pos levels)))
  | .object [], fuel, levels, rest, hnumbers, hfuel, hlevels, _ => by
      rw [length_render_object] at hfuel
      obtain ⟨fuel, rfl⟩ : ∃ fewer, fuel = fewer + 2 := ⟨fuel - 2, by omega⟩
      match levels with
      | 1 => exact meets_value_object_one _ _ rest
      | levels + 2 => exact meets_value_object (meets_firstMembers_nil (Nat.succ_pos levels))
  | .object (.mk name document :: items), fuel, levels, rest, hnumbers, hfuel, hlevels, _ => by
      rw [length_render_object, toList_intercalate_renderMembers, List.length_append, memberText,
        List.length_append, List.length_cons] at hfuel
      obtain ⟨fuel, rfl⟩ : ∃ fewer, fuel = fewer + 3 := ⟨fuel - 3, by omega⟩
      match levels with
      | 1 => exact meets_value_object_one _ _ rest
      | levels + 2 =>
          exact meets_value_object (meets_firstMembers_cons
            (meets_value document hnumbers.1 (by omega) (Nat.succ_pos levels)
              (stops_membersTail items rest))
            (meets_members items hnumbers.2 (by omega) (Nat.succ_pos levels)))

theorem meets_elements : (items : List JsonDocument) → {fuel levels : Nat} → {rest : List Char} →
    AllElements ReadsBack items → 2 * (elementsTail items).length + 1 ≤ fuel → 0 < levels →
    ElementsMeet fuel levels items rest
  | [], fuel, levels, rest, _, hfuel, hlevels => by
      obtain ⟨fuel, rfl⟩ : ∃ fewer, fuel = fewer + 1 := ⟨fuel - 1, by omega⟩
      exact meets_elements_nil hlevels
  | head :: items, fuel, levels, rest, hnumbers, hfuel, hlevels => by
      rw [length_elementsTail_cons] at hfuel
      obtain ⟨fuel, rfl⟩ : ∃ fewer, fuel = fewer + 1 := ⟨fuel - 1, by omega⟩
      exact meets_elements_cons hnumbers.1
        (meets_value head hnumbers.1 (by omega) hlevels (stops_elementsTail items rest))
        (meets_elements items hnumbers.2 (by omega) hlevels)

theorem meets_members : (items : List JsonMember) → {fuel levels : Nat} → {rest : List Char} →
    AllMembers ReadsBack items → 2 * (membersTail items).length + 1 ≤ fuel → 0 < levels →
    MembersMeet fuel levels items rest
  | [], fuel, levels, rest, _, hfuel, hlevels => by
      obtain ⟨fuel, rfl⟩ : ∃ fewer, fuel = fewer + 1 := ⟨fuel - 1, by omega⟩
      exact meets_members_nil hlevels
  | .mk name document :: items, fuel, levels, rest, hnumbers, hfuel, hlevels => by
      have hlength := length_membersTail_cons name document items
      obtain ⟨fuel, rfl⟩ : ∃ fewer, fuel = fewer + 2 := ⟨fuel - 2, by omega⟩
      exact meets_members_cons
        (meets_value document hnumbers.1 (by omega) hlevels (stops_membersTail items rest))
        (meets_members items hnumbers.2 (by omega) hlevels)

end

/-- The whole text of a document is read as it, unless it is too deep. -/
theorem meets_document {document : JsonDocument} (h : document.AllNumbers ReadsBack) :
    Meets (JsonReader.document (2 * document.render.length + 2)) document.render.toList
      (document.depth < nestingLimit) (fun read => read.eraseReals = document.eraseReals) [] := by
  have hvalue : ValueMeets (2 * document.render.length + 2) nestingLimit document [] :=
    meets_value document h (by rw [String.length_toList]; omega) (by decide) (by simp [Stops])
  unfold ValueMeets at hvalue
  rw [List.append_nil] at hvalue
  refine (hvalue.bind fun read hread => show Meets _ _ True _ _ from ?_).congr (and_iff_left trivial)
  refine .after (reads_skipSpace (by simp [Stops])) (.after (reads_peek _) ?_)
  exact .of_reads (reads_pure read []) trivial hread

end JsonReader

open JsonReader

/-- Reading the text of a document succeeds up to the limit, with the same document but for reals. -/
theorem JsonDocument.parse_render {document : JsonDocument} (h : document.AllNumbers ReadsBack)
    (hdepth : document.depth < nestingLimit) :
    ∃ read, parse document.render = .ok read ∧ read.eraseReals = document.eraseReals := by
  obtain ⟨read, hread, herase⟩ := (meets_document h).reads hdepth
  obtain ⟨after, hafter⟩ := hread 0
  refine ⟨read, ?_, herase⟩
  rw [parse, hafter]

theorem JsonDocument.parse_render_of_deep {document : JsonDocument}
    (h : document.AllNumbers ReadsBack) (hdepth : nestingLimit ≤ document.depth) :
    ∃ place, parse document.render = .error ⟨.nestingLimit, place⟩ := by
  obtain ⟨place, after, hafter⟩ := (meets_document h).refuses (Nat.not_lt.mpr hdepth) 0
  refine ⟨place, ?_⟩
  rw [parse, hafter]

end ScriptEngine
