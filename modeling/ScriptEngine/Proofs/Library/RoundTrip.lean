import ScriptEngine.Library.JsonText
import ScriptEngine.Proofs.Library.Effects
import ScriptEngine.Proofs.Library.Encoding
import ScriptEngine.Proofs.Number.Integers
import ScriptEngine.Proofs.Value.Entries

/-!
# Values that come back from JSON

A value that is written as JSON and read again comes back with its structure, as long as it has
nothing that JSON cannot say: no functions, no fractions, no keys but strings, and no more containers
around each other than the reader opens. The induction is on the levels of containers that are left.
What it carries is that the document of a value, decoded into whatever heap, gives a value of the same
structure, since the containers of its parts are made one after another.
-/

namespace ScriptEngine

/-! ### Documents without reals -/

def JsonNumber.IsSmallInteger : JsonNumber → Prop
  | integer value => value.natAbs ≤ 2 ^ 53
  | real _ => False

namespace JsonDocument

/-- An integer is never erased. -/
theorem eq_of_eraseReal_eq {number read : JsonNumber} (h : number.IsSmallInteger)
    (hread : read.eraseReal = number.eraseReal) : read = number := by
  cases number with
  | integer value =>
      cases read with
      | integer other => exact hread
      | real other => exact nomatch hread
  | real value => exact absurd h nofun

mutual

/-- A document without reals is what it was read as. -/
theorem eq_of_eraseReals_eq : (document : JsonDocument) →
    document.AllNumbers JsonNumber.IsSmallInteger → ∀ read : JsonDocument,
    read.eraseReals = document.eraseReals → read = document
  | .null, _, read, hread => by cases read <;> first | rfl | exact nomatch hread
  | .boolean _, _, read, hread => by cases read <;> first | exact hread | exact nomatch hread
  | .string _, _, read, hread => by cases read <;> first | exact hread | exact nomatch hread
  | .number _, h, read, hread => by
      cases read with
      | number other =>
          simp only [eraseReals, JsonDocument.number.injEq] at hread
          rw [eq_of_eraseReal_eq h hread]
      | _ => exact nomatch hread
  | .array elements, h, read, hread => by
      cases read with
      | array others =>
          simp only [eraseReals, JsonDocument.array.injEq] at hread
          rw [eq_of_eraseElements_eq elements h others hread]
      | _ => exact nomatch hread
  | .object members, h, read, hread => by
      cases read with
      | object others =>
          simp only [eraseReals, JsonDocument.object.injEq] at hread
          rw [eq_of_eraseMembers_eq members h others hread]
      | _ => exact nomatch hread

theorem eq_of_eraseElements_eq : (elements : List JsonDocument) →
    AllElements JsonNumber.IsSmallInteger elements → ∀ others : List JsonDocument,
    eraseElements others = eraseElements elements → others = elements
  | [], _, others, hothers => by cases others <;> first | rfl | exact nomatch hothers
  | head :: rest, h, others, hothers => by
      cases others with
      | nil => exact nomatch hothers
      | cons other others =>
          simp only [eraseElements, List.cons.injEq] at hothers
          rw [eq_of_eraseReals_eq head h.1 other hothers.1,
            eq_of_eraseElements_eq rest h.2 others hothers.2]

theorem eq_of_eraseMembers_eq : (members : List JsonMember) →
    AllMembers JsonNumber.IsSmallInteger members → ∀ others : List JsonMember,
    eraseMembers others = eraseMembers members → others = members
  | [], _, others, hothers => by
      cases others with
      | nil => rfl
      | cons other others =>
          obtain ⟨otherName, otherValue⟩ := other
          exact nomatch hothers
  | .mk name value :: rest, h, others, hothers => by
      cases others with
      | nil => exact nomatch hothers
      | cons other others =>
          obtain ⟨otherName, otherValue⟩ := other
          simp only [eraseMembers, List.cons.injEq, JsonMember.mk.injEq] at hothers
          obtain ⟨⟨rfl, hvalue⟩, hrest⟩ := hothers
          rw [eq_of_eraseReals_eq value h.1 otherValue hvalue,
            eq_of_eraseMembers_eq rest h.2 others hrest]

end

end JsonDocument

namespace Heap

/-! ### Values of the same structure -/

/-- A value of a heap and one of another have the same structure: equal scalars, arrays of the same
length with such values in the same places, hashes with the same keys and such values under them. The
containers of the second one are there. -/
inductive Alike (first second : Heap) : Value → Value → Prop
  | nil : Alike first second .nil .nil
  | boolean (truth : Bool) : Alike first second (.boolean truth) (.boolean truth)
  | number {left right : Number} (h : left == right) :
      Alike first second (.number left) (.number right)
  | string (text : String) : Alike first second (.string text) (.string text)
  | array {left right : ArrayRef} (hcell : right.index < second.arrays.size)
      (hsize : (first.items left).size = (second.items right).size)
      (hitems : ∀ (place : Nat) (item other : Value), (first.items left)[place]? = some item →
        (second.items right)[place]? = some other → Alike first second item other) :
      Alike first second (.array left) (.array right)
  | hash {left right : HashRef} (hcell : right.index < second.hashes.size)
      (hkeys : ∀ key, (first.table left).contains key = (second.table right).contains key)
      (hvalues : ∀ key value other, (first.table left).find? key = some value →
        (second.table right).find? key = some other → Alike first second value other) :
      Alike first second (.hash left) (.hash right)

namespace Allocates

variable {before after : Heap}

theorem arrays_le (h : before.Allocates after) : before.arrays.size ≤ after.arrays.size :=
  (h.grows : before.Grows (fun _ => True) after).arrays

theorem hashes_le (h : before.Allocates after) : before.hashes.size ≤ after.hashes.size :=
  (h.grows : before.Grows (fun _ => True) after).hashes

theorem items_eq (h : before.Allocates after) {ref : ArrayRef}
    (hcell : ref.index < before.arrays.size) : after.items ref = before.items ref := by
  induction h with
  | refl => rfl
  | newArray items h ih =>
      rw [items_newArray_of_lt _ items (Nat.lt_of_lt_of_le hcell h.arrays_le), ih]
  | newHash table _ ih => exact ih
  | newFunction callable _ ih => exact ih

theorem table_eq (h : before.Allocates after) {ref : HashRef}
    (hcell : ref.index < before.hashes.size) : after.table ref = before.table ref := by
  induction h with
  | refl => rfl
  | newArray items _ ih => exact ih
  | newHash table h ih =>
      rw [table_newHash_of_lt _ table (Nat.lt_of_lt_of_le hcell h.hashes_le), ih]
  | newFunction callable _ ih => exact ih

end Allocates

/-- New containers leave the structure of the old ones alone. -/
theorem Alike.later {first second third : Heap} {value other : Value}
    (h : Alike first second value other) (hlater : second.Allocates third) :
    Alike first third value other := by
  induction h with
  | nil => exact .nil
  | boolean truth => exact .boolean truth
  | number h => exact .number h
  | string text => exact .string text
  | array hcell hsize _ ih =>
      have hsame := hlater.items_eq hcell
      refine .array (Nat.lt_of_lt_of_le hcell hlater.arrays_le) (by rw [hsame, hsize]) ?_
      intro place item other hitem hother
      rw [hsame] at hother
      exact ih place item other hitem hother
  | hash hcell hkeys _ ih =>
      have hsame := hlater.table_eq hcell
      refine .hash (Nat.lt_of_lt_of_le hcell hlater.hashes_le) (by rw [hsame]; exact hkeys) ?_
      intro key value other hvalue hother
      rw [hsame] at hother
      exact ih key value other hvalue hother

/-- A value that JSON can carry, at most `levels` containers deep: integers of at most 53 bits, and
hashes with strings for keys only. -/
def IsPortable (heap : Heap) : Nat → Value → Prop
  | _, .nil => True
  | _, .boolean _ => True
  | _, .number value => ∃ integer, integerOf? value = some integer ∧ integer.natAbs ≤ 2 ^ 53
  | _, .string _ => True
  | levels + 1, .array ref => ∀ item ∈ (heap.items ref).toList, IsPortable heap levels item
  | levels + 1, .hash ref => ∀ entry ∈ (heap.table ref).entries,
    (∃ name, entry.1 = .string name) ∧ IsPortable heap levels entry.2
  | _, _ => False

theorem isPortable_number {heap : Heap} {levels : Nat} {value : Number}
    (h : heap.IsPortable levels (.number value)) :
    ∃ integer, integerOf? value = some integer ∧ integer.natAbs ≤ 2 ^ 53 := by
  cases levels <;> exact h

end Heap

/-! ### Members in order -/

/-- A member with a greater name than all the others comes last. -/
theorem JsonMember.insertInto_of_forall_lt {member : JsonMember} {members : List JsonMember}
    (h : ∀ other ∈ members, compare other.name member.name = .lt) :
    member.insertInto members = members ++ [member] := by
  induction members with
  | nil => rfl
  | cons head rest ih =>
      have hhead : compare member.name head.name = .gt :=
        Std.OrientedCmp.gt_of_lt (h head List.mem_cons_self)
      rw [insertInto, hhead]
      simp only [List.cons_append, List.cons.injEq, true_and]
      apply ih
      intro other hother
      exact h other (List.mem_cons_of_mem _ hother)

theorem JsonMember.foldl_insertInto {members sorted : List JsonMember}
    (h : (sorted ++ members).Pairwise fun member later => compare member.name later.name = .lt) :
    members.foldl (fun sorted member => member.insertInto sorted) sorted = sorted ++ members := by
  induction members generalizing sorted with
  | nil => simp
  | cons head rest ih =>
      have hhead : head.insertInto sorted = sorted ++ [head] := by
        apply insertInto_of_forall_lt
        intro other hother
        exact (List.pairwise_append.mp h).2.2 other hother head List.mem_cons_self
      rw [List.foldl_cons, hhead, ih]
      · simp
      · simpa using h

/-- Members with different names may be put in one before the other. -/
theorem JsonMember.insertInto_comm_of_lt {first second : JsonMember}
    (h : compare first.name second.name = .lt) (members : List JsonMember) :
    second.insertInto (first.insertInto members) =
      first.insertInto (second.insertInto members) := by
  have hgt : compare second.name first.name = .gt := Std.OrientedCmp.gt_of_lt h
  induction members with
  | nil => simp only [insertInto, h, hgt]
  | cons head rest ih =>
      cases hsecond : compare second.name head.name with
      | lt =>
          have hfirst : compare first.name head.name = .lt := Std.TransCmp.lt_trans h hsecond
          simp only [insertInto, hfirst, hsecond, h, hgt]
      | eq =>
          have hname : second.name = head.name := Std.LawfulEqCmp.eq_of_compare hsecond
          have hfirst : compare first.name head.name = .lt := hname ▸ h
          simp only [insertInto, hfirst, hsecond, h, hgt]
      | gt =>
          cases hfirst : compare first.name head.name <;>
            simp only [insertInto, hfirst, hsecond, hgt, ih]

/-- Members of different names come out sorted, in whatever order they are put in. -/
theorem JsonMember.foldl_insertInto_of_perm {members sorted : List JsonMember}
    (h : members.Perm sorted)
    (hsorted : sorted.Pairwise fun member later => compare member.name later.name = .lt) :
    members.foldl (fun sorted member => member.insertInto sorted) [] = sorted := by
  let Commute (first second : JsonMember) : Prop := ∀ target : List JsonMember,
    second.insertInto (first.insertInto target) = first.insertInto (second.insertInto target)
  have hsymm : Std.Symm Commute := ⟨fun _ _ hcomm target => (hcomm target).symm⟩
  have hall : ∀ first ∈ sorted, ∀ second ∈ sorted, Commute first second :=
    List.Pairwise.forall_of_forall (fun _ _ _ => rfl) (hsorted.imp insertInto_comm_of_lt)
  have hcomm : ∀ first ∈ members, ∀ second ∈ members, Commute first second :=
    fun first hfirst second hsecond =>
      hall first (h.mem_iff.mp hfirst) second (h.mem_iff.mp hsecond)
  calc members.foldl (fun sorted member => member.insertInto sorted) []
    _ = sorted.foldl (fun sorted member => member.insertInto sorted) [] := h.foldl_eq' hcomm []
    _ = sorted := foldl_insertInto hsorted

theorem isSome_eq_of_rel {α β : Type} {related : α → β → Prop} {left : Option α} {right : Option β}
    (h : Option.Rel related left right) : left.isSome = right.isSome := by
  cases h <;> rfl

namespace JsonCodec

open JsonDocument

variable {order : EntryOrder} {heap : Heap}

theorem mapM_eq_ok {α β ε : Type} {transform : α → Except ε β} {items : List α} {results : List β}
    (h : List.Forall₂ (fun item result => transform item = .ok result) items results) :
    items.mapM transform = .ok results := by
  induction h with
  | nil => rfl
  | cons hhead _ ih =>
      rw [List.mapM_cons, hhead, ih]
      rfl

/-- Where each item has a result, so has the list. -/
theorem exists_mapM_ok {α β ε : Type} {transform : α → Except ε β} {holds : α → β → Prop}
    {items : List α} (h : ∀ item ∈ items, ∃ result, transform item = .ok result ∧ holds item result) :
    ∃ results, items.mapM transform = .ok results ∧ List.Forall₂ holds items results := by
  induction items with
  | nil => exact ⟨[], rfl, .nil⟩
  | cons head rest ih =>
      obtain ⟨result, hresult, hholds⟩ := h head List.mem_cons_self
      obtain ⟨results, hresults, hall⟩ := ih fun item hitem => h item (List.mem_cons_of_mem _ hitem)
      refine ⟨result :: results, ?_, .cons hholds hall⟩
      rw [List.mapM_cons, hresult, hresults]
      rfl

/-- The document of a value: what is decoded from it has the structure of the value, whatever the
heap is into which it is decoded. -/
structure Carries (heap : Heap) (levels : Nat) (value : Value) (document : JsonDocument) : Prop where
  depth_le : document.depth ≤ levels
  numbers : document.AllNumbers JsonNumber.IsSmallInteger
  alike (other : Heap) : heap.Alike (decode other document).2 value (decode other document).1

theorem alike_decodeElements {levels : Nat} {items : List Value} {elements : List JsonDocument}
    (h : List.Forall₂ (Carries heap levels) items elements) (other : Heap) :
    List.Forall₂ (heap.Alike (decodeElements other elements).2) items
      (decodeElements other elements).1 := by
  induction h generalizing other with
  | nil =>
      rw [decodeElements]
      exact .nil
  | @cons item element items elements hhead _ ih =>
      rw [decodeElements]
      refine .cons ?_ (ih _)
      exact (hhead.alike other).later (allocates_decodeElements _ elements)

/-- An entry under a string and the member that it is written as. -/
structure CarriesEntry (heap : Heap) (levels : Nat) (entry : Key × Value) (member : JsonMember) :
    Prop where
  name : entry.1 = .string member.name
  value : Carries heap levels entry.2 member.value

theorem alike_decodeMembers {levels : Nat} {entries : List (Key × Value)} {members : List JsonMember}
    (h : List.Forall₂ (CarriesEntry heap levels) entries members) (other : Heap) :
    List.Forall₂ (fun entry pair =>
        entry.1 = pair.1 ∧ heap.Alike (decodeMembers other members).2 entry.2 pair.2)
      entries (decodeMembers other members).1 := by
  induction h generalizing other with
  | nil =>
      rw [decodeMembers]
      exact .nil
  | @cons entry member entries members hhead _ ih =>
      obtain ⟨name, document⟩ := member
      rw [decodeMembers]
      refine .cons ⟨hhead.name, ?_⟩ (ih _)
      exact (hhead.value.alike other).later (allocates_decodeMembers _ members)

theorem carries_array {levels : Nat} {ref : ArrayRef} {elements : List JsonDocument}
    (h : List.Forall₂ (Carries heap levels) (heap.items ref).toList elements) :
    Carries heap (levels + 1) (.array ref) (.array elements) where
  depth_le := by
    apply Nat.succ_le_succ
    rw [depthElements_le_iff]
    intro element helement
    obtain ⟨item, -, hcarries⟩ := exists_of_mem_right h helement
    exact hcarries.depth_le
  numbers := by
    rw [JsonDocument.AllNumbers, allElements_iff]
    intro element helement
    obtain ⟨item, -, hcarries⟩ := exists_of_mem_right h helement
    exact hcarries.numbers
  alike := by
    intro other
    have hall := alike_decodeElements h other
    have hnew := (Heap.Allocates.refl (decodeElements other elements).2).newArray
      (decodeElements other elements).1.toArray
    have hlater := hall.imp fun item copy hcopy => hcopy.later hnew
    rw [decode]
    refine .array (by simp [Heap.newArray]) ?_ ?_
    · simpa [Heap.newArray, Heap.items] using hall.length_eq
    · intro place item copy hitem hcopy
      have hleft : (heap.items ref).toList[place]? = some item := by simpa using hitem
      have hright : (decodeElements other elements).1[place]? = some copy := by
        simpa [Heap.newArray, Heap.items] using hcopy
      exact rel_getElem? hlater hleft hright

theorem carries_object {levels : Nat} {ref : HashRef} {members : List JsonMember}
    (h : List.Forall₂ (CarriesEntry heap levels) (heap.table ref).entries members) :
    Carries heap (levels + 1) (.hash ref) (.object members) where
  depth_le := by
    apply Nat.succ_le_succ
    rw [depthMembers_le_iff]
    intro member hmember
    obtain ⟨entry, -, hcarries⟩ := exists_of_mem_right h hmember
    exact hcarries.value.depth_le
  numbers := by
    rw [JsonDocument.AllNumbers, allMembers_iff]
    intro member hmember
    obtain ⟨entry, -, hcarries⟩ := exists_of_mem_right h hmember
    exact hcarries.value.numbers
  alike := by
    intro other
    have hall := alike_decodeMembers h other
    have hnew := (Heap.Allocates.refl (decodeMembers other members).2).newHash
      (.ofList (decodeMembers other members).1)
    have hlater := hall.imp fun entry pair hpair => And.intro hpair.1 (hpair.2.later hnew)
    have hkeys : (heap.table ref).entries.map Prod.fst = (decodeMembers other members).1.map Prod.fst :=
      map_eq_map_of_forall₂ hall fun entry _ pair hpair => hpair.1
    have hascending : Table.Ascending (decodeMembers other members).1 :=
      Table.ascending_of_keys hkeys (heap.table ref).ascending
    have hfound (key : Key) : Option.Rel _ ((heap.table ref).find? key)
        ((decodeMembers other members).1.lookup key) := Table.rel_lookup_of_forall₂ hlater key
    have hcopy (key : Key) : (((decodeMembers other members).2.newHash
        (.ofList (decodeMembers other members).1)).2.table
        ⟨(decodeMembers other members).2.hashes.size⟩).find? key =
          (decodeMembers other members).1.lookup key := by
      rw [← Table.find?_ofList_of_ascending hascending]
      simp [Heap.newHash, Heap.table]
    rw [decode]
    refine .hash (by simp [Heap.newHash]) ?_ ?_
    · intro key
      rw [Table.contains, Table.contains, hcopy]
      exact isSome_eq_of_rel (hfound key)
    · intro key value copy hvalue hother
      rw [hcopy] at hother
      have hrel := hfound key
      rw [hvalue, hother] at hrel
      cases hrel
      assumption

/-- The names of members that were written in the order of their keys ascend. -/
theorem pairwise_names {levels : Nat} {entries : List (Key × Value)} {members : List JsonMember}
    (h : List.Forall₂ (CarriesEntry heap levels) entries members)
    (hascending : Table.Ascending entries) :
    members.Pairwise fun member later => compare member.name later.name = .lt := by
  have hkeys : entries.map Prod.fst = members.map fun member => Key.string member.name :=
    map_eq_map_of_forall₂ h fun entry _ member hcarries => hcarries.name
  have hpairwise : (entries.map Prod.fst).Pairwise fun key later => Key.compare key later = .lt :=
    List.pairwise_map.mpr hascending
  rw [hkeys] at hpairwise
  exact List.pairwise_map.mp hpairwise

theorem encodeNumber_of_small {number : Number} {integer : Int}
    (h : integerOf? number = some integer) (hsmall : integer.natAbs ≤ 2 ^ 53) :
    encodeNumber number = .ok (.number (.integer integer)) := by
  have hgreatest : greatestExactInteger = 2 ^ 53 := rfl
  unfold encodeNumber
  simp only [h]
  rw [if_pos (by omega)]

/-- An array is encoded if its items are. -/
theorem exists_encode_array {levels more : Nat} {ref : ArrayRef}
    (h : ∀ item ∈ (heap.items ref).toList, ∃ document,
      encode order heap more item = .ok document ∧ Carries heap levels item document) :
    ∃ document, encode order heap (more + 1) (.array ref) = .ok document ∧
      Carries heap (levels + 1) (.array ref) document := by
  obtain ⟨elements, helements, hall⟩ := exists_mapM_ok h
  refine ⟨.array elements, ?_, carries_array hall⟩
  rw [encode, helements]
  rfl

/-- A hash is encoded if it has strings for keys and its values are encoded. Its members come as the
hash stores them, and are sorted into the order of the keys. -/
theorem exists_encode_hash {levels more : Nat} {ref : HashRef}
    (h : ∀ entry ∈ (heap.table ref).entries, (∃ name, entry.1 = .string name) ∧ ∃ document,
      encode order heap more entry.2 = .ok document ∧ Carries heap levels entry.2 document) :
    ∃ document, encode order heap (more + 1) (.hash ref) = .ok document ∧
      Carries heap (levels + 1) (.hash ref) document := by
  let encodeEntry (entry : Key × Value) : Except RuntimeError JsonMember := do
    return JsonMember.mk entry.1.print (← encode order heap more entry.2)
  have hentries : ∀ entry ∈ (heap.table ref).entries, ∃ member,
      encodeEntry entry = .ok member ∧
        (encodeEntry entry = .ok member ∧ CarriesEntry heap levels entry member) := by
    intro entry hentry
    obtain ⟨⟨name, hname⟩, document, hdocument, hcarries⟩ := h entry hentry
    have hmember : encodeEntry entry = .ok (.mk name document) := by
      simp only [encodeEntry, hdocument, hname]
      rfl
    exact ⟨.mk name document, hmember, hmember, hname, hcarries⟩
  obtain ⟨sorted, -, hall⟩ := exists_mapM_ok hentries
  obtain ⟨members, hmembers, hperm⟩ := List.perm_comp_forall₂ (order.perm ref _) hall
  have hstored : (heap.storedEntries order ref).mapM encodeEntry = .ok members :=
    mapM_eq_ok (hmembers.imp fun _ _ hmember => hmember.1)
  have hcarries : List.Forall₂ (CarriesEntry heap levels) (heap.table ref).entries sorted :=
    hall.imp fun _ _ hmember => hmember.2
  have hsorted := JsonMember.foldl_insertInto_of_perm hperm
    (pairwise_names hcarries (heap.table ref).ascending)
  refine ⟨.object sorted, ?_, carries_object hcarries⟩
  rw [encode, hstored]
  exact congrArg (fun members => Except.ok (JsonDocument.object members)) hsorted

/-- A value that JSON can carry is encoded, and its document carries it. -/
theorem exists_encode {levels more : Nat} {value : Value} (h : heap.IsPortable levels value)
    (hmore : levels < more) :
    ∃ document, encode order heap more value = .ok document ∧
      Carries heap levels value document := by
  induction more generalizing levels value with
  | zero => exact absurd hmore (Nat.not_lt_zero levels)
  | succ more ih =>
      cases value with
      | nil => exact ⟨.null, rfl, Nat.zero_le _, trivial, fun other => .nil⟩
      | boolean truth =>
          exact ⟨.boolean truth, rfl, Nat.zero_le _, trivial, fun other => .boolean truth⟩
      | string text => exact ⟨.string text, rfl, Nat.zero_le _, trivial, fun other => .string text⟩
      | number number =>
          obtain ⟨integer, hinteger, hsmall⟩ := Heap.isPortable_number h
          refine ⟨.number (.integer integer), ?_, Nat.zero_le _, hsmall, fun other => ?_⟩
          · rw [encode, encodeNumber_of_small hinteger hsmall]
          · rw [decode]
            exact .number (Rounding.beq_ofInt hinteger hsmall)
      | array ref =>
          cases levels with
          | zero => exact False.elim h
          | succ levels =>
              have hless := Nat.lt_of_succ_lt_succ hmore
              exact exists_encode_array fun item hitem => ih (h item hitem) hless
      | hash ref =>
          cases levels with
          | zero => exact False.elim h
          | succ levels =>
              have hless := Nat.lt_of_succ_lt_succ hmore
              exact exists_encode_hash fun entry hentry =>
                (h entry hentry).imp_right fun hvalue => ih hvalue hless
      | function ref => cases levels <;> exact False.elim h

end JsonCodec

/-- **What JSON carries comes back.** A value of `nil`, booleans, integers of magnitude up to
`2 ^ 53`, strings, arrays and hashes with strings for keys, at most 127 containers deep, is written,
in whatever order its hashes store their entries, and its text is read, into any heap, as a value of
the same structure. -/
theorem read_of_write {heap : Heap} {value : Value} (h : heap.IsPortable 127 value) (other : Heap)
    (order : EntryOrder) :
    ∃ text document, JsonOperation.encode.apply [value] order heap = .ok (.value (.string text)) ∧
      JsonOperation.decode.apply [.string text] order other = .ok (.document document) ∧
      heap.Alike (other.realize (.document document)).2 value
        (other.realize (.document document)).1 := by
  have hmore : 127 < JsonCodec.depthLimit + 1 := by decide
  obtain ⟨document, hdocument, hcarries⟩ := JsonCodec.exists_encode h hmore
  have hencoded := JsonCodec.isEncoded_encode hdocument
  have hdepth : document.depth < JsonReader.nestingLimit := Nat.lt_succ_of_le hcarries.depth_le
  obtain ⟨read, hread, herase⟩ := JsonDocument.parse_render hencoded.numbers hdepth
  obtain rfl : read = document :=
    JsonDocument.eq_of_eraseReals_eq document hcarries.numbers read herase
  refine ⟨read.render, read, ?_, ?_, hcarries.alike other⟩
  · have hwrite : JsonText.write order heap value = .ok read.render := by
      rw [JsonText.write, Heap.toJson, hdocument]
      rfl
    simp [JsonOperation.apply, argument, hwrite, bind, Except.bind, pure, Except.pure]
  · have htext : JsonText.read "json.from" read.render = .ok read := by
      rw [JsonText.read, hread]
    simp [JsonOperation.apply, argument, Value.toText, htext, bind, Except.bind, pure, Except.pure]

/-- A hash of an array that holds the integer -2, a text with a quotation mark, and another array. -/
def portableHeap : Heap :=
  ⟨#[#[.number ⟨0xC000000000000000⟩, .string "\"", .array ⟨1⟩], #[]],
    #[Table.empty.insert (.string "list") (.array ⟨0⟩)], #[]⟩

theorem read_of_write_portableHeap :
    portableHeap.IsPortable 127 (.hash ⟨0⟩) ∧
      ∃ text document,
        JsonOperation.encode.apply [.hash ⟨0⟩] .ascending portableHeap =
          .ok (.value (.string text)) ∧
        JsonOperation.decode.apply [.string text] .ascending portableHeap =
          .ok (.document document) ∧
        portableHeap.Alike (portableHeap.realize (.document document)).2 (.hash ⟨0⟩)
          (portableHeap.realize (.document document)).1 := by
  have hnumber : integerOf? ⟨0xC000000000000000⟩ = some (-2) := by decide
  have hinner : portableHeap.IsPortable 125 (.array ⟨1⟩) := by
    intro item hitem
    exact nomatch hitem
  have hlist : portableHeap.IsPortable 126 (.array ⟨0⟩) := by
    intro item hitem
    have hcases : item = .number ⟨0xC000000000000000⟩ ∨ item = .string "\"" ∨
        item = .array ⟨1⟩ := by
      simpa [portableHeap, Heap.items] using hitem
    rcases hcases with rfl | rfl | rfl
    · exact ⟨-2, hnumber, by decide⟩
    · exact trivial
    · exact hinner
  have hportable : portableHeap.IsPortable 127 (.hash ⟨0⟩) := by
    intro entry hentry
    have hentry : entry = (.string "list", .array ⟨0⟩) := by
      simpa [portableHeap, Heap.table, Table.insert, Table.insertEntry, Table.empty] using hentry
    subst hentry
    exact ⟨⟨"list", rfl⟩, hlist⟩
  exact ⟨hportable, read_of_write hportable portableHeap .ascending⟩

end ScriptEngine
