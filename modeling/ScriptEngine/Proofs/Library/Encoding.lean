import ScriptEngine.Library.JsonCodec
import ScriptEngine.Proofs.Json.Decimals

/-!
# What is encoded

The encoder lets through values with up to one more level of containers than its limit says, since a
container without items needs no level for them. All numbers that it lets through are read back.
-/

namespace ScriptEngine

namespace JsonDocument

theorem allElements_iff {holds : JsonNumber → Prop} {elements : List JsonDocument} :
    AllElements holds elements ↔ ∀ element ∈ elements, element.AllNumbers holds := by
  induction elements with
  | nil => simp [AllElements]
  | cons head rest ih => rw [AllElements, ih, List.forall_mem_cons]

theorem allMembers_iff {holds : JsonNumber → Prop} {members : List JsonMember} :
    AllMembers holds members ↔ ∀ member ∈ members, member.value.AllNumbers holds := by
  induction members with
  | nil => simp [AllMembers]
  | cons head rest ih =>
      obtain ⟨name, value⟩ := head
      rw [AllMembers, ih, List.forall_mem_cons]
      rfl

theorem depthElements_le_iff {elements : List JsonDocument} {bound : Nat} :
    depthElements elements ≤ bound ↔ ∀ element ∈ elements, element.depth ≤ bound := by
  induction elements with
  | nil => simp [depthElements]
  | cons head rest ih => rw [depthElements, max_le_iff, ih, List.forall_mem_cons]

theorem depthMembers_le_iff {members : List JsonMember} {bound : Nat} :
    depthMembers members ≤ bound ↔ ∀ member ∈ members, member.value.depth ≤ bound := by
  induction members with
  | nil => simp [depthMembers]
  | cons head rest ih =>
      obtain ⟨name, value⟩ := head
      rw [depthMembers, max_le_iff, ih, List.forall_mem_cons]
      rfl

end JsonDocument

theorem JsonMember.mem_insertInto {member other : JsonMember} {members : List JsonMember}
    (h : other ∈ member.insertInto members) : other = member ∨ other ∈ members := by
  induction members with
  | nil => exact .inl (List.mem_singleton.mp h)
  | cons head rest ih =>
      unfold insertInto at h
      split at h
      · exact List.mem_cons.mp h
      · exact (List.mem_cons.mp h).imp_right (List.mem_cons_of_mem head)
      · rcases List.mem_cons.mp h with rfl | hrest
        · exact .inr List.mem_cons_self
        · exact (ih hrest).imp_right (List.mem_cons_of_mem head)

theorem JsonMember.mem_foldl_insertInto {other : JsonMember} {members sorted : List JsonMember}
    (h : other ∈ members.foldl (fun sorted member => member.insertInto sorted) sorted) :
    other ∈ members ∨ other ∈ sorted := by
  induction members generalizing sorted with
  | nil => exact .inr h
  | cons head rest ih =>
      rcases ih h with hrest | hsorted
      · exact .inl (List.mem_cons_of_mem head hrest)
      · rcases mem_insertInto hsorted with rfl | hother
        · exact .inl List.mem_cons_self
        · exact .inr hother

namespace JsonCodec

open JsonDocument JsonReader

/-- What holds of each result of a function holds of all the results of a list. -/
theorem forall_mem_of_mapM_ok {α β ε : Type} {transform : α → Except ε β} {holds : β → Prop}
    (h : ∀ item result, transform item = .ok result → holds result) {items : List α}
    {results : List β} (hresults : items.mapM transform = .ok results) :
    ∀ result ∈ results, holds result := by
  induction items generalizing results with
  | nil =>
      cases hresults
      simp
  | cons head rest ih =>
      rw [List.mapM_cons] at hresults
      cases hhead : transform head with
      | error error =>
          rw [hhead] at hresults
          cases hresults
      | ok first =>
          cases hrest : rest.mapM transform with
          | error error =>
              rw [hhead, hrest] at hresults
              cases hresults
          | ok others =>
              rw [hhead, hrest] at hresults
              cases hresults
              exact List.forall_mem_cons.mpr ⟨h head first hhead, ih hrest⟩

/-- A document out of the encoder: as deep as the levels allowed, with numbers that are read back. -/
structure IsEncoded (levels : Nat) (document : JsonDocument) : Prop where
  numbers : document.AllNumbers ReadsBack
  depth_le : document.depth ≤ levels

theorem isFinite_of_isIntegral {number : ExactNumber} (h : number.isIntegral) : number.isFinite := by
  cases number with
  | finite negative significand exponent => rfl
  | undefined => exact absurd h Bool.false_ne_true
  | infinite negative => exact absurd h Bool.false_ne_true

theorem isIntegral_of_integerOf? {number : Number} {integer : Int}
    (h : integerOf? number = some integer) : number.exact.isIntegral := by
  unfold integerOf? at h
  split at h
  · assumption
  · cases h

theorem isEncoded_number {number : JsonNumber} (h : ReadsBack number) (levels : Nat) :
    IsEncoded levels (.number number) :=
  ⟨h, Nat.zero_le levels⟩

theorem isEncoded_real {number : Number} (h : number.exact.isFinite) (levels : Nat) :
    IsEncoded levels (.number (.real number.toFloat)) :=
  isEncoded_number (readsBack_real (by rwa [Number.ofFloat_toFloat])) levels

theorem isEncoded_encodeNumber {number : Number} {document : JsonDocument}
    (h : encodeNumber number = .ok document) (levels : Nat) : IsEncoded levels document := by
  unfold encodeNumber at h
  split at h
  · rename_i integer hinteger
    split at h
    · rename_i hexact
      cases h
      have hgreatest : greatestExactInteger = 9007199254740992 := rfl
      exact isEncoded_number (readsBack_integer (by omega)) levels
    · cases h
      have hintegral := isIntegral_of_integerOf? hinteger
      exact isEncoded_real (isFinite_of_isIntegral hintegral) levels
  · split at h
    · rename_i hfinite
      cases h
      exact isEncoded_real hfinite levels
    · cases h

theorem isEncoded_array {levels : Nat} {elements : List JsonDocument}
    (h : ∀ element ∈ elements, IsEncoded levels element) :
    IsEncoded (levels + 1) (.array elements) := by
  refine ⟨allElements_iff.mpr fun element helement => (h element helement).numbers, ?_⟩
  exact Nat.succ_le_succ
    (depthElements_le_iff.mpr fun element helement => (h element helement).depth_le)

theorem isEncoded_object {levels : Nat} {members : List JsonMember}
    (h : ∀ member ∈ members, IsEncoded levels member.value) :
    IsEncoded (levels + 1) (.object members) := by
  refine ⟨allMembers_iff.mpr fun member hmember => (h member hmember).numbers, ?_⟩
  exact Nat.succ_le_succ
    (depthMembers_le_iff.mpr fun member hmember => (h member hmember).depth_le)

/-- The document of a value has at most as many levels as the encoder was given. -/
theorem isEncoded_encode {order : EntryOrder} {heap : Heap} {levels : Nat} {value : Value}
    {document : JsonDocument} (h : encode order heap levels value = .ok document) :
    IsEncoded levels document := by
  induction levels generalizing value document with
  | zero => cases h
  | succ levels ih =>
      cases value with
      | nil =>
          cases h
          exact ⟨trivial, Nat.zero_le _⟩
      | boolean truth =>
          cases h
          exact ⟨trivial, Nat.zero_le _⟩
      | number number => exact isEncoded_encodeNumber h _
      | string text =>
          cases h
          exact ⟨trivial, Nat.zero_le _⟩
      | array ref =>
          unfold encode at h
          cases helements : (heap.items ref).toList.mapM (encode order heap levels) with
          | error error =>
              rw [helements] at h
              cases h
          | ok elements =>
              rw [helements] at h
              cases h
              exact isEncoded_array
                (forall_mem_of_mapM_ok (fun _ _ hitem => ih hitem) helements)
      | hash ref =>
          unfold encode at h
          cases hmembers : (heap.storedEntries order ref).mapM fun entry => do
              return JsonMember.mk entry.1.print (← encode order heap levels entry.2) with
          | error error =>
              rw [hmembers] at h
              cases h
          | ok members =>
              rw [hmembers] at h
              cases h
              have hall : ∀ member ∈ members, IsEncoded levels member.value := by
                refine forall_mem_of_mapM_ok (fun entry result hentry => ?_) hmembers
                cases hvalue : encode order heap levels entry.2 with
                | error error =>
                    rw [hvalue] at hentry
                    cases hentry
                | ok value =>
                    rw [hvalue] at hentry
                    cases hentry
                    exact ih hvalue
              refine isEncoded_object fun member hmember => hall member ?_
              exact (JsonMember.mem_foldl_insertInto hmember).resolve_right List.not_mem_nil
      | function ref => cases h

end JsonCodec

end ScriptEngine
