import Mathlib.Data.List.Forall2
import ScriptEngine.Proofs.Value.Keys

/-!
# The entries of a hash

What is stored under a key after a sequence of insertions is what was inserted last under it. The
entries stand in strictly ascending order of their keys, so that they are determined by what is
stored under each key, and by no more of the sequence than that.
-/

namespace ScriptEngine

/-! ### Lists that are related item by item -/

theorem map_eq_map_of_forall₂ {α β γ : Type} {related : α → β → Prop} {first : α → γ}
    {second : β → γ} {left : List α} {right : List β} (h : List.Forall₂ related left right)
    (hmap : ∀ item ∈ left, ∀ other, related item other → first item = second other) :
    left.map first = right.map second := by
  induction h with
  | nil => rfl
  | cons hhead _ ih =>
      simp only [List.map_cons, List.cons.injEq]
      constructor
      · exact hmap _ List.mem_cons_self _ hhead
      · apply ih
        intro item hitem
        exact hmap item (List.mem_cons_of_mem _ hitem)

theorem rel_getElem? {α β : Type} {related : α → β → Prop} {first : List α} {second : List β}
    (h : List.Forall₂ related first second) {place : Nat} {left : α} {right : β}
    (hleft : first[place]? = some left) (hright : second[place]? = some right) :
    related left right := by
  induction h generalizing place with
  | nil => exact nomatch hleft
  | cons hhead _ ih =>
      cases place with
      | zero =>
          cases hleft
          cases hright
          exact hhead
      | succ place => exact ih hleft hright

theorem exists_of_mem_right {α β : Type} {related : α → β → Prop} {first : List α} {second : List β}
    (h : List.Forall₂ related first second) {right : β} (hright : right ∈ second) :
    ∃ left ∈ first, related left right := by
  induction h with
  | nil => exact nomatch hright
  | cons hhead _ ih =>
      rcases List.mem_cons.mp hright with rfl | hrest
      · exact ⟨_, List.mem_cons_self, hhead⟩
      · obtain ⟨left, hleft, hrelated⟩ := ih hrest
        exact ⟨left, List.mem_cons_of_mem _ hleft, hrelated⟩

namespace Table

/-! ### What insertions leave -/

/-- What a sequence of insertions leaves under a key: what was inserted last. -/
def lastInserted (pairs : List (Key × Value)) (key : Key) : Option Value :=
  pairs.reverse.lookup key

theorem lookup_cons_eq_ite (key other : Key) (value : Value) (rest : List (Key × Value)) :
    ((key, value) :: rest).lookup other = if other = key then some value else rest.lookup other := by
  by_cases h : other = key
  · simp [h]
  · have hne : (other == key) = false := by simp [h]
    simp [List.lookup_cons, hne, h]

theorem lookup_insertEntry (key other : Key) (value : Value) (entries : List (Key × Value)) :
    (insertEntry key value entries).lookup other =
      if other = key then some value else entries.lookup other := by
  fun_induction insertEntry key value entries with
  | case1 => simp [lookup_cons_eq_ite]
  | case2 head stored rest horder => rw [lookup_cons_eq_ite]
  | case3 head stored rest horder =>
      have hkey : key = head := Std.LawfulEqCmp.eq_of_compare horder
      subst hkey
      by_cases h : other = key <;> simp [lookup_cons_eq_ite, h]
  | case4 head stored rest horder ih =>
      have hkey : head ≠ key := Key.ne_of_lt (Std.OrientedCmp.lt_of_gt horder)
      simp only [lookup_cons_eq_ite, ih]
      by_cases hhead : other = head
      · simp [hhead, hkey]
      · simp [hhead]

theorem find?_insert (table : Table) (key other : Key) (value : Value) :
    (table.insert key value).find? other = if other = key then some value else table.find? other :=
  lookup_insertEntry key other value table.entries

theorem ofList_append_singleton (pairs : List (Key × Value)) (key : Key) (value : Value) :
    ofList (pairs ++ [(key, value)]) = (ofList pairs).insert key value := by
  simp [ofList]

theorem lastInserted_append_singleton (pairs : List (Key × Value)) (key other : Key)
    (value : Value) :
    lastInserted (pairs ++ [(key, value)]) other =
      if other = key then some value else lastInserted pairs other := by
  simp [lastInserted, lookup_cons_eq_ite]

theorem find?_ofList (pairs : List (Key × Value)) (key : Key) :
    (ofList pairs).find? key = lastInserted pairs key := by
  induction pairs using List.reverseRecOn with
  | nil => rfl
  | append_singleton pairs pair ih =>
      rw [ofList_append_singleton, find?_insert, ih, lastInserted_append_singleton]

theorem mem_of_lastInserted {pairs : List (Key × Value)} {key : Key} {value : Value}
    (h : lastInserted pairs key = some value) : (key, value) ∈ pairs := by
  obtain ⟨before, after, hpairs, -⟩ := List.lookup_eq_some_iff.mp h
  have hmem : (key, value) ∈ pairs.reverse := by simp [hpairs]
  exact List.mem_reverse.mp hmem

/-! ### Entries in order -/

theorem lookup_eq_none_of_lt {key : Key} {entries : List (Key × Value)}
    (h : ∀ entry ∈ entries, Key.compare key entry.1 = .lt) : entries.lookup key = none := by
  rw [List.lookup_eq_none_iff]
  intro entry hentry
  simp [Key.ne_of_lt (h entry hentry)]

/-- A key before the first one is not there. -/
theorem lookup_eq_none_of_lt_head {key head : Key} {stored : Value} {rest : List (Key × Value)}
    (hascending : Ascending ((head, stored) :: rest)) (h : Key.compare key head = .lt) :
    ((head, stored) :: rest).lookup key = none := by
  apply lookup_eq_none_of_lt
  intro entry hentry
  rcases List.mem_cons.mp hentry with rfl | hrest
  · exact h
  · exact Std.TransCmp.lt_trans h ((List.pairwise_cons.mp hascending).1 entry hrest)

theorem mem_iff_lookup {entries : List (Key × Value)} (hascending : Ascending entries) {key : Key}
    {value : Value} : (key, value) ∈ entries ↔ entries.lookup key = some value := by
  induction entries with
  | nil => simp
  | cons head rest ih =>
      obtain ⟨head, stored⟩ := head
      obtain ⟨hhead, hrest⟩ := List.pairwise_cons.mp hascending
      rw [lookup_cons_eq_ite, List.mem_cons, ih hrest]
      by_cases h : key = head
      · subst h
        simp [lookup_eq_none_of_lt hhead, eq_comm]
      · simp [h]

section

variable {related : Value → Value → Prop} {key other : Key} {value otherValue : Value}
  {rest others : List (Key × Value)}

/-- Of two first keys neither comes before the other: it would not be found among the entries that
start with the other. -/
theorem head_eq_of_lookup (hfirst : Ascending ((key, value) :: rest))
    (hsecond : Ascending ((other, otherValue) :: others))
    (h : ∀ searched, Option.Rel related (((key, value) :: rest).lookup searched)
      (((other, otherValue) :: others).lookup searched)) : key = other := by
  rcases horder : Key.compare key other with _ | _ | _
  · have hhead := h key
    rw [lookup_eq_none_of_lt_head hsecond horder, lookup_cons_eq_ite, if_pos rfl] at hhead
    exact nomatch hhead
  · exact Std.LawfulEqCmp.eq_of_compare horder
  · have hhead := h other
    rw [lookup_eq_none_of_lt_head hfirst (Std.OrientedCmp.lt_of_gt horder),
      lookup_cons_eq_ite, if_pos rfl] at hhead
    exact nomatch hhead

/-- What is found behind a first key of both is found among all entries. -/
theorem rel_lookup_rest (hfirst : Ascending ((key, value) :: rest))
    (hsecond : Ascending ((key, otherValue) :: others))
    (h : ∀ searched, Option.Rel related (((key, value) :: rest).lookup searched)
      (((key, otherValue) :: others).lookup searched)) (searched : Key) :
    Option.Rel related (rest.lookup searched) (others.lookup searched) := by
  by_cases hsearched : searched = key
  · subst hsearched
    rw [lookup_eq_none_of_lt (List.pairwise_cons.mp hfirst).1,
      lookup_eq_none_of_lt (List.pairwise_cons.mp hsecond).1]
    exact .none
  · have hfound := h searched
    rwa [lookup_cons_eq_ite, lookup_cons_eq_ite, if_neg hsearched, if_neg hsearched] at hfound

end

/-- Entries in order are determined, one by one, by what stands under each key. -/
theorem forall₂_of_lookup {related : Value → Value → Prop} {first second : List (Key × Value)}
    (hfirst : Ascending first) (hsecond : Ascending second)
    (h : ∀ key, Option.Rel related (first.lookup key) (second.lookup key)) :
    List.Forall₂ (fun left right => left.1 = right.1 ∧ related left.2 right.2) first second := by
  induction first generalizing second with
  | nil =>
      cases second with
      | nil => exact .nil
      | cons head rest =>
          have hhead := h head.1
          rw [lookup_cons_eq_ite, if_pos rfl] at hhead
          exact nomatch hhead
  | cons head rest ih =>
      obtain ⟨key, value⟩ := head
      cases second with
      | nil =>
          have hhead := h key
          rw [lookup_cons_eq_ite, if_pos rfl] at hhead
          exact nomatch hhead
      | cons other others =>
          obtain ⟨otherKey, otherValue⟩ := other
          obtain rfl := head_eq_of_lookup hfirst hsecond h
          have hrest := ih (List.pairwise_cons.mp hfirst).2 (List.pairwise_cons.mp hsecond).2
            (rel_lookup_rest hfirst hsecond h)
          have hvalue := h key
          rw [lookup_cons_eq_ite, lookup_cons_eq_ite, if_pos rfl, if_pos rfl] at hvalue
          cases hvalue with
          | some hrelated => exact .cons ⟨rfl, hrelated⟩ hrest

theorem ascending_of_keys {first second : List (Key × Value)}
    (h : first.map Prod.fst = second.map Prod.fst) (hascending : Ascending first) :
    Ascending second := by
  have hfirst : (first.map Prod.fst).Pairwise fun key later => Key.compare key later = .lt :=
    List.pairwise_map.mpr hascending
  rw [h] at hfirst
  exact List.pairwise_map.mp hfirst

theorem rel_lookup_of_forall₂ {related : Value → Value → Prop} {first second : List (Key × Value)}
    (h : List.Forall₂ (fun left right => left.1 = right.1 ∧ related left.2 right.2) first second)
    (key : Key) : Option.Rel related (first.lookup key) (second.lookup key) := by
  induction h with
  | nil => exact .none
  | @cons left right _ _ hhead _ ih =>
      obtain ⟨leftKey, leftValue⟩ := left
      obtain ⟨rightKey, rightValue⟩ := right
      obtain ⟨rfl, hvalue⟩ := hhead
      rw [lookup_cons_eq_ite, lookup_cons_eq_ite]
      by_cases hkey : key = leftKey
      · rw [if_pos hkey, if_pos hkey]
        exact .some hvalue
      · rw [if_neg hkey, if_neg hkey]
        exact ih

/-- Entries that are inserted in ascending order stay as they are. -/
theorem find?_ofList_of_ascending {pairs : List (Key × Value)} (h : Ascending pairs) (key : Key) :
    (ofList pairs).find? key = pairs.lookup key := by
  rw [find?_ofList]
  cases hfound : pairs.lookup key with
  | some value =>
      have hmem : (key, value) ∈ pairs := (mem_iff_lookup h).mpr hfound
      cases hlast : lastInserted pairs key with
      | some other =>
          have hother := (mem_iff_lookup h).mp (mem_of_lastInserted hlast)
          rw [← hfound, ← hother]
      | none =>
          have habsent := List.lookup_eq_none_iff.mp hlast (key, value) (List.mem_reverse.mpr hmem)
          simp at habsent
  | none =>
      cases hlast : lastInserted pairs key with
      | some other =>
          have hother := (mem_iff_lookup h).mp (mem_of_lastInserted hlast)
          rw [hfound] at hother
          exact nomatch hother
      | none => rfl

end Table

end ScriptEngine
