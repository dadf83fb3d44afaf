import ScriptEngine.Value.Key

namespace ScriptEngine

namespace Table

def Ascending (entries : List (Key × Value)) : Prop :=
  entries.Pairwise fun left right => Key.compare left.1 right.1 = .lt

/-- Puts an entry where the order of the keys wants it, in place of an entry under the same key. -/
def insertEntry (key : Key) (value : Value) : List (Key × Value) → List (Key × Value)
  | [] => [(key, value)]
  | (head, stored) :: rest =>
    match Key.compare key head with
    | .lt => (key, value) :: (head, stored) :: rest
    | .eq => (key, value) :: rest
    | .gt => (head, stored) :: insertEntry key value rest

theorem mem_insertEntry {key : Key} {value : Value} {entries : List (Key × Value)}
    {entry : Key × Value} (h : entry ∈ insertEntry key value entries) :
    entry = (key, value) ∨ entry ∈ entries := by
  fun_induction insertEntry key value entries <;> grind

theorem ascending_insertEntry (key : Key) (value : Value) {entries : List (Key × Value)}
    (h : Ascending entries) : Ascending (insertEntry key value entries) := by
  fun_induction insertEntry key value entries with
  | case1 => simp [Ascending]
  | case2 head stored rest horder =>
    unfold Ascending at *
    rw [List.pairwise_cons]
    refine ⟨fun entry hentry => ?_, h⟩
    rcases List.mem_cons.mp hentry with rfl | hrest
    · exact horder
    · exact Std.TransCmp.lt_trans horder ((List.pairwise_cons.mp h).1 entry hrest)
  | case3 head stored rest horder =>
    unfold Ascending at *
    rw [List.pairwise_cons] at *
    rw [Std.LawfulEqCmp.eq_of_compare horder]
    exact h
  | case4 head stored rest horder ih =>
    unfold Ascending at *
    rw [List.pairwise_cons] at *
    refine ⟨fun entry hentry => ?_, ih h.2⟩
    rcases mem_insertEntry hentry with rfl | hrest
    · exact Std.OrientedCmp.lt_of_gt horder
    · exact h.1 entry hrest

end Table

/-- The contents of a hash, in ascending order of the keys and so with one entry a key. -/
structure Table where
  entries : List (Key × Value)
  ascending : Table.Ascending entries

namespace Table

def empty : Table :=
  ⟨[], List.Pairwise.nil⟩

instance : Inhabited Table := ⟨empty⟩

def insert (table : Table) (key : Key) (value : Value) : Table :=
  ⟨insertEntry key value table.entries, ascending_insertEntry key value table.ascending⟩

def find? (table : Table) (key : Key) : Option Value :=
  table.entries.lookup key

def contains (table : Table) (key : Key) : Bool :=
  (table.find? key).isSome

def size (table : Table) : Nat :=
  table.entries.length

/-- The table after inserting entries one after another. -/
def ofList (entries : List (Key × Value)) : Table :=
  entries.foldl (fun table entry => table.insert entry.1 entry.2) empty

end Table

/-- The order in which each hash happens to store its entries. Nothing is known of it but that every
entry has one place in it. -/
structure EntryOrder where
  arrange : HashRef → List (Key × Value) → List (Key × Value)
  perm (ref : HashRef) (entries : List (Key × Value)) : (arrange ref entries).Perm entries

namespace EntryOrder

def ascending : EntryOrder where
  arrange _ entries := entries
  perm _ entries := .refl entries

end EntryOrder

end ScriptEngine
