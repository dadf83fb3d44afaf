import ScriptEngine.Execution.Arguments

/-!
# Results that may be missing

What a result that is there, or an error, says about the steps that it was put together from.
-/

namespace ScriptEngine

variable {α β ε : Type}

theorem ok_bind (value : α) (next : α → Except ε β) : (Except.ok value >>= next) = next value :=
  rfl

theorem exists_of_bind_eq_ok {result : Except ε α} {next : α → Except ε β} {value : β}
    (h : result >>= next = .ok value) :
    ∃ middle, result = .ok middle ∧ next middle = .ok value := by
  cases result with
  | ok middle => exact ⟨middle, rfl, h⟩
  | error found => cases h

theorem exists_of_map_eq_ok {result : Except ε α} {transform : α → β} {value : β}
    (h : result.map transform = .ok value) :
    ∃ middle, result = .ok middle ∧ transform middle = value := by
  cases result with
  | ok middle => exact ⟨middle, rfl, Except.ok.inj h⟩
  | error found => cases h

theorem error_of_bind_eq_error {result : Except ε α} {next : α → Except ε β} {failure : ε}
    (h : result >>= next = .error failure) :
    result = .error failure ∨ ∃ middle, result = .ok middle ∧ next middle = .error failure := by
  cases result with
  | ok middle => exact .inr ⟨middle, rfl, h⟩
  | error found =>
      cases h
      exact .inl rfl

variable {transform : α → Except ε β} {items : List α}

/-- All results are there if the list of them is. -/
theorem exists_ok_of_mapM_ok {results : List β} (h : items.mapM transform = .ok results) :
    ∀ item ∈ items, ∃ result, transform item = .ok result := by
  induction items generalizing results with
  | nil => exact nofun
  | cons head rest ih =>
      rw [List.mapM_cons] at h
      obtain ⟨first, hfirst, hothers⟩ := exists_of_bind_eq_ok h
      obtain ⟨others, hrest, -⟩ := exists_of_bind_eq_ok hothers
      rw [List.forall_mem_cons]
      exact ⟨⟨first, hfirst⟩, ih hrest⟩

/-- If there is no list of results, then some item has failed with the same error. -/
theorem exists_error_of_mapM_error {failure : ε} (h : items.mapM transform = .error failure) :
    ∃ item ∈ items, transform item = .error failure := by
  induction items with
  | nil => cases h
  | cons head rest ih =>
      rw [List.mapM_cons] at h
      rcases error_of_bind_eq_error h with hhead | ⟨first, -, hothers⟩
      · exact ⟨head, List.mem_cons_self, hhead⟩
      · rcases error_of_bind_eq_error hothers with hrest | ⟨others, -, hpure⟩
        · obtain ⟨item, hitem, hfailed⟩ := ih hrest
          exact ⟨item, List.mem_cons_of_mem head hitem, hfailed⟩
        · cases hpure

/-- An argument is read if it is there and of the right kind. -/
theorem argument_eq_ok_iff {read : Value → Except String α} {function : String}
    {arguments : List Value} {index : Nat} {result : α} :
    argument read function arguments index = .ok result ↔
      ∃ value, arguments[index]? = some value ∧ read value = .ok result := by
  unfold argument
  cases harguments : arguments[index]? with
  | none => simp
  | some value => cases hread : read value <;> simp [hread]

end ScriptEngine
