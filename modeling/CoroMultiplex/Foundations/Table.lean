import Mathlib.Logic.Function.Basic

/-! Tables: functions to optional values, changed at one key. -/

set_option autoImplicit false

namespace CoroMultiplex.Foundations.Table

variable {Key Value : Type} [DecidableEq Key] {table : Key → Option Value} {key other : Key}

/-- An entry is the new one, or was there before. -/
theorem set_cases {new found : Value}
    (taken : Function.update table key (some new) other = some found) :
    (other = key ∧ new = found) ∨ (other ≠ key ∧ table other = some found) := by
  by_cases here : other = key
  · subst here
    exact .inl ⟨rfl, by simpa using taken⟩
  · exact .inr ⟨here, (Function.update_of_ne here _ _).symm.trans taken⟩

theorem set_missing {new : Value} (missing : Function.update table key (some new) other = none) :
    other ≠ key ∧ table other = none := by
  by_cases here : other = key
  · subst here
    simp at missing
  · exact ⟨here, (Function.update_of_ne here _ _).symm.trans missing⟩

theorem erased_cases {found : Value} (taken : Function.update table key none other = some found) :
    other ≠ key ∧ table other = some found := by
  by_cases here : other = key
  · subst here
    simp at taken
  · exact ⟨here, (Function.update_of_ne here _ _).symm.trans taken⟩

/-- No value has two keys. -/
def Apart (table : Key → Option Value) : Prop :=
  ∀ one other value, table one = some value → table other = some value → one = other

theorem Apart.set (apart : Apart table) (key : Key) {new : Value}
    (fresh : ∀ other, table other ≠ some new) : Apart (Function.update table key (some new)) := by
  intro one other value first second
  rcases set_cases first with ⟨rfl, rfl⟩ | ⟨_, oneBefore⟩
  · rcases set_cases second with ⟨rfl, _⟩ | ⟨_, otherBefore⟩
    · rfl
    · exact absurd otherBefore (fresh other)
  · rcases set_cases second with ⟨rfl, rfl⟩ | ⟨_, otherBefore⟩
    · exact absurd oneBefore (fresh one)
    · exact apart one other value oneBefore otherBefore

theorem Apart.erase (apart : Apart table) (key : Key) :
    Apart (Function.update table key none) :=
  fun one other value first second =>
    apart one other value (erased_cases first).2 (erased_cases second).2

end CoroMultiplex.Foundations.Table
