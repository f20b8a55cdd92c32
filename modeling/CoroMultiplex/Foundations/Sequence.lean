import Mathlib.Data.List.Infix

/-! Searching a finite sequence for a contiguous pattern.

`find` returns the first position at which the pattern occurs, as the search
operations of string views do. The laws below locate that position from a
decomposition of the text, and recover a decomposition from the position.
-/

set_option autoImplicit false

namespace CoroMultiplex.Foundations.Sequence

variable {α : Type} [DecidableEq α]

/-- First position at which `pattern` occurs in the text. -/
def find (pattern : List α) : List α → Option Nat
  | [] => if pattern = [] then some 0 else none
  | head :: text =>
    if pattern <+: head :: text then some 0 else (find pattern text).map (· + 1)

/-- The text splits at the reported position into what precedes the pattern,
the pattern, and what follows it. -/
theorem find_split {pattern text : List α} {position : Nat}
    (found : find pattern text = some position) :
    text = text.take position ++ pattern ++ text.drop (position + pattern.length) := by
  induction text generalizing position with
  | nil =>
    by_cases empty : pattern = []
    · simp [empty]
    · simp [find, empty] at found
  | cons head text ih =>
    by_cases here : pattern <+: head :: text
    · simp only [find, here, if_true, Option.some.injEq] at found
      subst position
      obtain ⟨rest, same⟩ := here
      simp [← same]
    · simp only [find, here, if_false, Option.map_eq_some_iff] at found
      obtain ⟨inner, found, rfl⟩ := found
      have split := ih found
      have shift : inner + 1 + pattern.length = inner + pattern.length + 1 := by omega
      rw [shift, List.take_succ_cons, List.drop_succ_cons, List.cons_append, List.cons_append]
      exact congrArg (head :: ·) split

theorem find_bound {pattern text : List α} {position : Nat}
    (found : find pattern text = some position) : position + pattern.length ≤ text.length := by
  induction text generalizing position with
  | nil =>
    by_cases empty : pattern = []
    · simp only [find, empty, if_true, Option.some.injEq] at found
      simp [← found, empty]
    · simp [find, empty] at found
  | cons head text ih =>
    by_cases here : pattern <+: head :: text
    · simp only [find, here, if_true, Option.some.injEq] at found
      subst position
      simpa using here.length_le
    · simp only [find, here, if_false, Option.map_eq_some_iff] at found
      obtain ⟨inner, found, rfl⟩ := found
      have bound := ih found
      simp only [List.length_cons]
      omega

/-- If no earlier position carries the pattern, the search stops at the given one. -/
theorem find_append (pattern before after : List α)
    (first : ∀ position < before.length, ¬ pattern <+: (before ++ pattern ++ after).drop position) :
    find pattern (before ++ pattern ++ after) = some before.length := by
  induction before with
  | nil =>
    cases pattern with
    | nil => cases after <;> simp [find]
    | cons head rest => simp [find]
  | cons head before ih =>
    have notHere : ¬ pattern <+: head :: (before ++ pattern ++ after) := by
      simpa using first 0 (by simp)
    have later : ∀ position < before.length,
        ¬ pattern <+: (before ++ pattern ++ after).drop position := by
      intro position bound
      simpa using first (position + 1) (by simpa using bound)
    simp only [List.cons_append, find, notHere, if_false, ih later, Option.map_some,
      List.length_cons]

/-- The search stops no later than at any given occurrence. -/
theorem find_le {pattern text : List α} {position : Nat} (bound : position ≤ text.length)
    (occurs : pattern <+: text.drop position) :
    ∃ first ≤ position, find pattern text = some first := by
  induction text generalizing position with
  | nil =>
    have empty : pattern = [] := by simpa using occurs
    exact ⟨0, Nat.zero_le _, by simp [find, empty]⟩
  | cons head text ih =>
    by_cases here : pattern <+: head :: text
    · exact ⟨0, Nat.zero_le _, by simp [find, here]⟩
    · cases position with
      | zero => exact absurd occurs here
      | succ position =>
        obtain ⟨first, earlier, found⟩ := ih (Nat.le_of_succ_le_succ bound) occurs
        exact ⟨first + 1, Nat.succ_le_succ earlier, by simp [find, here, found]⟩

theorem find_occurs {pattern text : List α} {position : Nat}
    (found : find pattern text = some position) : pattern <+: text.drop position := by
  have bound := find_bound found
  have split := find_split found
  rw [List.append_assoc] at split
  have rest : text.drop position = pattern ++ text.drop (position + pattern.length) := by
    apply @List.append_cancel_left _ (text.take position)
    rw [List.take_append_drop, ← split]
  exact ⟨_, rest.symm⟩

/-- The first occurrence in a text with a continuation lies within the text if and
only if the text has one. -/
theorem find_within_iff (pattern text rest : List α) :
    (∃ position, find pattern (text ++ rest) = some position ∧
      position + pattern.length ≤ text.length) ↔ pattern <:+: text := by
  constructor
  · rintro ⟨position, found, within⟩
    have occurs := find_occurs found
    rw [List.drop_append_of_le_length (by omega)] at occurs
    have short : pattern.length ≤ (text.drop position).length := by
      rw [List.length_drop]
      omega
    have inside := List.prefix_of_prefix_length_le occurs (List.prefix_append _ rest) short
    exact inside.isInfix.trans (List.drop_suffix position text).isInfix
  · rintro ⟨before, after, same⟩
    have occurs : pattern <+: (text ++ rest).drop before.length := by
      rw [← same, List.append_assoc, List.append_assoc, List.drop_left]
      exact List.prefix_append _ _
    have total := congrArg List.length same
    simp only [List.length_append] at total
    have bound : before.length ≤ (text ++ rest).length := by
      rw [List.length_append]
      omega
    obtain ⟨first, earlier, found⟩ := find_le bound occurs
    exact ⟨first, found, by omega⟩

/-- Nothing before the first occurrence carries the pattern. -/
theorem not_infix_take {pattern text : List α} {position : Nat} (nonempty : pattern ≠ [])
    (found : find pattern text = some position) : ¬ pattern <:+: text.take position := by
  intro inside
  have bound := find_bound found
  have within := (find_within_iff pattern (text.take position) (text.drop position)).mpr inside
  rw [List.take_append_drop] at within
  obtain ⟨first, same, before⟩ := within
  have width := List.length_pos_of_ne_nil nonempty
  rw [found, Option.some.injEq] at same
  rw [List.length_take] at before
  omega

theorem not_mem_take {item : α} {text : List α} {position : Nat}
    (found : find [item] text = some position) : item ∉ text.take position := by
  intro member
  have inside : [item] <:+: text.take position := (List.singleton_infix_iff item _).mpr member
  exact not_infix_take (List.cons_ne_nil item []) found inside

theorem find_single (item : α) (before after : List α) (absent : item ∉ before) :
    find [item] (before ++ item :: after) = some before.length := by
  have shape : before ++ item :: after = before ++ [item] ++ after := by simp
  rw [shape]
  apply find_append
  intro position bound occurs
  apply absent
  rw [List.append_assoc, List.drop_append_of_le_length (Nat.le_of_lt bound),
    List.drop_eq_getElem_cons bound, List.cons_append, List.cons_prefix_cons] at occurs
  rw [occurs.1]
  exact List.getElem_mem bound

/-- Cutting at the first occurrence of an element, if there is one. -/
theorem take_find_single (item : α) (text : List α) :
    (match find [item] text with
     | none => text
     | some position => text.take position) = text.takeWhile (· != item) := by
  induction text with
  | nil => simp [find]
  | cons head text ih =>
    by_cases here : head = item
    · subst here
      simp [find]
    · have later : ¬ [item] <+: head :: text := by
        simpa [List.cons_prefix_cons] using Ne.symm here
      rw [find, if_neg later, List.takeWhile_cons_of_pos (by simpa using here), ← ih]
      cases find [item] text <;> rfl

/-- A two-element pattern with distinct elements cannot straddle its own start,
so a prefix free of the pattern is passed over entirely. -/
theorem find_pair {first second : α} (distinct : first ≠ second) (before after : List α)
    (absent : ¬ [first, second] <:+: before) :
    find [first, second] (before ++ first :: second :: after) = some before.length := by
  have shape : before ++ first :: second :: after = before ++ [first, second] ++ after := by simp
  rw [shape]
  apply find_append
  intro position bound occurs
  rw [List.append_assoc, List.drop_append_of_le_length (Nat.le_of_lt bound)] at occurs
  have suffix : before.drop position <:+ before := List.drop_suffix position before
  cases tail : before.drop position with
  | nil =>
    have short := congrArg List.length tail
    simp only [List.length_drop, List.length_nil] at short
    omega
  | cons head rest =>
    rw [tail, List.cons_append, List.cons_prefix_cons] at occurs
    cases rest with
    | nil =>
      -- The pattern would start on the last element and continue with its own first.
      rw [List.nil_append, List.cons_append, List.cons_prefix_cons] at occurs
      exact distinct occurs.2.1.symm
    | cons next rest =>
      rw [List.cons_append, List.cons_prefix_cons] at occurs
      obtain ⟨sameFirst, sameSecond, _⟩ := occurs
      apply absent
      have inner : [first, second] <+: before.drop position := by
        rw [tail, sameFirst, sameSecond]
        exact ⟨rest, rfl⟩
      exact inner.isInfix.trans suffix.isInfix

omit [DecidableEq α] in
/-- A pair occurring across a separator foreign to it occurs on one side. -/
theorem pair_infix_append_cons {first second separator : α} (notFirst : separator ≠ first)
    (notSecond : separator ≠ second) (before after : List α) :
    [first, second] <:+: before ++ separator :: after ↔
      [first, second] <:+: before ∨ [first, second] <:+: after := by
  induction before with
  | nil =>
    simp only [List.nil_append, List.infix_cons_iff, List.cons_prefix_cons, List.infix_nil]
    constructor
    · rintro (⟨same, _⟩ | inside)
      · exact absurd same.symm notFirst
      · exact Or.inr inside
    · rintro (impossible | inside)
      · cases impossible
      · exact Or.inr inside
  | cons head before ih =>
    have straddle : [first, second] <+: head :: (before ++ separator :: after) ↔
        [first, second] <+: head :: before := by
      cases before with
      | nil => simp [List.cons_prefix_cons, Ne.symm notSecond]
      | cons next before => simp [List.cons_prefix_cons]
    rw [List.cons_append, List.infix_cons_iff, List.infix_cons_iff, straddle, ih, or_assoc]

end CoroMultiplex.Foundations.Sequence
