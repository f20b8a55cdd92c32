import Mathlib.Data.List.Nodup

/-! Recency lists: the pairs of a bounded cache, the most recently used first.

Building a value has effects, and ends with a value, with nothing, or by
throwing. A cache takes the effects only where it does build.
-/

set_option autoImplicit false

namespace CoroMultiplex.Foundations

abbrev Built (Value Effect Thrown : Type) := List Effect × Except Thrown (Option Value)

structure Recency (Key Value : Type) (capacity : Nat) where
  pairs : List (Key × Value)
  distinct : (pairs.map Prod.fst).Nodup
  bounded : pairs.length ≤ capacity
  positive : 0 < capacity

namespace Recency

variable {Key Value Effect Thrown : Type} {capacity : Nat}

def empty (positive : 0 < capacity) : Recency Key Value capacity where
  pairs := []
  distinct := List.nodup_nil
  bounded := Nat.zero_le _
  positive := positive

variable [DecidableEq Key]

def find (self : Recency Key Value capacity) (key : Key) : Option Value := self.pairs.lookup key

/-- The pair of a key in front of the pairs of the other keys, the least
recently used of which is dropped when there is no room for it. -/
def use (self : Recency Key Value capacity) (key : Key) (value : Value) :
    Recency Key Value capacity where
  pairs := (key, value) :: (self.pairs.filter (·.1 ≠ key)).take (capacity - 1)
  distinct := by
    rw [List.map_cons, List.nodup_cons]
    constructor
    · intro twice
      obtain ⟨pair, member, same⟩ := List.mem_map.mp twice
      have kept := (List.mem_filter.mp (List.mem_of_mem_take member)).2
      exact of_decide_eq_true kept same
    · have sublist := (List.take_sublist (capacity - 1) _).trans
        (List.filter_sublist (p := fun pair => decide (pair.1 ≠ key)) (l := self.pairs))
      exact self.distinct.sublist (sublist.map Prod.fst)
  bounded := by
    have room := self.positive
    have taken := List.length_take_le (capacity - 1) (self.pairs.filter (·.1 ≠ key))
    simp only [List.length_cons]
    omega
  positive := self.positive

/-- A present key is answered with its value and becomes the most recently
used one; an absent key is built. -/
def get (self : Recency Key Value capacity) (built : Built Value Effect Thrown) (key : Key) :
    List Effect × Recency Key Value capacity × Except Thrown (Option Value) :=
  match self.find key with
  | some value => ([], self.use key value, .ok (some value))
  | none =>
    match built with
    | (effects, .error thrown) => (effects, self, .error thrown)
    | (effects, .ok none) => (effects, self, .ok none)
    | (effects, .ok (some value)) => (effects, self.use key value, .ok (some value))

/-- A present key is left alone; an absent key is built. -/
def put (self : Recency Key Value capacity) (built : Built Value Effect Thrown) (key : Key) :
    List Effect × Recency Key Value capacity × Except Thrown Bool :=
  match self.find key with
  | some _ => ([], self, .ok false)
  | none =>
    match built with
    | (effects, .error thrown) => (effects, self, .error thrown)
    | (effects, .ok none) => (effects, self, .ok false)
    | (effects, .ok (some value)) => (effects, self.use key value, .ok true)

def refresh (self : Recency Key Value capacity) : Recency Key Value capacity := empty self.positive

/-- An absent key is put as it is got. -/
theorem put_absent (self : Recency Key Value capacity) {key : Key} (absent : self.find key = none)
    (built : Built Value Effect Thrown) :
    self.put built key =
      ((self.get built key).1, (self.get built key).2.1, (self.get built key).2.2.map Option.isSome) := by
  rcases built with ⟨effects, thrown | _ | value⟩ <;> simp only [put, get, absent] <;> rfl

theorem find_eq_none (self : Recency Key Value capacity) (key : Key) :
    self.find key = none ↔ key ∉ self.pairs.map Prod.fst := by
  rw [find, List.lookup_eq_none_iff]
  constructor
  · intro absent present
    obtain ⟨pair, member, same⟩ := List.mem_map.mp present
    have differs := absent pair member
    simp [same] at differs
  · intro absent pair member
    have differs : key ≠ pair.1 := fun same => absent (same ▸ List.mem_map_of_mem member)
    simpa using differs

theorem find_split (self : Recency Key Value capacity) {key : Key} {value : Value}
    {front back : List (Key × Value)} (split : self.pairs = front ++ (key, value) :: back) :
    self.find key = some value := by
  rw [find, List.lookup_eq_some_iff]
  have distinct := self.distinct
  rw [split, List.map_append, List.nodup_append] at distinct
  refine ⟨front, back, split, ?_⟩
  intro pair member
  have differs : pair.1 ≠ key := distinct.2.2 pair.1 (List.mem_map_of_mem member) key (by simp)
  simpa using differs.symm

/-- Using a present key moves its pair to the front. -/
theorem pairs_use_present (self : Recency Key Value capacity) {key : Key} {value : Value}
    {front back : List (Key × Value)} (split : self.pairs = front ++ (key, value) :: back) :
    (self.use key value).pairs = (key, value) :: (front ++ back) := by
  have distinct := self.distinct
  have bounded := self.bounded
  simp only [split, List.map_append, List.map_cons, List.nodup_append, List.nodup_cons] at distinct
  obtain ⟨_, ⟨notBehind, _⟩, notBefore⟩ := distinct
  have keptFront : front.filter (·.1 ≠ key) = front := by
    rw [List.filter_eq_self]
    intro pair member
    simpa using notBefore pair.1 (List.mem_map_of_mem member) key (by simp)
  have keptBack : back.filter (·.1 ≠ key) = back := by
    rw [List.filter_eq_self]
    intro pair member
    have differs : pair.1 ≠ key := fun same => notBehind (same ▸ List.mem_map_of_mem member)
    simpa using differs
  have fits : (front ++ back).length ≤ capacity - 1 := by
    simp only [split, List.length_append, List.length_cons] at bounded ⊢
    omega
  simp only [use, split, List.filter_append, keptFront]
  rw [List.filter_cons_of_neg (by simp), keptBack, List.take_of_length_le fits]

/-- Using an absent key drops the least recently used pair of a full list. -/
theorem pairs_use_absent (self : Recency Key Value capacity) {key : Key}
    (absent : key ∉ self.pairs.map Prod.fst) (value : Value) :
    (self.use key value).pairs =
      (key, value) :: if self.pairs.length = capacity then self.pairs.dropLast else self.pairs := by
  have bounded := self.bounded
  have kept : self.pairs.filter (·.1 ≠ key) = self.pairs := by
    rw [List.filter_eq_self]
    intro pair member
    have differs : pair.1 ≠ key := fun same => absent (same ▸ List.mem_map_of_mem member)
    simpa using differs
  simp only [use, kept]
  split
  · next full => rw [List.dropLast_eq_take, full]
  · next room => rw [List.take_of_length_le (by omega)]

end Recency

end CoroMultiplex.Foundations
