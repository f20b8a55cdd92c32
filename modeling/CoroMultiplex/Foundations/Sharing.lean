import Mathlib.Data.List.Perm.Subperm
import Mathlib.Data.List.Range
import Mathlib.Logic.Function.Basic

/-! Objects that are shared through counted pointers.

The last release of a pointer to an object destroys it. A program is seen as the list of
its pointers, in any order.
-/

set_option autoImplicit false

namespace CoroMultiplex.Foundations

/-- A pointer to a shared object, which is known by its control block. -/
structure Shared (Value : Type) where
  id : Nat
  value : Value

structure ControlBlocks (Value : Type) where
  useCount : Nat → Nat := fun _ => 0
  allocated : Nat := 0
  -- history: the objects in the order of their destruction
  destroyed : List (Shared Value) := []

namespace ControlBlocks

variable {Value : Type}

def makeShared (self : ControlBlocks Value) (value : Value) : ControlBlocks Value × Shared Value :=
  ({ self with
      useCount := Function.update self.useCount self.allocated 1
      allocated := self.allocated + 1 }, ⟨self.allocated, value⟩)

def copy (self : ControlBlocks Value) (pointer : Shared Value) : ControlBlocks Value :=
  { self with useCount := Function.update self.useCount pointer.id (self.useCount pointer.id + 1) }

def release (self : ControlBlocks Value) (pointer : Shared Value) : ControlBlocks Value :=
  { self with
    useCount := Function.update self.useCount pointer.id (self.useCount pointer.id - 1)
    destroyed := if self.useCount pointer.id = 1 then self.destroyed ++ [pointer] else self.destroyed }

/-- The counts are those of the pointers that there are, and each object that was made has
a pointer to it or has been destroyed. -/
structure Counted (blocks : ControlBlocks Value) (pointers : List (Shared Value)) : Prop where
  count : ∀ id, blocks.useCount id = (pointers.map Shared.id).count id
  known : ∀ pointer ∈ pointers, pointer.id < blocks.allocated
  same : ∀ first ∈ pointers, ∀ second ∈ pointers, first.id = second.id → first = second
  once : (blocks.destroyed.map Shared.id).Nodup
  gone : ∀ pointer ∈ blocks.destroyed, pointer.id < blocks.allocated ∧
    pointer.id ∉ pointers.map Shared.id
  whole : ∀ id < blocks.allocated, id ∈ pointers.map Shared.id ∨ id ∈ blocks.destroyed.map Shared.id

namespace Counted

variable {blocks : ControlBlocks Value} {pointers : List (Shared Value)} {pointer : Shared Value}

theorem empty : Counted ({} : ControlBlocks Value) [] where
  count _ := rfl
  known := by simp
  same := by simp
  once := List.nodup_nil
  gone := by simp
  whole _ below := absurd below (Nat.not_lt_zero _)

theorem perm {other : List (Shared Value)} (counted : blocks.Counted pointers)
    (order : pointers.Perm other) : blocks.Counted other where
  count id := (counted.count id).trans ((order.map Shared.id).count_eq id)
  known pointer member := counted.known pointer (order.mem_iff.mpr member)
  same first left second right := counted.same first (order.mem_iff.mpr left) second (order.mem_iff.mpr right)
  once := counted.once
  gone pointer member := by
    obtain ⟨known, absent⟩ := counted.gone pointer member
    exact ⟨known, fun held => absent ((order.map Shared.id).mem_iff.mpr held)⟩
  whole id below := (counted.whole id below).imp_left (order.map Shared.id).mem_iff.mp

theorem unallocated (counted : blocks.Counted pointers) :
    blocks.allocated ∉ pointers.map Shared.id := by
  intro member
  obtain ⟨pointer, held, same⟩ := List.mem_map.mp member
  have known := counted.known pointer held
  omega

theorem make (counted : blocks.Counted pointers) (value : Value) :
    (blocks.makeShared value).1.Counted ((blocks.makeShared value).2 :: pointers) where
  count id := by
    by_cases here : id = blocks.allocated
    · subst here
      have absent := List.count_eq_zero_of_not_mem counted.unallocated
      simp [makeShared, absent]
    · simp [makeShared, here, Ne.symm here, counted.count]
  known pointer member := by
    rcases List.mem_cons.mp member with rfl | held
    · exact Nat.lt_succ_self _
    · exact Nat.lt_succ_of_lt (counted.known pointer held)
  same first left second right equal := by
    have apart : ∀ pointer ∈ pointers, pointer.id ≠ blocks.allocated := fun pointer held here =>
      Nat.lt_irrefl _ (here ▸ counted.known pointer held)
    rcases List.mem_cons.mp left with rfl | left <;> rcases List.mem_cons.mp right with rfl | right
    · rfl
    · exact absurd equal.symm (apart second right)
    · exact absurd equal (apart first left)
    · exact counted.same first left second right equal
  once := counted.once
  gone pointer member := by
    obtain ⟨known, absent⟩ := counted.gone pointer member
    refine ⟨Nat.lt_succ_of_lt known, fun held => ?_⟩
    rcases List.mem_cons.mp held with here | held
    · exact Nat.lt_irrefl _ (here ▸ known)
    · exact absent held
  whole id below := by
    rcases Nat.lt_succ_iff_lt_or_eq.mp below with older | rfl
    · exact (counted.whole id older).imp_left (List.mem_cons_of_mem _)
    · exact .inl List.mem_cons_self

theorem copy (counted : blocks.Counted pointers) (held : pointer ∈ pointers) :
    (blocks.copy pointer).Counted (pointer :: pointers) where
  count id := by
    by_cases here : id = pointer.id
    · simp [ControlBlocks.copy, here, counted.count]
    · simp [ControlBlocks.copy, here, Ne.symm here, counted.count]
  known other member := by
    rcases List.mem_cons.mp member with rfl | member
    · exact counted.known other held
    · exact counted.known other member
  same first left second right equal := by
    have inside : ∀ other ∈ pointer :: pointers, other ∈ pointers := by
      rintro other member
      rcases List.mem_cons.mp member with rfl | member
      · exact held
      · exact member
    exact counted.same first (inside first left) second (inside second right) equal
  once := counted.once
  gone other member := by
    obtain ⟨known, absent⟩ := counted.gone other member
    refine ⟨known, fun again => ?_⟩
    rcases List.mem_cons.mp again with here | again
    · exact absent (here ▸ List.mem_map_of_mem held)
    · exact absent again
  whole id below := (counted.whole id below).imp_left (List.mem_cons_of_mem _)

/-- The object is destroyed exactly if this was the last pointer to it. -/
theorem release (counted : blocks.Counted (pointer :: pointers)) :
    (blocks.release pointer).Counted pointers := by
  have uses : blocks.useCount pointer.id = (pointers.map Shared.id).count pointer.id + 1 := by
    rw [counted.count]
    simp
  have last : blocks.useCount pointer.id = 1 ↔ pointer.id ∉ pointers.map Shared.id := by
    rw [uses, ← List.count_eq_zero]
    omega
  have destroyed : ∀ other, other ∈ (blocks.release pointer).destroyed ↔ other ∈ blocks.destroyed ∨
      other = pointer ∧ pointer.id ∉ pointers.map Shared.id := by
    intro other
    rw [ControlBlocks.release, ← last]
    by_cases sole : blocks.useCount pointer.id = 1 <;> simp [sole]
  constructor
  · intro id
    by_cases here : id = pointer.id
    · subst here
      simp [ControlBlocks.release, uses]
    · simp [ControlBlocks.release, here, Ne.symm here, counted.count]
  · exact fun other member => counted.known other (List.mem_cons_of_mem _ member)
  · exact fun first left second right =>
      counted.same first (List.mem_cons_of_mem _ left) second (List.mem_cons_of_mem _ right)
  · rw [ControlBlocks.release]
    split
    · rw [List.map_append, List.nodup_append]
      refine ⟨counted.once, by simp, ?_⟩
      rintro id before _ here rfl
      obtain ⟨other, member, same⟩ := List.mem_map.mp before
      have absent := (counted.gone other member).2
      rw [same, List.mem_singleton.mp here] at absent
      exact absent List.mem_cons_self
    · exact counted.once
  · intro other member
    rcases (destroyed other).mp member with before | ⟨rfl, absent⟩
    · obtain ⟨known, absent⟩ := counted.gone other before
      exact ⟨known, fun held => absent (List.mem_cons_of_mem _ held)⟩
    · exact ⟨counted.known other List.mem_cons_self, absent⟩
  · intro id below
    rcases counted.whole id below with held | before
    · by_cases still : id ∈ pointers.map Shared.id
      · exact .inl still
      · rcases List.mem_cons.mp held with rfl | held
        · exact .inr (List.mem_map_of_mem ((destroyed pointer).mpr (.inr ⟨rfl, still⟩)))
        · exact absurd held still
    · obtain ⟨other, member, same⟩ := List.mem_map.mp before
      exact .inr (List.mem_map.mpr ⟨other, (destroyed other).mpr (.inl member), same⟩)

/-- There are no more objects than pointers. -/
theorem allocated_le (counted : blocks.Counted pointers) :
    blocks.allocated ≤ blocks.destroyed.length + pointers.length := by
  have inside : List.range blocks.allocated ⊆
      blocks.destroyed.map Shared.id ++ pointers.map Shared.id := by
    intro id member
    rw [List.mem_append]
    exact (counted.whole id (List.mem_range.mp member)).symm
  have length := (List.nodup_range.subperm inside).length_le
  simpa using length

end Counted

end ControlBlocks

end CoroMultiplex.Foundations
