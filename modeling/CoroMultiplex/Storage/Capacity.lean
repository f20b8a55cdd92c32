import CoroMultiplex.Storage.Coherence

/-! The capacity the factory hands to a cache.

The factory takes a signed number and the cache keeps an unsigned one of 64 bits.
The eviction compares for equality, so it is the exact number that counts.
-/

set_option autoImplicit false

namespace CoroMultiplex.Storage

open Foundations Http

variable {Key Class Value Effect Thrown : Type}

inductive Policy where
  | lru | lfu | fifo
  deriving DecidableEq, Repr

/-- The `size_t` that an `int` converts to. -/
def asSize (capacity : Int32) : Nat := (capacity.toInt % UInt64.size).toNat

/-- `cacheFactory::create`, an error where it throws. -/
def create (capacity : Int32) : Policy → Except Bytes (LruCache Class Value)
  | .lru => .ok { capacity := asSize capacity }
  | .lfu | .fifo => .error (bytes "Not implemented yet")

/-- What is expected of the cache made for a capacity: after any calls it holds no more than
that many values, and none of the calls dropped the last value of an empty list. -/
def CapacityKept (T : Traits Key Class Value) (Effect Thrown : Type) [DecidableEq Class]
    (capacity : Int32) : Prop :=
  ∃ cache, create capacity .lru = .ok cache ∧
    ∀ calls : List (Call Key Value Effect Thrown), (∀ call ∈ calls, call.Honest T) →
      ((cache.run T calls).1.cacheList.length : Int) ≤ max capacity.toInt 0 ∧
        (cache.run T calls).1.map.size = (cache.run T calls).1.cacheList.length ∧
        ∀ answer ∈ (cache.run T calls).2, answer.2 ≠ .error .undefined

theorem asSize_positive {capacity : Int32} (positive : 1 ≤ capacity.toInt) :
    (asSize capacity : Int) = capacity.toInt := by
  have below := capacity.toInt_lt
  rw [asSize, UInt64.size, Int.toNat_of_nonneg (Int.emod_nonneg _ (by decide))]
  exact Int.emod_eq_of_lt (by omega) (by omega)

theorem asSize_negative {capacity : Int32} (negative : capacity.toInt < 0) :
    0 < asSize capacity := by
  have above := capacity.le_toInt
  rw [asSize, UInt64.size]
  omega

/-- A builder that knows one value. -/
def Traits.buildOnly [DecidableEq Class] (T : Traits Key Class Value) (value : Value) (key : Key) :
    Built Value Effect Thrown :=
  ([], .ok (if T.classOf (T.path value) = T.classOf key then some value else none))

section FirstCall

variable [DecidableEq Class] {T : Traits Key Class Value}

theorem Traits.buildOnly_honest (value : Value) :
    T.Honest (T.buildOnly value : Key → Built Value Effect Thrown) := by
  intro key built same
  simp only [Traits.buildOnly, Except.ok.injEq, Option.ite_none_right_eq_some, Option.some.injEq] at same
  obtain ⟨named, rfl⟩ := same
  exact named

/-- A single call, whose build succeeds. -/
def storing (Effect Thrown : Type) (T : Traits Key Class Value) (value : Value) :
    List (Call Key Value Effect Thrown) := [.put (T.buildOnly value) (T.path value)]

theorem storing_honest (value : Value) : ∀ call ∈ storing Effect Thrown T value, call.Honest T := by
  intro call member
  obtain rfl := List.mem_singleton.mp member
  exact T.buildOnly_honest value

/-- A cache of capacity zero is full when it is empty. -/
theorem storing_without_capacity (value : Value) :
    (([] : List Effect), Except.error Halt.undefined) ∈
      (LruCache.run T { capacity := 0 } (storing Effect Thrown T value)).2 := by
  have full : (∅ : UnorderedMap Class Nat).size = 0 := rfl
  simp [storing, LruCache.run, LruCache.perform, LruCache.put, LruCache.evict, Traits.buildOnly,
    full, Except.map]

theorem storing_with_capacity {capacity : Nat} (positive : 0 < capacity) (value : Value) :
    (LruCache.run T { capacity } (storing Effect Thrown T value)).1.cacheList.length = 1 := by
  have room : (∅ : UnorderedMap Class Nat).size ≠ capacity := positive.ne
  simp [storing, LruCache.run, LruCache.perform, LruCache.put, LruCache.pushFront, Traits.buildOnly,
    room]

theorem kept_of_positive {capacity : Int32} (positive : 1 ≤ capacity.toInt) :
    CapacityKept T Effect Thrown capacity := by
  have size := asSize_positive positive
  refine ⟨_, rfl, fun calls honest => ?_⟩
  have start : Coherent T ({ capacity := asSize capacity } : LruCache Class Value) :=
    .empty (by omega)
  obtain ⟨coherent, same, defined⟩ := LruCache.run_coherent calls start honest
  refine ⟨?_, coherent.size, defined⟩
  have bounded := coherent.bounded
  rw [same] at bounded
  simp only at bounded
  omega

theorem not_kept_at_zero (value : Value) : ¬ CapacityKept T Effect Thrown 0 := by
  rintro ⟨cache, made, kept⟩
  cases made
  exact (kept _ (storing_honest value)).2.2 _ (storing_without_capacity value) rfl

theorem not_kept_of_negative {capacity : Int32} (negative : capacity.toInt < 0) (value : Value) :
    ¬ CapacityKept T Effect Thrown capacity := by
  rintro ⟨cache, made, kept⟩
  cases made
  have bound := (kept _ (storing_honest value)).1
  rw [storing_with_capacity (asSize_negative negative) value] at bound
  omega

end FirstCall

/-- The bound is kept exactly for the capacities that leave room for one value. -/
theorem capacity_kept_iff [DecidableEq Class] (T : Traits Key Class Value) (Effect Thrown : Type)
    (value : Value) (capacity : Int32) :
    CapacityKept T Effect Thrown capacity ↔ 1 ≤ capacity.toInt := by
  refine ⟨fun kept => ?_, kept_of_positive⟩
  by_contra small
  by_cases zero : capacity.toInt = 0
  · obtain rfl : capacity = 0 := Int32.toInt_inj.mp zero
    exact not_kept_at_zero value kept
  · exact not_kept_of_negative (by omega) value kept

/-- Without room the first file cached is dropped from an empty list, or kept for good. -/
theorem file_cache_without_room :
    ¬ CapacityKept FileCache.traits SysCall Exception 0 ∧
      ¬ CapacityKept FileCache.traits SysCall Exception (-1) :=
  ⟨not_kept_at_zero { mPath := bytes "/a" },
    not_kept_of_negative (by decide) { mPath := bytes "/a" }⟩

end CoroMultiplex.Storage
