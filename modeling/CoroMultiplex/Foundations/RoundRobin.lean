import Mathlib.Data.Int.CardIntervalMod

/-! Taking turns around a circle. -/

set_option autoImplicit false

namespace CoroMultiplex.Foundations

/-- The places taken in turn from a first one on, the last followed by place zero. -/
def rotation (width : Nat) : Nat → Nat → List Nat
  | _, 0 => []
  | first, turns + 1 => first :: rotation width ((first + 1) % width) turns

namespace RoundRobin

variable {width first : Nat}

theorem rotation_eq_map (inside : first < width) (turns : Nat) :
    rotation width first turns = (List.range turns).map fun turn => (first + turn) % width := by
  induction turns generalizing first with
  | zero => rfl
  | succ turns ih =>
    have next : (first + 1) % width < width := Nat.mod_lt _ (by omega)
    rw [rotation, ih next, List.range_succ_eq_map, List.map_cons, List.map_map]
    refine List.cons_eq_cons.mpr ⟨(Nat.mod_eq_of_lt inside).symm, ?_⟩
    apply List.map_congr_left
    intro turn _
    simp only [Function.comp_apply, Nat.mod_add_mod]
    congr 1
    omega

theorem rotation_inside (inside : first < width) {turns place : Nat}
    (member : place ∈ rotation width first turns) : place < width := by
  rw [rotation_eq_map inside, List.mem_map] at member
  obtain ⟨turn, _, rfl⟩ := member
  exact Nat.mod_lt _ (by omega)

/-- A place has its turn whenever the number of turns comes to its distance from the first. -/
theorem count_rotation (inside : first < width) (turns : Nat) {place : Nat} (within : place < width) :
    (rotation width first turns).count place =
      turns.count (· ≡ place + (width - first) [MOD width]) := by
  rw [rotation_eq_map inside, List.count, List.countP_map, Nat.count]
  apply List.countP_congr
  intro turn _
  have around : place + (width - first) + first = place + width := by omega
  simp only [Function.comp_apply, beq_iff_eq, decide_eq_true_eq]
  calc (first + turn) % width = place
      ↔ first + turn ≡ place + width [MOD width] := by
        rw [Nat.ModEq, Nat.add_mod_right, Nat.mod_eq_of_lt within]
    _ ↔ turn ≡ place + (width - first) [MOD width] := by
        rw [← around, Nat.add_comm first turn]
        exact ⟨Nat.ModEq.add_right_cancel' first, Nat.ModEq.add_right first⟩

/-- No place has had two turns more than another. -/
theorem count_rotation_le (inside : first < width) (turns : Nat) {place other : Nat}
    (within : place < width) (alsoWithin : other < width) :
    (rotation width first turns).count place ≤ (rotation width first turns).count other + 1 := by
  have positive : 0 < width := by omega
  rw [count_rotation inside turns within, count_rotation inside turns alsoWithin,
    Nat.count_modEq_card _ positive, Nat.count_modEq_card _ positive]
  split <;> split <;> omega

end RoundRobin

end CoroMultiplex.Foundations
