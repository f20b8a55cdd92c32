import Mathlib.Data.List.Infix

/-! Traces that merge the contributions of numbered lanes.

A merge keeps the order inside every lane. When the lane numbers never decrease
along the trace, the trace is the lanes one after another.
-/

set_option autoImplicit false

namespace CoroMultiplex.Foundations.Interleaving

variable {α : Type}

/-- What one lane contributed, in its own order. -/
def lane (index : Nat) (trace : List (Nat × α)) : List α :=
  (trace.filter fun entry => entry.1 == index).map Prod.snd

def Ordered (trace : List (Nat × α)) : Prop :=
  trace.Pairwise fun earlier later => earlier.1 ≤ later.1

@[simp] theorem lane_append (index : Nat) (first rest : List (Nat × α)) :
    lane index (first ++ rest) = lane index first ++ lane index rest := by
  simp [lane]

@[simp] theorem lane_same (index : Nat) (item : α) : lane index [(index, item)] = [item] := by
  simp [lane]

theorem lane_other {index other : Nat} (apart : other ≠ index) (item : α) :
    lane index [(other, item)] = [] := by
  simp [lane, apart]

theorem lane_ne_nil {trace : List (Nat × α)} {entry : Nat × α} (member : entry ∈ trace) :
    lane entry.1 trace ≠ [] := by
  intro empty
  have inLane : entry.2 ∈ lane entry.1 trace := by
    apply List.mem_map_of_mem
    exact List.mem_filter.mpr ⟨member, by simp⟩
  rw [empty] at inLane
  cases inLane

theorem ordered_snoc {trace : List (Nat × α)} {entry : Nat × α} (ordered : Ordered trace)
    (last : ∀ earlier ∈ trace, earlier.1 ≤ entry.1) : Ordered (trace ++ [entry]) := by
  apply List.pairwise_append.mpr
  refine ⟨ordered, List.pairwise_singleton .., ?_⟩
  intro earlier member later inLast
  rw [List.mem_singleton.mp inLast]
  exact last earlier member

/-- The entries of the last lane form the end of an ordered trace. -/
theorem ordered_split {trace : List (Nat × α)} (ordered : Ordered trace) {last : Nat}
    (bounded : ∀ entry ∈ trace, entry.1 < last + 1) :
    trace = (trace.filter fun entry => entry.1 < last) ++
      (trace.filter fun entry => entry.1 == last) := by
  induction trace with
  | nil => rfl
  | cons head trace ih =>
    obtain ⟨least, ordered⟩ := List.pairwise_cons.mp ordered
    have split := ih ordered fun entry member => bounded entry (by simp [member])
    have bound := bounded head (by simp)
    by_cases earlier : head.1 < last
    · have apart : head.1 ≠ last := by omega
      simp only [List.filter_cons, earlier, apart, decide_true, beq_iff_eq, if_true, if_false,
        List.cons_append]
      exact congrArg (head :: ·) split
    · have none : (head :: trace).filter (fun entry => entry.1 < last) = [] := by
        apply List.filter_eq_nil_iff.mpr
        intro entry member
        rcases List.mem_cons.mp member with rfl | inTail
        · simpa using earlier
        · have above := least entry inTail
          simp only [decide_eq_true_eq]
          omega
      have all : (head :: trace).filter (fun entry => entry.1 == last) = head :: trace := by
        apply List.filter_eq_self.mpr
        intro entry member
        have above : head.1 ≤ entry.1 := by
          rcases List.mem_cons.mp member with rfl | inTail
          · exact Nat.le_refl _
          · exact least entry inTail
        have below := bounded entry member
        simp only [beq_iff_eq]
        omega
      rw [none, all, List.nil_append]

/-- An ordered trace is the concatenation of its lanes. -/
theorem ordered_eq_lanes {trace : List (Nat × α)} (ordered : Ordered trace) {count : Nat}
    (bounded : ∀ entry ∈ trace, entry.1 < count) :
    trace.map Prod.snd = ((List.range count).map fun index => lane index trace).flatten := by
  induction count generalizing trace with
  | zero =>
    cases trace with
    | nil => rfl
    | cons head _ => exact absurd (bounded head (by simp)) (Nat.not_lt_zero _)
  | succ count ih =>
    have split := ordered_split ordered bounded
    have front := @ih (trace.filter fun entry => entry.1 < count)
      (ordered.sublist List.filter_sublist) (by
        intro entry member
        simpa using (List.mem_filter.mp member).2)
    have lanes : ((List.range count).map fun index =>
          lane index (trace.filter fun entry => entry.1 < count)) =
        (List.range count).map fun index => lane index trace := by
      apply List.map_congr_left
      intro index member
      have below := List.mem_range.mp member
      unfold lane
      rw [List.filter_filter]
      congr 1
      apply List.filter_congr
      intro entry _
      by_cases same : entry.1 = index
      · simp [same, below]
      · simp [same]
    rw [List.range_succ, List.map_append, List.flatten_append, ← lanes, ← front]
    conv => lhs; rw [split, List.map_append]
    simp [lane]

end CoroMultiplex.Foundations.Interleaving
