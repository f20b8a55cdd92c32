import Mathlib.Data.Finset.Card
import Mathlib.Data.List.Nodup
import CoroMultiplex.Foundations.Recency

/-! The faults of a recency list against what any other cache has to load.

The other cache may be smaller, may know all requests in advance, and may drop and load
whatever it likes before a request, as long as it holds what is requested. A potential
weighs the keys that the recency list holds and the other cache does not, the more the
more recently they were used.
-/

set_option autoImplicit false

namespace CoroMultiplex.Foundations

variable {Key : Type} [DecidableEq Key]

/-- The keys of a recency list after a request. -/
def touch (capacity : Nat) (keys : List Key) (key : Key) : List Key :=
  key :: (keys.filter (· ≠ key)).take (capacity - 1)

def faults (capacity : Nat) : List Key → List Key → Nat
  | _, [] => 0
  | keys, key :: requests =>
    (if key ∈ keys then 0 else 1) + faults capacity (touch capacity keys key) requests

/-- What a cache with this room holds while the requests are served, one after the other. -/
def Serves (room : Nat) (requests : List Key) (schedule : List (Finset Key)) : Prop :=
  List.Forall₂ (fun key held => key ∈ held ∧ held.card ≤ room) requests schedule

def loads : Finset Key → List (Finset Key) → Nat
  | _, [] => 0
  | held, after :: schedule => (after \ held).card + loads after schedule

/-- The weights of the keys that are not held, one less from key to key. -/
def potential (held : Finset Key) : Nat → List Key → Nat
  | _, [] => 0
  | weight, key :: keys => (if key ∈ held then 0 else weight) + potential held (weight - 1) keys

theorem touch_nodup (capacity : Nat) {keys : List Key} (distinct : keys.Nodup) (key : Key) :
    (touch capacity keys key).Nodup := by
  rw [touch, List.nodup_cons]
  refine ⟨fun twice => ?_, (distinct.filter _).sublist (List.take_sublist _ _)⟩
  have kept := (List.mem_filter.mp (List.mem_of_mem_take twice)).2
  simp at kept

theorem filter_absent {keys : List Key} {key : Key} (absent : key ∉ keys) :
    keys.filter (· ≠ key) = keys := by
  rw [List.filter_eq_self]
  intro other member
  simpa using fun same : other = key => absent (same ▸ member)

theorem touch_absent {capacity : Nat} {keys : List Key} {key : Key} (absent : key ∉ keys) :
    touch capacity keys key = key :: keys.take (capacity - 1) := by
  rw [touch, filter_absent absent]

theorem length_filter_present {keys : List Key} {key : Key} (distinct : keys.Nodup)
    (present : key ∈ keys) : (keys.filter (· ≠ key)).length + 1 = keys.length := by
  have erased : keys.filter (· ≠ key) = keys.erase key := by
    rw [distinct.erase_eq_filter]
    exact List.filter_congr fun other _ => by by_cases same : other = key <;> simp [same]
  have nonempty := List.length_pos_of_mem present
  rw [erased, List.length_erase_of_mem present]
  omega

theorem length_touch_le {capacity : Nat} (positive : 0 < capacity) (keys : List Key) (key : Key) :
    (touch capacity keys key).length ≤ capacity := by
  have taken := List.length_take_le (capacity - 1) (keys.filter (· ≠ key))
  rw [touch, List.length_cons]
  omega

namespace potential

theorem take_le (held : Finset Key) (weight count : Nat) (keys : List Key) :
    potential held weight (keys.take count) ≤ potential held weight keys := by
  induction keys generalizing weight count with
  | nil => simp
  | cons key keys ih =>
    cases count with
    | zero => simp [potential]
    | succ count =>
      rw [List.take_succ_cons, potential, potential]
      exact Nat.add_le_add_left (ih _ _) _

/-- A lower weight for every key takes one off for each key that is not held. -/
theorem lower (held : Finset Key) {weight : Nat} {keys : List Key} (bounded : keys.length ≤ weight) :
    potential held (weight - 1) keys + keys.countP (· ∉ held) ≤ potential held weight keys := by
  induction keys generalizing weight with
  | nil => simp [potential]
  | cons key keys ih =>
    rw [List.length_cons] at bounded
    have rest := @ih (weight - 1) (by omega)
    rw [potential, potential, List.countP_cons]
    by_cases member : key ∈ held
    · simp only [member, not_true, decide_false, if_true, Bool.false_eq_true, if_false]
      omega
    · simp only [member, not_false_eq_true, decide_true, if_true, if_false]
      omega

/-- A held key that leaves its place makes room for a lower weight of the others. -/
theorem leave {held : Finset Key} {key : Key} (member : key ∈ held) (weight : Nat) {keys : List Key}
    (distinct : keys.Nodup) (present : key ∈ keys) :
    potential held (weight - 1) (keys.filter (· ≠ key)) ≤ potential held weight keys := by
  induction keys generalizing weight with
  | nil => simp at present
  | cons head keys ih =>
    obtain ⟨apart, distinct⟩ := List.nodup_cons.mp distinct
    by_cases same : head = key
    · subst same
      rw [List.filter_cons_of_neg (by simp), filter_absent apart, potential, if_pos member,
        Nat.zero_add]
    · have later : key ∈ keys := (List.mem_cons.mp present).resolve_left (Ne.symm same)
      have rest := ih (weight - 1) distinct later
      rw [List.filter_cons_of_pos (by simpa using same), potential, potential]
      split <;> omega

theorem drop_le (held after : Finset Key) (weight : Nat) (keys : List Key) :
    potential after weight keys ≤
      potential held weight keys + weight * (keys.filter (· ∈ held \ after)).length := by
  induction keys generalizing weight with
  | nil => simp [potential]
  | cons key keys ih =>
    have rest := ih (weight - 1)
    have lighter := Nat.mul_le_mul_right (keys.filter (· ∈ held \ after)).length (Nat.sub_le weight 1)
    rw [potential, potential, List.filter_cons]
    by_cases before : key ∈ held <;> by_cases kept : key ∈ after <;>
      simp [before, kept, Nat.mul_add] at rest lighter ⊢ <;> omega

/-- What the other cache drops weighs no more than as many of the most recent keys. -/
theorem evict (held after : Finset Key) (weight : Nat) {keys : List Key} (distinct : keys.Nodup) :
    potential after weight keys ≤ potential held weight keys + weight * (held \ after).card := by
  have counted : (keys.filter (· ∈ held \ after)).length ≤ (held \ after).card := by
    rw [← List.toFinset_card_of_nodup (distinct.filter _)]
    apply Finset.card_le_card
    intro key member
    simpa using (List.mem_filter.mp (List.mem_toFinset.mp member)).2
  have heavier := Nat.mul_le_mul_left weight counted
  have dropped := drop_le held after weight keys
  omega

end potential

/-- On a fault the other cache holds the key, so not all of the recency list. -/
theorem absent_from_held {held : Finset Key} {room : Nat} {keys : List Key} {key : Key}
    (distinct : keys.Nodup) (member : key ∈ held) (bounded : held.card ≤ room) (absent : key ∉ keys) :
    keys.length + 1 ≤ keys.countP (· ∉ held) + room := by
  have shared : (keys.filter (· ∈ held)).length ≤ (held.erase key).card := by
    rw [← List.toFinset_card_of_nodup (distinct.filter _)]
    apply Finset.card_le_card
    intro other present
    obtain ⟨listed, kept⟩ := List.mem_filter.mp (List.mem_toFinset.mp present)
    have differs : other ≠ key := fun same => absent (same ▸ listed)
    exact Finset.mem_erase.mpr ⟨differs, by simpa using kept⟩
  have erased := Finset.card_erase_add_one member
  have split := List.length_eq_countP_add_countP (fun key => decide (key ∈ held)) (l := keys)
  rw [List.countP_eq_length_filter] at split
  simp only [decide_eq_true_eq] at split
  omega

section Competition

variable {capacity room : Nat} {held after : Finset Key} {keys : List Key} {key : Key}

/-- A request, once the other cache holds its key. -/
theorem potential_touch (positive : 0 < capacity) (fits : room ≤ capacity) (distinct : keys.Nodup)
    (bounded : keys.length ≤ capacity) (member : key ∈ held) (small : held.card ≤ room) :
    (capacity - room + 1) * (if key ∈ keys then 0 else 1) +
        potential held capacity (touch capacity keys key) + (capacity - room + 1) * keys.length ≤
      potential held capacity keys + (capacity - room + 1) * (touch capacity keys key).length := by
  have front : potential held capacity (touch capacity keys key) ≤
      potential held (capacity - 1) (keys.filter (· ≠ key)) := by
    rw [touch, potential, if_pos member, Nat.zero_add]
    exact potential.take_le _ _ _ _
  by_cases present : key ∈ keys
  · have left := potential.leave member capacity distinct present
    have length := length_filter_present distinct present
    have same : (touch capacity keys key).length = keys.length := by
      rw [touch, List.length_cons, List.length_take]
      omega
    rw [if_pos present, same]
    omega
  · rw [filter_absent present] at front
    have lowered := potential.lower held bounded
    have absent := absent_from_held distinct member small present
    rw [touch_absent present] at front ⊢
    rw [if_neg present, List.length_cons, List.length_take]
    by_cases full : keys.length = capacity
    · have same : min (capacity - 1) keys.length + 1 = keys.length := by omega
      rw [same]
      omega
    · have grown : min (capacity - 1) keys.length + 1 = keys.length + 1 := by omega
      rw [grown, Nat.mul_add]
      omega

/-- What one request does to the potential and to the size of both caches. -/
theorem potential_step (positive : 0 < capacity) (fits : room ≤ capacity) (distinct : keys.Nodup)
    (bounded : keys.length ≤ capacity) (member : key ∈ after) (small : after.card ≤ room) :
    (capacity - room + 1) * (if key ∈ keys then 0 else 1) +
        (potential after capacity (touch capacity keys key) + capacity * after.card +
          (capacity - room + 1) * keys.length) ≤
      capacity * (after \ held).card +
        (potential held capacity keys + capacity * held.card +
          (capacity - room + 1) * (touch capacity keys key).length) := by
  have dropped := potential.evict held after capacity distinct
  have touched := potential_touch positive fits distinct bounded member small
  have cards : (after \ held).card + held.card = (held \ after).card + after.card := by
    rw [Finset.card_sdiff_add_card, Finset.card_sdiff_add_card, Finset.union_comm]
  have charged := congrArg (capacity * ·) cards
  simp only [Nat.mul_add] at charged
  omega

theorem potential_run (positive : 0 < capacity) (fits : room ≤ capacity) {requests : List Key}
    {schedule : List (Finset Key)} (serves : Serves room requests schedule) (distinct : keys.Nodup)
    (bounded : keys.length ≤ capacity) :
    (capacity - room + 1) * (faults capacity keys requests + keys.length) ≤
      capacity * loads held schedule + (potential held capacity keys + capacity * held.card +
        (capacity - room + 1) * capacity) := by
  induction serves generalizing keys held with
  | nil =>
    have := Nat.mul_le_mul_left (capacity - room + 1) bounded
    rw [faults, loads, Nat.zero_add]
    omega
  | @cons key after requests schedule served _ ih =>
    have step := @potential_step _ _ _ _ held _ _ _ positive fits distinct bounded served.1 served.2
    have rest := @ih after _ (touch_nodup capacity distinct key) (length_touch_le positive keys key)
    rw [faults, loads]
    simp only [Nat.mul_add] at step rest ⊢
    omega

/-- From empty caches, a recency list faults at most `capacity` times for every
`capacity - room + 1` keys that the other cache loads, but for its first `capacity` faults. -/
theorem faults_competitive (positive : 0 < capacity) (fits : room ≤ capacity) {requests : List Key}
    {schedule : List (Finset Key)} (serves : Serves room requests schedule) :
    (capacity - room + 1) * faults capacity [] requests ≤
      capacity * loads ∅ schedule + (capacity - room + 1) * capacity := by
  have run := @potential_run _ _ _ _ ∅ _ positive fits _ _ serves List.nodup_nil
    (Nat.zero_le capacity)
  simpa [potential] using run

end Competition

namespace Recency

variable {Value : Type} {capacity : Nat}

theorem keys_use (self : Recency Key Value capacity) (key : Key) (value : Value) :
    (self.use key value).pairs.map Prod.fst = touch capacity (self.pairs.map Prod.fst) key := by
  rw [touch, use, List.map_cons, List.map_take, List.filter_map]
  rfl

end Recency

end CoroMultiplex.Foundations
