import Mathlib.Data.Set.Card

/-! Resources that are held by one owner at a time. -/

set_option autoImplicit false

namespace CoroMultiplex.Foundations

variable {Owner Resource : Type}

/-- What is taken has an owner, and no two owners hold the same. -/
structure Exclusive (holding : Owner → Option Resource) (taken : Resource → Bool) : Prop where
  taken_iff : ∀ resource, taken resource = true ↔ ∃ owner, holding owner = some resource
  unique : ∀ first second resource, holding first = some resource →
    holding second = some resource → first = second

namespace Exclusive

variable {holding : Owner → Option Resource} {taken : Resource → Bool} {owner source : Owner}
variable {resource : Resource}

theorem empty : Exclusive (fun _ : Owner => (none : Option Resource)) (fun _ => false) where
  taken_iff _ := by simp
  unique _ _ _ held := by cases held

/-- Owners may let go of what they hold. -/
theorem shrink {left : Owner → Option Resource} {still : Resource → Bool}
    (exclusive : Exclusive holding taken)
    (held : ∀ owner resource, left owner = some resource → holding owner = some resource)
    (still_iff : ∀ resource, still resource = true ↔ ∃ owner, left owner = some resource) :
    Exclusive left still where
  taken_iff := still_iff
  unique first second resource fromFirst fromSecond :=
    exclusive.unique first second resource (held first resource fromFirst)
      (held second resource fromSecond)

variable [DecidableEq Owner]

theorem acquire [DecidableEq Resource] (exclusive : Exclusive holding taken)
    (idle : holding owner = none) (free : taken resource = false) :
    Exclusive (Function.update holding owner (some resource)) (Function.update taken resource true) where
  taken_iff other := by
    by_cases here : other = resource
    · subst here
      simp only [Function.update_self, true_iff]
      exact ⟨owner, Function.update_self ..⟩
    · rw [Function.update_of_ne here, exclusive.taken_iff]
      constructor
      · rintro ⟨holder, held⟩
        have apart : holder ≠ owner := fun same => by rw [same, idle] at held; cases held
        exact ⟨holder, by rw [Function.update_of_ne apart, held]⟩
      · rintro ⟨holder, held⟩
        by_cases same : holder = owner
        · rw [same, Function.update_self, Option.some.injEq] at held
          exact absurd held.symm here
        · exact ⟨holder, by rwa [Function.update_of_ne same] at held⟩
  unique first second other := by
    have notTaken : ∀ holder, holding holder ≠ some resource := fun holder held => by
      rw [(exclusive.taken_iff resource).mpr ⟨holder, held⟩] at free
      cases free
    by_cases left : first = owner
    · by_cases right : second = owner
      · exact fun _ _ => left.trans right.symm
      · rw [left, Function.update_self, Function.update_of_ne right]
        intro here held
        cases here
        exact absurd held (notTaken second)
    · by_cases right : second = owner
      · rw [right, Function.update_self, Function.update_of_ne left]
        intro held here
        cases here
        exact absurd held (notTaken first)
      · rw [Function.update_of_ne left, Function.update_of_ne right]
        exact exclusive.unique first second other

theorem release [DecidableEq Resource] (exclusive : Exclusive holding taken)
    (held : holding owner = some resource) :
    Exclusive (Function.update holding owner none) (Function.update taken resource false) where
  taken_iff other := by
    by_cases here : other = resource
    · subst here
      simp only [Function.update_self, Bool.false_eq_true, false_iff]
      rintro ⟨holder, stillHeld⟩
      by_cases same : holder = owner
      · rw [same, Function.update_self] at stillHeld
        cases stillHeld
      · rw [Function.update_of_ne same] at stillHeld
        exact same (exclusive.unique holder owner other stillHeld held)
    · rw [Function.update_of_ne here, exclusive.taken_iff]
      constructor
      · rintro ⟨holder, holds⟩
        have apart : holder ≠ owner := fun same => by
          rw [same, held, Option.some.injEq] at holds
          exact here holds.symm
        exact ⟨holder, by rw [Function.update_of_ne apart, holds]⟩
      · rintro ⟨holder, holds⟩
        have apart : holder ≠ owner := fun same => by
          rw [same, Function.update_self] at holds
          cases holds
        exact ⟨holder, by rwa [Function.update_of_ne apart] at holds⟩
  unique first second other left right := by
    have kept : ∀ holder, Function.update holding owner none holder = some other →
        holding holder = some other := fun holder holds => by
      by_cases same : holder = owner
      · rw [same, Function.update_self] at holds
        cases holds
      · rwa [Function.update_of_ne same] at holds
    exact exclusive.unique first second other (kept first left) (kept second right)

/-- What one owner holds goes to another that holds nothing. -/
theorem transfer (exclusive : Exclusive holding taken) (idle : holding owner = none) :
    Exclusive (Function.update (Function.update holding owner (holding source)) source none) taken := by
  -- Whoever holds something afterwards held it before, but for the new owner.
  have origin : ∀ holder other,
      Function.update (Function.update holding owner (holding source)) source none holder = some other →
        holder ≠ source ∧ holding (if holder = owner then source else holder) = some other := by
    intro holder other holds
    by_cases gone : holder = source
    · rw [gone, Function.update_self] at holds
      cases holds
    · rw [Function.update_of_ne gone] at holds
      refine ⟨gone, ?_⟩
      by_cases moved : holder = owner
      · rw [moved, Function.update_self] at holds
        rw [if_pos moved, holds]
      · rw [Function.update_of_ne moved] at holds
        rw [if_neg moved, holds]
  constructor
  · intro resource
    rw [exclusive.taken_iff]
    constructor
    · rintro ⟨holder, held⟩
      have apart : holder ≠ owner := fun same => by rw [same, idle] at held; cases held
      by_cases moves : holder = source
      · have distinct : owner ≠ source := fun same => apart (moves.trans same.symm)
        exact ⟨owner, by rw [Function.update_of_ne distinct, Function.update_self, ← moves, held]⟩
      · exact ⟨holder, by rw [Function.update_of_ne moves, Function.update_of_ne apart, held]⟩
    · rintro ⟨holder, holds⟩
      exact ⟨_, (origin holder resource holds).2⟩
  · intro first second resource left right
    obtain ⟨firstStays, firstHeld⟩ := origin first resource left
    obtain ⟨secondStays, secondHeld⟩ := origin second resource right
    have same := exclusive.unique _ _ resource firstHeld secondHeld
    split at same <;> split at same
    · exact (by assumption : first = owner).trans (by assumption : second = owner).symm
    · exact absurd same.symm secondStays
    · exact absurd same firstStays
    · exact same

omit [DecidableEq Owner] in
/-- As many resources are taken as there are owners that hold one. -/
theorem ncard_taken (exclusive : Exclusive holding taken) :
    {resource | taken resource = true}.ncard = {owner | holding owner ≠ none}.ncard := by
  symm
  refine Set.ncard_congr
    (fun owner held => (holding owner).get (Option.isSome_iff_ne_none.mpr held)) ?_ ?_ ?_
  · intro owner held
    exact (exclusive.taken_iff _).mpr ⟨owner, (Option.some_get _).symm⟩
  · intro first second left right same
    have held : holding first =
        some ((holding first).get (Option.isSome_iff_ne_none.mpr left)) := (Option.some_get _).symm
    refine exclusive.unique first second _ held ?_
    rw [same, Option.some_get]
  · intro resource taken_
    obtain ⟨owner, held⟩ := (exclusive.taken_iff resource).mp taken_
    exact ⟨owner, by simp [held], by simp [held]⟩

end Exclusive

end CoroMultiplex.Foundations
