import Mathlib.Logic.Function.Basic
import Mathlib.Order.Basic

/-! Locks that are taken exclusively or shared, and progress from a lock order.

A holder is one lock guard's scope. Sharing is refused only while a lock is
owned, so a holder may share a lock that another holder of its thread shares.
-/

set_option autoImplicit false

namespace CoroMultiplex.Foundations

/-- The lock operation of a step. -/
inductive LockAction (Lock : Type) where
  | acquire (lock : Lock)
  | release (lock : Lock)
  | share (lock : Lock)
  | unshare (lock : Lock)
  | compute
  deriving DecidableEq

structure LockTable (Holder Lock : Type) where
  owner : Lock → Option Holder := fun _ => none
  sharing : Lock → Holder → Bool := fun _ _ => false

/-- What a point of control holds. -/
structure HeldLocks (Lock : Type) where
  exclusive : List Lock := []
  shared : List Lock := []

variable {Holder Lock : Type} [DecidableEq Holder] [DecidableEq Lock]

namespace LockAction

def Ready (table : LockTable Holder Lock) : LockAction Lock → Prop
  | .acquire lock => table.owner lock = none ∧ ∀ holder, table.sharing lock holder = false
  | .share lock => table.owner lock = none
  | _ => True

def perform (holder : Holder) (table : LockTable Holder Lock) : LockAction Lock → LockTable Holder Lock
  | .acquire lock => { table with owner := Function.update table.owner lock (some holder) }
  | .release lock => { table with owner := Function.update table.owner lock none }
  | .share lock =>
    { table with
      sharing := Function.update table.sharing lock
        (Function.update (table.sharing lock) holder true) }
  | .unshare lock =>
    { table with
      sharing := Function.update table.sharing lock
        (Function.update (table.sharing lock) holder false) }
  | .compute => table

theorem perform_owner (action : LockAction Lock) (table : LockTable Holder Lock)
    (holder other : Holder) (lock : Lock) :
    (action.perform holder table).owner lock = some other ↔
      action = .acquire lock ∧ other = holder ∨
        table.owner lock = some other ∧ action ≠ .acquire lock ∧ action ≠ .release lock := by
  cases action with
  | acquire wanted =>
    by_cases same : lock = wanted
    · subst same; simp [perform, eq_comm]
    · simp [perform, same, Ne.symm same]
  | release freed =>
    by_cases same : lock = freed
    · subst same; simp [perform]
    · simp [perform, same, Ne.symm same]
  | _ => simp [perform]

theorem perform_sharing (action : LockAction Lock) (table : LockTable Holder Lock)
    (holder other : Holder) (lock : Lock) :
    (action.perform holder table).sharing lock other = true ↔
      action = .share lock ∧ other = holder ∨
        table.sharing lock other = true ∧ ¬ (action = .unshare lock ∧ other = holder) := by
  cases action with
  | share wanted =>
    by_cases same : lock = wanted
    · subst same
      by_cases here : other = holder <;> simp [perform, here]
    · simp [perform, same, Ne.symm same]
  | unshare freed =>
    by_cases same : lock = freed
    · subst same
      by_cases here : other = holder <;> simp [perform, here]
    · simp [perform, same, Ne.symm same]
  | _ => simp [perform]

/-- The lock a step waits for. -/
def wanted : LockAction Lock → Option Lock
  | .acquire lock | .share lock => some lock
  | _ => none

end LockAction

namespace HeldLocks

def holds (held : HeldLocks Lock) (lock : Lock) : Prop := lock ∈ held.exclusive ∨ lock ∈ held.shared

/-- The step between two points of control accounts for the locks they hold. -/
structure Follows (before after : HeldLocks Lock) (action : LockAction Lock) : Prop where
  exclusive : ∀ lock, lock ∈ after.exclusive ↔
    action = .acquire lock ∨ lock ∈ before.exclusive ∧ action ≠ .release lock
  shared : ∀ lock, lock ∈ after.shared ↔
    action = .share lock ∨ lock ∈ before.shared ∧ action ≠ .unshare lock
  released : ∀ lock, action = .release lock → lock ∈ before.exclusive

end HeldLocks

/-- The table says of every holder what its point of control says. -/
structure Agrees (table : LockTable Holder Lock) (held : Holder → HeldLocks Lock) : Prop where
  owner : ∀ lock holder, table.owner lock = some holder ↔ lock ∈ (held holder).exclusive
  sharing : ∀ lock holder, table.sharing lock holder = true ↔ lock ∈ (held holder).shared
  excluded : ∀ lock holder, lock ∈ (held holder).exclusive → ∀ other, lock ∉ (held other).shared

namespace Agrees

variable {table : LockTable Holder Lock} {held : Holder → HeldLocks Lock}

omit [DecidableEq Holder] [DecidableEq Lock] in
/-- No two holders own the same lock. -/
theorem owner_unique (agrees : Agrees table held) {lock : Lock} {first second : Holder}
    (left : lock ∈ (held first).exclusive) (right : lock ∈ (held second).exclusive) :
    first = second := by
  have owned := (agrees.owner lock first).mpr left
  rw [(agrees.owner lock second).mpr right] at owned
  exact (Option.some.inj owned).symm

omit [DecidableEq Holder] [DecidableEq Lock] in
theorem not_owned (agrees : Agrees table held) {lock : Lock} (free : table.owner lock = none)
    (holder : Holder) : lock ∉ (held holder).exclusive := by
  intro member
  rw [(agrees.owner lock holder).mpr member] at free
  cases free

theorem step (agrees : Agrees table held) {holder : Holder} {after : HeldLocks Lock}
    {action : LockAction Lock} (ready : action.Ready table)
    (follows : HeldLocks.Follows (held holder) after action) :
    Agrees (action.perform holder table) (Function.update held holder after) := by
  have others : ∀ other, other ≠ holder → Function.update held holder after other = held other :=
    fun other apart => Function.update_of_ne apart _ _
  constructor
  · intro lock other
    rw [LockAction.perform_owner, agrees.owner]
    by_cases here : other = holder
    · subst here
      rw [Function.update_self, follows.exclusive]
      by_cases acquired : action = .acquire lock <;> simp [acquired]
    · rw [others other here]
      constructor
      · rintro (⟨_, mine⟩ | ⟨before, _⟩)
        · exact absurd mine here
        · exact before
      -- The lock of another holder is neither free to be acquired nor this one's to release.
      · intro before
        refine .inr ⟨before, ?_, ?_⟩
        · rintro rfl
          exact agrees.not_owned ready.1 other before
        · rintro rfl
          exact here (agrees.owner_unique before (follows.released lock rfl))
  · intro lock other
    rw [LockAction.perform_sharing, agrees.sharing]
    by_cases here : other = holder
    · subst here
      simp [follows.shared]
    · simp [here]
  · -- A lock is owned before, or acquired now when nobody shares it.
    have was : ∀ lock other, lock ∈ (Function.update held holder after other).exclusive →
        action = .acquire lock ∨ lock ∈ (held other).exclusive := by
      intro lock other member
      by_cases here : other = holder
      · subst here
        rw [Function.update_self] at member
        exact ((follows.exclusive lock).mp member).imp_right And.left
      · rw [others other here] at member
        exact Or.inr member
    have shared : ∀ lock other, lock ∈ (Function.update held holder after other).shared →
        action = .share lock ∨ lock ∈ (held other).shared := by
      intro lock other member
      by_cases here : other = holder
      · subst here
        rw [Function.update_self] at member
        exact ((follows.shared lock).mp member).imp_right And.left
      · rw [others other here] at member
        exact Or.inr member
    intro lock first owned second sharing
    rcases was lock first owned with rfl | owned
    · rcases shared lock second sharing with impossible | sharing
      · cases impossible
      · have free := ready.2 second
        rw [(agrees.sharing lock second).mpr sharing] at free
        cases free
    · rcases shared lock second sharing with rfl | sharing
      · exact agrees.not_owned ready first owned
      · exact agrees.excluded lock first owned second sharing

omit [DecidableEq Holder] [DecidableEq Lock] in
/-- A step that has to wait waits for a lock that somebody holds. -/
theorem holder_of_blocked (agrees : Agrees table held) {action : LockAction Lock}
    (blocked : ¬ action.Ready table) :
    ∃ lock, action.wanted = some lock ∧ ∃ holder, (held holder).holds lock := by
  cases action with
  | acquire lock =>
    refine ⟨lock, rfl, ?_⟩
    by_cases free : table.owner lock = none
    · have sharing : ∃ holder, table.sharing lock holder = true := by
        by_contra none
        apply blocked
        refine ⟨free, fun holder => ?_⟩
        simpa using not_exists.mp none holder
      obtain ⟨holder, sharing⟩ := sharing
      exact ⟨holder, Or.inr ((agrees.sharing lock holder).mp sharing)⟩
    · obtain ⟨holder, owned⟩ := Option.ne_none_iff_exists'.mp free
      exact ⟨holder, Or.inl ((agrees.owner lock holder).mp owned)⟩
  | share lock =>
    obtain ⟨holder, owned⟩ := Option.ne_none_iff_exists'.mp blocked
    exact ⟨lock, rfl, holder, Or.inl ((agrees.owner lock holder).mp owned)⟩
  | _ => exact absurd trivial blocked

omit [DecidableEq Holder] [DecidableEq Lock] in
/-- When every blocked holder waits for a lock above the ones it holds, a blocked step
leads to a holder of a lock at least as high that is not blocked. -/
theorem unblocked_holder (agrees : Agrees table held) (action : Holder → LockAction Lock)
    (rank : Lock → Nat) (top : Nat) (bounded : ∀ lock, rank lock ≤ top)
    (ordered : ∀ holder lock, ¬ (action holder).Ready table → (action holder).wanted = some lock →
      ∀ lower, (held holder).holds lower → rank lower < rank lock)
    {holder : Holder} (blocked : ¬ (action holder).Ready table) :
    ∃ lock, (action holder).wanted = some lock ∧ ∃ other higher, (held other).holds higher ∧
      rank lock ≤ rank higher ∧ (action other).Ready table := by
  -- Along the chain of waits the ranks grow, so the distance to the top shrinks.
  have chain : ∀ distance lock other, top - rank lock = distance → (held other).holds lock →
      ∃ final higher, (held final).holds higher ∧ rank lock ≤ rank higher ∧
        (action final).Ready table := by
    intro distance
    induction distance using Nat.strongRecOn with
    | ind distance ih =>
      intro lock other far holding
      by_cases ready : (action other).Ready table
      · exact ⟨other, lock, holding, Nat.le_refl _, ready⟩
      · obtain ⟨next, wants, third, holds⟩ := agrees.holder_of_blocked ready
        have above := ordered other next ready wants lock holding
        have below := bounded next
        obtain ⟨final, higher, last, grown, ready⟩ :=
          ih (top - rank next) (by omega) next third rfl holds
        exact ⟨final, higher, last, by omega, ready⟩
  obtain ⟨lock, wants, other, holding⟩ := agrees.holder_of_blocked blocked
  exact ⟨lock, wants, chain _ lock other rfl holding⟩

end Agrees

end CoroMultiplex.Foundations
