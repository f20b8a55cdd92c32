import CoroMultiplex.Uring.Completion

/-! Every accepted connection is served once.

One request of `asyncAccept` gets any number of completions. Each success among them
leads to one task of the handler, and only the last one resumes `asyncAccept`.
-/

set_option autoImplicit false

namespace CoroMultiplex.Uring

open Foundations Http

/-- Acceptors await nothing but multishot accepts with their own handler. -/
def Assigned (acceptor : Handle → Option Handler) (s : RingState) : Prop :=
  ∀ a ∈ s.started,
    match acceptor a.handle with
    | some handler => a.operation = .multishotAccept handler
    | none => a.operation.multishot = false

theorem Assigned.frame {acceptor : Handle → Option Handler} {s t : RingState}
    (assigned : Assigned acceptor s) (same : t.started = s.started) : Assigned acceptor t := by
  rw [Assigned, same]
  exact assigned

theorem RingState.started_awaitResume (acceptor : Handle → Option Handler) (s : RingState)
    (a : Await) : (s.awaitResume acceptor a).started = s.started := by
  unfold RingState.awaitResume
  cases s.memory a.address <;> rfl

theorem Assigned.step {acceptor : Handle → Option Handler} {s : RingState}
    (assigned : Assigned acceptor s) {event : Event} (enabled : Enabled acceptor s event) :
    Assigned acceptor (next acceptor s event) := by
  cases event with
  | await handle address operation =>
    intro a member
    rcases List.mem_append.mp member with early | late
    · exact assigned a early
    · obtain rfl := List.mem_singleton.mp late
      exact enabled.2.2
  | prep a free =>
    refine assigned.frame ?_
    cases free with
    | true => rfl
    | false => exact congrArg Books.started (s.books_setReturn a.address (.error .sqeBusy))
  | suspendReturns | complete => exact assigned.frame rfl
  | goOn a => exact assigned.frame (s.started_awaitResume acceptor a)
  | peek outcome => exact assigned.frame (congrArg Books.started (s.books_peek outcome))
  | reap => exact assigned.frame (congrArg Books.started s.books_reap)
  | resume task =>
    refine assigned.frame ?_
    cases task with
    | handler => rfl
    | coroutine handle c =>
      simp only [next]
      cases s.control handle with
      | suspended a => exact RingState.started_awaitResume acceptor _ a
      | running | suspending | refused | ended => rfl

/-- What became of one request of an acceptor. -/
structure Served (s : RingState) (handler : Handler) (a : Await) : Prop where
  -- one task for a success once the reaper has come to it, and none for an error
  tasks : ∀ c ∈ s.posted, c.owner = a → s.handed.filter (Task.serves c) =
    if (c ∈ s.handled ∨ s.reaper = .last c) ∧ c.res ≥ 0 then [.handler handler c.res c] else []
  -- armed, with its last completion still to be dealt with, or handed over: once
  once : s.kernel.countP (·.owner = a) +
    (s.unreaped.countP fun c => c.owner = a ∧ c.more = false) +
    s.handed.countP (Task.awakens a) = 1
  last : ∀ h c, .coroutine h c ∈ s.handed → c.owner = a → h = a.handle ∧ c.more = false ∧
    ∀ d ∈ s.posted, d.owner = a → d.serial ≤ c.serial
  resumed : s.handed.countP (Task.awakens a) =
    s.pool.countP (Task.awakens a) + s.results.countP (·.1 = a)
  result : ∀ value, (a, value) ∈ s.results →
    ∃ c ∈ s.posted, c.owner = a ∧ c.more = false ∧ (∀ d ∈ s.posted, d.owner = a → d.serial ≤ c.serial) ∧
      .coroutine a.handle c ∈ s.handed ∧ value = returned c.res

theorem Cqe.handlers_eq {c : Cqe} {handler : Handler}
    (operation : c.owner.operation = .multishotAccept handler) :
    c.handlers = if c.res ≥ 0 then [.handler handler c.res c] else [] := by
  rw [Cqe.handlers, operation]

namespace Orderly

variable {s : RingState} {a : Await}

theorem served (orderly : Orderly s) {handler : Handler} (granted : a ∈ s.granted)
    (operation : a.operation = .multishotAccept handler) : Served s handler a where
  tasks c posted owner := by
    have handlers := Cqe.handlers_eq (owner.symm ▸ operation : c.owner.operation = _)
    rw [orderly.filter_handed c, handlers]
    by_cases come : c ∈ s.handled ∨ s.reaper = .last c
    · rw [if_pos come]
      simp only [come, true_and]
    · rw [if_neg come]
      simp only [come, false_and, if_false]
  once := by
    have places := orderly.granted_eq a
    rw [(orderly.of_granted granted).1] at places
    exact places.symm
  last h c member owner := by
    obtain ⟨posted, same, final⟩ := orderly.of_handed_coroutine member
    refine ⟨owner ▸ same, final, fun d posted_ owner_ => ?_⟩
    exact orderly.balanced.order c posted d posted_ (owner.trans owner_.symm) final
  resumed := orderly.resumed_eq granted
  result value result := by
    obtain ⟨c, posted, owner, final, same, handed⟩ := orderly.result_of_granted granted result
    refine ⟨c, posted, owner, final, fun d posted_ owner_ => ?_, handed, same⟩
    exact orderly.balanced.order c posted d posted_ (owner.trans owner_.symm) final

end Orderly

end CoroMultiplex.Uring
