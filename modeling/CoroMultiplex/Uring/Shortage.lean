import CoroMultiplex.Uring.Accept

/-! The accept loop while resources are short.

The epoll loop goes on when there are no more descriptors, and the io_uring loop throws.
A completion is only a shortage if it says so; every other passing error arms the
next request.
-/

set_option autoImplicit false

namespace CoroMultiplex.Uring

open Foundations Http

variable {acceptor : Handle → Option Handler} {s : RingState}

/-- What one step does to the coroutines and to the results of their awaits. -/
inductive Turn (acceptor : Handle → Option Handler) (s : RingState) : Event → RingState → Prop
  | still {event : Event} {t : RingState} (control : t.control = s.control)
      (results : t.results = s.results) : Turn acceptor s event t
  | starts {t : RingState} (a : Await) (running : s.control a.handle = .running)
      (control : t.control = Function.update s.control a.handle (.suspending a))
      (results : t.results = s.results) : Turn acceptor s (.await a.handle a.address a.operation) t
  | submits {event : Event} {t : RingState} (a : Await) (suspending : s.control a.handle = .suspending a)
      (after : Control) (named : after.await? = some a)
      (control : t.control = Function.update s.control a.handle after)
      (results : t.results = s.results) : Turn acceptor s event t
  | goesOn {event : Event} {t : RingState} (a : Await) (value : Except ErrorCode Int)
      (named : (s.control a.handle).await? = some a)
      (control : t.control = Function.update s.control a.handle
        (RingState.afterwards acceptor a.handle value))
      (results : t.results = s.results ++ [(a, value)]) : Turn acceptor s event t

/-- An acceptor has ended exactly if a result has made it throw. -/
def Judged (acceptor : Handle → Option Handler) (s : RingState) : Prop :=
  ∀ h handler, acceptor h = some handler →
    (s.control h = .ended ↔
      ∃ a value, (a, value) ∈ s.results ∧ a.handle = h ∧ acceptAgain value = false)

theorem Judged.move {t : RingState} (judged : Judged acceptor s) {h : Handle} {after : Control}
    (awake : s.control h ≠ .ended) (goes : after ≠ .ended)
    (control : t.control = Function.update s.control h after) (results : t.results = s.results) :
    Judged acceptor t := by
  intro k handler accepts
  rw [control, results]
  by_cases here : k = h
  · subst here
    rw [Function.update_self, ← judged k handler accepts]
    exact iff_of_false goes awake
  · rw [Function.update_of_ne here]
    exact judged k handler accepts

/-- A result is the last one, or one of those before. -/
theorem throwing_append {results : List (Await × Except ErrorCode Int)} {a : Await}
    {value : Except ErrorCode Int} {h : Handle} :
    (∃ b other, (b, other) ∈ results ++ [(a, value)] ∧ b.handle = h ∧ acceptAgain other = false) ↔
      (∃ b other, (b, other) ∈ results ∧ b.handle = h ∧ acceptAgain other = false) ∨
        (a.handle = h ∧ acceptAgain value = false) := by
  constructor
  · rintro ⟨b, other, member, own, verdict⟩
    rcases List.mem_append.mp member with early | late
    · exact .inl ⟨b, other, early, own, verdict⟩
    · cases List.mem_singleton.mp late
      exact .inr ⟨own, verdict⟩
  · rintro (⟨b, other, early, own, verdict⟩ | ⟨own, verdict⟩)
    · exact ⟨b, other, List.mem_append_left _ early, own, verdict⟩
    · exact ⟨a, value, List.mem_append_right _ (List.mem_singleton_self _), own, verdict⟩

theorem afterwards_eq_ended {h : Handle} {handler : Handler} (accepts : acceptor h = some handler)
    (value : Except ErrorCode Int) :
    RingState.afterwards acceptor h value = .ended ↔ acceptAgain value = false := by
  rw [RingState.afterwards, accepts]
  cases acceptAgain value <;> simp

/-- The result of an await decides about its coroutine, and about no other one. -/
theorem Judged.goesOn {t : RingState} (judged : Judged acceptor s) {a : Await}
    {value : Except ErrorCode Int} (awake : s.control a.handle ≠ .ended)
    (control : t.control = Function.update s.control a.handle
      (RingState.afterwards acceptor a.handle value))
    (results : t.results = s.results ++ [(a, value)]) : Judged acceptor t := by
  intro h handler accepts
  rw [control, results, throwing_append]
  by_cases here : h = a.handle
  · subst here
    have before := (judged a.handle handler accepts).not.mp awake
    rw [Function.update_self, afterwards_eq_ended accepts, or_iff_right before]
    exact (and_iff_right rfl).symm
  · rw [Function.update_of_ne here, judged h handler accepts, or_iff_left]
    exact fun last => here last.1.symm

theorem Judged.turn {event : Event} {t : RingState} (judged : Judged acceptor s)
    (turn : Turn acceptor s event t) : Judged acceptor t := by
  cases turn with
  | still control results =>
    intro h handler accepts
    rw [control, results]
    exact judged h handler accepts
  | starts a running control results =>
    refine judged.move ?_ ?_ control results
    · rw [running]
      exact fun same => by cases same
    · exact fun same => by cases same
  | submits a suspending after named control results =>
    refine judged.move ?_ ?_ control results
    · rw [suspending]
      exact fun same => by cases same
    · rintro rfl
      cases named
  | goesOn a value named control results =>
    refine judged.goesOn ?_ control results
    intro ended
    rw [ended] at named
    cases named

end CoroMultiplex.Uring
