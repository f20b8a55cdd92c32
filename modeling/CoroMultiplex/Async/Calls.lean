import CoroMultiplex.Async.Task

/-! Tasks as plain recursive calls.

A body whose every await is a call has an outcome, and the calls it makes have a trace.
A running coroutine comes to the end of its body with this outcome and this trace, at
whatever times its suspended coroutines are resumed.
-/

set_option autoImplicit false

namespace CoroMultiplex.Async

open Foundations

variable {A V E : Type}

namespace Body

/-- The outcome of the body when each await is a call. -/
def eval : Body A V E → Except E V
  | .done outcome => outcome
  | .perform _ rest => rest.eval
  | .schedule rest => rest.eval
  | .await child next => (next child.eval).eval

/-- The actions of the body and of all it calls. -/
def actions : Body A V E → List A
  | .done _ => []
  | .perform action rest => action :: rest.actions
  | .schedule rest => rest.actions
  | .await child next => child.actions ++ (next child.eval).actions

/-- How many calls the body makes, those of its children included. -/
def calls : Body A V E → Nat
  | .done _ => 0
  | .perform _ rest => rest.calls
  | .schedule rest => rest.calls
  | .await child next => 1 + child.calls + (next child.eval).calls

/-- The trace of the calls, when the caller has a handle and fresh ones count from another. -/
def trace : Body A V E → Handle → Nat → List (Happening A V E)
  | .done _, _, _ => []
  | .perform action rest, handle, fresh => .acts action :: rest.trace handle fresh
  | .schedule rest, handle, fresh => .suspends handle :: rest.trace handle fresh
  | .await child next, handle, fresh =>
    .awaits handle fresh :: child.trace fresh (fresh + 1) ++
      [.ends fresh child.eval, .returnsTo fresh handle, .yields handle fresh child.eval] ++
      (next child.eval).trace handle (fresh + 1 + child.calls)

end Body

/-- A coroutine has come from running one body to running another, and what it has
called is over. -/
structure Ran (s : TaskState A V E) (handle : Handle) (body : Body A V E) (t : TaskState A V E) :
    Prop where
  control : t.control = .running handle (.done body.eval)
  suspended : t.suspended = []
  allocated : t.allocated = s.allocated + body.calls
  history : t.history = s.history ++ body.trace handle s.allocated
  -- the frames of its callers, and its own, are as they were
  frames : ∀ other, other < s.allocated → t.frames other = s.frames other

/-- A coroutine runs with nothing else under way. -/
structure Runs (s : TaskState A V E) (handle : Handle) (body : Body A V E) : Prop where
  control : s.control = .running handle body
  suspended : s.suspended = []
  below : handle < s.allocated
  active : ∃ promise, s.frames handle = some ⟨.active, promise⟩

namespace TaskState

/-- Suspending on the scheduler and being resumed changes nothing but the trace. -/
theorem resume_schedule [Inhabited V] {s : TaskState A V E} {handle : Handle}
    {promise : Promise V E} (active : s.frames handle = some ⟨.active, promise⟩)
    (alone : s.suspended = []) (rest : Body A V E) :
    TaskState.resume
        { s.run handle (.schedule rest) with suspended := [], control := .resuming handle } handle =
      { s with control := .running handle rest, history := s.history ++ [.suspends handle] } := by
  have same : Function.update s.frames handle (some ⟨.active, promise⟩) = s.frames := by
    rw [← active, Function.update_eq_self]
  simp only [run, note, suspendAt, withFrame, active, setFrame, resume, Function.update_self,
    Function.update_idem, same, alone]

/-- Awaiting a child suspends the caller, and creates and awaits the child. -/
theorem run_await [Inhabited V] {s : TaskState A V E} {handle : Handle} {promise : Promise V E}
    (active : s.frames handle = some ⟨.active, promise⟩) (below : handle < s.allocated)
    (child : Body A V E) (after : Except E V → Body A V E) :
    s.run handle (.await child after) =
      (create { s with
        frames := Function.update s.frames handle (some ⟨.awaiting s.allocated after, promise⟩)
        history := s.history ++ [.awaits handle s.allocated] } child).awaitSuspend
          s.allocated handle := by
  have apart : handle ≠ s.allocated := Nat.ne_of_lt below
  simp only [run, create, setFrame, note, suspendAt, withFrame, Function.update_of_ne apart, active,
    awaitSuspend, Function.update_of_ne apart.symm, Function.update_self]
  rw [Function.update_comm apart.symm]

/-- A child that is created and awaited runs, with the caller stored in its promise. -/
theorem resume_created [Inhabited V] (s : TaskState A V E) (child : Body A V E) (caller : Handle) :
    ((s.create child).awaitSuspend s.allocated caller).control = .resuming s.allocated ∧
      ((s.create child).awaitSuspend s.allocated caller).resume s.allocated =
        { s with
          frames := Function.update s.frames s.allocated
            (some ⟨.active, { prevCoro := some caller, returnValue := default }⟩)
          allocated := s.allocated + 1
          control := .running s.allocated child } := by
  simp [create, awaitSuspend, withFrame, setFrame, resume]

/-- An attached coroutine ends by storing its outcome and resuming the one that awaits it. -/
theorem finish_attached {s : TaskState A V E} {handle prevCoro : Handle} {point : Point A V E}
    {value : V} (found : s.frames handle =
      some ⟨point, { prevCoro := some prevCoro, returnValue := value }⟩) (outcome : Except E V) :
    ∃ promise : Promise V E, promise.getValue = outcome ∧ s.finish handle outcome =
      { s with
        frames := Function.update s.frames handle (some ⟨.final, promise⟩)
        control := .resuming prevCoro
        history := s.history ++ [.ends handle outcome, .returnsTo handle prevCoro] } := by
  cases outcome with
  | ok value =>
    refine ⟨{ prevCoro := some prevCoro, returnValue := value }, rfl, ?_⟩
    simp [finish, withFrame, found, finalSuspend, Promise.finalSuspend,
      ReturnPrevAwaiter.awaitSuspend, note, setFrame]
  | error exception =>
    refine ⟨{ returnException := some exception, prevCoro := some prevCoro, returnValue := value },
      rfl, ?_⟩
    simp [finish, withFrame, found, Promise.unhandledException, finalSuspend,
      Promise.finalSuspend, ReturnPrevAwaiter.awaitSuspend, note, setFrame]

/-- Behind its await a coroutine goes on with what the child has stored. -/
theorem resume_awaiting {s : TaskState A V E} {handle selfCoro : Handle} {promise stored : Promise V E}
    {after : Except E V → Body A V E} {point : Point A V E} (apart : selfCoro ≠ handle)
    (awaiting : s.frames handle = some ⟨.awaiting selfCoro after, promise⟩)
    (child : s.frames selfCoro = some ⟨point, stored⟩) :
    s.resume handle =
      { s with
        frames := Function.update s.frames handle (some ⟨.active, promise⟩)
        control := .running handle (after stored.getValue)
        history := s.history ++ [.yields handle selfCoro stored.getValue] } := by
  simp [resume, withFrame, awaiting, setFrame, Function.update_of_ne apart, child, note]

end TaskState

theorem Ran.trans {s middle t : TaskState A V E} {handle : Handle} {body rest : Body A V E}
    {events : List (Happening A V E)} (ran : Ran middle handle rest t) (outcome : rest.eval = body.eval)
    {before : Nat} (allocated : middle.allocated = s.allocated + before)
    (calls : body.calls = before + rest.calls) (history : middle.history = s.history ++ events)
    (trace : body.trace handle s.allocated = events ++ rest.trace handle (s.allocated + before))
    (frames : ∀ other, other < s.allocated → middle.frames other = s.frames other) :
    Ran s handle body t where
  control := outcome ▸ ran.control
  suspended := ran.suspended
  allocated := by
    rw [ran.allocated, allocated, calls, Nat.add_assoc]
  history := by
    rw [ran.history, history, trace, allocated, List.append_assoc]
  frames other below := by
    rw [ran.frames other (by omega), frames other below]

section Running

variable [Inhabited V]

/-- While control is with a coroutine there is nothing to do but to go on. -/
theorem leads_proceed {s t : TaskState A V E} (enabled : Enabled s .proceed)
    (step : next s .proceed = t) : (machine A V E).Leads s t := by
  refine Machine.Leads.step .proceed (fun other => ?_) step
  change Enabled s other ↔ _
  cases other with
  | proceed => exact iff_of_true enabled rfl
  | resume handle =>
    refine iff_of_false (fun both => ?_) (fun same => by cases same)
    cases control : s.control <;> simp [Enabled, control] at enabled both

theorem leads_running {s t : TaskState A V E} {handle : Handle} {body : Body A V E}
    (control : s.control = .running handle body) (step : s.run handle body = t) :
    (machine A V E).Leads s t :=
  leads_proceed (by simp only [Enabled, control]) (by simp only [next, control, step])

theorem leads_resuming {s t : TaskState A V E} {handle : Handle}
    (control : s.control = .resuming handle) (step : s.resume handle = t) :
    (machine A V E).Leads s t :=
  leads_proceed (by simp only [Enabled, control]) (by simp only [next, control, step])

/-- A suspended coroutine is the only one that can be resumed. -/
theorem leads_suspended {s : TaskState A V E} {handle : Handle} (idle : s.control = .idle .returns)
    (alone : s.suspended = [handle]) :
    (machine A V E).Leads s { s with suspended := [], control := .resuming handle } := by
  refine Machine.Leads.step (.resume handle) (fun other => ?_) ?_
  · change Enabled s other ↔ _
    cases other <;> simp [Enabled, idle, alone]
  · change next s (.resume handle) = _
    rw [next, alone, List.erase_cons_head]

/-- A child has come to its end and handed its outcome to the coroutine that awaits it. -/
structure Returned (s : TaskState A V E) (child : Body A V E) (caller : Handle)
    (t : TaskState A V E) : Prop where
  control : t.control = .resuming caller
  suspended : t.suspended = []
  allocated : t.allocated = s.allocated + (1 + child.calls)
  history : t.history = s.history ++ (child.trace s.allocated (s.allocated + 1) ++
    [.ends s.allocated child.eval, .returnsTo s.allocated caller])
  stored : ∃ promise : Promise V E, promise.getValue = child.eval ∧
    t.frames s.allocated = some ⟨.final, promise⟩
  frames : ∀ other, other < s.allocated → t.frames other = s.frames other

/-- If a child comes to the end of its body, its outcome gets to whatever awaits it. -/
theorem leads_returned {s : TaskState A V E} {child : Body A V E} (alone : s.suspended = [])
    (runs : ∀ {s : TaskState A V E} {handle : Handle}, Runs s handle child →
      ∃ t, (machine A V E).Leads s t ∧ Ran s handle child t) (caller : Handle) :
    ∃ t, (machine A V E).Leads ((s.create child).awaitSuspend s.allocated caller) t ∧
      Returned s child caller t := by
  obtain ⟨entering, entered⟩ := s.resume_created child caller
  obtain ⟨t, leads, ran⟩ := @runs
    { s with
      frames := Function.update s.frames s.allocated
        (some ⟨.active, { prevCoro := some caller, returnValue := default }⟩)
      allocated := s.allocated + 1
      control := .running s.allocated child }
    s.allocated ⟨rfl, alone, Nat.lt_succ_self _, _, Function.update_self ..⟩
  have found := (ran.frames s.allocated (Nat.lt_succ_self _)).trans (Function.update_self ..)
  obtain ⟨stored, value, finish⟩ := TaskState.finish_attached found child.eval
  have ends := leads_running ran.control finish
  refine ⟨_, (leads_resuming entering entered).trans (leads.trans ends), {
    control := rfl
    suspended := ran.suspended
    allocated := ran.allocated.trans (Nat.add_assoc ..)
    history := by simp [ran.history]
    stored := ⟨stored, value, Function.update_self ..⟩
    frames := fun other below => ?_ }⟩
  exact (Function.update_of_ne (Nat.ne_of_lt below) ..).trans
    ((ran.frames other (Nat.lt_succ_of_lt below)).trans
      (Function.update_of_ne (Nat.ne_of_lt below) ..))

/-- A coroutine goes on behind an await with the outcome of the child. -/
theorem Runs.await {s : TaskState A V E} {handle : Handle} {child : Body A V E}
    {after : Except E V → Body A V E} (runs : Runs s handle (.await child after))
    (ran : ∀ {s : TaskState A V E} {handle : Handle}, Runs s handle child →
      ∃ t, (machine A V E).Leads s t ∧ Ran s handle child t) :
    ∃ u, (machine A V E).Leads s u ∧ Runs u handle (after child.eval) ∧
      u.allocated = s.allocated + (1 + child.calls) ∧
      u.history = s.history ++ (.awaits handle s.allocated ::
        child.trace s.allocated (s.allocated + 1) ++
        [.ends s.allocated child.eval, .returnsTo s.allocated handle,
          .yields handle s.allocated child.eval]) ∧
      ∀ other, other < s.allocated → u.frames other = s.frames other := by
  obtain ⟨promise, active⟩ := runs.active
  have apart : s.allocated ≠ handle := (Nat.ne_of_lt runs.below).symm
  have first := leads_running runs.control (TaskState.run_await active runs.below child after)
  obtain ⟨t, leads, returned⟩ := @leads_returned A V E _
    { s with
      frames := Function.update s.frames handle (some ⟨.awaiting s.allocated after, promise⟩)
      history := s.history ++ [.awaits handle s.allocated] }
    child runs.suspended ran handle
  obtain ⟨stored, value, found⟩ := returned.stored
  have awaiting : t.frames handle = some ⟨.awaiting s.allocated after, promise⟩ :=
    (returned.frames handle runs.below).trans (Function.update_self ..)
  have last := leads_resuming returned.control (TaskState.resume_awaiting apart awaiting found)
  rw [value] at last
  refine ⟨_, first.trans (leads.trans last), ⟨rfl, returned.suspended, ?_, promise,
    Function.update_self ..⟩, returned.allocated, ?_, fun other below => ?_⟩
  · exact returned.allocated ▸ Nat.lt_add_right _ runs.below
  · simp [returned.history]
  · by_cases own : other = handle
    · subst own
      exact (Function.update_self ..).trans active.symm
    · exact (Function.update_of_ne own ..).trans
        ((returned.frames other below).trans (Function.update_of_ne own ..))

/-- Whatever it awaits and wherever it suspends, a running coroutine comes to the end of
its body, and in one way only. -/
theorem Runs.ran (body : Body A V E) {s : TaskState A V E} {handle : Handle}
    (runs : Runs s handle body) : ∃ t, (machine A V E).Leads s t ∧ Ran s handle body t := by
  induction body generalizing s handle with
  | done outcome =>
    exact ⟨s, .refl s, runs.control, runs.suspended, rfl, (List.append_nil _).symm, fun _ _ => rfl⟩
  | perform action rest ih =>
    have first := leads_running runs.control (rfl : s.run handle (.perform action rest) = _)
    obtain ⟨t, leads, ran⟩ := ih
      (s := { s.note (.acts action) with control := .running handle rest })
      ⟨rfl, runs.suspended, runs.below, runs.active⟩
    refine ⟨t, first.trans leads, ?_⟩
    exact ran.trans (rfl : rest.eval = (Body.perform action rest).eval) rfl (Nat.zero_add _).symm rfl
      rfl fun _ _ => rfl
  | schedule rest ih =>
    obtain ⟨promise, active⟩ := runs.active
    have first := leads_running runs.control (rfl : s.run handle (.schedule rest) = _)
    have suspended : (s.run handle (.schedule rest)).suspended = [handle] := by
      simp [TaskState.run, runs.suspended]
    have second := leads_suspended rfl suspended
    have third := leads_resuming rfl (TaskState.resume_schedule active runs.suspended rest)
    obtain ⟨t, leads, ran⟩ := ih
      (s := { s with control := .running handle rest, history := s.history ++ [.suspends handle] })
      ⟨rfl, runs.suspended, runs.below, promise, active⟩
    refine ⟨t, first.trans (second.trans (third.trans leads)), ?_⟩
    exact ran.trans (rfl : rest.eval = (Body.schedule rest).eval) rfl (Nat.zero_add _).symm rfl
      rfl fun _ _ => rfl
  | await child after ihChild ihAfter =>
    obtain ⟨u, leads, onward, allocated, history, frames⟩ := runs.await ihChild
    obtain ⟨t, leads_, ran⟩ := ihAfter child.eval onward
    refine ⟨t, leads.trans leads_, ?_⟩
    refine ran.trans (rfl : _ = (Body.await child after).eval) allocated rfl history ?_ frames
    rw [← Nat.add_assoc]
    rfl

end Running

end CoroMultiplex.Async
