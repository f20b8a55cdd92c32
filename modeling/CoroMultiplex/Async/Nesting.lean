import CoroMultiplex.Async.Calls

/-! Nested tasks behave like direct calls, but for a detached root that throws.

`unhandled_exception` rethrows the exception of a detached coroutine, and is declared
`noexcept`: the exception leaves through no resume call, it ends the program.
-/

set_option autoImplicit false

namespace CoroMultiplex.Async

open Foundations

variable {A V E : Type}

namespace Happening

def action? : Happening A V E → Option A
  | .acts action => some action
  | _ => none

/-- What happens to a coroutine as the callee of another. -/
def about (callee : Handle) : Happening A V E → Bool
  | .acts _ | .suspends _ => false
  | .awaits _ other | .ends other _ | .returnsTo other _ | .yields _ other _ => other = callee

end Happening

namespace Body

theorem action_trace (body : Body A V E) (handle : Handle) (fresh : Nat) :
    (body.trace handle fresh).filterMap Happening.action? = body.actions := by
  induction body generalizing handle fresh with
  | done outcome => rfl
  | perform action rest ih => simp [trace, actions, Happening.action?, ih]
  | schedule rest ih => simp [trace, actions, List.filterMap_cons, Happening.action?, ih]
  | await child after ihChild ihAfter =>
    simp [trace, actions, List.filterMap_cons, Happening.action?, ihChild, ihAfter]

/-- Only the coroutines that a body creates are its callees. -/
theorem about_trace_other (body : Body A V E) (handle : Handle) (fresh callee : Nat)
    (other : callee < fresh ∨ fresh + body.calls ≤ callee) :
    (body.trace handle fresh).filter (Happening.about callee) = [] := by
  induction body generalizing handle fresh with
  | done outcome => rfl
  | perform action rest ih =>
    rw [trace, List.filter_cons_of_neg (by simp [Happening.about])]
    exact ih handle fresh other
  | schedule rest ih =>
    rw [trace, List.filter_cons_of_neg (by simp [Happening.about])]
    exact ih handle fresh other
  | await child after ihChild ihAfter =>
    rw [calls] at other
    have apart : fresh ≠ callee := by omega
    have inside := ihChild fresh (fresh + 1) (by omega)
    have behind := ihAfter child.eval handle (fresh + 1 + child.calls) (by omega)
    simp [trace, List.filter_append, inside, behind, Happening.about, apart]

/-- A callee is awaited, ends, goes back to the one that awaits it and yields what it
ended with, each once and in this order. -/
theorem about_trace (body : Body A V E) (handle : Handle) (fresh callee : Nat) (above : fresh ≤ callee)
    (below : callee < fresh + body.calls) :
    ∃ caller outcome, (body.trace handle fresh).filter (Happening.about callee) =
      [.awaits caller callee, .ends callee outcome, .returnsTo callee caller,
        .yields caller callee outcome] := by
  induction body generalizing handle fresh with
  | done outcome =>
    rw [calls] at below
    omega
  | perform action rest ih =>
    rw [trace, List.filter_cons_of_neg (by simp [Happening.about])]
    exact ih handle fresh above below
  | schedule rest ih =>
    rw [trace, List.filter_cons_of_neg (by simp [Happening.about])]
    exact ih handle fresh above below
  | await child after ihChild ihAfter =>
    rw [calls] at below
    by_cases first : callee = fresh
    · subst first
      have inside := child.about_trace_other callee (callee + 1) callee (.inl (Nat.lt_succ_self _))
      have behind := (after child.eval).about_trace_other handle (callee + 1 + child.calls) callee
        (.inl (by omega))
      refine ⟨handle, child.eval, ?_⟩
      simp [trace, List.filter_append, inside, behind, Happening.about]
    · have apart : fresh ≠ callee := Ne.symm first
      by_cases early : callee < fresh + 1 + child.calls
      · obtain ⟨caller, outcome, inside⟩ := ihChild fresh (fresh + 1) (by omega) early
        have behind := (after child.eval).about_trace_other handle (fresh + 1 + child.calls) callee
          (.inl early)
        refine ⟨caller, outcome, ?_⟩
        simp [trace, List.filter_append, inside, behind, Happening.about, apart]
      · have inside := child.about_trace_other fresh (fresh + 1) callee (.inr (by omega))
        obtain ⟨caller, outcome, behind⟩ := ihAfter child.eval handle (fresh + 1 + child.calls)
          (by omega) (by omega)
        refine ⟨caller, outcome, ?_⟩
        simp [trace, List.filter_append, inside, behind, Happening.about, apart]

end Body

/-- How a resume call is to end when an outcome leaves through it. -/
def Exit.of : Except E V → Exit E
  | .ok _ => .returns
  | .error exception => .throws exception

/-- A run that is over, and has gone as the calls of the root would. -/
structure AsCalls (root : Body A V E) (detached : Bool) (s : TaskState A V E) : Prop where
  actions : s.history.filterMap Happening.action? = root.actions
  calls : ∀ caller callee, .awaits caller callee ∈ s.history →
    ∃ outcome, s.history.filter (Happening.about callee) =
      [.awaits caller callee, .ends callee outcome, .returnsTo callee caller,
        .yields caller callee outcome]
  -- the root ends once, and control goes to no coroutine
  ended : s.history.filter (Happening.about 0) = [.ends 0 root.eval]
  left : s.control = .idle (if detached then Exit.of root.eval else .returns)
  stored : ∃ frame, s.frames 0 = some frame ∧
    if detached then frame.promise.returnException = none else frame.promise.getValue = root.eval

/-- Every run from the root comes to an end, and has then gone as the calls would. -/
def LikeCalls [Inhabited V] (root : Body A V E) (detached : Bool) : Prop :=
  (∃ bound, ∀ events, (machine A V E).Allowed (.start root detached) events →
    events.length ≤ bound) ∧
  ∀ events, (machine A V E).Allowed (.start root detached) events →
    (∀ event, ¬ Enabled ((machine A V E).exec (.start root detached) events) event) →
    AsCalls root detached ((machine A V E).exec (.start root detached) events)

/-- What a trace says of a callee, if the root of the trace awaits it or something it awaits. -/
theorem calls_of_trace {root : Body A V E} {history : List (Happening A V E)}
    (trace : history = root.trace 0 1 ++ [.ends 0 root.eval]) {caller callee : Nat}
    (member : .awaits caller callee ∈ history) :
    ∃ outcome, history.filter (Happening.about callee) =
      [.awaits caller callee, .ends callee outcome, .returnsTo callee caller,
        .yields caller callee outcome] := by
  have awaited : .awaits caller callee ∈ (root.trace 0 1).filter (Happening.about callee) := by
    rw [trace, List.mem_append] at member
    rcases member with called | last
    · exact List.mem_filter.mpr ⟨called, decide_eq_true rfl⟩
    · cases List.mem_singleton.mp last
  have created : 1 ≤ callee ∧ callee < 1 + root.calls := by
    by_contra other
    rw [root.about_trace_other 0 1 callee (by omega)] at awaited
    cases awaited
  obtain ⟨caller_, outcome, all⟩ := root.about_trace 0 1 callee created.1 created.2
  have same : caller = caller_ := by
    rw [all] at awaited
    simpa using awaited
  subst same
  have notRoot : 0 ≠ callee := by omega
  refine ⟨outcome, ?_⟩
  rw [trace, List.filter_append, all]
  simp [Happening.about, notRoot]

section Root

variable [Inhabited V]

theorem TaskState.resume_start (root : Body A V E) (detached : Bool) :
    TaskState.resume { TaskState.start root detached with suspended := [], control := .resuming 0 } 0 =
      { frames := Function.update (fun _ => none) 0
          (some ⟨.active, { detached := detached, returnValue := default }⟩)
        allocated := 1
        control := .running 0 root
        suspended := []
        history := [] } := by
  cases detached <;>
    simp [TaskState.start, TaskState.create, TaskState.detach, TaskState.setFrame, TaskState.withFrame,
      TaskState.resume]

/-- The run of a root comes to the end of its body with nothing else under way. -/
theorem leads_root (root : Body A V E) (detached : Bool) :
    ∃ t, (machine A V E).Leads (.start root detached) t ∧ t.control = .running 0 (.done root.eval) ∧
      t.suspended = [] ∧ t.history = root.trace 0 1 ∧
      t.frames 0 = some ⟨.active, { detached := detached, returnValue := default }⟩ := by
  have idle : (TaskState.start root detached).control = .idle .returns := by cases detached <;> rfl
  have first := leads_suspended idle rfl
  have second := leads_resuming rfl (TaskState.resume_start root detached)
  obtain ⟨t, leads, ran⟩ := @Runs.ran A V E _ root
    { frames := Function.update (fun _ => none) 0
        (some ⟨.active, { detached := detached, returnValue := default }⟩)
      allocated := 1
      control := .running 0 root
      suspended := []
      history := [] }
    0 ⟨rfl, rfl, Nat.one_pos, { detached := detached, returnValue := default }, rfl⟩
  exact ⟨t, first.trans (second.trans leads), ran.control, ran.suspended, ran.history,
    ran.frames 0 Nat.one_pos⟩

/-- How the run ends: the outcome is stored or the resume call returns, but for a
detached root that throws. -/
theorem finish_root {t : TaskState A V E} {detached : Bool}
    (active : t.frames 0 = some ⟨.active, { detached := detached, returnValue := default }⟩)
    (outcome : Except E V) :
    (t.finish 0 outcome).history = t.history ++ [.ends 0 outcome] ∧
      (t.finish 0 outcome).suspended = t.suspended ∧
      (t.finish 0 outcome).control = .idle (if detached then (Exit.of outcome).noexcept else .returns) ∧
      ∃ frame, (t.finish 0 outcome).frames 0 = some frame ∧
        if detached then frame.promise.returnException = none else frame.promise.getValue = outcome := by
  cases detached <;> cases outcome <;>
    simp [TaskState.finish, TaskState.note, TaskState.withFrame, active, Promise.unhandledException,
      TaskState.finalSuspend, Promise.finalSuspend, ReturnPrevAwaiter.awaitSuspend,
      TaskState.setFrame, Exit.of, Exit.noexcept, Promise.getValue]

/-- Every run from a root that cannot go on ends here. -/
theorem leads_end (root : Body A V E) (detached : Bool) :
    ∃ u, (machine A V E).Leads (.start root detached) u ∧ (∀ event, ¬ Enabled u event) ∧
      u.history = root.trace 0 1 ++ [.ends 0 root.eval] ∧
      u.control = .idle (if detached then (Exit.of root.eval).noexcept else .returns) ∧
      ∃ frame, u.frames 0 = some frame ∧
        if detached then frame.promise.returnException = none
        else frame.promise.getValue = root.eval := by
  obtain ⟨t, leads, control, suspended, history, active⟩ := leads_root root detached
  obtain ⟨noted, still, idle, stored⟩ := finish_root active root.eval
  have last := leads_running control (rfl : t.run 0 (.done root.eval) = _)
  refine ⟨t.finish 0 root.eval, leads.trans last, fun event enabled => ?_, history ▸ noted, idle, stored⟩
  cases event with
  | proceed => simp [Enabled, idle] at enabled
  | resume handle => simp [Enabled, still, suspended] at enabled

/-- The exception of a detached root leaves through no resume call. -/
theorem not_like_calls {root : Body A V E} {exception : E} (throws : root.eval = .error exception) :
    ¬ LikeCalls root true := by
  rintro ⟨_, ends⟩
  obtain ⟨u, leads, stuck, _, idle, _⟩ := leads_end root true
  obtain ⟨events, allowed, same⟩ := leads.reachable
  have left := (ends events allowed (same ▸ stuck)).left
  rw [same, idle, throws] at left
  cases left

/-- Nested tasks behave like direct calls exactly if the root is not a detached one that
ends with an exception. -/
theorem nested_tasks_like_calls_iff (root : Body A V E) (detached : Bool) :
    LikeCalls root detached ↔ (detached = true → ∃ value, root.eval = .ok value) := by
  obtain ⟨u, leads, stuck, history, idle, stored⟩ := leads_end root detached
  constructor
  · intro like isDetached
    subst isDetached
    cases outcome : root.eval with
    | ok value => exact ⟨value, rfl⟩
    | error exception => exact absurd like (not_like_calls outcome)
  · intro harmless
    refine ⟨leads.bounded stuck, fun events allowed ended => ?_⟩
    rw [leads.ends stuck allowed ended]
    exact {
      actions := by
        rw [history, List.filterMap_append, root.action_trace]
        exact List.append_nil _
      calls := fun caller callee member => calls_of_trace history member
      ended := by
        rw [history, List.filter_append, root.about_trace_other 0 1 0 (.inl Nat.one_pos)]
        rfl
      left := by
        rw [idle]
        cases detached with
        | false => rfl
        | true =>
          obtain ⟨value, outcome⟩ := harmless rfl
          rw [outcome]
          rfl
      stored := stored }

/-- A detached task that does nothing but throw ends the program. -/
theorem detached_exception_terminates :
    ¬ LikeCalls (.done (.error 1) : Body Unit Nat Nat) true := not_like_calls rfl

end Root

end CoroMultiplex.Async
