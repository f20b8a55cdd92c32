import CoroMultiplex.Async.Calls
import CoroMultiplex.Async.Generator

/-! A generator delivers every value once and in order.

Between two yields the generator may await tasks and suspend, and is then resumed by
their final suspend or by the pool, not by an awaiter. Each of its yields, and its end,
goes to the coroutine that awaited it last.
-/

set_option autoImplicit false

namespace CoroMultiplex.Async

open Foundations

variable {A V T E : Type}

namespace Generator

/-- What the body yields when each of its awaits is a call. -/
def values : Generator A V T E → List T
  | .done _ => []
  | .perform _ rest => rest.values
  | .schedule rest => rest.values
  | .await child next => (next child.eval).values
  | .yield value rest => value :: rest.values

/-- How the body ends when each of its awaits is a call. -/
def outcome : Generator A V T E → Except E T
  | .done outcome => outcome
  | .perform _ rest => rest.outcome
  | .schedule rest => rest.outcome
  | .await child next => (next child.eval).outcome
  | .yield _ rest => rest.outcome

/-- What the awaits of the loop are to see, one each. -/
def results (body : Generator A V T E) : List (Except E T) :=
  body.values.map .ok ++ [body.outcome]

end Generator

/-- Each await, from a given one on, goes back to its caller with its own outcome. -/
def deliveries (awaiters : Awaiters) (count : Nat) : List (Except E T) → List (Delivery T E)
  | [] => []
  | outcome :: outcomes =>
    .awaits (awaiters.caller count) :: .observes (awaiters.caller count) outcome ::
      deliveries awaiters (count + 1) outcomes

/-- No task of the generator is under way, and none has the handle of an outer coroutine. -/
structure Quiet (awaiters : Awaiters) (t : TaskState A V E) : Prop where
  alone : t.suspended = []
  fresh : awaiters.base ≤ t.allocated
  outer : ∀ handle, handle < awaiters.base → t.frames handle = none

/-- The promise of a generator that has neither been detached nor thrown. -/
structure Attached (promise : YieldPromise T E) : Prop where
  detached : promise.detached = false
  returnException : promise.returnException = none

/-- The generator runs, on behalf of the await with this number. -/
structure Producing (awaiters : Awaiters) (s : GeneratorState A V T E) (rest : Generator A V T E)
    (count : Nat) : Prop where
  turn : s.turn = .generator rest
  quiet : Quiet awaiters s.tasks
  attached : Attached s.promise
  prevCoro : s.promise.prevCoro = some (awaiters.caller count)
  waiting : s.waiting = some (awaiters.caller count)
  count : s.count = count + 1

/-- The generator is suspended before this rest of its body, and is to be awaited. -/
structure Ready (awaiters : Awaiters) (s : GeneratorState A V T E) (rest : Generator A V T E)
    (count : Nat) : Prop where
  turn : s.turn = .loop
  quiet : Quiet awaiters s.tasks
  attached : Attached s.promise
  point : s.point = .initial rest ∨ s.point = .yielded rest
  count : s.count = count

/-- Where control is does not matter to that. -/
theorem Quiet.transfer {awaiters : Awaiters} {t : TaskState A V E} (quiet : Quiet awaiters t)
    (control : Control A V E) : Quiet awaiters { t with control := control } :=
  ⟨quiet.alone, quiet.fresh, quiet.outer⟩

namespace Awaiters

theorem base_pos (awaiters : Awaiters) : 0 < awaiters.base :=
  Nat.lt_trans (awaiters.apart 0).1 (awaiters.apart 0).2

end Awaiters

namespace GeneratorState

/-- An attached generator ends by storing its outcome and resuming the one that awaits it. -/
theorem finish_attached {s : GeneratorState A V T E} (attached : Attached s.promise)
    {prevCoro : Handle} (awaited : s.promise.prevCoro = some prevCoro) (outcome : Except E T) :
    ∃ promise : YieldPromise T E, promise.getValue = outcome ∧ s.finish outcome =
      { s with
        point := .final
        promise := promise
        tasks := { s.tasks with control := .resuming prevCoro }
        turn := .tasks } := by
  cases outcome with
  | ok value =>
    refine ⟨s.promise.storeReturnValue value, ?_, ?_⟩
    · simp [Promise.getValue, YieldPromise.storeReturnValue, attached.returnException]
    · simp [finish, finalSuspend, transfer, Promise.finalSuspend, ReturnPrevAwaiter.awaitSuspend,
        YieldPromise.storeReturnValue, attached.detached, awaited]
  | error exception =>
    refine ⟨{ s.promise with returnException := some exception }, rfl, ?_⟩
    simp [finish, finalSuspend, transfer, Promise.finalSuspend, ReturnPrevAwaiter.awaitSuspend,
      Promise.unhandledException, attached.detached, awaited]

/-- A yield stores the value and resumes the coroutine that awaits the generator. -/
theorem run_yield [Inhabited V] {s : GeneratorState A V T E} (attached : Attached s.promise)
    {prevCoro : Handle} (awaited : s.promise.prevCoro = some prevCoro) (value : T)
    (rest : Generator A V T E) :
    s.run (.yield value rest) =
      { s with
        point := .yielded rest
        promise := { s.promise with returnValue := value }
        tasks := { s.tasks with control := .resuming prevCoro }
        turn := .tasks } := by
  simp [run, YieldPromise.yieldValue, transfer, ReturnPrevAwaiter.awaitSuspend, attached.detached,
    awaited]

/-- Control leaves the tasks where a handle without a frame is resumed. -/
theorem outside_eq_some {s : GeneratorState A V T E} {handle : Handle} :
    s.outside = some handle ↔
      s.tasks.control = .resuming handle ∧ s.tasks.frames handle = none := by
  unfold outside
  cases control : s.tasks.control with
  | resuming target =>
    simp only [Option.isNone_iff_eq_none, Option.ite_none_right_eq_some, Option.some.injEq,
      Control.resuming.injEq]
    constructor
    · rintro ⟨missing, rfl⟩
      exact ⟨rfl, missing⟩
    · rintro ⟨rfl, missing⟩
      exact ⟨missing, rfl⟩
  | running | idle | undefined => simp

/-- Behind its await the generator goes on with what the child has stored. -/
theorem enter_awaiting {s : GeneratorState A V T E} {selfCoro : Handle}
    {next : Except E V → Generator A V T E} (point : s.point = .awaiting selfCoro next)
    {child : Frame A V E} (found : s.tasks.frames selfCoro = some child) :
    s.enter =
      { s with point := .active, turn := .generator (next child.promise.getValue) } := by
  simp only [enter, point, found]

theorem transfer_log (s : GeneratorState A V T E) (awaiter : ReturnPrevAwaiter) :
    (s.transfer awaiter).log = s.log := by
  unfold transfer
  split <;> rfl

/-- The generator itself sees nothing: what counts is what its awaiters see. -/
theorem run_log [Inhabited V] (s : GeneratorState A V T E) (body : Generator A V T E) :
    (s.run body).log = s.log := by
  cases body with
  | done outcome =>
    cases outcome with
    | ok value => exact transfer_log _ _
    | error exception =>
      simp only [run, finish]
      split
      · rfl
      · exact transfer_log _ _
  | perform action rest => rfl
  | schedule rest => rfl
  | await child next => rfl
  | yield value rest => exact transfer_log _ _

theorem enter_log (s : GeneratorState A V T E) : s.enter.log = s.log := by
  unfold enter
  split
  · rfl
  · rfl
  · rfl
  · split <;> rfl
  · rfl
  · rfl

theorem arrive_log (s : GeneratorState A V T E) (handle : Handle) :
    s.log <+: (s.arrive handle).log := by
  unfold arrive
  split
  · exact ⟨[], by rw [enter_log, List.append_nil]⟩
  · split
    · exact List.prefix_append _ _
    · exact List.prefix_rfl

end GeneratorState

section Running

variable [Inhabited V]

namespace GeneratorState

variable {awaiters : Awaiters} {s t : GeneratorState A V T E}

/-- While the loop or the generator runs there is nothing to do but to go on. -/
theorem leads_own (own : s.turn = .loop ∨ ∃ rest, s.turn = .generator rest)
    (step : s.next awaiters .proceed = t) :
    (generatorMachine A V T E awaiters).Leads s t := by
  refine Machine.Leads.step .proceed (fun other => ?_) step
  change s.Enabled other ↔ _
  rcases own with loop | ⟨rest, generator⟩
  · rw [GeneratorState.Enabled, loop]
  · rw [GeneratorState.Enabled, generator]

theorem leads_run (awaiters : Awaiters) {rest : Generator A V T E}
    (turn : s.turn = .generator rest) :
    (generatorMachine A V T E awaiters).Leads s (s.run rest) :=
  leads_own (.inr ⟨rest, turn⟩) (by simp only [GeneratorState.next, turn])

theorem leads_arrive {handle : Handle} (turn : s.turn = .tasks)
    (control : s.tasks.control = .resuming handle) (outer : s.tasks.frames handle = none)
    (step : s.arrive handle = t) : (generatorMachine A V T E awaiters).Leads s t := by
  refine Machine.Leads.step .proceed (fun other => ?_) ?_
  · change s.Enabled other ↔ _
    rw [GeneratorState.Enabled, turn]
    cases other <;> simp [Async.Enabled, control]
  · change s.next awaiters .proceed = t
    simp only [GeneratorState.next, turn, outside_eq_some.mpr ⟨control, outer⟩]
    exact step

theorem next_inside (turn : s.turn = .tasks) (inside : s.outside = none) (event : Event) :
    s.next awaiters event = { s with tasks := Async.next s.tasks event } := by
  simp only [GeneratorState.next, turn, inside]

/-- On its way to a defined control a forced run of the tasks resumes no outer coroutine. -/
theorem inside_of_forced {event : Event} {script : List Event}
    (forced : (machine A V E).Forced s.tasks (event :: script))
    (defined : ((machine A V E).exec s.tasks (event :: script)).control ≠ .undefined) :
    s.outside = none := by
  have enabled : Async.Enabled s.tasks event := (forced.1 event).mpr rfl
  by_contra other
  obtain ⟨handle, left⟩ := Option.ne_none_iff_exists'.mp other
  obtain ⟨control, missing⟩ := outside_eq_some.mp left
  have fallen : (Async.next s.tasks event).control = .undefined := by
    cases event with
    | proceed => simp [Async.next, control, TaskState.resume, TaskState.withFrame, missing]
    | resume _ => simp [Async.Enabled, control] at enabled
  cases script with
  | nil => exact defined fallen
  | cons later script =>
    have goes : Async.Enabled (Async.next s.tasks event) later := (forced.2.1 later).mpr rfl
    cases later <;> simp [Async.Enabled, fallen] at goes

/-- What the tasks do on their own, they do beside the generator. -/
theorem leads_tasks {u : TaskState A V E} (leads : (machine A V E).Leads s.tasks u)
    (defined : u.control ≠ .undefined) (turn : s.turn = .tasks) :
    (generatorMachine A V T E awaiters).Leads s { s with tasks := u } := by
  obtain ⟨script, forced, rfl⟩ := leads
  induction script generalizing s with
  | nil => exact .refl _
  | cons event script ih =>
    have inside := inside_of_forced forced defined
    refine Machine.Leads.trans (Machine.Leads.step event (fun other => ?_)
      (next_inside turn inside event)) (ih turn forced.2 defined)
    change s.Enabled other ↔ _
    rw [GeneratorState.Enabled, turn]
    exact forced.1 other

/-- The coroutine that waits is resumed and sees what the promise holds. -/
theorem leads_observe {count : Nat} (turn : s.turn = .tasks) (quiet : Quiet awaiters s.tasks)
    (control : s.tasks.control = .resuming (awaiters.caller count))
    (waiting : s.waiting = some (awaiters.caller count)) :
    (generatorMachine A V T E awaiters).Leads s (s.observe (awaiters.caller count)) := by
  obtain ⟨positive, below⟩ := awaiters.apart count
  refine leads_arrive turn control (quiet.outer _ below) ?_
  rw [arrive, if_neg (Nat.ne_of_gt positive), if_pos waiting]

end GeneratorState

variable {awaiters : Awaiters} {s : GeneratorState A V T E} {rest : Generator A V T E} {count : Nat}

/-- An await stores its caller and takes the generator to where it goes on. -/
theorem Ready.leads (ready : Ready awaiters s rest count) :
    ∃ t, (generatorMachine A V T E awaiters).Leads s t ∧ Producing awaiters t rest count ∧
      t.log = s.log ++ [.awaits (awaiters.caller count)] := by
  have notDone : s.done = false := by
    rcases ready.point with point | point <;> rw [GeneratorState.done, point]
  have first : (generatorMachine A V T E awaiters).Leads s
      { s with
        promise := { s.promise with prevCoro := some (awaiters.caller count) }
        tasks := { s.tasks with control := .resuming 0 }
        waiting := some (awaiters.caller count)
        count := count + 1
        turn := .tasks
        log := s.log ++ [.awaits (awaiters.caller count)] } := by
    refine GeneratorState.leads_own (.inl ready.turn) ?_
    simp [GeneratorState.next, ready.turn, GeneratorState.await, notDone, ready.count]
  have second := first.trans (GeneratorState.leads_arrive rfl rfl
    (ready.quiet.outer 0 awaiters.base_pos) (if_pos rfl))
  refine ⟨{ s with
    point := .active
    promise := { s.promise with prevCoro := some (awaiters.caller count) }
    tasks := { s.tasks with control := .resuming 0 }
    waiting := some (awaiters.caller count)
    count := count + 1
    turn := .generator rest
    log := s.log ++ [.awaits (awaiters.caller count)] }, ?_, ?_, rfl⟩
  · rcases ready.point with point | point <;> simpa [GeneratorState.enter, point] using second
  · exact ⟨rfl, ready.quiet.transfer _,
      ⟨ready.attached.detached, ready.attached.returnException⟩, rfl, rfl, rfl⟩

/-- A suspended generator is resumed by the pool, while its caller goes on waiting. -/
theorem Producing.schedule (producing : Producing awaiters s (.schedule rest) count) :
    ∃ t, (generatorMachine A V T E awaiters).Leads s t ∧ Producing awaiters t rest count ∧
      t.log = s.log := by
  have suspended : (s.run (.schedule rest)).tasks.suspended = [0] := by
    simp [GeneratorState.run, producing.quiet.alone]
  have first := GeneratorState.leads_run awaiters producing.turn
  have second := first.trans (GeneratorState.leads_tasks (leads_suspended rfl suspended)
    (fun same => by cases same) rfl)
  have third := second.trans (GeneratorState.leads_arrive rfl rfl
    (producing.quiet.outer 0 awaiters.base_pos) (if_pos rfl))
  exact ⟨_, third, ⟨rfl, ⟨rfl, producing.quiet.fresh, producing.quiet.outer⟩, producing.attached,
    producing.prevCoro, producing.waiting, producing.count⟩, rfl⟩

/-- A task that the generator awaits goes back to the generator with its outcome, and
leaves the promise and the caller of the generator alone. -/
theorem Producing.await {child : Body A V E} {after : Except E V → Generator A V T E}
    (producing : Producing awaiters s (.await child after) count) :
    ∃ t, (generatorMachine A V T E awaiters).Leads s t ∧
      Producing awaiters t (after child.eval) count ∧ t.log = s.log := by
  obtain ⟨u, ran, returned⟩ := @leads_returned A V E _
    (s.tasks.note (.awaits 0 s.tasks.allocated)) child producing.quiet.alone (Runs.ran child) 0
  obtain ⟨stored, value, found⟩ := returned.stored
  have outer : ∀ handle, handle < awaiters.base → u.frames handle = none := by
    intro handle below
    exact (returned.frames handle (Nat.lt_of_lt_of_le below producing.quiet.fresh)).trans
      (producing.quiet.outer handle below)
  have fresh : awaiters.base ≤ u.allocated :=
    returned.allocated ▸ Nat.le_add_right_of_le producing.quiet.fresh
  have first := GeneratorState.leads_run awaiters producing.turn
  have second := first.trans (GeneratorState.leads_tasks ran
    (by rw [returned.control]; exact fun same => by cases same) rfl)
  have third := second.trans (GeneratorState.leads_arrive rfl returned.control
    (outer 0 awaiters.base_pos) ((if_pos rfl).trans (GeneratorState.enter_awaiting rfl found)))
  exact ⟨_, third, ⟨congrArg (fun outcome => Turn.generator (after outcome)) value,
    ⟨returned.suspended, fresh, outer⟩, producing.attached, producing.prevCoro, producing.waiting,
    producing.count⟩, rfl⟩

/-- A yield goes to the caller of this await, and the generator is ready for the next one. -/
theorem Producing.yield {value : T} (producing : Producing awaiters s (.yield value rest) count) :
    ∃ t, (generatorMachine A V T E awaiters).Leads s t ∧ Ready awaiters t rest (count + 1) ∧
      t.log = s.log ++ [.observes (awaiters.caller count) (.ok value)] := by
  have first := GeneratorState.leads_run awaiters producing.turn
  rw [GeneratorState.run_yield producing.attached producing.prevCoro] at first
  have second := first.trans (GeneratorState.leads_observe rfl
    (producing.quiet.transfer _) rfl producing.waiting)
  refine ⟨_, second, ⟨rfl, producing.quiet.transfer _,
    ⟨producing.attached.detached, producing.attached.returnException⟩, .inr rfl,
    producing.count⟩, ?_⟩
  simp [GeneratorState.observe, Promise.getValue, producing.attached.returnException]

/-- The end of the generator goes to the caller of the last await, and ends the loop. -/
theorem Producing.done {outcome : Except E T}
    (producing : Producing awaiters s (.done outcome) count) :
    ∃ t, (generatorMachine A V T E awaiters).Leads s t ∧ t.turn = .finished ∧
      t.log = s.log ++ [.observes (awaiters.caller count) outcome] := by
  obtain ⟨promise, value, finish⟩ :=
    GeneratorState.finish_attached producing.attached producing.prevCoro outcome
  have first := GeneratorState.leads_run awaiters producing.turn
  rw [GeneratorState.run, finish] at first
  have second := first.trans (GeneratorState.leads_observe rfl
    (producing.quiet.transfer _) rfl producing.waiting)
  have third := second.trans (GeneratorState.leads_own (.inl rfl) rfl)
  exact ⟨_, third, rfl, by rw [← value]; rfl⟩

/-- Whatever the generator awaits between its yields, each await sees its own yield, and
the last one the end. -/
theorem Producing.delivers (body : Generator A V T E) (producing : Producing awaiters s body count)
    {before : List (Delivery T E)} (log : s.log = before ++ [.awaits (awaiters.caller count)]) :
    ∃ t, (generatorMachine A V T E awaiters).Leads s t ∧ t.turn = .finished ∧
      t.log = before ++ deliveries awaiters count body.results := by
  induction body generalizing s count before with
  | done outcome =>
    obtain ⟨t, leads, finished, noted⟩ := producing.done
    refine ⟨t, leads, finished, ?_⟩
    simp [noted, log, Generator.results, Generator.values, Generator.outcome, deliveries]
  | perform action rest ih =>
    have first := GeneratorState.leads_run awaiters producing.turn
    obtain ⟨t, leads, ended⟩ := ih
      (s := { s with tasks := s.tasks.note (.acts action), turn := .generator rest })
      ⟨rfl, ⟨producing.quiet.alone, producing.quiet.fresh, producing.quiet.outer⟩,
        producing.attached, producing.prevCoro, producing.waiting, producing.count⟩ log
    exact ⟨t, first.trans leads, ended⟩
  | schedule rest ih =>
    obtain ⟨middle, first, onward, kept⟩ := producing.schedule
    obtain ⟨t, leads, ended⟩ := ih onward (kept.trans log)
    exact ⟨t, first.trans leads, ended⟩
  | await child after ih =>
    obtain ⟨middle, first, onward, kept⟩ := producing.await
    obtain ⟨t, leads, ended⟩ := ih child.eval onward (kept.trans log)
    exact ⟨t, first.trans leads, ended⟩
  | yield value rest ih =>
    obtain ⟨middle, first, ready, noted⟩ := producing.yield
    obtain ⟨again, second, onward, awaited⟩ := ready.leads
    obtain ⟨t, leads, finished, ended⟩ := ih onward awaited
    refine ⟨t, first.trans (second.trans leads), finished, ?_⟩
    simp [ended, noted, log, Generator.results, Generator.values, Generator.outcome, deliveries]

/-- What is seen stays seen. -/
theorem GeneratorState.log_grows (awaiters : Awaiters) (s : GeneratorState A V T E) (event : Event) :
    s.log <+: (s.next awaiters event).log := by
  unfold GeneratorState.next
  split
  · unfold await
    split
    · exact List.prefix_rfl
    · exact List.prefix_append _ _
  · exact ⟨[], by rw [run_log, List.append_nil]⟩
  · split
    · exact s.arrive_log _
    · exact List.prefix_rfl
  · exact List.prefix_rfl

variable [Inhabited T]

/-- The loop from the call of the generator function to its end. -/
theorem leads_finished (awaiters : Awaiters) (body : Generator A V T E) :
    ∃ t, (generatorMachine A V T E awaiters).Leads (.start awaiters body) t ∧ t.turn = .finished ∧
      t.log = deliveries awaiters 0 body.results := by
  have ready : Ready awaiters (.start awaiters body) body 0 :=
    ⟨rfl, ⟨rfl, Nat.le_refl _, fun _ _ => rfl⟩, ⟨rfl, rfl⟩, .inl rfl, rfl⟩
  obtain ⟨middle, first, producing, awaited⟩ := ready.leads
  obtain ⟨t, leads, finished, ended⟩ := producing.delivers body awaited
  exact ⟨t, first.trans leads, finished, ended⟩

omit [Inhabited T] in
theorem GeneratorState.stuck_of_finished (awaiters : Awaiters) (finished : s.turn = .finished)
    (event : Event) :
    ¬ (generatorMachine A V T E awaiters).enabled s event := by
  change ¬ s.Enabled event
  rw [GeneratorState.Enabled, finished]
  exact id

omit [Inhabited T] in
/-- What leads to the end of the loop is not undefined. -/
theorem GeneratorState.not_undefined {t : GeneratorState A V T E}
    (leads : (generatorMachine A V T E awaiters).Leads s t) (finished : t.turn = .finished) :
    ¬ s.Undefined := by
  rintro ⟨turn, control⟩
  obtain ⟨script, forced, rfl⟩ := leads
  cases script with
  | nil =>
    rw [Machine.exec_nil, turn] at finished
    cases finished
  | cons event script =>
    have enabled : s.Enabled event := (forced.1 event).mpr rfl
    rw [GeneratorState.Enabled, turn] at enabled
    cases event <;> simp [Async.Enabled, control] at enabled

omit [Inhabited T] in
/-- Resuming a generator that is done is undefined. -/
theorem GeneratorState.ResumesDone.undefined (resumes : s.ResumesDone) :
    (generatorMachine A V T E awaiters).enabled s .proceed ∧
      ((generatorMachine A V T E awaiters).next s .proceed).Undefined := by
  obtain ⟨turn, outside, isDone⟩ := resumes
  constructor
  · change s.Enabled .proceed
    rw [GeneratorState.Enabled, turn]
    simp [Async.Enabled, (GeneratorState.outside_eq_some.mp outside).1]
  · change (s.next awaiters .proceed).Undefined
    have point : s.point = .final := by
      cases point : s.point <;> simp [GeneratorState.done, point] at isDone
      rfl
    simp [GeneratorState.next, turn, outside, GeneratorState.arrive, GeneratorState.enter, point,
      GeneratorState.Undefined, GeneratorState.undefined]

/-- The loop comes to its end, and its awaits see what the generator yields and how it
ends, each once and in order. -/
structure Delivers (awaiters : Awaiters) (body : Generator A V T E) : Prop where
  ends : ∃ bound, ∀ events,
    (generatorMachine A V T E awaiters).Allowed (.start awaiters body) events →
    events.length ≤ bound
  only : ∀ s, (generatorMachine A V T E awaiters).Reachable (.start awaiters body) s →
    ¬ s.Undefined ∧ ¬ s.ResumesDone ∧ s.log <+: deliveries awaiters 0 body.results
  all : ∀ events, (generatorMachine A V T E awaiters).Allowed (.start awaiters body) events →
    (∀ event, ¬ ((generatorMachine A V T E awaiters).exec (.start awaiters body) events).Enabled
      event) →
    ((generatorMachine A V T E awaiters).exec (.start awaiters body) events).turn = .finished ∧
      ((generatorMachine A V T E awaiters).exec (.start awaiters body) events).log =
        deliveries awaiters 0 body.results

theorem generator_delivers (awaiters : Awaiters) (body : Generator A V T E) :
    Delivers awaiters body := by
  obtain ⟨last, leads, finished, ended⟩ := leads_finished awaiters body
  have stuck := GeneratorState.stuck_of_finished awaiters finished
  have onward : ∀ s, (generatorMachine A V T E awaiters).Reachable (.start awaiters body) s →
      (generatorMachine A V T E awaiters).Leads s last :=
    fun s reached => leads.from_reached stuck reached
  refine ⟨leads.bounded stuck, fun s reached => ⟨?_, fun resumes => ?_, ?_⟩,
    fun events allowed ended_ => ?_⟩
  · exact GeneratorState.not_undefined (onward s reached) finished
  · obtain ⟨enabled, fallen⟩ := resumes.undefined
    exact GeneratorState.not_undefined (onward _ (reached.next .proceed enabled)) finished fallen
  · exact ended ▸ leads.log_prefix GeneratorState.log (GeneratorState.log_grows awaiters) stuck reached
  · rw [leads.ends stuck allowed ended_]
    exact ⟨finished, ended⟩

end Running

/-- Two coroutines that await the generator in turn. -/
def takingTurns : Awaiters where
  base := 3
  caller count := count % 2 + 1
  apart count := ⟨Nat.succ_pos _, Nat.succ_lt_succ (Nat.mod_lt count Nat.two_pos)⟩

/-- It yields, awaits a task that suspends, yields what the task returned, and returns. -/
def yieldsTwice : Generator Nat Nat Nat Nat :=
  .yield 10 (.await (.schedule (.perform 3 (.done (.ok 5)))) fun outcome =>
    .yield (outcome.toOption.getD 0) (.done (.ok 1)))

theorem yieldsTwice_delivered :
    Delivers takingTurns yieldsTwice ∧ deliveries takingTurns 0 yieldsTwice.results =
      [.awaits 1, .observes 1 (.ok 10), .awaits 2, .observes 2 (.ok 5), .awaits 1,
        .observes 1 (.ok 1)] :=
  ⟨generator_delivers takingTurns yieldsTwice, rfl⟩

end CoroMultiplex.Async
