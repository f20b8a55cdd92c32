import CoroMultiplex.Foundations.RoundRobin
import CoroMultiplex.Pool.Schedule

/-! New tasks are spread over the queues in turn.

Only `addTask` of an unbound handle moves `currentQueue`. A pass may unbind a handle,
which is then bound in its turn when it is added again.
-/

set_option autoImplicit false

namespace CoroMultiplex.Pool

open Foundations

/-- The constructor and the start-up of its threads, which are over when all queues are
registered and one of them is selected. -/
def Event.startUp {Handle : Type} : Event Handle → Prop
  | .launch | .register | .construct => True
  | _ => False

namespace ThreadPool

variable {Handle : Type} [DecidableEq Handle]

/-- The queue to which an event binds a handle that has none. -/
def firstBinding (self : ThreadPool Handle) : Event Handle → Option QueueListIter
  | .bind caller task =>
    if task ∈ self.taskBinding then none else (self.bind caller task).taskBinding.lookup task
  | _ => none

/-- The queues that a sequence of events binds handles to, in order. -/
def bindings (threadCnt : Nat) (self : ThreadPool Handle) : List (Event Handle) → List QueueListIter
  | [] => []
  | event :: events =>
    (self.firstBinding event).toList ++ bindings threadCnt ((machine threadCnt).next self event) events

variable {self : ThreadPool Handle}

omit [DecidableEq Handle] in
/-- The queues are taken around the circle. -/
theorem advance_queue {index : Nat} (inside : index < self.registered) :
    self.advance (.queue index) = .queue ((index + 1) % self.registered) := by
  have populated : self.registered ≠ 0 := by omega
  unfold advance increment
  by_cases below : index + 1 < self.registered
  · simp [below, Nat.mod_eq_of_lt below]
  · have last : index + 1 = self.registered := by omega
    simp [last, first, populated]

/-- An `addTask` of a bound handle leaves the selection and the bindings as they are. -/
theorem bind_bound_keeps {task : Handle} (bound : task ∈ self.taskBinding) (caller : Caller) :
    (self.bind caller task).currentQueue = self.currentQueue ∧
      (self.bind caller task).taskBinding = self.taskBinding := by
  obtain ⟨target, known⟩ := Option.isSome_iff_exists.mp (AList.lookup_isSome.mpr bound)
  rw [bind_bound known]
  exact ⟨rfl, rfl⟩

/-- The selected queue takes an unbound handle, and the next one is selected. -/
theorem bind_unbound {task : Handle} (unbound : task ∉ self.taskBinding) (caller : Caller) {index : Nat}
    (current : self.currentQueue = some (.queue index)) (inside : index < self.registered) :
    (self.bind caller task).taskBinding.lookup task = some (.queue index) ∧
      (self.bind caller task).currentQueue = some (.queue ((index + 1) % self.registered)) := by
  rw [bind_fresh (AList.lookup_eq_none.mpr unbound), select, current, Option.getD_some,
    advance_queue inside]
  exact ⟨AList.lookup_insert _, rfl⟩

omit [DecidableEq Handle] in
theorem push_selection (self : ThreadPool Handle) (caller : Caller) :
    (self.push caller).currentQueue = self.currentQueue ∧
      (self.push caller).taskBinding = self.taskBinding :=
  ⟨push_keeps ThreadPool.currentQueue (fun _ _ _ _ _ => rfl) self caller,
    push_keeps ThreadPool.taskBinding (fun _ _ _ _ _ => rfl) self caller⟩

/-- Only an `addTask` of an unbound handle touches the selection. -/
theorem next_selection (threadCnt : Nat) (self : ThreadPool Handle) {event : Event Handle}
    (working : ¬ event.startUp) (repeated : self.firstBinding event = none) :
    ((machine threadCnt).next self event).registered = self.registered ∧
      ((machine threadCnt).next self event).currentQueue = self.currentQueue := by
  cases event with
  | launch | register | construct => exact absurd trivial working
  | create task => exact ⟨rfl, rfl⟩
  | finish task => exact ⟨rfl, rfl⟩
  | bind caller task =>
    refine ⟨bind_keeps ThreadPool.registered (fun _ _ _ _ => rfl) self caller task, ?_⟩
    by_cases bound : task ∈ self.taskBinding
    · exact (bind_bound_keeps bound caller).1
    · rw [firstBinding, if_neg bound, bind_fresh (AList.lookup_eq_none.mpr bound)] at repeated
      exact absurd ((AList.lookup_insert _).symm.trans repeated) (Option.some_ne_none _)
  | push caller =>
    exact ⟨push_keeps ThreadPool.registered (fun _ _ _ _ _ => rfl) self caller,
      (push_selection self caller).1⟩
  | pop index =>
    exact ⟨pop_keeps ThreadPool.registered (fun _ _ _ _ => rfl) self index,
      pop_keeps ThreadPool.currentQueue (fun _ _ _ _ => rfl) self index⟩
  | resume index =>
    exact ⟨resume_keeps ThreadPool.registered (fun _ _ _ => rfl) self index,
      resume_keeps ThreadPool.currentQueue (fun _ _ _ => rfl) self index⟩
  | leave index => exact ⟨rfl, rfl⟩
  | clean order =>
    change (self.cleanTasks order).registered = _ ∧ (self.cleanTasks order).currentQueue = _
    unfold cleanTasks
    split
    · exact ⟨rfl, rfl⟩
    · exact ⟨sweepAll_keeps ThreadPool.registered (fun _ _ _ => rfl) self.collect _ order,
        sweepAll_keeps ThreadPool.currentQueue (fun _ _ _ => rfl) self.collect _ order⟩

/-- An event binds nothing and leaves the selection, or binds a handle to the selected queue
and selects the next one. -/
theorem selection_step (threadCnt : Nat) {index : Nat} (current : self.currentQueue = some (.queue index))
    (inside : index < self.registered) {event : Event Handle} (working : ¬ event.startUp) :
    ((machine threadCnt).next self event).registered = self.registered ∧
      (self.firstBinding event = none ∧
          ((machine threadCnt).next self event).currentQueue = some (.queue index) ∨
        self.firstBinding event = some (.queue index) ∧
          ((machine threadCnt).next self event).currentQueue =
            some (.queue ((index + 1) % self.registered))) := by
  cases binding : self.firstBinding event with
  | none =>
    obtain ⟨registered, selected⟩ := next_selection threadCnt self working binding
    exact ⟨registered, .inl ⟨rfl, selected.trans current⟩⟩
  | some target =>
    cases event with
    | bind caller task =>
      by_cases bound : task ∈ self.taskBinding
      · simp [firstBinding, bound] at binding
      · obtain ⟨looked, selected⟩ := bind_unbound bound caller current inside
        rw [firstBinding, if_neg bound, looked] at binding
        exact ⟨bind_keeps ThreadPool.registered (fun _ _ _ _ => rfl) self caller task,
          .inr ⟨binding.symm, selected⟩⟩
    | _ => cases binding

/-- First-time bindings go around the queues, starting with the selected one, and one of the
queues stays selected. -/
theorem bindings_eq (threadCnt : Nat) {index : Nat} (current : self.currentQueue = some (.queue index))
    (inside : index < self.registered) (events : List (Event Handle))
    (working : ∀ event ∈ events, ¬ event.startUp) :
    (∃ turns, self.bindings threadCnt events =
        (Foundations.rotation self.registered index turns).map QueueListIter.queue) ∧
      ((machine threadCnt).exec self events).registered = self.registered ∧
      ∃ queue < self.registered,
        ((machine threadCnt).exec self events).currentQueue = some (.queue queue) := by
  induction events generalizing self index with
  | nil => exact ⟨⟨0, rfl⟩, rfl, index, inside, current⟩
  | cons event events ih =>
    obtain ⟨here, later⟩ := List.forall_mem_cons.mp working
    obtain ⟨registered, step⟩ := selection_step threadCnt current inside here
    rw [bindings, Machine.exec_cons, ← registered]
    rcases step with ⟨binding, selected⟩ | ⟨binding, selected⟩
    · obtain ⟨⟨turns, same⟩, onward⟩ := ih selected (registered ▸ inside) later
      exact ⟨⟨turns, by rw [same, binding, Option.toList_none, List.nil_append]⟩, onward⟩
    · have next : (index + 1) % self.registered < self.registered := Nat.mod_lt _ (by omega)
      obtain ⟨⟨turns, same⟩, onward⟩ := ih selected (registered ▸ next) later
      refine ⟨⟨turns + 1, ?_⟩, onward⟩
      rw [same, binding, registered, Foundations.rotation, List.map_cons]
      rfl

end ThreadPool

/-- From a pool with all its queues registered and one of them selected on, whatever is added,
run and cleaned: first-time bindings go to registered queues, no queue is ahead of another
by two, an `addTask` of a bound handle changes neither the selection nor a binding, and one
of an unbound handle binds it to the selected queue and selects the next one. -/
theorem new_tasks_spread {Handle : Type} [DecidableEq Handle] (threadCnt : Nat)
    (self : ThreadPool Handle) (registered : self.registered = threadCnt) {index : Nat}
    (current : self.currentQueue = some (.queue index)) (inside : index < threadCnt)
    (events : List (Event Handle)) (working : ∀ event ∈ events, ¬ event.startUp) :
    (∀ target ∈ self.bindings threadCnt events, ∃ queue < threadCnt, target = .queue queue) ∧
      (∀ first < threadCnt, ∀ second < threadCnt,
        (self.bindings threadCnt events).count (.queue first) ≤
          (self.bindings threadCnt events).count (.queue second) + 1) ∧
      (∀ caller task, task ∈ ((ThreadPool.machine threadCnt).exec self events).taskBinding →
        let bound := ((ThreadPool.machine threadCnt).exec self events).bind caller task
        (bound.currentQueue = ((ThreadPool.machine threadCnt).exec self events).currentQueue ∧
            bound.taskBinding = ((ThreadPool.machine threadCnt).exec self events).taskBinding) ∧
          (bound.push caller).currentQueue = bound.currentQueue ∧
          (bound.push caller).taskBinding = bound.taskBinding) ∧
      ∃ queue < threadCnt,
        ((ThreadPool.machine threadCnt).exec self events).currentQueue = some (.queue queue) ∧
        ∀ caller task, task ∉ ((ThreadPool.machine threadCnt).exec self events).taskBinding →
          let bound := ((ThreadPool.machine threadCnt).exec self events).bind caller task
          bound.taskBinding.lookup task = some (.queue queue) ∧
            bound.currentQueue = some (.queue ((queue + 1) % threadCnt)) := by
  subst registered
  obtain ⟨⟨turns, same⟩, kept, queue, registered, selected⟩ :=
    ThreadPool.bindings_eq self.registered current inside events working
  have injective : Function.Injective QueueListIter.queue := fun _ _ same => by cases same; rfl
  refine ⟨?_, ?_, ?_, queue, registered, selected, ?_⟩
  · intro target member
    rw [same, List.mem_map] at member
    obtain ⟨queue, member, rfl⟩ := member
    exact ⟨queue, RoundRobin.rotation_inside inside member, rfl⟩
  · intro first firstInside second secondInside
    rw [same, List.count_map_of_injective _ _ injective, List.count_map_of_injective _ _ injective]
    exact RoundRobin.count_rotation_le inside turns firstInside secondInside
  · intro caller task bound
    exact ⟨ThreadPool.bind_bound_keeps bound caller, ThreadPool.push_selection _ caller⟩
  · intro caller task unbound
    have bound := ThreadPool.bind_unbound unbound caller selected (kept ▸ registered)
    rwa [kept] at bound

/-- Three tasks over two queues, one of them added again, with a pass in between. -/
def threeTasks : List (Event Nat) :=
  [.create 7, .bind (.outside 0) 7, .push (.outside 0), .create 8, .bind (.outside 0) 8,
    .push (.outside 0), .bind (.outside 1) 7, .push (.outside 1), .clean [], .create 9,
    .bind (.outside 0) 9]

theorem three_tasks_spread :
    let started := (ThreadPool.machine 2).exec ({} : ThreadPool Nat)
      [.launch, .launch, .register, .register, .construct]
    let added := started.bindings 2 threeTasks
    added = [.queue 0, .queue 1, .queue 0] ∧
      added.count (.queue 0) ≤ added.count (.queue 1) + 1 ∧
      added.count (.queue 1) ≤ added.count (.queue 0) + 1 ∧
      (((ThreadPool.machine 2).exec started threeTasks).bind (.outside 2) 6).taskBinding.lookup 6 =
        some (.queue 1) := by
  intro started added
  obtain ⟨_, spread, _, queue, _, selected, unbound⟩ := @new_tasks_spread Nat _ 2 started rfl 0 rfl
    (by decide) threeTasks (by simp [threeTasks, Event.startUp])
  -- After three tasks the second queue is selected.
  have second : some (QueueListIter.queue 1) = some (.queue queue) := Eq.trans rfl selected
  refine ⟨rfl, spread 0 (by decide) 1 (by decide), spread 1 (by decide) 0 (by decide), ?_⟩
  rw [second]
  exact (unbound (.outside 2) 6 (by decide)).1

end CoroMultiplex.Pool
