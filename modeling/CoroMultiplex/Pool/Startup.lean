import CoroMultiplex.Foundations.Table
import CoroMultiplex.Pool.Schedule

/-! Which queues `addTask` selects.

The constructor reads `queueList.begin()` after starting the threads, without
waiting for one of them to emplace its queue. The iterator of an empty list
stays its end iterator when elements are added later.
-/

set_option autoImplicit false

namespace CoroMultiplex.Pool

open Foundations

namespace ThreadPool

variable {Handle : Type} [DecidableEq Handle]

def IsElement (self : ThreadPool Handle) : QueueListIter → Prop
  | .queue index => index < self.registered
  | .sentinel => False

/-- Every queue that an `addTask` has selected or bound a task to is an element. -/
structure Selected (pool : ThreadPool Handle) : Prop where
  bound : ∀ task target, pool.taskBinding.lookup task = some target → pool.IsElement target
  called : ∀ caller call, pool.calls caller = some call → pool.IsElement call.targetQueue

/-- So is the queue that the next `addTask` will select. -/
structure Elements (pool : ThreadPool Handle) : Prop extends Selected pool where
  current : ∀ target, pool.currentQueue = some target → pool.IsElement target

variable {self : ThreadPool Handle}

omit [DecidableEq Handle] in
theorem isElement_mono {other : ThreadPool Handle} (grown : self.registered ≤ other.registered)
    {target : QueueListIter} (element : self.IsElement target) : other.IsElement target := by
  cases target with
  | queue index => exact Nat.lt_of_lt_of_le element grown
  | sentinel => exact element

omit [DecidableEq Handle] in
theorem first_isElement (populated : 1 ≤ self.registered) : self.IsElement self.first := by
  have some_ : self.registered ≠ 0 := by omega
  simp only [first, some_, if_false, IsElement]
  omega

omit [DecidableEq Handle] in
theorem advance_isElement {current : QueueListIter} (element : self.IsElement current) :
    self.IsElement (self.advance current) := by
  have populated : 1 ≤ self.registered := by
    cases current with
    | queue index =>
      simp only [IsElement] at element
      omega
    | sentinel => exact element.elim
  unfold advance
  split
  · exact first_isElement populated
  · rename_i inside
    cases current with
    | queue index =>
      by_cases below : index + 1 < self.registered
      · simp [increment, below, IsElement]
      · exact absurd (by simp [increment, below]) inside
    | sentinel => exact element.elim

omit [DecidableEq Handle] in
/-- The calls of a pool in which one more call has chosen an element. -/
theorem called_update (called : ∀ caller call, self.calls caller = some call →
    self.IsElement call.targetQueue) {caller : Caller} {call : Call Handle}
    (element : self.IsElement call.targetQueue) (other : Caller) (chosen : Call Handle)
    (calling : Function.update self.calls caller (some call) other = some chosen) :
    self.IsElement chosen.targetQueue := by
  rcases Table.set_cases calling with ⟨_, rfl⟩ | ⟨_, before⟩
  · exact element
  · exact called other chosen before

theorem elements_found (elements : self.Elements) (caller : Caller) {task : Handle}
    {target : QueueListIter} (known : self.taskBinding.lookup task = some target) :
    (self.found caller task target).Elements where
  bound := elements.bound
  called := @called_update Handle self elements.called caller { task, targetQueue := target }
    (elements.bound task target known)
  current := elements.current

theorem elements_select (elements : self.Elements) (constructed : self.currentQueue ≠ none)
    (caller : Caller) (task : Handle) : (self.select caller task).Elements := by
  obtain ⟨current, known⟩ := Option.ne_none_iff_exists'.mp constructed
  have element : self.IsElement (self.currentQueue.getD .sentinel) := by
    rw [known]
    exact elements.current current known
  refine ⟨⟨?_, called_update elements.called element⟩, ?_⟩
  · intro other target bound
    by_cases here : other = task
    · subst here
      -- The new binding is to the current queue, an element by assumption.
      have same := bound.symm.trans (AList.lookup_insert _)
      exact Option.some.inj same ▸ element
    · exact elements.bound other target ((AList.lookup_insert_ne here).symm.trans bound)
  · intro target selected
    exact Option.some.inj selected ▸ advance_isElement element

theorem elements_bind (elements : self.Elements) (constructed : self.currentQueue ≠ none)
    (caller : Caller) (task : Handle) : (self.bind caller task).Elements := by
  cases known : self.taskBinding.lookup task with
  | some target =>
    rw [bind_bound known]
    exact elements_found elements caller known
  | none =>
    rw [bind_fresh known]
    exact elements_select elements constructed caller task

theorem elements_cleanTasks (elements : self.Elements) (order : List Nat) :
    (self.cleanTasks order).Elements := by
  unfold cleanTasks
  split
  · exact elements
  · apply sweepAll_induction Elements
    · intro pool index holds
      exact ⟨⟨holds.bound, holds.called⟩, holds.current⟩
    · refine ⟨⟨?_, elements.called⟩, elements.current⟩
      intro task target found
      rw [lookup_collect] at found
      split at found
      · cases found
      · exact elements.bound task target found

theorem elements_step {threadCnt : Nat} {event : Event Handle} (elements : self.Elements)
    (enabled : (populated threadCnt).enabled self event) :
    ((populated threadCnt).next self event).Elements := by
  obtain ⟨enabled, populated⟩ := enabled
  cases event with
  | launch => exact ⟨⟨elements.bound, elements.called⟩, elements.current⟩
  | register =>
    have grown : self.registered ≤ self.registered + 1 := Nat.le_succ _
    exact ⟨⟨fun task target found => isElement_mono grown (elements.bound task target found),
      fun caller call calling => isElement_mono grown (elements.called caller call calling)⟩,
      fun target known => isElement_mono grown (elements.current target known)⟩
  | construct =>
    refine ⟨⟨elements.bound, elements.called⟩, ?_⟩
    intro target selected
    exact Option.some.inj selected ▸ first_isElement populated
  | create task => exact ⟨⟨elements.bound, elements.called⟩, elements.current⟩
  | finish task => exact ⟨⟨elements.bound, elements.called⟩, elements.current⟩
  | bind caller task => exact elements_bind elements enabled.1 caller task
  | push caller =>
    obtain ⟨task, index, calling, _⟩ := enabled
    change (self.push caller).Elements
    rw [push_queue calling]
    refine ⟨⟨elements.bound, ?_⟩, elements.current⟩
    intro other call still
    exact elements.called other call (Table.erased_cases still).2
  | pop index =>
    change (self.pop index).Elements
    unfold pop
    split
    · exact elements
    · exact ⟨⟨elements.bound, elements.called⟩, elements.current⟩
  | resume index =>
    change (self.resume index).Elements
    unfold resume
    split
    · split <;> exact ⟨⟨elements.bound, elements.called⟩, elements.current⟩
    · exact elements
  | leave index => exact ⟨⟨elements.bound, elements.called⟩, elements.current⟩
  | clean order => exact elements_cleanTasks elements order

theorem elements_start : ({} : ThreadPool Handle).Elements := by
  refine ⟨⟨?_, ?_⟩, ?_⟩
  · intro task target found
    simp at found
  · rintro caller call ⟨⟩
  · rintro target ⟨⟩

theorem elements_reachable {threadCnt : Nat} (reached : (populated threadCnt).Reachable {} self) :
    self.Elements :=
  reached.holds Elements elements_start fun _ _ elements enabled => elements_step elements enabled

/-- In every run in which the constructor ends after the first registration, each
queue that an `addTask` selects and binds a task to is an element of `queueList`. -/
theorem selected_of_populated_run (threadCnt : Nat) (events : List (Event Handle))
    (allowed : ((machine threadCnt).restrict Populated).Allowed {} events) :
    ((machine threadCnt).exec {} events).Selected :=
  (elements_reachable ⟨events, allowed, rfl⟩).toSelected

theorem selected_after_registration :
    ((machine 1).exec ({} : ThreadPool Nat)
      [.launch, .register, .construct, .create 7, .bind (.outside 0) 7]).Selected :=
  selected_of_populated_run 1 [.launch, .register, .construct, .create 7, .bind (.outside 0) 7]
    ⟨⟨⟨Nat.one_pos, rfl⟩, trivial⟩, ⟨Nat.one_pos, trivial⟩, ⟨⟨rfl, rfl⟩, Nat.le_refl 1⟩,
      ⟨rfl, trivial⟩, ⟨⟨nofun, trivial, rfl, nofun⟩, trivial⟩, trivial⟩

/-- The constructor reads the begin iterator of the empty list; the worker registers
its queue afterwards, and the first task is bound to the end of the list. -/
theorem end_selected_before_registration :
    (machine 1).Allowed ({} : ThreadPool Nat)
        [.launch, .construct, .register, .create 7, .bind (.outside 0) 7] ∧
      ((machine 1).exec ({} : ThreadPool Nat)
        [.launch, .construct, .register, .create 7, .bind (.outside 0) 7]).registered = 1 ∧
      ¬ ((machine 1).exec ({} : ThreadPool Nat)
        [.launch, .construct, .register, .create 7, .bind (.outside 0) 7]).Selected := by
  refine ⟨⟨⟨Nat.one_pos, rfl⟩, ⟨rfl, rfl⟩, Nat.one_pos, rfl, ⟨nofun, trivial, rfl, nofun⟩, trivial⟩,
    rfl, ?_⟩
  intro selected
  exact selected.bound 7 .sentinel rfl

end ThreadPool

end CoroMultiplex.Pool
