import CoroMultiplex.Pool.Staffing
import Mathlib.Algebra.BigOperators.Group.Finset.Piecewise

/-! No wake-up is lost or duplicated.

What the steps of a run add to a queue, take from it and do with what was taken is
read off the states before and after each step. The books that the pool keeps agree
with it.
-/

set_option autoImplicit false

namespace CoroMultiplex.Pool

open Foundations

variable {Handle : Type} [DecidableEq Handle]

/-- The calls of `addTask` that have begun and not ended. -/
def Event.track (calls : Caller → Option Handle) : Event Handle → Caller → Option Handle
  | .bind caller task => Function.update calls caller (some task)
  | .push caller => Function.update calls caller none
  | _ => calls

def inProgress (events : List (Event Handle)) : Caller → Option Handle :=
  events.foldl Event.track fun _ => none

abbrev PoolStep (Handle : Type) := Transition (ThreadPool Handle) (Event Handle)

namespace PoolStep

/-- The handle whose `addTask` the step completes. -/
def completed (step : PoolStep Handle) : Option Handle :=
  match step.event with
  | .push caller => (step.before.calls caller).map Call.task
  | _ => none

/-- It completes an `addTask` of the frame. -/
def completes (id : Nat) (step : PoolStep Handle) : Bool :=
  step.completed.any fun task => step.before.frameId task == some id

/-- The occurrence that a completed `addTask` owes to a queue. -/
def addedTo (index : Nat) (step : PoolStep Handle) : List (Entry Handle) :=
  match step.completed with
  | some task =>
    if step.before.taskBinding.lookup task = some (.queue index) then
      [{ task, frame := (step.before.frameId task).getD 0, ticket := step.before.nextTicket }]
    else []
  | none => []

/-- What the worker of the queue takes from it. -/
def poppedFrom (index : Nat) (step : PoolStep Handle) : List (Entry Handle) :=
  match step.event with
  | .pop worker => if worker = index then (step.after.workers index).pending else []
  | _ => []

/-- What the worker goes on with. -/
def resumedBy (index : Nat) (step : PoolStep Handle) : List (Entry Handle) :=
  match step.event with
  | .resume worker => if worker = index then (step.after.workers index).entry.toList else []
  | _ => []

/-- What the worker gives up without going on with it. -/
def skippedBy (index : Nat) (step : PoolStep Handle) : List (Entry Handle) :=
  match step.event with
  | .resume worker =>
    if worker = index ∧ (step.after.workers index).entry = none then
      (step.before.workers index).pending
    else []
  | _ => []

/-- What a pass takes out of the queue. -/
def erasedFrom (index : Nat) (step : PoolStep Handle) : List (Entry Handle) :=
  match step.event with
  | .clean _ => (step.before.tasks index).filter fun entry => entry ∉ step.after.tasks index
  | _ => []

/-- All of it, in the form of the books. -/
def books (index : Nat) (step : PoolStep Handle) : Ledger Handle where
  added := step.addedTo index
  popped := step.poppedFrom index
  erased := step.erasedFrom index
  resumed := step.resumedBy index
  skipped := step.skippedBy index

end PoolStep

/-- How often a frame occurs. -/
def occurrences (id : Nat) (entries : List (Entry Handle)) : Nat :=
  entries.countP fun entry => entry.frame == id

/-- No step of a run has lost or duplicated a wake-up. -/
structure WakeupsConserved (threadCnt : Nat) (steps : List (PoolStep Handle))
    (pool : ThreadPool Handle) : Prop where
  counted : ∀ id, steps.countP (PoolStep.completes id) = ∑ index ∈ Finset.range threadCnt,
    (occurrences id (steps.flatMap (PoolStep.resumedBy index)) +
      occurrences id (steps.flatMap (PoolStep.skippedBy index)) +
      occurrences id (steps.flatMap (PoolStep.erasedFrom index)) +
      occurrences id (pool.outstanding index))
  -- only tasks that are done are skipped or erased, only others are resumed
  resumed : ∀ step ∈ steps, ∀ index, ∀ entry ∈ step.resumedBy index,
    step.before.isDone entry.task = false ∧ step.before.frameId entry.task = some entry.frame
  skipped : ∀ step ∈ steps, ∀ index, ∀ entry ∈ step.skippedBy index,
    step.before.isDone entry.task = true ∧ step.before.frameId entry.task = some entry.frame
  erased : ∀ step ∈ steps, ∀ index, ∀ entry ∈ step.erasedFrom index,
    step.before.isDone entry.task = true ∧ step.before.frameId entry.task = some entry.frame
  distinct : ∀ index, (steps.flatMap (PoolStep.addedTo index)).Nodup
  ordered : ∀ index, (steps.flatMap (PoolStep.addedTo index)).filter
      (fun entry => entry ∉ steps.flatMap (PoolStep.erasedFrom index)) =
    steps.flatMap (PoolStep.poppedFrom index) ++ pool.tasks index

def Ledger.append (ledger more : Ledger Handle) : Ledger Handle where
  added := ledger.added ++ more.added
  popped := ledger.popped ++ more.popped
  erased := ledger.erased ++ more.erased
  resumed := ledger.resumed ++ more.resumed
  skipped := ledger.skipped ++ more.skipped

omit [DecidableEq Handle] in
theorem Ledger.append_empty (ledger : Ledger Handle) : ledger.append {} = ledger := by
  simp [Ledger.append]

/-- The books that the steps of a run add up to. -/
def logged (steps : List (PoolStep Handle)) (index : Nat) : Ledger Handle where
  added := steps.flatMap (PoolStep.addedTo index)
  popped := steps.flatMap (PoolStep.poppedFrom index)
  erased := steps.flatMap (PoolStep.erasedFrom index)
  resumed := steps.flatMap (PoolStep.resumedBy index)
  skipped := steps.flatMap (PoolStep.skippedBy index)

theorem logged_concat (steps : List (PoolStep Handle)) (step : PoolStep Handle) (index : Nat) :
    logged (steps ++ [step]) index = (logged steps index).append (step.books index) := by
  simp [logged, Ledger.append, PoolStep.books]

namespace PoolStep

variable (before after : ThreadPool Handle) (index worker : Nat)

theorem books_pop : books index ⟨before, .pop worker, after⟩ =
    { popped := if worker = index then (after.workers index).pending else [] } := rfl

theorem books_resume : books index ⟨before, .resume worker, after⟩ =
    { resumed := if worker = index then (after.workers index).entry.toList else []
      skipped := if worker = index ∧ (after.workers index).entry = none then
          (before.workers index).pending
        else [] } := rfl

theorem books_clean (order : List Nat) : books index ⟨before, .clean order, after⟩ =
    { erased := (before.tasks index).filter fun entry => entry ∉ after.tasks index } := rfl

/-- The handle and the queue of a call that pushes are those of a binding. -/
theorem books_push {before : ThreadPool Handle} (bound : before.Bound) {caller : Caller}
    {task : Handle} {target : Nat}
    (calling : before.calls caller = some { task, targetQueue := .queue target }) :
    books index ⟨before, .push caller, after⟩ =
      { added := if index = target then
          [{ task, frame := (before.frameId task).getD 0, ticket := before.nextTicket }]
        else [] } := by
  have completed : completed (⟨before, .push caller, after⟩ : PoolStep Handle) = some task := by
    simp [completed, calling]
  have known := bound.calling caller _ calling
  have added : addedTo index ⟨before, .push caller, after⟩ = if index = target then
      [{ task, frame := (before.frameId task).getD 0, ticket := before.nextTicket }] else [] := by
    simp only [addedTo, completed, known, Option.some.injEq, QueueListIter.queue.injEq]
    exact if_congr eq_comm rfl rfl
  rw [← added]
  rfl

end PoolStep

namespace ThreadPool

variable {self : ThreadPool Handle} {threadCnt : Nat}

/-! What each step logs is what it adds to the books. -/

theorem sweepAll_ledger (self : ThreadPool Handle) (taskSets : Nat → List Handle) {order : List Nat}
    (distinct : order.Nodup) (index : Nat) : (self.sweepAll taskSets order).ledger index =
      if index ∈ order then
        { self.ledger index with
          erased := (self.ledger index).erased ++
            (self.tasks index).filter fun entry => (taskSets index).contains entry.task }
      else self.ledger index := by
  induction order generalizing self with
  | nil => rfl
  | cons head order ih =>
    obtain ⟨apart, distinct⟩ := List.nodup_cons.mp distinct
    change ((self.sweep (taskSets head) head).sweepAll taskSets order).ledger index = _
    rw [ih _ distinct]
    by_cases here : index = head
    · subst here
      simp [sweep, apart]
    · simp [sweep, here]

/-- A pass books as erased what it takes out of a queue. -/
theorem cleanTasks_ledger {order : List Nat} (covers : self.Covers order) (index : Nat) :
    (self.cleanTasks order).ledger index =
      { self.ledger index with
        erased := (self.ledger index).erased ++
          (self.tasks index).filter fun entry => entry ∉ (self.cleanTasks order).tasks index } := by
  by_cases small : self.taskBinding.size < 10000
  · have nothing : (self.tasks index).filter (fun entry => entry ∉ self.tasks index) = [] := by
      apply List.filter_eq_nil_iff.mpr
      intro entry member
      simpa using member
    rw [cleanTasks, if_pos small, nothing, List.append_nil]
  · have taken : ∀ entry ∈ self.tasks index, (entry ∉ (self.cleanTasks order).tasks index ↔
        entry.task ∈ self.doneTasks index) := by
      intro entry member
      rw [mem_cleanTasks_tasks small covers, mem_doneTasks]
      exact ⟨fun gone => by_contra fun kept => gone ⟨member, kept⟩, fun done kept => kept.2 done⟩
    have filtered : (self.tasks index).filter
          (fun entry => entry ∉ (self.cleanTasks order).tasks index) =
        (self.tasks index).filter fun entry => (self.doneTasks index).contains entry.task := by
      apply List.filter_congr
      intro entry member
      rw [Bool.eq_iff_iff, decide_eq_true_iff, List.contains_iff_mem]
      exact taken entry member
    rw [filtered, cleanTasks, if_neg small, sweepAll_ledger _ _ covers.1]
    by_cases visited : index ∈ order
    · rw [if_pos visited]
      rfl
    · have empty : self.doneTasks index = [] := by
        by_contra some_
        exact visited ((covers.2 index).mpr some_)
      rw [if_neg visited, empty]
      simp [collect]

theorem ledger_step {event : Event Handle} (bound : self.Bound)
    (enabled : (machine threadCnt).enabled self event) (index : Nat) :
    ((machine threadCnt).next self event).ledger index = (self.ledger index).append
      (PoolStep.books index ⟨self, event, (machine threadCnt).next self event⟩) := by
  cases event with
  | bind caller task =>
    have kept := self.bind_keeps ThreadPool.ledger (fun _ _ _ _ => rfl) caller task
    exact (congrFun kept index).trans (Ledger.append_empty _).symm
  | push caller =>
    obtain ⟨task, target, calling, _⟩ := enabled
    rw [PoolStep.books_push _ _ bound calling]
    change (self.push caller).ledger index = _
    rw [push_queue calling]
    by_cases here : index = target
    · subst here
      simp [Ledger.append]
    · simp [Ledger.append, here]
  | pop worker =>
    obtain ⟨_, _, _, queued⟩ := enabled
    obtain ⟨entry, rest, head⟩ := List.exists_cons_of_ne_nil queued
    rw [PoolStep.books_pop]
    by_cases here : index = worker
    · subst here
      simp [machine, pop_cons head, Ledger.append, Worker.pending]
    · simp [machine, pop_cons head, Ledger.append, here, Ne.symm here]
  | resume worker =>
    obtain ⟨entry, holding⟩ := enabled
    rw [PoolStep.books_resume]
    cases done : self.isDone entry.task with
    | true =>
      by_cases here : index = worker
      · subst here
        simp [machine, resume_done holding done, Ledger.append, Worker.entry, Worker.pending, holding]
      · simp [machine, resume_done holding done, Ledger.append, here, Ne.symm here]
    | false =>
      by_cases here : index = worker
      · subst here
        simp [machine, resume_pending holding done, Ledger.append, Worker.entry]
      · simp [machine, resume_pending holding done, Ledger.append, here, Ne.symm here]
  | clean order =>
    rw [PoolStep.books_clean]
    have cleaned := cleanTasks_ledger enabled.2.2 index
    simp only [Ledger.append, List.append_nil]
    exact cleaned
  | _ => exact (Ledger.append_empty _).symm

theorem ledger_exec {events : List (Event Handle)} (allowed : (machine threadCnt).Allowed {} events)
    (index : Nat) : ((machine threadCnt).exec {} events).ledger index =
      logged ((machine threadCnt).transitions {} events) index := by
  induction events using List.reverseRecOn with
  | nil => rfl
  | append_singleton events event ih =>
    obtain ⟨before, enabled, _⟩ := ((machine threadCnt).allowed_append {} events [event]).mp allowed
    have bound := bound_reachable ⟨events, before, rfl⟩
    rw [Machine.transitions_concat, logged_concat, ← ih before, Machine.exec_append]
    exact ledger_step bound enabled index

theorem calls_step {event : Event Handle} {calls : Caller → Option Handle}
    (same : ∀ caller, (self.calls caller).map Call.task = calls caller)
    (enabled : (machine threadCnt).enabled self event) (caller : Caller) :
    (((machine threadCnt).next self event).calls caller).map Call.task = event.track calls caller := by
  cases event with
  | bind other task =>
    obtain ⟨target, _, chosen⟩ := bind_lookup self other task
    change ((self.bind other task).calls caller).map Call.task = _
    rw [chosen]
    by_cases here : caller = other
    · subst here
      simp [Event.track]
    · simp [Event.track, here, same]
  | push other =>
    obtain ⟨task, target, calling, _⟩ := enabled
    change ((self.push other).calls caller).map Call.task = _
    rw [push_queue calling]
    by_cases here : caller = other
    · subst here
      simp [Event.track]
    · simp [Event.track, here, same]
  | pop index =>
    have kept := self.pop_keeps ThreadPool.calls (fun _ _ _ _ => rfl) index
    exact (congrArg _ (congrFun kept caller)).trans (same caller)
  | resume index =>
    have kept := self.resume_keeps ThreadPool.calls (fun _ _ _ => rfl) index
    exact (congrArg _ (congrFun kept caller)).trans (same caller)
  | clean order =>
    have kept := cleanTasks_keeps ThreadPool.calls (fun _ => rfl) (fun _ _ _ => rfl) self order
    exact (congrArg _ (congrFun kept caller)).trans (same caller)
  | _ => exact same caller

/-- The calls of a run are those that its events have begun and not completed. -/
theorem calls_exec {events : List (Event Handle)} (allowed : (machine threadCnt).Allowed {} events)
    (caller : Caller) :
    (((machine threadCnt).exec {} events).calls caller).map Call.task = inProgress events caller := by
  induction events using List.reverseRecOn generalizing caller with
  | nil => rfl
  | append_singleton events event ih =>
    obtain ⟨before, enabled, _⟩ := ((machine threadCnt).allowed_append {} events [event]).mp allowed
    rw [Machine.exec_append, inProgress, List.foldl_append, ← inProgress]
    exact calls_step (ih before) enabled caller

/-- A step completes a call when, and as often as, it owes an occurrence to a queue. -/
theorem completes_step {event : Event Handle} (bound : self.Bound) (staffed : self.Staffed threadCnt)
    (enabled : (machine threadCnt).enabled self event) (after : ThreadPool Handle) (id : Nat) :
    (if PoolStep.completes id ⟨self, event, after⟩ then 1 else 0) =
      ∑ index ∈ Finset.range threadCnt, occurrences id (PoolStep.addedTo index ⟨self, event, after⟩) := by
  cases event with
  | push caller =>
    obtain ⟨task, target, calling, inside⟩ := enabled
    have below : target < threadCnt :=
      Nat.lt_of_lt_of_le inside (staffed.registered.trans staffed.launched)
    have known := bound.calling caller _ calling
    obtain ⟨frame, named⟩ := Option.ne_none_iff_exists'.mp (bound.live task _ known)
    have frameId : self.frameId task = some frame.id := by simp [frameId, named]
    have completed : PoolStep.completes id (⟨self, .push caller, after⟩ : PoolStep Handle) =
        (frame.id == id) := by
      simp [PoolStep.completes, PoolStep.completed, calling, frameId]
    have owed : ∀ index, occurrences id (PoolStep.addedTo index ⟨self, .push caller, after⟩) =
        if index = target then (if frame.id == id then 1 else 0) else 0 := by
      intro index
      have added := congrArg (fun ledger => ledger.added) (PoolStep.books_push after index bound calling)
      refine (congrArg (occurrences id) added).trans ?_
      by_cases here : index = target
      · simp [here, occurrences, frameId, List.countP_cons]
      · simp [here, occurrences]
    rw [completed, Finset.sum_congr rfl fun index _ => owed index, Finset.sum_ite_eq',
      if_pos (Finset.mem_range.mpr below)]
  | _ => exact (Finset.sum_eq_zero fun _ _ => rfl).symm

omit [DecidableEq Handle] in
theorem occurrences_append (id : Nat) (first rest : List (Entry Handle)) :
    occurrences id (first ++ rest) = occurrences id first + occurrences id rest :=
  List.countP_append

theorem countP_completes {events : List (Event Handle)}
    (allowed : (machine threadCnt).Allowed {} events) (id : Nat) :
    ((machine threadCnt).transitions {} events).countP (PoolStep.completes id) =
      ∑ index ∈ Finset.range threadCnt, occurrences id
        (((machine threadCnt).transitions {} events).flatMap (PoolStep.addedTo index)) := by
  induction events using List.reverseRecOn with
  | nil => exact (Finset.sum_eq_zero fun _ _ => rfl).symm
  | append_singleton events event ih =>
    obtain ⟨before, enabled, _⟩ := ((machine threadCnt).allowed_append {} events [event]).mp allowed
    have last := completes_step (bound_reachable ⟨events, before, rfl⟩)
      (staffed_reachable ⟨events, before, rfl⟩) enabled
      ((machine threadCnt).next ((machine threadCnt).exec {} events) event) id
    rw [Machine.transitions_concat, List.countP_append, ih before, List.countP_singleton, last,
      ← Finset.sum_add_distrib]
    apply Finset.sum_congr rfl
    intro index _
    rw [List.flatMap_append, occurrences_append, List.flatMap_singleton]

/-- The tasks of a step that are skipped are done, those that are resumed are not, and their
handles still name their frames. -/
theorem handled_step {event : Event Handle} (bound : self.Bound)
    (enabled : (machine threadCnt).enabled self event) (index : Nat) (entry : Entry Handle) :
    (entry ∈ PoolStep.resumedBy index ⟨self, event, (machine threadCnt).next self event⟩ →
        self.isDone entry.task = false ∧ self.frameId entry.task = some entry.frame) ∧
      (entry ∈ PoolStep.skippedBy index ⟨self, event, (machine threadCnt).next self event⟩ →
        self.isDone entry.task = true ∧ self.frameId entry.task = some entry.frame) := by
  cases event with
  | resume worker =>
    by_cases here : worker = index
    · subst here
      obtain ⟨held, holding⟩ := enabled
      have sits := bound.held worker held (by rw [holding]; rfl)
      cases done : self.isDone held.task with
      | true =>
        have after : ((self.resume worker).workers worker).entry = none := by
          simp [resume_done holding done, Worker.entry]
        simp only [PoolStep.resumedBy, PoolStep.skippedBy, machine, if_true, after, holding, Worker.pending,
          true_and, Option.toList_none, List.mem_singleton]
        exact ⟨fun member => absurd member List.not_mem_nil, fun same => same ▸ ⟨done, sits.2⟩⟩
      | false =>
        have after : ((self.resume worker).workers worker).entry = some held := by
          simp [resume_pending holding done, Worker.entry]
        simp only [PoolStep.resumedBy, PoolStep.skippedBy, machine, if_true, after, true_and,
          Option.toList_some, List.mem_singleton, reduceCtorEq, if_false]
        exact ⟨fun same => same ▸ ⟨done, sits.2⟩, fun member => absurd member List.not_mem_nil⟩
    · simp [PoolStep.resumedBy, PoolStep.skippedBy, here]
  | _ => exact ⟨fun member => absurd member List.not_mem_nil, fun member => absurd member List.not_mem_nil⟩

/-- The tasks that a pass erases are done. -/
theorem erased_step {event : Event Handle} (bound : self.Bound)
    (enabled : (machine threadCnt).enabled self event) (index : Nat) (entry : Entry Handle)
    (erased : entry ∈ PoolStep.erasedFrom index ⟨self, event, (machine threadCnt).next self event⟩) :
    self.isDone entry.task = true ∧ self.frameId entry.task = some entry.frame := by
  cases event with
  | clean order =>
    obtain ⟨queued, gone⟩ := List.mem_filter.mp erased
    have gone : entry ∉ (self.cleanTasks order).tasks index := of_decide_eq_true gone
    by_cases small : self.taskBinding.size < 10000
    · rw [cleanTasks, if_pos small] at gone
      exact absurd queued gone
    · have collected : self.Collected entry.task index := by
        by_contra kept
        exact gone ((mem_cleanTasks_tasks small enabled.2.2 entry index).mpr ⟨queued, kept⟩)
      exact ⟨collected.2, (bound.queued index entry queued).2⟩
  | _ => exact absurd erased List.not_mem_nil

/-- For every run: the completed calls of `addTask` for a frame are its resumptions, its skips,
its erasures and what is still outstanding; only tasks that are done are skipped or erased; and
each queue hands out what is not erased in the order of addition. -/
theorem wakeups_conserved (threadCnt : Nat) (events : List (Event Handle))
    (allowed : (machine threadCnt).Allowed {} events) :
    WakeupsConserved threadCnt ((machine threadCnt).transitions {} events)
        ((machine threadCnt).exec {} events) ∧
      ∀ caller, (((machine threadCnt).exec {} events).calls caller).map Call.task =
        inProgress events caller := by
  have balanced := balanced_reachable ⟨events, allowed, rfl⟩
  have books := ledger_exec allowed
  refine ⟨⟨?_, ?_, ?_, ?_, ?_, ?_⟩, calls_exec allowed⟩
  · intro id
    rw [countP_completes allowed]
    apply Finset.sum_congr rfl
    intro index _
    -- For each queue: added is popped, erased or queued; popped is resumed, skipped or pending.
    have added := (balanced index).consistent.conserved.countP_eq fun entry => entry.frame == id
    have popped := (balanced index).handled.countP_eq fun entry => entry.frame == id
    rw [books index] at added popped
    simp only [List.countP_append, logged] at added popped
    simp only [outstanding, occurrences, List.countP_append]
    omega
  · intro step taken index entry
    obtain ⟨before, event, rfl, reached, enabled⟩ := Machine.mem_transitions allowed taken
    exact (handled_step (bound_reachable reached) enabled index entry).1
  · intro step taken index entry
    obtain ⟨before, event, rfl, reached, enabled⟩ := Machine.mem_transitions allowed taken
    exact (handled_step (bound_reachable reached) enabled index entry).2
  · intro step taken index entry erased
    obtain ⟨before, event, rfl, reached, enabled⟩ := Machine.mem_transitions allowed taken
    exact erased_step (bound_reachable reached) enabled index entry erased
  · intro index
    have distinct := (balanced index).consistent.distinct
    rwa [books index] at distinct
  · intro index
    have ordered := (balanced index).consistent.ordered
    rwa [books index] at ordered

/-- One task is added again while it runs, and popped again after it has ended; another one
is queued when the run stops, and one call has not pushed yet. -/
def resumedAndSkipped : List (Event Nat) :=
  [.launch, .launch, .register, .register, .construct, .create 7, .create 8, .bind (.outside 0) 7,
    .bind (.outside 1) 8, .push (.outside 1), .push (.outside 0), .pop 0, .resume 0, .pop 1,
    .bind (.worker 0) 7, .resume 1, .push (.worker 0), .leave 0, .finish 7, .pop 0, .leave 1,
    .resume 0, .bind (.outside 1) 8, .push (.outside 1), .bind (.outside 0) 7]

theorem resumedAndSkipped_allowed :
    (machine 2).Allowed ({} : ThreadPool Nat) resumedAndSkipped :=
  ⟨⟨Nat.two_pos, rfl⟩, ⟨Nat.one_lt_two, rfl⟩, Nat.two_pos, Nat.one_lt_two, ⟨rfl, rfl⟩, rfl, rfl,
    ⟨Option.some_ne_none _, trivial, rfl, Option.some_ne_none _⟩,
    ⟨Option.some_ne_none _, trivial, rfl, Option.some_ne_none _⟩, ⟨8, 1, rfl, Nat.one_lt_two⟩,
    ⟨7, 0, rfl, Nat.two_pos⟩, ⟨rfl, Nat.two_pos, rfl, List.cons_ne_nil _ _⟩, ⟨⟨7, 0, 1⟩, rfl⟩,
    ⟨rfl, Nat.one_lt_two, rfl, List.cons_ne_nil _ _⟩,
    ⟨Option.some_ne_none _, ⟨⟨7, 0, 1⟩, rfl⟩, rfl, Option.some_ne_none _⟩, ⟨⟨8, 1, 0⟩, rfl⟩,
    ⟨7, 0, rfl, Nat.two_pos⟩, ⟨⟨⟨7, 0, 1⟩, rfl⟩, rfl⟩, ⟨⟨0, false⟩, rfl, rfl⟩,
    ⟨rfl, Nat.two_pos, rfl, List.cons_ne_nil _ _⟩, ⟨⟨⟨8, 1, 0⟩, rfl⟩, rfl⟩, ⟨⟨7, 0, 2⟩, rfl⟩,
    ⟨Option.some_ne_none _, trivial, rfl, Option.some_ne_none _⟩, ⟨8, 1, rfl, Nat.one_lt_two⟩,
    ⟨Option.some_ne_none _, trivial, rfl, Option.some_ne_none _⟩, trivial⟩

theorem wakeups_of_skipped_task :
    let steps := (machine 2).transitions ({} : ThreadPool Nat) resumedAndSkipped
    let pool := (machine 2).exec ({} : ThreadPool Nat) resumedAndSkipped
    WakeupsConserved 2 steps pool ∧ steps.countP (PoolStep.completes 0) = 2 ∧
      steps.countP (PoolStep.completes 1) = 2 ∧
      occurrences 0 (steps.flatMap (PoolStep.resumedBy 0)) = 1 ∧
      occurrences 0 (steps.flatMap (PoolStep.skippedBy 0)) = 1 ∧
      occurrences 1 (steps.flatMap (PoolStep.resumedBy 1)) = 1 ∧ occurrences 1 (pool.outstanding 1) = 1 ∧
      (pool.calls (.outside 0)).map Call.task = some 7 := by
  obtain ⟨conserved, calling⟩ := wakeups_conserved 2 resumedAndSkipped resumedAndSkipped_allowed
  exact ⟨conserved, rfl, rfl, rfl, rfl, rfl, rfl, calling (.outside 0)⟩

end ThreadPool

end CoroMultiplex.Pool
