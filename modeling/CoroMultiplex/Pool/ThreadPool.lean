import CoroMultiplex.Foundations.QueueHistory
import CoroMultiplex.Foundations.UnorderedMap
import Mathlib.Data.List.Dedup
import Mathlib.Logic.Function.Basic

/-! The thread pool and the critical sections of its operations.

Each operation is the work of a member function under one lock. A handle is an
address: it names a coroutine frame from the creation of that frame to its
destruction, and may name another one later.
-/

set_option autoImplicit false

namespace CoroMultiplex.Pool

open Foundations

/-- An iterator of `queueList`; the sentinel is `queueList.end()`. -/
inductive QueueListIter where
  | queue (index : Nat)
  | sentinel
  deriving DecidableEq, Repr

/-- A coroutine frame. Identities are never reused, unlike addresses. -/
structure Frame where
  id : Nat
  done : Bool := false
  deriving DecidableEq, Repr

/-- An occurrence of a handle in a queue, marked with the frame that the handle
named when it was pushed and with the position of that push among all pushes. -/
structure Entry (Handle : Type) where
  task : Handle
  frame : Nat
  ticket : Nat
  deriving DecidableEq, Repr

/-- Where a worker is in `runTasks`. -/
inductive Worker (Handle : Type) where
  | idle
  | popped (entry : Entry Handle)
  | running (entry : Entry Handle)

/-- Who calls `addTask`: a task running on a worker, or any other thread. -/
inductive Caller where
  | worker (index : Nat)
  | outside (thread : Nat)
  deriving DecidableEq, Repr

/-- An `addTask` that has chosen its queue and not yet pushed. -/
structure Call (Handle : Type) where
  task : Handle
  targetQueue : QueueListIter

/-- What has happened to the occurrences of one queue, each list in order. -/
structure Ledger (Handle : Type) extends QueueHistory (Entry Handle) where
  resumed : List (Entry Handle) := []
  skipped : List (Entry Handle) := []

structure ThreadPool (Handle : Type) where
  -- threads started by the constructor, and queues emplaced by their start-up
  launched : Nat := 0
  registered : Nat := 0
  -- unset until the last statement of the constructor
  currentQueue : Option QueueListIter := none
  taskBinding : UnorderedMap Handle QueueListIter := ∅
  tasks : Nat → List (Entry Handle) := fun _ => []
  calls : Caller → Option (Call Handle) := fun _ => none
  workers : Nat → Worker Handle := fun _ => .idle
  frames : Handle → Option Frame := fun _ => none
  -- history: what no operation reads
  nextFrame : Nat := 0
  nextTicket : Nat := 0
  destroyed : List Nat := []
  ledger : Nat → Ledger Handle := fun _ => {}

def Worker.entry {Handle : Type} : Worker Handle → Option (Entry Handle)
  | .idle => none
  | .popped entry | .running entry => some entry

/-- A task that is popped and neither resumed nor skipped yet. -/
def Worker.pending {Handle : Type} : Worker Handle → List (Entry Handle)
  | .popped entry => [entry]
  | .idle | .running _ => []

namespace ThreadPool

variable {Handle : Type} [DecidableEq Handle]

/-- `queueList.begin()`. -/
def first (self : ThreadPool Handle) : QueueListIter :=
  if self.registered = 0 then .sentinel else .queue 0

/-- `iter++` on a circular list: the end is followed by the beginning. -/
def increment (self : ThreadPool Handle) : QueueListIter → QueueListIter
  | .queue index => if index + 1 < self.registered then .queue (index + 1) else .sentinel
  | .sentinel => self.first

/-- The iterator behind the selected one, wrapped at the end. -/
def advance (self : ThreadPool Handle) (current : QueueListIter) : QueueListIter :=
  if self.increment current = .sentinel then self.first else self.increment current

/-- `task.done()`. -/
def isDone (self : ThreadPool Handle) (task : Handle) : Bool :=
  ((self.frames task).map Frame.done).getD false

/-- The frame a handle names. -/
def frameId (self : ThreadPool Handle) (task : Handle) : Option Nat := (self.frames task).map Frame.id

/-- A coroutine is called: its frame gets a free address. -/
def create (self : ThreadPool Handle) (task : Handle) : ThreadPool Handle :=
  { self with
    frames := Function.update self.frames task (some { id := self.nextFrame })
    nextFrame := self.nextFrame + 1 }

/-- A coroutine reaches its final suspension point. -/
def finish (self : ThreadPool Handle) (task : Handle) : ThreadPool Handle :=
  { self with
    frames := Function.update self.frames task
      ((self.frames task).map fun frame => { frame with done := true }) }

/-- `addTask` for a task that is bound already. -/
def found (self : ThreadPool Handle) (caller : Caller) (task : Handle)
    (targetQueue : QueueListIter) : ThreadPool Handle :=
  { self with calls := Function.update self.calls caller (some { task, targetQueue }) }

/-- `addTask` for a new task: take the current queue, move on and bind the task. -/
def select (self : ThreadPool Handle) (caller : Caller) (task : Handle) : ThreadPool Handle :=
  let targetQueue := self.currentQueue.getD .sentinel
  { self with
    currentQueue := some (self.advance targetQueue)
    taskBinding := self.taskBinding.insert task targetQueue
    calls := Function.update self.calls caller (some { task, targetQueue }) }

/-- `addTask` under `bindingMutex`. -/
def bind (self : ThreadPool Handle) (caller : Caller) (task : Handle) : ThreadPool Handle :=
  match self.taskBinding.lookup task with
  | some targetQueue => self.found caller task targetQueue
  | none => self.select caller task

/-- `addTask` under the mutex of the target queue. -/
def push (self : ThreadPool Handle) (caller : Caller) : ThreadPool Handle :=
  match self.calls caller with
  | some { task, targetQueue := .queue index } =>
    let entry := { task, frame := (self.frameId task).getD 0, ticket := self.nextTicket }
    { self with
      tasks := Function.update self.tasks index (self.tasks index ++ [entry])
      calls := Function.update self.calls caller none
      nextTicket := self.nextTicket + 1
      ledger := Function.update self.ledger index
        { self.ledger index with added := (self.ledger index).added ++ [entry] } }
  -- pushing through the end iterator is undefined
  | _ => self

/-- `runTasks` under the mutex of its own queue. -/
def pop (self : ThreadPool Handle) (index : Nat) : ThreadPool Handle :=
  match self.tasks index with
  | [] => self
  | entry :: rest =>
    { self with
      tasks := Function.update self.tasks index rest
      workers := Function.update self.workers index (.popped entry)
      ledger := Function.update self.ledger index
        { self.ledger index with popped := (self.ledger index).popped ++ [entry] } }

/-- `runTasks` on the popped task: resume it, or skip it when it is done. -/
def resume (self : ThreadPool Handle) (index : Nat) : ThreadPool Handle :=
  match self.workers index with
  | .popped entry =>
    if self.isDone entry.task then
      { self with
        workers := Function.update self.workers index .idle
        ledger := Function.update self.ledger index
          { self.ledger index with skipped := (self.ledger index).skipped ++ [entry] } }
    else
      { self with
        workers := Function.update self.workers index (.running entry)
        ledger := Function.update self.ledger index
          { self.ledger index with resumed := (self.ledger index).resumed ++ [entry] } }
  | _ => self

/-- The resumed task has suspended or ended, and `runTasks` returns. -/
def leave (self : ThreadPool Handle) (index : Nat) : ThreadPool Handle :=
  { self with workers := Function.update self.workers index .idle }

/-- `doneTasks[queue]` of a pass. -/
def doneTasks (self : ThreadPool Handle) (index : Nat) : List Handle :=
  self.taskBinding.keysWhere fun task targetQueue => self.isDone task && targetQueue == .queue index

/-- The queues that `doneTasks` has an entry for. -/
def doneQueues (self : ThreadPool Handle) : List Nat :=
  (self.taskBinding.entries.filterMap fun entry =>
    match entry with
    | ⟨task, .queue index⟩ => if self.isDone task then some index else none
    | ⟨_, .sentinel⟩ => none).dedup

/-- The first part of a pass: take the done tasks out of `taskBinding`. -/
def collect (self : ThreadPool Handle) : ThreadPool Handle :=
  { self with taskBinding := self.taskBinding.eraseIf fun task _ => self.isDone task }

/-- The second part of a pass, for one queue and its set of done tasks. -/
def sweep (self : ThreadPool Handle) (taskSet : List Handle) (index : Nat) : ThreadPool Handle :=
  { self with
    tasks := Function.update self.tasks index
      ((self.tasks index).filter fun entry => !(taskSet.contains entry.task))
    frames := fun task => if task ∈ taskSet then none else self.frames task
    destroyed := self.destroyed ++ taskSet.filterMap self.frameId
    ledger := Function.update self.ledger index
      { self.ledger index with
        erased := (self.ledger index).erased ++
          (self.tasks index).filter fun entry => taskSet.contains entry.task } }

/-- The queues of a pass in the iteration order of its map. -/
def sweepAll (self : ThreadPool Handle) (taskSets : Nat → List Handle) (order : List Nat) :
    ThreadPool Handle :=
  order.foldl (fun pool index => pool.sweep (taskSets index) index) self

/-- One pass of `cleanTasks` under the exclusive lock. -/
def cleanTasks (self : ThreadPool Handle) (order : List Nat) : ThreadPool Handle :=
  if self.taskBinding.size < 10000 then self else self.collect.sweepAll self.doneTasks order

/-- An order in which a pass may visit the queues of its done tasks. -/
def Covers (self : ThreadPool Handle) (order : List Nat) : Prop :=
  order.Nodup ∧ ∀ index, index ∈ order ↔ self.doneTasks index ≠ []

variable {self : ThreadPool Handle}

theorem bind_bound {task : Handle} {targetQueue : QueueListIter}
    (known : self.taskBinding.lookup task = some targetQueue) (caller : Caller) :
    self.bind caller task = self.found caller task targetQueue := by
  simp [bind, known]

theorem bind_fresh {task : Handle} (absent : self.taskBinding.lookup task = none) (caller : Caller) :
    self.bind caller task = self.select caller task := by
  simp [bind, absent]

omit [DecidableEq Handle] in
theorem push_queue {caller : Caller} {task : Handle} {index : Nat}
    (calling : self.calls caller = some { task, targetQueue := .queue index }) :
    self.push caller =
      { self with
        tasks := Function.update self.tasks index (self.tasks index ++
          [{ task, frame := (self.frameId task).getD 0, ticket := self.nextTicket }])
        calls := Function.update self.calls caller none
        nextTicket := self.nextTicket + 1
        ledger := Function.update self.ledger index
          { self.ledger index with added := (self.ledger index).added ++
              [{ task, frame := (self.frameId task).getD 0, ticket := self.nextTicket }] } } := by
  simp [push, calling]

omit [DecidableEq Handle] in
theorem pop_cons {index : Nat} {entry : Entry Handle} {rest : List (Entry Handle)}
    (queued : self.tasks index = entry :: rest) :
    self.pop index =
      { self with
        tasks := Function.update self.tasks index rest
        workers := Function.update self.workers index (.popped entry)
        ledger := Function.update self.ledger index
          { self.ledger index with popped := (self.ledger index).popped ++ [entry] } } := by
  simp [pop, queued]

omit [DecidableEq Handle] in
theorem resume_done {index : Nat} {entry : Entry Handle}
    (holding : self.workers index = .popped entry) (done : self.isDone entry.task = true) :
    self.resume index =
      { self with
        workers := Function.update self.workers index .idle
        ledger := Function.update self.ledger index
          { self.ledger index with skipped := (self.ledger index).skipped ++ [entry] } } := by
  simp [resume, holding, done]

omit [DecidableEq Handle] in
theorem resume_pending {index : Nat} {entry : Entry Handle}
    (holding : self.workers index = .popped entry) (pending : self.isDone entry.task = false) :
    self.resume index =
      { self with
        workers := Function.update self.workers index (.running entry)
        ledger := Function.update self.ledger index
          { self.ledger index with resumed := (self.ledger index).resumed ++ [entry] } } := by
  simp [resume, holding, pending]

/-! What the operations leave alone: `part` is any part of the pool they do not assign. -/

theorem bind_keeps {Part : Type} (part : ThreadPool Handle → Part)
    (kept : ∀ (pool : ThreadPool Handle) currentQueue taskBinding calls,
      part { pool with currentQueue, taskBinding, calls } = part pool)
    (self : ThreadPool Handle) (caller : Caller) (task : Handle) :
    part (self.bind caller task) = part self := by
  unfold bind
  split <;> exact kept _ _ _ _

omit [DecidableEq Handle] in
theorem push_keeps {Part : Type} (part : ThreadPool Handle → Part)
    (kept : ∀ (pool : ThreadPool Handle) tasks calls nextTicket ledger,
      part { pool with tasks, calls, nextTicket, ledger } = part pool)
    (self : ThreadPool Handle) (caller : Caller) : part (self.push caller) = part self := by
  unfold push
  split
  · exact kept _ _ _ _ _
  · rfl

omit [DecidableEq Handle] in
theorem pop_keeps {Part : Type} (part : ThreadPool Handle → Part)
    (kept : ∀ (pool : ThreadPool Handle) tasks workers ledger,
      part { pool with tasks, workers, ledger } = part pool)
    (self : ThreadPool Handle) (index : Nat) : part (self.pop index) = part self := by
  unfold pop
  split
  · rfl
  · exact kept _ _ _ _

omit [DecidableEq Handle] in
theorem resume_keeps {Part : Type} (part : ThreadPool Handle → Part)
    (kept : ∀ (pool : ThreadPool Handle) workers ledger,
      part { pool with workers, ledger } = part pool)
    (self : ThreadPool Handle) (index : Nat) : part (self.resume index) = part self := by
  unfold resume
  split
  · split <;> exact kept _ _ _
  · rfl

theorem mem_doneTasks (self : ThreadPool Handle) (index : Nat) (task : Handle) :
    task ∈ self.doneTasks index ↔
      self.taskBinding.lookup task = some (.queue index) ∧ self.isDone task = true := by
  rw [doneTasks, UnorderedMap.mem_keysWhere]
  constructor
  · rintro ⟨target, found, selected⟩
    simp only [Bool.and_eq_true, beq_iff_eq] at selected
    exact ⟨selected.2 ▸ found, selected.1⟩
  · rintro ⟨found, done⟩
    exact ⟨.queue index, found, by simp [done]⟩

/-- A pass can always visit the queues of its done tasks. -/
theorem exists_covers (self : ThreadPool Handle) : ∃ order, self.Covers order := by
  refine ⟨self.doneQueues, List.nodup_dedup _, fun index => ?_⟩
  rw [doneQueues, List.mem_dedup, List.mem_filterMap]
  constructor
  · rintro ⟨⟨task, target⟩, member, same⟩
    have found := AList.mem_lookup_iff.mpr member
    cases target with
    | sentinel => cases same
    | queue other =>
      by_cases done : self.isDone task = true
      · simp only [if_pos done, Option.some.injEq] at same
        subst same
        exact List.ne_nil_of_mem ((mem_doneTasks self other task).mpr ⟨found, done⟩)
      · simp [done] at same
  · intro nonempty
    obtain ⟨task, member⟩ := List.exists_mem_of_ne_nil _ nonempty
    obtain ⟨found, done⟩ := (mem_doneTasks self index task).mp member
    exact ⟨⟨task, .queue index⟩, AList.mem_lookup_iff.mp found, by simp [done]⟩

theorem lookup_collect (self : ThreadPool Handle) (task : Handle) :
    self.collect.taskBinding.lookup task =
      if self.isDone task then none else self.taskBinding.lookup task := by
  rw [collect, UnorderedMap.lookup_eraseIf]
  cases self.isDone task <;> cases self.taskBinding.lookup task <;> rfl

/-- What no sweep of a queue changes, a whole pass does not change. -/
theorem sweepAll_keeps {Part : Type} (part : ThreadPool Handle → Part)
    (kept : ∀ pool taskSet index, part (sweep pool taskSet index) = part pool)
    (self : ThreadPool Handle) (taskSets : Nat → List Handle) (order : List Nat) :
    part (self.sweepAll taskSets order) = part self := by
  induction order generalizing self with
  | nil => rfl
  | cons index order ih => exact (ih (self.sweep (taskSets index) index)).trans (kept self _ _)

theorem sweepAll_induction (Holds : ThreadPool Handle → Prop) {taskSets : Nat → List Handle}
    (step : ∀ pool index, Holds pool → Holds (sweep pool (taskSets index) index))
    {self : ThreadPool Handle} (start : Holds self) (order : List Nat) :
    Holds (self.sweepAll taskSets order) := by
  induction order generalizing self with
  | nil => exact start
  | cons index order ih => exact ih (step self index start)

theorem sweepAll_tasks (self : ThreadPool Handle) (taskSets : Nat → List Handle) (order : List Nat)
    (index : Nat) : (self.sweepAll taskSets order).tasks index =
      if index ∈ order then (self.tasks index).filter fun entry => !((taskSets index).contains entry.task)
      else self.tasks index := by
  induction order generalizing self with
  | nil => rfl
  | cons head order ih =>
    change ((self.sweep (taskSets head) head).sweepAll taskSets order).tasks index = _
    rw [ih]
    by_cases here : index = head
    · subst here
      by_cases again : index ∈ order <;> simp [sweep, again, List.filter_filter]
    · simp [sweep, here]

theorem sweepAll_frames (self : ThreadPool Handle) (taskSets : Nat → List Handle) (order : List Nat)
    (task : Handle) : (self.sweepAll taskSets order).frames task =
      if ∃ index ∈ order, task ∈ taskSets index then none else self.frames task := by
  induction order generalizing self with
  | nil => simp [sweepAll]
  | cons head order ih =>
    change ((self.sweep (taskSets head) head).sweepAll taskSets order).frames task = _
    rw [ih]
    by_cases here : task ∈ taskSets head
    · simp [sweep, here]
    · simp [sweep, here]

/-- The tasks that a pass destroys with the queue it finds them bound to. -/
def Collected (self : ThreadPool Handle) (task : Handle) (index : Nat) : Prop :=
  self.taskBinding.lookup task = some (.queue index) ∧ self.isDone task = true

/-- A pass that cleans visits the queue of every collected task. -/
theorem Covers.mem_order {order : List Nat} (covers : self.Covers order) {task : Handle} {index : Nat}
    (collected : self.Collected task index) : index ∈ order := by
  apply (covers.2 index).mpr
  intro empty
  have member := (mem_doneTasks self index task).mpr collected
  rw [empty] at member
  cases member

theorem cleanTasks_lookup (large : ¬ self.taskBinding.size < 10000) (order : List Nat)
    (task : Handle) : (self.cleanTasks order).taskBinding.lookup task =
      if self.isDone task then none else self.taskBinding.lookup task := by
  rw [cleanTasks, if_neg large, ← lookup_collect]
  congr 1
  exact sweepAll_keeps ThreadPool.taskBinding (fun _ _ _ => rfl) self.collect self.doneTasks order

theorem cleanTasks_frames (large : ¬ self.taskBinding.size < 10000) {order : List Nat}
    (covers : self.Covers order) {task : Handle} {index : Nat}
    (collected : self.Collected task index) : (self.cleanTasks order).frames task = none := by
  rw [cleanTasks, if_neg large, sweepAll_frames, if_pos]
  exact ⟨index, covers.mem_order collected, (mem_doneTasks self index task).mpr collected⟩

theorem cleanTasks_frames_kept (order : List Nat) {task : Handle}
    (kept : ∀ index, ¬ self.Collected task index) :
    (self.cleanTasks order).frames task = self.frames task := by
  unfold cleanTasks
  split
  · rfl
  · rw [sweepAll_frames, if_neg]
    · rfl
    · rintro ⟨index, _, member⟩
      exact kept index ((mem_doneTasks self index task).mp member)

/-- A pass does not touch the frame of a task that is not done. -/
theorem cleanTasks_frames_pending (order : List Nat) {task : Handle}
    (pending : self.isDone task = false) :
    (self.cleanTasks order).frames task = self.frames task := by
  apply cleanTasks_frames_kept
  rintro index ⟨_, done⟩
  rw [pending] at done
  cases done

theorem mem_cleanTasks_tasks (large : ¬ self.taskBinding.size < 10000) {order : List Nat}
    (covers : self.Covers order) (entry : Entry Handle) (index : Nat) :
    entry ∈ (self.cleanTasks order).tasks index ↔
      entry ∈ self.tasks index ∧ ¬ self.Collected entry.task index := by
  rw [cleanTasks, if_neg large, sweepAll_tasks]
  have visited : self.Collected entry.task index → index ∈ order := covers.mem_order
  have collected := mem_doneTasks self index entry.task
  change _ ↔ self.Collected entry.task index at collected
  split
  · rw [List.mem_filter]
    simp [collect, collected]
  · rename_i unvisited
    exact ⟨fun member => ⟨member, fun taken => unvisited (visited taken)⟩, And.left⟩

end ThreadPool

end CoroMultiplex.Pool
