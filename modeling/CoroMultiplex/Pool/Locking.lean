import CoroMultiplex.Foundations.Locks
import CoroMultiplex.Foundations.Machine
import CoroMultiplex.Pool.ThreadPool

/-! The pool's member functions step by step: every lock that is acquired or
released, every wait on a condition variable and every notification.

A point of control stands before the step that its name says. The data of the
pool changes only in the steps that run the operations of `ThreadPool`.
-/

set_option autoImplicit false

namespace CoroMultiplex.Pool

open Foundations

/-- `cleanWorkMutex`, `bindingMutex`, `queueCounterMutex`, and the mutex of a queue. -/
inductive Lock where
  | clean
  | binding
  | counter
  | queue (target : QueueListIter)
  deriving DecidableEq, Repr

/-- One call of a member function with the guards of its scope. A worker that runs a
task which calls `addTask` has two of them. -/
inductive Holder where
  | add (caller : Caller)
  | run (index : Nat)
  | clean
  deriving DecidableEq, Repr

inductive AddPc (Handle : Type) where
  | idle
  | lockClean (task : Handle)
  | lockBinding (task : Handle)
  | find (task : Handle)
  | lockCounter (task : Handle)
  | select (task : Handle)
  | unlockCounter (target : QueueListIter)
  | unlockBinding (target : QueueListIter)
  | lockQueue (target : QueueListIter)
  | pushBack (target : QueueListIter)
  | unlockQueue (target : QueueListIter)
  | notifyAll (target : QueueListIter)
  | unlockClean

inductive RunPc where
  | lockClean
  | lockQueue
  | testEmpty
  | unlockClean
  | wait
  | asleep
  | notified
  | testPredicate
  | tryLock
  | giveUp
  | popFront
  | unlockQueue
  | resume
  | running
  | returning
  deriving DecidableEq, Repr

/-- A pass keeps its map of done tasks and the queues it has still to visit. -/
inductive CleanPc (Handle : Type) where
  | sleeping
  | lockClean
  | testSize
  | nextQueue (doneTasks : Nat → List Handle) (rest : List Nat)
  | sweep (doneTasks : Nat → List Handle) (index : Nat) (rest : List Nat)
  | unlockQueue (doneTasks : Nat → List Handle) (index : Nat) (rest : List Nat)
  | unlockClean

def RunPc.wake : RunPc → RunPc
  | .asleep => .notified
  | pc => pc

section Points

variable {Handle : Type}

def AddPc.action : AddPc Handle → LockAction Lock
  | .lockClean _ => .share .clean
  | .lockBinding _ => .acquire .binding
  | .lockCounter _ => .acquire .counter
  | .unlockCounter _ => .release .counter
  | .unlockBinding _ => .release .binding
  | .lockQueue target => .acquire (.queue target)
  | .unlockQueue target => .release (.queue target)
  | .unlockClean => .unshare .clean
  | .idle | .find _ | .select _ | .pushBack _ | .notifyAll _ => .compute

def AddPc.held : AddPc Handle → HeldLocks Lock
  | .idle | .lockClean _ => {}
  | .lockBinding _ | .lockQueue _ | .notifyAll _ | .unlockClean => { shared := [.clean] }
  | .find _ | .lockCounter _ | .unlockBinding _ => { exclusive := [.binding], shared := [.clean] }
  | .select _ | .unlockCounter _ => { exclusive := [.binding, .counter], shared := [.clean] }
  | .pushBack target | .unlockQueue target =>
    { exclusive := [.queue target], shared := [.clean] }

/-- `try_lock` shares the clean-up mutex when nobody owns it and fails otherwise. -/
def RunPc.action (index : Nat) (locks : LockTable Holder Lock) : RunPc → LockAction Lock
  | .lockClean => .share .clean
  | .lockQueue | .notified => .acquire (.queue (.queue index))
  | .unlockClean | .returning => .unshare .clean
  -- waiting on the condition variable releases the queue and falls asleep at once
  | .wait | .giveUp | .unlockQueue => .release (.queue (.queue index))
  | .tryLock => if locks.owner .clean = none then .share .clean else .compute
  | .testEmpty | .asleep | .testPredicate | .popFront | .resume | .running => .compute

def RunPc.held (index : Nat) : RunPc → HeldLocks Lock
  | .lockClean | .asleep | .notified => {}
  | .lockQueue | .resume | .running | .returning => { shared := [.clean] }
  | .testEmpty | .unlockClean | .popFront | .unlockQueue =>
    { exclusive := [.queue (.queue index)], shared := [.clean] }
  | .wait | .testPredicate | .tryLock | .giveUp => { exclusive := [.queue (.queue index)] }

def CleanPc.action : CleanPc Handle → LockAction Lock
  | .lockClean => .acquire .clean
  | .nextQueue _ (index :: _) => .acquire (.queue (.queue index))
  | .unlockQueue _ index _ => .release (.queue (.queue index))
  | .unlockClean => .release .clean
  | .sleeping | .testSize | .nextQueue _ [] | .sweep _ _ _ => .compute

def CleanPc.held : CleanPc Handle → HeldLocks Lock
  | .sleeping | .lockClean => {}
  | .testSize | .nextQueue _ _ | .unlockClean => { exclusive := [.clean] }
  | .sweep _ index _ | .unlockQueue _ index _ =>
    { exclusive := [.clean, .queue (.queue index)] }

variable [DecidableEq Handle]

/-- The next point of `addTask`. -/
def AddPc.next (pool : ThreadPool Handle) : AddPc Handle → AddPc Handle
  | .idle => .idle
  | .lockClean task => .lockBinding task
  | .lockBinding task => .find task
  | .find task =>
    match pool.taskBinding.lookup task with
    | some target => .unlockBinding target
    | none => .lockCounter task
  | .lockCounter task => .select task
  | .select _ => .unlockCounter (pool.currentQueue.getD .sentinel)
  | .unlockCounter target => .unlockBinding target
  | .unlockBinding target => .lockQueue target
  | .lockQueue target => .pushBack target
  | .pushBack target => .unlockQueue target
  | .unlockQueue target => .notifyAll target
  | .notifyAll _ => .unlockClean
  | .unlockClean => .idle

/-- What a step of `addTask` does to the data. The assignment to `taskBinding` is done
with the choice of the queue: both are under the binding mutex. -/
def AddPc.effect (pool : ThreadPool Handle) (caller : Caller) : AddPc Handle → ThreadPool Handle
  | .find task =>
    match pool.taskBinding.lookup task with
    | some target => pool.found caller task target
    | none => pool
  | .select task => pool.select caller task
  | .pushBack _ => pool.push caller
  | _ => pool

/-- The next point of `runTasks`; after its return the worker calls it again. -/
def RunPc.next (index : Nat) (pool : ThreadPool Handle) (locks : LockTable Holder Lock) :
    RunPc → RunPc
  | .lockClean => .lockQueue
  | .lockQueue => .testEmpty
  | .testEmpty => if pool.tasks index = [] then .unlockClean else .popFront
  -- `wait` with a predicate tests it before the first wait
  | .unlockClean => .testPredicate
  | .wait => .asleep
  | .asleep => .asleep
  | .notified => .testPredicate
  | .testPredicate => if pool.tasks index = [] then .wait else .tryLock
  | .tryLock => if locks.owner .clean = none then .popFront else .giveUp
  | .giveUp => .lockClean
  | .popFront => .unlockQueue
  | .unlockQueue => .resume
  | .resume =>
    match (pool.resume index).workers index with
    | .running _ => .running
    | _ => .returning
  | .running => .returning
  | .returning => .lockClean

def RunPc.effect (index : Nat) (pool : ThreadPool Handle) : RunPc → ThreadPool Handle
  | .popFront => pool.pop index
  | .resume => pool.resume index
  | .running => pool.leave index
  | _ => pool

/-- The next point of `cleanTasks`. The order is that of the map of done tasks. -/
def CleanPc.next (pool : ThreadPool Handle) (order : List Nat) : CleanPc Handle → CleanPc Handle
  | .sleeping => .lockClean
  | .lockClean => .testSize
  | .testSize => if pool.taskBinding.size < 10000 then .unlockClean else .nextQueue pool.doneTasks order
  | .nextQueue _ [] => .unlockClean
  | .nextQueue doneTasks (index :: rest) => .sweep doneTasks index rest
  | .sweep doneTasks index rest => .unlockQueue doneTasks index rest
  | .unlockQueue doneTasks _ rest => .nextQueue doneTasks rest
  | .unlockClean => .sleeping

def CleanPc.effect (pool : ThreadPool Handle) : CleanPc Handle → ThreadPool Handle
  | .testSize => if pool.taskBinding.size < 10000 then pool else pool.collect
  | .sweep doneTasks index _ => pool.sweep (doneTasks index) index
  | _ => pool

/-! What the operations of a call leave alone, its steps leave alone. -/

theorem AddPc.effect_keeps {Part : Type} (part : ThreadPool Handle → Part)
    (kept : ∀ (pool : ThreadPool Handle) currentQueue taskBinding tasks calls nextTicket ledger,
      part { pool with currentQueue, taskBinding, tasks, calls, nextTicket, ledger } = part pool)
    (pool : ThreadPool Handle) (caller : Caller) (pc : AddPc Handle) :
    part (pc.effect pool caller) = part pool := by
  cases pc with
  | find task =>
    simp only [effect]
    split
    · exact kept pool _ _ _ _ _ _
    · rfl
  | select task => exact kept pool _ _ _ _ _ _
  | pushBack target => exact pool.push_keeps part (fun pool _ _ _ _ => kept pool _ _ _ _ _ _) caller
  | _ => rfl

omit [DecidableEq Handle] in
theorem RunPc.effect_keeps {Part : Type} (part : ThreadPool Handle → Part)
    (kept : ∀ (pool : ThreadPool Handle) tasks workers ledger,
      part { pool with tasks, workers, ledger } = part pool)
    (index : Nat) (pool : ThreadPool Handle) (pc : RunPc) :
    part (pc.effect index pool) = part pool := by
  cases pc with
  | popFront => exact pool.pop_keeps part kept index
  | resume => exact pool.resume_keeps part (fun pool _ _ => kept pool _ _ _) index
  | running => exact kept pool _ _ _
  | _ => rfl

theorem CleanPc.effect_keeps {Part : Type} (part : ThreadPool Handle → Part)
    (kept : ∀ (pool : ThreadPool Handle) taskBinding tasks frames destroyed ledger,
      part { pool with taskBinding, tasks, frames, destroyed, ledger } = part pool)
    (pool : ThreadPool Handle) (pc : CleanPc Handle) : part (pc.effect pool) = part pool := by
  cases pc with
  | testSize =>
    simp only [effect]
    split
    · rfl
    · exact kept pool _ _ _ _ _
  | sweep doneTasks index rest => exact kept pool _ _ _ _ _
  | _ => rfl

end Points

structure LockedPool (Handle : Type) where
  pool : ThreadPool Handle
  adds : Caller → AddPc Handle := fun _ => .idle
  runs : Nat → RunPc := fun _ => .lockClean
  cleaner : CleanPc Handle := .sleeping
  locks : LockTable Holder Lock := {}

inductive Step (Handle : Type) where
  | call (caller : Caller) (task : Handle)
  | add (caller : Caller)
  | run (index : Nat)
  | clean (order : List Nat)
  -- a wake-up without a notification
  | wake (index : Nat)
  | create (task : Handle)
  | finish (task : Handle)

/-- The call that a step belongs to. -/
def Step.holder {Handle : Type} : Step Handle → Option Holder
  | .add caller => some (.add caller)
  | .run index => some (.run index)
  | .clean _ => some .clean
  | .call _ _ | .wake _ | .create _ | .finish _ => none

namespace LockedPool

variable {Handle : Type}

def action (self : LockedPool Handle) : Holder → LockAction Lock
  | .add caller => (self.adds caller).action
  | .run index => (self.runs index).action index self.locks
  | .clean => self.cleaner.action

def held (self : LockedPool Handle) : Holder → HeldLocks Lock
  | .add caller => (self.adds caller).held
  | .run index => (self.runs index).held index
  | .clean => self.cleaner.held

/-- The lock operation of a call's next step. -/
def perform (self : LockedPool Handle) (holder : Holder) : LockTable Holder Lock :=
  (self.action holder).perform holder self.locks

def Ready (self : LockedPool Handle) (holder : Holder) : Prop :=
  (self.action holder).Ready self.locks

/-- The workers after a step of `addTask`: `notify_all` wakes those asleep at the queue. -/
def notify (self : LockedPool Handle) (caller : Caller) (index : Nat) : RunPc :=
  match self.adds caller with
  | .notifyAll target => if target = .queue index then (self.runs index).wake else self.runs index
  | _ => self.runs index

variable [DecidableEq Handle]

def addStep (self : LockedPool Handle) (caller : Caller) : LockedPool Handle :=
  { self with
    pool := (self.adds caller).effect self.pool caller
    adds := Function.update self.adds caller ((self.adds caller).next self.pool)
    runs := self.notify caller
    locks := self.perform (.add caller) }

def runStep (self : LockedPool Handle) (index : Nat) : LockedPool Handle :=
  { self with
    pool := (self.runs index).effect index self.pool
    runs := Function.update self.runs index ((self.runs index).next index self.pool self.locks)
    locks := self.perform (.run index) }

def cleanStep (self : LockedPool Handle) (order : List Nat) : LockedPool Handle :=
  { self with
    pool := self.cleaner.effect self.pool
    cleaner := self.cleaner.next self.pool order
    locks := self.perform .clean }

/-- All interleavings of the calls. A worker calls `addTask` from inside the task it
runs, and the task does not return before that call does. -/
def machine (threadCnt : Nat) : Machine (LockedPool Handle) (Step Handle) where
  enabled self
    | .call caller _ => self.adds caller = .idle ∧
        ∀ index, caller = .worker index → self.runs index = .running
    | .add caller => self.adds caller ≠ .idle ∧ self.Ready (.add caller)
    | .run index => index < threadCnt ∧ self.runs index ≠ .asleep ∧ self.Ready (.run index) ∧
        (self.runs index = .running → self.adds (.worker index) = .idle)
    | .clean order => self.Ready .clean ∧
        (self.cleaner = .testSize → ¬ self.pool.taskBinding.size < 10000 → self.pool.Covers order)
    | .wake index => self.runs index = .asleep
    | .create task => self.pool.frames task = none
    | .finish task => ∃ frame, self.pool.frames task = some frame ∧ frame.done = false
  next self
    | .call caller task => { self with adds := Function.update self.adds caller (.lockClean task) }
    | .add caller => self.addStep caller
    | .run index => self.runStep index
    | .clean order => self.cleanStep order
    | .wake index => { self with runs := Function.update self.runs index .notified }
    | .create task => { self with pool := self.pool.create task }
    | .finish task => { self with pool := self.pool.finish task }

/-- All queues are registered and empty, and nothing has been called yet. -/
def start (threadCnt : Nat) : LockedPool Handle where
  pool := { launched := threadCnt, registered := threadCnt, currentQueue := some (.queue 0) }

end LockedPool

end CoroMultiplex.Pool
