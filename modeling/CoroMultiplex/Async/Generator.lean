import CoroMultiplex.Async.Task

/-! A generator and the coroutines that await it.

The tasks that the generator awaits run on the machine of tasks. The generator and its
awaiters have handles below those of the tasks: where control is transferred to a
handle without a frame, it leaves the tasks.
-/

set_option autoImplicit false

namespace CoroMultiplex.Async

open Foundations

/-- What the body of a generator does next. -/
inductive Generator (A V T E : Type) where
  | done (outcome : Except E T)
  | perform (action : A) (rest : Generator A V T E)
  -- `co_await pool.scheduler`
  | schedule (rest : Generator A V T E)
  | await (child : Body A V E) (next : Except E V → Generator A V T E)
  -- `co_yield`
  | yield (value : T) (rest : Generator A V T E)

/-- `yieldPromiseType`: `promiseBase`, the value and a flag that nothing reads. -/
structure YieldPromise (T E : Type) extends Promise T E where
  ended : Bool := false

/-- Where the generator goes on when it is resumed. -/
inductive GeneratorPoint (A V T E : Type) where
  | initial (body : Generator A V T E)
  | yielded (rest : Generator A V T E)
  | scheduled (rest : Generator A V T E)
  | awaiting (selfCoro : Handle) (next : Except E V → Generator A V T E)
  | active
  | final

/-- Whose turn it is. -/
inductive Turn (A V T E : Type) where
  -- an awaiting coroutine is at the head of its loop
  | loop
  | generator (rest : Generator A V T E)
  -- control is where the tasks have it
  | tasks
  | finished

inductive Delivery (T E : Type) where
  | awaits (caller : Handle)
  | observes (caller : Handle) (outcome : Except E T)
  deriving DecidableEq

/-- The coroutines that await the generator, in the order of their awaits. The generator
is coroutine 0, and tasks are created from the base on. -/
structure Awaiters where
  base : Nat
  caller : Nat → Handle
  apart : ∀ count, 0 < caller count ∧ caller count < base

structure GeneratorState (A V T E : Type) where
  tasks : TaskState A V E
  point : GeneratorPoint A V T E
  promise : YieldPromise T E
  -- the coroutine that is suspended in `co_await gen`
  waiting : Option Handle := none
  -- how often the generator was awaited
  count : Nat := 0
  turn : Turn A V T E := .loop
  log : List (Delivery T E) := []

variable {A V T E : Type}

namespace YieldPromise

def yieldValue (promise : YieldPromise T E) (v : T) : YieldPromise T E × ReturnPrevAwaiter :=
  ({ promise with returnValue := v }, ⟨false, promise.detached, promise.prevCoro⟩)

/-- `return_value` -/
def storeReturnValue (promise : YieldPromise T E) (v : T) : YieldPromise T E :=
  { promise with ended := true, returnValue := v }

end YieldPromise

namespace GeneratorState

def undefined (s : GeneratorState A V T E) : GeneratorState A V T E :=
  { s with tasks := { s.tasks with control := .undefined }, turn := .tasks }

/-- `gen.selfCoro.done()` -/
def done (s : GeneratorState A V T E) : Bool :=
  match s.point with
  | .final => true
  | .initial _ | .yielded _ | .scheduled _ | .awaiting _ _ | .active => false

/-- The generator suspends with this awaiter. -/
def transfer (s : GeneratorState A V T E) (awaiter : ReturnPrevAwaiter) : GeneratorState A V T E :=
  match awaiter.awaitSuspend with
  | some prevCoro =>
    { s with tasks := { s.tasks with control := .resuming prevCoro }, turn := .tasks }
  | none => { s with tasks := { s.tasks with control := .idle .returns }, turn := .tasks }

def finalSuspend (s : GeneratorState A V T E) (promise : YieldPromise T E) :
    GeneratorState A V T E :=
  { s with point := .final, promise := promise }.transfer promise.finalSuspend

/-- Leaving the body of the generator. -/
def finish (s : GeneratorState A V T E) : Except E T → GeneratorState A V T E
  | .ok value => s.finalSuspend (s.promise.storeReturnValue value)
  | .error exception =>
    match s.promise.unhandledException exception with
    | .error exit => { s with tasks := { s.tasks with control := .idle exit }, turn := .tasks }
    | .ok promise => s.finalSuspend { s.promise with toPromise := promise }

/-- One step of the running generator. -/
def run [Inhabited V] (s : GeneratorState A V T E) : Generator A V T E → GeneratorState A V T E
  | .done outcome => s.finish outcome
  | .perform action rest => { s with tasks := s.tasks.note (.acts action), turn := .generator rest }
  | .schedule rest => { s with
      point := .scheduled rest
      tasks := { s.tasks.note (.suspends 0) with
        suspended := s.tasks.suspended ++ [0]
        control := .idle .returns }
      turn := .tasks }
  | .await child next => { s with
      point := .awaiting s.tasks.allocated next
      tasks := ((s.tasks.note (.awaits 0 s.tasks.allocated)).create child).awaitSuspend
        s.tasks.allocated 0
      turn := .tasks }
  | .yield value rest =>
    let (promise, awaiter) := s.promise.yieldValue value
    { s with point := .yielded rest, promise := promise }.transfer awaiter

/-- Resuming the generator; behind an await this is `await_resume`. -/
def enter (s : GeneratorState A V T E) : GeneratorState A V T E :=
  match s.point with
  | .initial rest | .yielded rest | .scheduled rest =>
    { s with point := .active, turn := .generator rest }
  | .awaiting selfCoro next =>
    match s.tasks.frames selfCoro with
    | some child => { s with point := .active, turn := .generator (next child.promise.getValue) }
    | none => s.undefined
  | .active | .final => s.undefined

/-- One round of `while (!gen.selfCoro.done()) co_await gen`, up to the await. -/
def await (s : GeneratorState A V T E) (callerCoro : Handle) : GeneratorState A V T E :=
  if s.done then { s with turn := .finished }
  else { s with
    promise := { s.promise with prevCoro := some callerCoro }
    tasks := { s.tasks with control := .resuming 0 }
    waiting := some callerCoro
    count := s.count + 1
    turn := .tasks
    log := s.log ++ [.awaits callerCoro] }

/-- The awaiting coroutine goes on, with the value or the exception. An exception may be
caught, so that the loop asks once more whether the generator is done. -/
def observe (s : GeneratorState A V T E) (callerCoro : Handle) : GeneratorState A V T E :=
  { s with
    waiting := none
    turn := .loop
    log := s.log ++ [.observes callerCoro s.promise.getValue] }

/-- The coroutine without a frame that control is transferred to. -/
def outside (s : GeneratorState A V T E) : Option Handle :=
  match s.tasks.control with
  | .resuming handle => if (s.tasks.frames handle).isNone then some handle else none
  | .running _ _ | .idle _ | .undefined => none

/-- Only the generator and the coroutine that waits for it can be resumed here. -/
def arrive (s : GeneratorState A V T E) (handle : Handle) : GeneratorState A V T E :=
  if handle = 0 then s.enter
  else if s.waiting = some handle then s.observe handle
  else s.undefined

def Enabled (s : GeneratorState A V T E) (event : Event) : Prop :=
  match s.turn with
  | .loop | .generator _ => event = .proceed
  | .tasks => Async.Enabled s.tasks event
  | .finished => False

def next [Inhabited V] (awaiters : Awaiters) (s : GeneratorState A V T E) (event : Event) :
    GeneratorState A V T E :=
  match s.turn with
  | .loop => s.await (awaiters.caller s.count)
  | .generator rest => s.run rest
  | .tasks =>
    match s.outside with
    | some handle => s.arrive handle
    | none => { s with tasks := Async.next s.tasks event }
  | .finished => s

/-- Calling the generator function, before the loop. -/
def start [Inhabited T] (awaiters : Awaiters) (body : Generator A V T E) :
    GeneratorState A V T E where
  tasks := { allocated := awaiters.base }
  point := .initial body
  promise := { returnValue := default }

/-- A coroutine was resumed that is not suspended. -/
def Undefined (s : GeneratorState A V T E) : Prop :=
  s.turn = .tasks ∧ s.tasks.control = .undefined

/-- The generator is about to be resumed though it is done. -/
def ResumesDone (s : GeneratorState A V T E) : Prop :=
  s.turn = .tasks ∧ s.outside = some 0 ∧ s.done = true

end GeneratorState

/-- Every suspended handle is resumed once, at any later time. -/
def generatorMachine (A V T E : Type) [Inhabited V] (awaiters : Awaiters) :
    Machine (GeneratorState A V T E) Event where
  enabled := GeneratorState.Enabled
  next := GeneratorState.next awaiters

end CoroMultiplex.Async
