import CoroMultiplex.Foundations.Machine
import Mathlib.Logic.Function.Basic

/-! Tasks that await one another.

A task is a coroutine with a promise. Awaiting a task stores the awaiting coroutine in
the promise of the awaited one and transfers control to it; its final suspend transfers
control back.
-/

set_option autoImplicit false

namespace CoroMultiplex.Async

open Foundations

abbrev Handle := Nat

/-- What the body of a task does next. Each child is awaited once, and its exception
may be caught. -/
inductive Body (A V E : Type) where
  | done (outcome : Except E V)
  | perform (action : A) (rest : Body A V E)
  -- `co_await pool.scheduler`
  | schedule (rest : Body A V E)
  | await (child : Body A V E) (next : Except E V → Body A V E)

/-- `promiseType`: `promiseBase` and the value. -/
structure Promise (V E : Type) where
  returnException : Option E := none
  detached : Bool := false
  prevCoro : Option Handle := none
  returnValue : V

/-- Where a coroutine goes on when it is resumed. -/
inductive Point (A V E : Type) where
  | initial (body : Body A V E)
  | scheduled (rest : Body A V E)
  | awaiting (selfCoro : Handle) (next : Except E V → Body A V E)
  | active
  | final

structure Frame (A V E : Type) where
  point : Point A V E
  promise : Promise V E

/-- How a call of `resume` ends. -/
inductive Exit (E : Type) where
  | returns
  | throws (exception : E)
  -- `std::terminate`
  | terminates
  deriving DecidableEq

inductive Control (A V E : Type) where
  | running (handle : Handle) (body : Body A V E)
  -- control has been transferred to a coroutine
  | resuming (handle : Handle)
  | idle (last : Exit E)
  -- a coroutine was resumed that is not suspended, or a promise used that does not exist
  | undefined

/-- What is seen of a run, for proofs only. -/
inductive Happening (A V E : Type) where
  | acts (action : A)
  | suspends (handle : Handle)
  | awaits (caller callee : Handle)
  | ends (handle : Handle) (outcome : Except E V)
  | returnsTo (callee caller : Handle)
  | yields (caller callee : Handle) (outcome : Except E V)

structure TaskState (A V E : Type) where
  frames : Handle → Option (Frame A V E) := fun _ => none
  allocated : Nat := 0
  control : Control A V E := .idle .returns
  -- suspended coroutines that the pool is to resume
  suspended : List Handle := []
  history : List (Happening A V E) := []

variable {A V E : Type}

namespace Promise

/-- `getValue` rethrows a stored exception. -/
def getValue (promise : Promise V E) : Except E V :=
  match promise.returnException with
  | some exception => .error exception
  | none => .ok promise.returnValue

end Promise

/-- What a function declared `noexcept` makes of an exception that would leave it. -/
def Exit.noexcept : Exit E → Exit E
  | .throws _ => .terminates
  | exit => exit

/-- `unhandled_exception`, which ends the resume call or stores the exception. -/
def Promise.unhandledException (promise : Promise V E) (exception : E) :
    Except (Exit E) (Promise V E) :=
  if promise.detached then .error (Exit.noexcept (.throws exception))
  else .ok { promise with returnException := some exception }

structure ReturnPrevAwaiter where
  ended : Bool
  detached : Bool
  prevCoro : Option Handle

/-- The coroutine that control is transferred to; none is the noop coroutine. -/
def ReturnPrevAwaiter.awaitSuspend (awaiter : ReturnPrevAwaiter) : Option Handle :=
  if awaiter.detached && awaiter.ended then none
  else if !awaiter.detached then awaiter.prevCoro
  else none

def Promise.finalSuspend (promise : Promise V E) : ReturnPrevAwaiter :=
  ⟨true, promise.detached, promise.prevCoro⟩

namespace TaskState

def note (s : TaskState A V E) (happening : Happening A V E) : TaskState A V E :=
  { s with history := s.history ++ [happening] }

/-- Control becomes undefined where a frame is used that does not exist. -/
def withFrame (s : TaskState A V E) (handle : Handle)
    (use : Frame A V E → TaskState A V E) : TaskState A V E :=
  match s.frames handle with
  | none => { s with control := .undefined }
  | some frame => use frame

def setFrame (s : TaskState A V E) (handle : Handle) (frame : Frame A V E) : TaskState A V E :=
  { s with frames := Function.update s.frames handle (some frame) }

/-- Calling a task function: its frame is created, and it is suspended at once. -/
def create [Inhabited V] (s : TaskState A V E) (body : Body A V E) : TaskState A V E :=
  { s.setFrame s.allocated ⟨.initial body, { returnValue := default }⟩ with
    allocated := s.allocated + 1 }

/-- `detach` -/
def detach (s : TaskState A V E) (handle : Handle) : TaskState A V E :=
  s.withFrame handle fun frame =>
    s.setFrame handle { frame with promise := { frame.promise with detached := true } }

/-- `taskAwaiter::await_suspend`: the caller is stored, control goes to the task. -/
def awaitSuspend (s : TaskState A V E) (selfCoro callerCoro : Handle) : TaskState A V E :=
  s.withFrame selfCoro fun frame =>
    { s.setFrame selfCoro { frame with
        promise := { frame.promise with prevCoro := some callerCoro } } with
      control := .resuming selfCoro }

/-- Suspending at a point: the coroutine goes on there when it is resumed. -/
def suspendAt (s : TaskState A V E) (handle : Handle) (point : Point A V E) : TaskState A V E :=
  s.withFrame handle fun frame => s.setFrame handle { frame with point := point }

/-- The final suspend of a coroutine, behind its `return_value` or `unhandled_exception`. -/
def finalSuspend (s : TaskState A V E) (handle : Handle) (promise : Promise V E) :
    TaskState A V E :=
  let s := s.setFrame handle ⟨.final, promise⟩
  match promise.finalSuspend.awaitSuspend with
  | some prevCoro => { s.note (.returnsTo handle prevCoro) with control := .resuming prevCoro }
  | none => { s with control := .idle .returns }

/-- Leaving the body of a coroutine. -/
def finish (s : TaskState A V E) (handle : Handle) (outcome : Except E V) : TaskState A V E :=
  let s := s.note (.ends handle outcome)
  s.withFrame handle fun frame =>
    match outcome with
    | .ok value => s.finalSuspend handle { frame.promise with returnValue := value }
    | .error exception =>
      match frame.promise.unhandledException exception with
      | .error exit => { s with control := .idle exit }
      | .ok promise => s.finalSuspend handle promise

/-- One step of a running coroutine. -/
def run [Inhabited V] (s : TaskState A V E) (handle : Handle) : Body A V E → TaskState A V E
  | .done outcome => s.finish handle outcome
  | .perform action rest => { s.note (.acts action) with control := .running handle rest }
  | .schedule rest =>
    { (s.note (.suspends handle)).suspendAt handle (.scheduled rest) with
      suspended := s.suspended ++ [handle]
      control := .idle .returns }
  | .await child next =>
    ((s.note (.awaits handle s.allocated)).create child
      |>.suspendAt handle (.awaiting s.allocated next)).awaitSuspend s.allocated handle

/-- Entering a suspended coroutine; behind an await this is `await_resume`. -/
def resume (s : TaskState A V E) (handle : Handle) : TaskState A V E :=
  s.withFrame handle fun frame =>
    let s := s.setFrame handle { frame with point := .active }
    match frame.point with
    | .initial body => { s with control := .running handle body }
    | .scheduled rest => { s with control := .running handle rest }
    | .awaiting selfCoro next =>
      s.withFrame selfCoro fun child =>
        let outcome := child.promise.getValue
        { s.note (.yields handle selfCoro outcome) with control := .running handle (next outcome) }
    | .active | .final => { s with control := .undefined }

/-- A root task that was detached or not, on its way to the pool. -/
def start [Inhabited V] (root : Body A V E) (detached : Bool) : TaskState A V E :=
  let s : TaskState A V E := create {} root
  { (if detached then s.detach 0 else s) with suspended := [0] }

end TaskState

inductive Event where
  | proceed
  -- a resume call of the pool
  | resume (handle : Handle)

def Enabled (s : TaskState A V E) : Event → Prop
  | .proceed =>
    match s.control with
    | .running _ _ | .resuming _ => True
    | .idle _ | .undefined => False
  | .resume handle => handle ∈ s.suspended ∧
    match s.control with
    | .idle exit => exit ≠ .terminates
    | .running _ _ | .resuming _ | .undefined => False

def next [Inhabited V] (s : TaskState A V E) : Event → TaskState A V E
  | .proceed =>
    match s.control with
    | .running handle body => s.run handle body
    | .resuming handle => s.resume handle
    | .idle _ | .undefined => s
  | .resume handle =>
    { s with suspended := s.suspended.erase handle, control := .resuming handle }

/-- Every suspended handle is resumed once, at any later time. -/
def machine (A V E : Type) [Inhabited V] : Machine (TaskState A V E) Event where
  enabled := Enabled
  next := next

end CoroMultiplex.Async
