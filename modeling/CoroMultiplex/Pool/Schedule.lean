import CoroMultiplex.Foundations.Machine
import CoroMultiplex.Pool.ThreadPool

/-! Every interleaving of the pool's constructor, its workers and its callers.

A worker takes tasks once all queues are registered, as the latch demands. A
caller of `addTask` and a worker between its pop and the return of `runTasks`
hold the clean-up mutex shared, so a pass happens only when there are none.
-/

set_option autoImplicit false

namespace CoroMultiplex.Pool

open Foundations

inductive Event (Handle : Type) where
  | launch
  | register
  | construct
  | create (task : Handle)
  | finish (task : Handle)
  | bind (caller : Caller) (task : Handle)
  | push (caller : Caller)
  | pop (index : Nat)
  | resume (index : Nat)
  | leave (index : Nat)
  | clean (order : List Nat)

namespace ThreadPool

variable {Handle : Type} [DecidableEq Handle]

/-- The caller exists: a worker calls only from inside a running task. -/
def Calling (self : ThreadPool Handle) : Caller → Prop
  | .worker index => ∃ entry, self.workers index = .running entry
  | .outside _ => True

def machine (threadCnt : Nat) : Machine (ThreadPool Handle) (Event Handle) where
  enabled self
    | .launch => self.launched < threadCnt ∧ self.currentQueue = none
    | .register => self.registered < self.launched
    | .construct => self.launched = threadCnt ∧ self.currentQueue = none
    | .create task => self.frames task = none
    | .finish task => ∃ frame, self.frames task = some frame ∧ frame.done = false
    -- callers add only handles whose frame exists
    | .bind caller task => self.currentQueue ≠ none ∧ self.Calling caller ∧
        self.calls caller = none ∧ self.frames task ≠ none
    | .push caller => ∃ task index, self.calls caller = some { task, targetQueue := .queue index } ∧
        index < self.registered
    | .pop index => self.registered = threadCnt ∧ index < threadCnt ∧
        self.workers index = .idle ∧ self.tasks index ≠ []
    | .resume index => ∃ entry, self.workers index = .popped entry
    | .leave index => (∃ entry, self.workers index = .running entry) ∧
        self.calls (.worker index) = none
    | .clean order => (∀ caller, self.calls caller = none) ∧ (∀ index, self.workers index = .idle) ∧
        self.Covers order
  next self
    | .launch => { self with launched := self.launched + 1 }
    | .register => { self with registered := self.registered + 1 }
    | .construct => { self with currentQueue := some self.first }
    | .create task => self.create task
    | .finish task => self.finish task
    | .bind caller task => self.bind caller task
    | .push caller => self.push caller
    | .pop index => self.pop index
    | .resume index => self.resume index
    | .leave index => self.leave index
    | .clean order => self.cleanTasks order

/-- The constructor ends when at least one queue is registered. -/
def Populated (self : ThreadPool Handle) : Event Handle → Prop
  | .construct => 1 ≤ self.registered
  | _ => True

/-- The pool whose constructor never ends before a queue exists. -/
def populated (threadCnt : Nat) : Machine (ThreadPool Handle) (Event Handle) :=
  (machine threadCnt).restrict Populated

end ThreadPool

end CoroMultiplex.Pool
