import CoroMultiplex.Async.Calls
import CoroMultiplex.Pool.Cleaning

/-! Task trees on the workers of the thread pool.

A worker that resumes a task runs the coroutine, what it awaits and what awaits it, until
one of them suspends on the scheduler or a root ends. Addresses of destroyed frames are
given to new ones.
-/

set_option autoImplicit false

namespace CoroMultiplex.Async

open Foundations Pool

/-- What a worker does inside `runTasks`. -/
inductive Stage (A V E : Type) where
  | loop
  -- in `task.resume()`
  | inside (control : Control A V E)
  -- in `scheduleAwaiter::await_suspend`
  | adding (handle : Handle)

inductive Report (A V E : Type) where
  | acts (action : A)
  | ends (outcome : Except E V)

structure Workers (A V E : Type) where
  pool : ThreadPool Handle := {}
  -- the frames in full, of which the pool sees whether they are done
  frames : Handle → Option (Frame A V E) := fun _ => none
  stage : Nat → Stage A V E := fun _ => .loop
  -- a root that a thread has created and not yet added
  spawned : Nat → Option Handle := fun _ => none
  -- history: the root a coroutine runs for, by the identity of its frame
  root : Handle → Nat := fun _ => 0
  bodies : Nat → Option (Body A V E) := fun _ => none
  log : List (Nat × Report A V E) := []

variable {A V E : Type}

/-- The coroutine that has the control of a worker. -/
def Control.handle? : Control A V E → Option Handle
  | .running handle _ | .resuming handle => some handle
  | .idle _ | .undefined => none

def Stage.handle? : Stage A V E → Option Handle
  | .loop => none
  | .inside control => control.handle?
  | .adding handle => some handle

/-- A worker that is with a coroutine is neither in the loop nor lost. -/
theorem Stage.live {stage : Stage A V E} {handle : Handle} (top : stage.handle? = some handle) :
    stage ≠ .loop ∧ stage ≠ .inside .undefined := by
  constructor <;> rintro rfl <;> cases top

namespace Workers

/-- The frames as one worker sees them, with the address that a new frame gets. -/
def view (s : Workers A V E) (fresh : Handle) (control : Control A V E) : TaskState A V E :=
  { frames := s.frames, allocated := fresh, control := control }

def setStage (s : Workers A V E) (index : Nat) (stage : Stage A V E) : Workers A V E :=
  { s with stage := Function.update s.stage index stage }

def report (s : Workers A V E) (handle : Handle) (report : Report A V E) : Workers A V E :=
  { s with log := s.log ++ [(s.root handle, report)] }

@[simp] theorem setStage_here (s : Workers A V E) (index : Nat) (stage : Stage A V E) :
    (s.setStage index stage).stage index = stage := Function.update_self ..

theorem setStage_elsewhere (s : Workers A V E) {index other : Nat} (stage : Stage A V E)
    (apart : other ≠ index) : (s.setStage index stage).stage other = s.stage other :=
  Function.update_of_ne apart ..

/-- One step of the coroutine that has the control of a worker. -/
def proceed [Inhabited V] (s : Workers A V E) (index : Nat) (fresh : Handle)
    (control : Control A V E) : Workers A V E :=
  let t := next (s.view fresh control) .proceed
  let s' := { s with frames := t.frames }.setStage index (.inside t.control)
  match control with
  | .running handle (.done outcome) =>
    let s' := { s' with pool := s.pool.finish handle }
    if s.pool.frameId handle = some (s.root handle) then s'.report handle (.ends outcome) else s'
  | .running handle (.perform action _) => s'.report handle (.acts action)
  | .running handle (.schedule _) => s'.setStage index (.adding handle)
  | .running handle (.await _ _) =>
    { s' with
      pool := s.pool.create fresh
      root := Function.update s.root fresh (s.root handle) }
  | .resuming _ | .idle _ | .undefined => s'

/-- A root task is called, and detached if it is to be. -/
def spawn [Inhabited V] (s : Workers A V E) (thread : Nat) (task : Handle) (body : Body A V E)
    (detached : Bool) : Workers A V E :=
  let t := (s.view task (.idle .returns)).create body
  { s with
    pool := s.pool.create task
    frames := (if detached then t.detach task else t).frames
    spawned := Function.update s.spawned thread (some task)
    root := Function.update s.root task s.pool.nextFrame
    bodies := Function.update s.bodies s.pool.nextFrame (some body) }

/-- `addTask` of a root, up to the push. -/
def add (s : Workers A V E) (thread : Nat) (task : Handle) : Workers A V E :=
  { s with
    pool := s.pool.bind (.outside thread) task
    spawned := Function.update s.spawned thread none }

/-- `addTask` of a coroutine that suspends on the scheduler, up to the push. -/
def schedule (s : Workers A V E) (index : Nat) (handle : Handle) : Workers A V E :=
  { s with pool := s.pool.bind (.worker index) handle }.setStage index (.inside (.idle .returns))

/-- `runTasks` on the popped task. -/
def resume (s : Workers A V E) (index : Nat) (task : Handle) : Workers A V E :=
  { s with pool := s.pool.resume index }.setStage index
    (if s.pool.isDone task then .loop else .inside (.resuming task))

def leave (s : Workers A V E) (index : Nat) : Workers A V E :=
  { s with pool := s.pool.leave index }.setStage index .loop

/-- A step of the pool alone; the frames that it destroys are gone. -/
def advance (s : Workers A V E) (pool : ThreadPool Handle) : Workers A V E :=
  { s with
    pool := pool
    frames := fun handle => if pool.frames handle = none then none else s.frames handle }

end Workers

/-- The steps of the pool in which no coroutine takes part. -/
def Plain : Pool.Event Handle → Prop
  | .launch | .register | .construct | .push _ | .pop _ | .clean _ => True
  | .create _ | .finish _ | .bind _ _ | .resume _ | .leave _ => False

inductive WorkersEvent (A V E : Type) where
  | pool (event : Pool.Event Handle)
  | spawn (thread : Nat) (task : Handle) (body : Body A V E) (detached : Bool)
  | add (thread : Nat)
  | resume (index : Nat)
  | proceed (index : Nat) (fresh : Handle)
  | schedule (index : Nat)
  | leave (index : Nat)

namespace Workers

/-- The program has ended in `std::terminate`. -/
def Terminated (s : Workers A V E) : Prop :=
  ∃ index, s.stage index = .inside (.idle .terminates)

def Enabled (threadCnt : Nat) (s : Workers A V E) : WorkersEvent A V E → Prop
  | .pool event => Plain event ∧ (ThreadPool.machine threadCnt).enabled s.pool event
  | .spawn thread task _ _ => s.spawned thread = none ∧ s.pool.calls (.outside thread) = none ∧
      (ThreadPool.machine threadCnt).enabled s.pool (.create task)
  | .add thread => ∃ task, s.spawned thread = some task ∧
      (ThreadPool.machine threadCnt).enabled s.pool (.bind (.outside thread) task)
  | .resume index => (ThreadPool.machine threadCnt).enabled s.pool (.resume index)
  | .proceed index fresh => ∃ control, s.stage index = .inside control ∧
      control.handle? ≠ none ∧ s.pool.frames fresh = none
  | .schedule index => ∃ handle, s.stage index = .adding handle ∧
      (ThreadPool.machine threadCnt).enabled s.pool (.bind (.worker index) handle)
  | .leave index => s.stage index = .inside (.idle .returns) ∧
      (ThreadPool.machine threadCnt).enabled s.pool (.leave index)

def step [Inhabited V] (threadCnt : Nat) (s : Workers A V E) : WorkersEvent A V E → Workers A V E
  | .pool event => s.advance ((ThreadPool.machine threadCnt).next s.pool event)
  | .spawn thread task body detached => s.spawn thread task body detached
  | .add thread =>
    match s.spawned thread with
    | some task => s.add thread task
    | none => s
  | .resume index =>
    match (s.pool.workers index).entry with
    | some entry => s.resume index entry.task
    | none => s
  | .proceed index fresh =>
    match s.stage index with
    | .inside control => s.proceed index fresh control
    | .loop | .adding _ => s
  | .schedule index =>
    match s.stage index with
    | .adding handle => s.schedule index handle
    | .loop | .inside _ => s
  | .leave index => s.leave index

end Workers

/-- Every interleaving of the pool, of threads that spawn root tasks and of the workers
that run them, until the program ends. -/
def workers (A V E : Type) [Inhabited V] (threadCnt : Nat) :
    Machine (Workers A V E) (WorkersEvent A V E) where
  enabled s event := ¬ s.Terminated ∧ s.Enabled threadCnt event
  next s event := s.step threadCnt event

/-- A bound for the steps of a body and of all it calls, those of the pool included. -/
def Body.work : Body A V E → Nat
  | .done _ => 2
  | .perform _ rest => 1 + rest.work
  | .schedule rest => 8 + rest.work
  | .await child next => 2 + child.work + (next child.eval).work

/-- A task and those that await it, as what is left to do of each. -/
structure Strand (A V E : Type) where
  top : Handle
  body : Body A V E
  callers : List (Handle × (Except E V → Body A V E)) := []

namespace Strand

def handles (strand : Strand A V E) : List Handle := strand.top :: strand.callers.map Prod.fst

/-- The outcome that the callers make of the outcome of what they await. -/
def unwind : List (Handle × (Except E V → Body A V E)) → Except E V → Except E V
  | [], outcome => outcome
  | (_, next) :: callers, outcome => unwind callers (next outcome).eval

def unwindActions : List (Handle × (Except E V → Body A V E)) → Except E V → List A
  | [], _ => []
  | (_, next) :: callers, outcome => (next outcome).actions ++ unwindActions callers (next outcome).eval

def unwindWork : List (Handle × (Except E V → Body A V E)) → Except E V → Nat
  | [], _ => 0
  | (_, next) :: callers, outcome => (next outcome).work + unwindWork callers (next outcome).eval

def outcome (strand : Strand A V E) : Except E V := unwind strand.callers strand.body.eval

def actions (strand : Strand A V E) : List A :=
  strand.body.actions ++ unwindActions strand.callers strand.body.eval

def work (strand : Strand A V E) : Nat :=
  strand.body.work + unwindWork strand.callers strand.body.eval

variable (top fresh : Handle) (callers : List (Handle × (Except E V → Body A V E)))

theorem outcome_await (child : Body A V E) (after : Except E V → Body A V E) :
    outcome ⟨fresh, child, (top, after) :: callers⟩ = outcome ⟨top, .await child after, callers⟩ := rfl

theorem actions_await (child : Body A V E) (after : Except E V → Body A V E) :
    actions ⟨fresh, child, (top, after) :: callers⟩ = actions ⟨top, .await child after, callers⟩ := by
  simp [actions, unwindActions, Body.actions, Body.eval]

end Strand

end CoroMultiplex.Async
