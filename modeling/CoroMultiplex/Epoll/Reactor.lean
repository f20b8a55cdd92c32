import CoroMultiplex.Async.Epoll
import CoroMultiplex.Foundations.Ownership
import CoroMultiplex.Pool.Cleaning

/-! The accept loops, the epoll loops and the handlers of clients on the thread pool.

A handler takes the pointer to its client by value, so its frame owns the client from the
call on. Epoll knows a client by its descriptor, and its handler by an address only.
-/

set_option autoImplicit false

namespace CoroMultiplex.Epoll

open Foundations Pool Async

/-- The body of a coroutine. -/
inductive Role where
  | acceptAll (server : Nat)
  | epollWaitEvent
  -- a handler, or any other coroutine of the program
  | other
  deriving DecidableEq, Repr

/-- What a worker does inside `runTasks`. -/
inductive Stage (Handle : Type) where
  | loop
  -- in a coroutine of which nothing is known
  | inside
  -- in the loop of `acceptAll`, before each of its calls
  | accepting
  | accepted (clientfd : Nat)
  | constructed (clientfd : Nat)
  | handled (clientfd : Nat) (task : Handle) (frame : Nat)
  -- in the loop of `epollWaitEvent`
  | watching
  | suspended
  deriving DecidableEq, Repr

/-- Where a worker is in a coroutine that it resumes. -/
def Role.enter {Handle : Type} : Role → Stage Handle
  | .acceptAll _ => .accepting
  | .epollWaitEvent => .watching
  | .other => .inside

/-- Who owns a pointer to a client. -/
inductive Owner where
  -- the local of `acceptAll`, on a worker
  | acceptAll (index : Nat)
  | frame (id : Nat)
  deriving DecidableEq, Repr

structure Connection (Handle : Type) where
  clientfd : Nat
  -- the handler: its address, and its frame
  task : Handle
  frame : Nat
  owners : List Owner

def Connection.copy {Handle : Type} (frame id : Nat) (connection : Connection Handle) :
    Connection Handle :=
  if connection.frame = frame then { connection with owners := connection.owners ++ [.frame id] }
  else connection

structure Reactor (Handle : Type) where
  pool : ThreadPool Handle := {}
  role : Handle → Role := fun _ => .other
  stage : Nat → Stage Handle := fun _ => .loop
  -- the loops of `epollWaitEvent`, by the address of the coroutine
  waits : Handle → EpollWait Handle := fun _ => { results := [] }
  -- the descriptors, and `event.data.ptr` of those that epoll watches
  isOpen : Nat → Bool := fun _ => false
  interest : Nat → Option Handle := fun _ => none
  connections : List (Connection Handle) := []
  -- `std::terminate` was called
  terminated : Bool := false

inductive ReactorEvent (Handle : Type) where
  | pool (event : Pool.Event Handle)
  | clean (order : List Nat)
  | listen (server : Nat) (task : Handle)
  | watch (task : Handle)
  | register (task : Handle)
  | resume (index : Nat)
  | accept (index : Nat) (result : Except Nat Nat)
  | construct (index : Nat) (succeeds : Bool)
  | handle (index : Nat) (task : Handle)
  | addEvent (index : Nat) (succeeds : Bool)
  | wait (index : Nat) (result : WaitResult Handle)
  | dispatch (index : Nat)
  | share (frame id : Nat)
  | drop (frame id : Nat)
  | leave (index : Nat)

/-- `EAGAIN`, which is `EWOULDBLOCK`, `EMFILE` and `ENFILE`. -/
def retries (errno : Nat) : Bool := errno = 11 || errno = 24 || errno = 23

/-- What the loop of `epollWaitEvent` gives to `addTask` next. -/
def next? {Handle : Type} (wait : EpollWait Handle) (self : Handle) : Option Handle :=
  match wait.point with
  | .looping i fds => if i = fds then some self else wait.cell? i
  | .waiting | .undefined => none

namespace Reactor

variable {Handle : Type} [DecidableEq Handle]

def setStage (self : Reactor Handle) (index : Nat) (stage : Stage Handle) : Reactor Handle :=
  { self with stage := Function.update self.stage index stage }

/-- The coroutine that a worker has resumed. -/
def running? (self : Reactor Handle) (index : Nat) : Option Handle :=
  match self.pool.workers index with
  | .running entry => some entry.task
  | .idle | .popped _ => none

/-- The descriptors of the clients that lose their last owner. -/
def closes (self : Reactor Handle) (left : Connection Handle → List Owner) : List Nat :=
  self.connections.filterMap fun connection =>
    if connection.owners ≠ [] ∧ left connection = [] then some connection.clientfd else none

/-- Owners of clients go. `socketBase` closes its descriptor with the last one, and epoll
forgets a descriptor that is closed. -/
def release (self : Reactor Handle) (left : Connection Handle → List Owner) : Reactor Handle :=
  { self with
    connections := self.connections.map fun connection => { connection with owners := left connection }
    isOpen := fun fd => self.isOpen fd && !(self.closes left).contains fd
    interest := fun fd => if fd ∈ self.closes left then none else self.interest fd }

/-- One pointer to a client is destroyed. -/
def drop (self : Reactor Handle) (frame : Nat) (owner : Owner) : Reactor Handle :=
  self.release fun connection =>
    if connection.frame = frame then connection.owners.erase owner else connection.owners

/-- A pointer to the client with this handler is copied into a frame. -/
def share (self : Reactor Handle) (frame id : Nat) : Reactor Handle :=
  { self with connections := self.connections.map (Connection.copy frame id) }

/-- The pointers of the frames that are not destroyed. -/
def spared (destroyed : List Nat) (connection : Connection Handle) : List Owner :=
  connection.owners.filter fun owner =>
    match owner with
    | .acceptAll _ => true
    | .frame id => id ∉ destroyed

/-- A pass destroys frames, and the pointers in them. -/
def clean (self : Reactor Handle) (order : List Nat) : Reactor Handle :=
  let pool := self.pool.cleanTasks order
  { self with pool := pool }.release (spared pool.destroyed)

/-- `acceptAll(server, ...).detach()`, with a server that has been opened for it. -/
def listen (self : Reactor Handle) (server : Nat) (task : Handle) : Reactor Handle :=
  { self with
    pool := self.pool.create task
    role := Function.update self.role task (.acceptAll server)
    isOpen := Function.update self.isOpen server true }

/-- `epollWaitEvent().detach()` -/
def watch (self : Reactor Handle) (task : Handle) : Reactor Handle :=
  { self with
    pool := self.pool.create task
    role := Function.update self.role task .epollWaitEvent
    waits := Function.update self.waits task { results := [] } }

/-- `addEvent` for the server of an `acceptAll`. -/
def register (self : Reactor Handle) (task : Handle) : Reactor Handle :=
  match self.role task with
  | .acceptAll server => { self with interest := Function.update self.interest server (some task) }
  | .epollWaitEvent | .other => self

/-- `runTasks` on the popped task. -/
def resume (self : Reactor Handle) (index : Nat) (task : Handle) : Reactor Handle :=
  { self with pool := self.pool.resume index }.setStage index
    (if self.pool.isDone task then .loop else (self.role task).enter)

/-- An exception that leaves a detached coroutine ends the program. -/
def accept (self : Reactor Handle) (index : Nat) : Except Nat Nat → Reactor Handle
  | .ok clientfd =>
    { self with isOpen := Function.update self.isOpen clientfd true }.setStage index (.accepted clientfd)
  | .error errno =>
    if retries errno then self.setStage index .suspended else { self with terminated := true }

/-- `std::make_shared<reactorSocket>(clientfd)`; the base closes the descriptor when the
constructor throws. -/
def construct (self : Reactor Handle) (index clientfd : Nat) (succeeds : Bool) : Reactor Handle :=
  if succeeds then self.setStage index (.constructed clientfd)
  else
    { self with
      isOpen := Function.update self.isOpen clientfd false
      terminated := true }.setStage index .inside

/-- `handler(client)`: the pointer is copied into the new frame. -/
def handle (self : Reactor Handle) (index clientfd : Nat) (task : Handle) : Reactor Handle :=
  let connection : Connection Handle := {
    clientfd := clientfd
    task := task
    frame := self.pool.nextFrame
    owners := [.acceptAll index, .frame self.pool.nextFrame] }
  { self with
    pool := self.pool.create task
    connections := self.connections ++ [connection] }.setStage index
      (.handled clientfd task connection.frame)

/-- `addEvent(clientfd, &event)` with `event.data.ptr = task.detach().address()`, and the end
of the scope of `client`. -/
def addEvent (self : Reactor Handle) (index clientfd : Nat) (task : Handle) (frame : Nat)
    (succeeds : Bool) : Reactor Handle :=
  if succeeds then
    let added := { self with interest := Function.update self.interest clientfd (some task) }
    (added.drop frame (.acceptAll index)).setStage index .accepting
  else { self with terminated := true }

/-- `epoll_wait` -/
def wait (self : Reactor Handle) (task : Handle) (result : WaitResult Handle) : Reactor Handle :=
  { self with
    waits := Function.update self.waits task
      (EpollWait.proceed { self.waits task with results := [result] }) }

/-- The loop of `epollWaitEvent` up to the push of what it adds: the next entry, or at the
end the coroutine itself, which suspends. -/
def dispatch (self : Reactor Handle) (index : Nat) (task added : Handle) : Reactor Handle :=
  let next : EpollWait Handle := (self.waits task).proceed
  { self with
    pool := self.pool.bind (.worker index) added
    waits := Function.update self.waits task next }.setStage index
    (if next.point = WaitPoint.waiting then .suspended else .watching)

def leave (self : Reactor Handle) (index : Nat) : Reactor Handle :=
  { self with pool := self.pool.leave index }.setStage index .loop

/-- The steps of the pool in which neither loop takes part. -/
def Plain (self : Reactor Handle) : Pool.Event Handle → Prop
  | .launch | .register | .construct | .create _ | .push _ | .pop _ => True
  | .finish task => self.role task = .other
  | .bind (.worker index) _ => self.stage index = .inside
  | .bind (.outside _) _ => True
  | .resume _ | .leave _ | .clean _ => False

def Enabled (threadCnt : Nat) (self : Reactor Handle) : ReactorEvent Handle → Prop
  | .pool event => self.Plain event ∧ (ThreadPool.machine threadCnt).enabled self.pool event
  | .clean order => (ThreadPool.machine threadCnt).enabled self.pool (.clean order)
  | .listen server task => self.isOpen server = false ∧
      (ThreadPool.machine threadCnt).enabled self.pool (.create task)
  | .watch task => (ThreadPool.machine threadCnt).enabled self.pool (.create task)
  | .register task => ∃ server, self.role task = .acceptAll server ∧ self.interest server = none
  | .resume index => (ThreadPool.machine threadCnt).enabled self.pool (.resume index)
  | .accept index result => self.stage index = .accepting ∧
      ∀ clientfd, result = .ok clientfd → self.isOpen clientfd = false
  | .construct index _ => ∃ clientfd, self.stage index = .accepted clientfd
  | .handle index task => (∃ clientfd, self.stage index = .constructed clientfd) ∧
      (ThreadPool.machine threadCnt).enabled self.pool (.create task)
  | .addEvent index succeeds => ∃ clientfd task frame,
      self.stage index = .handled clientfd task frame ∧
      (succeeds = true → self.interest clientfd = none)
  -- the kernel reports what it watches
  | .wait index result => self.stage index = .watching ∧
      (∃ task, self.running? index = some task ∧ (self.waits task).point = .waiting) ∧
      match result with
      | .ready handles _ => ∀ task ∈ handles, ∃ fd, self.interest fd = some task
      | .failed _ => True
  | .dispatch index => self.stage index = .watching ∧
      ∃ task added, self.running? index = some task ∧ next? (self.waits task) task = some added ∧
        (ThreadPool.machine threadCnt).enabled self.pool (.bind (.worker index) added)
  -- a coroutine that owns a pointer gives a copy of it to another one
  | .share frame id => (∃ connection ∈ self.connections,
      connection.frame = frame ∧ connection.owners ≠ []) ∧ ∃ task, self.pool.frameId task = some id
  | .drop frame id => ∃ connection ∈ self.connections,
      connection.frame = frame ∧ .frame id ∈ connection.owners
  | .leave index => (self.stage index = .inside ∨ self.stage index = .suspended) ∧
      (ThreadPool.machine threadCnt).enabled self.pool (.leave index)

def step (threadCnt : Nat) (self : Reactor Handle) : ReactorEvent Handle → Reactor Handle
  | .pool event => { self with pool := (ThreadPool.machine threadCnt).next self.pool event }
  | .clean order => self.clean order
  | .listen server task => self.listen server task
  | .watch task => self.watch task
  | .register task => self.register task
  | .resume index =>
    match (self.pool.workers index).entry with
    | some entry => self.resume index entry.task
    | none => self
  | .accept index result => self.accept index result
  | .construct index succeeds =>
    match self.stage index with
    | .accepted clientfd => self.construct index clientfd succeeds
    | _ => self
  | .handle index task =>
    match self.stage index with
    | .constructed clientfd => self.handle index clientfd task
    | _ => self
  | .addEvent index succeeds =>
    match self.stage index with
    | .handled clientfd task frame => self.addEvent index clientfd task frame succeeds
    | _ => self
  | .wait index result =>
    match self.running? index with
    | some task => self.wait task result
    | none => self
  | .dispatch index =>
    match self.running? index with
    | some task =>
      match next? (self.waits task) task with
      | some added => self.dispatch index task added
      | none => self
    | none => self
  | .share frame id => self.share frame id
  | .drop frame id => self.drop frame (.frame id)
  | .leave index => self.leave index

end Reactor

/-- Every interleaving of the accept loops, the epoll loops, the handlers and the pool. -/
def reactor (Handle : Type) [DecidableEq Handle] (threadCnt : Nat) :
    Machine (Reactor Handle) (ReactorEvent Handle) where
  enabled self event := self.terminated = false ∧ self.Enabled threadCnt event
  next self event := self.step threadCnt event

variable {Handle : Type} [DecidableEq Handle]

/-- No call of `epoll_wait` fails, and no pass destroys a handler while a coroutine that
stays owns its client. -/
def Careful (self : Reactor Handle) : ReactorEvent Handle → Prop
  | .wait _ result => ¬ result.Failed
  | .clean order => ∀ connection ∈ self.connections,
      connection.frame ∈ (self.pool.cleanTasks order).destroyed →
        Reactor.spared (self.pool.cleanTasks order).destroyed connection = []
  | _ => True

end CoroMultiplex.Epoll
