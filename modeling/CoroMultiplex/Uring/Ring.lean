import CoroMultiplex.Foundations.Machine
import CoroMultiplex.Http.Message
import Mathlib.Logic.Function.Basic

/-! Coroutines that await completions of one ring, and the coroutine that reaps them.

An awaiter lives in the suspended frame of its coroutine, and its user data is known
to the ring by address only. The kernel completes submissions in any order.
-/

set_option autoImplicit false

namespace CoroMultiplex.Uring

open Foundations Http

abbrev Handle := Nat
abbrev Address := Nat
abbrev Handler := Nat

inductive Operation where
  | send | recv
  | multishotAccept (handler : Handler)
  deriving DecidableEq

namespace Operation

def multishot : Operation → Bool
  | .send | .recv => false
  | .multishotAccept _ => true

def multishotHandler : Operation → Option Handler
  | .send | .recv => none
  | .multishotAccept handler => some handler

end Operation

/-- One evaluation of a `co_await` of an awaiter. The number tells evaluations apart. -/
structure Await where
  number : Nat
  handle : Handle
  address : Address
  operation : Operation
  deriving DecidableEq

/-- `uringInstance::userData`. -/
structure UserData where
  multishot : Bool
  handle : Handle
  returnVal : Except ErrorCode Int := .ok 0
  -- an empty function throws when it is called
  multishotHandler : Option Handler

-- The owners of submissions and completions are recorded for proofs only.
structure Sqe where
  userData : Address
  multishot : Bool
  owner : Await
  deriving DecidableEq

structure Cqe where
  userData : Address
  res : Int
  more : Bool
  owner : Await
  serial : Nat
  deriving DecidableEq

/-- What waits on the pool: a suspended coroutine, or a new task of a handler. -/
inductive Task where
  | coroutine (handle : Handle) (of : Cqe)
  | handler (handler : Handler) (res : Int) (of : Cqe)
  deriving DecidableEq

/-- Where a coroutine stands with respect to the ring. -/
inductive Control where
  | running
  -- inside `await_suspend`, before and after a refused submission
  | suspending (await : Await)
  | refused (await : Await)
  | suspended (await : Await)
  | ended
  deriving DecidableEq

/-- The steps of one pass of `reapIOs`. -/
inductive ReapPc where
  | peek | yielded
  | store (cqe : Cqe)
  | dispatch (cqe : Cqe)
  | last (cqe : Cqe)
  | seen (cqe : Cqe)
  | thrown
  deriving DecidableEq

structure RingState where
  memory : Address → Option UserData := fun _ => none
  control : Handle → Control := fun _ => .running
  -- awaits whose `await_suspend` has submitted and not yet returned
  returning : List Await := []
  kernel : List Sqe := []
  cq : List Cqe := []
  reaper : ReapPc := .peek
  pool : List Task := []
  -- user data was used that no awaiter owns, or an empty handler was called
  fault : Bool := false
  -- what has happened so far
  started : List Await := []
  granted : List Await := []
  refusals : List Await := []
  results : List (Await × Except ErrorCode Int) := []
  handed : List Task := []
  reaped : List Cqe := []

/-- The value stored for a completion. -/
def returned (res : Int) : Except ErrorCode Int :=
  if res < 0 then .error (.generic res.natAbs) else .ok res

/-- The results on which `asyncAccept` goes on. -/
def acceptAgain : Except ErrorCode Int → Bool
  | .ok _ => true
  | .error e => e == .resourceUnavailableTryAgain || e == .sqeBusy || e == .generic 125

namespace RingState

/-- Every completion the kernel has posted, in order. -/
def posted (s : RingState) : List Cqe := s.reaped ++ s.cq

/-- Constructing an awaiter and entering its `await_suspend`. -/
def await (s : RingState) (handle : Handle) (address : Address) (operation : Operation) : RingState :=
  let await : Await := { number := s.started.length, handle, address, operation }
  { s with
    memory := Function.update s.memory address (some {
      multishot := operation.multishot
      handle := handle
      multishotHandler := operation.multishotHandler })
    control := Function.update s.control handle (.suspending await)
    started := s.started ++ [await] }

/-- `caller->returnVal = value` -/
def setReturn (s : RingState) (address : Address) (value : Except ErrorCode Int) : RingState :=
  match s.memory address with
  | none => { s with fault := true }
  | some caller =>
    { s with memory := Function.update s.memory address (some { caller with returnVal := value }) }

/-- The critical section of a `prep_` function, with or without a free entry. -/
def prep (s : RingState) (await : Await) (free : Bool) : RingState :=
  if free then
    { s with
      kernel := s.kernel ++ [⟨await.address, await.operation.multishot, await⟩]
      control := Function.update s.control await.handle (.suspended await)
      returning := s.returning ++ [await]
      granted := s.granted ++ [await] }
  else
    let s := s.setReturn await.address (.error .sqeBusy)
    { s with
      control := Function.update s.control await.handle (.refused await)
      refusals := s.refusals ++ [await] }

/-- What a coroutine does with the result of an await. The loop of `asyncAccept`
goes on or throws; of the other coroutines nothing is assumed. -/
def afterwards (acceptor : Handle → Option Handler) (handle : Handle)
    (value : Except ErrorCode Int) : Control :=
  match acceptor handle with
  | none => .running
  | some _ => if acceptAgain value then .running else .ended

/-- `await_resume`; the awaiter is destroyed behind it. -/
def awaitResume (acceptor : Handle → Option Handler) (s : RingState) (await : Await) : RingState :=
  match s.memory await.address with
  | none => { s with fault := true }
  | some callerData =>
    { s with
      memory := Function.update s.memory await.address none
      control := Function.update s.control await.handle
        (afterwards acceptor await.handle callerData.returnVal)
      results := s.results ++ [(await, callerData.returnVal)] }

/-- The kernel posts a completion; the submission stays in flight as long as more follow. -/
def complete (s : RingState) (sqe : Sqe) (res : Int) (more : Bool) : RingState :=
  { s with
    kernel := if more then s.kernel else s.kernel.erase sqe
    cq := s.cq ++ [⟨sqe.userData, res, more, sqe.owner, s.posted.length⟩] }

def addTask (s : RingState) (task : Task) : RingState :=
  { s with pool := s.pool ++ [task], handed := s.handed ++ [task] }

/-- `pool.addTask(caller->handle)` -/
def addCaller (s : RingState) (cqe : Cqe) : RingState :=
  match s.memory cqe.userData with
  | none => { s with fault := true }
  | some caller => s.addTask (.coroutine caller.handle cqe)

/-- `pool.addTask(caller->multishotHandler(cqe->res).detach())` -/
def addHandler (s : RingState) (cqe : Cqe) : RingState :=
  match (s.memory cqe.userData).bind UserData.multishotHandler with
  | none => { s with fault := true }
  | some handler => s.addTask (.handler handler cqe.res cqe)

/-- `io_uring_cqe_seen` -/
def cqeSeen (s : RingState) : RingState :=
  { s with cq := s.cq.tail, reaped := s.reaped ++ s.cq.take 1 }

end RingState

/-- What `io_uring_peek_cqe` reports. -/
inductive Peek where
  -- `-EAGAIN`, with or without an entry
  | again (held : Bool)
  | failed (errno : Nat)
  | nothing
  | entry

namespace RingState

def peek (s : RingState) : Peek → RingState
  | .again held => { (if held then s.cqeSeen else s) with reaper := .yielded }
  | .failed _ => { s with reaper := .thrown }
  | .nothing => { s with reaper := .yielded }
  | .entry =>
    match s.cq.head? with
    | none => s
    | some cqe => { s with reaper := .store cqe }

/-- One step of `reapIOs` behind its peek. -/
def reap (s : RingState) : RingState :=
  match s.reaper with
  | .peek | .thrown => s
  | .yielded => { s with reaper := .peek }
  | .store cqe => { s.setReturn cqe.userData (returned cqe.res) with reaper := .dispatch cqe }
  | .dispatch cqe =>
    match s.memory cqe.userData with
    | none => { s with fault := true }
    | some caller =>
      if !caller.multishot then { s.addCaller cqe with reaper := .seen cqe }
      else if cqe.res ≥ 0 then { s.addHandler cqe with reaper := .last cqe }
      else { s with reaper := .last cqe }
  | .last cqe =>
    if !cqe.more then { s.addCaller cqe with reaper := .seen cqe }
    else { s with reaper := .seen cqe }
  | .seen _ => { s.cqeSeen with reaper := .peek }

end RingState

inductive Event where
  | await (handle : Handle) (address : Address) (operation : Operation)
  | prep (await : Await) (free : Bool)
  | suspendReturns (await : Await)
  | goOn (await : Await)
  | complete (sqe : Sqe) (res : Int) (more : Bool)
  | peek (outcome : Peek)
  | reap
  | resume (task : Task)

def ReapPc.busy : ReapPc → Bool
  | .peek | .thrown => false
  | _ => true

/-- The acceptors run `asyncAccept` with the given handler; any other coroutine may
send and receive as it likes. -/
def Enabled (acceptor : Handle → Option Handler) (s : RingState) : Event → Prop
  | .await handle address operation =>
    s.control handle = .running ∧ s.memory address = none ∧
      match acceptor handle with
      | some handler => operation = .multishotAccept handler
      | none => operation.multishot = false
  | .prep await _ => s.control await.handle = .suspending await
  | .suspendReturns await => await ∈ s.returning
  | .goOn await => s.control await.handle = .refused await
  | .complete sqe res more => sqe ∈ s.kernel ∧ (more = true → sqe.multishot = true ∧ 0 ≤ res)
  | .peek outcome => s.reaper = .peek ∧
    match outcome with
    | .again held => held = false
    | .entry => s.cq ≠ []
    | .failed _ | .nothing => True
  | .reap => s.reaper.busy = true
  | .resume task => task ∈ s.pool

def next (acceptor : Handle → Option Handler) (s : RingState) : Event → RingState
  | .await handle address operation => s.await handle address operation
  | .prep await free => s.prep await free
  | .suspendReturns await => { s with returning := s.returning.erase await }
  | .goOn await => s.awaitResume acceptor await
  | .complete sqe res more => s.complete sqe res more
  | .peek outcome => s.peek outcome
  | .reap => s.reap
  | .resume task =>
    let s := { s with pool := s.pool.erase task }
    match task with
    | .handler _ _ _ => s
    | .coroutine handle _ =>
      match s.control handle with
      | .suspended await => s.awaitResume acceptor await
      | _ => { s with fault := true }

def machine (acceptor : Handle → Option Handler) : Machine RingState Event where
  enabled := Enabled acceptor
  next := next acceptor

end CoroMultiplex.Uring
