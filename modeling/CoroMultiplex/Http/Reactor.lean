import CoroMultiplex.Foundations.Machine
import CoroMultiplex.Http.Message
import Mathlib.Logic.Function.Basic

/-! `httpRequest::readRequest` of the epoll server, on all descriptors at once.

A message that is not complete yet is a shared string, which the next call finds in a
table by the descriptor. A call fetches its string and reads until a read fails; calls
on different descriptors are interleaved read by read.
-/

set_option autoImplicit false

namespace CoroMultiplex.Http

open Foundations

/-- What `::read` gives: bytes (none at the end of the stream) or an errno. -/
inductive ReadResult where
  | received (buf : Bytes)
  | failed (errno : Nat)

/-- `reactorSocket::read`. -/
def ReactorSocket.read (fd : Int) (outcome : ReadResult) : Except ErrorCode Bytes :=
  if fd < 0 then .error (.socket .readError)
  else match outcome with
    | .received buf => .ok buf
    | .failed errno => .error (.generic errno)

/-- What the calls have read and returned. -/
inductive Observation where
  | got (fd : Int) (buf : Bytes)
  | returned (fd : Int) (result : Except ErrorCode Nat)

structure Reactor where
  -- the shared strings by their addresses, which are free from `allocated` on
  strings : Nat → Bytes := fun _ => []
  allocated : Nat := 0
  uncompletedRequests : Int → Option Nat := fun _ => none
  -- the local variable of the call in progress on a descriptor
  requestMessage : Int → Option Nat := fun _ => none
  log : List Observation := []

namespace Reactor

def getBuffer (self : Reactor) (fd : Int) : Nat × Reactor :=
  match self.uncompletedRequests fd with
  | some buffer => (buffer, self)
  | none => (self.allocated, { self with
      strings := Function.update self.strings self.allocated []
      allocated := self.allocated + 1
      uncompletedRequests := Function.update self.uncompletedRequests fd (some self.allocated) })

def eraseBuffer (self : Reactor) (fd : Int) : Reactor :=
  { self with uncompletedRequests := Function.update self.uncompletedRequests fd none }

/-- A call up to its first read. -/
def call (self : Reactor) (fd : Int) : Reactor :=
  let (buffer, self) := self.getBuffer fd
  { self with requestMessage := Function.update self.requestMessage fd (some buffer) }

def append (self : Reactor) (pointer : Nat) (buf : Bytes) : Reactor :=
  { self with strings := Function.update self.strings pointer (self.strings pointer ++ buf) }

def observe (self : Reactor) (observations : List Observation) : Reactor :=
  { self with log := self.log ++ observations }

def returning (self : Reactor) (fd : Int) (result : Except ErrorCode Nat) : Reactor :=
  { self with requestMessage := Function.update self.requestMessage fd none }.observe
    [.returned fd result]

/-- The bytes a read has delivered, as far as it was made. -/
def delivered (fd : Int) (outcome : ReadResult) : List Observation :=
  match ReactorSocket.read fd outcome with
  | .ok buf => [.got fd buf]
  | .error _ => []

/-- The end of the stream and a message that is too long count as errors of the read. -/
def checkRead (requestMessage buf : Bytes) : Except ErrorCode Bytes :=
  if buf.length = 0 then .error (.socket .eofError)
  else if buf.length + requestMessage.length > 4096 then .error (.http .badRequest)
  else .ok buf

/-- One iteration of `readRequest`. -/
def readRequest (self : Reactor) (fd : Int) (requestMessage : Nat) (outcome : ReadResult) :
    Reactor :=
  let readResult := (ReactorSocket.read fd outcome).bind (checkRead (self.strings requestMessage))
  let self := self.observe (delivered fd outcome)
  match readResult with
  | .ok buf => self.append requestMessage buf
  | .error error =>
    if error = .resourceUnavailableTryAgain ∨ error = .operationWouldBlock then
      if crlfcrlf <:+ self.strings requestMessage then
        (self.eraseBuffer fd).returning fd (.ok requestMessage)
      else self.returning fd (.error (.http .uncompletedRequest))
    else (self.eraseBuffer fd).returning fd (.error error)

inductive Event where
  | call (fd : Int)
  | read (fd : Int) (outcome : ReadResult)

/-- Calls on one descriptor do not overlap. -/
def enabled (self : Reactor) : Event → Prop
  | .call fd => self.requestMessage fd = none
  | .read fd _ => self.requestMessage fd ≠ none

def next (self : Reactor) : Event → Reactor
  | .call fd => self.call fd
  | .read fd outcome =>
    match self.requestMessage fd with
    | none => self
    | some requestMessage => self.readRequest fd requestMessage outcome

def machine : Machine Reactor Event := ⟨enabled, next⟩

/-- The string is given up, and the call returns. -/
def finish (self : Reactor) (fd : Int) (result : Except ErrorCode Nat) : Reactor :=
  (self.eraseBuffer fd).returning fd result

/-- What one iteration makes of the reactor. -/
inductive Iteration (self : Reactor) (fd : Int) (pointer : Nat) : ReadResult → Reactor → Prop
  | appended (buf : Bytes) (valid : 0 ≤ fd) (present : buf ≠ [])
      (fits : (self.strings pointer).length + buf.length ≤ 4096) :
      Iteration self fd pointer (.received buf) ((self.observe [.got fd buf]).append pointer buf)
  | ended (valid : 0 ≤ fd) :
      Iteration self fd pointer (.received [])
        ((self.observe [.got fd []]).finish fd (.error (.socket .eofError)))
  | tooLong (buf : Bytes) (valid : 0 ≤ fd) (present : buf ≠ [])
      (excess : 4096 < (self.strings pointer).length + buf.length) :
      Iteration self fd pointer (.received buf)
        ((self.observe [.got fd buf]).finish fd (.error (.http .badRequest)))
  | completed (errno : Nat) (valid : 0 ≤ fd)
      (blocked : ErrorCode.generic errno = .resourceUnavailableTryAgain)
      (complete : crlfcrlf <:+ self.strings pointer) :
      Iteration self fd pointer (.failed errno) (self.finish fd (.ok pointer))
  | suspended (errno : Nat) (valid : 0 ≤ fd)
      (blocked : ErrorCode.generic errno = .resourceUnavailableTryAgain)
      (incomplete : ¬ crlfcrlf <:+ self.strings pointer) :
      Iteration self fd pointer (.failed errno)
        (self.returning fd (.error (.http .uncompletedRequest)))
  | failed (errno : Nat) (valid : 0 ≤ fd)
      (other : ErrorCode.generic errno ≠ .resourceUnavailableTryAgain) :
      Iteration self fd pointer (.failed errno) (self.finish fd (.error (.generic errno)))
  | invalid (outcome : ReadResult) (negative : fd < 0) :
      Iteration self fd pointer outcome (self.finish fd (.error (.socket .readError)))

theorem observe_nil (self : Reactor) : self.observe [] = self := by
  simp [observe]

theorem readRequest_of_error {self : Reactor} {fd : Int} {pointer : Nat} {outcome : ReadResult}
    {error : ErrorCode}
    (failed : (ReactorSocket.read fd outcome).bind (checkRead (self.strings pointer)) = .error error)
    (other : error ≠ .resourceUnavailableTryAgain) :
    self.readRequest fd pointer outcome =
      (self.observe (delivered fd outcome)).finish fd (.error error) := by
  have otherwise : error ≠ .operationWouldBlock := other
  simp only [readRequest, failed, other, otherwise, or_self, if_false]
  rfl

theorem iteration_received (self : Reactor) {fd : Int} (valid : 0 ≤ fd) (pointer : Nat)
    (buf : Bytes) :
    Iteration self fd pointer (.received buf) (self.readRequest fd pointer (.received buf)) := by
  have read : ReactorSocket.read fd (.received buf) = .ok buf := if_neg (Int.not_lt.mpr valid)
  have got : delivered fd (.received buf) = [.got fd buf] := by rw [delivered, read]
  have checked : (ReactorSocket.read fd (.received buf)).bind (checkRead (self.strings pointer)) =
      checkRead (self.strings pointer) buf := by rw [read]; rfl
  by_cases present : buf = []
  · subst present
    rw [@readRequest_of_error self fd pointer (.received []) (.socket .eofError)
      (checked.trans rfl) (by decide), got]
    exact .ended valid
  · have filled : buf.length ≠ 0 := by simpa using present
    by_cases excess : 4096 < buf.length + (self.strings pointer).length
    · rw [@readRequest_of_error self fd pointer (.received buf) (.http .badRequest)
        (checked.trans (by simp [checkRead, filled, excess])) (by decide), got]
      exact .tooLong buf valid present (by omega)
    · have passed : checkRead (self.strings pointer) buf = .ok buf := by
        simp [checkRead, filled, excess]
      have step : self.readRequest fd pointer (.received buf) =
          (self.observe [.got fd buf]).append pointer buf := by
        simp only [readRequest, checked, passed, got]
      rw [step]
      exact .appended buf valid present (by omega)

theorem iteration_failed (self : Reactor) {fd : Int} (valid : 0 ≤ fd) (pointer errno : Nat) :
    Iteration self fd pointer (.failed errno) (self.readRequest fd pointer (.failed errno)) := by
  have read : ReactorSocket.read fd (.failed errno) = .error (.generic errno) :=
    if_neg (Int.not_lt.mpr valid)
  have silent : delivered fd (.failed errno) = [] := by rw [delivered, read]
  by_cases blocked : ErrorCode.generic errno = .resourceUnavailableTryAgain
  · by_cases complete : crlfcrlf <:+ self.strings pointer
    · have step : self.readRequest fd pointer (.failed errno) = self.finish fd (.ok pointer) := by
        simp only [readRequest, read, Except.bind, blocked, true_or, if_true, silent,
          observe_nil, complete]
        rfl
      rw [step]
      exact .completed errno valid blocked complete
    · have step : self.readRequest fd pointer (.failed errno) =
          self.returning fd (.error (.http .uncompletedRequest)) := by
        simp only [readRequest, read, Except.bind, blocked, true_or, if_true, silent,
          observe_nil, complete, if_false]
      rw [step]
      exact .suspended errno valid blocked complete
  · rw [@readRequest_of_error self fd pointer (.failed errno) (.generic errno)
      (by rw [read]; rfl) blocked, silent, observe_nil]
    exact .failed errno valid blocked

theorem readRequest_iteration (self : Reactor) (fd : Int) (pointer : Nat) (outcome : ReadResult) :
    Iteration self fd pointer outcome (self.readRequest fd pointer outcome) := by
  by_cases negative : fd < 0
  · have read : ReactorSocket.read fd outcome = .error (.socket .readError) := if_pos negative
    have step := @readRequest_of_error self fd pointer outcome (.socket .readError)
      (by rw [read]; rfl) (by decide)
    rw [step, delivered, read, observe_nil]
    exact .invalid outcome negative
  · have valid : 0 ≤ fd := Int.not_lt.mp negative
    cases outcome with
    | received buf => exact iteration_received self valid pointer buf
    | failed errno => exact iteration_failed self valid pointer errno

/-- A read of a running call is an iteration on its string. -/
theorem next_iteration {self : Reactor} {fd : Int} {pointer : Nat}
    (running : self.requestMessage fd = some pointer) (outcome : ReadResult) :
    Iteration self fd pointer outcome (self.next (.read fd outcome)) := by
  have step : self.next (.read fd outcome) = self.readRequest fd pointer outcome := by
    simp [next, running]
  rw [step]
  exact readRequest_iteration self fd pointer outcome

end Reactor

end CoroMultiplex.Http
