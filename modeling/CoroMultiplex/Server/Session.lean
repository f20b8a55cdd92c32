import CoroMultiplex.Http.Request

/-! One connection: reading requests and starting a response task for each.

A session advances by the outcomes of its recv awaits. Between two outcomes
`clientHandle` is suspended inside `readRequest`.
-/

set_option autoImplicit false

namespace CoroMultiplex.Server

open Foundations Http

/-- What `client.recv` resumes with: bytes in the buffer (none at the end of the
stream), a negative completion, or no submission entry. -/
inductive RecvResult where
  | received (buf : Bytes)
  | failed (errno : Nat)
  | sqeBusy

inductive ReadStep where
  | again (request : Bytes)
  | returned (closed : Bool) (result : Except ErrorCode Bytes)

/-- The two returns on a closed stream. -/
def atClose (request : Bytes) : Except ErrorCode Bytes :=
  if crlfcrlf <:+ request then .ok request else .error (.http .badRequest)

/-- One iteration of `readRequest` on the bytes accumulated so far. -/
def readRequest (request : Bytes) : RecvResult → ReadStep
  | .sqeBusy => .again request
  | .failed errno =>
    if ErrorCode.generic errno = .connectionReset then .returned true (atClose request)
    else .returned false (.error (.generic errno))
  | .received buf =>
    if buf.length = 0 then .returned true (atClose request)
    else if buf.length + request.length > 4096 then .returned false (.error (.http .badRequest))
    else if crlfcrlf <:+ request ++ buf then .returned false (.ok (request ++ buf))
    else .again (request ++ buf)

theorem readRequest_overflow {request buf : Bytes} (present : buf ≠ [])
    (excess : 4096 < buf.length + request.length) :
    readRequest request (.received buf) = .returned false (.error (.http .badRequest)) := by
  have filled : buf.length ≠ 0 := by simpa using present
  simp [readRequest, filled, excess]

theorem readRequest_complete {request buf : Bytes} (present : buf ≠ [])
    (fits : buf.length + request.length ≤ 4096) (complete : crlfcrlf <:+ request ++ buf) :
    readRequest request (.received buf) = .returned false (.ok (request ++ buf)) := by
  have filled : buf.length ≠ 0 := by simpa using present
  have below : ¬ 4096 < buf.length + request.length := Nat.not_lt.mpr fits
  simp [readRequest, filled, below, complete]

theorem readRequest_incomplete {request buf : Bytes} (present : buf ≠ [])
    (fits : buf.length + request.length ≤ 4096) (incomplete : ¬ crlfcrlf <:+ request ++ buf) :
    readRequest request (.received buf) = .again (request ++ buf) := by
  have filled : buf.length ≠ 0 := by simpa using present
  have below : ¬ 4096 < buf.length + request.length := Nat.not_lt.mpr fits
  simp [readRequest, filled, below, incomplete]

structure Session where
  request : Bytes := []
  closed : Bool := false
  -- requests moved into responseHandler tasks, in the order of addTask
  tasks : List HttpRequest := []
  returned : Bool := false

namespace Session

def closeSession (request : HttpRequest) : Bool :=
  request.status == .ok && request.headers[bytes "Connection"]? == some (bytes "Close")

def addTask (self : Session) (request : HttpRequest) : Session :=
  { self with tasks := self.tasks ++ [request],
              returned := closeSession request || self.closed }

/-- The rest of an iteration of `clientHandle` after `readRequest` has returned.
Only a code of the HTTP category is answered; the parse result itself is ignored. -/
def clientHandle (self : Session) : Except ErrorCode Bytes → Session
  | .ok requestMsg => self.addTask (HttpRequest.parseResquest {} requestMsg).1
  | .error (.http status) => self.addTask { status := status }
  | .error _ => { self with returned := true }

def onRecv (self : Session) (readRes : RecvResult) : Session :=
  if self.returned then self
  else match readRequest self.request readRes with
    | .again request => { self with request := request }
    | .returned closed result =>
      { self with request := [], closed := self.closed || closed }.clientHandle result

def run (self : Session) (outcomes : List RecvResult) : Session := outcomes.foldl onRecv self

@[simp] theorem run_nil (self : Session) : self.run [] = self := rfl

@[simp] theorem run_cons (self : Session) (outcome : RecvResult) (outcomes : List RecvResult) :
    self.run (outcome :: outcomes) = (self.onRecv outcome).run outcomes := rfl

theorem run_append (self : Session) (first rest : List RecvResult) :
    self.run (first ++ rest) = (self.run first).run rest := List.foldl_append

theorem onRecv_returned {self : Session} (ended : self.returned = true) (outcome : RecvResult) :
    self.onRecv outcome = self := by simp [onRecv, ended]

theorem onRecv_again {self : Session} {outcome : RecvResult} {request : Bytes}
    (suspended : self.returned = false) (step : readRequest self.request outcome = .again request) :
    self.onRecv outcome = { self with request := request } := by
  simp [onRecv, suspended, step]

theorem onRecv_result {self : Session} {outcome : RecvResult} {closed : Bool}
    {result : Except ErrorCode Bytes} (suspended : self.returned = false)
    (step : readRequest self.request outcome = .returned closed result) :
    self.onRecv outcome =
      { self with request := [], closed := self.closed || closed }.clientHandle result := by
  simp [onRecv, suspended, step]

theorem onRecv_keeps_tasks (self : Session) (outcome : RecvResult) :
    self.tasks <+: (self.onRecv outcome).tasks := by
  unfold onRecv
  split
  · exact List.prefix_rfl
  · split
    · exact List.prefix_rfl
    · unfold clientHandle
      split
      · exact List.prefix_append ..
      · exact List.prefix_append ..
      · exact List.prefix_rfl

/-- One result of recv completes at most one request. -/
theorem onRecv_tasks_length (self : Session) (outcome : RecvResult) :
    (self.onRecv outcome).tasks.length ≤ self.tasks.length + 1 := by
  unfold onRecv
  split
  · omega
  · split
    · exact Nat.le_succ _
    · unfold clientHandle
      split <;> simp [addTask]

end Session

end CoroMultiplex.Server
