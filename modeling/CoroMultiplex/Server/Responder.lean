import CoroMultiplex.Server.Session
import CoroMultiplex.Storage.FileCache

/-! `responseHandler`: one task that answers one request.

The handler is suspended at each send. Both loops offer their whole buffer again
in every iteration, because the view and the counters that are advanced by a
successful send are local to the iteration.
-/

set_option autoImplicit false

namespace CoroMultiplex.Server

open Foundations Http Storage

/-- What `client->send` resumes with. -/
inductive SendResult where
  | sent (count : Nat)
  | failed (errno : Nat)
  | sqeBusy
  deriving DecidableEq, Repr

def SendResult.count : SendResult → Option Nat
  | .sent count => some count
  | _ => none

/-- The errors after which both loops try again. -/
def retryable (errno : Nat) : Bool :=
  ErrorCode.generic errno == .resourceUnavailableTryAgain ||
    ErrorCode.generic errno == .noMessageAvailable

inductive Phase where
  | header | body | finished | failed
  deriving DecidableEq, Repr

structure ResponseTask where
  response : HttpResponse
  -- the null pointer unless a response has status OK
  file : Option FileCache
  responseStr : Bytes
  phase : Phase

namespace ResponseTask

def make (response : HttpResponse) (file : Option FileCache) : ResponseTask :=
  { response := response, file := file, responseStr := response.serialize, phase := .header }

/-- The handler up to its first send. `get` stands for the file cache. -/
def prepare (get : Path → Except Exception (Option FileCache)) (request : HttpRequest)
    (webRoot : Path) : Except Exception ResponseTask :=
  match HttpResponse.ofRequest request webRoot with
  | .error thrown => .error thrown
  | .ok response =>
    if response.status = .ok then
      match get response.uri with
      | .error thrown => .error thrown
      | .ok none => .ok (make { response with status := .notFound } none)
      | .ok (some file) =>
        .ok (make { response with
          headers := response.headers.insert (bytes "Content-Length") (decimal file.size) }
          (some file))
    else .ok (make response none)

def fileData (self : ResponseTask) : Bytes := (self.file.map FileCache.data).getD []
def fileSize (self : ResponseTask) : Nat := (self.file.map FileCache.size).getD 0

def sendsBody (self : ResponseTask) : Bool :=
  !(self.response.method == .head || self.response.status != .ok)

/-- The buffer offered by the send at which the task is suspended. -/
def offered (self : ResponseTask) : Bytes :=
  match self.phase with
  | .header => self.responseStr
  | .body => self.fileData
  | .finished | .failed => []

def running (self : ResponseTask) : Bool := self.phase == .header || self.phase == .body

def resume (self : ResponseTask) : SendResult → ResponseTask
  | .sqeBusy => self
  | .failed errno =>
    if self.running then if retryable errno then self else { self with phase := .failed } else self
  | .sent count =>
    match self.phase with
    | .header =>
      if self.responseStr.drop count = [] then
        { self with phase := if self.sendsBody then .body else .finished }
      else self
    | .body => if 0 + count ≥ self.fileSize then { self with phase := .finished } else self
    | .finished | .failed => self

/-- The bytes the socket takes from the offered buffer. -/
def accepted (self : ResponseTask) : SendResult → Bytes
  | .sent count => self.offered.take count
  | _ => []

/-- Resume along a sequence of send results, collecting the bytes the socket took. -/
def transmit (self : ResponseTask) : List SendResult → ResponseTask × Bytes
  | [] => (self, [])
  | result :: results =>
    let rest := (self.resume result).transmit results
    (rest.1, self.accepted result ++ rest.2)

/-- A send takes at least one byte of a non-empty buffer and never more than it offers. -/
def Admissible (offered : Bytes) : SendResult → Prop
  | .sent count => count ≤ offered.length ∧ (offered ≠ [] → 1 ≤ count)
  | _ => True

/-- The results are those of the task's own sends, each at most what was offered. -/
def Outcomes (self : ResponseTask) : List SendResult → Prop
  | [] => True
  | result :: results =>
    self.running = true ∧ Admissible self.offered result ∧ (self.resume result).Outcomes results

/-- The complete response: its header block and, for a GET answered with OK, the file. -/
def pieces (self : ResponseTask) : List Bytes :=
  self.responseStr :: if self.sendsBody then [self.fileData] else []

end ResponseTask

end CoroMultiplex.Server
