import CoroMultiplex.Foundations.Path
import Std.Data.ExtTreeMap.Lemmas

/-! HTTP messages, their status codes, and the error codes that reach a session. -/

set_option autoImplicit false

namespace CoroMultiplex.Http

open Foundations

inductive HttpErrc where
  | ok | badRequest | notFound | lenthRequired | internalServerError | notImplemented
  | httpVersionNotSupported | uncompletedRequest
  deriving DecidableEq, Repr

def HttpErrc.value : HttpErrc → Nat
  | .ok => 200
  | .badRequest => 400
  | .notFound => 404
  | .lenthRequired => 411
  | .internalServerError => 500
  | .notImplemented => 501
  | .httpVersionNotSupported => 505
  | .uncompletedRequest => 600

/-- Text of `httpErrorCode().message` for each code. -/
def HttpErrc.message : HttpErrc → String
  | .ok => "OK"
  | .badRequest => "Bad Request"
  | .notFound => "Not Found"
  | .lenthRequired => "Length Required"
  | .internalServerError => "Internal Server Error"
  | .notImplemented => "Not Implemented"
  | .httpVersionNotSupported => "HTTP Version Not Supported"
  | .uncompletedRequest => "Uncompleted Request"

inductive SocketError where
  | success | readError | writeError | recvError | sendError | eofError | closedSocket
  deriving DecidableEq, Repr

inductive UringErr where
  | success | sqeBusy
  deriving DecidableEq, Repr

/-- A `std::error_code`: its category together with the value in that category. -/
inductive ErrorCode where
  | generic (errno : Nat)
  | system (errno : Nat)
  | http (e : HttpErrc)
  | socket (e : SocketError)
  | uring (e : UringErr)
  deriving DecidableEq, Repr

namespace ErrorCode

-- `make_error_code(std::errc)` is the errno in the generic category.
def resourceUnavailableTryAgain : ErrorCode := .generic 11
def operationWouldBlock : ErrorCode := .generic 11
def noMessageAvailable : ErrorCode := .generic 61
def connectionReset : ErrorCode := .generic 104
def sqeBusy : ErrorCode := .uring .sqeBusy

end ErrorCode

inductive Method where
  | get | head
  deriving DecidableEq, Repr

/-- `httpMessage::methodStrings`. -/
def methodStrings : List (Bytes × Method) := [(bytes "GET", .get), (bytes "HEAD", .head)]

/-- `std::map` keeps its entries in the byte order of their keys. -/
abbrev HttpHeaders := Std.ExtTreeMap Bytes Bytes

structure HttpMessage where
  method : Method := .head
  version : Bytes := bytes "HTTP/1.1"
  headers : HttpHeaders := ∅
  status : HttpErrc := .ok

structure HttpRequest extends HttpMessage where
  uri : Path := []

structure HttpResponse extends HttpMessage where
  uri : Path := []

def crlf : Bytes := [13, 10]
def crlfcrlf : Bytes := crlf ++ crlf
def space : UInt8 := 32
def tab : UInt8 := 9
def colon : UInt8 := 58

end CoroMultiplex.Http
