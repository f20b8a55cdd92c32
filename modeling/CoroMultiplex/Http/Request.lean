import CoroMultiplex.Foundations.Sequence
import CoroMultiplex.Http.Message

/-! The request parser.

Each parsing function threads the request object and the unread part of the
message, and keeps both on its error paths as the member functions do.
-/

set_option autoImplicit false

namespace CoroMultiplex.Http

open Foundations Foundations.Sequence

def checkVersion (version : Bytes) : Bool := version == bytes "HTTP/1.1"

namespace HttpRequest

/-- Set the status and return it as the error. -/
def badRequest (self : HttpRequest) (request : Bytes) :
    HttpRequest × Bytes × Except ErrorCode Unit :=
  ({ self with status := .badRequest }, request, .error (.http .badRequest))

def parseFirstLine (self : HttpRequest) (request : Bytes) :
    HttpRequest × Bytes × Except ErrorCode Unit :=
  let self := { self with status := .ok }
  match find crlf request with
  | none => self.badRequest request
  | some pos =>
    let requestLine := request.take pos
    let request := request.drop (pos + 2)
    match find [space] requestLine with
    | none => self.badRequest request
    | some pos =>
      let method := requestLine.take pos
      -- `checkMethod`, and below `methodStrings.at`
      match methodStrings.lookup method with
      | none => self.badRequest request
      | some method =>
        let requestLine := requestLine.drop (pos + 1)
        match find [space] requestLine with
        | none => self.badRequest request
        | some pos =>
          let uri := requestLine.take pos
          let version := requestLine.drop (pos + 1)
          if checkVersion version then
            ({ self with method := method, uri := uri, version := version }, request, .ok ())
          else self.badRequest request

/-- One pass of the loop per header line. A line is removed from the unread
part before it is judged, and a key keeps its first value. -/
def parseHeaders (self : HttpRequest) (request : Bytes) :
    HttpRequest × Bytes × Except ErrorCode Unit :=
  match _found : find crlf request with
  | some 0 => (self, request, .ok ())
  | none => self.badRequest request
  | some (pos + 1) =>
    let headerLine := request.take (pos + 1)
    let rest := request.drop (pos + 1 + 2)
    match find [colon] headerLine with
    | none => self.badRequest rest
    | some 0 => self.badRequest rest
    | some (pos + 1) =>
      let key := headerLine.take (pos + 1)
      let value := headerLine.drop (pos + 1 + 1)
      if value = [] then self.badRequest rest
      else parseHeaders { self with headers := self.headers.insertIfNew key value } rest
termination_by request.length
decreasing_by
  have bound := find_bound _found
  simp only [crlf, List.length_cons, List.length_nil] at bound
  simp only [List.length_drop]
  omega

/-- `parseResquest`: the first line, the headers, then the request to close. -/
def parseResquest (self : HttpRequest) (requestMsg : Bytes) :
    HttpRequest × Except ErrorCode Unit :=
  match self.parseFirstLine requestMsg with
  | (self, _, .error e) => (self, .error e)
  | (self, request, .ok ()) =>
    match self.parseHeaders request with
    | (self, _, .error e) => (self, .error e)
    | (self, _, .ok ()) =>
      if self.headers[bytes "Connection"]? = some (bytes "close") then
        (self, .error (.socket .eofError))
      else (self, .ok ())

end HttpRequest

end CoroMultiplex.Http
