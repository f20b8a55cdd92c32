import CoroMultiplex.Foundations.Sequence
import CoroMultiplex.Http.Message

/-! Building a response from a request, and its serialized form. -/

set_option autoImplicit false

namespace CoroMultiplex.Http

open Foundations Foundations.Sequence

/-- Exceptions that leave a function of the library. -/
inductive Exception where
  | outOfRange
  | filesystemError
  deriving DecidableEq, Repr

/-- `std::string::substr(pos)`. -/
def substr (text : Bytes) (pos : Nat) : Except Exception Bytes :=
  if pos ≤ text.length then .ok (text.drop pos) else .error .outOfRange

namespace HttpResponse

def extensionMap : List (Bytes × Bytes) :=
  [("html", "text/html"), ("txt", "text/plain"), ("jpeg", "image/jpeg"), ("jpg", "image/jpeg"),
   ("png", "image/png"), ("gif", "image/gif"), ("json", "application/json"),
   ("xml", "application/xml"), ("bin", "application/octet-stream"), ("css", "text/css"),
   ("js", "application/javascript"), ("webp", "image/webp"), ("ico", "image/x-icon"),
   ("svg", "image/svg+xml"), ("pdf", "application/pdf"), ("zip", "application/zip"),
   ("woff", "application/font-woff"), ("woff2", "application/font-woff2"),
   ("pf_meta", "application/octet-stream")].map fun entry => (bytes entry.1, bytes entry.2)

def mimeFullType (extension : Bytes) : Bytes :=
  match extensionMap.lookup extension with
  | none => bytes "application/octet-stream"
  | some type => type

def mimeWildcardType (fullType : Bytes) : Bytes :=
  (match find [Path.slash] fullType with
   | none => fullType
   | some pos => fullType.take pos) ++ bytes "/*"

/-- A target that ends in a separator names the index file below it. -/
def indexed (uri : Path) : Path :=
  if [Path.slash] <:+ uri then Path.append uri (bytes "index.html") else uri

/-- The target up to its first question mark. -/
def withoutArgs (uri : Path) : Path :=
  match find (bytes "?") uri with
  | none => uri
  | some argsPos => uri.take argsPos

/-- The negation of a position is true only for position zero. -/
def rejects (accepted fullType : Bytes) : Bool :=
  find (bytes "*/*") accepted == some 0 &&
    find (mimeWildcardType fullType) accepted == some 0 && find fullType accepted == some 0

/-- The constructor `httpResponse(httpRequest &, path const)`. -/
def ofRequest (request : HttpRequest) (webRoot : Path) : Except Exception HttpResponse :=
  if request.status ≠ .ok then .ok { status := request.status }
  else
    let self : HttpResponse :=
      { version := request.version, status := request.status,
        method := request.method, uri := request.uri }
    if Path.dotdot ∈ Path.components self.uri then .ok { self with status := .notFound }
    else
      let self := { self with uri := indexed self.uri }
      if Path.hasExtension self.uri = false then .ok { self with status := .notFound }
      else
        let self := { self with uri := withoutArgs self.uri }
        match substr (Path.extension self.uri) 1 with
        | .error thrown => .error thrown
        | .ok extension =>
          let fullType := mimeFullType extension
          match request.headers[bytes "Accept"]? with
          | none => .ok { self with status := .badRequest }
          | some accepted =>
            if rejects accepted fullType then .ok { self with status := .notFound }
            else .ok { self with
              uri := Path.append webRoot (Path.relativePath self.uri)
              headers := (self.headers.insertIfNew (bytes "Content-Type") fullType).insertIfNew
                (bytes "Catch-Control") (bytes "no-cache") }

def notFoundResponse : Bytes := bytes "HTTP/1.1 404 Not Found\r\nContent-Length: 0\r\n\r\n"
def badRequestResponse : Bytes := bytes "HTTP/1.1 400 Bad Request\r\nContent-Length: 0\r\n\r\n"
def notImplementedResponse : Bytes :=
  bytes "HTTP/1.1 501 Not Implemented\r\nContent-Length: 0\r\n\r\n"

def statusLine (self : HttpResponse) : Bytes :=
  self.version ++ bytes " " ++ decimal self.status.value ++ bytes " " ++
    bytes self.status.message ++ crlf

def headerLine (entry : Bytes × Bytes) : Bytes := entry.1 ++ bytes ": " ++ entry.2 ++ crlf

def serialize (self : HttpResponse) : Bytes :=
  match self.status with
  | .notFound => notFoundResponse
  | .notImplemented => notImplementedResponse
  | .internalServerError | .httpVersionNotSupported | .lenthRequired | .badRequest =>
    badRequestResponse
  | .ok | .uncompletedRequest =>
    self.statusLine ++ (self.headers.toList.map headerLine).flatten ++ crlf

end HttpResponse

end CoroMultiplex.Http
