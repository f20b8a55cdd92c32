import CoroMultiplex.Http.Acceptance
import CoroMultiplex.Server.Session

/-! The two places that decide to close a connection.

The parser looks for one spelling of the value and the session for another, and
both take the value with the white space that surrounds it.
-/

set_option autoImplicit false

namespace CoroMultiplex.Server

open Foundations Http

def blank (byte : UInt8) : Bool := byte == space || byte == tab

/-- A header value without leading and trailing spaces and tabs. -/
def stripped (value : Bytes) : Bytes := (value.dropWhile blank).rdropWhile blank

/-- Some Connection header has the value `close`, up to white space and case. -/
def AsksClose (text : RequestText) : Prop :=
  ∃ field ∈ text.fields, field.key = bytes "Connection" ∧
    (stripped field.value).map lower = bytes "close"

instance (text : RequestText) : Decidable (AsksClose text) :=
  inferInstanceAs (Decidable (∃ field ∈ text.fields, _ ∧ _))

theorem parseResquest_result (text : RequestText) (rest : Bytes) :
    (HttpRequest.parseResquest {} (text.render ++ rest)).2 =
      if text.request.headers[bytes "Connection"]? = some (bytes "close") then
        .error (.socket .eofError)
      else .ok () := by
  have shape : text.render ++ rest =
      text.requestLine ++ crlf ++ (RequestText.headerLines text.fields ++ crlf ++ rest) := by
    simp [RequestText.render]
  simp only [HttpRequest.parseResquest, shape, HttpRequest.parseFirstLine_render,
    HttpRequest.parseHeaders_render]
  split
  · next closing => exact (if_pos closing).symm
  · next other => exact (if_neg other).symm

theorem parser_closes_iff (text : RequestText) (rest : Bytes) :
    (HttpRequest.parseResquest {} (text.render ++ rest)).2 = .error (.socket .eofError) ↔
      text.request.headers[bytes "Connection"]? = some (bytes "close") := by
  rw [parseResquest_result]
  split <;> simp [*]

theorem session_closes_iff (text : RequestText) :
    Session.closeSession text.request = true ↔
      text.request.headers[bytes "Connection"]? = some (bytes "Close") := by
  have accepted : text.request.status = .ok := rfl
  simp [Session.closeSession, accepted]

/-- Whichever of the two values a map holds, a field of the text has it. -/
theorem asksClose_of_lookup {text : RequestText} {value : Bytes}
    (known : text.request.headers[bytes "Connection"]? = some value)
    (closing : (stripped value).map lower = bytes "close") : AsksClose text := by
  rw [RequestText.request, RequestText.headers_getElem?, Std.ExtTreeMap.getElem?_empty,
    Option.none_or, Option.map_eq_some_iff] at known
  obtain ⟨field, found, rfl⟩ := known
  have name := List.find?_some found
  exact ⟨field, List.mem_of_find?_eq_some found, by simpa using name, closing⟩

/-- The parser, the session and the text agree on closing. -/
def CloseAgrees (text : RequestText) (rest : Bytes) : Prop :=
  ((HttpRequest.parseResquest {} (text.render ++ rest)).2 = .error (.socket .eofError) ↔
    Session.closeSession (HttpRequest.parseResquest {} (text.render ++ rest)).1 = true) ∧
  (Session.closeSession (HttpRequest.parseResquest {} (text.render ++ rest)).1 = true ↔
    AsksClose text)

/-- The decisions agree exactly on the messages that do not ask to close: no value is
both spellings at once. -/
theorem closeAgrees_iff_stays (text : RequestText) (rest : Bytes) :
    CloseAgrees text rest ↔ ¬ AsksClose text := by
  rw [CloseAgrees, HttpRequest.parseResquest_render, parser_closes_iff, session_closes_iff]
  constructor
  · rintro ⟨alike, asked⟩ asks
    have session := asked.mpr asks
    have parser := alike.mpr session
    rw [session] at parser
    revert parser
    decide
  · intro stays
    have parser : text.request.headers[bytes "Connection"]? ≠ some (bytes "close") :=
      fun known => stays (asksClose_of_lookup known (by decide))
    have session : text.request.headers[bytes "Connection"]? ≠ some (bytes "Close") :=
      fun known => stays (asksClose_of_lookup known (by decide))
    simp [parser, session, stays]

/-- A request to close in the usual spelling. -/
def closing : RequestText where
  method := .get
  uri := bytes "/last"
  fields := [.literal (bytes "Connection") (bytes " close") (by decide)]
  uriNoSpace := by decide
  uriOneLine := by decide

theorem closing_overlooked :
    closing.render = bytes "GET /last HTTP/1.1\r\nConnection: close\r\n\r\n" ∧
      ¬ CloseAgrees closing [] := by
  refine ⟨by decide, ?_⟩
  rintro ⟨_, asked⟩
  rw [HttpRequest.parseResquest_render, session_closes_iff] at asked
  have session := asked.mpr (by decide)
  revert session
  decide

end CoroMultiplex.Server
