import CoroMultiplex.Http.Request

/-! Well-formed request messages and what the parser makes of them.

A request text is the structured form of an accepted message. Its rendering
reads back to the same method, uri and headers, whatever bytes follow it.
-/

set_option autoImplicit false

namespace CoroMultiplex.Http

open Foundations Foundations.Sequence

structure HeaderField where
  key : Bytes
  value : Bytes
  keyNonempty : key ≠ []
  keyNoColon : colon ∉ key
  keyOneLine : ¬ crlf <:+: key
  valueNonempty : value ≠ []
  valueOneLine : ¬ crlf <:+: value

/-- The field of two literals that pass the checks. -/
def HeaderField.literal (key value : Bytes)
    (plain : key ≠ [] ∧ colon ∉ key ∧ ¬ crlf <:+: key ∧ value ≠ [] ∧ ¬ crlf <:+: value) :
    HeaderField :=
  ⟨key, value, plain.1, plain.2.1, plain.2.2.1, plain.2.2.2.1, plain.2.2.2.2⟩

def HeaderField.line (field : HeaderField) : Bytes := field.key ++ colon :: field.value

structure RequestText where
  method : Method
  uri : Bytes
  fields : List HeaderField
  uriNoSpace : space ∉ uri
  uriOneLine : ¬ crlf <:+: uri

def methodText : Method → Bytes
  | .get => bytes "GET"
  | .head => bytes "HEAD"

namespace RequestText

def requestLine (text : RequestText) : Bytes :=
  methodText text.method ++ space :: (text.uri ++ space :: bytes "HTTP/1.1")

def headerLines (fields : List HeaderField) : Bytes :=
  (fields.map fun field => field.line ++ crlf).flatten

def render (text : RequestText) : Bytes :=
  text.requestLine ++ crlf ++ (headerLines text.fields ++ crlf)

/-- The map a sequence of fields denotes: each key has its first value. -/
def headers (fields : List HeaderField) (start : HttpHeaders) : HttpHeaders :=
  fields.foldl (fun data field => data.insertIfNew field.key field.value) start

def request (text : RequestText) : HttpRequest where
  method := text.method
  uri := text.uri
  headers := headers text.fields ∅

end RequestText

theorem find_crlf (before after : Bytes) (oneLine : ¬ crlf <:+: before) :
    find crlf (before ++ crlf ++ after) = some before.length := by
  have shape : before ++ crlf ++ after = before ++ 13 :: 10 :: after := by simp [crlf]
  rw [shape]
  exact find_pair (by decide) before after oneLine

theorem HeaderField.line_oneLine (field : HeaderField) : ¬ crlf <:+: field.line := by
  rw [line, crlf, pair_infix_append_cons (by decide) (by decide)]
  rintro (inKey | inValue)
  · exact field.keyOneLine inKey
  · exact field.valueOneLine inValue

theorem RequestText.requestLine_oneLine (text : RequestText) : ¬ crlf <:+: text.requestLine := by
  rw [requestLine, crlf, pair_infix_append_cons (by decide) (by decide),
    pair_infix_append_cons (by decide) (by decide)]
  rintro (inMethod | inUri | inVersion)
  · cases method : text.method <;> rw [method] at inMethod <;> revert inMethod <;> decide
  · exact text.uriOneLine inUri
  · revert inVersion; decide

theorem lookup_methodText (method : Method) :
    methodStrings.lookup (methodText method) = some method := by
  cases method <;> decide

theorem space_not_mem_methodText (method : Method) : space ∉ methodText method := by
  cases method <;> decide

/-- How the parser cuts a header line, and what is behind it, into its pieces. -/
structure HeaderField.Cut (field : HeaderField) (rest : Bytes) (lineEnd keyEnd : Nat) : Prop where
  endOfLine : find crlf (field.line ++ crlf ++ rest) = some (lineEnd + 1)
  line : (field.line ++ crlf ++ rest).take (lineEnd + 1) = field.line
  unread : (field.line ++ crlf ++ rest).drop (lineEnd + 1 + 2) = rest
  firstColon : find [colon] field.line = some (keyEnd + 1)
  key : field.line.take (keyEnd + 1) = field.key
  value : field.line.drop (keyEnd + 1 + 1) = field.value

theorem HeaderField.cut (field : HeaderField) (rest : Bytes) :
    ∃ lineEnd keyEnd, field.Cut rest lineEnd keyEnd := by
  obtain ⟨keyEnd, keyLength⟩ : ∃ n, field.key.length = n + 1 :=
    Nat.exists_eq_succ_of_ne_zero (by simpa using field.keyNonempty)
  obtain ⟨lineEnd, lineLength⟩ : ∃ n, field.line.length = n + 1 :=
    ⟨_, by rw [HeaderField.line, List.length_append, List.length_cons, ← Nat.add_assoc]⟩
  have width : lineEnd + 1 + 2 = (field.line ++ crlf).length := by simp [crlf, lineLength]
  exact ⟨lineEnd, keyEnd, {
    endOfLine := lineLength ▸ find_crlf field.line rest field.line_oneLine
    line := by rw [← lineLength, List.append_assoc, List.take_left]
    unread := by rw [width, List.drop_left]
    firstColon := keyLength ▸ find_single colon field.key field.value field.keyNoColon
    key := by rw [← keyLength, HeaderField.line, List.take_left]
    value := by rw [← keyLength]; simp [HeaderField.line] }⟩

namespace HttpRequest

theorem parseFirstLine_render (self : HttpRequest) (text : RequestText) (rest : Bytes) :
    self.parseFirstLine (text.requestLine ++ crlf ++ rest) =
      ({ self with status := .ok, method := text.method, uri := text.uri,
                   version := bytes "HTTP/1.1" }, rest, .ok ()) := by
  have endOfLine := find_crlf text.requestLine rest text.requestLine_oneLine
  have firstSpace := find_single space (methodText text.method)
    (text.uri ++ space :: bytes "HTTP/1.1") (space_not_mem_methodText text.method)
  have secondSpace := find_single space text.uri (bytes "HTTP/1.1") text.uriNoSpace
  -- What `substr` and `remove_prefix` leave at each step.
  have lineBytes : (text.requestLine ++ crlf ++ rest).take text.requestLine.length =
      methodText text.method ++ space :: (text.uri ++ space :: bytes "HTTP/1.1") := by
    rw [List.append_assoc, List.take_left]; rfl
  have unread : (text.requestLine ++ crlf ++ rest).drop (text.requestLine.length + 2) = rest := by
    have width : text.requestLine.length + 2 = (text.requestLine ++ crlf).length := by simp [crlf]
    rw [width, List.drop_left]
  have afterMethod : ∀ tail : Bytes, (methodText text.method ++ space :: tail).drop
      ((methodText text.method).length + 1) = tail := by simp
  have afterUri : (text.uri ++ space :: bytes "HTTP/1.1").drop (text.uri.length + 1) =
      bytes "HTTP/1.1" := by simp
  have version : checkVersion (bytes "HTTP/1.1") = true := by decide
  simp only [parseFirstLine, endOfLine, lineBytes, unread, firstSpace, List.take_left,
    lookup_methodText, afterMethod, secondSpace, afterUri, version, if_true]

theorem parseHeaders_end (self : HttpRequest) (rest : Bytes) :
    self.parseHeaders (crlf ++ rest) = (self, crlf ++ rest, .ok ()) := by
  have atStart : find crlf (crlf ++ rest) = some 0 := by
    simpa using find_crlf [] rest (by decide)
  rw [parseHeaders.eq_def]
  split
  · rfl
  · rename_i none; rw [atStart] at none; cases none
  · rename_i later; rw [atStart] at later; cases later

theorem parseHeaders_field (self : HttpRequest) (field : HeaderField) (rest : Bytes) :
    self.parseHeaders (field.line ++ crlf ++ rest) =
      parseHeaders { self with headers := self.headers.insertIfNew field.key field.value } rest := by
  obtain ⟨lineEnd, keyEnd, cut⟩ := field.cut rest
  rw [parseHeaders.eq_def]
  split
  · rename_i empty
    rw [cut.endOfLine] at empty
    cases empty
  · rename_i none
    rw [cut.endOfLine] at none
    cases none
  · rename_i pos later
    rw [cut.endOfLine] at later
    have same : pos + 1 = lineEnd + 1 := (Option.some.inj later).symm
    simp only [same, cut.line, cut.unread, cut.firstColon, cut.key, cut.value, field.valueNonempty,
      if_false]

theorem parseHeaders_render (self : HttpRequest) (fields : List HeaderField) (rest : Bytes) :
    self.parseHeaders (RequestText.headerLines fields ++ crlf ++ rest) =
      ({ self with headers := RequestText.headers fields self.headers }, crlf ++ rest, .ok ()) := by
  induction fields generalizing self with
  | nil => exact parseHeaders_end self rest
  | cons field fields ih =>
    have shape : RequestText.headerLines (field :: fields) ++ crlf ++ rest =
        field.line ++ crlf ++ (RequestText.headerLines fields ++ crlf ++ rest) := by
      simp [RequestText.headerLines]
    rw [shape, parseHeaders_field, ih]
    rfl

/-- Reading a rendered request back from the start of a message. Whatever
follows the blank line stays unread. -/
theorem parseResquest_render (text : RequestText) (rest : Bytes) :
    (parseResquest {} (text.render ++ rest)).1 = text.request := by
  have shape : text.render ++ rest =
      text.requestLine ++ crlf ++ (RequestText.headerLines text.fields ++ crlf ++ rest) := by
    simp [RequestText.render]
  simp only [parseResquest, shape, parseFirstLine_render, parseHeaders_render]
  split <;> rfl

end HttpRequest

end CoroMultiplex.Http
