import CoroMultiplex.Http.Acceptance

/-! What the parser finds in a message that ends with a blank line.

The part still to be read keeps the end of the message: it is the last CRLF alone, or
it ends with the blank line. A CR or LF of a line never joins the end of the line.
-/

set_option autoImplicit false

namespace CoroMultiplex.Http

open Foundations Foundations.Sequence

/-- What the parser has before it when it looks for the end of a line. -/
def Terminated (request : Bytes) : Prop := request = crlf ∨ crlfcrlf <:+ request

/-- The unread part after a line has been cut off. -/
theorem Terminated.behind {line rest : Bytes} (ends : crlfcrlf <:+ line ++ crlf ++ rest)
    (oneLine : ¬ crlf <:+: line) : Terminated rest := by
  obtain ⟨before, same⟩ := ends
  have reversed := congrArg List.reverse same
  simp only [List.reverse_append, crlfcrlf, crlf, List.reverse_cons, List.reverse_nil,
    List.nil_append, List.cons_append, List.append_assoc] at reversed
  have whole : rest = rest.reverse.reverse := (List.reverse_reverse rest).symm
  rw [whole]
  generalize rest.reverse = back at reversed ⊢
  -- The last four bytes are fixed, so few rests that are shorter agree with them.
  rcases back with _ | ⟨last, _ | ⟨third, _ | ⟨second, _ | ⟨first, front⟩⟩⟩⟩
  · simp only [List.nil_append, List.cons.injEq, true_and] at reversed
    refine absurd ?_ oneLine
    have tail := congrArg List.reverse reversed
    simp only [List.reverse_cons, List.reverse_reverse, List.append_assoc] at tail
    exact ⟨before, [], by simpa [crlf] using tail⟩
  · simp at reversed
  · simp only [List.cons_append, List.nil_append, List.cons.injEq] at reversed
    obtain ⟨rfl, rfl, -⟩ := reversed
    exact .inl rfl
  · simp at reversed
  · simp only [List.cons_append, List.cons.injEq] at reversed
    obtain ⟨rfl, rfl, rfl, rfl, -⟩ := reversed
    exact .inr ⟨front.reverse, by simp [crlfcrlf, crlf]⟩

theorem Terminated.found {request : Bytes} (terminated : Terminated request) :
    find crlf request ≠ none := by
  have inside : crlf <:+: request := by
    rcases terminated with rfl | ends
    · exact List.infix_rfl
    · exact (List.infix_append [] crlf crlf).trans ends.isInfix
  obtain ⟨position, found, -⟩ := (find_within_iff crlf request []).mpr inside
  rw [List.append_nil] at found
  rw [found]
  exact Option.some_ne_none position

/-- The first line of a text is cut off in one way only. -/
theorem first_line_unique {line other rest behind : Bytes} (oneLine : ¬ crlf <:+: line)
    (otherLine : ¬ crlf <:+: other) (same : line ++ crlf ++ rest = other ++ crlf ++ behind) :
    line = other := by
  have first := find_crlf line rest oneLine
  rw [same, find_crlf other behind otherLine, Option.some.injEq] at first
  rw [List.append_assoc, List.append_assoc] at same
  exact (List.append_inj same first.symm).1

/-- The text of a first line that the parser accepts. -/
def RequestLine (line : Bytes) : Prop :=
  ∃ (method : Method) (uri : Bytes), space ∉ uri ∧
    line = methodText method ++ space :: (uri ++ space :: bytes "HTTP/1.1")

namespace HttpRequest

/-- The object and the unread part when the loop over the header lines looks for a line end. -/
inductive LoopHead (start : HttpRequest) (message : Bytes) : HttpRequest → Bytes → Prop
  | first {self : HttpRequest} {request : Bytes}
      (parsed : start.parseFirstLine message = (self, request, .ok ())) :
      LoopHead start message self request
  | next {self after : HttpRequest} {request rest : Bytes} (head : LoopHead start message self request)
      (pass : self.headerPass request = .inl (after, rest)) : LoopHead start message after rest

/-- A line of the message that its content makes the parser reject. -/
inductive MalformedLine (start : HttpRequest) (message : Bytes) : Prop
  | first (line rest : Bytes) (split : message = line ++ crlf ++ rest) (oneLine : ¬ crlf <:+: line)
      (malformed : ¬ RequestLine line)
  | header (self : HttpRequest) (line rest : Bytes)
      (head : LoopHead start message self (line ++ crlf ++ rest)) (oneLine : ¬ crlf <:+: line)
      (filled : line ≠ []) (malformed : ¬ ∃ field : HeaderField, field.line = line)

variable {start self : HttpRequest} {message line rest : Bytes}

theorem parseFirstLine_of_requestLine (oneLine : ¬ crlf <:+: line) (wellFormed : RequestLine line) :
    ∃ after, start.parseFirstLine (line ++ crlf ++ rest) = (after, rest, .ok ()) := by
  obtain ⟨method, uri, noSpace, same⟩ := wellFormed
  have inside : uri <:+: line :=
    ⟨methodText method ++ [space], space :: bytes "HTTP/1.1", by simp [same]⟩
  have parsed := start.parseFirstLine_render
    ⟨method, uri, [], noSpace, fun twice => oneLine (twice.trans inside)⟩ rest
  rw [RequestText.requestLine, ← same] at parsed
  exact ⟨_, parsed⟩

theorem parseFirstLine_of_malformed (oneLine : ¬ crlf <:+: line) (malformed : ¬ RequestLine line) :
    ∃ unread, start.parseFirstLine (line ++ crlf ++ rest) = start.badRequest unread := by
  rcases start.parseFirstLine_cases (line ++ crlf ++ rest) with
    ⟨method, uri, behind, noSpace, uriLine, split, -⟩ | rejected
  · have otherLine := RequestText.requestLine_oneLine ⟨method, uri, [], noSpace, uriLine⟩
    have same := first_line_unique oneLine otherLine split
    exact absurd ⟨method, uri, noSpace, same⟩ malformed
  · exact rejected

theorem headerPass_field (field : HeaderField) :
    self.headerPass (field.line ++ crlf ++ rest) =
      .inl ({ self with headers := self.headers.insertIfNew field.key field.value }, rest) := by
  obtain ⟨lineEnd, keyEnd, cut⟩ := field.cut rest
  simp only [headerPass, cut.endOfLine, cut.line, cut.unread, cut.firstColon, cut.key, cut.value,
    field.valueNonempty, if_false]

theorem headerPass_of_malformed (oneLine : ¬ crlf <:+: line) (filled : line ≠ [])
    (malformed : ¬ ∃ field : HeaderField, field.line = line) :
    ∃ unread, self.headerPass (line ++ crlf ++ rest) = .inr (self.badRequest unread) := by
  have pass := self.headerPass_spec (line ++ crlf ++ rest)
  generalize text : line ++ crlf ++ rest = request at pass ⊢
  generalize self.headerPass request = outcome at pass ⊢
  cases pass with
  | blank behind => exact absurd (@first_line_unique line [] rest behind oneLine (by decide) text) filled
  | rejected _ unread => exact ⟨unread, rfl⟩
  | field field behind =>
    exact absurd ⟨field, (first_line_unique oneLine field.line_oneLine text).symm⟩ malformed

/-- No line of a message that ends with a blank line lacks its end. -/
theorem LoopHead.terminated {request : Bytes} (head : LoopHead start message self request)
    (ends : crlfcrlf <:+ message) : Terminated request := by
  induction head with
  | @first self request parsed =>
    rcases start.parseFirstLine_cases message with
      ⟨method, uri, behind, noSpace, uriLine, split, accepted⟩ | ⟨unread, rejected⟩
    · rw [accepted] at parsed
      cases parsed
      rw [split] at ends
      exact .behind ends (RequestText.requestLine_oneLine ⟨method, uri, [], noSpace, uriLine⟩)
    · rw [rejected] at parsed
      cases parsed
  | @next self after request rest head pass ih =>
    have spec := self.headerPass_spec request
    rw [pass] at spec
    generalize outcome : Sum.inl (after, rest) = result at spec
    cases spec with
    | blank behind => cases outcome
    | rejected _ unread => cases outcome
    | field field behind =>
      cases outcome
      rcases ih with last | ends
      · have width := congrArg List.length last
        have filled := List.length_pos_of_ne_nil field.keyNonempty
        simp only [HeaderField.line, List.length_append, List.length_cons, crlf] at width
        omega
      · exact .behind ends field.line_oneLine

/-- The loop returns what it returns from any of its heads. -/
theorem LoopHead.result {request : Bytes} (head : LoopHead start message self request) :
    ∃ first unread, start.parseFirstLine message = (first, unread, .ok ()) ∧
      first.parseHeaders unread = self.parseHeaders request := by
  induction head with
  | @first self request parsed => exact ⟨self, request, parsed, rfl⟩
  | @next self after request rest head pass ih =>
    obtain ⟨first, unread, parsed, same⟩ := ih
    refine ⟨first, unread, parsed, ?_⟩
    rw [same, parseHeaders_pass, pass]

/-- A loop that ends in a rejection has been to the head of a malformed line. -/
theorem LoopHead.malformed {request : Bytes} (head : LoopHead start message self request)
    (ends : crlfcrlf <:+ message)
    (rejected : (self.parseHeaders request).2.2 = .error (.http .badRequest)) :
    MalformedLine start message := by
  induction bound : request.length using Nat.strong_induction_on generalizing self request with
  | _ length ih =>
    cases lineEnd : find crlf request with
    | none => exact absurd lineEnd (head.terminated ends).found
    | some position =>
      obtain ⟨split, oneLine⟩ := split_line lineEnd
      generalize request.take position = line at split oneLine
      generalize request.drop (position + 2) = rest at split
      subst split
      by_cases empty : line = []
      · rw [empty, List.nil_append, parseHeaders_end] at rejected
        cases rejected
      · by_cases field : ∃ field : HeaderField, field.line = line
        · obtain ⟨field, rfl⟩ := field
          have shorter : rest.length < length := by
            simp only [← bound, List.length_append, crlf, List.length_cons]
            omega
          rw [parseHeaders_field] at rejected
          exact ih rest.length shorter (head.next (headerPass_field field)) rejected rfl
        · exact .header self line rest head oneLine empty field

theorem MalformedLine.rejects (malformed : MalformedLine start message) :
    (start.parseResquest message).2 = .error (.http .badRequest) := by
  cases malformed with
  | first line rest split oneLine malformed =>
    obtain ⟨unread, rejected⟩ := parseFirstLine_of_malformed oneLine malformed
    rw [parseResquest, split, rejected]
    rfl
  | header self line rest head oneLine filled malformed =>
    obtain ⟨first, unread, parsed, same⟩ := head.result
    obtain ⟨left, rejected⟩ := headerPass_of_malformed oneLine filled malformed
    have stops : self.parseHeaders (line ++ crlf ++ rest) = self.badRequest left := by
      rw [parseHeaders_pass, rejected]
    rw [parseResquest, parsed]
    simp only [same, stops]
    rfl

/-- A message that ends with a blank line is rejected only for what one of its lines says. -/
theorem malformed_of_rejected (ends : crlfcrlf <:+ message)
    (rejected : (start.parseResquest message).2 = .error (.http .badRequest)) :
    MalformedLine start message := by
  have terminated : Terminated message := .inr ends
  cases lineEnd : find crlf message with
  | none => exact absurd lineEnd terminated.found
  | some position =>
    obtain ⟨split, oneLine⟩ := split_line lineEnd
    by_cases wellFormed : RequestLine (message.take position)
    · obtain ⟨after, parsed⟩ :=
        @parseFirstLine_of_requestLine start _ (message.drop (position + 2)) oneLine wellFormed
      rw [← split] at parsed
      refine (LoopHead.first parsed).malformed ends ?_
      rw [parseResquest, parsed] at rejected
      simp only at rejected
      rcases headers : after.parseHeaders (message.drop (position + 2)) with ⟨final, unread, outcome⟩
      rw [headers] at rejected
      cases outcome with
      | error code => exact rejected
      | ok done =>
        simp only at rejected
        split at rejected <;> cases rejected
    · exact .first _ _ split oneLine wellFormed

end HttpRequest

/-- In a message that ends with a blank line the parser finds the end of every line it looks
for, and rejects the message exactly if the content of one of its lines is malformed. -/
theorem line_ends_found (start : HttpRequest) {message : Bytes} (ends : crlfcrlf <:+ message) :
    find crlf message ≠ none ∧
      (∀ self request, HttpRequest.LoopHead start message self request → find crlf request ≠ none) ∧
      ((start.parseResquest message).2 = .error (.http .badRequest) ↔
        HttpRequest.MalformedLine start message) :=
  ⟨(show Terminated message from .inr ends).found, fun _ _ head => (head.terminated ends).found,
    HttpRequest.malformed_of_rejected ends, HttpRequest.MalformedLine.rejects⟩

/-- A lone CR before the blank line is read as part of a header. -/
theorem carriage_return_before_blank_line :
    let message := bytes "GET / HTTP/1.1\r\na:b\r" ++ crlfcrlf
    find crlf message ≠ none ∧
      (∀ self request, HttpRequest.LoopHead {} message self request → find crlf request ≠ none) ∧
      ((HttpRequest.parseResquest {} message).2 = .error (.http .badRequest) ↔
        HttpRequest.MalformedLine {} message) :=
  line_ends_found {} (List.suffix_append _ _)

end CoroMultiplex.Http
