import CoroMultiplex.Http.Grammar

/-! The request parser accepts exactly the texts of its grammar. -/

set_option autoImplicit false

namespace CoroMultiplex.Http

open Foundations Foundations.Sequence

/-- A line and what is behind it. -/
theorem split_line {request : Bytes} {position : Nat} (found : find crlf request = some position) :
    request = request.take position ++ crlf ++ request.drop (position + 2) ∧
      ¬ crlf <:+: request.take position :=
  ⟨find_split found, not_infix_take (by decide) found⟩

theorem split_byte {item : UInt8} {line : Bytes} {position : Nat}
    (found : find [item] line = some position) :
    line = line.take position ++ item :: line.drop (position + 1) ∧ item ∉ line.take position := by
  have split := find_split found
  rw [List.append_assoc, List.singleton_append, List.length_singleton] at split
  exact ⟨split, not_mem_take found⟩

theorem methodText_of_lookup {name : Bytes} {method : Method}
    (found : methodStrings.lookup name = some method) : name = methodText method := by
  rw [List.lookup_eq_some_iff] at found
  obtain ⟨front, back, split, _⟩ := found
  have member : (name, method) ∈ methodStrings := by simp [split]
  rcases List.mem_pair.mp member with same | same <;> cases same <;> rfl

namespace HttpRequest

/-- A request line that was accepted, or the status and error of a rejected one. -/
theorem parseFirstLine_cases (self : HttpRequest) (message : Bytes) :
    (∃ (method : Method) (uri rest : Bytes), space ∉ uri ∧ ¬ crlf <:+: uri ∧
      message = methodText method ++ space :: (uri ++ space :: bytes "HTTP/1.1") ++ crlf ++ rest ∧
      self.parseFirstLine message =
        ({ self with status := .ok, method := method, uri := uri, version := bytes "HTTP/1.1" },
          rest, .ok ())) ∨
    ∃ unread, self.parseFirstLine message = self.badRequest unread := by
  simp only [parseFirstLine]
  cases lineEnd : find crlf message with
  | none => exact .inr ⟨message, rfl⟩
  | some position =>
    simp only
    obtain ⟨split, oneLine⟩ := split_line lineEnd
    generalize message.take position = line at split oneLine ⊢
    generalize message.drop (position + 2) = rest at split ⊢
    cases firstSpace : find [space] line with
    | none => exact .inr ⟨rest, rfl⟩
    | some position =>
      simp only
      obtain ⟨splitMethod, _⟩ := split_byte firstSpace
      generalize line.take position = name at splitMethod ⊢
      generalize line.drop (position + 1) = tail at splitMethod ⊢
      cases known : methodStrings.lookup name with
      | none => exact .inr ⟨rest, rfl⟩
      | some method =>
        simp only
        cases secondSpace : find [space] tail with
        | none => exact .inr ⟨rest, rfl⟩
        | some position =>
          simp only
          obtain ⟨splitUri, noSpace⟩ := split_byte secondSpace
          generalize tail.take position = uri at splitUri noSpace ⊢
          generalize tail.drop (position + 1) = version at splitUri ⊢
          split
          · next checked =>
            have same : version = bytes "HTTP/1.1" := eq_of_beq checked
            have inside : uri <:+: line :=
              ⟨name ++ [space], space :: version, by rw [splitMethod, splitUri]; simp⟩
            refine .inl ⟨method, uri, rest, noSpace, fun twice => oneLine (twice.trans inside), ?_, ?_⟩
            · rw [split, splitMethod, splitUri, methodText_of_lookup known, same]
            · rw [same]
          · exact .inr ⟨rest, rfl⟩

/-- One pass of the loop over the header lines: where the next pass starts, or what
the loop returns. -/
def headerPass (self : HttpRequest) (request : Bytes) :
    (HttpRequest × Bytes) ⊕ (HttpRequest × Bytes × Except ErrorCode Unit) :=
  match find crlf request with
  | some 0 => .inr (self, request, .ok ())
  | none => .inr (self.badRequest request)
  | some (pos + 1) =>
    let headerLine := request.take (pos + 1)
    let rest := request.drop (pos + 1 + 2)
    match find [colon] headerLine with
    | none => .inr (self.badRequest rest)
    | some 0 => .inr (self.badRequest rest)
    | some (pos + 1) =>
      let key := headerLine.take (pos + 1)
      let value := headerLine.drop (pos + 1 + 1)
      if value = [] then .inr (self.badRequest rest)
      else .inl ({ self with headers := self.headers.insertIfNew key value }, rest)

/-- The loop, cut off after a number of passes. -/
def headerLoop : Nat → HttpRequest → Bytes → Option (HttpRequest × Bytes × Except ErrorCode Unit)
  | 0, _, _ => none
  | passes + 1, self, request =>
    match self.headerPass request with
    | .inr result => some result
    | .inl (next, rest) => headerLoop passes next rest

theorem parseHeaders_pass (self : HttpRequest) (request : Bytes) :
    self.parseHeaders request =
      match self.headerPass request with
      | .inr result => result
      | .inl (next, rest) => next.parseHeaders rest := by
  rw [parseHeaders.eq_def]
  split
  · next found => simp only [headerPass, found]
  · next found => simp only [headerPass, found]
  · next pos found =>
    simp only [headerPass, found]
    cases find [colon] (request.take (pos + 1)) with
    | none => rfl
    | some place =>
      cases place with
      | zero => rfl
      | succ place =>
        simp only
        by_cases valueless : (request.take (pos + 1)).drop (place + 1 + 1) = []
        · simp only [valueless, if_true]
        · simp only [valueless, if_false]

/-- What one pass of the loop makes of the unread part. -/
inductive HeaderPass (self : HttpRequest) : Bytes →
    (HttpRequest × Bytes) ⊕ (HttpRequest × Bytes × Except ErrorCode Unit) → Prop
  | blank (rest : Bytes) : HeaderPass self (crlf ++ rest) (.inr (self, crlf ++ rest, .ok ()))
  | rejected (request unread : Bytes) : HeaderPass self request (.inr (self.badRequest unread))
  | field (field : HeaderField) (rest : Bytes) : HeaderPass self (field.line ++ crlf ++ rest)
      (.inl ({ self with headers := self.headers.insertIfNew field.key field.value }, rest))

theorem headerPass_spec (self : HttpRequest) (request : Bytes) :
    HeaderPass self request (self.headerPass request) := by
  simp only [headerPass]
  cases lineEnd : find crlf request with
  | none => exact .rejected request request
  | some position =>
    obtain ⟨split, oneLine⟩ := split_line lineEnd
    cases position with
    | zero =>
      rw [List.take_zero, List.nil_append] at split
      rw [split]
      exact .blank _
    | succ position =>
      simp only
      generalize request.take (position + 1) = line at split oneLine ⊢
      generalize request.drop (position + 1 + 2) = rest at split ⊢
      cases firstColon : find [colon] line with
      | none => exact .rejected request rest
      | some place =>
        obtain ⟨splitLine, noColon⟩ := split_byte firstColon
        cases place with
        | zero => exact .rejected request rest
        | succ place =>
          have bound := find_bound firstColon
          simp only
          split
          · exact .rejected request rest
          · next valued =>
            have keyed : line.take (place + 1) ≠ [] := by
              have width : (line.take (place + 1)).length = place + 1 :=
                List.length_take_of_le (by omega)
              exact List.ne_nil_of_length_eq_add_one width
            let field : HeaderField := {
              key := line.take (place + 1)
              value := line.drop (place + 1 + 1)
              keyNonempty := keyed
              keyNoColon := noColon
              keyOneLine := fun twice => oneLine (twice.trans (List.take_prefix _ _).isInfix)
              valueNonempty := valued
              valueOneLine := fun twice => oneLine (twice.trans (List.drop_suffix _ _).isInfix) }
            have shape : field.line ++ crlf ++ rest = request := by
              rw [split, HeaderField.line, ← splitLine]
            rw [← shape]
            exact .field field rest

/-- The loop ends on every input, after at most one pass per byte and one more. -/
theorem headerLoop_ends (passes : Nat) (self : HttpRequest) (request : Bytes)
    (enough : request.length < passes) :
    headerLoop passes self request = some (self.parseHeaders request) := by
  induction passes generalizing self request with
  | zero => exact absurd enough (Nat.not_lt_zero _)
  | succ passes ih =>
    have pass := headerPass_spec self request
    rw [headerLoop, parseHeaders_pass]
    generalize self.headerPass request = outcome at pass ⊢
    cases pass with
    | blank rest => rfl
    | rejected => rfl
    | field field rest =>
      simp only [List.length_append, crlf, List.length_cons] at enough
      exact ih _ rest (by omega)

/-- Header lines up to a blank one, or the status and error of a rejected message. -/
theorem parseHeaders_cases (self : HttpRequest) (request : Bytes) :
    (∃ fields rest, request = RequestText.headerLines fields ++ crlf ++ rest) ∨
      ∃ (final : HttpRequest) (unread : Bytes), self.parseHeaders request = final.badRequest unread := by
  induction bound : request.length using Nat.strong_induction_on generalizing self request with
  | _ length ih =>
    have pass := headerPass_spec self request
    rw [parseHeaders_pass]
    generalize self.headerPass request = outcome at pass ⊢
    cases pass with
    | blank rest => exact .inl ⟨[], rest, by simp [RequestText.headerLines]⟩
    | rejected _ unread => exact .inr ⟨self, unread, rfl⟩
    | field field rest =>
      have shorter : rest.length < length := by
        simp only [← bound, List.length_append, crlf, List.length_cons]
        omega
      rcases ih rest.length shorter _ rest rfl with ⟨fields, behind, same⟩ | rejected
      · refine .inl ⟨field :: fields, behind, ?_⟩
        simp [RequestText.headerLines, same]
      · exact .inr rejected

/-- A message is a text of the grammar with something behind it, or it is rejected. -/
theorem parseResquest_cases (message : Bytes) :
    (∃ (text : RequestText) (rest : Bytes), message = text.render ++ rest) ∨
      (parseResquest {} message).1.status = .badRequest ∧
        (parseResquest {} message).2 = .error (.http .badRequest) := by
  rw [parseResquest]
  rcases parseFirstLine_cases {} message with ⟨method, uri, rest, noSpace, oneLine, split, first⟩ |
    ⟨unread, first⟩
  · rw [first]
    simp only
    rcases parseHeaders_cases _ rest with ⟨fields, behind, same⟩ | ⟨final, unread, rejected⟩
    · refine .inl ⟨⟨method, uri, fields, noSpace, oneLine⟩, behind, ?_⟩
      rw [split, same]
      simp [RequestText.render, RequestText.requestLine]
    · rw [rejected]
      exact .inr ⟨rfl, rfl⟩
  · rw [first]
    exact .inr ⟨rfl, rfl⟩

end HttpRequest

/-- Inserting in turn gives each key its first value, if it has none before. -/
theorem RequestText.headers_getElem? (fields : List HeaderField) (start : HttpHeaders) (key : Bytes) :
    (RequestText.headers fields start)[key]? =
      (start[key]?).or ((fields.find? (·.key = key)).map HeaderField.value) := by
  induction fields generalizing start with
  | nil => simp [RequestText.headers]
  | cons field fields ih =>
    have step := ih (start.insertIfNew field.key field.value)
    rw [RequestText.headers, List.foldl_cons]
    rw [RequestText.headers] at step
    rw [step, Std.ExtTreeMap.getElem?_insertIfNew, List.find?_cons]
    by_cases here : field.key = key
    · subst here
      cases known : start[field.key]? with
      | none =>
        have absent : field.key ∉ start := by simp [← Std.ExtTreeMap.isSome_getElem?_iff_mem, known]
        simp [absent]
      | some value =>
        have present : field.key ∈ start := Std.ExtTreeMap.isSome_getElem?_iff_mem.mp (by simp [known])
        simp [present]
    · simp [here]

/-- The parser accepts a message exactly when it begins with a text of the grammar, and
reads the parts of that text; otherwise it reports a bad request. Its loop over
the header lines ends on every input. -/
theorem parse_accepts_iff (message : Bytes) :
    ((HttpRequest.parseResquest {} message).1.status = .ok ↔
        ∃ (text : RequestText) (rest : Bytes), message = text.render ++ rest) ∧
      (∀ (text : RequestText) (rest : Bytes), message = text.render ++ rest →
        (HttpRequest.parseResquest {} message).1.method = text.method ∧
        (HttpRequest.parseResquest {} message).1.uri = text.uri ∧
        (HttpRequest.parseResquest {} message).1.version = bytes "HTTP/1.1" ∧
        ∀ key, (HttpRequest.parseResquest {} message).1.headers[key]? =
          (text.fields.find? (·.key = key)).map HeaderField.value) ∧
      ((¬ ∃ (text : RequestText) (rest : Bytes), message = text.render ++ rest) →
        (HttpRequest.parseResquest {} message).1.status = .badRequest ∧
        (HttpRequest.parseResquest {} message).2 = .error (.http .badRequest)) ∧
      ∀ (self : HttpRequest) (request : Bytes),
        HttpRequest.headerLoop (request.length + 1) self request =
          some (self.parseHeaders request) := by
  refine ⟨⟨?_, ?_⟩, ?_, ?_, ?_⟩
  · intro accepted
    rcases HttpRequest.parseResquest_cases message with found | ⟨rejected, _⟩
    · exact found
    · rw [rejected] at accepted
      cases accepted
  · rintro ⟨text, rest, rfl⟩
    rw [HttpRequest.parseResquest_render]
    rfl
  · rintro text rest rfl
    rw [HttpRequest.parseResquest_render]
    refine ⟨rfl, rfl, rfl, fun key => ?_⟩
    rw [RequestText.request, RequestText.headers_getElem?]
    simp
  · intro refused
    rcases HttpRequest.parseResquest_cases message with found | rejected
    · exact absurd found refused
    · exact rejected
  · exact fun self request => HttpRequest.headerLoop_ends _ self request (Nat.lt_succ_self _)

end CoroMultiplex.Http
