import CoroMultiplex.Http.Acceptance
import CoroMultiplex.Http.Target
import CoroMultiplex.Server.Framing
import CoroMultiplex.Server.Responder

/-! The bytes of a response header block, whatever the client has sent.

Only the checked version text, table entries and decimal numbers reach the
serializer, so no part of a request can end the block early or add a line to it.
-/

set_option autoImplicit false

namespace CoroMultiplex.Server

open Foundations Http Storage HttpResponse

/-- The blank line ends the text and stands nowhere else in it. -/
def BlankLineLast (text : Bytes) : Prop :=
  crlfcrlf <:+ text ∧ ∀ before after, text = before ++ crlfcrlf ++ after → after = []

/-- A line that can neither be mistaken for a blank one nor break into two. -/
def IsLine (line : Bytes) : Prop := line ≠ [] ∧ 13 ∉ line

def block (lines : List Bytes) : Bytes := (lines.map (· ++ crlf)).flatten ++ crlf

theorem block_cons (line : Bytes) (lines : List Bytes) :
    block (line :: lines) = line ++ 13 :: 10 :: block lines := by simp [block, crlf]

/-- A block that begins with a line end is the empty one. -/
theorem block_start {lines : List Bytes} (plain : ∀ line ∈ lines, IsLine line) {rest : Bytes}
    (same : block lines = 13 :: 10 :: rest) : rest = [] := by
  cases lines with
  | nil => simpa [block, crlf] using same.symm
  | cons line lines =>
    obtain ⟨nonempty, noCr⟩ := plain line (by simp)
    obtain ⟨first, tail, rfl⟩ := List.exists_cons_of_ne_nil nonempty
    rw [block_cons, List.cons_append] at same
    obtain ⟨rfl, _⟩ := List.cons.inj same
    exact absurd (List.mem_cons_self) noCr

/-- Any blank line in a block of plain lines is the one at its end. -/
theorem block_onlyLast {lines : List Bytes} (plain : ∀ line ∈ lines, IsLine line)
    (before after : Bytes) (same : block lines = before ++ crlfcrlf ++ after) : after = [] := by
  induction lines generalizing before with
  | nil =>
    have lengths := congrArg List.length same
    simp [block, crlf, crlfcrlf] at lengths
    omega
  | cons line lines ih =>
    have rest : ∀ other ∈ lines, IsLine other := fun other member => plain other (by simp [member])
    have noCr := (plain line (by simp)).2
    have ends : crlfcrlf ++ after = 13 :: 10 :: 13 :: 10 :: after := rfl
    rw [block_cons, List.append_assoc, ends, List.append_eq_append_iff] at same
    -- The blank line begins behind the line, or within it.
    rcases same with ⟨gap, _, same⟩ | ⟨inner, split, same⟩
    · cases gap with
      | nil => exact block_start rest (List.cons.inj (List.cons.inj same).2).2
      | cons _ gap =>
        cases gap with
        | nil => cases same
        | cons _ gap =>
          have behind : block lines = gap ++ crlfcrlf ++ after := by
            simpa [crlfcrlf, crlf] using (List.cons.inj (List.cons.inj same).2).2
          exact ih rest gap behind
    · cases inner with
      | nil => exact block_start rest (List.cons.inj (List.cons.inj same).2).2.symm
      | cons first inner =>
        obtain ⟨rfl, _⟩ := List.cons.inj same
        exact absurd (by rw [split]; simp) noCr

theorem block_last {line : Bytes} {lines : List Bytes} (plain : ∀ other ∈ line :: lines, IsLine other) :
    BlankLineLast (block (line :: lines)) := by
  refine ⟨?_, fun before after same => block_onlyLast plain before after same⟩
  have ending : ∀ (line : Bytes) (lines : List Bytes), crlfcrlf <:+ block (line :: lines) := by
    intro line lines
    induction lines generalizing line with
    | nil => exact ⟨line, by simp [block, crlfcrlf]⟩
    | cons next lines ih =>
      rw [block_cons]
      exact (ih next).trans ⟨line ++ crlf, by simp [crlf]⟩
  exact ending line lines

theorem decimal_noCr (number : Nat) : 13 ∉ decimal number := by
  intro member
  obtain ⟨char, isDigit, same⟩ := List.mem_map.mp member
  have range := Nat.isDigit_of_mem_toDigits (by decide) (by decide) isDigit
  simp only [Char.isDigit, Bool.and_eq_true, decide_eq_true_eq] at range
  obtain ⟨above, below⟩ := range
  have low : 48 ≤ char.toNat := above
  have high : char.toNat ≤ 57 := below
  have value := congrArg UInt8.toNat same
  simp at value
  omega

theorem mimeFullType_noCr (extension : Bytes) : 13 ∉ mimeFullType extension := by
  have table : ∀ type ∈ extensionMap.map Prod.snd, 13 ∉ type := by decide
  exact table _ (mimeFullType_mem extension)

/-- The header map of an answer with status OK. -/
def okHeaders (fullType : Bytes) (size : Nat) : HttpHeaders :=
  (((∅ : HttpHeaders).insertIfNew (bytes "Content-Type") fullType).insertIfNew
    (bytes "Catch-Control") (bytes "no-cache")).insert (bytes "Content-Length") (decimal size)

/-- The text of an answer with status OK: nothing of the request but the file's type and
size enters it. -/
def okText (fullType : Bytes) (size : Nat) : Bytes :=
  serialize { headers := okHeaders fullType size }

/-- No carriage return in any name or value. -/
def NoCr (headers : HttpHeaders) : Prop :=
  ∀ key value : Bytes, headers[key]? = some value → 13 ∉ key ∧ 13 ∉ value

theorem NoCr.insert {headers : HttpHeaders} (clean : NoCr headers) {key value : Bytes}
    (cleanKey : 13 ∉ key) (cleanValue : 13 ∉ value) : NoCr (headers.insert key value) := by
  intro other found known
  rw [Std.ExtTreeMap.getElem?_insert] at known
  split at known
  · next same =>
    obtain rfl := Std.LawfulEqOrd.eq_of_compare same
    obtain rfl := Option.some.inj known
    exact ⟨cleanKey, cleanValue⟩
  · exact clean other found known

theorem NoCr.insertIfNew {headers : HttpHeaders} (clean : NoCr headers) {key value : Bytes}
    (cleanKey : 13 ∉ key) (cleanValue : 13 ∉ value) : NoCr (headers.insertIfNew key value) := by
  intro other found known
  rw [Std.ExtTreeMap.getElem?_insertIfNew] at known
  split at known
  · next same =>
    obtain rfl := Std.LawfulEqOrd.eq_of_compare same.1
    obtain rfl := Option.some.inj known
    exact ⟨cleanKey, cleanValue⟩
  · exact clean other found known

theorem okHeaders_noCr {fullType : Bytes} (clean : 13 ∉ fullType) (size : Nat) :
    NoCr (okHeaders fullType size) := by
  have none : NoCr ∅ := by simp [NoCr]
  have typed := none.insertIfNew (by decide : 13 ∉ bytes "Content-Type") clean
  have uncached := typed.insertIfNew (by decide : 13 ∉ bytes "Catch-Control")
    (by decide : 13 ∉ bytes "no-cache")
  exact uncached.insert (by decide) (decimal_noCr size)

theorem headerLine_block (entries : List (Bytes × Bytes)) :
    (entries.map headerLine).flatten ++ crlf =
      block (entries.map fun entry => entry.1 ++ bytes ": " ++ entry.2) := by
  simp only [block, List.map_map, Function.comp_def]
  rfl

/-- A serialized answer with status OK is a block of plain lines. -/
theorem okText_last {fullType : Bytes} (clean : 13 ∉ fullType) (size : Nat) :
    BlankLineLast (okText fullType size) := by
  have shape : okText fullType size = block (bytes "HTTP/1.1 200 OK" ::
      (okHeaders fullType size).toList.map fun entry => entry.1 ++ bytes ": " ++ entry.2) := by
    have first : ({} : HttpResponse).statusLine = bytes "HTTP/1.1 200 OK" ++ crlf := by decide
    change ({} : HttpResponse).statusLine ++ _ ++ _ = _
    rw [first, List.append_assoc, headerLine_block, block_cons]
    simp [crlf]
  rw [shape]
  apply block_last
  intro line member
  rcases List.mem_cons.mp member with rfl | member
  · exact ⟨by decide, by decide⟩
  · obtain ⟨entry, inMap, rfl⟩ := List.mem_map.mp member
    have known := Std.ExtTreeMap.mem_toList_iff_getElem?_eq_some.mp inMap
    obtain ⟨cleanKey, cleanValue⟩ := okHeaders_noCr clean size _ _ known
    have separator : 13 ∉ bytes ": " := by decide
    have filled : bytes ": " ≠ [] := by decide
    refine ⟨by simp [filled], ?_⟩
    simp only [List.mem_append, not_or]
    exact ⟨⟨cleanKey, separator⟩, cleanValue⟩

/-- The constructor passes a rejection on, or decides between three statuses. -/
theorem ofRequest_status {request : HttpRequest} {webRoot : Path} {response : HttpResponse}
    (built : ofRequest request webRoot = .ok response) :
    response.status = request.status ∨ response.status = .badRequest ∨
      response.status = .notFound := by
  by_cases accepted : request.status = .ok
  · by_cases parent : Path.dotdot ∈ Path.components request.uri
    · rw [ofRequest_of_parent accepted webRoot parent] at built
      cases built
      exact .inr (.inr rfl)
    · cases typed : Path.hasExtension (indexed request.uri) with
      | false =>
        rw [ofRequest_of_untyped accepted webRoot parent typed] at built
        cases built
        exact .inr (.inr rfl)
      | true =>
        rw [ofRequest_of_typed accepted webRoot parent typed] at built
        split at built
        · split at built
          · cases built
            exact .inr (.inl rfl)
          · cases built
            exact .inl accepted.symm
        · cases built
  · rw [ofRequest_of_rejected accepted] at built
    cases built
    exact .inl rfl

theorem parsed_request (message : Bytes) :
    (∃ text : RequestText, (HttpRequest.parseResquest {} message).1 = text.request) ∨
      (HttpRequest.parseResquest {} message).1.status = .badRequest := by
  rcases HttpRequest.parseResquest_cases message with ⟨text, rest, rfl⟩ | ⟨rejected, _⟩
  · exact .inl ⟨text, HttpRequest.parseResquest_render text rest⟩
  · exact .inr rejected

/-- The task prepared for a message, with some file cache and web root. -/
def Answers (message : Bytes) (task : ResponseTask) : Prop :=
  ∃ get webRoot, ResponseTask.prepare get (HttpRequest.parseResquest {} message).1 webRoot = .ok task

/-- The text of every answer is a constant, or made of the type and size of a file. -/
theorem answer_text {message : Bytes} {task : ResponseTask} (answers : Answers message task) :
    (task.response.status = .badRequest ∧ task.responseStr = badRequestResponse) ∨
    (task.response.status = .notFound ∧ task.responseStr = notFoundResponse) ∨
    (task.response.status = .ok ∧ ∃ fullType, 13 ∉ fullType ∧
      task.response.headers[bytes "Content-Type"]? = some fullType ∧
      task.responseStr = okText fullType task.fileSize) := by
  obtain ⟨get, webRoot, built⟩ := answers
  unfold ResponseTask.prepare at built
  split at built
  · cases built
  · next response constructed =>
    split at built
    · next ok =>
      obtain ⟨served, rfl⟩ := served_of_ofRequest constructed ok
      split at built
      · cases built
      · cases built
        exact .inr (.inl ⟨rfl, rfl⟩)
      · next file _ =>
        rcases parsed_request message with ⟨text, same⟩ | rejected
        · rw [same] at built
          cases built
          refine .inr (.inr ⟨rfl, mimeFullType ((Path.extension (resolved text.uri)).drop 1),
            mimeFullType_noCr _, ?_, rfl⟩)
          have distinct : bytes "Content-Length" ≠ bytes "Content-Type" := by decide
          have typed := served_contentType text.request webRoot
          change ((HttpResponse.served text.request webRoot).headers.insert
            (bytes "Content-Length") (decimal file.size))[bytes "Content-Type"]? = _
          rw [Std.ExtTreeMap.getElem?_insert, typed]
          simp [distinct, RequestText.request]
        · have accepted := served.status
          rw [rejected] at accepted
          cases accepted
    · next other =>
      cases built
      have statuses : response.status = .badRequest ∨ response.status = .notFound := by
        rcases ofRequest_status constructed with same | decided
        · rcases parsed_request message with ⟨text, request⟩ | rejected
          · rw [request] at same
            exact absurd same other
          · exact .inl (same.trans rejected)
        · exact decided
      rcases statuses with bad | missing
      · exact .inl ⟨bad, by simp [ResponseTask.make, serialize, bad]⟩
      · exact .inr (.inl ⟨missing, by simp [ResponseTask.make, serialize, missing]⟩)

/-- No request splits its response: whatever bytes were sent, the header block ends at
its only blank line. And no request shapes it: two answers with status OK of the same
type and size have the same text. -/
theorem no_response_splitting :
    (∀ message task, Answers message task →
      task.response.status ∈ [.ok, .badRequest, .notFound] ∧ BlankLineLast task.responseStr) ∧
    (∀ first second one other, Answers first one → Answers second other →
      one.response.status = .ok → other.response.status = .ok →
      one.response.headers[bytes "Content-Type"]? = other.response.headers[bytes "Content-Type"]? →
      one.fileSize = other.fileSize → one.responseStr = other.responseStr) := by
  constructor
  · intro message task answers
    rcases answer_text answers with ⟨status, text⟩ | ⟨status, text⟩ | ⟨status, fullType, clean, _, text⟩
    · rw [status, text]
      exact ⟨by decide, by decide, onlyLast_of_dropLast (by decide)⟩
    · rw [status, text]
      exact ⟨by decide, by decide, onlyLast_of_dropLast (by decide)⟩
    · rw [status, text]
      exact ⟨by decide, okText_last clean task.fileSize⟩
  · intro first second one other answersOne answersOther okOne okOther sameType sameSize
    have ofOk : ∀ {message task}, Answers message task → task.response.status = .ok →
        ∃ fullType, task.response.headers[bytes "Content-Type"]? = some fullType ∧
          task.responseStr = okText fullType task.fileSize := by
      intro message task answers ok
      rcases answer_text answers with ⟨status, _⟩ | ⟨status, _⟩ | ⟨_, fullType, _, typed, text⟩
      · rw [ok] at status; cases status
      · rw [ok] at status; cases status
      · exact ⟨fullType, typed, text⟩
    obtain ⟨typeOne, typedOne, textOne⟩ := ofOk answersOne okOne
    obtain ⟨typeOther, typedOther, textOther⟩ := ofOk answersOther okOther
    rw [typedOne, typedOther, Option.some.injEq] at sameType
    rw [textOne, textOther, sameType, sameSize]

/-- The answer to a request for a page, with an empty file. -/
def emptyPage (request : HttpRequest) (webRoot : Path) : ResponseTask :=
  .make { served request webRoot with
    headers := (served request webRoot).headers.insert (bytes "Content-Length") (decimal 0) } (some {})

theorem emptyPage_answers {text : RequestText} (accepted : Served text.request) (webRoot : Path) :
    Answers text.render (emptyPage text.request webRoot) := by
  have parsed := HttpRequest.parseResquest_render text []
  rw [List.append_nil] at parsed
  have ok : (served text.request webRoot).status = .ok := rfl
  refine ⟨fun _ => .ok (some {}), webRoot, ?_⟩
  simp only [ResponseTask.prepare, parsed, ofRequest_of_served accepted, ok, if_true]
  rfl

/-- Another page, asked for with a header that looks like part of a response. -/
def otherPage : RequestText where
  method := .get
  uri := bytes "/b/c.html"
  fields := [.literal (bytes "Content-Length") (bytes "7") (by decide), acceptAll]
  uriNoSpace := by decide
  uriOneLine := by decide

theorem otherPage_served : Served otherPage.request where
  status := rfl
  noParent := by decide
  typed := by decide
  typedAfterCut := by decide
  accept := ⟨bytes "*/*", by decide⟩

theorem page_answer_not_split :
    BlankLineLast (emptyPage page.request (bytes "/srv")).responseStr ∧
      (emptyPage page.request (bytes "/srv")).responseStr =
        (emptyPage otherPage.request (bytes "/www")).responseStr := by
  obtain ⟨one, two⟩ := no_response_splitting
  have first := emptyPage_answers page_served (bytes "/srv")
  have second := emptyPage_answers otherPage_served (bytes "/www")
  exact ⟨(one _ _ first).2, two _ _ _ _ first second rfl rfl (by decide) rfl⟩

end CoroMultiplex.Server
