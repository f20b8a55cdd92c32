import CoroMultiplex.Http.Client
import CoroMultiplex.Server.Delivery
import CoroMultiplex.Server.Splitting

/-! What a client receives on a connection.

Each response says where it ends, so the client that reads one after the other has each of
them as it was sent, also where some were asked for with HEAD or refused.
-/

set_option autoImplicit false

namespace CoroMultiplex.Server

open Foundations Http Storage HttpResponse

/-- A response as a client sees it. -/
def ResponseTask.received (task : ResponseTask) : Client.Received where
  status := task.response.status.value
  reason := bytes task.response.status.message
  fields := if task.response.status = .ok then task.response.headers.toList
    else [(bytes "Content-Length", bytes "0")]
  body := if task.sendsBody then task.fileData else []

/-- A request that a client has sent, and the handler of its response, which has ended. -/
structure Exchange where
  asked : Method
  message : Bytes
  task : ResponseTask
  results : List SendResult

namespace Exchange

/-- The bytes that the client receives. -/
def stream (exchange : Exchange) : Bytes := (exchange.task.transmit exchange.results).2

/-- The handler has run to its end, and none of its sends was short. -/
structure Completed (exchange : Exchange) : Prop where
  answers : Answers exchange.message exchange.task
  asked : (HttpRequest.parseResquest {} exchange.message).1.status = .ok →
    (HttpRequest.parseResquest {} exchange.message).1.method = exchange.asked
  outcomes : exchange.task.Outcomes exchange.results
  ended : (exchange.task.transmit exchange.results).1.phase = .finished
  whole : exchange.results.filterMap SendResult.count = exchange.task.pieces.map List.length

theorem Completed.stream_eq {exchange : Exchange} (completed : exchange.Completed) :
    exchange.stream = exchange.task.pieces.flatten := by
  obtain ⟨get, webRoot, built⟩ := completed.answers
  obtain ⟨start, _, _⟩ := ResponseTask.prepare_start built
  have resent := ResponseTask.transmit_resent exchange.task exchange.results completed.outcomes
    completed.ended
  have all : exchange.task.remaining = exchange.task.pieces := by
    simp [ResponseTask.remaining, start]
  rw [all] at resent
  exact resent.stream_of_counts completed.whole

end Exchange

section Headers

theorem plain_insert {headers : HttpHeaders} (plain : Plain headers) {key value : Bytes}
    (entry : PlainEntry key value) : Plain (headers.insert key value) := by
  intro other found known
  rw [Std.ExtTreeMap.getElem?_insert] at known
  split at known
  · next same =>
    obtain rfl := Std.LawfulEqOrd.eq_of_compare same
    obtain rfl := Option.some.inj known
    exact entry
  · exact plain other found known

theorem plain_insertIfNew {headers : HttpHeaders} (plain : Plain headers) {key value : Bytes}
    (entry : PlainEntry key value) : Plain (headers.insertIfNew key value) := by
  intro other found known
  rw [Std.ExtTreeMap.getElem?_insertIfNew] at known
  split at known
  · next same =>
    obtain rfl := Std.LawfulEqOrd.eq_of_compare same.1
    obtain rfl := Option.some.inj known
    exact entry
  · exact plain other found known

instance (key value : Bytes) : Decidable (PlainEntry key value) :=
  decidable_of_iff (key ≠ [] ∧ colon ∉ key ∧ 13 ∉ key ∧ 10 ∉ key ∧ value ≠ [] ∧ 13 ∉ value ∧
      10 ∉ value ∧ (value.head? ≠ some space ∧ value.head? ≠ some tab) ∧
      value.getLast? ≠ some space ∧ value.getLast? ≠ some tab)
    ⟨fun ⟨a, b, c, d, e, f, g, h, i⟩ => ⟨a, b, c, d, e, f, g, h, i⟩,
      fun ⟨a, b, c, d, e, f, g, h, i⟩ => ⟨a, b, c, d, e, f, g, h, i⟩⟩

theorem mimeFullType_plain (extension : Bytes) :
    PlainEntry (bytes "Content-Type") (mimeFullType extension) := by
  have table : ∀ type ∈ extensionMap.map Prod.snd, PlainEntry (bytes "Content-Type") type := by decide
  exact table _ (mimeFullType_mem extension)

theorem decimal_plain (size : Nat) : PlainEntry (bytes "Content-Length") (decimal size) where
  keyNonempty := by decide
  keyNoColon := by decide
  keyNoCr := by decide
  keyNoLf := by decide
  valueNonempty := Client.decimal_ne_nil size
  valueNoCr := Client.not_mem_decimal (by decide) size
  valueNoLf := Client.not_mem_decimal (by decide) size
  valueStart := ⟨fun first => Client.not_mem_decimal (by decide) size (List.mem_of_head? first),
    fun first => Client.not_mem_decimal (by decide) size (List.mem_of_head? first)⟩
  valueEnd := ⟨fun last => Client.not_mem_decimal (by decide) size (List.mem_of_getLast? last),
    fun last => Client.not_mem_decimal (by decide) size (List.mem_of_getLast? last)⟩

theorem okHeaders_plain (extension : Bytes) (size : Nat) :
    Plain (okHeaders (mimeFullType extension) size) :=
  plain_insert (plain_insertIfNew (plain_insertIfNew (by simp [Plain]) (mimeFullType_plain extension))
    (by decide)) (decimal_plain size)

end Headers

namespace ResponseTask

variable {get : Path → Except Exception (Option FileCache)} {request : HttpRequest} {webRoot : Path}
variable {task : ResponseTask}

/-- A task with status OK answers an accepted request with a file. -/
theorem prepare_ok (built : prepare get request webRoot = .ok task) (ok : task.response.status = .ok) :
    request.status = .ok ∧ ∃ file : FileCache, task = make { HttpResponse.served request webRoot with
      headers := (HttpResponse.served request webRoot).headers.insert (bytes "Content-Length")
        (decimal file.size) } (some file) := by
  unfold prepare at built
  split at built
  · cases built
  · next response constructed =>
    split at built
    · next accepted =>
      obtain ⟨served, rfl⟩ := served_of_ofRequest constructed accepted
      split at built
      · cases built
      · cases built
        cases ok
      · next file _ =>
        cases built
        exact ⟨served.status, file, rfl⟩
    · next other =>
      cases built
      exact absurd ok other

end ResponseTask

/-- The lines of an answer with status OK, and its file unless HEAD was asked for. -/
theorem served_delimited {request : HttpRequest} (version : request.version = bytes "HTTP/1.1")
    (webRoot : Path) (file : FileCache) :
    let task := ResponseTask.make { HttpResponse.served request webRoot with
      headers := (HttpResponse.served request webRoot).headers.insert (bytes "Content-Length")
        (decimal file.size) } (some file)
    Client.receive.Delimits request.method task.pieces.flatten task.received := by
  intro task
  let fullType := mimeFullType ((Path.extension (resolved request.uri)).drop 1)
  have plain := okHeaders_plain ((Path.extension (resolved request.uri)).drop 1) file.size
  have announced : (okHeaders fullType file.size).toList.find? (·.1 = bytes "Content-Length") =
      some (bytes "Content-Length", decimal file.size) := by
    rw [find?_toList, okHeaders, Std.ExtTreeMap.getElem?_insert_self, Option.map_some]
  let line : Client.StatusLine := { status := 200, reason := bytes "OK" }
  have plainLine : line.Plain := ⟨by decide, by decide, by decide⟩
  have length : (if task.sendsBody then task.fileData else []).length =
      if request.method = .head then 0 else file.size := by
    cases asked : request.method <;>
      simp [task, ResponseTask.make, ResponseTask.sendsBody, ResponseTask.fileData, served, asked,
        FileCache.size, FileCache.data]
  have read := @Client.receive_text request.method line (okHeaders fullType file.size).toList
    (if task.sendsBody then task.fileData else []) file.size plainLine
    (fun entry member => plain _ _ (Std.ExtTreeMap.mem_toList_iff_getElem?_eq_some.mp member))
    announced length
  have text : task.pieces.flatten = line.text ++ crlf ++
      ((okHeaders fullType file.size).toList.map headerLine).flatten ++ crlf ++
        (if task.sendsBody then task.fileData else []) := by
    have first : task.responseStr = line.text ++ crlf ++
        ((okHeaders fullType file.size).toList.map headerLine).flatten ++ crlf := by
      simp only [task, ResponseTask.make, serialize, HttpResponse.served, statusLine, version]
      rfl
    rw [ResponseTask.pieces, List.flatten_cons, first]
    split <;> simp
  rw [text]
  exact read

/-- An answer that is one of the constant texts. -/
theorem constant_delimited {asked : Method} {task : ResponseTask} {line : Client.StatusLine}
    (plain : line.Plain)
    (text : task.responseStr = line.text ++ crlf ++ bytes "Content-Length: 0" ++ crlf ++ crlf)
    (other : task.response.status ≠ .ok) :
    Client.receive.Delimits asked task.pieces.flatten
      { line with fields := [(bytes "Content-Length", bytes "0")], body := [] } := by
  have entry : PlainEntry (bytes "Content-Length") (bytes "0") := by decide
  have read := @Client.receive_text asked line [(bytes "Content-Length", bytes "0")] [] 0 plain
    (fun found member => by rw [List.mem_singleton.mp member]; exact entry) (by decide) (by simp)
  have bodyless : task.sendsBody = false := by simp [ResponseTask.sendsBody, other]
  have same : task.pieces.flatten = line.text ++ crlf ++
      ([(bytes "Content-Length", bytes "0")].map headerLine).flatten ++ crlf ++ [] := by
    have header : headerLine (bytes "Content-Length", bytes "0") = bytes "Content-Length: 0" ++ crlf := by
      decide
    simp [ResponseTask.pieces, bodyless, text, header]
  rw [same]
  exact read

theorem Exchange.Completed.delimited {exchange : Exchange} (completed : exchange.Completed) :
    Client.receive.Delimits exchange.asked exchange.stream exchange.task.received := by
  rw [completed.stream_eq]
  have asked := completed.asked
  rcases answer_text completed.answers with ⟨status, text⟩ | ⟨status, text⟩ | ⟨status, _⟩
  · have read := @constant_delimited exchange.asked exchange.task
      { status := 400, reason := bytes "Bad Request" } ⟨by decide, by decide, by decide⟩
      (by rw [text]; decide) (by rw [status]; decide)
    simpa [ResponseTask.received, ResponseTask.sendsBody, status, HttpErrc.value, HttpErrc.message]
      using read
  · have read := @constant_delimited exchange.asked exchange.task
      { status := 404, reason := bytes "Not Found" } ⟨by decide, by decide, by decide⟩
      (by rw [text]; decide) (by rw [status]; decide)
    simpa [ResponseTask.received, ResponseTask.sendsBody, status, HttpErrc.value, HttpErrc.message]
      using read
  · obtain ⟨get, webRoot, built⟩ := completed.answers
    obtain ⟨accepted, file, same⟩ := ResponseTask.prepare_ok built status
    rw [← asked accepted, same]
    refine served_delimited ?_ webRoot file
    rcases parsed_request exchange.message with ⟨text, parsed⟩ | rejected
    · rw [parsed]
      rfl
    · rw [rejected] at accepted
      cases accepted

/-- Whatever was requested, and however often, with GET or HEAD: a client that reads the
responses of handlers that have ended without a short send, one after the other, receives
each of them with its status, its header fields and its body, and nothing is left over. -/
theorem responses_are_received (exchanges : List Exchange)
    (completed : ∀ exchange ∈ exchanges, exchange.Completed) (rest : Bytes) :
    Client.receive.readAll (exchanges.map Exchange.asked) (exchanges.flatMap Exchange.stream ++ rest) =
      some (exchanges.map fun exchange => exchange.task.received, rest) :=
  Reader.readAll_delimited (fun exchange member => (completed exchange member).delimited) rest

theorem shortPage_answers : Answers page.render shortPage := by
  have parsed := HttpRequest.parseResquest_render page []
  rw [List.append_nil] at parsed
  refine ⟨fun _ => .ok (some { mLoc := bytes "ok" }), bytes "/srv", ?_⟩
  rw [parsed]
  exact shortPage_built

/-- A GET for it. -/
def pageExchange : Exchange where
  asked := .get
  message := page.render
  task := shortPage
  results := [.sqeBusy, .sent shortPage.responseStr.length, .sent 2]

theorem pageExchange_completed : pageExchange.Completed where
  answers := shortPage_answers
  asked _ := by
    have parsed := HttpRequest.parseResquest_render page []
    rw [List.append_nil] at parsed
    simp only [pageExchange, parsed]
    rfl
  outcomes := by
    refine ⟨rfl, trivial, rfl, ⟨Nat.le_refl _, ?_⟩, ?_⟩
    · exact fun filled => List.length_pos_of_ne_nil filled
    · change ResponseTask.Outcomes (shortPage.resume (.sent shortPage.responseStr.length)) _
      rw [shortPage_headers]
      exact ⟨rfl, ⟨by decide, fun _ => by decide⟩, trivial⟩
  ended := by
    change (ResponseTask.transmit (shortPage.resume (.sent shortPage.responseStr.length)) _).1.phase = _
    rw [shortPage_headers]
    rfl
  whole := rfl

theorem page_is_received_twice :
    Client.receive.readAll [.get, .get] (pageExchange.stream ++ pageExchange.stream) =
      some ([shortPage.received, shortPage.received], []) := by
  have completed : ∀ exchange ∈ [pageExchange, pageExchange], exchange.Completed := by
    intro exchange member
    rcases List.mem_pair.mp member with rfl | rfl <;> exact pageExchange_completed
  have read : Client.receive.readAll [.get, .get]
      ([pageExchange, pageExchange].flatMap Exchange.stream ++ []) =
        some ([shortPage.received, shortPage.received], []) :=
    responses_are_received [pageExchange, pageExchange] completed []
  simpa using read

end CoroMultiplex.Server
