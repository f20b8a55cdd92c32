import CoroMultiplex.Http.Grammar
import CoroMultiplex.Http.Target
import CoroMultiplex.Server.Session

/-! Where request boundaries fall in the received chunks.

A message is complete when the accumulated bytes end with a blank line, and the
parser reads one request of it. A session therefore recovers a sequence of
requests exactly when no chunk reaches across a request boundary.
-/

set_option autoImplicit false

namespace CoroMultiplex.Server

open Foundations Http

/-- The texts a connection may carry in this account: within the size limit,
with one blank line at the end, and not asking to close. -/
structure Framed (text : RequestText) : Prop where
  size : text.render.length ≤ 4096
  onlyLast : ∀ before after, text.render = before ++ crlfcrlf ++ after → after = []
  stays : text.request.headers[bytes "Connection"]? ≠ some (bytes "Close")

def received (chunks : List Bytes) : List RecvResult := chunks.map .received

/-- The chunks fall into consecutive groups, one for each text in order. -/
def Aligned (texts : List RequestText) (chunks : List Bytes) : Prop :=
  ∃ groups : List (List Bytes), groups.flatten = chunks ∧
    groups.map List.flatten = texts.map RequestText.render

theorem render_ends (text : RequestText) : crlfcrlf <:+ text.render := by
  have lineEnd : ∀ fields : List HeaderField,
      crlf <:+ text.requestLine ++ crlf ++ RequestText.headerLines fields := by
    intro fields
    induction fields using List.reverseRecOn with
    | nil => exact ⟨text.requestLine, by simp [RequestText.headerLines]⟩
    | append_singleton fields field _ =>
      exact ⟨text.requestLine ++ crlf ++ RequestText.headerLines fields ++ field.line,
        by simp [RequestText.headerLines]⟩
  obtain ⟨before, same⟩ := lineEnd text.fields
  refine ⟨before, ?_⟩
  rw [crlfcrlf, ← List.append_assoc, same, RequestText.render]
  simp

theorem render_head (text : RequestText) :
    ∃ first rest, text.render = first :: rest ∧ first ∉ crlfcrlf := by
  obtain ⟨first, rest, same, foreign⟩ : ∃ first rest,
      methodText text.method = first :: rest ∧ first ∉ crlfcrlf := by
    cases text.method with
    | get => exact ⟨71, bytes "ET", by decide, by decide⟩
    | head => exact ⟨72, bytes "EAD", by decide, by decide⟩
  obtain ⟨tail, shape⟩ : ∃ tail, text.render = methodText text.method ++ tail := by
    simp only [RequestText.render, RequestText.requestLine, List.append_assoc]
    exact ⟨_, rfl⟩
  exact ⟨first, rest ++ tail, by rw [shape, same, List.cons_append], foreign⟩

theorem closeSession_framed {text : RequestText} (framed : Framed text) :
    Session.closeSession text.request = false := by
  simp [Session.closeSession, framed.stays]

theorem flatten_eq_nil {chunks : List Bytes} (nonempty : ∀ chunk ∈ chunks, chunk ≠ [])
    (same : chunks.flatten = []) : chunks = [] := by
  cases chunks with
  | nil => rfl
  | cons chunk chunks =>
    have empty : chunk = [] := List.flatten_eq_nil_iff.mp same chunk (by simp)
    exact absurd empty (nonempty chunk (by simp))

/-- Chunks that together make up one text yield its request and leave the
session as fresh as it was. -/
theorem run_text {text : RequestText} (framed : Framed text) (chunks : List Bytes)
    (nonempty : ∀ chunk ∈ chunks, chunk ≠ []) (s : Session) (suspended : s.returned = false)
    (alive : s.closed = false) (incomplete : ¬ crlfcrlf <:+ s.request)
    (whole : s.request ++ chunks.flatten = text.render) :
    s.run (received chunks) =
      { s with request := [], tasks := s.tasks ++ [text.request] } := by
  induction chunks generalizing s with
  | nil =>
    have same : s.request = text.render := by simpa using whole
    exact absurd (same ▸ render_ends text) incomplete
  | cons chunk chunks ih =>
    have present : chunk ≠ [] := nonempty chunk (by simp)
    have joined : s.request ++ chunk ++ chunks.flatten = text.render := by simpa using whole
    have fits : chunk.length + s.request.length ≤ 4096 := by
      have total := congrArg List.length joined
      have size := framed.size
      simp only [List.length_append] at total
      omega
    by_cases complete : crlfcrlf <:+ s.request ++ chunk
    · -- The blank line is the end of the text, so no chunk is left.
      have last : chunks.flatten = [] := by
        obtain ⟨before, ends⟩ := complete
        exact framed.onlyLast before chunks.flatten (by rw [ends, joined])
      have none : chunks = [] :=
        flatten_eq_nil (fun next member => nonempty next (by simp [member])) last
      have message : s.request ++ chunk = text.render := by rw [← joined, last, List.append_nil]
      have step := Session.onRecv_result suspended (readRequest_complete present fits complete)
      have parsed := HttpRequest.parseResquest_render text []
      rw [List.append_nil] at parsed
      subst none
      rw [received, List.map_singleton, Session.run_cons, Session.run_nil, step, message,
        Session.clientHandle, parsed]
      simp [Session.addTask, closeSession_framed framed, alive, suspended]
    · have step := Session.onRecv_again suspended (readRequest_incomplete present fits complete)
      have rest := ih (fun next member => nonempty next (by simp [member]))
        { s with request := s.request ++ chunk } suspended alive complete joined
      rw [received, List.map_cons, Session.run_cons, step]
      exact rest

theorem run_aligned {texts : List RequestText} (framed : ∀ text ∈ texts, Framed text)
    (groups : List (List Bytes)) (nonempty : ∀ chunk ∈ groups.flatten, chunk ≠ [])
    (s : Session) (suspended : s.returned = false) (alive : s.closed = false) (fresh : s.request = [])
    (same : groups.map List.flatten = texts.map RequestText.render) :
    (s.run (received groups.flatten)).tasks = s.tasks ++ texts.map RequestText.request := by
  induction texts generalizing groups s with
  | nil =>
    have none : groups = [] := by simpa using same
    simp [none, received]
  | cons text texts ih =>
    cases groups with
    | nil => simp at same
    | cons group groups =>
      simp only [List.map_cons, List.cons.injEq] at same
      obtain ⟨first, rest⟩ := same
      have split : received (group :: groups).flatten =
          received group ++ received groups.flatten := by simp [received]
      have head := run_text (framed text (by simp)) group
        (fun chunk member => nonempty chunk (by simp [member])) s suspended alive (by rw [fresh]; decide)
        (by rw [fresh]; simpa using first)
      have tail := ih (fun text member => framed text (by simp [member])) groups
        (fun chunk member => nonempty chunk (by
          simp only [List.flatten_cons, List.mem_append]; exact Or.inr member))
        { s with request := [], tasks := s.tasks ++ [text.request] } suspended alive rfl rest
      rw [split, Session.run_append, head, tail]
      simp

/-- What a message holds beyond a text begins the following texts, so a blank
line at its end lies wholly in the excess. -/
theorem excess_blank (texts : List RequestText) {front extra rest message : Bytes}
    (some_ : extra ≠ []) (follows : (texts.map RequestText.render).flatten = extra ++ rest)
    (whole : message = front ++ extra) (blank : crlfcrlf <:+ message) : crlfcrlf <:+ extra := by
  have foreign : ∃ first tail, extra = first :: tail ∧ first ∉ crlfcrlf := by
    cases texts with
    | nil =>
      have none : extra = [] := by
        have both : extra ++ rest = [] := by simpa using follows.symm
        exact (List.append_eq_nil_iff.mp both).1
      exact absurd none some_
    | cons text texts =>
      obtain ⟨first, tail, head, foreign⟩ := render_head text
      cases extra with
      | nil => exact absurd rfl some_
      | cons byte extra =>
        rw [List.map_cons, List.flatten_cons, head, List.cons_append, List.cons_append] at follows
        exact ⟨byte, extra, rfl, (List.cons.inj follows).1 ▸ foreign⟩
  obtain ⟨first, tail, shape, foreign⟩ := foreign
  rw [whole] at blank
  rcases List.suffix_or_suffix_of_suffix blank (List.suffix_append front extra) with inside | short
  · exact inside
  · exact absurd (short.subset (by simp [shape])) foreign

/-- Messages that end with a blank line and together open the stream of some
texts are at most as many as the texts; as many messages are those very texts. -/
theorem messages_eq_texts {texts : List RequestText}
    (onlyLast : ∀ text ∈ texts, ∀ before after,
      text.render = before ++ crlfcrlf ++ after → after = [])
    (messages : List Bytes) (ends : ∀ message ∈ messages, crlfcrlf <:+ message) (rest : Bytes)
    (stream : messages.flatten ++ rest = (texts.map RequestText.render).flatten) :
    messages.length ≤ texts.length ∧
      (messages.length = texts.length → messages = texts.map RequestText.render) := by
  induction texts generalizing messages with
  | nil =>
    cases messages with
    | nil => simp
    | cons message messages =>
      have all : (message :: messages).flatten ++ rest = [] := by simpa using stream
      simp only [List.flatten_cons, List.append_assoc, List.append_eq_nil_iff] at all
      have blank := ends message (by simp)
      rw [all.1] at blank
      exact absurd blank (by decide)
  | cons text texts ih =>
    cases messages with
    | nil => simp
    | cons message messages =>
      have later := ih (fun text member => onlyLast text (by simp [member]))
      have blank := ends message (by simp)
      have joined : message ++ (messages.flatten ++ rest) =
          text.render ++ (texts.map RequestText.render).flatten := by simpa using stream
      rcases List.append_eq_append_iff.mp joined with ⟨tail, whole, remaining⟩ | ⟨extra, whole, remaining⟩
      · -- The message is a prefix of the text that ends with a blank line: all of it.
        obtain ⟨before, same⟩ := blank
        have none : tail = [] := onlyLast text (by simp) before tail (by rw [same, whole])
        rw [none] at whole remaining
        rw [List.append_nil] at whole
        have count := later messages (fun next member => ends next (by simp [member]))
          (by simpa using remaining)
        refine ⟨by simpa using count.1, fun equal => ?_⟩
        rw [List.map_cons, whole, count.2 (by simpa using equal)]
      · by_cases none : extra = []
        · subst none
          have count := later messages (fun next member => ends next (by simp [member]))
            (by simpa using remaining.symm)
          refine ⟨by simpa using count.1, fun equal => ?_⟩
          rw [List.append_nil] at whole
          rw [List.map_cons, whole, count.2 (by simpa using equal)]
        · -- The excess closes with a blank line of its own, in the texts behind.
          have tailBlank : crlfcrlf <:+ extra := excess_blank texts none remaining whole blank
          have count := later (extra :: messages)
            (by
              intro next member
              rcases List.mem_cons.mp member with same | member
              · exact same ▸ tailBlank
              · exact ends next (by simp [member]))
            (by simpa using remaining.symm)
          simp only [List.length_cons] at count ⊢
          exact ⟨by omega, fun equal => absurd count.1 (by omega)⟩

/-- How a session has consumed its chunks: a group of chunks for each request it
has answered, and chunks that are still accumulating or were never read. -/
structure Consumed (chunks : List Bytes) (s : Session) where
  groups : List (List Bytes)
  pending : List Bytes
  split : groups.flatten ++ pending = chunks
  blank : ∀ group ∈ groups, crlfcrlf <:+ group.flatten
  tasks : s.tasks = groups.map fun group => (HttpRequest.parseResquest {} group.flatten).1
  buffered : s.returned = true ∨ s.request = pending.flatten

/-- One more chunk extends the groups, unless the reader rejected the request. -/
theorem consumed_step {chunks : List Bytes} {s : Session} (consumed : Nonempty (Consumed chunks s))
    {chunk : Bytes} (present : chunk ≠ [])
    (accepted : ∀ request ∈ (s.onRecv (.received chunk)).tasks, request.status = .ok) :
    Nonempty (Consumed (chunks ++ [chunk]) (s.onRecv (.received chunk))) := by
  obtain ⟨groups, pending, split, blank, tasks, buffered⟩ := consumed
  have longer : groups.flatten ++ (pending ++ [chunk]) = chunks ++ [chunk] := by
    rw [← List.append_assoc, split]
  by_cases ended : s.returned = true
  -- After its return the session reads nothing: the chunk is left over.
  · rw [Session.onRecv_returned ended]
    exact ⟨⟨groups, pending ++ [chunk], longer, blank, tasks, Or.inl ended⟩⟩
  · have suspended : s.returned = false := by simpa using ended
    have buffer : s.request = pending.flatten := buffered.resolve_left ended
    by_cases fits : chunk.length + s.request.length ≤ 4096
    · by_cases complete : crlfcrlf <:+ s.request ++ chunk
      · have step := Session.onRecv_result suspended (readRequest_complete present fits complete)
        have message : s.request ++ chunk = (pending ++ [chunk]).flatten := by simp [buffer]
        rw [message] at complete
        refine ⟨⟨groups ++ [pending ++ [chunk]], [], by simpa using longer, ?_, ?_, ?_⟩⟩
        · intro group member
          rcases List.mem_append.mp member with earlier | last
          · exact blank group earlier
          · exact List.mem_singleton.mp last ▸ complete
        · rw [step, message]
          simp [Session.clientHandle, Session.addTask, tasks]
        · rw [step]
          exact Or.inr rfl
      · have step := Session.onRecv_again suspended (readRequest_incomplete present fits complete)
        rw [step]
        exact ⟨⟨groups, pending ++ [chunk], longer, blank, tasks, Or.inr (by simp [buffer])⟩⟩
    -- The reader rejects what does not fit, against the assumption.
    · have step := Session.onRecv_result suspended
        (readRequest_overflow present (Nat.lt_of_not_le fits))
      have rejected : ({ status := .badRequest } : HttpRequest) ∈
          (s.onRecv (.received chunk)).tasks := by
        rw [step]; simp [Session.clientHandle, Session.addTask]
      exact absurd (accepted _ rejected) (by decide)

theorem consumed_run (chunks : List Bytes) (nonempty : ∀ chunk ∈ chunks, chunk ≠ [])
    (accepted : ∀ request ∈ (Session.run {} (received chunks)).tasks, request.status = .ok) :
    Nonempty (Consumed chunks (Session.run {} (received chunks))) := by
  induction chunks using List.reverseRecOn with
  | nil => exact ⟨⟨[], [], rfl, by simp, rfl, Or.inr rfl⟩⟩
  | append_singleton chunks chunk ih =>
    have last : Session.run {} (received (chunks ++ [chunk])) =
        (Session.run {} (received chunks)).onRecv (.received chunk) := by
      simp [received, Session.run_append]
    rw [last] at accepted ⊢
    have before := ih (fun next member => nonempty next (by simp [member]))
      (fun request member =>
        accepted request ((Session.onRecv_keeps_tasks _ _).subset member))
    exact consumed_step before (nonempty chunk (by simp)) accepted

/-- For every sequence of framed texts and every way of cutting their bytes into
chunks, the session answers exactly those requests if and only if the chunks
are aligned with the texts. -/
theorem framing_iff_aligned (texts : List RequestText) (chunks : List Bytes)
    (framed : ∀ text ∈ texts, Framed text)
    (sizes : ∀ chunk ∈ chunks, 1 ≤ chunk.length ∧ chunk.length ≤ 1024)
    (stream : chunks.flatten = (texts.map RequestText.render).flatten) :
    (Session.run {} (received chunks)).tasks = texts.map RequestText.request ↔
      Aligned texts chunks := by
  have nonempty : ∀ chunk ∈ chunks, chunk ≠ [] := by
    intro chunk member empty
    have size := (sizes chunk member).1
    rw [empty] at size
    cases size
  constructor
  · intro obtained
    have accepted : ∀ request ∈ (Session.run {} (received chunks)).tasks, request.status = .ok := by
      intro request member
      rw [obtained] at member
      obtain ⟨text, _, rfl⟩ := List.mem_map.mp member
      rfl
    obtain ⟨groups, pending, split, blank, tasks, _⟩ := consumed_run chunks nonempty accepted
    -- As many messages as texts: the messages are the texts, and nothing is pending.
    have count : (groups.map List.flatten).length = texts.length := by
      have lengths := congrArg List.length (tasks.symm.trans obtained)
      simpa using lengths
    have whole : (groups.map List.flatten).flatten ++ pending.flatten =
        (texts.map RequestText.render).flatten := by
      rw [← stream, ← split, List.flatten_append, List.flatten_flatten]
    have messages := (messages_eq_texts (fun text member => (framed text member).onlyLast)
      (groups.map List.flatten)
      (by
        intro message member
        obtain ⟨group, inGroups, rfl⟩ := List.mem_map.mp member
        exact blank group inGroups)
      pending.flatten whole).2 count
    have none : pending = [] := by
      apply flatten_eq_nil (fun chunk member => nonempty chunk (by rw [← split]; simp [member]))
      rw [messages] at whole
      exact List.append_right_eq_self.mp whole
    exact ⟨groups, by rw [← split, none, List.append_nil], messages⟩
  · rintro ⟨groups, rfl, same⟩
    exact run_aligned framed groups nonempty {} rfl rfl rfl same

def getRoot : RequestText where
  method := .get
  uri := bytes "/"
  fields := []
  uriNoSpace := by decide
  uriOneLine := by decide

/-- A text whose proper prefixes are free of the blank line has it only at its end. -/
theorem onlyLast_of_dropLast {message : Bytes} (free : ¬ crlfcrlf <:+: message.dropLast) :
    ∀ before after, message = before ++ crlfcrlf ++ after → after = [] := by
  intro before after same
  cases after using List.reverseRecOn with
  | nil => rfl
  | append_singleton after last =>
    exfalso
    apply free
    refine ⟨before, after, ?_⟩
    rw [same, ← List.append_assoc, List.dropLast_concat]

theorem getRoot_framed : Framed getRoot where
  size := by decide
  onlyLast := onlyLast_of_dropLast (by decide)
  stays := by decide

def headIndex : RequestText where
  method := .head
  uri := bytes "/index.html"
  fields := [HttpResponse.acceptAll]
  uriNoSpace := by decide
  uriOneLine := by decide

theorem headIndex_framed : Framed headIndex where
  size := by decide
  onlyLast := onlyLast_of_dropLast (by decide)
  stays := by decide

/-- Three requests, of which two come in uneven chunks. -/
def unevenChunks : List (List Bytes) :=
  [[getRoot.render.take 5, getRoot.render.drop 5],
    [headIndex.render.take 1, (headIndex.render.drop 1).take 30, headIndex.render.drop 31],
    [getRoot.render]]

theorem framing_of_split_request :
    (Session.run {} (received unevenChunks.flatten)).tasks =
      [getRoot.request, headIndex.request, getRoot.request] := by
  have framed : ∀ text ∈ [getRoot, headIndex, getRoot], Framed text := by
    simp [getRoot_framed, headIndex_framed]
  exact (framing_iff_aligned [getRoot, headIndex, getRoot] unevenChunks.flatten framed (by decide)
    (by decide)).mpr ⟨unevenChunks, rfl, by decide⟩

/-- A session starts at most one task for each chunk. -/
theorem tasks_length_le (s : Session) (chunks : List Bytes) :
    (s.run (received chunks)).tasks.length ≤ s.tasks.length + chunks.length := by
  induction chunks generalizing s with
  | nil => exact Nat.le_refl _
  | cons chunk chunks ih =>
    have one := s.onRecv_tasks_length (.received chunk)
    have rest := ih (s.onRecv (.received chunk))
    simp only [received, List.map_cons, Session.run_cons, List.length_cons] at rest ⊢
    omega

theorem joined_requests_lose_one :
    (∀ text ∈ [getRoot, getRoot], Framed text) ∧
      (∀ chunk ∈ [getRoot.render ++ getRoot.render], 1 ≤ chunk.length ∧ chunk.length ≤ 1024) ∧
      [getRoot.render ++ getRoot.render].flatten =
        ([getRoot, getRoot].map RequestText.render).flatten ∧
      (Session.run {} (received [getRoot.render ++ getRoot.render])).tasks ≠
        [getRoot, getRoot].map RequestText.request := by
  refine ⟨by simpa using getRoot_framed, by decide, by decide, ?_⟩
  intro both
  have few := tasks_length_le {} [getRoot.render ++ getRoot.render]
  rw [both] at few
  simp at few

end CoroMultiplex.Server
