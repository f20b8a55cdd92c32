import CoroMultiplex.Http.Locality
import CoroMultiplex.Server.Framing
import CoroMultiplex.Server.Reader

/-! One stream, read by the reader of the epoll server and by that of the io_uring server.

A moment without bytes ends a call of the first reader, which is made again as long as the
message is not complete. The second reader awaits the next bytes through it.
-/

set_option autoImplicit false

namespace CoroMultiplex.Server

open Foundations Http Http.Reactor

/-- Bytes of a stream, or a moment at which none are there. -/
inductive Arrival where
  | chunk (buf : Bytes)
  | pause

inductive Ending where
  | pause | close
  deriving DecidableEq

def Arrival.bytes : Arrival → Bytes
  | .chunk buf => buf
  | .pause => []

def Arrival.isPause : Arrival → Bool
  | .chunk _ => false
  | .pause => true

/-- A message that either reader takes for one. -/
structure OneMessage (m : Bytes) : Prop where
  fits : m.length ≤ 4096
  ends : crlfcrlf <:+ m
  onlyLast : ∀ before after, m = before ++ crlfcrlf ++ after → after = []

/-- The message cut into chunks, with pauses before any of them. -/
structure Cut (body : List Arrival) (m : Bytes) : Prop where
  sizes : ∀ buf, .chunk buf ∈ body → 1 ≤ buf.length ∧ buf.length ≤ 1024
  whole : (body.map Arrival.bytes).flatten = m
  lastChunk : body.getLast? ≠ some .pause

/-- EAGAIN. -/
def eagain : Nat := 11

/-- The reads that an arrival gives, and the call made again after a pause. -/
def Arrival.events (fd : Int) : Arrival → List Event
  | .chunk buf => [.read fd (.received buf)]
  | .pause => [.read fd (.failed eagain), .call fd]

def Ending.event (fd : Int) : Ending → Event
  | .pause => .read fd (.failed eagain)
  | .close => .read fd (.received [])

/-- The steps of the epoll reader on a descriptor, behind its first call. -/
def reads (fd : Int) (body : List Arrival) (ending : Ending) : List Event :=
  body.flatMap (Arrival.events fd) ++ [ending.event fd]

def uncompletedRequest : Except ErrorCode Nat := .error (.http .uncompletedRequest)

/-- Whatever else happens on other descriptors, the calls on this one return the
message, after an uncompleted request for each pause before its end. -/
def EpollDelivers (body : List Arrival) (ending : Ending) (m : Bytes) : Prop :=
  ∀ fd start events, 0 ≤ fd → machine.Reachable {} start → start.requestMessage fd = none →
    awaiting fd start.log = false → machine.Allowed start events →
    events.filter (·.fd = fd) = .call fd :: reads fd body ending →
    ∃ pointer, returns fd (machine.exec start events).log = returns fd start.log ++
        List.replicate (body.countP Arrival.isPause) uncompletedRequest ++ [.ok pointer] ∧
      (machine.exec start events).strings pointer = m

/-- A recv on a blocking socket waits through a pause. -/
def Arrival.outcomes : Arrival → List RecvResult
  | .chunk buf => [.received buf]
  | .pause => []

def Ending.outcomes : Ending → List RecvResult
  | .pause => []
  | .close => [.received []]

/-- However often the submission queue is busy, the call returns the message. -/
def UringDelivers (body : List Arrival) (ending : Ending) (m : Bytes) : Prop :=
  ∀ outcomes, outcomes.filter (!·.isBusy) = body.flatMap Arrival.outcomes ++ ending.outcomes →
    readLoop [] outcomes = .returned false (.ok m)

theorem OneMessage.incomplete {m before after : Bytes} (message : OneMessage m)
    (split : m = before ++ after) (more : after ≠ []) : ¬ crlfcrlf <:+ before := by
  rintro ⟨front, rfl⟩
  exact more (message.onlyLast front after split)

/-- A body that does not end with a pause has bytes, unless it is over. -/
theorem bytes_ne_nil {body : List Arrival} (nonempty : ∀ buf, .chunk buf ∈ body → buf ≠ [])
    (lastChunk : body.getLast? ≠ some .pause) (more : body ≠ []) :
    (body.map Arrival.bytes).flatten ≠ [] := by
  cases body using List.reverseRecOn with
  | nil => exact absurd rfl more
  | append_singleton front last =>
    cases last with
    | chunk buf =>
      have present : buf ≠ [] := nonempty buf (by simp)
      simp [Arrival.bytes, present]
    | pause => simp at lastChunk

section Epoll

variable {fd : Int} {m : Bytes}

/-- The epoll reader has taken the message up to what the body still brings. -/
structure At (fd : Int) (m : Bytes) (body : List Arrival) (state : Reactor) : Prop where
  sound : state.Sound
  rest : pending fd state.log ++ (body.map Arrival.bytes).flatten = m
  nonempty : ∀ buf, .chunk buf ∈ body → buf ≠ []
  lastChunk : body.getLast? ≠ some .pause

theorem At.behind {first : Arrival} {body : List Arrival} {state after : Reactor}
    (position : At fd m (first :: body) state) (sound : after.Sound)
    (read : pending fd after.log = pending fd state.log ++ first.bytes) : At fd m body after where
  sound := sound
  rest := by
    have rest := position.rest
    rw [List.map_cons, List.flatten_cons, ← List.append_assoc, ← read] at rest
    exact rest
  nonempty buf member := position.nonempty buf (List.mem_cons_of_mem _ member)
  lastChunk last := by
    have whole := position.lastChunk
    cases body with
    | nil => cases last
    | cons next body => exact whole (by rw [List.getLast?_cons_cons]; exact last)

theorem At.foreign {body : List Arrival} {state : Reactor} (position : At fd m body state)
    {event : Event} (apart : fd ≠ event.fd) (enabled : machine.enabled state event) :
    At fd m body (machine.next state event) where
  sound := sound_next position.sound event enabled
  rest := by
    have same : pending fd (machine.next state event).log = pending fd state.log :=
      (unseen_next state apart).pending
    rw [same]
    exact position.rest
  nonempty := position.nonempty
  lastChunk := position.lastChunk

theorem At.call {body : List Arrival} {state : Reactor} (position : At fd m body state)
    (idle : state.requestMessage fd = none) :
    At fd m body (machine.next state (.call fd)) ∧
      (machine.next state (.call fd)).requestMessage fd ≠ none ∧
      returns fd (machine.next state (.call fd)).log = returns fd state.log := by
  obtain ⟨running, log⟩ := own_call state fd
  refine ⟨⟨sound_next position.sound _ idle, ?_, position.nonempty, position.lastChunk⟩, running,
    congrArg (returns fd) log⟩
  have same : pending fd (machine.next state (.call fd)).log = pending fd state.log :=
    congrArg (pending fd) log
  rw [same]
  exact position.rest

variable (valid : 0 ≤ fd) (message : OneMessage m)

include valid message

theorem At.chunk {buf : Bytes} {body : List Arrival} {state : Reactor}
    (position : At fd m (.chunk buf :: body) state) (running : state.requestMessage fd ≠ none) :
    At fd m body (machine.next state (.read fd (.received buf))) ∧
      (machine.next state (.read fd (.received buf))).requestMessage fd ≠ none ∧
      returns fd (machine.next state (.read fd (.received buf))).log = returns fd state.log := by
  obtain ⟨pointer, entry⟩ := Option.ne_none_iff_exists'.mp running
  have present : buf ≠ [] := position.nonempty buf List.mem_cons_self
  have fits : (pending fd state.log).length + buf.length ≤ 4096 := by
    have total := congrArg List.length position.rest
    have bound := message.fits
    simp only [List.map_cons, List.flatten_cons, List.length_append, Arrival.bytes] at total
    omega
  obtain ⟨still, log⟩ := own_chunk entry valid position.sound present fits
  have log : (machine.next state (.read fd (.received buf))).log = state.log ++ [.got fd buf] := log
  refine ⟨position.behind (sound_next position.sound _ running) ?_, still, ?_⟩
  · rw [log, pending_got]
    rfl
  · rw [log, returns_got]

theorem At.pause {body : List Arrival} {state : Reactor}
    (position : At fd m (.pause :: body) state) (running : state.requestMessage fd ≠ none) :
    At fd m body (machine.next state (.read fd (.failed eagain))) ∧
      (machine.next state (.read fd (.failed eagain))).requestMessage fd = none ∧
      returns fd (machine.next state (.read fd (.failed eagain))).log =
        returns fd state.log ++ [uncompletedRequest] := by
  obtain ⟨pointer, entry⟩ := Option.ne_none_iff_exists'.mp running
  have incomplete : ¬ crlfcrlf <:+ pending fd state.log := by
    refine message.incomplete position.rest.symm ?_
    exact bytes_ne_nil position.nonempty position.lastChunk (List.cons_ne_nil _ _)
  obtain ⟨idle, log⟩ := own_suspend entry valid position.sound incomplete
  have log : (machine.next state (.read fd (.failed eagain))).log =
      state.log ++ [.returned fd uncompletedRequest] := log
  refine ⟨position.behind (sound_next position.sound _ running) ?_, idle, ?_⟩
  · rw [log, uncompletedRequest, pending_uncompleted]
    exact (List.append_nil _).symm
  · rw [log, returns_returned]

/-- What the steps on the descriptor still are, while a call runs on it and between
two calls. -/
inductive Follows (fd : Int) (body : List Arrival) (ending : Ending) (state : Reactor) :
    List Event → Prop
  | running (active : state.requestMessage fd ≠ none) :
      Follows fd body ending state (reads fd body ending)
  | idle (inactive : state.requestMessage fd = none) :
      Follows fd body ending state (.call fd :: reads fd body ending)

/-- A step on the descriptor takes the first of what the body brings. -/
theorem At.arrival {first : Arrival} {body : List Arrival} {state : Reactor} {ending : Ending}
    (position : At fd m (first :: body) state) (active : state.requestMessage fd ≠ none)
    {event : Event} {rest : List Event} (steps : event :: rest = reads fd (first :: body) ending) :
    At fd m body (machine.next state event) ∧
      Follows fd body ending (machine.next state event) rest ∧
      returns fd (machine.next state event).log ++
          List.replicate (body.countP Arrival.isPause) uncompletedRequest =
        returns fd state.log ++
          List.replicate ((first :: body).countP Arrival.isPause) uncompletedRequest := by
  cases first with
  | chunk buf =>
    obtain ⟨rfl, rfl⟩ := List.cons.inj steps
    obtain ⟨next, still, same⟩ := position.chunk valid message active
    have count : (Arrival.chunk buf :: body).countP Arrival.isPause =
        body.countP Arrival.isPause := List.countP_cons_of_neg nofun
    exact ⟨next, .running still, by rw [same, count]⟩
  | pause =>
    obtain ⟨rfl, rfl⟩ := List.cons.inj steps
    obtain ⟨next, inactive, longer⟩ := position.pause valid message active
    have count : (Arrival.pause :: body).countP Arrival.isPause =
        body.countP Arrival.isPause + 1 := List.countP_cons_of_pos rfl
    refine ⟨next, .idle inactive, ?_⟩
    rw [longer, count, List.append_assoc, List.singleton_append, ← List.replicate_succ]

omit valid message in
theorem Follows.foreign {body : List Arrival} {ending : Ending} {state : Reactor}
    {rest : List Event} (follows : Follows fd body ending state rest) {event : Event}
    (apart : fd ≠ event.fd) : Follows fd body ending (machine.next state event) rest := by
  have unseen := (unseen_next state apart).requestMessage
  cases follows with
  | running active => exact .running fun stopped => active (unseen.symm.trans stopped)
  | idle inactive => exact .idle (unseen.trans inactive)

/-- What the last call on the descriptor returns. -/
def Concluded (fd : Int) (m : Bytes) (earlier : List (Except ErrorCode Nat)) (final : Reactor) :
    Ending → Prop
  | .pause => ∃ pointer, returns fd final.log = earlier ++ [.ok pointer] ∧ final.strings pointer = m
  | .close => returns fd final.log = earlier ++ [.error (.socket .eofError)]

theorem At.last {state : Reactor} (position : At fd m [] state)
    (running : state.requestMessage fd ≠ none) (ending : Ending) {events : List Event}
    (foreign : events.filter (·.fd = fd) = [])
    (allowed : machine.Allowed state (ending.event fd :: events)) :
    Concluded fd m (returns fd state.log) (machine.exec state (ending.event fd :: events)) ending := by
  obtain ⟨pointer, entry⟩ := Option.ne_none_iff_exists'.mp running
  have whole : pending fd state.log = m := by simpa using position.rest
  have unseen := exec_unseen foreign (machine.next state (ending.event fd))
  cases ending with
  | close =>
    have log : (machine.next state (.read fd (.received []))).log =
        state.log ++ [.got fd [], .returned fd (.error (.socket .eofError))] := own_end entry valid
    have split : state.log ++ [.got fd [], .returned fd (.error (.socket .eofError))] =
        state.log ++ [.got fd []] ++ [.returned fd (.error (.socket .eofError))] := by simp
    change returns fd (machine.exec (machine.next state (.read fd (.received []))) events).log = _
    have same := unseen.returns
    rw [Ending.event, log, split, returns_returned, returns_got] at same
    exact same
  | pause =>
    have complete : crlfcrlf <:+ pending fd state.log := by
      rw [whole]
      exact message.ends
    have log : (machine.next state (.read fd (.failed eagain))).log =
        state.log ++ [.returned fd (.ok pointer)] := own_complete entry valid position.sound complete
    have same := unseen.returns
    rw [Ending.event, log, returns_returned] at same
    refine ⟨pointer, same, ?_⟩
    -- The string given out is kept as it is through whatever follows.
    obtain ⟨more, grown⟩ := exec_log_grows (machine.next state (.read fd (.failed eagain))) events
    rw [log, List.append_assoc, List.singleton_append] at grown
    have sound := sound_exec position.sound allowed
    exact (sound.shared.kept state.log fd pointer more grown.symm).content.trans whole

/-- The induction is on the steps of all descriptors. Those on others leave the position
as it is, those on this one move it along the body. -/
theorem concluded_of_run (ending : Ending) (events : List Event) {body : List Arrival}
    {state : Reactor} (position : At fd m body state) (allowed : machine.Allowed state events)
    (follows : Follows fd body ending state (events.filter (·.fd = fd))) :
    Concluded fd m
      (returns fd state.log ++ List.replicate (body.countP Arrival.isPause) uncompletedRequest)
      (machine.exec state events) ending := by
  induction events generalizing body state with
  | nil =>
    rw [List.filter_nil] at follows
    generalize steps : ([] : List Event) = rest at follows
    cases follows with
    | running _ => simp [reads] at steps
    | idle _ => cases steps
  | cons event events ih =>
    obtain ⟨enabled, later⟩ := allowed
    by_cases own : event.fd = fd
    · rw [List.filter_cons_of_pos (by simpa using own)] at follows
      generalize steps : event :: events.filter (·.fd = fd) = rest at follows
      cases follows with
      | idle inactive =>
        obtain ⟨rfl, rest⟩ := List.cons.inj steps
        obtain ⟨next, active, same⟩ := position.call inactive
        have concluded := ih next later (rest ▸ .running active)
        rwa [same] at concluded
      | running active =>
        cases body with
        | nil =>
          obtain ⟨rfl, foreign⟩ := List.cons.inj steps
          have concluded := position.last valid message active ending foreign ⟨enabled, later⟩
          simpa using concluded
        | cons first body =>
          obtain ⟨next, follows, same⟩ := position.arrival valid message active steps
          have concluded := ih next later follows
          rwa [same] at concluded
    · rw [List.filter_cons_of_neg (by simpa using own)] at follows
      have apart : fd ≠ event.fd := Ne.symm own
      have concluded := ih (position.foreign apart enabled) later (follows.foreign apart)
      have same : returns fd (machine.next state event).log = returns fd state.log :=
        (unseen_next state apart).returns
      rwa [same] at concluded

/-- The steps can be taken without those of any other descriptor between them. -/
theorem reads_allowed (ending : Ending) (body : List Arrival) {state : Reactor}
    (position : At fd m body state) (active : state.requestMessage fd ≠ none) :
    machine.Allowed state (reads fd body ending) := by
  induction body generalizing state with
  | nil =>
    cases ending with
    | pause => exact ⟨active, trivial⟩
    | close => exact ⟨active, trivial⟩
  | cons first body ih =>
    cases first with
    | chunk buf =>
      obtain ⟨next, still, _⟩ := position.chunk valid message active
      exact ⟨active, ih next still⟩
    | pause =>
      obtain ⟨next, inactive, _⟩ := position.pause valid message active
      obtain ⟨again, still, _⟩ := next.call inactive
      exact ⟨active, inactive, ih again still⟩

end Epoll

theorem reads_own (fd : Int) (body : List Arrival) (ending : Ending) :
    (reads fd body ending).filter (·.fd = fd) = reads fd body ending := by
  rw [List.filter_eq_self]
  intro event member
  rw [decide_eq_true_eq]
  rcases List.mem_append.mp member with inBody | last
  · obtain ⟨arrival, _, step⟩ := List.mem_flatMap.mp inBody
    cases arrival with
    | chunk buf =>
      rw [List.mem_singleton.mp step]
      rfl
    | pause => rcases List.mem_pair.mp step with rfl | rfl <;> rfl
  · rw [List.mem_singleton.mp last]
    cases ending <;> rfl

theorem Cut.nonempty {body : List Arrival} {m : Bytes} (cut : Cut body m) (buf : Bytes)
    (member : .chunk buf ∈ body) : buf ≠ [] := by
  rintro rfl
  exact absurd (cut.sizes [] member).1 (by decide)

theorem concluded_of_cut {body : List Arrival} {m : Bytes} (message : OneMessage m)
    (cut : Cut body m) (ending : Ending) {fd : Int} {start : Reactor} {events : List Event}
    (valid : 0 ≤ fd) (reached : machine.Reachable {} start) (idle : start.requestMessage fd = none)
    (fresh : awaiting fd start.log = false) (allowed : machine.Allowed start events)
    (steps : events.filter (·.fd = fd) = .call fd :: reads fd body ending) :
    Concluded fd m
      (returns fd start.log ++ List.replicate (body.countP Arrival.isPause) uncompletedRequest)
      (machine.exec start events) ending := by
  have sound := sound_of_reachable reached
  -- Nothing of an earlier message is left.
  have nothing : pending fd start.log = [] := by
    cases entry : start.uncompletedRequests fd with
    | none => exact ((sound.own fd).absent entry).1
    | some pointer =>
      have left := (sound.own fd).waiting pointer entry idle
      rw [fresh] at left
      cases left
  have position : At fd m body start :=
    ⟨sound, by rw [nothing, cut.whole]; rfl, cut.nonempty, cut.lastChunk⟩
  exact concluded_of_run valid message ending events position allowed (steps ▸ .idle idle)

theorem epollDelivers_of_pause {body : List Arrival} {m : Bytes} (message : OneMessage m)
    (cut : Cut body m) : EpollDelivers body .pause m :=
  fun _ _ _ valid reached idle fresh allowed steps =>
    concluded_of_cut message cut .pause valid reached idle fresh allowed steps

/-- The end of the stream is reported as an error, with the complete message at hand. -/
theorem not_epollDelivers_of_close {body : List Arrival} {m : Bytes} (message : OneMessage m)
    (cut : Cut body m) : ¬ EpollDelivers body .close m := by
  intro delivers
  have position : At 0 m body {} := ⟨sound_start, cut.whole, cut.nonempty, cut.lastChunk⟩
  obtain ⟨next, active, _⟩ := position.call rfl
  have allowed : machine.Allowed {} (.call 0 :: reads 0 body .close) :=
    ⟨rfl, reads_allowed (Int.le_refl 0) message .close body next active⟩
  have steps : (Event.call 0 :: reads 0 body .close).filter (·.fd = 0) =
      .call 0 :: reads 0 body .close := by
    rw [List.filter_cons_of_pos (by rfl), reads_own]
  obtain ⟨pointer, returned, _⟩ := delivers 0 {} _ (Int.le_refl 0) ⟨[], trivial, rfl⟩ rfl rfl allowed steps
  have concluded := concluded_of_cut message cut .close (Int.le_refl 0) ⟨[], trivial, rfl⟩ rfl rfl
    allowed steps
  have same := returned.symm.trans concluded
  simp at same

theorem chunks_of_arrivals {arrivals : List Arrival}
    (nonempty : ∀ buf, .chunk buf ∈ arrivals → buf ≠ []) :
    (chunks (arrivals.flatMap Arrival.outcomes)).flatten = (arrivals.map Arrival.bytes).flatten := by
  induction arrivals with
  | nil => rfl
  | cons first arrivals ih =>
    have later := ih fun buf member => nonempty buf (List.mem_cons_of_mem _ member)
    cases first with
    | chunk buf =>
      have present : buf ≠ [] := nonempty buf List.mem_cons_self
      have delivered : (RecvResult.received buf).chunk = some buf := if_neg present
      have longer : chunks (.received buf :: arrivals.flatMap Arrival.outcomes) =
          buf :: chunks (arrivals.flatMap Arrival.outcomes) :=
        List.filterMap_cons_some delivered
      change (chunks (.received buf :: arrivals.flatMap Arrival.outcomes)).flatten = _
      rw [longer, List.flatten_cons, later]
      rfl
    | pause => exact later

/-- Before the last chunk the io_uring reader waits for more. -/
theorem pending_of_arrivals {arrivals : List Arrival} {m rest : Bytes} (message : OneMessage m)
    (nonempty : ∀ buf, .chunk buf ∈ arrivals → buf ≠ [])
    (split : (arrivals.map Arrival.bytes).flatten ++ rest = m) (more : rest ≠ []) :
    Pending (arrivals.flatMap Arrival.outcomes) := by
  have whole := chunks_of_arrivals nonempty
  refine ⟨fun outcome member silent => ?_, ?_, fun count _ => ?_⟩
  · obtain ⟨arrival, arrived, step⟩ := List.mem_flatMap.mp member
    cases arrival with
    | chunk buf =>
      rw [List.mem_singleton.mp step] at silent
      have delivered : (RecvResult.received buf).chunk = some buf := if_neg (nonempty buf arrived)
      rw [delivered] at silent
      cases silent
    | pause => cases step
  · have total := congrArg List.length split
    have bound := message.fits
    rw [List.length_append] at total
    rw [whole]
    omega
  · have parts : (chunks (arrivals.flatMap Arrival.outcomes)).flatten =
        ((chunks (arrivals.flatMap Arrival.outcomes)).take count).flatten ++
          ((chunks (arrivals.flatMap Arrival.outcomes)).drop count).flatten := by
      rw [← List.flatten_append, List.take_append_drop]
    rw [← whole, parts, List.append_assoc] at split
    exact message.incomplete split.symm (List.append_ne_nil_of_right_ne_nil _ more)

/-- The io_uring reader returns with the last chunk, before it sees the end. -/
theorem uringDelivers {body : List Arrival} {m : Bytes} (message : OneMessage m) (cut : Cut body m)
    (ending : Ending) : UringDelivers body ending m := by
  intro outcomes view
  rw [← readLoop_filter_busy, view]
  have whole := cut.whole
  cases body using List.reverseRecOn with
  | nil =>
    obtain rfl : [] = m := whole
    exact absurd message.ends (by decide)
  | append_singleton front last =>
    cases last with
    | pause => exact absurd List.getLast?_concat cut.lastChunk
    | chunk buf =>
      have present : buf ≠ [] := cut.nonempty buf (by simp)
      have nonempty : ∀ other, .chunk other ∈ front → other ≠ [] :=
        fun other member => cut.nonempty other (List.mem_append_left _ member)
      rw [List.map_append, List.flatten_append] at whole
      have split : (front.map Arrival.bytes).flatten ++ buf = m := by
        simpa [Arrival.bytes] using whole
      have pending := pending_of_arrivals message nonempty split present
      have suspended := (readLoop_again_iff _ _).mpr ⟨pending, rfl⟩
      rw [chunks_of_arrivals nonempty] at suspended
      have fits : buf.length + (front.map Arrival.bytes).flatten.length ≤ 4096 := by
        have total := congrArg List.length split
        have bound := message.fits
        rw [List.length_append] at total
        omega
      have complete : crlfcrlf <:+ (front.map Arrival.bytes).flatten ++ buf := by
        rw [split]
        exact message.ends
      have outcomes : (front ++ [Arrival.chunk buf]).flatMap Arrival.outcomes ++ ending.outcomes =
          front.flatMap Arrival.outcomes ++ .received buf :: ending.outcomes := by
        simp [Arrival.outcomes]
      rw [outcomes, readLoop_append, suspended]
      simp only [readLoop, readRequest_complete present fits complete, split]

/-- Both readers deliver the message if and only if a moment without bytes follows it. At an
end of the stream there the epoll reader drops the message. -/
theorem both_deliver_iff_pause {body : List Arrival} {m : Bytes} (message : OneMessage m)
    (cut : Cut body m) (ending : Ending) :
    (EpollDelivers body ending m ∧ UringDelivers body ending m) ↔ ending = .pause := by
  constructor
  · rintro ⟨epoll, _⟩
    cases ending with
    | pause => rfl
    | close => exact absurd epoll (not_epollDelivers_of_close message cut)
  · rintro rfl
    exact ⟨epollDelivers_of_pause message cut, uringDelivers message cut .pause⟩

theorem rootMessage_one : OneMessage rootMessage where
  fits := by decide
  ends := by decide
  onlyLast := onlyLast_of_dropLast (by decide)

/-- The message in two chunks, with a pause between them. -/
def rootBody : List Arrival :=
  [.chunk (rootMessage.take 5), .pause, .chunk (rootMessage.drop 5)]

theorem rootBody_cut : Cut rootBody rootMessage where
  sizes buf member := by
    simp only [rootBody, List.mem_cons, Arrival.chunk.injEq, reduceCtorEq, List.not_mem_nil,
      or_false, false_or] at member
    rcases member with rfl | rfl <;> decide
  whole := by decide
  lastChunk := nofun

theorem root_delivered_by_both :
    EpollDelivers rootBody .pause rootMessage ∧ UringDelivers rootBody .pause rootMessage :=
  (both_deliver_iff_pause rootMessage_one rootBody_cut .pause).mpr rfl

theorem root_dropped_at_end :
    OneMessage rootMessage ∧ Cut rootBody rootMessage ∧
      ¬ (EpollDelivers rootBody .close rootMessage ∧ UringDelivers rootBody .close rootMessage) :=
  ⟨rootMessage_one, rootBody_cut,
    fun both => not_epollDelivers_of_close rootMessage_one rootBody_cut both.1⟩

end CoroMultiplex.Server
