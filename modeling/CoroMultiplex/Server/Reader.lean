import CoroMultiplex.Server.Readings

/-! The loop of `readRequest`, along any sequence of recv outcomes.

At the head of the loop the bytes that have arrived are never a complete message: a
complete one is returned in the iteration that appends its last chunk.
-/

set_option autoImplicit false

namespace CoroMultiplex.Server

open Foundations Http

/-- What one outcome makes of the loop. -/
inductive ReadOutcome (request : Bytes) : RecvResult → ReadStep → Prop
  | busy : ReadOutcome request .sqeBusy (.again request)
  | ended (outcome : RecvResult) (ends : outcome.EndsStream) :
      ReadOutcome request outcome (.returned true (atClose request))
  | failed (errno : Nat) (other : ErrorCode.generic errno ≠ .connectionReset) :
      ReadOutcome request (.failed errno) (.returned false (.error (.generic errno)))
  | tooLong (buf : Bytes) (present : buf ≠ []) (excess : 4096 < request.length + buf.length) :
      ReadOutcome request (.received buf) (.returned false (.error (.http .badRequest)))
  | completed (buf : Bytes) (present : buf ≠ []) (fits : request.length + buf.length ≤ 4096)
      (complete : crlfcrlf <:+ request ++ buf) :
      ReadOutcome request (.received buf) (.returned false (.ok (request ++ buf)))
  | chunk (buf : Bytes) (present : buf ≠ []) (fits : request.length + buf.length ≤ 4096)
      (incomplete : ¬ crlfcrlf <:+ request ++ buf) :
      ReadOutcome request (.received buf) (.again (request ++ buf))

theorem readRequest_outcome (request : Bytes) (outcome : RecvResult) :
    ReadOutcome request outcome (readRequest request outcome) := by
  cases outcome with
  | sqeBusy => exact .busy
  | failed errno =>
    by_cases reset : ErrorCode.generic errno = .connectionReset
    · rw [@Session.readRequest_endsStream (.failed errno) reset]
      exact .ended (.failed errno) reset
    · rw [readRequest, if_neg reset]
      exact .failed errno reset
  | received buf =>
    by_cases present : buf = []
    · rw [@Session.readRequest_endsStream (.received buf) present]
      exact .ended (.received buf) present
    · by_cases fits : request.length + buf.length ≤ 4096
      · by_cases complete : crlfcrlf <:+ request ++ buf
        · rw [readRequest_complete present (by omega) complete]
          exact .completed buf present fits complete
        · rw [readRequest_incomplete present (by omega) complete]
          exact .chunk buf present fits complete
      · rw [readRequest_overflow present (by omega)]
        exact .tooLong buf present (by omega)

/-- The loop from its head: the bytes it goes on with, or what it returns. Outcomes
behind the return are not consumed. -/
def readLoop (request : Bytes) : List RecvResult → ReadStep
  | [] => .again request
  | outcome :: outcomes =>
    match readRequest request outcome with
    | .again request => readLoop request outcomes
    | .returned closed result => .returned closed result

/-- The outcomes make a fresh call return, by the last of them. -/
def Returns (outcomes : List RecvResult) (closed : Bool) (result : Except ErrorCode Bytes) : Prop :=
  ∃ before last request, outcomes = before ++ [last] ∧ readLoop [] before = .again request ∧
    readRequest request last = .returned closed result

/-- The chunk an outcome delivers. -/
def RecvResult.chunk : RecvResult → Option Bytes
  | .received buf => if buf = [] then none else some buf
  | .failed _ | .sqeBusy => none

def chunks (outcomes : List RecvResult) : List Bytes := outcomes.filterMap RecvResult.chunk

theorem chunks_concat (outcomes : List RecvResult) (last : RecvResult) :
    chunks (outcomes ++ [last]) = chunks outcomes ++ last.chunk.toList := by
  simp only [chunks, List.filterMap_append, List.filterMap_cons, List.filterMap_nil]
  cases last.chunk <;> rfl

theorem chunks_silent (outcomes : List RecvResult) {last : RecvResult} (silent : last.chunk = none) :
    chunks (outcomes ++ [last]) = chunks outcomes := by
  rw [chunks_concat, silent]
  exact List.append_nil _

theorem chunks_received (outcomes : List RecvResult) {buf : Bytes} (present : buf ≠ []) :
    chunks (outcomes ++ [.received buf]) = chunks outcomes ++ [buf] := by
  have delivered : (RecvResult.received buf).chunk = some buf := if_neg present
  rw [chunks_concat, delivered]
  rfl

theorem readLoop_append (request : Bytes) (first rest : List RecvResult) :
    readLoop request (first ++ rest) =
      match readLoop request first with
      | .again request => readLoop request rest
      | .returned closed result => .returned closed result := by
  induction first generalizing request with
  | nil => rfl
  | cons outcome first ih =>
    rw [List.cons_append, readLoop, readLoop]
    cases readRequest request outcome with
    | again request => exact ih request
    | returned closed result => rfl

theorem readLoop_concat {before : List RecvResult} {request : Bytes}
    (pending : readLoop [] before = .again request) (last : RecvResult) :
    readLoop [] (before ++ [last]) = readRequest request last := by
  rw [readLoop_append, pending]
  simp only [readLoop]
  cases readRequest request last <;> rfl

/-- What has arrived is no message yet, and no outcome has stopped the loop. -/
structure Pending (outcomes : List RecvResult) : Prop where
  quiet : ∀ outcome ∈ outcomes, outcome.chunk = none → outcome = .sqeBusy
  fits : (chunks outcomes).flatten.length ≤ 4096
  incomplete : ∀ count ≤ (chunks outcomes).length,
    ¬ crlfcrlf <:+ ((chunks outcomes).take count).flatten

theorem pending_nil : Pending [] where
  quiet _ member := nomatch member
  fits := Nat.zero_le _
  incomplete count _ := by
    have nothing : (chunks []).take count = [] := List.take_nil
    rw [nothing]
    decide

theorem pending_busy_iff (outcomes : List RecvResult) :
    Pending (outcomes ++ [.sqeBusy]) ↔ Pending outcomes := by
  have same : chunks (outcomes ++ [.sqeBusy]) = chunks outcomes := chunks_silent outcomes rfl
  constructor
  · intro pending
    exact
      { quiet := fun outcome member => pending.quiet outcome (List.mem_append_left _ member)
        fits := same ▸ pending.fits
        incomplete := same ▸ pending.incomplete }
  · intro pending
    refine ⟨fun outcome member silent => ?_, same.symm ▸ pending.fits,
      same.symm ▸ pending.incomplete⟩
    rcases List.mem_append.mp member with before | last
    · exact pending.quiet outcome before silent
    · exact List.mem_singleton.mp last

theorem pending_chunk_iff (outcomes : List RecvResult) {buf : Bytes} (present : buf ≠ []) :
    Pending (outcomes ++ [.received buf]) ↔
      Pending outcomes ∧ (chunks outcomes).flatten.length + buf.length ≤ 4096 ∧
        ¬ crlfcrlf <:+ (chunks outcomes).flatten ++ buf := by
  have delivered : (RecvResult.received buf).chunk = some buf := if_neg present
  have longer := chunks_received outcomes present
  have whole : (chunks outcomes ++ [buf]).flatten = (chunks outcomes).flatten ++ buf := by simp
  constructor
  · intro pending
    have fits := pending.fits
    have incomplete := pending.incomplete
    rw [longer] at fits incomplete
    rw [whole, List.length_append] at fits
    refine ⟨⟨fun outcome member => ?_, by omega, fun count bound => ?_⟩, fits, ?_⟩
    · exact pending.quiet outcome (List.mem_append_left _ member)
    · have earlier := incomplete count (by rw [List.length_append]; omega)
      rwa [List.take_append_of_le_length bound] at earlier
    · have last := incomplete _ (Nat.le_refl _)
      rwa [List.take_length, whole] at last
  · rintro ⟨pending, fits, incomplete⟩
    refine ⟨fun outcome member silent => ?_, ?_, fun count bound => ?_⟩
    · rcases List.mem_append.mp member with before | last
      · exact pending.quiet outcome before silent
      · rw [List.mem_singleton.mp last, delivered] at silent
        cases silent
    · rwa [longer, whole, List.length_append]
    · rw [longer] at bound ⊢
      rw [List.length_append, List.length_singleton] at bound
      by_cases earlier : count ≤ (chunks outcomes).length
      · rw [List.take_append_of_le_length earlier]
        exact pending.incomplete count earlier
      · rw [List.take_of_length_le (by simp; omega), whole]
        exact incomplete

/-- The loop is suspended with the bytes that have arrived, as long as they are no
message, and only then. -/
theorem readLoop_again_iff (outcomes : List RecvResult) (request : Bytes) :
    readLoop [] outcomes = .again request ↔
      Pending outcomes ∧ request = (chunks outcomes).flatten := by
  induction outcomes using List.reverseRecOn generalizing request with
  | nil =>
    constructor
    · intro same
      cases same
      exact ⟨pending_nil, rfl⟩
    · rintro ⟨_, rfl⟩
      rfl
  | append_singleton outcomes last ih =>
    constructor
    · intro suspended
      cases earlier : readLoop [] outcomes with
      | returned closed result =>
        rw [readLoop_append, earlier] at suspended
        cases suspended
      | again before =>
        obtain ⟨pending, rfl⟩ := (ih before).mp earlier
        rw [readLoop_concat earlier] at suspended
        have step := readRequest_outcome (chunks outcomes).flatten last
        rw [suspended] at step
        cases step with
        | busy => exact ⟨(pending_busy_iff outcomes).mpr pending, by rw [chunks_silent _ rfl]⟩
        | chunk buf present fits incomplete =>
          exact ⟨(pending_chunk_iff outcomes present).mpr ⟨pending, fits, incomplete⟩,
            by simp [chunks_received outcomes present]⟩
    · rintro ⟨pending, rfl⟩
      cases last with
      | sqeBusy =>
        have earlier := (ih _).mpr ⟨(pending_busy_iff outcomes).mp pending, rfl⟩
        rw [readLoop_concat earlier, chunks_silent _ rfl]
        rfl
      | failed errno =>
        have impossible := pending.quiet (.failed errno) (by simp) rfl
        cases impossible
      | received buf =>
        by_cases present : buf = []
        · have impossible := pending.quiet (.received buf) (by simp) (if_pos present)
          cases impossible
        · obtain ⟨before, fits, incomplete⟩ := (pending_chunk_iff outcomes present).mp pending
          have earlier := (ih _).mpr ⟨before, rfl⟩
          rw [readLoop_concat earlier, readRequest_incomplete present (by omega) incomplete]
          simp [chunks_received outcomes present]

/-- What a call returns, by the outcomes that make it return. -/
structure ReadSpec (outcomes : List RecvResult) (closed : Bool) (result : Except ErrorCode Bytes) :
    Prop where
  message : ∀ m, result = .ok m ↔
    m = (chunks outcomes).flatten ∧ crlfcrlf <:+ m ∧ m.length ≤ 4096 ∧
      ∀ count < (chunks outcomes).length, ¬ crlfcrlf <:+ ((chunks outcomes).take count).flatten
  badRequest : result = .error (.http .badRequest) ↔
    (∃ last, outcomes.getLast? = some last ∧ last.EndsStream) ∨
      4096 < (chunks outcomes).flatten.length
  passedOn : ∀ errno, result = .error (.generic errno) ↔
    outcomes.getLast? = some (.failed errno) ∧ ErrorCode.generic errno ≠ .connectionReset
  closes : closed = true ↔ ∃ last, outcomes.getLast? = some last ∧ last.EndsStream

theorem Pending.incomplete_whole {outcomes : List RecvResult} (pending : Pending outcomes) :
    ¬ crlfcrlf <:+ (chunks outcomes).flatten := by
  have last := pending.incomplete _ (Nat.le_refl _)
  rwa [List.take_length] at last

theorem chunk_of_endsStream {outcome : RecvResult} (ends : outcome.EndsStream) :
    outcome.chunk = none := by
  cases outcome with
  | received buf => exact if_pos ends
  | failed errno => rfl
  | sqeBusy => rfl

theorem endsStream_concat (before : List RecvResult) (last : RecvResult) :
    (∃ final, (before ++ [last]).getLast? = some final ∧ final.EndsStream) ↔ last.EndsStream := by
  simp

section

variable {before : List RecvResult} (pending : Pending before)

include pending

theorem spec_ended {last : RecvResult} (ends : last.EndsStream) :
    ReadSpec (before ++ [last]) true (.error (.http .badRequest)) := by
  have same := chunks_silent before (chunk_of_endsStream ends)
  refine ⟨fun m => ?_, ?_, fun errno => ?_, ?_⟩
  · refine ⟨nofun, ?_⟩
    rintro ⟨rfl, complete, _⟩
    rw [same] at complete
    exact absurd complete pending.incomplete_whole
  · exact ⟨fun _ => .inl ((endsStream_concat before last).mpr ends), fun _ => rfl⟩
  · refine ⟨nofun, ?_⟩
    rintro ⟨isLast, other⟩
    rw [List.getLast?_concat, Option.some.injEq] at isLast
    rw [isLast] at ends
    exact absurd ends other
  · exact ⟨fun _ => (endsStream_concat before last).mpr ends, fun _ => rfl⟩

theorem spec_failed {errno : Nat} (other : ErrorCode.generic errno ≠ .connectionReset) :
    ReadSpec (before ++ [.failed errno]) false (.error (.generic errno)) := by
  have same := @chunks_silent before (.failed errno) rfl
  have goesOn : ¬ ∃ last, (before ++ [RecvResult.failed errno]).getLast? = some last ∧
      last.EndsStream := fun ended => other ((endsStream_concat before _).mp ended)
  refine ⟨fun m => ?_, ?_, fun otherErrno => ?_, ?_⟩
  · refine ⟨nofun, ?_⟩
    rintro ⟨rfl, complete, _⟩
    rw [same] at complete
    exact absurd complete pending.incomplete_whole
  · refine ⟨nofun, ?_⟩
    rintro (ended | excess)
    · exact absurd ended goesOn
    · rw [same] at excess
      exact absurd pending.fits (Nat.not_le.mpr excess)
  · rw [List.getLast?_concat]
    constructor
    · intro passed
      cases passed
      exact ⟨rfl, other⟩
    · rintro ⟨isLast, _⟩
      cases isLast
      rfl
  · exact ⟨nofun, fun ended => absurd ended goesOn⟩

omit pending in
theorem not_ended_received {buf : Bytes} (present : buf ≠ []) :
    ¬ ∃ last, (before ++ [RecvResult.received buf]).getLast? = some last ∧ last.EndsStream :=
  fun ended => present ((endsStream_concat before _).mp ended)

omit pending in
theorem not_failed_received (buf : Bytes) (errno : Nat) :
    ¬ ((before ++ [RecvResult.received buf]).getLast? = some (.failed errno) ∧
      ErrorCode.generic errno ≠ .connectionReset) := by
  rintro ⟨isLast, _⟩
  rw [List.getLast?_concat] at isLast
  cases isLast

omit pending in
theorem spec_tooLong {buf : Bytes} (present : buf ≠ [])
    (excess : 4096 < (chunks before).flatten.length + buf.length) :
    ReadSpec (before ++ [.received buf]) false (.error (.http .badRequest)) := by
  have total : 4096 < (chunks (before ++ [.received buf])).flatten.length := by
    rw [chunks_received before present]
    simpa using excess
  refine ⟨fun m => ?_, ?_, fun errno => ?_, ?_⟩
  · refine ⟨nofun, ?_⟩
    rintro ⟨rfl, _, fits, _⟩
    exact absurd fits (Nat.not_le.mpr total)
  · exact ⟨fun _ => .inr total, fun _ => rfl⟩
  · exact ⟨nofun, fun failed => absurd failed (not_failed_received buf errno)⟩
  · exact ⟨nofun, fun ended => absurd ended (not_ended_received present)⟩

theorem spec_completed {buf : Bytes} (present : buf ≠ [])
    (fits : (chunks before).flatten.length + buf.length ≤ 4096)
    (complete : crlfcrlf <:+ (chunks before).flatten ++ buf) :
    ReadSpec (before ++ [.received buf]) false (.ok ((chunks before).flatten ++ buf)) := by
  have longer := chunks_received before present
  have whole : (chunks (before ++ [.received buf])).flatten = (chunks before).flatten ++ buf := by
    rw [longer]
    simp
  refine ⟨fun m => ?_, ?_, fun errno => ?_, ?_⟩
  · rw [whole]
    constructor
    · intro returned
      obtain rfl := Except.ok.inj returned
      refine ⟨rfl, complete, by rwa [List.length_append], fun count bound => ?_⟩
      rw [longer, List.length_append, List.length_singleton] at bound
      rw [longer, List.take_append_of_le_length (Nat.le_of_lt_succ bound)]
      exact pending.incomplete count (Nat.le_of_lt_succ bound)
    · rintro ⟨rfl, _⟩
      rfl
  · refine ⟨nofun, ?_⟩
    rintro (ended | excess)
    · exact absurd ended (not_ended_received present)
    · rw [whole, List.length_append] at excess
      exact absurd fits (Nat.not_le.mpr excess)
  · exact ⟨nofun, fun failed => absurd failed (not_failed_received buf errno)⟩
  · exact ⟨nofun, fun ended => absurd ended (not_ended_received present)⟩

end

theorem atClose_pending {outcomes : List RecvResult} (pending : Pending outcomes) :
    atClose (chunks outcomes).flatten = .error (.http .badRequest) := if_neg pending.incomplete_whole

theorem spec_of_returns {outcomes : List RecvResult} {closed : Bool}
    {result : Except ErrorCode Bytes} (returns : Returns outcomes closed result) :
    ReadSpec outcomes closed result := by
  obtain ⟨before, last, request, rfl, suspended, returned⟩ := returns
  obtain ⟨pending, rfl⟩ := (readLoop_again_iff before request).mp suspended
  have step := readRequest_outcome (chunks before).flatten last
  rw [returned] at step
  cases step with
  | ended _ ends =>
    rw [atClose_pending pending]
    exact spec_ended pending ends
  | failed errno other => exact spec_failed pending other
  | tooLong buf present excess => exact spec_tooLong present excess
  | completed buf present fits complete => exact spec_completed pending present fits complete

def RecvResult.isBusy : RecvResult → Bool
  | .sqeBusy => true
  | .received _ | .failed _ => false

theorem readLoop_filter_busy (request : Bytes) (outcomes : List RecvResult) :
    readLoop request (outcomes.filter (!·.isBusy)) = readLoop request outcomes := by
  induction outcomes generalizing request with
  | nil => rfl
  | cons outcome outcomes ih =>
    cases outcome with
    | sqeBusy => exact ih request
    | failed errno =>
      rw [List.filter_cons_of_pos (by rfl), readLoop, readLoop]
      simp only [ih]
    | received buf =>
      rw [List.filter_cons_of_pos (by rfl), readLoop, readLoop]
      simp only [ih]

/-- The loop returns by the first outcome that ends it. -/
theorem readLoop_returned_iff (outcomes : List RecvResult) (closed : Bool)
    (result : Except ErrorCode Bytes) :
    readLoop [] outcomes = .returned closed result ↔
      ∃ taken, taken <+: outcomes ∧ Returns taken closed result := by
  constructor
  · intro returned
    induction outcomes using List.reverseRecOn with
    | nil => cases returned
    | append_singleton outcomes last ih =>
      cases earlier : readLoop [] outcomes with
      | again request =>
        rw [readLoop_concat earlier] at returned
        exact ⟨outcomes ++ [last], List.prefix_rfl, outcomes, last, request, rfl, earlier, returned⟩
      | returned before already =>
        rw [readLoop_append, earlier] at returned
        obtain ⟨taken, first, returns⟩ := ih (earlier.trans returned)
        exact ⟨taken, first.trans (List.prefix_append ..), returns⟩
  · rintro ⟨taken, ⟨rest, rfl⟩, before, last, request, rfl, suspended, returned⟩
    rw [readLoop_append, readLoop_concat suspended, returned]

/-- A call that has not returned is still waiting for its message. -/
theorem returns_of_not_pending {outcomes : List RecvResult} (ended : ¬ Pending outcomes) :
    ∃ taken closed result, taken <+: outcomes ∧ Returns taken closed result ∧
      readLoop [] outcomes = .returned closed result := by
  cases after : readLoop [] outcomes with
  | again request => exact absurd ((readLoop_again_iff outcomes request).mp after).1 ended
  | returned closed result =>
    obtain ⟨taken, first, returns⟩ := (readLoop_returned_iff outcomes closed result).mp after
    exact ⟨taken, closed, result, first, returns, rfl⟩

/-- `readRequest` meets its specification for every sequence of outcomes: what it returns
is decided by the chunks and the last outcome, a busy submission queue changes nothing,
and at no iteration is the message complete already, so that the two returns of a message
on a closed stream are never taken. It goes on exactly as long as neither the stream nor
the room for the message has ended, no error has come and no message is complete. -/
theorem readRequest_meets_spec :
    (∀ outcomes closed result, Returns outcomes closed result → ReadSpec outcomes closed result) ∧
    (∀ request outcomes,
      readLoop request (outcomes.filter (!·.isBusy)) = readLoop request outcomes) ∧
    (∀ outcomes request, readLoop [] outcomes = .again request → ¬ crlfcrlf <:+ request) ∧
    (∀ outcomes request, readLoop [] outcomes = .again request ↔
      Pending outcomes ∧ request = (chunks outcomes).flatten) ∧
    (∀ outcomes, ¬ Pending outcomes → ∃ taken closed result, taken <+: outcomes ∧
      Returns taken closed result ∧ readLoop [] outcomes = .returned closed result) := by
  refine ⟨fun _ _ _ returns => spec_of_returns returns, readLoop_filter_busy, ?_,
    readLoop_again_iff, fun _ ended => returns_of_not_pending ended⟩
  intro outcomes request suspended
  obtain ⟨pending, rfl⟩ := (readLoop_again_iff outcomes request).mp suspended
  exact pending.incomplete_whole

def rootMessage : Bytes := bytes "GET / HTTP/1.1\r\n\r\n"

/-- The message comes in two chunks, with a busy submission queue before each of them and
the end of the stream behind. -/
def rootOutcomes : List RecvResult :=
  [.sqeBusy, .received (bytes "GET / HTTP"), .sqeBusy, .received (bytes "/1.1\r\n\r\n"), .received []]

theorem rootMessage_read :
    readLoop [] rootOutcomes = .returned false (.ok rootMessage) ∧
      ReadSpec (rootOutcomes.take 4) false (.ok rootMessage) ∧
      ∃ taken closed result, taken <+: rootOutcomes ∧ Returns taken closed result ∧
        readLoop [] rootOutcomes = .returned closed result := by
  obtain ⟨spec, _, _, _, returns⟩ := readRequest_meets_spec
  have busy : ∀ request, readRequest request .sqeBusy = .again request := fun _ => rfl
  have first : readRequest [] (.received (bytes "GET / HTTP")) = .again (bytes "GET / HTTP") :=
    readRequest_incomplete (by decide) (by decide) (by decide)
  have last : readRequest (bytes "GET / HTTP") (.received (bytes "/1.1\r\n\r\n")) =
      .returned false (.ok rootMessage) :=
    readRequest_complete (by decide) (by decide) (by decide)
  refine ⟨by simp only [rootOutcomes, readLoop, busy, first, last],
    spec (rootOutcomes.take 4) false (.ok rootMessage) ?_, returns rootOutcomes ?_⟩
  · refine ⟨rootOutcomes.take 3, .received (bytes "/1.1\r\n\r\n"), bytes "GET / HTTP", rfl, ?_, last⟩
    simp only [rootOutcomes, List.take, readLoop, busy, first]
  · intro pending
    have quiet := pending.quiet (.received []) (by simp [rootOutcomes]) rfl
    cases quiet

end CoroMultiplex.Server
