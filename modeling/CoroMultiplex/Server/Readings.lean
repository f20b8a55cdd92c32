import CoroMultiplex.Server.Session

/-! The messages a session reads, and what becomes of each.

Every byte a session takes belongs to one message, and every response it starts
answers one.
-/

set_option autoImplicit false

namespace CoroMultiplex.Server

open Foundations Http

namespace RecvResult

def data : RecvResult → Bytes
  | .received buf => buf
  | .failed _ | .sqeBusy => []

/-- The end of the stream or a reset of the connection. -/
def EndsStream : RecvResult → Prop
  | .received buf => buf = []
  | .failed errno => ErrorCode.generic errno = .connectionReset
  | .sqeBusy => False

end RecvResult

inductive Fate where
  | completed | tooLong | cutOff | abandoned
  deriving DecidableEq

/-- What the next outcome makes of a message, by the bytes that have arrived of it. -/
def fate (request : Bytes) : RecvResult → Option Fate
  | .sqeBusy => none
  | .failed errno =>
    some (if ErrorCode.generic errno = .connectionReset then .cutOff else .abandoned)
  | .received buf =>
    if buf = [] then some .cutOff
    else if 4096 < request.length + buf.length then some .tooLong
    else if crlfcrlf <:+ request ++ buf then some .completed
    else none

structure Reading where
  bytes : Bytes
  fate : Fate

namespace Reading

/-- A message of at least one byte that was completed, too long or cut off. -/
def IsMessage (self : Reading) : Prop := self.bytes ≠ [] ∧ self.fate ≠ .abandoned

instance (self : Reading) : Decidable self.IsMessage := inferInstanceAs (Decidable (_ ∧ _))

/-- The request moved into the response task of a reading, if one is started. -/
def response (self : Reading) : Option HttpRequest :=
  match self.fate with
  | .completed => some (HttpRequest.parseResquest {} self.bytes).1
  | .tooLong | .cutOff => some { status := .badRequest }
  | .abandoned => none

end Reading

namespace Session

/-- The messages that end while a session processes some outcomes. -/
def readings (self : Session) : List RecvResult → List Reading
  | [] => []
  | outcome :: rest =>
    if self.returned then []
    else
      match fate self.request outcome with
      | none => (self.onRecv outcome).readings rest
      | some fate => ⟨self.request ++ outcome.data, fate⟩ :: (self.onRecv outcome).readings rest

/-- The session behind a reading: its response is started, and no further message is
read behind the end of the stream, an error, or a request to close. -/
def conclude (self : Session) (reading : Reading) : Session :=
  match reading.response with
  | none => { self with request := [], returned := true }
  | some request =>
    { request := []
      closed := self.closed || reading.fate == .cutOff
      tasks := self.tasks ++ [request]
      returned := closeSession request || (self.closed || reading.fate == .cutOff) }

/-- A suspended session has no complete message. -/
def Waiting (self : Session) : Prop := ¬ crlfcrlf <:+ self.request

theorem fresh_waiting (self : Session) (fresh : self.request = []) : self.Waiting := by
  rw [Waiting, fresh]
  decide

theorem atClose_waiting {self : Session} (waiting : self.Waiting) :
    atClose self.request = .error (.http .badRequest) := if_neg waiting

section

variable {self : Session} {outcome : RecvResult}

theorem onRecv_unfinished (suspended : self.returned = false) (waiting : self.Waiting)
    (goesOn : fate self.request outcome = none) :
    self.onRecv outcome = { self with request := self.request ++ outcome.data } ∧
      (self.onRecv outcome).Waiting := by
  cases outcome with
  | sqeBusy =>
    have step := @onRecv_again self .sqeBusy _ suspended rfl
    simp only [step, RecvResult.data, List.append_nil]
    exact ⟨trivial, waiting⟩
  | failed errno => cases goesOn
  | received buf =>
    rw [fate] at goesOn
    split at goesOn
    · cases goesOn
    · next present =>
      split at goesOn
      · cases goesOn
      · next fits =>
        split at goesOn
        · cases goesOn
        · next incomplete =>
          have step := onRecv_again suspended
            (readRequest_incomplete present (by omega) incomplete)
          rw [step]
          exact ⟨rfl, incomplete⟩

theorem readRequest_endsStream (ends : outcome.EndsStream) (request : Bytes) :
    readRequest request outcome = .returned true (atClose request) := by
  cases outcome with
  | received buf => exact if_pos (List.length_eq_zero_iff.mpr ends)
  | failed errno => exact if_pos ends
  | sqeBusy => exact ends.elim

theorem onRecv_finished (suspended : self.returned = false) (waiting : self.Waiting) {fate : Fate}
    (ends : Server.fate self.request outcome = some fate) :
    self.onRecv outcome = self.conclude ⟨self.request ++ outcome.data, fate⟩ := by
  cases outcome with
  | sqeBusy => cases ends
  | failed errno =>
    rw [Server.fate, Option.some.injEq] at ends
    split at ends
    · next reset =>
      have step := @readRequest_endsStream (.failed errno) reset self.request
      rw [onRecv_result suspended step, atClose_waiting waiting, ← ends]
      rfl
    · next other =>
      have step : readRequest self.request (.failed errno) =
          .returned false (.error (.generic errno)) := by
        simp [readRequest, other]
      rw [onRecv_result suspended step, ← ends]
      simp [conclude, Reading.response, clientHandle]
  | received buf =>
    rw [Server.fate] at ends
    split at ends
    · next ended =>
      have step := @readRequest_endsStream (.received buf) ended self.request
      rw [onRecv_result suspended step, atClose_waiting waiting, ← Option.some.inj ends]
      rfl
    · next present =>
      split at ends
      · next excess =>
        have step := @readRequest_overflow self.request buf present (by omega)
        rw [onRecv_result suspended step, ← Option.some.inj ends]
        rfl
      · next fits =>
        split at ends
        · next complete =>
          have step := readRequest_complete present (by omega) complete
          rw [onRecv_result suspended step, ← Option.some.inj ends]
          rfl
        · cases ends

theorem readings_returned (ended : self.returned = true) (outcomes : List RecvResult) :
    self.readings outcomes = [] := by
  cases outcomes <;> simp [readings, ended]

theorem readings_unfinished (suspended : self.returned = false)
    (goesOn : fate self.request outcome = none) (rest : List RecvResult) :
    self.readings (outcome :: rest) = (self.onRecv outcome).readings rest := by
  simp [readings, suspended, goesOn]

theorem readings_finished (suspended : self.returned = false) {fate : Fate}
    (ends : Server.fate self.request outcome = some fate) (rest : List RecvResult) :
    self.readings (outcome :: rest) =
      ⟨self.request ++ outcome.data, fate⟩ :: (self.onRecv outcome).readings rest := by
  simp [readings, suspended, ends]

theorem run_returned (ended : self.returned = true) (outcomes : List RecvResult) :
    self.run outcomes = self := by
  induction outcomes with
  | nil => rfl
  | cons outcome outcomes ih => rw [run_cons, onRecv_returned ended, ih]

theorem conclude_tasks (self : Session) (reading : Reading) :
    (self.conclude reading).tasks = self.tasks ++ reading.response.toList := by
  unfold conclude
  cases reading.response <;> simp

theorem conclude_request (self : Session) (reading : Reading) :
    (self.conclude reading).request = [] := by
  unfold conclude
  cases reading.response <;> rfl

theorem onRecv_waiting (waiting : self.Waiting) (outcome : RecvResult) :
    (self.onRecv outcome).Waiting := by
  cases suspended : self.returned with
  | true => rwa [onRecv_returned suspended]
  | false =>
    cases goesOn : fate self.request outcome with
    | none => exact (onRecv_unfinished suspended waiting goesOn).2
    | some fate =>
      rw [onRecv_finished suspended waiting goesOn]
      exact fresh_waiting _ (conclude_request _ _)

theorem run_waiting (waiting : self.Waiting) (outcomes : List RecvResult) :
    (self.run outcomes).Waiting := by
  induction outcomes generalizing self with
  | nil => exact waiting
  | cons outcome outcomes ih => exact ih (onRecv_waiting waiting outcome)

end

/-- The tasks a session starts are the responses of its readings. -/
theorem run_tasks {self : Session} (waiting : self.Waiting) (outcomes : List RecvResult) :
    (self.run outcomes).tasks =
      self.tasks ++ (self.readings outcomes).filterMap Reading.response := by
  induction outcomes generalizing self with
  | nil => simp [readings]
  | cons outcome outcomes ih =>
    have later := ih (onRecv_waiting waiting outcome)
    cases suspended : self.returned with
    | true => simp [readings_returned suspended, run_returned suspended]
    | false =>
      cases goesOn : fate self.request outcome with
      | none =>
        rw [run_cons, later, readings_unfinished suspended goesOn,
          (onRecv_unfinished suspended waiting goesOn).1]
      | some fate =>
        rw [run_cons, later, readings_finished suspended goesOn,
          onRecv_finished suspended waiting goesOn, conclude_tasks, List.filterMap_cons]
        cases Reading.response ⟨self.request ++ outcome.data, fate⟩ <;> simp

/-- The bytes a session takes of the connection. -/
def taken (self : Session) : List RecvResult → Bytes
  | [] => []
  | outcome :: rest =>
    if self.returned then [] else outcome.data ++ (self.onRecv outcome).taken rest

/-- Each of them belongs to one message, in the order of arrival. -/
theorem taken_eq_readings {self : Session} (waiting : self.Waiting) (outcomes : List RecvResult) :
    self.request ++ self.taken outcomes =
      ((self.readings outcomes).map Reading.bytes).flatten ++ (self.run outcomes).request := by
  induction outcomes generalizing self with
  | nil => simp [taken, readings]
  | cons outcome outcomes ih =>
    have later := ih (onRecv_waiting waiting outcome)
    cases suspended : self.returned with
    | true => simp [readings_returned suspended, run_returned suspended, taken, suspended]
    | false =>
      have head : self.taken (outcome :: outcomes) =
          outcome.data ++ (self.onRecv outcome).taken outcomes := by simp [taken, suspended]
      cases goesOn : fate self.request outcome with
      | none =>
        have step := (onRecv_unfinished suspended waiting goesOn).1
        rw [head, readings_unfinished suspended goesOn, run_cons, ← later, step, List.append_assoc]
      | some fate =>
        have fresh : (self.onRecv outcome).request = [] := by
          rw [onRecv_finished suspended waiting goesOn, conclude_request]
        rw [fresh, List.nil_append] at later
        rw [head, readings_finished suspended goesOn, run_cons, List.map_cons, List.flatten_cons,
          later]
        simp only [List.append_assoc]

theorem mem_readings_cons {self : Session} {outcome : RecvResult} {reading : Reading}
    (suspended : self.returned = false) (rest : List RecvResult) :
    reading ∈ self.readings (outcome :: rest) ↔
      (fate self.request outcome = some reading.fate ∧
        reading.bytes = self.request ++ outcome.data) ∨
      reading ∈ (self.onRecv outcome).readings rest := by
  cases goesOn : fate self.request outcome with
  | none => simp [readings_unfinished suspended goesOn]
  | some fate =>
    obtain ⟨bytes, ending⟩ := reading
    rw [readings_finished suspended goesOn, List.mem_cons, Reading.mk.injEq, Option.some.injEq,
      and_comm, @eq_comm _ ending]

/-- A reading ends at one outcome, processed while the session was suspended. -/
theorem mem_readings_iff {self : Session} {outcomes : List RecvResult} {reading : Reading} :
    reading ∈ self.readings outcomes ↔ ∃ before outcome after, outcomes = before ++ outcome :: after ∧
      (self.run before).returned = false ∧
      fate (self.run before).request outcome = some reading.fate ∧
      reading.bytes = (self.run before).request ++ outcome.data := by
  induction outcomes generalizing self with
  | nil => simp [readings]
  | cons first rest ih =>
    cases suspended : self.returned with
    | true => simp [readings_returned suspended, run_returned suspended, suspended]
    | false =>
      rw [mem_readings_cons suspended, ih]
      constructor
      · rintro (⟨ends, bytes⟩ | ⟨before, outcome, after, rfl, alive, ends, bytes⟩)
        · exact ⟨[], first, rest, rfl, suspended, ends, bytes⟩
        · exact ⟨first :: before, outcome, after, rfl, alive, ends, bytes⟩
      · rintro ⟨before, outcome, after, split, alive, ends, bytes⟩
        cases before with
        | nil =>
          cases split
          exact .inl ⟨ends, bytes⟩
        | cons other before =>
          cases split
          exact .inr ⟨before, outcome, after, rfl, alive, ends, bytes⟩

end Session

theorem fate_of_endsStream {outcome : RecvResult} (ends : outcome.EndsStream) (request : Bytes) :
    fate request outcome = some .cutOff ∧ outcome.data = [] := by
  cases outcome with
  | received buf => exact ⟨if_pos ends, ends⟩
  | failed errno => exact ⟨congrArg some (if_pos ends), rfl⟩
  | sqeBusy => exact ends.elim

theorem endsStream_of_fate {outcome : RecvResult} {request : Bytes} {ending : Fate}
    (ends : fate request outcome = some ending) (answered : ending ≠ .abandoned)
    (silent : outcome.data = []) : outcome.EndsStream := by
  cases outcome with
  | received buf => exact silent
  | failed errno =>
    by_cases reset : ErrorCode.generic errno = .connectionReset
    · exact reset
    · rw [fate, if_neg reset, Option.some.injEq] at ends
      exact absurd ends.symm answered
  | sqeBusy => cases ends

theorem Reading.response_isSome (reading : Reading) :
    reading.response.isSome = decide (reading.fate ≠ .abandoned) := by
  unfold response
  cases reading.fate <;> rfl

/-- A session starts as many responses as it read messages if and only if no end of
the stream and no reset is processed while nothing of a new request is buffered. -/
theorem responses_match_messages_iff (outcomes : List RecvResult) :
    (({} : Session).run outcomes).tasks.length =
        ((({} : Session).readings outcomes).filter (·.IsMessage)).length ↔
      ∀ before outcome after, outcomes = before ++ outcome :: after → outcome.EndsStream →
        (({} : Session).run before).returned = false → (({} : Session).run before).request ≠ [] := by
  have tasks := Session.run_tasks (Session.fresh_waiting {} rfl) outcomes
  have answered : (({} : Session).run outcomes).tasks.length =
      ((({} : Session).readings outcomes).filter (·.fate ≠ .abandoned)).length := by
    rw [tasks, List.nil_append, List.length_filterMap_eq_countP, List.countP_eq_length_filter]
    simp only [Reading.response_isSome]
  have messages : (({} : Session).readings outcomes).filter (·.IsMessage) =
      ((({} : Session).readings outcomes).filter (·.fate ≠ .abandoned)).filter (·.bytes ≠ []) := by
    rw [List.filter_filter]
    congr 1
    funext reading
    exact Bool.decide_and _ _
  rw [answered, messages, eq_comm, List.length_filter_eq_length_iff]
  constructor
  · intro filled before outcome after split ends alive empty
    obtain ⟨cut, silent⟩ := fate_of_endsStream ends (({} : Session).run before).request
    have member : ⟨[], .cutOff⟩ ∈ ({} : Session).readings outcomes :=
      Session.mem_readings_iff.mpr ⟨before, outcome, after, split, alive, cut, by simp [empty, silent]⟩
    have kept := filled _ (List.mem_filter.mpr ⟨member, by simp⟩)
    exact absurd rfl (of_decide_eq_true kept)
  · intro buffered reading member
    obtain ⟨member, kept⟩ := List.mem_filter.mp member
    obtain ⟨before, outcome, after, split, alive, ends, bytes⟩ := Session.mem_readings_iff.mp member
    refine decide_eq_true fun empty => ?_
    obtain ⟨nothing, silent⟩ := List.append_eq_nil_iff.mp (bytes.symm.trans empty)
    have ended := endsStream_of_fate ends (of_decide_eq_true kept) silent
    exact buffered before outcome after split ended alive nothing

/-- A client that connects and closes is answered, and so is a reset connection. -/
theorem closed_connection_is_answered :
    (({} : Session).run [.received []]).tasks.length ≠
        ((({} : Session).readings [.received []]).filter (·.IsMessage)).length ∧
      (({} : Session).run [.failed 104]).tasks.length ≠
        ((({} : Session).readings [.failed 104]).filter (·.IsMessage)).length := by
  decide

end CoroMultiplex.Server
