import CoroMultiplex.Foundations.Sequence
import CoroMultiplex.Server.Readings

/-! What follows a request that is rejected for its length. -/

set_option autoImplicit false

namespace CoroMultiplex.Server

open Foundations Foundations.Sequence Http

/-- The length of the request a stream begins with, up to and including its first
blank line. -/
def extent (stream : Bytes) : Nat :=
  match find crlfcrlf stream with
  | none => stream.length
  | some position => position + crlfcrlf.length

/-- No data arrives before the connection ends or fails. -/
def Silent : List RecvResult → Prop
  | [] => True
  | .sqeBusy :: rest => Silent rest
  | .received buf :: _ => buf = []
  | .failed _ :: _ => True

/-- Nothing of the request behind some bytes is left for what follows them, exactly
when its blank line is among them or nothing follows. -/
theorem extent_le_iff (bytes later : Bytes) :
    extent (bytes ++ later) ≤ bytes.length ↔ crlfcrlf <:+: bytes ∨ later = [] := by
  rw [← find_within_iff crlfcrlf bytes later, extent]
  cases located : find crlfcrlf (bytes ++ later) with
  | none =>
    simp only [List.length_append]
    constructor
    · intro within
      exact .inr (List.length_eq_zero_iff.mp (by omega))
    · rintro (⟨_, impossible, _⟩ | empty)
      · cases impossible
      · simp [empty]
  | some position =>
    constructor
    · intro within
      exact .inl ⟨position, rfl, within⟩
    · rintro (⟨_, same, within⟩ | empty)
      · cases same
        exact within
      · have bound := find_bound located
        simpa [empty] using bound

namespace Session

theorem taken_of_returned {self : Session} (ended : self.returned = true)
    (outcomes : List RecvResult) : self.taken outcomes = [] := by
  cases outcomes <;> simp [taken, ended]

/-- A suspended session takes nothing exactly when nothing arrives. -/
theorem taken_eq_nil_iff {self : Session} (suspended : self.returned = false)
    (waiting : self.Waiting) (outcomes : List RecvResult) :
    self.taken outcomes = [] ↔ Silent outcomes := by
  induction outcomes with
  | nil => simp [taken, Silent]
  | cons outcome rest ih =>
    have head : self.taken (outcome :: rest) =
        outcome.data ++ (self.onRecv outcome).taken rest := by simp [taken, suspended]
    cases outcome with
    | sqeBusy =>
      have same : self.onRecv .sqeBusy = self := by
        rw [(onRecv_unfinished suspended waiting rfl).1]
        simp [RecvResult.data]
      rw [head, same, RecvResult.data, List.nil_append, ih, Silent]
    | received buf =>
      rw [head, List.append_eq_nil_iff, RecvResult.data, Silent]
      constructor
      · exact And.left
      · intro empty
        have ended : (self.onRecv (.received buf)).returned = true := by
          have ends : RecvResult.EndsStream (.received buf) := empty
          rw [onRecv_finished suspended waiting (fate_of_endsStream ends self.request).1]
          simp [conclude, Reading.response]
        exact ⟨empty, taken_of_returned ended rest⟩
    | failed errno =>
      have ended : (self.onRecv (.failed errno)).returned = true := by
        rw [onRecv_finished suspended waiting rfl, conclude, Reading.response]
        by_cases reset : ErrorCode.generic errno = .connectionReset <;> simp [reset]
      rw [head, taken_of_returned ended]
      simp [RecvResult.data, Silent]

theorem onRecv_closed {self : Session} (waiting : self.Waiting)
    (ends : self.closed = true → self.returned = true) (outcome : RecvResult)
    (closed : (self.onRecv outcome).closed = true) : (self.onRecv outcome).returned = true := by
  cases suspended : self.returned with
  | true => rwa [onRecv_returned suspended]
  | false =>
    cases goesOn : fate self.request outcome with
    | none =>
      rw [(onRecv_unfinished suspended waiting goesOn).1] at closed ⊢
      exact ends closed
    | some fate =>
      rw [onRecv_finished suspended waiting goesOn, conclude] at closed ⊢
      cases response : Reading.response ⟨self.request ++ outcome.data, fate⟩ with
      | none => rfl
      | some request =>
        simp only [response] at closed ⊢
        simp [closed]

/-- A session that goes on reading has not seen the end of the stream. -/
theorem run_open {self : Session} (waiting : self.Waiting)
    (ends : self.closed = true → self.returned = true) (outcomes : List RecvResult) :
    (self.run outcomes).closed = true → (self.run outcomes).returned = true := by
  induction outcomes generalizing self with
  | nil => exact ends
  | cons outcome outcomes ih =>
    exact ih (onRecv_waiting waiting outcome) (onRecv_closed waiting ends outcome)

end Session

/-- The bytes that belong to other messages read behind an outcome. -/
def readLater (self : Session) (after : List RecvResult) : Bytes :=
  ((self.readings after).map Reading.bytes).flatten ++ (self.run after).request

/-- The chunk that makes a request too long is answered once, with a 400, and no byte
of this request is read as part of another one. -/
structure Contained (s : Session) (buf : Bytes) (after : List RecvResult) : Prop where
  answer : (s.onRecv (.received buf)).tasks = s.tasks ++ [{ status := .badRequest }]
  whole : extent (s.request ++ buf ++ readLater (s.onRecv (.received buf)) after) ≤
    (s.request ++ buf).length

theorem contained_iff {s : Session} (suspended : s.returned = false) (waiting : s.Waiting)
    (alive : s.closed = false) {buf : Bytes} (present : buf ≠ [])
    (excess : 4096 < buf.length + s.request.length) (after : List RecvResult) :
    Contained s buf after ↔ crlfcrlf <:+: s.request ++ buf ∨ Silent after := by
  have tooLong : fate s.request (.received buf) = some .tooLong := by
    rw [fate, if_neg present, if_pos (by omega)]
  have next : s.onRecv (.received buf) = { s with
      request := [], closed := false, tasks := s.tasks ++ [{ status := .badRequest }] } := by
    rw [Session.onRecv_finished suspended waiting tooLong]
    simp [Session.conclude, Reading.response, Session.closeSession, alive, suspended]
  have fresh : (s.onRecv (.received buf)).Waiting := Session.onRecv_waiting waiting _
  have goesOn : (s.onRecv (.received buf)).returned = false := by rw [next, suspended]
  have later : readLater (s.onRecv (.received buf)) after = (s.onRecv (.received buf)).taken after := by
    rw [readLater, ← Session.taken_eq_readings fresh, next, List.nil_append]
  constructor
  · intro contained
    have whole := contained.whole
    rwa [later, extent_le_iff, Session.taken_eq_nil_iff goesOn fresh] at whole
  · intro harmless
    refine ⟨by rw [next], ?_⟩
    rwa [later, extent_le_iff, Session.taken_eq_nil_iff goesOn fresh]

/-- In every run, an oversized request is contained if and only if its first blank
line is among the rejected bytes or the connection brings no further data. -/
theorem oversized_contained_iff (before : List RecvResult) (buf : Bytes) (after : List RecvResult)
    (suspended : (({} : Session).run before).returned = false) (present : buf ≠ [])
    (excess : 4096 < buf.length + (({} : Session).run before).request.length) :
    Contained (({} : Session).run before) buf after ↔
      crlfcrlf <:+: (({} : Session).run before).request ++ buf ∨ Silent after := by
  have waiting := Session.run_waiting (Session.fresh_waiting {} rfl) before
  have alive : (({} : Session).run before).closed = false := by
    have ends := Session.run_open (Session.fresh_waiting {} rfl) (fun closed => by cases closed) before
    cases closed : (({} : Session).run before).closed with
    | false => rfl
    | true => exact absurd (ends closed) (by simp [suspended])
  exact contained_iff suspended waiting alive present excess after

/-- Four full buffers of one letter, as long as a request may be. -/
def fillers : List RecvResult := List.replicate 4 (.received (List.replicate 1024 65))

theorem letters_lack_blank (count : Nat) : ¬ crlfcrlf <:+: List.replicate count 65 := by
  intro inside
  have member : (13 : UInt8) ∈ List.replicate count 65 := inside.subset (by decide)
  exact absurd (List.eq_of_mem_replicate member) (by decide)

theorem letters_waiting (count : Nat) :
    ({ request := List.replicate count 65 } : Session).Waiting :=
  fun ends => letters_lack_blank count ends.isInfix

theorem onRecv_letters {count more : Nat} (some_ : 0 < more) (fits : more + count ≤ 4096) :
    ({ request := List.replicate count 65 } : Session).onRecv (.received (List.replicate more 65)) =
      { request := List.replicate (count + more) 65 } := by
  have present : List.replicate more (65 : UInt8) ≠ [] := by
    simp [List.replicate_eq_nil_iff]
    omega
  have incomplete : ¬ crlfcrlf <:+ List.replicate count 65 ++ List.replicate more 65 := by
    rw [List.replicate_append_replicate]
    exact fun ends => letters_lack_blank _ ends.isInfix
  have step := @Session.onRecv_again { request := List.replicate count 65 } _ _ rfl
    (readRequest_incomplete present (by simpa using fits) incomplete)
  rw [step, List.replicate_append_replicate]

theorem run_letters (times : Nat) {count : Nat} (fits : 1024 * times + count ≤ 4096) :
    ({ request := List.replicate count 65 } : Session).run
        (List.replicate times (.received (List.replicate 1024 65))) =
      { request := List.replicate (count + 1024 * times) 65 } := by
  induction times generalizing count with
  | zero => rfl
  | succ times ih =>
    rw [List.replicate_succ, Session.run_cons, onRecv_letters (by omega) (by omega), ih (by omega)]
    congr 2
    omega

theorem run_fillers : ({} : Session).run fillers = { request := List.replicate (0 + 1024 * 4) 65 } := by
  rw [fillers]
  exact @run_letters 4 0 (by omega)

def smuggled : Bytes := bytes "GET /secret HTTP/1.1\r\n\r\n"

theorem onRecv_past_fillers :
    (({} : Session).run fillers).onRecv (.received [65]) =
      { tasks := [{ status := .badRequest }] } := by
  have reached := run_fillers
  have excess : 4096 < [(65 : UInt8)].length + (({} : Session).run fillers).request.length := by
    simp only [reached, List.length_replicate, List.length_singleton]
    omega
  have step := @Session.onRecv_result (({} : Session).run fillers) _ _ _
    (by rw [reached]) (readRequest_overflow (by decide) excess)
  rw [step, reached]
  rfl

theorem letters_not_contained {count : Nat} (full : 4096 ≤ count) :
    ¬ Contained { request := List.replicate count 65 } [65] [.received smuggled] := by
  intro contained
  have excess : 4096 < [(65 : UInt8)].length + (List.replicate count (65 : UInt8)).length := by
    simp only [List.length_replicate, List.length_singleton]
    omega
  have harmless := (@contained_iff { request := List.replicate count 65 } rfl
    (letters_waiting count) rfl [65] (by decide) excess _).mp contained
  rcases harmless with inside | silent
  · rw [← List.replicate_succ'] at inside
    exact letters_lack_blank _ inside
  · exact absurd silent (by simp only [Silent]; decide)

/-- The tail of a long request is read, and answered, as a request of its own. -/
theorem tail_of_long_request_is_answered :
    ¬ Contained (({} : Session).run fillers) [65] [.received smuggled] ∧
      (({} : Session).run (fillers ++ [.received [65], .received smuggled])).tasks =
        [{ status := .badRequest }, (HttpRequest.parseResquest {} smuggled).1] := by
  constructor
  · rw [run_fillers]
    exact letters_not_contained (by omega)
  · have step := @Session.onRecv_result { tasks := [{ status := .badRequest }] } _ _ _ rfl
      (@readRequest_complete [] smuggled (by decide) (by decide) (by decide))
    rw [Session.run_append, Session.run_cons, onRecv_past_fillers, Session.run_cons, step]
    rfl

theorem long_request_before_close_is_contained :
    Contained (({} : Session).run fillers) [65] [.received []] := by
  have reached := run_fillers
  refine (oversized_contained_iff fillers [65] [.received []] ?_ (by decide) ?_).mpr (.inr rfl)
  · rw [reached]
  · simp only [reached, List.length_replicate, List.length_singleton]
    omega

end CoroMultiplex.Server
