import CoroMultiplex.Http.Target
import CoroMultiplex.Server.Responder
import Mathlib.Algebra.GroupWithZero.Nat

/-! What the client receives of one response.

A short send is followed by the whole buffer again, so the received stream is
the response with a prefix of a piece repeated for every short send.
-/

set_option autoImplicit false

namespace CoroMultiplex.Server

open Foundations Http Storage

/-- `Resent pieces counts stream`: successful sends of the given counts deliver
the pieces in order, each one offered whole until a send takes all of it. -/
inductive Resent : List Bytes → List Nat → Bytes → Prop where
  | done : Resent [] [] []
  | short {piece : Bytes} {pieces : List Bytes} {counts : List Nat} {stream : Bytes} {count : Nat} :
      1 ≤ count → count < piece.length → Resent (piece :: pieces) counts stream →
      Resent (piece :: pieces) (count :: counts) (piece.take count ++ stream)
  | whole {piece : Bytes} {pieces : List Bytes} {counts : List Nat} {stream : Bytes} :
      Resent pieces counts stream →
      Resent (piece :: pieces) (piece.length :: counts) (piece ++ stream)

namespace Resent

theorem stream_length {pieces : List Bytes} {counts : List Nat} {stream : Bytes}
    (resent : Resent pieces counts stream) : stream.length = counts.sum := by
  induction resent with
  | done => rfl
  | short _ below _ ih =>
    rw [List.length_append, List.length_take, Nat.min_eq_left (Nat.le_of_lt below), ih,
      List.sum_cons]
  | whole _ ih => rw [List.length_append, ih, List.sum_cons]

/-- Only the run without a short send delivers no more bytes than the pieces have. -/
theorem counts_cases {pieces : List Bytes} {counts : List Nat} {stream : Bytes}
    (resent : Resent pieces counts stream) :
    counts = pieces.map List.length ∨ (pieces.map List.length).sum < counts.sum := by
  induction resent with
  | done => exact Or.inl rfl
  | short positive _ _ ih =>
    right
    rw [List.sum_cons]
    rcases ih with same | more
    · rw [same]; omega
    · omega
  | whole _ ih =>
    simp only [List.map_cons, List.sum_cons]
    rcases ih with same | more
    · exact Or.inl (by rw [same])
    · right; omega

theorem stream_of_counts {pieces : List Bytes} {counts : List Nat} {stream : Bytes}
    (resent : Resent pieces counts stream) (same : counts = pieces.map List.length) :
    stream = pieces.flatten := by
  induction resent with
  | done => rfl
  | short _ below _ _ =>
    have first := (List.cons.inj same).1
    omega
  | whole _ ih => rw [ih (List.cons.inj same).2, List.flatten_cons]

theorem stream_eq_iff {pieces : List Bytes} {counts : List Nat} {stream : Bytes}
    (resent : Resent pieces counts stream) :
    stream = pieces.flatten ↔ counts = pieces.map List.length := by
  refine ⟨fun same => ?_, resent.stream_of_counts⟩
  have total : counts.sum = (pieces.map List.length).sum := by
    rw [← resent.stream_length, same, List.length_flatten]
  exact resent.counts_cases.resolve_right (by omega)

end Resent

namespace ResponseTask

/-- The pieces that still have to be sent. -/
def remaining (self : ResponseTask) : List Bytes :=
  match self.phase with
  | .header => self.pieces
  | .body => [self.fileData]
  | .finished | .failed => []

theorem fileSize_eq (self : ResponseTask) : self.fileSize = self.fileData.length := by
  unfold fileSize fileData
  cases self.file <;> rfl

theorem remaining_of_running {self : ResponseTask} (running : self.running = true) :
    self.remaining = self.offered :: self.remaining.tail := by
  unfold ResponseTask.running at running
  unfold remaining offered
  cases phase : self.phase <;> simp_all [pieces]

/-- A send that takes the whole buffer moves on to the next piece. -/
theorem resume_whole {self : ResponseTask} (running : self.running = true) :
    (self.resume (.sent self.offered.length)).remaining = self.remaining.tail := by
  unfold ResponseTask.running at running
  cases phase : self.phase with
  | header =>
    by_cases body : self.sendsBody = true <;>
      simp [resume, remaining, offered, phase, pieces, body, fileData]
  | body => simp [resume, remaining, offered, phase, fileSize_eq]
  | finished => simp [phase] at running
  | failed => simp [phase] at running

/-- A send that takes less leaves the task at the same send. -/
theorem resume_short {self : ResponseTask} (running : self.running = true) {count : Nat}
    (below : count < self.offered.length) : self.resume (.sent count) = self := by
  unfold ResponseTask.running at running
  cases phase : self.phase with
  | header =>
    have more : ¬ self.responseStr.length ≤ count := by simpa [offered, phase] using below
    simp [resume, phase, more]
  | body =>
    have more : ¬ self.fileData.length ≤ count := by simpa [offered, phase] using below
    simp [resume, phase, fileSize_eq, more]
  | finished => simp [phase] at running
  | failed => simp [phase] at running

theorem resume_failed {self : ResponseTask} (running : self.running = true) (errno : Nat) :
    self.resume (.failed errno) = self ∨ (self.resume (.failed errno)).phase = .failed := by
  by_cases again : retryable errno = true <;> simp [resume, running, again]

theorem outcomes_failed {self : ResponseTask} {results : List SendResult}
    (failed : self.phase = .failed) (outcomes : self.Outcomes results) :
    (self.transmit results).1.phase = .failed := by
  cases results with
  | nil => exact failed
  | cons result results =>
    obtain ⟨running, _⟩ := outcomes
    simp [ResponseTask.running, failed] at running

/-- A handler that runs to its end has sent the rest of its pieces in order,
each with the repetitions that its short sends cause. -/
theorem transmit_resent (self : ResponseTask) (results : List SendResult)
    (outcomes : self.Outcomes results) (ended : (self.transmit results).1.phase = .finished) :
    Resent self.remaining (results.filterMap SendResult.count) (self.transmit results).2 := by
  induction results generalizing self with
  | nil =>
    have none : self.remaining = [] := by
      change self.phase = .finished at ended
      simp [remaining, ended]
    rw [none]
    exact .done
  | cons result results ih =>
    obtain ⟨running, admissible, rest⟩ := outcomes
    cases result with
    | sqeBusy => exact ih self rest ended
    | failed errno =>
      rcases resume_failed running errno with same | failed
      · have next := ih (self.resume (.failed errno)) rest ended
        rw [same] at next
        change Resent self.remaining (results.filterMap SendResult.count)
          ((self.resume (.failed errno)).transmit results).2
        rw [same]
        exact next
      · have stuck := outcomes_failed failed rest
        change ((self.resume (.failed errno)).transmit results).1.phase = .finished at ended
        rw [stuck] at ended
        cases ended
    | sent count =>
      obtain ⟨bounded, progress⟩ := admissible
      have next := ih (self.resume (.sent count)) rest ended
      change Resent self.remaining (count :: results.filterMap SendResult.count)
        (self.offered.take count ++ ((self.resume (.sent count)).transmit results).2)
      rw [remaining_of_running running]
      rcases Nat.lt_or_eq_of_le bounded with below | all
      -- The cursor is a local of the loop body: a short send changes nothing.
      · rw [resume_short running below] at next ⊢
        rw [remaining_of_running running] at next
        have positive : 1 ≤ count := progress (by rintro empty; simp [empty] at below)
        exact .short positive below next
      · subst all
        rw [resume_whole running] at next
        rw [List.take_length]
        exact .whole next

/-- The client has the serialized response and the announced number of file bytes. -/
def ExactDelivery (self : ResponseTask) (stream : Bytes) : Prop :=
  stream = self.response.serialize ++ (if self.sendsBody then self.fileData else []) ∧
    (self.sendsBody = true → self.response.headers[bytes "Content-Length"]? =
      some (decimal (stream.length - self.response.serialize.length)))

/-- What every prepared task starts from. -/
theorem prepare_start {get : Path → Except Exception (Option FileCache)} {request : HttpRequest}
    {webRoot : Path} {task : ResponseTask} (built : prepare get request webRoot = .ok task) :
    task.phase = .header ∧ task.responseStr = task.response.serialize ∧
      (task.response.status = .ok →
        task.response.headers[bytes "Content-Length"]? = some (decimal task.fileSize)) := by
  unfold prepare at built
  split at built
  · cases built
  · rename_i response _
    split at built
    · split at built
      · cases built
      · cases built
        exact ⟨rfl, rfl, by rintro ⟨⟩⟩
      · cases built
        refine ⟨rfl, rfl, fun _ => ?_⟩
        simp [make, fileSize]
    · rename_i other
      cases built
      exact ⟨rfl, rfl, fun ok => absurd ok other⟩

/-- For every response and every sequence of results of its sends, a handler that
runs to its end has delivered exactly the response if and only if its successful
sends are one for each piece, taking the whole piece. -/
theorem exactDelivery_iff_no_short_send {get : Path → Except Exception (Option FileCache)}
    {request : HttpRequest} {webRoot : Path} {task : ResponseTask}
    (built : prepare get request webRoot = .ok task) (results : List SendResult)
    (outcomes : task.Outcomes results) (ended : (task.transmit results).1.phase = .finished) :
    task.ExactDelivery (task.transmit results).2 ↔
      results.filterMap SendResult.count = task.pieces.map List.length := by
  obtain ⟨start, serialized, announced⟩ := prepare_start built
  have resent := transmit_resent task results outcomes ended
  have all : task.remaining = task.pieces := by simp [remaining, start]
  rw [all] at resent
  have expected : task.pieces.flatten =
      task.response.serialize ++ (if task.sendsBody then task.fileData else []) := by
    rw [pieces, List.flatten_cons, serialized]
    split <;> simp
  rw [← resent.stream_eq_iff, expected]
  constructor
  · exact And.left
  · intro exact_
    refine ⟨exact_, fun body => ?_⟩
    have ok : task.response.status = .ok := by
      unfold sendsBody at body
      simp only [Bool.not_eq_true', Bool.or_eq_false_iff, bne_eq_false_iff_eq] at body
      exact body.2
    rw [announced ok, exact_, fileSize_eq]
    simp [body]

end ResponseTask

open HttpResponse

/-- A page in two bytes. -/
def shortPage : ResponseTask :=
  .make { served page.request (bytes "/srv") with
    headers := (served page.request (bytes "/srv")).headers.insert (bytes "Content-Length")
      (decimal 2) } (some { mLoc := bytes "ok" })

theorem shortPage_built :
    ResponseTask.prepare (fun _ => .ok (some { mLoc := bytes "ok" })) page.request (bytes "/srv") =
      .ok shortPage := by
  have ok : (served page.request (bytes "/srv")).status = .ok := rfl
  simp only [ResponseTask.prepare, ofRequest_of_served page_served, ok, if_true]
  rfl

/-- A send that takes all of the header block leads to the file. -/
theorem shortPage_headers :
    shortPage.resume (.sent shortPage.responseStr.length) = { shortPage with phase := .body } := by
  have start : shortPage.phase = .header := rfl
  have body : shortPage.sendsBody = true := rfl
  simp [ResponseTask.resume, start, body]

namespace ResponseTask

/-- The queue is busy, and each of the two sends fails once before it takes its piece. -/
def pageSends : List SendResult :=
  [.sqeBusy, .failed 11, .sent shortPage.responseStr.length, .failed 61, .sent 2]

theorem exactDelivery_of_whole_send : shortPage.ExactDelivery (shortPage.transmit pageSends).2 := by
  refine (exactDelivery_iff_no_short_send shortPage_built pageSends ?_ ?_).mpr rfl
  · refine ⟨rfl, trivial, rfl, trivial, rfl, ⟨Nat.le_refl _, ?_⟩, ?_⟩
    · exact fun filled => List.length_pos_of_ne_nil filled
    · change Outcomes (shortPage.resume (.sent shortPage.responseStr.length)) _
      rw [shortPage_headers]
      exact ⟨rfl, trivial, rfl, ⟨by decide, fun _ => by decide⟩, trivial⟩
  · change (transmit (shortPage.resume (.sent shortPage.responseStr.length)) _).1.phase = _
    rw [shortPage_headers]
    rfl

/-- The handler of a request that was rejected while it was read. -/
def rejected : ResponseTask := make { status := .badRequest } none

/-- One byte of the header block is accepted, and then the whole block again. -/
theorem short_send_repeats_first_byte :
    prepare (fun _ => .ok none) { status := .badRequest } (bytes "/srv") = .ok rejected ∧
      rejected.Outcomes [.sent 1, .sent 47] ∧
      (rejected.transmit [.sent 1, .sent 47]).1.phase = .finished ∧
      ¬ rejected.ExactDelivery (rejected.transmit [.sent 1, .sent 47]).2 := by
  refine ⟨rfl, ⟨rfl, ⟨by decide, fun _ => by decide⟩, rfl, ⟨by decide, fun _ => by decide⟩, trivial⟩,
    rfl, ?_⟩
  rintro ⟨same, _⟩
  revert same
  decide

end ResponseTask

end CoroMultiplex.Server
