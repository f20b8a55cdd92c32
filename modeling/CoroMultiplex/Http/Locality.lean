import CoroMultiplex.Http.Buffers

/-! What the calls on one descriptor do depends on the reads on that descriptor alone.

Steps on other descriptors are invisible to it. Its own steps are decided by whether a
call runs on it, and by the bytes that are pending.
-/

set_option autoImplicit false

namespace CoroMultiplex.Http

open Foundations

namespace Reactor

def Event.fd : Event → Int
  | .call fd => fd
  | .read fd _ => fd

/-- The results of the calls on a descriptor, in order. -/
def returns (fd : Int) (log : List Observation) : List (Except ErrorCode Nat) :=
  log.filterMap fun
    | .got _ _ => none
    | .returned other result => if other = fd then some result else none

theorem returns_got (fd other : Int) (log : List Observation) (buf : Bytes) :
    returns fd (log ++ [.got other buf]) = returns fd log := by
  simp [returns]

theorem returns_returned (fd : Int) (log : List Observation) (result : Except ErrorCode Nat) :
    returns fd (log ++ [.returned fd result]) = returns fd log ++ [result] := by
  simp [returns]

theorem returns_other {fd other : Int} (apart : other ≠ fd) (log : List Observation)
    (result : Except ErrorCode Nat) :
    returns other (log ++ [.returned fd result]) = returns other log := by
  simp [returns, Ne.symm apart]

/-- A step that a descriptor does not see. -/
structure Unseen (fd : Int) (before after : Reactor) : Prop where
  requestMessage : after.requestMessage fd = before.requestMessage fd
  pending : pending fd after.log = pending fd before.log
  returns : returns fd after.log = returns fd before.log

theorem unseen_got {fd other : Int} (apart : other ≠ fd) (self : Reactor) (buf : Bytes) :
    Unseen other self (self.observe [.got fd buf]) where
  requestMessage := rfl
  pending := pending_other_got self.log apart buf
  returns := returns_got other fd self.log buf

theorem unseen_returning {fd other : Int} (apart : other ≠ fd) (self : Reactor)
    (result : Except ErrorCode Nat) : Unseen other self (self.returning fd result) where
  requestMessage := Function.update_of_ne apart _ _
  pending := pending_other_returned self.log apart result
  returns := returns_other apart self.log result

theorem Unseen.trans {fd : Int} {self middle after : Reactor} (first : Unseen fd self middle)
    (second : Unseen fd middle after) : Unseen fd self after where
  requestMessage := second.requestMessage.trans first.requestMessage
  pending := second.pending.trans first.pending
  returns := second.returns.trans first.returns

theorem unseen_finish {fd other : Int} (apart : other ≠ fd) (self : Reactor)
    (result : Except ErrorCode Nat) : Unseen other self (self.finish fd result) where
  requestMessage := Function.update_of_ne apart _ _
  pending := pending_other_returned self.log apart result
  returns := returns_other apart self.log result

section

variable {self : Reactor} {fd : Int}

theorem call_log (self : Reactor) (fd : Int) : (self.call fd).log = self.log := by
  unfold call getBuffer
  cases self.uncompletedRequests fd <;> rfl

theorem call_requestMessage (self : Reactor) (fd : Int) :
    ∃ pointer, (self.call fd).requestMessage = Function.update self.requestMessage fd (some pointer) := by
  unfold call getBuffer
  cases self.uncompletedRequests fd with
  | none => exact ⟨self.allocated, rfl⟩
  | some buffer => exact ⟨buffer, rfl⟩

theorem unseen_next (self : Reactor) {event : Event} (apart : fd ≠ event.fd) :
    Unseen fd self (self.next event) := by
  cases event with
  | call other =>
    obtain ⟨pointer, update⟩ := call_requestMessage self other
    refine ⟨?_, ?_, ?_⟩
    · simp only [next, update]
      exact Function.update_of_ne apart _ _
    · simp only [next, call_log]
    · simp only [next, call_log]
  | read other outcome =>
    cases running : self.requestMessage other with
    | none =>
      have same : self.next (.read other outcome) = self := by simp [next, running]
      rw [same]
      exact ⟨rfl, rfl, rfl⟩
    | some pointer =>
      have iteration := next_iteration running outcome
      generalize self.next (.read other outcome) = after at iteration ⊢
      cases iteration with
      | appended buf _ _ _ =>
        have seen := unseen_got apart self buf
        exact ⟨seen.requestMessage, seen.pending, seen.returns⟩
      | ended _ => exact (unseen_got apart self []).trans (unseen_finish apart _ _)
      | tooLong buf _ _ _ => exact (unseen_got apart self buf).trans (unseen_finish apart _ _)
      | completed _ _ _ _ => exact unseen_finish apart self _
      | suspended _ _ _ _ => exact unseen_returning apart self _
      | failed _ _ _ => exact unseen_finish apart self _
      | invalid _ _ => exact unseen_finish apart self _

theorem log_grows (self : Reactor) (event : Event) : self.log <+: (self.next event).log := by
  cases event with
  | call other => simp [next, call_log]
  | read other outcome =>
    cases running : self.requestMessage other with
    | none => simp [next, running]
    | some pointer =>
      have iteration := next_iteration running outcome
      generalize self.next (.read other outcome) = after at iteration ⊢
      cases iteration <;>
        simp [append, finish, returning, observe, eraseBuffer]

theorem own_call (self : Reactor) (fd : Int) :
    (self.next (.call fd)).requestMessage fd ≠ none ∧ (self.next (.call fd)).log = self.log := by
  obtain ⟨pointer, update⟩ := call_requestMessage self fd
  refine ⟨?_, call_log self fd⟩
  simp only [next, update, Function.update_self]
  exact Option.some_ne_none pointer

variable {pointer : Nat} (running : self.requestMessage fd = some pointer) (valid : 0 ≤ fd)

include running valid

theorem own_end :
    (self.next (.read fd (.received []))).log =
      self.log ++ [.got fd [], .returned fd (.error (.socket .eofError))] := by
  have iteration := next_iteration running (.received [])
  generalize self.next (.read fd (.received [])) = after at iteration ⊢
  cases iteration with
  | appended _ _ present _ => exact absurd rfl present
  | ended _ => simp [finish, returning, observe, eraseBuffer]
  | tooLong _ _ present _ => exact absurd rfl present
  | invalid _ negative => omega

variable (sound : Sound self)

include sound

omit valid in
theorem own_content : self.strings pointer = pending fd self.log :=
  ((sound.own fd).content pointer (sound.shared.running fd pointer running)).1

theorem own_chunk {buf : Bytes} (present : buf ≠ [])
    (fits : (pending fd self.log).length + buf.length ≤ 4096) :
    (self.next (.read fd (.received buf))).requestMessage fd ≠ none ∧
      (self.next (.read fd (.received buf))).log = self.log ++ [.got fd buf] := by
  have content := own_content running sound
  have iteration := next_iteration running (.received buf)
  generalize self.next (.read fd (.received buf)) = after at iteration ⊢
  cases iteration with
  | appended _ _ _ _ => simp [append, observe, running]
  | ended _ => exact absurd rfl present
  | tooLong _ _ _ excess =>
    rw [content] at excess
    omega
  | invalid _ negative => omega

theorem own_suspend (incomplete : ¬ crlfcrlf <:+ pending fd self.log) :
    (self.next (.read fd (.failed 11))).requestMessage fd = none ∧
      (self.next (.read fd (.failed 11))).log =
        self.log ++ [.returned fd (.error (.http .uncompletedRequest))] := by
  have content := own_content running sound
  have iteration := next_iteration running (.failed 11)
  generalize self.next (.read fd (.failed 11)) = after at iteration ⊢
  cases iteration with
  | completed _ _ _ complete =>
    rw [content] at complete
    exact absurd complete incomplete
  | suspended _ _ _ _ => simp [returning, observe]
  | failed _ _ other => exact absurd rfl other
  | invalid _ negative => omega

theorem own_complete (complete : crlfcrlf <:+ pending fd self.log) :
    (self.next (.read fd (.failed 11))).log = self.log ++ [.returned fd (.ok pointer)] := by
  have content := own_content running sound
  have iteration := next_iteration running (.failed 11)
  generalize self.next (.read fd (.failed 11)) = after at iteration ⊢
  cases iteration with
  | completed _ _ _ _ => simp [finish, returning, observe, eraseBuffer]
  | suspended _ _ _ incomplete =>
    rw [content] at incomplete
    exact absurd complete incomplete
  | failed _ _ other => exact absurd rfl other
  | invalid _ negative => omega

end

theorem exec_log_grows (self : Reactor) (events : List Event) :
    self.log <+: (machine.exec self events).log := by
  induction events generalizing self with
  | nil => exact List.prefix_rfl
  | cons event events ih => exact (log_grows self event).trans (ih (machine.next self event))

theorem exec_unseen {fd : Int} {events : List Event} (foreign : events.filter (·.fd = fd) = [])
    (self : Reactor) : Unseen fd self (machine.exec self events) := by
  induction events generalizing self with
  | nil => exact ⟨rfl, rfl, rfl⟩
  | cons event events ih =>
    rw [List.filter_eq_nil_iff] at foreign
    have apart : fd ≠ event.fd := by simpa [eq_comm] using foreign event List.mem_cons_self
    have later := List.filter_eq_nil_iff.mpr fun other member =>
      foreign other (List.mem_cons_of_mem _ member)
    exact (unseen_next self apart).trans (ih later (machine.next self event))

theorem sound_exec {self : Reactor} (sound : Sound self) {events : List Event}
    (allowed : machine.Allowed self events) : Sound (machine.exec self events) :=
  Machine.state_invariant Sound sound (fun _ event sound enabled => sound_next sound event enabled)
    events allowed

end Reactor

end CoroMultiplex.Http
