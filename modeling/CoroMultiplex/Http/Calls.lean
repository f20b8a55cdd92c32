import CoroMultiplex.Http.Locality

/-! The buffers of the epoll reader, against what its calls have read.

For each descriptor an account is kept from the calls and the outcomes of their reads
alone. The table, its strings and what the calls return agree with it.
-/

set_option autoImplicit false

namespace CoroMultiplex.Http

open Foundations

def ReadResult.bytes : ReadResult → Bytes
  | .received buf => buf
  | .failed _ => []

namespace Reactor

/-- What a read makes a call return that has received some bytes, if it ends the call. -/
def ending (fd : Int) (received : Bytes) (outcome : ReadResult) : Option (Except ErrorCode Bytes) :=
  if fd < 0 then some (.error (.socket .readError))
  else match outcome with
    | .received buf =>
      if buf = [] then some (.error (.socket .eofError))
      else if 4096 < received.length + buf.length then some (.error (.http .badRequest))
      else none
    | .failed errno =>
      if ErrorCode.generic errno ≠ .resourceUnavailableTryAgain then some (.error (.generic errno))
      else if crlfcrlf <:+ received then some (.ok received)
      else some (.error (.http .uncompletedRequest))

/-- The bytes read from a descriptor since a call on it last returned anything else than an
uncompleted request, whether a call is in progress, and what the calls have returned. -/
structure Account where
  received : Bytes := []
  calling : Bool := false
  results : List (Except ErrorCode Bytes) := []

def Account.read (account : Account) (fd : Int) (outcome : ReadResult) : Account :=
  match ending fd account.received outcome with
  | none => { account with received := account.received ++ outcome.bytes }
  | some result =>
    { received := if uncompleted result then account.received else []
      calling := false
      results := account.results ++ [result] }

def Account.next (fd : Int) (account : Account) : Event → Account
  | .call other => if other = fd then { account with calling := true } else account
  | .read other outcome => if other = fd then account.read fd outcome else account

def account (fd : Int) (events : List Event) : Account := events.foldl (Account.next fd) {}

/-- What the calls on a descriptor have returned, with the messages for their strings. -/
def results (state : Reactor) (fd : Int) : List (Except ErrorCode Bytes) :=
  (returns fd state.log).map (Except.map state.strings)

structure Agrees (state : Reactor) (fd : Int) (account : Account) : Prop where
  received : pending fd state.log = account.received
  calling : (state.requestMessage fd).isSome = account.calling
  results : state.results fd = account.results

section

variable {self after : Reactor} {fd : Int} {pointer : Nat} {outcome : ReadResult}

/-- What an iteration does, by whether its read ends the call. -/
inductive Ending (self : Reactor) (fd : Int) (pointer : Nat) (outcome : ReadResult)
    (after : Reactor) : Prop
  | goesOn (still : ending fd (self.strings pointer) outcome = none)
      (running : after.requestMessage fd = self.requestMessage fd)
      (bytes : pending fd after.log = pending fd self.log ++ outcome.bytes)
      (silent : returns fd after.log = returns fd self.log)
  | ends (result : Except ErrorCode Nat)
      (ended : ending fd (self.strings pointer) outcome = some (result.map self.strings))
      (idle : after.requestMessage fd = none) (strings : after.strings = self.strings)
      (bytes : pending fd after.log = if uncompleted result then pending fd self.log else [])
      (returned : returns fd after.log = returns fd self.log ++ [result])

theorem Iteration.ending (iteration : Iteration self fd pointer outcome after) :
    Ending self fd pointer outcome after := by
  cases iteration with
  | appended buf valid present fits =>
    have room : ¬ 4096 < (self.strings pointer).length + buf.length := Nat.not_lt.mpr fits
    refine .goesOn ?_ rfl (pending_got fd self.log buf) (returns_got fd fd self.log buf)
    simp [Reactor.ending, Int.not_lt.mpr valid, present, room]
  | ended valid =>
    refine .ends (.error (.socket .eofError)) ?_ (Function.update_self ..) rfl
      (pending_returned fd _ rfl) ?_
    · simp [Reactor.ending, Int.not_lt.mpr valid, Except.map]
    · exact (returns_returned fd _ _).trans (congrArg (· ++ _) (returns_got fd fd self.log []))
  | tooLong buf valid present excess =>
    refine .ends (.error (.http .badRequest)) ?_ (Function.update_self ..) rfl
      (pending_returned fd _ rfl) ?_
    · simp [Reactor.ending, Int.not_lt.mpr valid, present, excess, Except.map]
    · exact (returns_returned fd _ _).trans (congrArg (· ++ _) (returns_got fd fd self.log buf))
  | completed errno valid blocked complete =>
    refine .ends (.ok pointer) ?_ (Function.update_self ..) rfl (pending_returned fd _ rfl)
      (returns_returned fd _ _)
    simp [Reactor.ending, Int.not_lt.mpr valid, blocked, complete, Except.map]
  | suspended errno valid blocked incomplete =>
    refine .ends (.error (.http .uncompletedRequest)) ?_ (Function.update_self ..) rfl
      (pending_uncompleted fd _) (returns_returned fd _ _)
    simp [Reactor.ending, Int.not_lt.mpr valid, blocked, incomplete, Except.map]
  | failed errno valid other =>
    refine .ends (.error (.generic errno)) ?_ (Function.update_self ..) rfl (pending_returned fd _ rfl)
      (returns_returned fd _ _)
    simp [Reactor.ending, Int.not_lt.mpr valid, other, Except.map]
  | invalid _ negative =>
    refine .ends (.error (.socket .readError)) ?_ (Function.update_self ..) rfl
      (pending_returned fd _ rfl) (returns_returned fd _ _)
    simp [Reactor.ending, negative, Except.map]

theorem uncompleted_map (result : Except ErrorCode Nat) (strings : Nat → Bytes) :
    uncompleted (result.map strings) = uncompleted result := by
  cases result with
  | ok _ => rfl
  | error error =>
    cases error with
    | http e => cases e <;> rfl
    | _ => rfl

/-- A string that no descriptor has any more is not written to. -/
theorem strings_next (sound : Sound self) (event : Event) (old : pointer < self.allocated)
    (released : ∀ other, self.uncompletedRequests other ≠ some pointer) :
    (self.next event).strings pointer = self.strings pointer := by
  cases event with
  | call other =>
    cases entry : self.uncompletedRequests other with
    | some buffer => simp [next, call, getBuffer, entry]
    | none => simp [next, call, getBuffer, entry, Function.update_of_ne (Nat.ne_of_lt old)]
  | read other outcome =>
    cases running : self.requestMessage other with
    | none => simp [next, running]
    | some taken =>
      have iteration := next_iteration running outcome
      generalize self.next (.read other outcome) = after at iteration ⊢
      cases iteration with
      | appended buf _ _ _ =>
        have foreign : pointer ≠ taken := by
          rintro rfl
          exact released other (sound.shared.running other pointer running)
        exact Function.update_of_ne foreign _ _
      | _ => rfl

/-- The string of a returned message is kept as it was returned. -/
theorem kept_of_returns (sound : Sound self) (given : .ok pointer ∈ returns fd self.log) :
    ∃ before, self.Kept before fd pointer := by
  obtain ⟨observation, member, same⟩ := List.mem_filterMap.mp given
  obtain ⟨before, rest, split⟩ := List.append_of_mem member
  cases observation with
  | got => cases same
  | returned other result =>
    by_cases here : other = fd
    · subst here
      simp only [if_true, Option.some.injEq] at same
      subst same
      exact ⟨before, sound.shared.kept before other pointer rest split⟩
    · simp [here] at same

theorem results_next (sound : Sound self) (event : Event) (fd : Int) :
    (returns fd self.log).map (Except.map (self.next event).strings) = self.results fd := by
  apply List.map_congr_left
  intro result member
  cases result with
  | error _ => rfl
  | ok pointer =>
    obtain ⟨_, kept⟩ := kept_of_returns sound member
    exact congrArg Except.ok (strings_next sound event kept.allocated kept.released)

/-- A read of the running call does what it does to the account. -/
theorem agrees_read {account : Account} (sound : Sound self)
    (running : self.requestMessage fd = some pointer) (agrees : Agrees self fd account)
    (outcome : ReadResult) : Agrees (self.next (.read fd outcome)) fd (account.read fd outcome) := by
  have strings := results_next sound (.read fd outcome) fd
  have content : self.strings pointer = account.received :=
    (own_content running sound).trans agrees.received
  rw [Account.read, ← content]
  cases (next_iteration running outcome).ending with
  | goesOn still runs bytes silent =>
    rw [still]
    refine ⟨?_, ?_, ?_⟩
    · rw [bytes, agrees.received, content]
    · rw [runs]
      exact agrees.calling
    · rw [results, silent, strings]
      exact agrees.results
  | ends result ended idle same bytes returned =>
    rw [ended]
    refine ⟨?_, ?_, ?_⟩
    · simp only [bytes, uncompleted_map, content, agrees.received]
    · rw [idle]
      rfl
    · rw [same] at strings
      rw [results, returned, same, List.map_append, strings, agrees.results]
      rfl

theorem agrees_next {account : Account} (sound : Sound self) {event : Event}
    (enabled : machine.enabled self event) (agrees : Agrees self fd account) :
    Agrees (self.next event) fd (account.next fd event) := by
  have strings := results_next sound event fd
  by_cases here : event.fd = fd
  · cases event with
    | call other =>
      obtain rfl : other = fd := here
      obtain ⟨running, log⟩ := own_call self other
      rw [Account.next, if_pos rfl]
      refine ⟨?_, Option.isSome_iff_ne_none.mpr running, ?_⟩
      · rw [log]
        exact agrees.received
      · rw [results, log, strings]
        exact agrees.results
    | read other outcome =>
      obtain rfl : other = fd := here
      obtain ⟨pointer, running⟩ := Option.ne_none_iff_exists'.mp enabled
      rw [Account.next, if_pos rfl]
      exact agrees_read sound running agrees outcome
  · have unseen := unseen_next self (Ne.symm here)
    have untouched : account.next fd event = account := by
      cases event with
      | call other => exact if_neg here
      | read other outcome => exact if_neg here
    rw [untouched]
    refine ⟨unseen.pending.trans agrees.received, ?_, ?_⟩
    · rw [unseen.requestMessage]
      exact agrees.calling
    · rw [results, unseen.returns, strings]
      exact agrees.results

end

theorem agrees_exec {events : List Event} (allowed : machine.Allowed {} events) (fd : Int) :
    Agrees (machine.exec {} events) fd (account fd events) := by
  have both := Machine.run_invariant
    (fun past state => Sound state ∧ ∀ fd, Agrees state fd (account fd past))
    ⟨sound_start, fun _ => ⟨rfl, rfl, rfl⟩⟩ ?_ events allowed
  · exact both.2 fd
  · rintro past state event ⟨sound, agrees⟩ enabled
    refine ⟨sound_next sound event enabled, fun fd => ?_⟩
    rw [account, List.foldl_append]
    exact agrees_next sound enabled (agrees fd)

/-- The last call on the descriptor that has returned gave an uncompleted request. -/
def Account.Awaits (account : Account) : Prop :=
  account.results.getLast? = some (.error (.http .uncompletedRequest))

theorem awaiting_eq (fd : Int) (log : List Observation) :
    awaiting fd log = ((returns fd log).getLast?.any uncompleted) := by
  induction log using List.reverseRecOn with
  | nil => rfl
  | append_singleton log last ih =>
    cases last with
    | got other buf => rw [awaiting_got, returns_got, ih]
    | returned other result =>
      by_cases here : other = fd
      · subst here
        rw [awaiting_returned, returns_returned, List.getLast?_concat, Option.any_some]
      · rw [awaiting_other_returned log (Ne.symm here), returns_other (Ne.symm here), ih]

theorem uncompleted_iff {Value : Type} (result : Except ErrorCode Value) :
    uncompleted result = true ↔ result = .error (.http .uncompletedRequest) := by
  cases result with
  | ok _ => simp [uncompleted]
  | error error =>
    cases error with
    | http e => cases e <;> simp [uncompleted]
    | _ => simp [uncompleted]

theorem awaits_iff {state : Reactor} {fd : Int} {account : Account} (agrees : Agrees state fd account) :
    awaiting fd state.log = true ↔ account.Awaits := by
  rw [awaiting_eq, Account.Awaits, ← agrees.results, results, List.getLast?_map]
  cases (returns fd state.log).getLast? with
  | none => simp
  | some result =>
    rw [Option.any_some, Option.map_some, Option.some.injEq, ← uncompleted_iff, uncompleted_map]

/-- The table and the returns of the calls, against the accounts of the descriptors. -/
structure ExactBuffers (events : List Event) (state : Reactor) : Prop where
  -- a call returns with the read that ends it, and goes on with every other one
  calling : ∀ fd, (state.requestMessage fd).isSome = (account fd events).calling
  results : ∀ fd, state.results fd = (account fd events).results
  entry : ∀ fd, (account fd events).calling = false →
    ((∃ pointer, state.uncompletedRequests fd = some pointer) ↔ (account fd events).Awaits)
  content : ∀ fd pointer, state.uncompletedRequests fd = some pointer →
    state.strings pointer = (account fd events).received ∧ (state.strings pointer).length ≤ 4096
  apart : ∀ fd other pointer, state.uncompletedRequests fd = some pointer →
    state.uncompletedRequests other = some pointer → fd = other
  message : ∀ fd m, .ok m ∈ (account fd events).results → crlfcrlf <:+ m ∧ m.length ≤ 4096
  reused : ∀ fd, (account fd events).calling = false → ¬ (account fd events).Awaits →
    (account fd events).received = [] ∧ ∃ pointer,
      (state.call fd).requestMessage fd = some pointer ∧ (state.call fd).strings pointer = []

/-- Whatever calls are made, however they are interleaved, and whatever their reads give,
each call returns by the read that ends it and with what its account says, and the table
holds one exact buffer for each descriptor with an uncompleted request. -/
theorem buffers_exact (events : List Event) (allowed : machine.Allowed {} events) :
    ExactBuffers events (machine.exec {} events) := by
  have sound := sound_of_reachable ⟨events, allowed, rfl⟩
  have agrees := agrees_exec allowed
  have idle : ∀ fd, (account fd events).calling = false →
      (machine.exec {} events).requestMessage fd = none := by
    intro fd ended
    rw [← (agrees fd).calling] at ended
    simpa using ended
  refine ⟨fun fd => (agrees fd).calling, fun fd => (agrees fd).results, fun fd ended => ?_,
    fun fd pointer taken => ?_, sound.shared.apart, fun fd m given => ?_, fun fd ended closed => ?_⟩
  · rw [← awaits_iff (agrees fd)]
    constructor
    · rintro ⟨pointer, taken⟩
      exact (sound.own fd).waiting pointer taken (idle fd ended)
    · intro left
      cases entry : (machine.exec {} events).uncompletedRequests fd with
      | some pointer => exact ⟨pointer, rfl⟩
      | none =>
        have closed := ((sound.own fd).absent entry).2
        rw [closed] at left
        cases left
  · rw [← (agrees fd).received]
    exact (sound.own fd).content pointer taken
  · rw [← (agrees fd).results, Reactor.results, List.mem_map] at given
    obtain ⟨result, returned, same⟩ := given
    cases result with
    | error _ => cases same
    | ok pointer =>
      obtain ⟨_, kept⟩ := kept_of_returns sound returned
      cases same
      exact ⟨kept.complete, kept.fits⟩
  · have fresh : awaiting fd (machine.exec {} events).log ≠ true :=
      fun left => closed ((awaits_iff (agrees fd)).mp left)
    rw [← (agrees fd).received]
    cases entry : (machine.exec {} events).uncompletedRequests fd with
    | some pointer => exact absurd ((sound.own fd).waiting pointer entry (idle fd ended)) fresh
    | none =>
      exact ⟨((sound.own fd).absent entry).1, (machine.exec {} events).allocated,
        by simp [call, getBuffer, entry]⟩

/-- Two descriptors, whose calls are interleaved: the message of one takes two calls, and
the other one is used again for a connection that closes. -/
def interleavedCalls : List Event :=
  [.call 5, .call 6, .read 5 (.received (bytes "GET ")), .read 6 (.received crlfcrlf),
    .read 5 (.failed 11), .read 6 (.failed 11), .call 6, .call 5, .read 6 (.received []),
    .read 5 (.received crlfcrlf), .read 5 (.failed 11)]

theorem interleavedCalls_allowed : machine.Allowed {} interleavedCalls :=
  ⟨rfl, rfl, Option.some_ne_none _, Option.some_ne_none _, Option.some_ne_none _,
    Option.some_ne_none _, rfl, rfl, Option.some_ne_none _, Option.some_ne_none _,
    Option.some_ne_none _, trivial⟩

theorem interleavedCalls_exact :
    ExactBuffers interleavedCalls (machine.exec {} interleavedCalls) ∧
      (machine.exec {} interleavedCalls).results 5 =
        [.error (.http .uncompletedRequest), .ok (bytes "GET \r\n\r\n")] ∧
      (machine.exec {} interleavedCalls).results 6 = [.ok crlfcrlf, .error (.socket .eofError)] := by
  have buffers := buffers_exact interleavedCalls interleavedCalls_allowed
  exact ⟨buffers, (buffers.results 5).trans rfl, (buffers.results 6).trans rfl⟩

end Reactor

end CoroMultiplex.Http
