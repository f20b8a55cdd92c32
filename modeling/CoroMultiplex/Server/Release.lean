import CoroMultiplex.Server.Sockets

/-! When the socket of a finished session is released.

A pass of `cleanTasks` releases it only where enough tasks are bound to the pool: the
responses of a session keep the descriptor open after they have ended.
-/

set_option autoImplicit false

namespace CoroMultiplex.Server

open Foundations Pool SocketState ThreadPool

variable {Handle : Type} [DecidableEq Handle]

structure Held (threadCnt : Nat) (state : SocketState Handle) : Prop where
  reached : (machine threadCnt).Reachable {} state.pool
  holding : ∀ client ∈ state.clients, Holding state.pool client
  apart : ∀ first ∈ state.clients, ∀ second ∈ state.clients, first.frame ∉ second.responses

namespace SocketState

theorem mem_updateBody {self : SocketState Handle} {caller : Handle}
    {update : Client Handle → Client Handle} {client : Client Handle}
    (member : client ∈ self.updateBody caller update) :
    ∃ old ∈ self.clients, old.body = true ∧ old.task = caller ∧ client = update old ∨
      ¬ (old.body = true ∧ old.task = caller) ∧ client = old := by
  obtain ⟨old, inside, rfl⟩ := List.mem_map.mp member
  refine ⟨old, inside, ?_⟩
  by_cases here : old.body = true ∧ old.task = caller
  · simp [here]
  · right
    refine ⟨here, if_neg ?_⟩
    simpa using here

omit [DecidableEq Handle] in
theorem mem_advance {self : SocketState Handle} {pool : ThreadPool Handle} {client : Client Handle}
    (member : client ∈ (self.advance pool).clients) :
    ∃ old ∈ self.clients,
      client = old.destroy (pool.destroyed.drop self.pool.destroyed.length) := by
  obtain ⟨old, inside, rfl⟩ := List.mem_map.mp member
  exact ⟨old, inside, rfl⟩

end SocketState

/-- What the operations on the queues leave as it is. -/
def lasting (pool : ThreadPool Handle) :=
  (pool.frames, pool.nextFrame, pool.destroyed, pool.taskBinding)

namespace Held

variable {threadCnt : Nat} {self : SocketState Handle}

theorem identified (held : Held threadCnt self) : self.pool.Identified :=
  identified_reachable held.reached

/-- The address of a session's body names its frame. -/
theorem body_frameId (held : Held threadCnt self) {client : Client Handle}
    (member : client ∈ self.clients) (body : client.body = true) :
    self.pool.frameId client.task = some client.frame := by
  rw [frameId, (held.holding client member).living body]
  rfl

/-- A pool step after which each session has an account of its own. -/
theorem advance (held : Held threadCnt self) {event : Pool.Event Handle}
    (enabled : (machine threadCnt).enabled self.pool event)
    (holding : ∀ client ∈ self.clients, Holding ((machine threadCnt).next self.pool event)
      (client.destroy (((machine threadCnt).next self.pool event).destroyed.drop
        self.pool.destroyed.length))) :
    Held threadCnt (self.advance ((machine threadCnt).next self.pool event)) where
  reached := held.reached.next event enabled
  holding client member := by
    obtain ⟨old, inside, rfl⟩ := mem_advance member
    exact holding old inside
  apart first left second right := by
    obtain ⟨older, inside, rfl⟩ := mem_advance left
    obtain ⟨other, within, rfl⟩ := mem_advance right
    exact held.apart older inside other within

/-- A pool step that destroys no frame. -/
theorem spares (held : Held threadCnt self) {event : Pool.Event Handle}
    (enabled : (machine threadCnt).enabled self.pool event)
    (destroyed : ((machine threadCnt).next self.pool event).destroyed = self.pool.destroyed)
    (holding : ∀ client ∈ self.clients,
      Holding ((machine threadCnt).next self.pool event) client) :
    Held threadCnt (self.advance ((machine threadCnt).next self.pool event)) := by
  refine held.advance enabled fun client member => ?_
  have none_ : client.destroy [] = client := by simp [Client.destroy, Client.release]
  rw [destroyed, List.drop_length, none_]
  exact holding client member

/-- A pool step that touches no frame and keeps the bindings. -/
theorem quiet (held : Held threadCnt self) {event : Pool.Event Handle}
    (enabled : (machine threadCnt).enabled self.pool event)
    (frames : ((machine threadCnt).next self.pool event).frames = self.pool.frames)
    (nextFrame : ((machine threadCnt).next self.pool event).nextFrame = self.pool.nextFrame)
    (destroyed : ((machine threadCnt).next self.pool event).destroyed = self.pool.destroyed)
    (lookup : ∀ task target, self.pool.taskBinding.lookup task = some target →
      ((machine threadCnt).next self.pool event).taskBinding.lookup task = some target) :
    Held threadCnt (self.advance ((machine threadCnt).next self.pool event)) :=
  held.spares enabled destroyed fun client member =>
    (held.holding client member).quiet frames nextFrame destroyed lookup

/-- A pool step that touches no frame and no binding. -/
theorem untouched (held : Held threadCnt self) {event : Pool.Event Handle}
    (enabled : (machine threadCnt).enabled self.pool event)
    (same : lasting ((machine threadCnt).next self.pool event) = lasting self.pool) :
    Held threadCnt (self.advance ((machine threadCnt).next self.pool event)) := by
  obtain ⟨frames, rest⟩ := Prod.mk.inj same
  obtain ⟨nextFrame, rest⟩ := Prod.mk.inj rest
  obtain ⟨destroyed, taskBinding⟩ := Prod.mk.inj rest
  refine held.quiet enabled frames nextFrame destroyed fun task target found => ?_
  rw [taskBinding]
  exact found

theorem pool_step (held : Held threadCnt self) {event : Pool.Event Handle}
    (enabled : (sockets threadCnt).enabled self (.pool event)) :
    Held threadCnt (self.advance ((machine threadCnt).next self.pool event)) := by
  obtain ⟨enabled, notOwn⟩ := enabled
  cases event with
  | launch | register | construct | leave => exact held.untouched enabled rfl
  | create task =>
    exact held.spares enabled rfl fun client member => (held.holding client member).create enabled
  | finish task =>
    refine held.spares enabled rfl fun client member => (held.holding client member).finish ?_ ?_
    · intro _ named
      exact notOwn ⟨client, member, .inl named⟩
    · intro id response named
      exact absurd ⟨client, member, .inr ⟨id, response, named⟩⟩ notOwn
  | bind caller task =>
    exact held.quiet enabled (self.pool.bind_keeps frames (fun _ _ _ _ => rfl) caller task)
      (self.pool.bind_keeps nextFrame (fun _ _ _ _ => rfl) caller task)
      (self.pool.bind_keeps destroyed (fun _ _ _ _ => rfl) caller task)
      fun _ _ found => bind_lookup_kept self.pool caller task found
  | push caller =>
    exact held.untouched enabled (self.pool.push_keeps lasting (fun _ _ _ _ _ => rfl) caller)
  | pop index =>
    exact held.untouched enabled (self.pool.pop_keeps lasting (fun _ _ _ _ => rfl) index)
  | resume index =>
    exact held.untouched enabled (self.pool.resume_keeps lasting (fun _ _ _ => rfl) index)
  | clean order =>
    have identified : ((machine threadCnt).next self.pool (.clean order)).Identified :=
      identified_step held.identified
    exact held.advance enabled fun client member =>
      (held.holding client member).clean identified enabled.2.2

theorem accept (held : Held threadCnt self) {task : Handle} (free : self.pool.frames task = none) :
    Held threadCnt (self.accept task) where
  reached := held.reached.next (.create task) free
  holding client member := by
    rcases List.mem_append.mp member with before | new
    · exact (held.holding client before).create free
    · rw [List.mem_singleton.mp new]
      refine ⟨Nat.lt_succ_self _, nofun, fun _ => ?_, rfl, nofun⟩
      exact Function.update_self ..
  apart first left second right := by
    rcases List.mem_append.mp right with older | new
    · rcases List.mem_append.mp left with before | fresh
      · exact held.apart first before second older
      -- The frame of the new session is younger than every response.
      · rw [List.mem_singleton.mp fresh]
        intro response
        exact absurd ((held.holding second older).olderResponses _ response) (Nat.lt_irrefl _)
    · rw [List.mem_singleton.mp new]
      exact List.not_mem_nil

theorem respond (held : Held threadCnt self) {caller task : Handle}
    (free : self.pool.frames task = none) : Held threadCnt (self.respond caller task) where
  reached := held.reached.next (.create task) free
  holding client member := by
    obtain ⟨old, inside, ⟨_, _, rfl⟩ | ⟨_, rfl⟩⟩ := mem_updateBody member
    · refine ((held.holding old inside).create free).respond (Nat.lt_succ_self _) ?_ ?_
      · intro gone
        exact absurd (held.identified.past _ gone) (Nat.lt_irrefl _)
      · intro other named
        by_cases here : other = task
        · subst here
          simp [isDone, ThreadPool.create]
        · have before : self.pool.frameId other = some self.pool.nextFrame := by
            simpa [frameId, SocketState.respond, ThreadPool.create, here] using named
          exact absurd (held.identified.known other _ before) (Nat.lt_irrefl _)
    · exact (held.holding client inside).create free
  apart first left second right := by
    have known : ∃ older ∈ self.clients, older.frame = first.frame := by
      obtain ⟨old, inside, ⟨_, _, rfl⟩ | ⟨_, rfl⟩⟩ := mem_updateBody left
      · exact ⟨old, inside, rfl⟩
      · exact ⟨first, inside, rfl⟩
    obtain ⟨older, inside, same⟩ := known
    rw [← same]
    obtain ⟨other, within, ⟨_, _, rfl⟩ | ⟨_, rfl⟩⟩ := mem_updateBody right
    · intro member
      rcases List.mem_append.mp member with before | new
      · exact held.apart older inside other within before
      · have younger := (held.holding older inside).older
        rw [List.mem_singleton.mp new] at younger
        exact absurd younger (Nat.lt_irrefl _)
    · exact held.apart older inside second within

/-- A coroutine ends whose frame is a body that is just left, or a resumed response. -/
theorem finish (held : Held threadCnt self) {ended : Handle} {frame : Frame}
    (alive : self.pool.frames ended = some frame) (pending : frame.done = false)
    {clients : List (Client Handle)}
    (holding : ∀ client ∈ clients, ∃ old ∈ self.clients, Holding self.pool client ∧
      client.frame = old.frame ∧ client.responses = old.responses)
    (other : ∀ client ∈ clients, client.body = true → frame.id ≠ client.frame)
    (resumed : ∀ client ∈ clients, frame.id ∈ client.responses →
      ∃ index, self.pool.taskBinding.lookup ended = some (.queue index)) :
    Held threadCnt { pool := self.pool.finish ended, clients := clients } where
  reached := held.reached.next (.finish ended) ⟨frame, alive, pending⟩
  holding client member := by
    have named : self.pool.frameId ended = some frame.id := by rw [frameId, alive]; rfl
    obtain ⟨_, _, before, _⟩ := holding client member
    refine before.finish ?_ ?_
    · intro body same
      rw [named] at same
      exact other client member body (Option.some.inj same)
    · intro id response same
      rw [named] at same
      rw [← Option.some.inj same] at response
      exact resumed client member response
  apart first left second right := by
    obtain ⟨older, inside, _, frame, _⟩ := holding first left
    obtain ⟨other, within, _, _, responses⟩ := holding second right
    rw [frame, responses]
    exact held.apart older inside other within

theorem returns (held : Held threadCnt self) {caller : Handle} {running : Client Handle}
    (member : running ∈ self.clients) (body : running.body = true) (named : running.task = caller) :
    Held threadCnt (self.returns caller) := by
  subst named
  refine held.finish ((held.holding running member).living body) rfl ?_ ?_ ?_
  · intro client updated
    obtain ⟨old, inside, ⟨open_, _, rfl⟩ | ⟨_, rfl⟩⟩ := mem_updateBody updated
    · exact ⟨old, inside, (held.holding old inside).endBody open_, rfl, rfl⟩
    · exact ⟨client, inside, held.holding client inside, rfl, rfl⟩
  -- Two bodies with one frame would be at one address.
  · intro client updated still same
    obtain ⟨old, inside, ⟨_, _, rfl⟩ | ⟨elsewhere, rfl⟩⟩ := mem_updateBody updated
    · cases still
    · have first := held.body_frameId inside still
      have second := held.body_frameId member body
      exact elsewhere ⟨still, held.identified.apart _ _ _ first (second.trans (congrArg some same))⟩
  · intro client updated response
    obtain ⟨old, inside, ⟨_, _, rfl⟩ | ⟨_, rfl⟩⟩ := mem_updateBody updated
    · exact absurd response (held.apart running member old inside)
    · exact absurd response (held.apart running member client inside)

theorem responded (held : Held threadCnt self) {task : Handle} {index : Nat} {entry : Entry Handle}
    (running : self.pool.workers index = .running entry) (same : entry.task = task)
    (pending : self.pool.isDone task = false) {client : Client Handle}
    (member : client ∈ self.clients) {id : Nat} (response : id ∈ client.responses)
    (named : self.pool.frameId task = some id) : Held threadCnt (self.responded task) := by
  have bound := bound_reachable held.reached
  have sits := bound.held index entry (by rw [running]; rfl)
  rw [Sits, same] at sits
  obtain ⟨frame, alive, rfl⟩ := Option.map_eq_some_iff.mp named
  have notDone : frame.done = false := by simpa [isDone, alive] using pending
  refine held.finish alive notDone ?_ ?_ ?_
  · exact fun other inside => ⟨other, inside, held.holding other inside, rfl, rfl⟩
  · intro other inside _ here
    rw [here] at response
    exact held.apart other inside client member response
  · intro _ _ _
    exact ⟨index, sits.1⟩

theorem step (held : Held threadCnt self) {event : SocketEvent Handle}
    (enabled : (sockets threadCnt).enabled self event) :
    Held threadCnt ((sockets threadCnt).next self event) := by
  cases event with
  | pool event => exact held.pool_step enabled
  | accept task => exact held.accept enabled
  | respond caller task => exact held.respond enabled.1
  | returns caller =>
    obtain ⟨client, member, body, named⟩ := enabled
    exact held.returns member body named
  | responded task =>
    obtain ⟨⟨index, entry, running, same⟩, pending, client, member, id, response, named⟩ := enabled
    exact held.responded running same pending member response named

theorem start : Held threadCnt ({} : SocketState Handle) where
  reached := ⟨[], trivial, rfl⟩
  holding := nofun
  apart := nofun

theorem reachable (reached : (sockets threadCnt).Reachable {} self) : Held threadCnt self :=
  reached.holds (Held threadCnt) start fun _ _ held enabled => held.step enabled

end Held

/-- After a pass, a session that had ended with all its responses when the pass began has
its descriptor open only where the pass found too few bound tasks to clean and a
response was not destroyed by an earlier one. -/
theorem finished_sessions_released (threadCnt : Nat) (self : SocketState Handle)
    (reached : (sockets threadCnt).Reachable {} self) (order : List Nat)
    (enabled : (sockets threadCnt).enabled self (.pool (.clean order))) :
    ∀ client ∈ ((sockets threadCnt).next self (.pool (.clean order))).clients,
      Finished self.pool client.frame → (∀ id ∈ client.responses, Finished self.pool id) →
      (client.isOpen = true ↔ self.pool.taskBinding.size < 10000 ∧
        ∃ id ∈ client.responses, id ∉ self.pool.destroyed) := by
  intro client member ended responded
  have held := Held.reachable reached
  have after := held.step enabled
  obtain ⟨old, inside, rfl⟩ := mem_advance member
  have holding := held.holding old inside
  have ended : old.body = false := holding.body_ended held.identified ended
  rw [(after.holding _ member).isOpen_iff]
  change old.body = true ∨ (∃ id ∈ old.responses, id ∉ (self.pool.cleanTasks order).destroyed) ↔ _
  by_cases small : self.pool.taskBinding.size < 10000
  · rw [cleanTasks, if_pos small]
    simp only [ended, Bool.false_eq_true, false_or, small, true_and]
    rfl
  · have released : ∀ id ∈ old.responses, id ∈ (self.pool.cleanTasks order).destroyed :=
      fun id response =>
        holding.response_destroyed small enabled.1.2.2 response (responded id response)
    constructor
    · rintro (body | ⟨id, response, kept⟩)
      · rw [ended] at body
        cases body
      · exact absurd (released id response) kept
    · rintro ⟨few, _⟩
      exact absurd few small

/-! One request on one worker: coroutine 9 reaps completions, 0 is the session, 2 reads
its request and 1 responds to it. -/

def adds (task : Nat) : List (SocketEvent Nat) :=
  [.pool (.bind (.worker 0) task), .pool (.push (.worker 0))]

def takes : List (SocketEvent Nat) := [.pool (.pop 0), .pool (.resume 0)]

def answered : List (SocketEvent Nat) :=
  [[.pool .launch, .pool .register, .pool .construct, .pool (.create 9),
      .pool (.bind (.outside 0) 9), .pool (.push (.outside 0))],
    takes, [.accept 0], adds 0, adds 9, [.pool (.leave 0)],
    takes, [.pool (.create 2), .pool (.leave 0)],
    takes, adds 2, adds 9, [.pool (.leave 0)],
    takes, [.pool (.finish 2), .respond 0 1], adds 1, [.returns 0, .pool (.leave 0)],
    takes, adds 9, [.pool (.leave 0)],
    takes, [.pool (.leave 0)],
    takes, adds 1, adds 9, [.pool (.leave 0)],
    takes, [.responded 1, .pool (.leave 0)]].flatten

def answeredState : SocketState Nat := (sockets 1).exec {} answered

theorem answered_allowed : (sockets 1).Allowed ({} : SocketState Nat) answered := by
  have notOwn : ∀ self : SocketState Nat, ∀ client : Client Nat, self.clients = [client] →
      client.responses = [] → self.pool.frameId 2 ≠ some client.frame → ¬ self.Owns 2 := by
    rintro self client single none_ other ⟨owner, member, named⟩
    rw [single, List.mem_singleton] at member
    subst member
    rw [none_] at named
    exact named.elim other (fun ⟨_, response, _⟩ => List.not_mem_nil response)
  exact ⟨⟨⟨Nat.one_pos, rfl⟩, trivial⟩, ⟨Nat.one_pos, trivial⟩, ⟨⟨rfl, rfl⟩, trivial⟩,
    ⟨rfl, trivial⟩, ⟨⟨nofun, trivial, rfl, nofun⟩, trivial⟩, ⟨⟨9, 0, rfl, Nat.one_pos⟩, trivial⟩,
    ⟨⟨rfl, Nat.one_pos, rfl, nofun⟩, trivial⟩, ⟨⟨_, rfl⟩, trivial⟩, rfl,
    ⟨⟨nofun, ⟨_, rfl⟩, rfl, nofun⟩, trivial⟩, ⟨⟨_, 0, rfl, Nat.one_pos⟩, trivial⟩,
    ⟨⟨nofun, ⟨_, rfl⟩, rfl, nofun⟩, trivial⟩, ⟨⟨_, 0, rfl, Nat.one_pos⟩, trivial⟩,
    ⟨⟨⟨_, rfl⟩, rfl⟩, trivial⟩,
    ⟨⟨rfl, Nat.one_pos, rfl, nofun⟩, trivial⟩, ⟨⟨_, rfl⟩, trivial⟩, ⟨rfl, trivial⟩,
    ⟨⟨⟨_, rfl⟩, rfl⟩, trivial⟩,
    ⟨⟨rfl, Nat.one_pos, rfl, nofun⟩, trivial⟩, ⟨⟨_, rfl⟩, trivial⟩,
    ⟨⟨nofun, ⟨_, rfl⟩, rfl, nofun⟩, trivial⟩, ⟨⟨_, 0, rfl, Nat.one_pos⟩, trivial⟩,
    ⟨⟨nofun, ⟨_, rfl⟩, rfl, nofun⟩, trivial⟩, ⟨⟨_, 0, rfl, Nat.one_pos⟩, trivial⟩,
    ⟨⟨⟨_, rfl⟩, rfl⟩, trivial⟩,
    ⟨⟨rfl, Nat.one_pos, rfl, nofun⟩, trivial⟩, ⟨⟨_, rfl⟩, trivial⟩,
    ⟨⟨_, rfl, rfl⟩, notOwn _ _ rfl rfl nofun⟩, ⟨rfl, _, .head _, rfl, rfl⟩,
    ⟨⟨nofun, ⟨_, rfl⟩, rfl, nofun⟩, trivial⟩, ⟨⟨_, 0, rfl, Nat.one_pos⟩, trivial⟩,
    ⟨_, .head _, rfl, rfl⟩, ⟨⟨⟨_, rfl⟩, rfl⟩, trivial⟩,
    ⟨⟨rfl, Nat.one_pos, rfl, nofun⟩, trivial⟩, ⟨⟨_, rfl⟩, trivial⟩,
    ⟨⟨nofun, ⟨_, rfl⟩, rfl, nofun⟩, trivial⟩, ⟨⟨_, 0, rfl, Nat.one_pos⟩, trivial⟩,
    ⟨⟨⟨_, rfl⟩, rfl⟩, trivial⟩,
    ⟨⟨rfl, Nat.one_pos, rfl, nofun⟩, trivial⟩, ⟨⟨_, rfl⟩, trivial⟩, ⟨⟨⟨_, rfl⟩, rfl⟩, trivial⟩,
    ⟨⟨rfl, Nat.one_pos, rfl, nofun⟩, trivial⟩, ⟨⟨_, rfl⟩, trivial⟩,
    ⟨⟨nofun, ⟨_, rfl⟩, rfl, nofun⟩, trivial⟩, ⟨⟨_, 0, rfl, Nat.one_pos⟩, trivial⟩,
    ⟨⟨nofun, ⟨_, rfl⟩, rfl, nofun⟩, trivial⟩, ⟨⟨_, 0, rfl, Nat.one_pos⟩, trivial⟩,
    ⟨⟨⟨_, rfl⟩, rfl⟩, trivial⟩,
    ⟨⟨rfl, Nat.one_pos, rfl, nofun⟩, trivial⟩, ⟨⟨_, rfl⟩, trivial⟩,
    ⟨⟨0, _, rfl, rfl⟩, rfl, _, .head _, _, .head _, rfl⟩, ⟨⟨⟨_, rfl⟩, rfl⟩, trivial⟩, trivial⟩

theorem answered_quiet : ∀ caller, answeredState.pool.calls caller = none
  | .worker 0 | .worker (_ + 1) | .outside 0 | .outside (_ + 1) => rfl

theorem answered_idle : ∀ index, answeredState.pool.workers index = .idle
  | 0 | _ + 1 => rfl

/-- The session and its response have ended and the pass does nothing. -/
theorem finished_session_stays_open : ∃ order,
    (sockets 1).Allowed ({} : SocketState Nat) (answered ++ [.pool (.clean order)]) ∧
      ∃ client ∈ ((sockets 1).exec {} (answered ++ [.pool (.clean order)])).clients,
        Finished answeredState.pool client.frame ∧
          (∀ id ∈ client.responses, Finished answeredState.pool id) ∧ client.isOpen = true := by
  obtain ⟨order, covers⟩ := answeredState.pool.exists_covers
  refine ⟨order, ?_, { task := 0, frame := 1, body := false, responses := [3] }, ?_, ?_, ?_, rfl⟩
  · apply (Machine.allowed_append ..).mpr
    exact ⟨answered_allowed, ⟨⟨answered_quiet, answered_idle, covers⟩, trivial⟩, trivial⟩
  · exact .head _
  · exact .inr ⟨0, rfl, rfl⟩
  · intro id response
    rw [List.mem_singleton.mp response]
    exact .inr ⟨1, rfl, rfl⟩

/-- Pool events in a row, none of which ends a coroutine. -/
theorem pool_run {threadCnt : Nat} (events : List (Pool.Event Handle))
    (self : SocketState Handle) (allowed : (machine threadCnt).Allowed self.pool events)
    (unended : ∀ event ∈ events, ∀ task, event ≠ .finish task) :
    (sockets threadCnt).Allowed self (events.map .pool) ∧
      ((sockets threadCnt).exec self (events.map .pool)).pool =
        (machine threadCnt).exec self.pool events ∧
      ∀ client ∈ self.clients,
        ∃ later ∈ ((sockets threadCnt).exec self (events.map .pool)).clients,
        later.frame = client.frame ∧ later.responses = client.responses := by
  induction events generalizing self with
  | nil => exact ⟨trivial, rfl, fun client member => ⟨client, member, rfl, rfl⟩⟩
  | cons event events ih =>
    obtain ⟨enabled, allowed⟩ := allowed
    obtain ⟨rest, pool, kept⟩ :=
      ih (self.advance ((machine threadCnt).next self.pool event)) allowed
        fun other member => unended other (.tail _ member)
    refine ⟨⟨⟨enabled, ?_⟩, rest⟩, pool, ?_⟩
    · cases event with
      | finish task => exact absurd rfl (unended _ (.head _) task)
      | _ => trivial
    · intro client member
      obtain ⟨later, after, frame, responses⟩ := kept _ (List.mem_map_of_mem member)
      exact ⟨later, after, frame, responses⟩

/-- The server after that request and further tasks. -/
structure Crowded (count : Nat) (state : SocketState Nat) : Prop where
  reached : (sockets 1).Reachable {} state
  registered : state.pool.registered = 1
  current : state.pool.currentQueue = some (.queue 0)
  size : state.pool.taskBinding.size = 4 + count
  free : ∀ task, state.pool.frames (task + (10 + count)) = none ∧
    state.pool.taskBinding.lookup (task + (10 + count)) = none
  quiet : ∀ caller, state.pool.calls caller = none
  idle : ∀ index, state.pool.workers index = .idle
  session : state.pool.frames 0 = some { id := 1, done := true }
  response : state.pool.frames 1 = some { id := 3, done := true }
  client : ∃ client ∈ state.clients, client.frame = 1 ∧ client.responses = [3]

theorem crowded_add {count : Nat} {self : SocketState Nat} (crowded : Crowded count self) :
    ∃ later, Crowded (count + 1) later := by
  obtain ⟨free, absent⟩ := crowded.free 0
  obtain ⟨allowed, added⟩ :=
    added_addOne free absent crowded.registered crowded.current (crowded.quiet _)
  obtain ⟨run, pool, kept⟩ := pool_run _ self allowed (by simp [addOne])
  refine ⟨(sockets 1).exec self ((addOne (0 + (10 + count))).map .pool), ?_⟩
  rw [← pool] at added
  constructor
  · exact crowded.reached.append run
  · rw [added.registered, crowded.registered]
  · exact added.current
  · rw [added.size, crowded.size]
    rfl
  · intro task
    have shift : task + (10 + (count + 1)) = task + 1 + (10 + count) := by omega
    have apart : task + 1 + (10 + count) ≠ 0 + (10 + count) := by omega
    rw [shift, added.frames, added.lookup, if_neg apart, Function.update_of_ne apart]
    exact crowded.free (task + 1)
  · exact added.quiet crowded.quiet
  · rw [added.workers]
    exact crowded.idle
  · rw [added.frames, Function.update_of_ne (by omega)]
    exact crowded.session
  · rw [added.frames, Function.update_of_ne (by omega)]
    exact crowded.response
  · obtain ⟨client, member, frame, responses⟩ := crowded.client
    obtain ⟨later, inside, sameFrame, sameResponses⟩ := kept client member
    exact ⟨later, inside, sameFrame.trans frame, sameResponses.trans responses⟩

theorem crowded_reachable (count : Nat) : ∃ self, Crowded count self := by
  induction count with
  | zero =>
    refine ⟨answeredState, ⟨answered, answered_allowed, rfl⟩, rfl, rfl, rfl, fun task => ⟨rfl, rfl⟩,
      answered_quiet, answered_idle, rfl, rfl, ?_⟩
    exact ⟨_, .head _, rfl, rfl⟩
  | succ count ih =>
    obtain ⟨self, crowded⟩ := ih
    exact crowded_add crowded

theorem finished_session_released_by_large_pass : ∃ (self : SocketState Nat) (order : List Nat),
    (sockets 1).Reachable {} self ∧ (sockets 1).enabled self (.pool (.clean order)) ∧
      ∃ client ∈ ((sockets 1).next self (.pool (.clean order))).clients,
        client.frame = 1 ∧ client.responses = [3] ∧ client.isOpen = false := by
  obtain ⟨self, crowded⟩ := crowded_reachable 9996
  obtain ⟨order, covers⟩ := self.pool.exists_covers
  obtain ⟨client, member, frame, responses⟩ := crowded.client
  have enabled : (sockets 1).enabled self (.pool (.clean order)) :=
    ⟨⟨crowded.quiet, crowded.idle, covers⟩, trivial⟩
  have ended : Finished self.pool 1 := .inr ⟨0, by simp [frameId, isDone, crowded.session]⟩
  have responded : Finished self.pool 3 := .inr ⟨1, by simp [frameId, isDone, crowded.response]⟩
  have open_ := finished_sessions_released 1 self crowded.reached order enabled _
    (List.mem_map_of_mem member) (frame ▸ ended)
    (by simpa [Client.destroy, Client.release, responses])
  refine ⟨self, order, crowded.reached, enabled, _, List.mem_map_of_mem member, frame, responses,
    ?_⟩
  rw [Bool.eq_false_iff, Ne, open_, crowded.size]
  rintro ⟨few, _⟩
  exact absurd few (Nat.lt_irrefl _)

end CoroMultiplex.Server
