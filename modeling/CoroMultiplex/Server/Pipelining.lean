import CoroMultiplex.Foundations.Interleaving
import CoroMultiplex.Foundations.Machine
import CoroMultiplex.Foundations.Table
import CoroMultiplex.Server.Delivery
import CoroMultiplex.Server.Framing

/-! One connection with several requests in flight.

`clientHandle` puts a detached task on the pool for every request and goes on
reading. Each task is a sequence of sends on the shared socket, and the pool
orders the tasks of a connection in no way. Every send takes its whole buffer.
-/

set_option autoImplicit false

namespace CoroMultiplex.Server

open Foundations Foundations.Interleaving Http Storage

structure Connection where
  session : Session := {}
  -- the handlers that have reached their first send, by the position of their request
  handlers : Nat → Option ResponseTask := fun _ => none
  sends : List (Nat × Bytes) := []

namespace Connection

inductive Event where
  | recv (outcome : RecvResult)
  | start (index : Nat) (task : ResponseTask)
  | send (index : Nat)

/-- Every interleaving of the session with the handlers it has started. -/
def machine (webRoot : Path) : Machine Connection Event where
  enabled c
    | .recv _ => c.session.returned = false
    | .start index task => c.handlers index = none ∧ ∃ request get,
        c.session.tasks[index]? = some request ∧
          ResponseTask.prepare get request webRoot = .ok task
    | .send index => ∃ task, c.handlers index = some task ∧ task.running = true
  next c
    | .recv outcome => { c with session := c.session.onRecv outcome }
    | .start index task => { c with handlers := Function.update c.handlers index (some task) }
    | .send index =>
      match c.handlers index with
      | none => c
      | some task =>
        { c with
          handlers := Function.update c.handlers index (some (task.resume (.sent task.offered.length)))
          sends := c.sends ++ [(index, task.offered)] }

/-- The bytes sent on the connection. -/
def stream (c : Connection) : Bytes := (c.sends.map Prod.snd).flatten

def Finished (c : Connection) (index : Nat) : Prop :=
  ∃ task, c.handlers index = some task ∧ task.phase = .finished

/-- Every request read so far is answered. -/
def Complete (c : Connection) : Prop := ∀ index < c.session.tasks.length, c.Finished index

/-- The complete response to one request. -/
def answer (c : Connection) (index : Nat) : List Bytes :=
  ((c.handlers index).map ResponseTask.pieces).getD []

/-- The complete responses in the order of their requests. -/
def answers (c : Connection) : Bytes :=
  (((List.range c.session.tasks.length).map c.answer).flatten).flatten

/-- A handler sends only when all earlier ones have finished. -/
def InTurn (c : Connection) : Event → Prop
  | .send index => ∀ earlier < index, c.Finished earlier
  | _ => True

/-- A request arrives only when all earlier ones are answered. -/
def OneAtATime (c : Connection) : Event → Prop
  | .recv _ => c.Complete
  | _ => True

variable {webRoot : Path}

theorem send_cases {c : Connection} {index : Nat} {task : ResponseTask}
    (found : c.handlers index = some task) :
    (machine webRoot).next c (.send index) =
      { c with
        handlers := Function.update c.handlers index (some (task.resume (.sent task.offered.length)))
        sends := c.sends ++ [(index, task.offered)] } := by
  simp [machine, found]

/-- A finished handler takes no further step. -/
theorem finished_step {c : Connection} {event : Event} {index : Nat}
    (enabled : (machine webRoot).enabled c event) (finished : c.Finished index) :
    ((machine webRoot).next c event).Finished index := by
  obtain ⟨task, found, ended⟩ := finished
  cases event with
  | recv outcome => exact ⟨task, found, ended⟩
  | start other prepared =>
    have apart : index ≠ other := by
      rintro rfl
      rw [enabled.1] at found
      cases found
    exact ⟨task, (Function.update_of_ne apart _ _).trans found, ended⟩
  | send other =>
    obtain ⟨active, sending, running⟩ := enabled
    have apart : index ≠ other := by
      rintro rfl
      rw [sending] at found
      cases found
      simp [ResponseTask.running, ended] at running
    rw [send_cases sending]
    exact ⟨task, (Function.update_of_ne apart _ _).trans found, ended⟩

theorem tasks_step (webRoot : Path) (c : Connection) (event : Event) :
    c.session.tasks <+: ((machine webRoot).next c event).session.tasks := by
  cases event with
  | recv outcome => exact c.session.onRecv_keeps_tasks outcome
  | start index task => exact List.prefix_rfl
  | send index =>
    simp only [machine]
    split <;> exact List.prefix_rfl

/-- Each handler has sent the pieces it no longer has to send. -/
structure Accounted (c : Connection) : Prop where
  asked : ∀ index task, c.handlers index = some task → index < c.session.tasks.length
  sent : ∀ index task, c.handlers index = some task →
    lane index c.sends ++ task.remaining = task.pieces
  silent : ∀ index, c.handlers index = none → lane index c.sends = []

theorem pieces_resume (task : ResponseTask) (result : SendResult) :
    (task.resume result).pieces = task.pieces := by
  unfold ResponseTask.resume
  split
  · rfl
  · split
    · split <;> rfl
    · rfl
  · split
    · split <;> rfl
    · split <;> rfl
    · rfl
    · rfl

theorem accounted_step {c : Connection} {event : Event} (accounted : c.Accounted)
    (enabled : (machine webRoot).enabled c event) :
    ((machine webRoot).next c event).Accounted := by
  have grown := (tasks_step webRoot c event).length_le
  cases event with
  | recv outcome =>
    refine ⟨?_, accounted.sent, accounted.silent⟩
    intro index task found
    exact Nat.lt_of_lt_of_le (accounted.asked index task found) grown
  | start index task =>
    obtain ⟨fresh, request, get, asked, prepared⟩ := enabled
    obtain ⟨phase, _⟩ := ResponseTask.prepare_start prepared
    constructor
    · intro other found same
      rcases Table.set_cases same with ⟨rfl, _⟩ | ⟨_, before⟩
      · exact (List.getElem?_eq_some_iff.mp asked).1
      · exact accounted.asked other found before
    · intro other found same
      rcases Table.set_cases same with ⟨rfl, rfl⟩ | ⟨_, before⟩
      · have empty : lane other c.sends = [] := accounted.silent other fresh
        change lane other c.sends ++ task.remaining = task.pieces
        rw [empty, List.nil_append, ResponseTask.remaining, phase]
      · exact accounted.sent other found before
    · intro other same
      exact accounted.silent other (Table.set_missing same).2
  | send index =>
    obtain ⟨task, sending, running⟩ := enabled
    rw [send_cases sending] at grown ⊢
    constructor
    · intro other found same
      rcases Table.set_cases same with ⟨rfl, _⟩ | ⟨_, before⟩
      · exact accounted.asked other task sending
      · exact accounted.asked other found before
    · intro other found same
      rcases Table.set_cases same with ⟨rfl, rfl⟩ | ⟨apart, before⟩
      · -- The send moves the first remaining piece to the lane.
        have before := accounted.sent other task sending
        rw [ResponseTask.remaining_of_running running] at before
        rw [pieces_resume, ResponseTask.resume_whole running, ← before]
        simp
      · have kept := accounted.sent other found before
        rw [lane_append, lane_other (Ne.symm apart), List.append_nil]
        exact kept
    · intro other same
      obtain ⟨apart, before⟩ := Table.set_missing same
      rw [lane_append, lane_other (Ne.symm apart), List.append_nil]
      exact accounted.silent other before

theorem accounted_start : Accounted {} where
  asked := by rintro _ _ ⟨⟩
  sent := by rintro _ _ ⟨⟩
  silent _ _ := rfl

theorem accounted_run (events : List Event) (allowed : (machine webRoot).Allowed {} events) :
    ((machine webRoot).exec {} events).Accounted :=
  Machine.state_invariant Accounted accounted_start
    (fun _ _ accounted enabled => accounted_step accounted enabled) events allowed

/-- No lane holds anything beyond its response. -/
theorem lane_of_finished {c : Connection} (accounted : c.Accounted) {index : Nat}
    (finished : c.Finished index) : lane index c.sends = c.answer index := by
  obtain ⟨task, found, ended⟩ := finished
  have all := accounted.sent index task found
  have none : task.remaining = [] := by simp [ResponseTask.remaining, ended]
  rw [none, List.append_nil] at all
  simp [answer, found, all]

theorem sends_bounded {c : Connection} (accounted : c.Accounted) :
    ∀ entry ∈ c.sends, entry.1 < c.session.tasks.length := by
  intro entry member
  cases found : c.handlers entry.1 with
  | none => exact absurd (accounted.silent entry.1 found) (lane_ne_nil member)
  | some task => exact accounted.asked entry.1 task found

/-- Sends taken in turn are ordered by request, and behind a sender all is finished. -/
theorem ordered_run (events : List Event)
    (allowed : ((machine webRoot).restrict InTurn).Allowed {} events) :
    Ordered ((machine webRoot).exec {} events).sends ∧
      ∀ entry ∈ ((machine webRoot).exec {} events).sends, ∀ earlier < entry.1,
        ((machine webRoot).exec {} events).Finished earlier := by
  have initially : Ordered ({} : Connection).sends ∧
      ∀ entry ∈ ({} : Connection).sends, ∀ earlier < entry.1, ({} : Connection).Finished earlier :=
    ⟨List.Pairwise.nil, by rintro _ ⟨⟩⟩
  refine Machine.state_invariant (fun c => Ordered c.sends ∧
    ∀ entry ∈ c.sends, ∀ earlier < entry.1, c.Finished earlier) initially ?_ events allowed
  rintro c event ⟨ordered, behind⟩ ⟨enabled, turn⟩
  have kept : ∀ entry ∈ c.sends, ∀ earlier < entry.1,
      ((machine webRoot).next c event).Finished earlier := by
    intro entry member earlier below
    exact finished_step enabled (behind entry member earlier below)
  cases event with
  | recv outcome => exact ⟨ordered, kept⟩
  | start index task => exact ⟨ordered, kept⟩
  | send index =>
    have after := enabled
    obtain ⟨task, sending, running⟩ := enabled
    -- Behind a later sender this one would have finished.
    have last : ∀ entry ∈ c.sends, entry.1 ≤ index := by
      intro entry member
      apply Nat.le_of_not_lt
      intro below
      obtain ⟨same, found, ended⟩ := behind entry member index below
      rw [sending] at found
      cases found
      simp [ResponseTask.running, ended] at running
    have sends : ((machine webRoot).next c (.send index)).sends =
        c.sends ++ [(index, task.offered)] := by rw [send_cases sending]
    change Ordered ((machine webRoot).next c (.send index)).sends ∧
      ∀ entry ∈ ((machine webRoot).next c (.send index)).sends, ∀ earlier < entry.1,
        ((machine webRoot).next c (.send index)).Finished earlier
    rw [sends]
    refine ⟨ordered_snoc ordered last, ?_⟩
    intro entry member earlier below
    rcases List.mem_append.mp member with inside | here
    · exact kept entry inside earlier below
    · rw [List.mem_singleton.mp here] at below
      exact finished_step after (turn earlier below)

/-- When requests arrive one at a time, all but the last are answered. -/
theorem inTurn_of_oneAtATime (events : List Event)
    (allowed : ((machine webRoot).restrict OneAtATime).Allowed {} events) :
    ((machine webRoot).restrict InTurn).Allowed {} events := by
  refine Machine.allowed_restrict_of_invariant
    (fun c => c.Accounted ∧ ∀ index, index + 1 < c.session.tasks.length → c.Finished index)
    ⟨accounted_start, fun _ below => absurd below (Nat.not_lt_zero _)⟩ ?_ ?_ events allowed
  · rintro c event ⟨accounted, answered⟩ ⟨enabled, alone⟩
    refine ⟨accounted_step accounted enabled, ?_⟩
    intro index below
    apply finished_step enabled
    cases event with
    | recv outcome =>
      have grown := c.session.onRecv_tasks_length outcome
      apply alone
      change index + 1 < (c.session.onRecv outcome).tasks.length at below
      omega
    | start other task => exact answered index below
    | send other =>
      obtain ⟨task, sending, _⟩ := enabled
      rw [send_cases sending] at below
      exact answered index below
  · rintro c event ⟨accounted, answered⟩ ⟨enabled, _⟩
    cases event with
    | recv outcome => trivial
    | start index task => trivial
    | send index =>
      obtain ⟨task, sending, _⟩ := enabled
      have asked := accounted.asked index task sending
      intro earlier below
      apply answered
      omega

/-- In every complete run each response has been sent whole, once and in its own
order. The stream is the responses in the order of their requests when no handler
sends before the earlier ones have finished, as when requests arrive one at a time. -/
theorem responses_of_complete_run (webRoot : Path) (events : List Event)
    (allowed : (machine webRoot).Allowed {} events)
    (complete : ((machine webRoot).exec {} events).Complete) :
    (∀ index < ((machine webRoot).exec {} events).session.tasks.length,
        lane index ((machine webRoot).exec {} events).sends =
          ((machine webRoot).exec {} events).answer index) ∧
      (((machine webRoot).restrict InTurn).Allowed {} events →
        ((machine webRoot).exec {} events).stream = ((machine webRoot).exec {} events).answers) ∧
      (((machine webRoot).restrict OneAtATime).Allowed {} events →
        ((machine webRoot).exec {} events).stream = ((machine webRoot).exec {} events).answers) := by
  have accounted := accounted_run events allowed
  have lanes : ∀ index < ((machine webRoot).exec {} events).session.tasks.length,
      lane index ((machine webRoot).exec {} events).sends =
        ((machine webRoot).exec {} events).answer index := by
    intro index below
    exact lane_of_finished accounted (complete index below)
  have inOrder : ((machine webRoot).restrict InTurn).Allowed {} events →
      ((machine webRoot).exec {} events).stream = ((machine webRoot).exec {} events).answers := by
    intro turns
    have merged := ordered_eq_lanes (ordered_run events turns).1 (sends_bounded accounted)
    rw [stream, merged, answers]
    congr 2
    apply List.map_congr_left
    intro index member
    exact lanes index (List.mem_range.mp member)
  exact ⟨lanes, inOrder, fun alone => inOrder (inTurn_of_oneAtATime events alone)⟩

/-- A target without an extension; `getRoot` asks for a file but accepts no type. -/
def getMissing : RequestText where
  method := .get
  uri := bytes "/x"
  fields := []
  uriNoSpace := by decide
  uriOneLine := by decide

theorem getMissing_framed : Framed getMissing where
  size := by decide
  onlyLast := onlyLast_of_dropLast (by decide)
  stays := by decide

def rootTask : ResponseTask :=
  .make { method := .get, status := .badRequest, uri := bytes "/index.html" } none

def missingTask : ResponseTask :=
  .make { method := .get, status := .notFound, uri := bytes "/x" } none

theorem rootTask_prepared :
    ResponseTask.prepare (fun _ => .ok none) getRoot.request [] = .ok rootTask := rfl

theorem missingTask_prepared :
    ResponseTask.prepare (fun _ => .ok none) getMissing.request [] = .ok missingTask := rfl

theorem session_of_first :
    Session.onRecv {} (.received getRoot.render) = { tasks := [getRoot.request] } :=
  run_text getRoot_framed [getRoot.render] (by decide) {} rfl rfl (by decide) (by simp)

theorem session_of_second :
    Session.onRecv { tasks := [getRoot.request] } (.received getMissing.render) =
      { tasks := [getRoot.request, getMissing.request] } :=
  run_text getMissing_framed [getMissing.render] (by decide) { tasks := [getRoot.request] }
    rfl rfl (by decide) (by simp)

/-- The second request arrives when the first one is answered. -/
def answeredInTurn : List Event :=
  [.recv (.received getRoot.render), .start 0 rootTask, .send 0,
   .recv (.received getMissing.render), .start 1 missingTask, .send 1]

theorem answeredInTurn_session :
    ((machine []).exec {} answeredInTurn).session =
      { tasks := [getRoot.request, getMissing.request] } := by
  change (Session.onRecv {} (.received getRoot.render)).onRecv (.received getMissing.render) = _
  rw [session_of_first, session_of_second]

theorem answeredInTurn_allowed : ((machine []).restrict OneAtATime).Allowed {} answeredInTurn := by
  have first : (Session.onRecv {} (.received getRoot.render)).tasks = [getRoot.request] := by
    rw [session_of_first]
  refine ⟨⟨rfl, fun _ below => absurd below (Nat.not_lt_zero _)⟩,
    ⟨⟨rfl, getRoot.request, fun _ => .ok none, ?_, rootTask_prepared⟩, trivial⟩,
    ⟨⟨rootTask, rfl, rfl⟩, trivial⟩, ⟨?_, ?_⟩,
    ⟨⟨rfl, getMissing.request, fun _ => .ok none, ?_, missingTask_prepared⟩, trivial⟩,
    ⟨⟨missingTask, rfl, rfl⟩, trivial⟩, trivial⟩
  · change (Session.onRecv {} (.received getRoot.render)).tasks[0]? = _
    rw [first]
    rfl
  · change (Session.onRecv {} (.received getRoot.render)).returned = false
    rw [session_of_first]
  · intro index below
    change index < (Session.onRecv {} (.received getRoot.render)).tasks.length at below
    rw [first] at below
    match index, below with
    | 0, _ => exact ⟨_, rfl, rfl⟩
  · change ((Session.onRecv {} (.received getRoot.render)).onRecv
      (.received getMissing.render)).tasks[1]? = _
    rw [session_of_first, session_of_second]
    rfl

theorem answeredInTurn_complete : ((machine []).exec {} answeredInTurn).Complete := by
  intro index below
  rw [answeredInTurn_session] at below
  match index, below with
  | 0, _ => exact ⟨_, rfl, rfl⟩
  | 1, _ => exact ⟨_, rfl, rfl⟩

theorem responses_in_turn :
    lane 1 ((machine []).exec {} answeredInTurn).sends = [missingTask.responseStr] ∧
      ((machine []).exec {} answeredInTurn).stream = ((machine []).exec {} answeredInTurn).answers := by
  have plain := Machine.allowed_of_restrict answeredInTurn answeredInTurn_allowed
  obtain ⟨lanes, _, inOrder⟩ :=
    responses_of_complete_run [] answeredInTurn plain answeredInTurn_complete
  have second := lanes 1 (by rw [answeredInTurn_session]; decide)
  exact ⟨second, inOrder answeredInTurn_allowed⟩

def twoRequests : List Event :=
  [.recv (.received getRoot.render), .recv (.received getMissing.render),
   .start 0 rootTask, .start 1 missingTask]

/-- The connection when both handlers are about to send. -/
def bothReady : Connection where
  session := { tasks := [getRoot.request, getMissing.request] }
  handlers := Function.update (Function.update (fun _ => none) 0 (some rootTask)) 1
    (some missingTask)

theorem exec_twoRequests : (machine []).exec {} twoRequests = bothReady := by
  simp [twoRequests, bothReady, machine, session_of_first, session_of_second]

theorem allowed_twoRequests : (machine []).Allowed {} twoRequests := by
  refine ⟨rfl, ?_, ⟨rfl, getRoot.request, fun _ => .ok none, ?_, rootTask_prepared⟩,
    ⟨rfl, getMissing.request, fun _ => .ok none, ?_, missingTask_prepared⟩, trivial⟩
  · change (Session.onRecv {} (.received getRoot.render)).returned = false
    rw [session_of_first]
  all_goals
    change ((Session.onRecv {} (.received getRoot.render)).onRecv
      (.received getMissing.render)).tasks[_]? = _
    rw [session_of_first, session_of_second]
    rfl

/-- The handler of the second request sends before that of the first one. -/
theorem later_response_overtakes :
    (machine []).Allowed {} (twoRequests ++ [.send 1, .send 0]) ∧
      ((machine []).exec {} (twoRequests ++ [.send 1, .send 0])).Complete ∧
      ((machine []).exec {} (twoRequests ++ [.send 1, .send 0])).stream ≠
        ((machine []).exec {} (twoRequests ++ [.send 1, .send 0])).answers := by
  rw [Machine.allowed_append, Machine.exec_append, exec_twoRequests]
  refine ⟨⟨allowed_twoRequests, ⟨missingTask, rfl, rfl⟩, ⟨rootTask, rfl, rfl⟩, trivial⟩, ?_, ?_⟩
  · intro index below
    match index, below with
    | 0, _ => exact ⟨_, rfl, rfl⟩
    | 1, _ => exact ⟨_, rfl, rfl⟩
  · have sent : ((machine []).exec bothReady [.send 1, .send 0]).stream =
        missingTask.responseStr ++ rootTask.responseStr := rfl
    have expected : ((machine []).exec bothReady [.send 1, .send 0]).answers =
        rootTask.responseStr ++ missingTask.responseStr := rfl
    rw [sent, expected]
    decide

end Connection

end CoroMultiplex.Server
