import Mathlib.Data.List.Induction

/-! Machines driven by events, their runs, and invariants of runs.

An event names everything a step decides, so the next state is a function. A
run is a list of events each of which is enabled when its turn comes.
-/

set_option autoImplicit false

namespace CoroMultiplex.Foundations

structure Machine (State Event : Type) where
  enabled : State → Event → Prop
  next : State → Event → State

/-- A step that was taken, with the states before and after it. -/
structure Transition (State Event : Type) where
  before : State
  event : Event
  after : State

namespace Machine

variable {State Event : Type} (M : Machine State Event)

def exec (start : State) (events : List Event) : State := events.foldl M.next start

def Allowed (start : State) : List Event → Prop
  | [] => True
  | event :: events => M.enabled start event ∧ Allowed (M.next start event) events

/-- The steps of a run, in order. -/
def transitions (start : State) : List Event → List (Transition State Event)
  | [] => []
  | event :: events => ⟨start, event, M.next start event⟩ :: transitions (M.next start event) events

@[simp] theorem exec_nil (start : State) : M.exec start [] = start := rfl

@[simp] theorem exec_cons (start : State) (event : Event) (events : List Event) :
    M.exec start (event :: events) = M.exec (M.next start event) events := rfl

theorem exec_append (start : State) (first rest : List Event) :
    M.exec start (first ++ rest) = M.exec (M.exec start first) rest := List.foldl_append

theorem allowed_append (start : State) (first rest : List Event) :
    M.Allowed start (first ++ rest) ↔
      M.Allowed start first ∧ M.Allowed (M.exec start first) rest := by
  induction first generalizing start with
  | nil => simp [Allowed]
  | cons event first ih => simp [Allowed, ih, and_assoc]

theorem transitions_concat (start : State) (events : List Event) (event : Event) :
    M.transitions start (events ++ [event]) = M.transitions start events ++
      [⟨M.exec start events, event, M.next (M.exec start events) event⟩] := by
  induction events generalizing start with
  | nil => rfl
  | cons head events ih =>
    rw [List.cons_append, transitions, ih]
    rfl

variable {M}

/-- What holds at the start and survives every step holds along every run. The
invariant may speak of the events taken so far. -/
theorem run_invariant (Invariant : List Event → State → Prop) {start : State}
    (initially : Invariant [] start)
    (preserved : ∀ past state event, Invariant past state → M.enabled state event →
      Invariant (past ++ [event]) (M.next state event))
    (events : List Event) (allowed : M.Allowed start events) :
    Invariant events (M.exec start events) := by
  induction events using List.reverseRecOn with
  | nil => exact initially
  | append_singleton events event ih =>
    rw [allowed_append] at allowed
    obtain ⟨before, enabled, _⟩ := allowed
    rw [exec_append]
    exact preserved events _ event (ih before) enabled

theorem state_invariant (Invariant : State → Prop) {start : State} (initially : Invariant start)
    (preserved : ∀ state event, Invariant state → M.enabled state event →
      Invariant (M.next state event))
    (events : List Event) (allowed : M.Allowed start events) :
    Invariant (M.exec start events) :=
  run_invariant (fun _ state => Invariant state) initially
    (fun _ state event holds enabled => preserved state event holds enabled) events allowed

/-- Where each step leaves less to do, a run is no longer than what was left. -/
theorem run_bounded (Left : State → Nat → Prop)
    (decreases : ∀ state left event, Left state left → M.enabled state event →
      ∃ fewer, fewer < left ∧ Left (M.next state event) fewer)
    {start : State} {left : Nat} (initially : Left start left) {events : List Event}
    (allowed : M.Allowed start events) :
    events.length ≤ left ∧ ∃ fewer, Left (M.exec start events) fewer := by
  induction events generalizing start left with
  | nil => exact ⟨Nat.zero_le _, left, initially⟩
  | cons event events ih =>
    obtain ⟨fewer, less, after⟩ := decreases start left event initially allowed.1
    obtain ⟨bounded, finally_⟩ := ih after allowed.2
    refine ⟨?_, finally_⟩
    rw [List.length_cons]
    omega

/-- The states that some run from the start leads to. -/
def Reachable (M : Machine State Event) (start state : State) : Prop :=
  ∃ events, M.Allowed start events ∧ M.exec start events = state

theorem Reachable.holds {start state : State} (reached : M.Reachable start state)
    (Invariant : State → Prop) (initially : Invariant start)
    (preserved : ∀ state event, Invariant state → M.enabled state event →
      Invariant (M.next state event)) : Invariant state := by
  obtain ⟨events, allowed, rfl⟩ := reached
  exact state_invariant Invariant initially preserved events allowed

theorem Reachable.append {start state : State} (reached : M.Reachable start state)
    {events : List Event} (allowed : M.Allowed state events) :
    M.Reachable start (M.exec state events) := by
  obtain ⟨before, first, rfl⟩ := reached
  exact ⟨before ++ events, (M.allowed_append start before events).mpr ⟨first, allowed⟩,
    M.exec_append start before events⟩

theorem Reachable.next {start state : State} (reached : M.Reachable start state) (event : Event)
    (enabled : M.enabled state event) : M.Reachable start (M.next state event) :=
  @Reachable.append State Event M start state reached [event] ⟨enabled, trivial⟩

/-- A step of a run leads from a reachable state, which allows it, to the next one. -/
theorem mem_transitions {start : State} {events : List Event} (allowed : M.Allowed start events)
    {step : Transition State Event} (taken : step ∈ M.transitions start events) :
    ∃ before event, step = ⟨before, event, M.next before event⟩ ∧ M.Reachable start before ∧
      M.enabled before event := by
  induction events using List.reverseRecOn with
  | nil => cases taken
  | append_singleton events event ih =>
    obtain ⟨before, enabled, _⟩ := (M.allowed_append start events [event]).mp allowed
    rw [transitions_concat, List.mem_append, List.mem_singleton] at taken
    rcases taken with earlier | rfl
    · exact ih before earlier
    · exact ⟨M.exec start events, event, rfl, ⟨events, before, rfl⟩, enabled⟩

/-- When each step of a machine is answered by a run of another one that keeps their
states related, every reachable state is related to a reachable state. -/
theorem Reachable.simulated {Detail Step : Type} {concrete : Machine Detail Step}
    {start detail : Detail} {origin : State} (reached : concrete.Reachable start detail)
    (Related : Detail → State → Prop)
    (initially : ∃ state, M.Reachable origin state ∧ Related start state)
    (answered : ∀ detail step state, M.Reachable origin state → Related detail state →
      concrete.enabled detail step → ∃ events, M.Allowed state events ∧
        Related (concrete.next detail step) (M.exec state events)) :
    ∃ state, M.Reachable origin state ∧ Related detail state := by
  refine reached.holds (fun detail => ∃ state, M.Reachable origin state ∧ Related detail state)
    initially ?_
  rintro before step ⟨state, arrived, related⟩ enabled
  obtain ⟨events, allowed, still⟩ := answered before step state arrived related enabled
  exact ⟨M.exec state events, arrived.append allowed, still⟩

/-- The same steps, taken only where a guard allows them. -/
def restrict (M : Machine State Event) (guard : State → Event → Prop) : Machine State Event where
  enabled state event := M.enabled state event ∧ guard state event
  next := M.next

theorem allowed_of_restrict {guard : State → Event → Prop} {start : State} (events : List Event)
    (allowed : (M.restrict guard).Allowed start events) : M.Allowed start events := by
  induction events generalizing start with
  | nil => trivial
  | cons event events ih => exact ⟨allowed.1.1, ih allowed.2⟩

theorem Reachable.of_restrict {guard : State → Event → Prop} {start state : State}
    (reached : (M.restrict guard).Reachable start state) : M.Reachable start state := by
  obtain ⟨events, allowed, same⟩ := reached
  exact ⟨events, allowed_of_restrict events allowed, same⟩

/-- When an invariant of the restricted machine turns its guard into another one,
its runs are runs under the other guard too. -/
theorem allowed_restrict_of_invariant {guard other : State → Event → Prop}
    (Invariant : State → Prop) {start : State} (initially : Invariant start)
    (preserved : ∀ state event, Invariant state → (M.restrict guard).enabled state event →
      Invariant (M.next state event))
    (implies : ∀ state event, Invariant state → (M.restrict guard).enabled state event →
      other state event)
    (events : List Event) (allowed : (M.restrict guard).Allowed start events) :
    (M.restrict other).Allowed start events := by
  induction events generalizing start with
  | nil => trivial
  | cons event events ih =>
    obtain ⟨enabled, rest⟩ := allowed
    exact ⟨⟨enabled.1, implies start event initially enabled⟩,
      ih (preserved start event initially enabled) rest⟩

/-- A run at none of whose steps another event is enabled. -/
def Forced (M : Machine State Event) (start : State) : List Event → Prop
  | [] => True
  | event :: events => (∀ other, M.enabled start other ↔ other = event) ∧
      Forced M (M.next start event) events

theorem forced_append (start : State) (first rest : List Event) :
    M.Forced start (first ++ rest) ↔
      M.Forced start first ∧ M.Forced (M.exec start first) rest := by
  induction first generalizing start with
  | nil => simp [Forced]
  | cons event first ih => simp [Forced, ih, and_assoc]

/-- Every run is a beginning of a forced one that ends where nothing is enabled. -/
theorem Forced.beginning {start : State} {script : List Event} (forced : M.Forced start script)
    (stuck : ∀ event, ¬ M.enabled (M.exec start script) event) {events : List Event}
    (allowed : M.Allowed start events) : events <+: script := by
  induction script generalizing start events with
  | nil =>
    cases events with
    | nil => exact List.prefix_rfl
    | cons event events => exact absurd allowed.1 (stuck event)
  | cons event script ih =>
    cases events with
    | nil => exact List.nil_prefix
    | cons other events =>
      obtain rfl := (forced.1 other).mp allowed.1
      exact (List.prefix_cons_inj other).mpr (ih forced.2 stuck allowed.2)

/-- A run on the way of a forced one has the rest of it before it. -/
theorem Forced.onward {start : State} {script : List Event} (forced : M.Forced start script)
    (stuck : ∀ event, ¬ M.enabled (M.exec start script) event) {events : List Event}
    (allowed : M.Allowed start events) :
    ∃ rest, M.Forced (M.exec start events) rest ∧ M.exec start script = M.exec (M.exec start events) rest := by
  obtain ⟨rest, rfl⟩ := forced.beginning stuck allowed
  exact ⟨rest, ((M.forced_append start events rest).mp forced).2, M.exec_append start events rest⟩

/-- A run that cannot go on is the forced one. -/
theorem Forced.complete {start : State} {script : List Event} (forced : M.Forced start script)
    (stuck : ∀ event, ¬ M.enabled (M.exec start script) event) {events : List Event}
    (allowed : M.Allowed start events)
    (ended : ∀ event, ¬ M.enabled (M.exec start events) event) : events = script := by
  obtain ⟨rest, rfl⟩ := forced.beginning stuck allowed
  cases rest with
  | nil => exact (List.append_nil events).symm
  | cons event rest =>
    have onward := ((M.forced_append start events (event :: rest)).mp forced).2
    exact absurd ((onward.1 event).mpr rfl) (ended event)

/-- A state that a forced run leads to. -/
def Leads (M : Machine State Event) (start state : State) : Prop :=
  ∃ script, M.Forced start script ∧ M.exec start script = state

theorem Leads.refl (state : State) : M.Leads state state := ⟨[], trivial, rfl⟩

theorem Leads.step {state after : State} (event : Event)
    (only : ∀ other, M.enabled state other ↔ other = event) (next : M.next state event = after) :
    M.Leads state after := ⟨[event], ⟨only, trivial⟩, next⟩

theorem Leads.trans {start middle state : State} (first : M.Leads start middle)
    (second : M.Leads middle state) : M.Leads start state := by
  obtain ⟨early, forced, rfl⟩ := first
  obtain ⟨late, forced_, rfl⟩ := second
  exact ⟨early ++ late, (M.forced_append start early late).mpr ⟨forced, forced_⟩,
    M.exec_append start early late⟩

theorem Forced.allowed {start : State} {script : List Event} (forced : M.Forced start script) :
    M.Allowed start script := by
  induction script generalizing start with
  | nil => trivial
  | cons event script ih => exact ⟨(forced.1 event).mpr rfl, ih forced.2⟩

variable {start state : State}

theorem Leads.reachable (leads : M.Leads start state) : M.Reachable start state := by
  obtain ⟨script, forced, same⟩ := leads
  exact ⟨script, forced.allowed, same⟩

theorem Leads.bounded (leads : M.Leads start state) (stuck : ∀ event, ¬ M.enabled state event) :
    ∃ bound, ∀ events, M.Allowed start events → events.length ≤ bound := by
  obtain ⟨script, forced, rfl⟩ := leads
  exact ⟨script.length, fun events allowed => (forced.beginning stuck allowed).length_le⟩

/-- Whatever is reached on the way leads to the same end. -/
theorem Leads.from_reached (leads : M.Leads start state) (stuck : ∀ event, ¬ M.enabled state event)
    {middle : State} (reached : M.Reachable start middle) : M.Leads middle state := by
  obtain ⟨script, forced, rfl⟩ := leads
  obtain ⟨events, allowed, rfl⟩ := reached
  obtain ⟨rest, onward, same⟩ := forced.onward stuck allowed
  exact ⟨rest, onward, same.symm⟩

/-- A log that every step extends is, on the way, a beginning of the log at the end. -/
theorem Leads.log_prefix {Entry : Type} (log : State → List Entry)
    (grows : ∀ state event, log state <+: log (M.next state event)) (leads : M.Leads start state)
    (stuck : ∀ event, ¬ M.enabled state event) {middle : State} (reached : M.Reachable start middle) :
    log middle <+: log state :=
  (leads.from_reached stuck reached).reachable.holds (fun later => log middle <+: log later)
    List.prefix_rfl fun later event grown _ => grown.trans (grows later event)

theorem Leads.ends (leads : M.Leads start state) (stuck : ∀ event, ¬ M.enabled state event)
    {events : List Event} (allowed : M.Allowed start events)
    (ended : ∀ event, ¬ M.enabled (M.exec start events) event) : M.exec start events = state := by
  obtain ⟨script, forced, rfl⟩ := leads
  rw [forced.complete stuck allowed ended]

end Machine

end CoroMultiplex.Foundations
