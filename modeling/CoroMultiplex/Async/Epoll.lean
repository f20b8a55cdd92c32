import CoroMultiplex.Foundations.Machine

/-! The loop that hands ready handles from epoll to the pool.

The kernel overwrites the first entries of the array and leaves the others as they
were, so an entry past the count may hold a handle of an earlier round, or nothing yet.
-/

set_option autoImplicit false

namespace CoroMultiplex.Async

open Foundations

variable {Handle : Type}

def maxevents : Nat := 128

/-- What a call of `epoll_wait` leaves in the array and returns. -/
inductive WaitResult (Handle : Type) where
  | ready (handles : List Handle) (fits : handles.length ≤ maxevents)
  | failed (errno : Nat)

namespace WaitResult

def fds : WaitResult Handle → Int
  | .ready handles _ => handles.length
  | .failed _ => -1

def fill (events : Nat → Option Handle) : WaitResult Handle → Nat → Option Handle
  | .ready handles _, index => (handles[index]?).or (events index)
  | .failed _, index => events index

def Failed : WaitResult Handle → Prop
  | .ready _ _ => False
  | .failed _ => True

end WaitResult

inductive Dispatched (Handle : Type) where
  | reads (index : Nat)
  | adds (task : Handle)
  | reschedules
  deriving DecidableEq, Repr

/-- Where `epollWaitEvent` is. -/
inductive WaitPoint where
  | waiting
  -- inside the loop over `iota(0, fds)`
  | looping (i : Nat) (fds : Int)
  | undefined
  deriving DecidableEq, Repr

structure EpollWait (Handle : Type) where
  point : WaitPoint := .waiting
  events : Nat → Option Handle := fun _ => none
  -- what the calls of `epoll_wait` still to come answer
  results : List (WaitResult Handle)
  log : List (Dispatched Handle) := []

namespace EpollWait

/-- The array ends after `maxevents` entries. -/
def cell? (self : EpollWait Handle) (i : Nat) : Option Handle :=
  if i < maxevents then self.events i else none

/-- `iota(0, fds)` stops where the index equals `fds`, not where it reaches it. -/
def proceed (self : EpollWait Handle) : EpollWait Handle :=
  match self.point with
  | .waiting =>
    match self.results with
    | [] => self
    | result :: results => { self with
        point := .looping 0 result.fds
        events := result.fill self.events
        results := results }
  | .looping i fds =>
    if i = fds then { self with point := .waiting, log := self.log ++ [.reschedules] }
    else
      match self.cell? i with
      | none => { self with point := .undefined, log := self.log ++ [.reads i] }
      | some task => { self with
          point := .looping (i + 1) fds
          log := self.log ++ [.reads i, .adds task] }
  | .undefined => self

def Proceeds (self : EpollWait Handle) : Prop :=
  match self.point with
  | .waiting => self.results ≠ []
  | .looping _ _ => True
  | .undefined => False

/-- The loop goes one way, so there is one event. -/
def machine (Handle : Type) : Machine (EpollWait Handle) Unit where
  enabled self _ := self.Proceeds
  next self _ := self.proceed

theorem leads_proceed {self : EpollWait Handle} (proceeds : self.Proceeds) :
    (machine Handle).Leads self self.proceed :=
  .step () (fun _ => iff_of_true proceeds rfl) rfl

end EpollWait

/-- The entries from one index on, each read and its handle added once. -/
def dispatches (first : Nat) : List Handle → List (Dispatched Handle)
  | [] => []
  | task :: tasks => .reads first :: .adds task :: dispatches (first + 1) tasks

/-- What a round is to do with what the kernel reports. -/
def WaitResult.round : WaitResult Handle → List (Dispatched Handle)
  | .ready handles _ => dispatches 0 handles ++ [.reschedules]
  | .failed _ => [.reschedules]

/-- Over these results the loop does nothing but its rounds, and comes to do all of them. -/
structure Dispatches (results : List (WaitResult Handle)) : Prop where
  only : ∀ state, (EpollWait.machine Handle).Reachable { results } state →
    state.log <+: results.flatMap WaitResult.round
  all : ∃ state, (EpollWait.machine Handle).Leads { results } state ∧
    state.point = .waiting ∧ state.results = [] ∧ state.log = results.flatMap WaitResult.round

namespace EpollWait

/-- The rest of a loop over entries that the kernel has filled. -/
theorem leads_loop (tasks front : List Handle) (fits : (front ++ tasks).length ≤ maxevents)
    (self : EpollWait Handle) (point : self.point = .looping front.length (front ++ tasks).length)
    (filled : ∀ i, i < (front ++ tasks).length → self.events i = (front ++ tasks)[i]?) :
    ∃ state, (machine Handle).Leads self state ∧ state.point = .waiting ∧
      state.results = self.results ∧
      state.log = self.log ++ dispatches front.length tasks ++ [.reschedules] := by
  induction tasks generalizing front self with
  | nil =>
    have leads := @leads_proceed _ self (by simp only [Proceeds, point])
    have ends : self.proceed = { self with point := .waiting, log := self.log ++ [.reschedules] } := by
      simp [proceed, point]
    rw [ends] at leads
    exact ⟨_, leads, rfl, rfl, by simp [dispatches]⟩
  | cons task tasks ih =>
    have inside : front.length < (front ++ task :: tasks).length := by simp
    have entry : self.cell? front.length = some task := by
      rw [cell?, if_pos (by omega), filled _ inside]
      simp
    have goesOn : self.proceed = { self with
        point := .looping (front.length + 1) (front ++ task :: tasks).length
        log := self.log ++ [.reads front.length, .adds task] } := by
      have notEnd : (front.length : Int) ≠ (front ++ task :: tasks).length := by omega
      simp only [proceed, point, if_neg notEnd, entry]
    have leads := @leads_proceed _ self (by simp only [Proceeds, point])
    rw [goesOn] at leads
    have split : front ++ task :: tasks = (front ++ [task]) ++ tasks := by simp
    obtain ⟨state, rest, waiting, results, log⟩ := ih (front ++ [task]) (split ▸ fits)
      { self with
        point := .looping (front.length + 1) (front ++ task :: tasks).length
        log := self.log ++ [.reads front.length, .adds task] }
      (by simp) (fun i below => by rw [← split] at below ⊢; exact filled i below)
    refine ⟨state, leads.trans rest, waiting, results, ?_⟩
    rw [log]
    simp [dispatches]

/-- A round whose call of `epoll_wait` succeeds. -/
theorem leads_round {self : EpollWait Handle} (waiting : self.point = .waiting)
    {result : WaitResult Handle} {results : List (WaitResult Handle)}
    (answers : self.results = result :: results) (succeeds : ¬ result.Failed) :
    ∃ state, (machine Handle).Leads self state ∧ state.point = .waiting ∧
      state.results = results ∧ state.log = self.log ++ result.round := by
  cases result with
  | failed errno => exact absurd trivial succeeds
  | ready handles fits =>
    have begins : self.proceed = { self with
        point := .looping 0 handles.length
        events := (WaitResult.ready handles fits).fill self.events
        results := results } := by
      simp only [proceed, waiting, answers, WaitResult.fds]
    have first := @leads_proceed _ self (by simp [Proceeds, waiting, answers])
    rw [begins] at first
    have filled : ∀ i, i < ([] ++ handles).length →
        (WaitResult.ready handles fits).fill self.events i = ([] ++ handles)[i]? := by
      intro i below
      rw [List.nil_append] at below ⊢
      change (handles[i]?).or (self.events i) = handles[i]?
      rw [List.getElem?_eq_getElem below, Option.some_or]
    obtain ⟨state, rest, waits, left, log⟩ := leads_loop handles [] fits
      { self with
        point := .looping 0 handles.length
        events := (WaitResult.ready handles fits).fill self.events
        results := results }
      rfl filled
    refine ⟨state, first.trans rest, waits, left, ?_⟩
    rw [log, WaitResult.round, List.append_assoc]
    rfl

/-- The rounds up to a given one, all of whose calls succeed. -/
theorem leads_rounds (first rest : List (WaitResult Handle)) (succeed : ∀ result ∈ first, ¬ result.Failed)
    (self : EpollWait Handle) (waiting : self.point = .waiting)
    (answers : self.results = first ++ rest) :
    ∃ state, (machine Handle).Leads self state ∧ state.point = .waiting ∧
      state.results = rest ∧ state.log = self.log ++ first.flatMap WaitResult.round := by
  induction first generalizing self with
  | nil => exact ⟨self, .refl self, waiting, answers, by simp⟩
  | cons result first ih =>
    obtain ⟨middle, leads, waits, left, log⟩ :=
      leads_round waiting answers (succeed result (List.mem_cons_self ..))
    obtain ⟨state, onward, settled, remaining, total⟩ :=
      ih (fun other member => succeed other (List.mem_cons_of_mem _ member)) middle waits left
    refine ⟨state, leads.trans onward, settled, remaining, ?_⟩
    rw [total, log, List.flatMap_cons, List.append_assoc]

/-- After a failed call the first entry is read, whatever it holds. -/
theorem failed_reads {self : EpollWait Handle} (waiting : self.point = .waiting) {errno : Nat}
    {results : List (WaitResult Handle)} (answers : self.results = .failed errno :: results) :
    ∃ state behind, (machine Handle).Leads self state ∧ state.log = self.log ++ .reads 0 :: behind := by
  have begins : self.proceed = { self with
      point := .looping 0 (-1), results := results } := by
    simp only [proceed, waiting, answers, WaitResult.fds]
    rfl
  have first := @leads_proceed _ self (by simp [Proceeds, waiting, answers])
  rw [begins] at first
  have second := @leads_proceed _ { self with point := .looping 0 (-1), results := results } trivial
  have leads := first.trans second
  cases held : EpollWait.cell? { self with point := .looping 0 (-1), results := results } 0 with
  | none => exact ⟨_, [], leads, by simp [proceed, held]⟩
  | some task => exact ⟨_, [.adds task], leads, by simp [proceed, held]⟩

/-- What is done stays done. -/
theorem log_grows (self : EpollWait Handle) : self.log <+: self.proceed.log := by
  unfold proceed
  split
  · split <;> exact List.prefix_rfl
  · split
    · exact List.prefix_append _ _
    · split <;> exact List.prefix_append _ _
  · exact List.prefix_rfl

end EpollWait

theorem dispatches_of_success {results : List (WaitResult Handle)}
    (succeed : ∀ result ∈ results, ¬ result.Failed) : Dispatches results := by
  obtain ⟨final, leads, waiting, answered, log⟩ :=
    EpollWait.leads_rounds results [] succeed { results } rfl (List.append_nil _).symm
  rw [List.nil_append] at log
  refine ⟨fun state reached => ?_, final, leads, waiting, answered, log⟩
  have stuck : ∀ event, ¬ (EpollWait.machine Handle).enabled final event := by
    intro _ enabled
    simp [EpollWait.machine, EpollWait.Proceeds, waiting, answered] at enabled
  rw [← log]
  exact leads.log_prefix EpollWait.log (fun self _ => self.log_grows) stuck reached

/-- The first failed call takes the loop into the array, where it has to end. -/
theorem not_dispatches_of_failure {first rest : List (WaitResult Handle)}
    (succeed : ∀ result ∈ first, ¬ result.Failed) (errno : Nat) :
    ¬ Dispatches (first ++ .failed errno :: rest) := by
  intro holds
  obtain ⟨middle, leads, waiting, answers, log⟩ :=
    EpollWait.leads_rounds first (.failed errno :: rest) succeed
      { results := first ++ .failed errno :: rest } rfl rfl
  obtain ⟨state, behind, onward, reads⟩ := EpollWait.failed_reads waiting answers
  have within := holds.only state (leads.trans onward).reachable
  rw [reads, log, List.nil_append, List.flatMap_append, List.flatMap_cons,
    List.prefix_append_right_inj] at within
  simp [WaitResult.round] at within

/-- Results without a failure, or with a first one. -/
theorem first_failure (results : List (WaitResult Handle)) :
    (∀ result ∈ results, ¬ result.Failed) ∨
      ∃ first errno rest, results = first ++ .failed errno :: rest ∧ ∀ result ∈ first, ¬ result.Failed := by
  induction results with
  | nil => exact .inl (fun result member => by cases member)
  | cons result results ih =>
    cases result with
    | failed errno => exact .inr ⟨[], errno, results, rfl, fun result member => by cases member⟩
    | ready handles fits =>
      have succeeds : ¬ (WaitResult.ready handles fits).Failed := id
      rcases ih with all | ⟨first, errno, rest, rfl, before⟩
      · exact .inl (List.forall_mem_cons.mpr ⟨succeeds, all⟩)
      · exact .inr ⟨.ready handles fits :: first, errno, rest, rfl,
          List.forall_mem_cons.mpr ⟨succeeds, before⟩⟩

/-- The loop dispatches what the kernel reports exactly if no call fails. -/
theorem dispatches_iff_no_failure (results : List (WaitResult Handle)) :
    Dispatches results ↔ ∀ result ∈ results, ¬ result.Failed := by
  refine ⟨fun holds => ?_, dispatches_of_success⟩
  rcases first_failure results with succeed | ⟨first, errno, rest, rfl, succeed⟩
  · exact succeed
  · exact absurd holds (not_dispatches_of_failure succeed errno)

/-- An interrupted call makes the loop read an entry that the kernel did not fill. -/
theorem interrupted_wait_reads_entry : ¬ Dispatches [(WaitResult.failed 4 : WaitResult Nat)] :=
  @not_dispatches_of_failure Nat [] [] (by simp) 4

end CoroMultiplex.Async
