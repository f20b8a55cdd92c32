import CoroMultiplex.Uring.Ledger

/-! What the reaper hands to the pool.

The tasks handed over so far are those of the completions the reaper has gone past,
each taken once and in the order in which the kernel posted them.
-/

set_option autoImplicit false

namespace CoroMultiplex.Uring

open Foundations Http

def Cqe.tasks (c : Cqe) : List Task := c.handlers ++ c.callers

namespace RingState

/-- The completion that is dealt with and not yet marked as seen. -/
def leaving (s : RingState) : List Cqe :=
  match s.reaper with
  | .seen c => [c]
  | _ => []

/-- The completions the reaper has gone past. -/
def handled (s : RingState) : List Cqe := s.reaped ++ s.leaving

/-- The tasks of the completion that the reaper is at. -/
def begun (s : RingState) : List Task :=
  match s.reaper with
  | .last c => c.handlers
  | _ => []

end RingState

def Handing (s : RingState) : Prop := s.handed = s.handled.flatMap Cqe.tasks ++ s.begun

/-- What a step of anything but the reaper leaves as it is. -/
def RingState.reaping (s : RingState) : ReapPc × List Task × List Cqe := (s.reaper, s.handed, s.reaped)

theorem Handing.frame {s t : RingState} (handing : Handing s) (same : t.reaping = s.reaping) :
    Handing t := by
  have reaper : t.reaper = s.reaper := congrArg Prod.fst same
  have handed : t.handed = s.handed := congrArg (fun r => r.2.1) same
  have reaped : t.reaped = s.reaped := congrArg (fun r => r.2.2) same
  rw [Handing, RingState.handled, RingState.leaving, RingState.begun, reaper, handed, reaped]
  exact handing

namespace RingState

theorem reaping_setReturn (s : RingState) (address : Address) (value : Except ErrorCode Int) :
    (s.setReturn address value).reaping = s.reaping := by
  unfold RingState.setReturn
  cases s.memory address <;> rfl

theorem reaping_awaitResume (acceptor : Handle → Option Handler) (s : RingState) (a : Await) :
    (s.awaitResume acceptor a).reaping = s.reaping := by
  unfold RingState.awaitResume
  cases s.memory a.address <;> rfl

/-- Only the reaper's own steps change what it has dealt with. -/
theorem reaping_next (acceptor : Handle → Option Handler) (s : RingState) {event : Event}
    (notPeek : ∀ outcome, event ≠ .peek outcome) (notReap : event ≠ .reap) :
    (next acceptor s event).reaping = s.reaping := by
  cases event with
  | await | suspendReturns | complete => rfl
  | prep a free =>
    cases free with
    | true => rfl
    | false => exact s.reaping_setReturn a.address (.error .sqeBusy)
  | goOn a => exact s.reaping_awaitResume acceptor a
  | peek outcome => exact absurd rfl (notPeek outcome)
  | reap => exact absurd rfl notReap
  | resume task =>
    cases task with
    | handler => rfl
    | coroutine handle c =>
      simp only [next]
      cases s.control handle with
      | suspended a => exact RingState.reaping_awaitResume acceptor _ a
      | running | suspending | refused | ended => rfl

end RingState

namespace Sound

variable {s : RingState}

/-- The kernel's completions are those the reaper has gone past, and then the rest. -/
theorem posted_eq (sound : Sound s) : s.posted = s.handled ++ s.unreaped := by
  have reaping := sound.reaping
  unfold Reaping at reaping
  unfold RingState.posted RingState.handled RingState.leaving RingState.unreaped
  cases place : s.reaper with
  | seen c =>
    rw [place] at reaping
    obtain ⟨rest, queue⟩ := List.head?_eq_some_iff.mp reaping
    rw [queue, List.append_assoc]
    rfl
  | peek | yielded | store | dispatch | last | thrown => simp

theorem handing_reap (sound : Sound s) (handing : Handing s) : Handing s.reap := by
  unfold Handing RingState.handled RingState.leaving RingState.begun at handing
  cases place : s.reaper with
  | peek | thrown | yielded =>
    rw [place] at handing
    simpa only [Handing, RingState.handled, RingState.leaving, RingState.begun, RingState.reap,
      place] using handing
  | store c =>
    rw [place] at handing
    have same := s.reaping_setReturn c.userData (returned c.res)
    have handed : (s.setReturn c.userData (returned c.res)).handed = s.handed :=
      congrArg (fun r => r.2.1) same
    have reaped : (s.setReturn c.userData (returned c.res)).reaped = s.reaped :=
      congrArg (fun r => r.2.2) same
    simpa only [Handing, RingState.handled, RingState.leaving, RingState.begun, RingState.reap,
      place, handed, reaped] using handing
  | dispatch c =>
    rw [place] at handing
    rw [sound.reap_dispatch place]
    cases shot : c.owner.operation.multishot with
    | true =>
      simp only [if_true, Handing, RingState.handled, RingState.leaving, RingState.begun,
        RingState.addTasks, handing, List.append_nil]
    | false =>
      have none_ : c.handlers = [] := by
        unfold Cqe.handlers
        cases operation : c.owner.operation with
        | send | recv => rfl
        | multishotAccept handler =>
          rw [operation] at shot
          cases shot
      simp [Handing, RingState.handled, RingState.leaving, RingState.begun, RingState.addTasks,
        handing, Cqe.tasks, none_]
  | last c =>
    rw [place] at handing
    obtain ⟨_, _, _, reap⟩ := sound.reap_last place
    rw [reap]
    simp [Handing, RingState.handled, RingState.leaving, RingState.begun, RingState.addTasks,
      handing, Cqe.tasks]
  | seen c =>
    rw [place] at handing
    have first : s.cq.take 1 = [c] := by
      have reaping := sound.reaping
      rw [Reaping, place] at reaping
      obtain ⟨rest, queue⟩ := List.head?_eq_some_iff.mp reaping
      rw [queue]
      rfl
    simpa [Handing, RingState.handled, RingState.leaving, RingState.begun, RingState.reap, place,
      RingState.cqeSeen, first] using handing

theorem handing (sound : Sound s) (handing : Handing s) {acceptor : Handle → Option Handler}
    {event : Event} (enabled : Enabled acceptor s event) : Handing (next acceptor s event) := by
  cases event with
  | await | prep | suspendReturns | goOn | complete | resume =>
    exact handing.frame (s.reaping_next acceptor nofun nofun)
  | peek outcome =>
    obtain ⟨peeking, outcome_⟩ := enabled
    unfold Handing RingState.handled RingState.leaving RingState.begun at handing
    rw [peeking] at handing
    cases outcome with
    | again held =>
      cases outcome_
      exact handing
    | failed errno | nothing => exact handing
    | entry =>
      obtain ⟨c, rest, queue⟩ := List.exists_cons_of_ne_nil outcome_
      simp only [next, RingState.peek, queue, List.head?_cons]
      exact handing
  | reap => exact sound.handing_reap handing

end Sound

/-- What holds of the ring along every run. -/
structure Orderly (s : RingState) : Prop where
  sound : Sound s
  balanced : Balanced s.books
  handing : Handing s

theorem Orderly.step {s : RingState} (orderly : Orderly s) {acceptor : Handle → Option Handler}
    {event : Event} (enabled : Enabled acceptor s event) : Orderly (next acceptor s event) where
  sound := orderly.sound.step enabled
  balanced := orderly.balanced.entry (orderly.sound.entry enabled)
  handing := orderly.sound.handing orderly.handing enabled

theorem orderly_start : Orderly {} where
  sound := sound_start
  balanced := .start _ fun _ => rfl
  handing := rfl

/-- The tasks that resume the coroutine of an await. -/
def Task.awakens (a : Await) : Task → Bool
  | .coroutine _ of => of.owner = a
  | .handler _ _ _ => false

/-- The tasks that serve the connection of a completion. -/
def Task.serves (c : Cqe) : Task → Bool
  | .coroutine _ _ => false
  | .handler _ _ of => of = c

namespace Cqe

theorem countP_handlers (a : Await) (c : Cqe) : c.handlers.countP (Task.awakens a) = 0 := by
  rw [List.countP_eq_zero]
  intro task member awakens
  obtain ⟨handler, rfl, _⟩ := c.mem_handlers member
  cases awakens

theorem countP_callers (a : Await) (c : Cqe) :
    c.callers.countP (Task.awakens a) = if c.owner = a ∧ c.more = false then 1 else 0 := by
  cases more : c.more <;> simp [Cqe.callers, more, List.countP_singleton, Task.awakens]

theorem countP_tasks (a : Await) (completions : List Cqe) :
    (completions.flatMap Cqe.tasks).countP (Task.awakens a) =
      completions.countP fun c => c.owner = a ∧ c.more = false := by
  induction completions with
  | nil => rfl
  | cons c rest ih =>
    rw [List.flatMap_cons, List.countP_append, Cqe.tasks, List.countP_append, c.countP_handlers,
      c.countP_callers, ih, List.countP_cons, Nat.zero_add, Nat.add_comm]
    simp only [decide_eq_true_eq]

theorem filter_handlers (c d : Cqe) :
    d.handlers.filter (Task.serves c) = if d = c then c.handlers else [] := by
  by_cases same : d = c
  · subst same
    rw [if_pos rfl, List.filter_eq_self]
    intro task member
    obtain ⟨handler, rfl, _⟩ := d.mem_handlers member
    exact decide_eq_true rfl
  · rw [if_neg same, List.filter_eq_nil_iff]
    intro task member serves
    obtain ⟨handler, rfl, _⟩ := d.mem_handlers member
    exact same (of_decide_eq_true serves)

theorem filter_callers (c d : Cqe) : d.callers.filter (Task.serves c) = [] := by
  cases more : d.more <;> simp [Cqe.callers, more, Task.serves]

theorem filter_tasks (c : Cqe) {completions : List Cqe} (nodup : completions.Nodup) :
    (completions.flatMap Cqe.tasks).filter (Task.serves c) =
      if c ∈ completions then c.handlers else [] := by
  induction completions with
  | nil => rfl
  | cons d rest ih =>
    obtain ⟨fresh, nodup⟩ := List.nodup_cons.mp nodup
    rw [List.flatMap_cons, List.filter_append, Cqe.tasks, List.filter_append, filter_handlers,
      filter_callers, List.append_nil, ih nodup]
    by_cases same : d = c
    · subst same
      rw [if_pos rfl, if_neg fresh, if_pos List.mem_cons_self, List.append_nil]
    · rw [if_neg same, List.nil_append]
      simp [Ne.symm same]

end Cqe

namespace Orderly

variable {s : RingState}

theorem handed_eq (orderly : Orderly s) : s.handed = s.handled.flatMap Cqe.tasks ++ s.begun :=
  orderly.handing

theorem posted_nodup (orderly : Orderly s) : s.posted.Nodup := by
  have serials : (s.posted.map Cqe.serial).Nodup := orderly.balanced.serials ▸ List.nodup_range
  exact List.Nodup.of_map Cqe.serial serials

/-- An accepted await has its submission in flight, its last completion still to be
dealt with, or its coroutine handed over: one of the three, and once. -/
theorem granted_eq (orderly : Orderly s) (a : Await) :
    s.granted.count a = s.kernel.countP (·.owner = a) +
      (s.unreaped.countP fun c => c.owner = a ∧ c.more = false) +
      s.handed.countP (Task.awakens a) := by
  have begun : s.begun.countP (Task.awakens a) = 0 := by
    unfold RingState.begun
    split
    · exact Cqe.countP_handlers a _
    · rfl
  have landed : s.granted.count a = s.kernel.countP (·.owner = a) +
      s.posted.countP (fun c => c.owner = a ∧ c.more = false) := orderly.balanced.landed a
  rw [orderly.handed_eq, List.countP_append, Cqe.countP_tasks, begun, landed, orderly.sound.posted_eq,
    List.countP_append]
  omega

/-- A task handed over is of a completion that the kernel has posted. -/
theorem of_handed (orderly : Orderly s) {task : Task} (member : task ∈ s.handed) :
    ∃ c ∈ s.posted, task ∈ c.tasks := by
  rw [orderly.handed_eq] at member
  rcases List.mem_append.mp member with gone | begun
  · obtain ⟨c, handled, task⟩ := List.mem_flatMap.mp gone
    exact ⟨c, orderly.sound.posted_eq ▸ List.mem_append_left _ handled, task⟩
  · unfold RingState.begun at begun
    cases place : s.reaper with
    | last c =>
      rw [place] at begun
      obtain ⟨first, _⟩ := orderly.sound.reap_last place
      exact ⟨c, List.mem_append_right _ (List.mem_of_mem_head? first), List.mem_append_left _ begun⟩
    | peek | yielded | store | dispatch | seen | thrown =>
      rw [place] at begun
      cases begun

theorem of_handed_coroutine (orderly : Orderly s) {handle : Handle} {c : Cqe}
    (member : .coroutine handle c ∈ s.handed) :
    c ∈ s.posted ∧ handle = c.owner.handle ∧ c.more = false := by
  obtain ⟨d, posted, task⟩ := orderly.of_handed member
  rcases List.mem_append.mp task with handlers | callers
  · obtain ⟨handler, impossible, _⟩ := d.mem_handlers handlers
    cases impossible
  · unfold Cqe.callers at callers
    cases more : d.more with
    | true => simp [more] at callers
    | false =>
      simp only [more, Bool.false_eq_true, if_false, List.mem_singleton, Task.coroutine.injEq]
        at callers
      obtain ⟨rfl, rfl⟩ := callers
      exact ⟨posted, rfl, more⟩

/-- The completions whose handler the reaper has come to. -/
theorem filter_handed (orderly : Orderly s) (c : Cqe) :
    s.handed.filter (Task.serves c) =
      if c ∈ s.handled ∨ s.reaper = .last c then c.handlers else [] := by
  have nodup : (s.handled ++ s.unreaped).Nodup := orderly.sound.posted_eq ▸ orderly.posted_nodup
  rw [orderly.handed_eq, List.filter_append, Cqe.filter_tasks c nodup.of_append_left]
  unfold RingState.begun
  cases place : s.reaper with
  | last d =>
    have fresh : d ∉ s.handled := by
      obtain ⟨first, _⟩ := orderly.sound.reap_last place
      have waiting : d ∈ s.unreaped := by
        rw [RingState.unreaped, place]
        exact List.mem_of_mem_head? first
      exact fun twice => List.disjoint_of_nodup_append nodup twice waiting
    simp only [Cqe.filter_handlers, ReapPc.last.injEq]
    by_cases same : d = c
    · subst same
      rw [if_neg fresh, if_pos rfl, if_pos (.inr rfl), List.nil_append]
    · simp [same]
  | peek | yielded | store | dispatch | seen | thrown => simp

end Orderly

end CoroMultiplex.Uring
