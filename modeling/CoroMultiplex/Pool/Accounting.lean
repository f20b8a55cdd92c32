import CoroMultiplex.Pool.Binding

/-! The books of the pool.

They say of every occurrence that was added that it is resumed, skipped, erased, queued
or in the hands of the worker of its queue.
-/

set_option autoImplicit false

namespace CoroMultiplex.Pool

open Foundations

namespace ThreadPool

variable {Handle : Type} [DecidableEq Handle]

/-- The books of one queue agree with its content and with its worker. -/
structure Balanced (pool : ThreadPool Handle) (index : Nat) : Prop where
  consistent : (pool.ledger index).Consistent (pool.tasks index)
  handled : (pool.ledger index).popped.Perm ((pool.ledger index).resumed ++
    ((pool.ledger index).skipped ++ (pool.workers index).pending))
  ticketed : ∀ entry ∈ (pool.ledger index).added, entry.ticket < pool.nextTicket

/-- The occurrences that are queued, or popped and not yet handled. -/
def outstanding (pool : ThreadPool Handle) (index : Nat) : List (Entry Handle) :=
  pool.tasks index ++ (pool.workers index).pending

variable {self other : ThreadPool Handle} {threadCnt : Nat}

theorem balanced_congr {index : Nat} (balanced : self.Balanced index)
    (ledger : other.ledger index = self.ledger index) (tasks : other.tasks index = self.tasks index)
    (pending : (other.workers index).pending = (self.workers index).pending)
    (tickets : self.nextTicket ≤ other.nextTicket) : other.Balanced index where
  consistent := by
    rw [ledger, tasks]
    exact balanced.consistent
  handled := by
    rw [ledger, pending]
    exact balanced.handled
  ticketed := by
    rw [ledger]
    intro entry member
    exact Nat.lt_of_lt_of_le (balanced.ticketed entry member) tickets

theorem balanced_push (balanced : ∀ index, self.Balanced index) {caller : Caller} {task : Handle}
    {target : Nat} (calling : self.calls caller = some { task, targetQueue := .queue target })
    (index : Nat) : (self.push caller).Balanced index := by
  rw [push_queue calling]
  by_cases here : index = target
  · subst here
    constructor
    · simp only [Function.update_self]
      apply (balanced index).consistent.enqueue
      -- The new ticket is above those of all earlier occurrences.
      intro member
      exact absurd ((balanced index).ticketed _ member) (Nat.lt_irrefl _)
    · simp only [Function.update_self]
      exact (balanced index).handled
    · simp only [Function.update_self, List.mem_append, List.mem_singleton]
      rintro entry (before | rfl)
      · exact Nat.lt_succ_of_lt ((balanced index).ticketed entry before)
      · exact Nat.lt_succ_self _
  · apply balanced_congr (balanced index)
    · exact Function.update_of_ne here _ _
    · exact Function.update_of_ne here _ _
    · rfl
    · exact Nat.le_succ _

theorem balanced_pop (balanced : ∀ index, self.Balanced index) {queue : Nat}
    (idle : self.workers queue = .idle) (index : Nat) : (self.pop queue).Balanced index := by
  unfold pop
  split
  · exact balanced index
  · rename_i entry rest queued
    by_cases here : index = queue
    · subst here
      -- An idle worker has resumed or skipped all that it popped.
      have before := (balanced index).consistent
      have handled := (balanced index).handled
      rw [queued] at before
      rw [idle, Worker.pending, List.append_nil] at handled
      constructor
      · simp only [Function.update_self]
        exact before.dequeue
      · simp only [Function.update_self, Worker.pending]
        rw [← List.append_assoc]
        exact handled.append_right [entry]
      · simp only [Function.update_self]
        exact (balanced index).ticketed
    · apply balanced_congr (balanced index)
      · exact Function.update_of_ne here _ _
      · exact Function.update_of_ne here _ _
      · exact congrArg Worker.pending (Function.update_of_ne here _ _)
      · exact Nat.le_refl _

theorem balanced_resume (balanced : ∀ index, self.Balanced index) (queue index : Nat) :
    (self.resume queue).Balanced index := by
  unfold resume
  split
  · rename_i entry holding
    by_cases here : index = queue
    · subst here
      have handled := (balanced index).handled
      rw [holding, Worker.pending] at handled
      split
      · refine ⟨?_, ?_, ?_⟩
        · simp only [Function.update_self]
          exact (balanced index).consistent
        · simp only [Function.update_self, Worker.pending, List.append_nil]
          exact handled
        · simp only [Function.update_self]
          exact (balanced index).ticketed
      · refine ⟨?_, ?_, ?_⟩
        · simp only [Function.update_self]
          exact (balanced index).consistent
        · simp only [Function.update_self, Worker.pending, List.append_nil]
          rw [List.append_assoc]
          exact handled.trans (List.perm_append_comm.append_left _)
        · simp only [Function.update_self]
          exact (balanced index).ticketed
    · split
      all_goals
        apply balanced_congr (balanced index)
        · exact Function.update_of_ne here _ _
        · rfl
        · exact congrArg Worker.pending (Function.update_of_ne here _ _)
        · exact Nat.le_refl _
  · exact balanced index

theorem balanced_leave (balanced : ∀ index, self.Balanced index) {queue : Nat}
    {entry : Entry Handle} (running : self.workers queue = .running entry) (index : Nat) :
    (self.leave queue).Balanced index := by
  apply balanced_congr (balanced index)
  · rfl
  · rfl
  · by_cases here : index = queue
    · subst here
      simp [leave, running, Worker.pending]
    · exact congrArg Worker.pending (Function.update_of_ne here _ _)
  · exact Nat.le_refl _

theorem balanced_sweep (balanced : ∀ index, self.Balanced index) (taskSet : List Handle)
    (queue index : Nat) : (self.sweep taskSet queue).Balanced index := by
  by_cases here : index = queue
  · subst here
    refine ⟨?_, ?_, ?_⟩
    · simp only [sweep, Function.update_self]
      exact (balanced index).consistent.eraseIf fun entry => taskSet.contains entry.task
    · simp only [sweep, Function.update_self]
      exact (balanced index).handled
    · simp only [sweep, Function.update_self]
      exact (balanced index).ticketed
  · apply balanced_congr (balanced index)
    · exact Function.update_of_ne here _ _
    · exact Function.update_of_ne here _ _
    · rfl
    · exact Nat.le_refl _

theorem balanced_step {event : Event Handle} (balanced : ∀ index, self.Balanced index)
    (enabled : (machine threadCnt).enabled self event) (index : Nat) :
    ((machine threadCnt).next self event).Balanced index := by
  cases event with
  | bind caller task =>
    simp only [machine, bind]
    split <;> exact balanced_congr (balanced index) rfl rfl rfl (Nat.le_refl _)
  | push caller =>
    obtain ⟨task, target, calling, _⟩ := enabled
    exact balanced_push balanced calling index
  | pop queue => exact balanced_pop balanced enabled.2.2.1 index
  | resume queue => exact balanced_resume balanced queue index
  | leave queue =>
    obtain ⟨⟨entry, running⟩, _⟩ := enabled
    exact balanced_leave balanced running index
  | clean order =>
    simp only [machine, cleanTasks]
    split
    · exact balanced index
    · refine sweepAll_induction (fun pool => ∀ index, pool.Balanced index) ?_ ?_ order index
      · intro pool queue holds other
        exact balanced_sweep holds _ queue other
      · intro other
        exact balanced_congr (balanced other) rfl rfl rfl (Nat.le_refl _)
  | _ => exact balanced_congr (balanced index) rfl rfl rfl (Nat.le_refl _)

theorem balanced_reachable (reached : (machine threadCnt).Reachable {} self) (index : Nat) :
    self.Balanced index := by
  refine reached.holds (fun pool => ∀ index, pool.Balanced index) ?_ ?_ index
  · intro index
    exact ⟨QueueHistory.consistent_nil, .nil, by rintro entry ⟨⟩⟩
  · intro pool event balanced enabled index
    exact balanced_step balanced enabled index

end ThreadPool

end CoroMultiplex.Pool
