import CoroMultiplex.Pool.Accounting
import CoroMultiplex.Pool.Binding
import CoroMultiplex.Pool.Tracking

/-! The critical sections of the pool are atomic.

Whatever happens between the lock operations of the calls, the data is that of a
run of whole operations. A pass counts as done when it has collected its tasks:
nothing that it has still to sweep can be touched before it ends.
-/

set_option autoImplicit false

namespace CoroMultiplex.Pool

open Foundations

variable {Handle : Type} [DecidableEq Handle]

namespace ThreadPool

/-- The pool in which a handle names a frame, or none. -/
def put (self : ThreadPool Handle) (task : Handle) (frame : Option Frame)
    (nextFrame : Nat) : ThreadPool Handle :=
  { self with frames := Function.update self.frames task frame, nextFrame }

/-- Sweeps and the frame of a handle that they spare do not touch each other. -/
theorem sweep_put (self : ThreadPool Handle) {task : Handle} {taskSet : List Handle}
    (spared : task ∉ taskSet) (frame : Option Frame) (nextFrame index : Nat) :
    (self.put task frame nextFrame).sweep taskSet index =
      (self.sweep taskSet index).put task frame nextFrame := by
  have frames : (fun other => if other ∈ taskSet then none
      else Function.update self.frames task frame other) =
        Function.update (fun other => if other ∈ taskSet then none else self.frames other)
          task frame := by
    funext other
    by_cases here : other = task
    · subst here
      simp [spared]
    · simp [here]
  have named : taskSet.filterMap (self.put task frame nextFrame).frameId =
      taskSet.filterMap self.frameId := by
    apply List.filterMap_congr
    intro other member
    have apart : other ≠ task := by
      rintro rfl
      exact spared member
    simp [frameId, put, apart]
  simp only [sweep, named]
  simp only [put, frames]

theorem sweepAll_put (self : ThreadPool Handle) {task : Handle}
    {taskSets : Nat → List Handle} {order : List Nat} (spared : ∀ index ∈ order, task ∉ taskSets index)
    (frame : Option Frame) (nextFrame : Nat) :
    (self.put task frame nextFrame).sweepAll taskSets order =
      (self.sweepAll taskSets order).put task frame nextFrame := by
  induction order generalizing self with
  | nil => rfl
  | cons index order ih =>
    obtain ⟨here, rest⟩ := List.forall_mem_cons.mp spared
    change ((self.put task frame nextFrame).sweep _ _).sweepAll taskSets order = _
    rw [self.sweep_put here]
    exact ih (self.sweep (taskSets index) index) rest

end ThreadPool

namespace LockedPool

variable {threadCnt : Nat} {self : LockedPool Handle}

/-- Callers bind only handles whose frame exists. -/
def Named (self : LockedPool Handle) : Step Handle → Prop
  | .add caller => ∀ task, self.adds caller = .find task ∨ self.adds caller = .select task →
      self.pool.frames task ≠ none
  | _ => True

/-- A step is answered by at most one operation of the pool. -/
def Answered (threadCnt : Nat) (before after : ThreadPool Handle) : Prop :=
  ∃ events, (ThreadPool.populated threadCnt).Allowed before events ∧
    after = (ThreadPool.populated threadCnt).exec before events

theorem Answered.nothing {before after : ThreadPool Handle} (same : after = before) :
    Answered threadCnt before after :=
  ⟨[], trivial, same⟩

theorem Answered.event {before : ThreadPool Handle} {event : Event Handle}
    (enabled : (ThreadPool.populated threadCnt).enabled before event) :
    Answered threadCnt before ((ThreadPool.populated threadCnt).next before event) :=
  ⟨[event], ⟨enabled, trivial⟩, rfl⟩

/-- A task that calls `addTask` is running. -/
theorem Tracked.calling (tracked : self.Tracked threadCnt) {caller : Caller}
    (begun : self.adds caller ≠ .idle) : self.pool.Calling caller := by
  cases caller with
  | worker index =>
    have fits := tracked.worker index
    rw [tracked.nested index begun] at fits
    exact fits
  | outside thread => trivial

theorem Tracked.answer_add (tracked : self.Tracked threadCnt) (elements : self.view.Elements)
    {caller : Caller} (named : self.Named (.add caller)) :
    Answered threadCnt self.view (self.addStep caller).view := by
  -- While the call shares the clean-up mutex the view is the pool itself.
  have views : Lock.clean ∈ (self.held (.add caller)).shared → self.view = self.pool ∧
      (self.addStep caller).view = (self.adds caller).effect self.pool caller := by
    intro shared
    have outside := cleaner_outside tracked.agreed shared
    exact ⟨view_outside outside, view_outside outside⟩
  have quiet : (self.adds caller).effect self.pool caller = self.pool →
      Answered threadCnt self.view (self.addStep caller).view := by
    intro same
    apply Answered.nothing
    rw [view, LockedPool.addStep, same]
    rfl
  cases point : self.adds caller with
  | find task =>
    obtain ⟨before, after⟩ := views (by simp [held, point, AddPc.held])
    cases known : self.pool.taskBinding.lookup task with
    | none =>
      apply quiet
      simp [point, AddPc.effect, known]
    | some target =>
      have found : (self.addStep caller).view = self.pool.bind caller task := by
        rw [after, point, ThreadPool.bind_bound known]
        simp [AddPc.effect, known]
      rw [before, found]
      apply @Answered.event Handle _ threadCnt self.pool (.bind caller task)
      refine ⟨⟨tracked.constructed, tracked.calling (by simp [point]), ?_, ?_⟩, trivial⟩
      · exact tracked.silent caller (by rw [point]; rfl)
      · exact named task (Or.inl point)
  -- The whole of the selection counts here: nobody saw the pool since the lookup.
  | select task =>
    obtain ⟨before, after⟩ := views (by simp [held, point, AddPc.held])
    have bound : (self.addStep caller).view = self.pool.bind caller task := by
      rw [after, point, ThreadPool.bind_fresh (tracked.fresh caller task (Or.inr point))]
      rfl
    rw [before, bound]
    apply @Answered.event Handle _ threadCnt self.pool (.bind caller task)
    refine ⟨⟨tracked.constructed, tracked.calling (by simp [point]), ?_, ?_⟩, trivial⟩
    · exact tracked.silent caller (by rw [point]; rfl)
    · exact named task (Or.inr point)
  | pushBack target =>
    obtain ⟨before, after⟩ := views (by simp [held, point, AddPc.held])
    obtain ⟨⟨task, chosen⟩, calling, same⟩ := Option.map_eq_some_iff.mp
      (tracked.targeted caller target (by rw [point]; rfl))
    rw [before] at elements
    have element := elements.called caller _ calling
    have pushed : (self.addStep caller).view = self.pool.push caller := by
      rw [after, point]
      rfl
    rw [before, pushed]
    cases chosen with
    | sentinel => exact element.elim
    | queue index =>
      exact @Answered.event Handle _ threadCnt self.pool (.push caller)
        ⟨⟨task, index, calling, element⟩, trivial⟩
  | _ => exact quiet (by rw [point]; rfl)

theorem Tracked.answer_run (tracked : self.Tracked threadCnt) {index : Nat}
    (enabled : (machine threadCnt).enabled self (.run index)) :
    Answered threadCnt self.view (self.runStep index).view := by
  obtain ⟨one, _, _, returned⟩ := enabled
  have views : Lock.clean ∈ (self.held (.run index)).shared → self.view = self.pool ∧
      (self.runStep index).view = (self.runs index).effect index self.pool := by
    intro shared
    have outside := cleaner_outside tracked.agreed shared
    exact ⟨view_outside outside, view_outside outside⟩
  have fits := tracked.worker index
  cases point : self.runs index with
  | popFront =>
    obtain ⟨before, after⟩ := views (by simp [held, point, RunPc.held])
    rw [point] at fits after
    rw [before, after]
    exact @Answered.event Handle _ threadCnt self.pool (.pop index)
      ⟨⟨tracked.registered, one, fits, tracked.filled index (Or.inr point)⟩, trivial⟩
  | resume =>
    obtain ⟨before, after⟩ := views (by simp [held, point, RunPc.held])
    rw [point] at fits after
    rw [before, after]
    exact @Answered.event Handle _ threadCnt self.pool (.resume index) ⟨fits, trivial⟩
  | running =>
    obtain ⟨before, after⟩ := views (by simp [held, point, RunPc.held])
    rw [point] at fits after
    have idle := tracked.silent (.worker index) (by rw [returned point]; rfl)
    rw [before, after]
    exact @Answered.event Handle _ threadCnt self.pool (.leave index) ⟨⟨fits, idle⟩, trivial⟩
  | _ =>
    apply Answered.nothing
    rw [view, LockedPool.runStep, point]
    rfl

/-- Nobody is in a critical section of the pool when a pass begins. -/
theorem Tracked.alone (tracked : self.Tracked threadCnt) (testing : self.cleaner = .testSize) :
    (∀ caller, self.pool.calls caller = none) ∧ ∀ index, self.pool.workers index = .idle := by
  have owned : Lock.clean ∈ (self.held .clean).exclusive := by
    simp [held, testing, CleanPc.held]
  have refused := tracked.agreed.excluded .clean .clean owned
  constructor
  · intro caller
    apply tracked.silent caller
    have outside := refused (.add caller)
    cases point : self.adds caller with
    | idle | lockClean => rfl
    | _ => simp [held, point, AddPc.held] at outside
  · exact fun index => (tracked.worker index).idle (refused (.run index))

theorem Tracked.answer_clean (tracked : self.Tracked threadCnt) {order : List Nat}
    (enabled : (machine threadCnt).enabled self (.clean order)) :
    Answered threadCnt self.view (self.cleanStep order).view := by
  cases point : self.cleaner with
  | testSize =>
    have before : self.view = self.pool := by
      rw [view, point]
      rfl
    by_cases small : self.pool.taskBinding.size < 10000
    · apply Answered.nothing
      rw [before, view, LockedPool.cleanStep, point]
      simp only [CleanPc.effect, CleanPc.next, if_pos small]
      rfl
    · -- The pass counts as done with the collection of its tasks.
      have after : (self.cleanStep order).view = self.pool.cleanTasks order := by
        rw [view, LockedPool.cleanStep, point, ThreadPool.cleanTasks, if_neg small]
        simp only [CleanPc.effect, CleanPc.next, if_neg small]
        rfl
      obtain ⟨quiet, idle⟩ := tracked.alone point
      rw [before, after]
      exact @Answered.event Handle _ threadCnt self.pool (.clean order)
        ⟨⟨quiet, idle, enabled.2 point small⟩, trivial⟩
  -- A sweep of the pass is part of its view already.
  | nextQueue doneTasks rest =>
    apply Answered.nothing
    rw [view, view, LockedPool.cleanStep, point]
    cases rest <;> rfl
  | _ =>
    apply Answered.nothing
    rw [view, view, LockedPool.cleanStep, point]
    rfl

theorem view_frames_spared {task : Handle}
    (spared : ∀ index ∈ self.cleaner.remaining, task ∉ self.cleaner.taskSets index) :
    self.view.frames task = self.pool.frames task := by
  rw [view, ThreadPool.sweepAll_frames, if_neg]
  rintro ⟨index, member, pends⟩
  exact spared index member pends

/-- Frames come and go in the middle of a pass as they would behind it. -/
theorem Tracked.answer_create (tracked : self.Tracked threadCnt) {task : Handle}
    (absent : self.pool.frames task = none) :
    Answered threadCnt self.view ((machine threadCnt).next self (.create task)).view := by
  have spared : ∀ index ∈ self.cleaner.remaining, task ∉ self.cleaner.taskSets index := by
    intro index member pends
    have done := tracked.pending.done index member task pends
    simp [ThreadPool.isDone, absent] at done
  have counter : self.view.nextFrame = self.pool.nextFrame :=
    ThreadPool.sweepAll_keeps ThreadPool.nextFrame (fun _ _ _ => rfl) self.pool _ _
  have created : ((machine threadCnt).next self (.create task)).view = self.view.create task := by
    change (self.pool.put task (some { id := self.pool.nextFrame })
      (self.pool.nextFrame + 1)).sweepAll self.cleaner.taskSets self.cleaner.remaining = _
    rw [self.pool.sweepAll_put spared, ← counter]
    rfl
  rw [created]
  apply @Answered.event Handle _ threadCnt self.view (.create task)
  exact ⟨(view_frames_spared spared).trans absent, trivial⟩

theorem Tracked.answer_finish (tracked : self.Tracked threadCnt) {task : Handle} {frame : Frame}
    (known : self.pool.frames task = some frame) (unfinished : frame.done = false) :
    Answered threadCnt self.view ((machine threadCnt).next self (.finish task)).view := by
  have spared : ∀ index ∈ self.cleaner.remaining, task ∉ self.cleaner.taskSets index := by
    intro index member pends
    have done := tracked.pending.done index member task pends
    simp [ThreadPool.isDone, known, unfinished] at done
  have same := view_frames_spared spared
  have counter : self.view.nextFrame = self.pool.nextFrame :=
    ThreadPool.sweepAll_keeps ThreadPool.nextFrame (fun _ _ _ => rfl) self.pool _ _
  have finished : ((machine threadCnt).next self (.finish task)).view = self.view.finish task := by
    change (self.pool.put task ((self.pool.frames task).map fun frame =>
      { frame with done := true }) self.pool.nextFrame).sweepAll self.cleaner.taskSets
        self.cleaner.remaining = _
    rw [self.pool.sweepAll_put spared, ← counter, ← same]
    rfl
  rw [finished]
  apply @Answered.event Handle _ threadCnt self.view (.finish task)
  exact ⟨⟨frame, same.trans known, unfinished⟩, trivial⟩

/-- Every step between two locks is one operation of the pool or none. -/
theorem Tracked.answer (tracked : self.Tracked threadCnt) (elements : self.view.Elements)
    {step : Step Handle} (enabled : ((machine threadCnt).restrict Named).enabled self step) :
    Answered threadCnt self.view ((machine threadCnt).next self step).view := by
  obtain ⟨enabled, named⟩ := enabled
  cases step with
  | call caller task => exact Answered.nothing rfl
  | add caller => exact tracked.answer_add elements named
  | run index => exact tracked.answer_run enabled
  | clean order => exact tracked.answer_clean enabled
  | wake index => exact Answered.nothing rfl
  | create task => exact tracked.answer_create enabled
  | finish task =>
    obtain ⟨frame, known, unfinished⟩ := enabled
    exact tracked.answer_finish known unfinished

theorem tracked_start : (start threadCnt : LockedPool Handle).Tracked threadCnt := by
  refine ⟨sound_start threadCnt, rfl, Option.some_ne_none _, ?_, ?_, ?_, ?_, ?_,
    Pending.none _ rfl fun _ => rfl⟩
  · exact fun _ begun => absurd rfl begun
  · exact fun _ _ => rfl
  · rintro caller task (point | point) <;> cases point
  · exact fun _ => rfl
  · rintro index (point | point) <;> cases point

/-- The pool with all its queues is one that its constructor leads to. -/
theorem start_reachable (positive : 1 ≤ threadCnt) :
    (ThreadPool.populated threadCnt).Reachable {} (start threadCnt : LockedPool Handle).view := by
  have launched : ∀ count ≤ threadCnt, (ThreadPool.populated threadCnt).Reachable {}
      ({ launched := count } : ThreadPool Handle) := by
    intro count
    induction count with
    | zero => exact fun _ => ⟨[], trivial, rfl⟩
    | succ count ih =>
      intro below
      have before := ih (by omega)
      exact @Machine.Reachable.append _ _ _ _ _ before [.launch]
        ⟨⟨⟨below, rfl⟩, trivial⟩, trivial⟩
  have registered : ∀ count ≤ threadCnt, (ThreadPool.populated threadCnt).Reachable {}
      ({ launched := threadCnt, registered := count } : ThreadPool Handle) := by
    intro count
    induction count with
    | zero => exact fun _ => launched threadCnt (Nat.le_refl _)
    | succ count ih =>
      intro below
      have before := ih (by omega)
      exact @Machine.Reachable.append _ _ _ _ _ before [.register] ⟨⟨below, trivial⟩, trivial⟩
  have constructed := @Machine.Reachable.append _ _ _ _ _ (registered threadCnt (Nat.le_refl _))
    [.construct] ⟨⟨⟨rfl, rfl⟩, positive⟩, trivial⟩
  have first : some ({ launched := threadCnt, registered := threadCnt } : ThreadPool Handle).first =
      (start threadCnt : LockedPool Handle).pool.currentQueue := by
    have some_ : threadCnt ≠ 0 := by omega
    simp [ThreadPool.first, start, some_]
  have same : (ThreadPool.populated threadCnt).exec
      ({ launched := threadCnt, registered := threadCnt } : ThreadPool Handle) [.construct] =
        (start threadCnt : LockedPool Handle).view := by
    simp only [Machine.exec, List.foldl, ThreadPool.populated, Machine.restrict, ThreadPool.machine, first]
    rfl
  exact same ▸ constructed

/-- Every state of the pool with its locks shows a state that whole operations lead
to, and its points of control say where the data is. -/
theorem refines (positive : 1 ≤ threadCnt)
    (reached : ((machine threadCnt).restrict Named).Reachable (start threadCnt) self) :
    self.Tracked threadCnt ∧ (ThreadPool.populated threadCnt).Reachable {} self.view := by
  obtain ⟨pool, arrived, tracked, rfl⟩ := reached.simulated
    (fun locked pool => locked.Tracked threadCnt ∧ pool = locked.view)
    ⟨_, start_reachable positive, tracked_start, rfl⟩ (by
      rintro locked step pool arrived ⟨tracked, rfl⟩ enabled
      have elements := ThreadPool.elements_reachable arrived
      obtain ⟨events, allowed, same⟩ := tracked.answer elements enabled
      exact ⟨events, allowed, tracked.step elements enabled.1, same.symm⟩)
  exact ⟨tracked, arrived⟩

/-- Whoever shares the clean-up mutex finds every task at the queue it is bound to
and the books of every queue balanced. -/
theorem kept_for_sharers (positive : 1 ≤ threadCnt)
    (reached : ((machine threadCnt).restrict Named).Reachable (start threadCnt) self)
    {holder : Holder} (shared : Lock.clean ∈ (self.held holder).shared) :
    self.pool.Bound ∧ self.pool.Elements ∧ ∀ index, self.pool.Balanced index := by
  obtain ⟨tracked, arrived⟩ := refines positive reached
  rw [view_outside (cleaner_outside tracked.agreed shared)] at arrived
  exact ⟨ThreadPool.bound_reachable arrived.of_restrict, ThreadPool.elements_reachable arrived,
    ThreadPool.balanced_reachable arrived.of_restrict⟩

end LockedPool

end CoroMultiplex.Pool
