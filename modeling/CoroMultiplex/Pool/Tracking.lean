import CoroMultiplex.Pool.Progress
import CoroMultiplex.Pool.Startup

/-! What the points of control say of the data, in every state of the pool with its
locks: which calls have chosen a queue, what each worker holds, and which tasks a
pass has still to destroy.
-/

set_option autoImplicit false

namespace CoroMultiplex.Pool

open Foundations

variable {Handle : Type}

/-- The queues that a pass has still to sweep. -/
def CleanPc.remaining : CleanPc Handle → List Nat
  | .nextQueue _ rest | .unlockQueue _ _ rest => rest
  | .sweep _ index rest => index :: rest
  | _ => []

def CleanPc.taskSets : CleanPc Handle → Nat → List Handle
  | .nextQueue doneTasks _ | .sweep doneTasks _ _ | .unlockQueue doneTasks _ _ => doneTasks
  | _ => fun _ => []

/-- What a worker does at a point of `runTasks`. -/
def RunPc.Fits : RunPc → Worker Handle → Prop
  | .unlockQueue, worker | .resume, worker => ∃ entry, worker = .popped entry
  | .running, worker => ∃ entry, worker = .running entry
  | _, worker => worker = .idle

/-- The tasks that a pass has still to destroy: they are done, each in one set only. -/
structure Pending (pool : ThreadPool Handle) (pc : CleanPc Handle) : Prop where
  once : pc.remaining.Nodup
  done : ∀ index ∈ pc.remaining, ∀ task ∈ pc.taskSets index, pool.isDone task = true
  apart : ∀ first second task, task ∈ pc.taskSets first → task ∈ pc.taskSets second → first = second

/-- Outside of the sweeps nothing is pending. -/
theorem Pending.none (pool : ThreadPool Handle) {pc : CleanPc Handle} (remaining : pc.remaining = [])
    (taskSets : ∀ index, pc.taskSets index = []) : Pending pool pc where
  once := remaining ▸ List.nodup_nil
  done := fun _ member => absurd (remaining ▸ member) List.not_mem_nil
  apart := fun first _ _ member => absurd (taskSets first ▸ member) List.not_mem_nil

theorem RunPc.fits_wake (pc : RunPc) (worker : Worker Handle) : pc.wake.Fits worker ↔ pc.Fits worker := by
  cases pc <;> rfl

/-- A worker at a point that does not share the clean-up mutex holds no task. -/
theorem RunPc.Fits.idle {index : Nat} {pc : RunPc} {worker : Worker Handle} (fits : pc.Fits worker)
    (outside : Lock.clean ∉ (pc.held index).shared) : worker = .idle := by
  cases pc with
  | unlockQueue | resume | running => exact absurd (List.mem_singleton_self _) outside
  | _ => exact fits

theorem RunPc.Fits.step {index : Nat} {pool : ThreadPool Handle} {locks : LockTable Holder Lock}
    {pc : RunPc} (fits : pc.Fits (pool.workers index))
    (filled : pc = .popFront → pool.tasks index ≠ []) :
    (pc.next index pool locks).Fits ((pc.effect index pool).workers index) := by
  cases pc with
  | popFront =>
    obtain ⟨entry, rest, queued⟩ := List.exists_cons_of_ne_nil (filled rfl)
    refine ⟨entry, ?_⟩
    rw [effect, ThreadPool.pop_cons queued]
    exact Function.update_self _ _ _
  | resume =>
    obtain ⟨entry, holding⟩ := fits
    cases done : pool.isDone entry.task with
    | true =>
      simp [next, effect, ThreadPool.resume_done holding done, Fits]
    | false =>
      simp [next, effect, ThreadPool.resume_pending holding done, Fits]
  | running => exact Function.update_self _ _ _
  | testEmpty | testPredicate | tryLock =>
    simp only [next]
    split <;> exact fits
  | _ => exact fits

/-- A worker goes on to take a task when it has seen one. -/
theorem RunPc.filled_next {index : Nat} {pool : ThreadPool Handle} {locks : LockTable Holder Lock}
    {pc : RunPc} (before : pc = .tryLock ∨ pc = .popFront → pool.tasks index ≠ [])
    (after : pc.next index pool locks = .tryLock ∨ pc.next index pool locks = .popFront) :
    (pc.effect index pool).tasks index ≠ [] := by
  cases pc with
  | testEmpty | testPredicate =>
    intro empty
    change pool.tasks index = [] at empty
    simp [next, empty] at after
  | tryLock => exact before (Or.inl rfl)
  | resume =>
    simp only [next] at after
    split at after <;> simp at after
  | _ => simp [next] at after

variable [DecidableEq Handle]

/-- A call whose data is not where its point says has none. -/
theorem AddPc.effect_silent {pool : ThreadPool Handle} {caller : Caller} {pc : AddPc Handle}
    (silent : pc.target = none → pool.calls caller = none)
    (targeted : ∀ target, pc.target = some target →
      (pool.calls caller).map Call.targetQueue = some target)
    (bounded : pc ≠ .pushBack .sentinel) (untargeted : (pc.next pool).target = none) :
    (pc.effect pool caller).calls caller = none := by
  cases pc with
  | find task =>
    cases found : pool.taskBinding.lookup task with
    | none => simpa [effect, found] using silent rfl
    | some target => simp [next, found, AddPc.target] at untargeted
  | pushBack target =>
    obtain ⟨⟨task, chosen⟩, called, same⟩ := Option.map_eq_some_iff.mp (targeted target rfl)
    cases same
    cases chosen with
    | sentinel => exact absurd rfl bounded
    | queue index =>
      rw [effect, ThreadPool.push_queue called]
      exact Function.update_self _ _ _
  | select | unlockCounter | unlockBinding | lockQueue => cases untargeted
  | _ => exact silent rfl

/-- Only a call that chooses the queue of a new task binds it. -/
theorem AddPc.effect_taskBinding {pool : ThreadPool Handle} {caller : Caller} {pc : AddPc Handle}
    (other : ∀ task, pc ≠ .select task) : (pc.effect pool caller).taskBinding = pool.taskBinding := by
  cases pc with
  | find task => simp only [effect]; split <;> rfl
  | select task => exact absurd rfl (other task)
  | pushBack target => exact pool.push_keeps ThreadPool.taskBinding (fun _ _ _ _ _ => rfl) caller
  | _ => rfl

theorem AddPc.effect_constructed {pool : ThreadPool Handle} {caller : Caller} {pc : AddPc Handle}
    (constructed : pool.currentQueue ≠ none) : (pc.effect pool caller).currentQueue ≠ none := by
  cases pc with
  | find task => simp only [effect]; split <;> exact constructed
  | select task => exact Option.some_ne_none _
  | pushBack target =>
    rw [effect, pool.push_keeps ThreadPool.currentQueue (fun _ _ _ _ _ => rfl) caller]
    exact constructed
  | _ => exact constructed

/-- A call goes on to choose a queue when it has found the task unbound. -/
theorem AddPc.fresh_next {pool : ThreadPool Handle} {pc : AddPc Handle} {task : Handle}
    (before : pc = .lockCounter task ∨ pc = .select task → pool.taskBinding.lookup task = none)
    (after : pc.next pool = .lockCounter task ∨ pc.next pool = .select task) :
    pool.taskBinding.lookup task = none ∧ ∀ chosen, pc ≠ .select chosen := by
  cases pc with
  | find wanted =>
    refine ⟨?_, fun _ same => by cases same⟩
    cases found : pool.taskBinding.lookup wanted with
    | none =>
      simp only [next, found, AddPc.lockCounter.injEq, reduceCtorEq, or_false] at after
      exact after ▸ found
    | some target => simp [next, found] at after
  | lockCounter wanted =>
    simp only [next, reduceCtorEq, AddPc.select.injEq, false_or] at after
    exact ⟨before (Or.inl (congrArg AddPc.lockCounter after)), fun _ same => by cases same⟩
  | _ => simp [next] at after

omit [DecidableEq Handle] in
theorem RunPc.effect_workers {index other : Nat} (apart : other ≠ index) (pool : ThreadPool Handle)
    (pc : RunPc) : (pc.effect index pool).workers other = pool.workers other := by
  cases pc with
  | popFront =>
    simp only [effect, ThreadPool.pop]
    split
    · rfl
    · exact Function.update_of_ne apart _ _
  | resume =>
    simp only [effect, ThreadPool.resume]
    split
    · split <;> exact Function.update_of_ne apart _ _
    · rfl
  | running => exact Function.update_of_ne apart _ _
  | _ => rfl

theorem CleanPc.effect_tasks_elsewhere {pool : ThreadPool Handle} {pc : CleanPc Handle} {index : Nat}
    (elsewhere : ∀ doneTasks rest, pc ≠ .sweep doneTasks index rest) :
    (pc.effect pool).tasks index = pool.tasks index := by
  cases pc with
  | testSize => simp only [effect]; split <;> rfl
  | sweep doneTasks other rest =>
    have apart : index ≠ other := by
      rintro rfl
      exact elsewhere doneTasks rest rfl
    exact Function.update_of_ne apart _ _
  | _ => rfl

/-- A pass keeps the tasks that it has still to destroy until it sweeps their queue. -/
theorem Pending.step {pool : ThreadPool Handle} {order : List Nat} {pc : CleanPc Handle}
    (pending : Pending pool pc)
    (covers : pc = .testSize → ¬ pool.taskBinding.size < 10000 → pool.Covers order) :
    Pending (pc.effect pool) (pc.next pool order) := by
  cases pc with
  | testSize =>
    by_cases small : pool.taskBinding.size < 10000
    · simp only [CleanPc.next, if_pos small]
      exact Pending.none _ rfl fun _ => rfl
    · simp only [CleanPc.next, CleanPc.effect, if_neg small]
      refine ⟨(covers rfl small).1, ?_, ?_⟩
      · intro index _ task member
        exact ((pool.mem_doneTasks index task).mp member).2
      · intro first second task left right
        have bound := ((pool.mem_doneTasks first task).mp left).1
        rw [((pool.mem_doneTasks second task).mp right).1] at bound
        exact (QueueListIter.queue.inj (Option.some.inj bound)).symm
  | nextQueue doneTasks rest =>
    cases rest with
    | nil => exact Pending.none _ rfl fun _ => rfl
    | cons index rest => exact ⟨pending.once, pending.done, pending.apart⟩
  | sweep doneTasks index rest =>
    obtain ⟨fresh, once⟩ := List.nodup_cons.mp pending.once
    refine ⟨once, ?_, pending.apart⟩
    intro other member task pends
    have spared : task ∉ doneTasks index := by
      intro swept
      have same := pending.apart index other task swept pends
      exact fresh (same ▸ member)
    -- The frame is that of a later queue: this sweep leaves it alone.
    have done := pending.done other (List.mem_cons_of_mem index member) task pends
    simpa [CleanPc.effect, ThreadPool.sweep, ThreadPool.isDone, spared] using done
  | _ => exact ⟨pending.once, pending.done, pending.apart⟩

namespace LockedPool

/-- The pool as if a pass that has collected its tasks were over. -/
def view (self : LockedPool Handle) : ThreadPool Handle :=
  self.pool.sweepAll self.cleaner.taskSets self.cleaner.remaining

/-- What the points of control say of the data. -/
structure Tracked (threadCnt : Nat) (locked : LockedPool Handle) : Prop extends Sound threadCnt locked where
  registered : locked.pool.registered = threadCnt
  constructed : locked.pool.currentQueue ≠ none
  nested : ∀ index, locked.adds (.worker index) ≠ .idle → locked.runs index = .running
  silent : ∀ caller, (locked.adds caller).target = none → locked.pool.calls caller = none
  fresh : ∀ caller task, locked.adds caller = .lockCounter task ∨ locked.adds caller = .select task →
    locked.pool.taskBinding.lookup task = none
  worker : ∀ index, (locked.runs index).Fits (locked.pool.workers index)
  filled : ∀ index, locked.runs index = .tryLock ∨ locked.runs index = .popFront →
    locked.pool.tasks index ≠ []
  pending : Pending locked.pool locked.cleaner

omit [DecidableEq Handle] in
/-- While a call shares the clean-up mutex no pass is under way. -/
theorem cleaner_outside {self : LockedPool Handle} (agreed : self.Agreed) {holder : Holder}
    (shared : Lock.clean ∈ (self.held holder).shared) :
    self.cleaner = .sleeping ∨ self.cleaner = .lockClean := by
  have free : Lock.clean ∉ (self.held .clean).exclusive :=
    fun owned => agreed.excluded .clean .clean owned holder shared
  cases point : self.cleaner with
  | sleeping => exact Or.inl rfl
  | lockClean => exact Or.inr rfl
  | _ => simp [held, point, CleanPc.held] at free

theorem view_outside {self : LockedPool Handle}
    (outside : self.cleaner = .sleeping ∨ self.cleaner = .lockClean) : self.view = self.pool := by
  rcases outside with asleep | waiting
  · rw [view, asleep]; rfl
  · rw [view, waiting]; rfl

variable {threadCnt : Nat} {self : LockedPool Handle}

omit [DecidableEq Handle] in
/-- A worker that is about to take a task owns its queue. -/
theorem filled_owned {index : Nat} (point : self.runs index = .tryLock ∨ self.runs index = .popFront) :
    Lock.queue (.queue index) ∈ (self.held (.run index)).exclusive := by
  rcases point with trying | popping
  · simp [held, trying, RunPc.held]
  · simp [held, popping, RunPc.held]

omit [DecidableEq Handle] in
theorem fits_notify {caller : Caller} {index : Nat} {worker : Worker Handle}
    (fits : (self.runs index).Fits worker) : (self.notify caller index).Fits worker := by
  rcases self.notify_cases caller index with woken | same
  · exact woken ▸ (RunPc.fits_wake _ worker).mpr fits
  · exact same ▸ fits

omit [DecidableEq Handle] in
theorem choosing_held {caller : Caller} {task : Handle}
    (point : self.adds caller = .lockCounter task ∨ self.adds caller = .select task) :
    Lock.binding ∈ (self.held (.add caller)).exclusive ∧
      Lock.clean ∈ (self.held (.add caller)).shared := by
  rcases point with point | point <;> simp [held, point, AddPc.held]

omit [DecidableEq Handle] in
/-- While a call chooses the queue of a new task, no other call binds one. -/
theorem choosing_alone (agreed : self.Agreed) {caller other : Caller} {task : Handle}
    (point : self.adds other = .lockCounter task ∨ self.adds other = .select task)
    (apart : other ≠ caller) (chosen : Handle) : self.adds caller ≠ .select chosen := by
  intro selecting
  have theirs := (choosing_held point).1
  have mine := (choosing_held (Or.inr selecting)).1
  cases agreed.owner_unique theirs mine
  exact apart rfl

theorem Tracked.addStep (tracked : self.Tracked threadCnt) (caller : Caller)
    (ready : self.Ready (.add caller)) (calling : self.adds caller ≠ .idle)
    (bounded : self.adds caller ≠ .pushBack .sentinel) : (self.addStep caller).Tracked threadCnt := by
  have sound := tracked.toSound.step (.add caller) ⟨calling, ready⟩
  have mine : (self.addStep caller).adds caller = (self.adds caller).next self.pool :=
    Function.update_self _ _ _
  have others : ∀ other, other ≠ caller → (self.addStep caller).adds other = self.adds other :=
    fun other apart => Function.update_of_ne apart _ _
  refine ⟨sound, ?_, ?_, ?_, ?_, ?_, ?_, ?_, ?_⟩
  · rw [← tracked.registered]
    exact AddPc.effect_keeps ThreadPool.registered (fun _ _ _ _ _ _ _ => rfl) _ _ _
  · exact AddPc.effect_constructed tracked.constructed
  · intro index begun
    have running : self.runs index = .running := by
      apply tracked.nested index
      by_cases here : Caller.worker index = caller
      · exact here ▸ calling
      · exact (others _ here) ▸ begun
    exact (notify_of_awake (by simp [running]) caller).trans running
  · intro other none
    by_cases here : other = caller
    · subst here
      rw [mine] at none
      exact AddPc.effect_silent (tracked.silent other) (tracked.targeted other) bounded none
    · rw [others other here] at none
      exact (AddPc.effect_calls here self.pool _).trans (tracked.silent other none)
  · intro other task point
    by_cases here : other = caller
    · subst here
      rw [mine] at point
      obtain ⟨absent, unselected⟩ := AddPc.fresh_next (tracked.fresh other task) point
      change (AddPc.effect self.pool other _).taskBinding.lookup task = none
      rw [AddPc.effect_taskBinding unselected]
      exact absent
    · rw [others other here] at point
      change (AddPc.effect self.pool caller _).taskBinding.lookup task = none
      rw [AddPc.effect_taskBinding (choosing_alone tracked.agreed point here)]
      exact tracked.fresh other task point
  · intro index
    have kept := AddPc.effect_keeps ThreadPool.workers (fun _ _ _ _ _ _ _ => rfl) self.pool caller
      (self.adds caller)
    change RunPc.Fits (self.notify caller index) ((AddPc.effect self.pool caller _).workers index)
    rw [kept]
    exact fits_notify (tracked.worker index)
  · intro index point
    -- The worker owns its queue, so this call is not the one that pushes to it.
    have before : self.runs index = .tryLock ∨ self.runs index = .popFront :=
      point.imp (fun same => of_notify same (by decide)) fun same => of_notify same (by decide)
    change (AddPc.effect self.pool caller _).tasks index ≠ []
    rw [AddPc.effect_tasks (tracked.targeted caller)
      (pushing_elsewhere tracked.agreed (filled_owned before) caller)]
    exact tracked.filled index before
  · refine ⟨tracked.pending.once, ?_, tracked.pending.apart⟩
    intro index member task pends
    have kept := AddPc.effect_keeps ThreadPool.frames (fun _ _ _ _ _ _ _ => rfl) self.pool caller
      (self.adds caller)
    have done := tracked.pending.done index member task pends
    simpa [LockedPool.addStep, ThreadPool.isDone, kept] using done

theorem Tracked.runStep (tracked : self.Tracked threadCnt) {index : Nat}
    (sound : (self.runStep index).Sound threadCnt)
    (returned : self.runs index = .running → self.adds (.worker index) = .idle) :
    (self.runStep index).Tracked threadCnt := by
  have mine : (self.runStep index).runs index =
      (self.runs index).next index self.pool self.locks := Function.update_self _ _ _
  have others : ∀ other, other ≠ index → (self.runStep index).runs other = self.runs other :=
    fun other apart => Function.update_of_ne apart _ _
  have kept := fun {Part : Type} (part : ThreadPool Handle → Part) same =>
    RunPc.effect_keeps part same index self.pool (self.runs index)
  refine ⟨sound, ?_, ?_, ?_, ?_, ?_, ?_, ?_, ?_⟩
  · rw [← tracked.registered]
    exact kept ThreadPool.registered fun _ _ _ _ => rfl
  · have same := kept ThreadPool.currentQueue fun _ _ _ _ => rfl
    exact same ▸ tracked.constructed
  · intro other begun
    have running := tracked.nested other begun
    have apart : other ≠ index := by
      rintro rfl
      exact begun (returned running)
    exact (others other apart).trans running
  · intro caller untargeted
    change (RunPc.effect index self.pool _).calls caller = none
    rw [kept ThreadPool.calls fun _ _ _ _ => rfl]
    exact tracked.silent caller untargeted
  · intro caller task point
    change (RunPc.effect index self.pool _).taskBinding.lookup task = none
    rw [kept ThreadPool.taskBinding fun _ _ _ _ => rfl]
    exact tracked.fresh caller task point
  · intro other
    by_cases here : other = index
    · subst here
      rw [mine]
      exact (tracked.worker other).step fun popping => tracked.filled other (Or.inr popping)
    · rw [others other here]
      change RunPc.Fits _ ((RunPc.effect index self.pool _).workers other)
      rw [RunPc.effect_workers here]
      exact tracked.worker other
  · intro other point
    by_cases here : other = index
    · subst here
      rw [mine] at point
      exact RunPc.filled_next (tracked.filled other) point
    · rw [others other here] at point
      change (RunPc.effect index self.pool _).tasks other ≠ []
      rw [RunPc.effect_tasks here]
      exact tracked.filled other point
  · refine ⟨tracked.pending.once, ?_, tracked.pending.apart⟩
    intro other member task pends
    have same := kept ThreadPool.frames fun _ _ _ _ => rfl
    have done := tracked.pending.done other member task pends
    simpa [LockedPool.runStep, ThreadPool.isDone, same] using done

theorem Tracked.cleanStep (tracked : self.Tracked threadCnt) {order : List Nat}
    (sound : (self.cleanStep order).Sound threadCnt)
    (covers : self.cleaner = .testSize → ¬ self.pool.taskBinding.size < 10000 →
      self.pool.Covers order) : (self.cleanStep order).Tracked threadCnt := by
  have kept := fun {Part : Type} (part : ThreadPool Handle → Part) same =>
    CleanPc.effect_keeps part same self.pool self.cleaner
  refine ⟨sound, ?_, ?_, tracked.nested, ?_, ?_, ?_, ?_, tracked.pending.step covers⟩
  · rw [← tracked.registered]
    exact kept ThreadPool.registered fun _ _ _ _ _ _ => rfl
  · have same := kept ThreadPool.currentQueue fun _ _ _ _ _ _ => rfl
    exact same ▸ tracked.constructed
  · intro caller untargeted
    change (CleanPc.effect self.pool _).calls caller = none
    rw [kept ThreadPool.calls fun _ _ _ _ _ _ => rfl]
    exact tracked.silent caller untargeted
  · intro caller task point
    -- The call shares the clean-up mutex, so the step is not the one that collects.
    change self.adds caller = _ ∨ self.adds caller = _ at point
    have shared := (choosing_held point).2
    have same : self.cleaner.effect self.pool = self.pool := by
      rcases cleaner_outside tracked.agreed shared with point | point <;> rw [point] <;> rfl
    change (self.cleaner.effect self.pool).taskBinding.lookup task = none
    rw [same]
    exact tracked.fresh caller task point
  · intro index
    change RunPc.Fits _ ((self.cleaner.effect self.pool).workers index)
    rw [kept ThreadPool.workers fun _ _ _ _ _ _ => rfl]
    exact tracked.worker index
  · intro index point
    -- The worker owns its queue, so the pass is not sweeping it.
    have elsewhere : ∀ doneTasks rest, self.cleaner ≠ .sweep doneTasks index rest := by
      intro doneTasks rest sweeping
      have theirs : Lock.queue (.queue index) ∈ (self.held .clean).exclusive := by
        simp [held, sweeping, CleanPc.held]
      cases tracked.agreed.owner_unique (filled_owned point) theirs
    change (self.cleaner.effect self.pool).tasks index ≠ []
    rw [CleanPc.effect_tasks_elsewhere elsewhere]
    exact tracked.filled index point

/-- No call pushes through the end iterator. -/
theorem Tracked.bounded (tracked : self.Tracked threadCnt) (elements : self.view.Elements)
    (caller : Caller) : self.adds caller ≠ .pushBack .sentinel := by
  intro pushing
  have shared : Lock.clean ∈ (self.held (.add caller)).shared := by
    simp [held, pushing, AddPc.held]
  obtain ⟨call, calling, target⟩ := Option.map_eq_some_iff.mp
    (tracked.targeted caller .sentinel (by rw [pushing]; rfl))
  rw [view_outside (cleaner_outside tracked.agreed shared)] at elements
  have element := elements.called caller call calling
  rw [target] at element
  exact element

theorem Tracked.callStep (tracked : self.Tracked threadCnt) {caller : Caller} {task : Handle}
    (enabled : (machine threadCnt).enabled self (.call caller task)) :
    ((machine threadCnt).next self (.call caller task)).Tracked threadCnt := by
  have sound := tracked.toSound.step (.call caller task) enabled
  obtain ⟨idle, running⟩ := enabled
  refine ⟨sound, tracked.registered, tracked.constructed, ?_, ?_, ?_, tracked.worker,
    tracked.filled, tracked.pending⟩
  · intro index begun
    by_cases here : Caller.worker index = caller
    · exact running index here.symm
    · exact tracked.nested index (by simpa [machine, here] using begun)
  · intro other untargeted
    by_cases here : other = caller
    · subst here
      exact tracked.silent other (by rw [idle]; rfl)
    · exact tracked.silent other (by simpa [machine, here] using untargeted)
  · intro other chosen point
    by_cases here : other = caller
    · subst here
      simp [machine] at point
    · exact tracked.fresh other chosen (by simpa [machine, here] using point)

theorem Tracked.wakeStep (tracked : self.Tracked threadCnt) {index : Nat}
    (enabled : (machine threadCnt).enabled self (.wake index)) :
    ((machine threadCnt).next self (.wake index)).Tracked threadCnt := by
  have sound := tracked.toSound.step (.wake index) enabled
  have asleep : self.runs index = .asleep := enabled
  refine ⟨sound, tracked.registered, tracked.constructed, ?_, tracked.silent, tracked.fresh, ?_, ?_,
    tracked.pending⟩
  · intro other begun
    have running := tracked.nested other begun
    have apart : other ≠ index := by
      rintro rfl
      rw [asleep] at running
      cases running
    simpa [machine, apart] using running
  · intro other
    by_cases here : other = index
    · subst here
      have fits := tracked.worker other
      rw [asleep] at fits
      change RunPc.Fits (Function.update self.runs other .notified other) _
      rw [Function.update_self]
      exact fits
    · simpa [machine, here] using tracked.worker other
  · intro other point
    by_cases here : other = index
    · subst here
      simp [machine] at point
    · exact tracked.filled other (by simpa [machine, here] using point)

theorem Tracked.step (tracked : self.Tracked threadCnt) (elements : self.view.Elements)
    {step : Step Handle} (enabled : (machine threadCnt).enabled self step) :
    ((machine threadCnt).next self step).Tracked threadCnt := by
  have sound := tracked.toSound.step step enabled
  cases step with
  | call caller task => exact tracked.callStep enabled
  | add caller => exact tracked.addStep caller enabled.2 enabled.1 (tracked.bounded elements caller)
  | run index => exact tracked.runStep sound enabled.2.2.2
  | clean order => exact tracked.cleanStep sound enabled.2
  | wake index => exact tracked.wakeStep enabled
  | create task =>
    refine ⟨sound, tracked.registered, tracked.constructed, tracked.nested, tracked.silent,
      tracked.fresh, tracked.worker, tracked.filled, tracked.pending.once, ?_, tracked.pending.apart⟩
    intro index member other pends
    have done := tracked.pending.done index member other pends
    -- A pending task still has its frame, so its address is not free.
    have apart : other ≠ task := by
      rintro rfl
      simp [ThreadPool.isDone, show self.pool.frames other = none from enabled] at done
    simpa [machine, ThreadPool.create, ThreadPool.isDone, apart] using done
  | finish task =>
    refine ⟨sound, tracked.registered, tracked.constructed, tracked.nested, tracked.silent,
      tracked.fresh, tracked.worker, tracked.filled, tracked.pending.once, ?_, tracked.pending.apart⟩
    intro index member other pends
    have done := tracked.pending.done index member other pends
    by_cases here : other = task
    · obtain ⟨frame, known, _⟩ := enabled
      simp [machine, ThreadPool.finish, ThreadPool.isDone, here, known]
    · simpa [machine, ThreadPool.finish, ThreadPool.isDone, here] using done

end LockedPool

end CoroMultiplex.Pool
