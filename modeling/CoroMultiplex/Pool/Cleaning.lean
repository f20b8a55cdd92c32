import CoroMultiplex.Pool.Accounting

/-! What a pass of `cleanTasks` destroys and what it leaves.

The done tasks of a queue are erased from that queue only. Nothing else dangles,
because a task occurs only in the queue it is bound to.
-/

set_option autoImplicit false

namespace CoroMultiplex.Pool

open Foundations

namespace ThreadPool

variable {Handle : Type} [DecidableEq Handle] {self : ThreadPool Handle}

/-- A pass destroys frames behind those destroyed before. -/
theorem cleanTasks_destroyed (self : ThreadPool Handle) (order : List Nat) :
    self.destroyed <+: (self.cleanTasks order).destroyed := by
  unfold cleanTasks
  split
  · exact List.prefix_rfl
  · apply sweepAll_induction (fun pool => self.destroyed <+: pool.destroyed)
    · intro pool index grown
      exact grown.trans (List.prefix_append ..)
    · exact List.prefix_rfl

/-- A frame that a pass takes from its handle is destroyed. -/
theorem cleanTasks_frameId {task : Handle} {id : Nat} (named : self.frameId task = some id)
    (order : List Nat) : (self.cleanTasks order).frameId task = some id ∨
      id ∈ (self.cleanTasks order).destroyed := by
  unfold cleanTasks
  split
  · exact Or.inl named
  · apply sweepAll_induction fun pool => pool.frameId task = some id ∨ id ∈ pool.destroyed
    · intro pool index before
      rcases before with still | gone
      · by_cases member : task ∈ self.doneTasks index
        · exact Or.inr (List.mem_append_right _ (List.mem_filterMap.mpr ⟨task, member, still⟩))
        · left
          rw [sweep_frameId, if_neg member]
          exact still
      · exact Or.inr (List.mem_append_left _ gone)
    · exact Or.inl named

/-- What neither part of a pass assigns, a pass leaves as it is. -/
theorem cleanTasks_keeps {Part : Type} (part : ThreadPool Handle → Part)
    (collected : ∀ pool : ThreadPool Handle, part pool.collect = part pool)
    (swept : ∀ pool taskSet index, part (sweep pool taskSet index) = part pool)
    (self : ThreadPool Handle) (order : List Nat) : part (self.cleanTasks order) = part self := by
  unfold cleanTasks
  split
  · rfl
  · exact (sweepAll_keeps part swept self.collect self.doneTasks order).trans (collected self)

/-- A pass creates no frame. -/
theorem cleanTasks_frames_none {task : Handle} (order : List Nat) (gone : self.frames task = none) :
    (self.cleanTasks order).frames task = none := by
  refine (cleanTasks_frames_pending order ?_).trans gone
  simp [isDone, gone]

/-- Of a queue whose entries are bound to it, a pass leaves those that are not done. -/
theorem cleanTasks_tasks (bound : self.Bound) (large : ¬ self.taskBinding.size < 10000)
    {order : List Nat} (covers : self.Covers order) (index : Nat) :
    (self.cleanTasks order).tasks index =
      (self.tasks index).filter fun entry => !self.isDone entry.task := by
  have collected : ∀ entry ∈ self.tasks index,
      (entry.task ∈ self.doneTasks index ↔ self.isDone entry.task = true) := by
    -- The entries of a queue are bound to it, so being done decides.
    intro entry member
    rw [mem_doneTasks]
    exact ⟨And.right, fun done => ⟨(bound.queued index entry member).1, done⟩⟩
  rw [cleanTasks, if_neg large, sweepAll_tasks]
  split
  · apply List.filter_congr
    intro entry member
    rw [Bool.eq_iff_iff]
    simp [collected entry member]
  · rename_i unvisited
    symm
    apply List.filter_eq_self.mpr
    intro entry member
    by_contra done
    have inside := (collected entry member).mpr (by simpa using done)
    exact unvisited (covers.mem_order ((mem_doneTasks self index entry.task).mp inside))

/-- A handle is bound to one queue, so that it is in one set of a pass. -/
theorem doneTasks_apart {task : Handle} {index other : Nat} (here : task ∈ self.doneTasks index)
    (there : task ∈ self.doneTasks other) : index = other := by
  have first := ((mem_doneTasks self index task).mp here).1
  have second := ((mem_doneTasks self other task).mp there).1
  rw [first, Option.some.injEq, QueueListIter.queue.injEq] at second
  exact second

theorem doneTasks_flatMap_nodup {order : List Nat} (distinct : order.Nodup) :
    (order.flatMap self.doneTasks).Nodup := by
  refine List.nodup_flatMap.mpr ⟨fun index _ => UnorderedMap.keysWhere_nodup .., ?_⟩
  refine distinct.imp fun {index other} differ task here there => ?_
  exact differ (doneTasks_apart here there)

/-- When the sets of a pass have no handle in common, and all their handles name frames, each
handle adds its frame to the destroyed ones. -/
theorem sweepAll_destroyed (self : ThreadPool Handle) {taskSets : Nat → List Handle} {order : List Nat}
    (distinct : order.Nodup)
    (named : ∀ index ∈ order, ∀ task ∈ taskSets index, ∃ id, self.frameId task = some id)
    (apart : ∀ task index other, task ∈ taskSets index → task ∈ taskSets other → index = other) :
    (self.sweepAll taskSets order).destroyed.map some =
      self.destroyed.map some ++ (order.flatMap taskSets).map self.frameId := by
  induction order generalizing self with
  | nil => simp [sweepAll]
  | cons head order ih =>
    obtain ⟨outside, distinct⟩ := List.nodup_cons.mp distinct
    have kept : ∀ index ∈ order, ∀ task ∈ taskSets index,
        (self.sweep (taskSets head) head).frameId task = self.frameId task := by
      intro index visited task member
      rw [sweep_frameId, if_neg]
      intro again
      exact outside (apart task index head member again ▸ visited)
    have first : ((taskSets head).filterMap self.frameId).map some = (taskSets head).map self.frameId := by
      rw [List.map_filterMap]
      refine List.filterMap_eq_map_iff_forall_eq_some.mpr fun task member => ?_
      obtain ⟨id, same⟩ := named head List.mem_cons_self task member
      rw [same]
      rfl
    have rest : (order.flatMap taskSets).map (self.sweep (taskSets head) head).frameId =
        (order.flatMap taskSets).map self.frameId := by
      apply List.map_congr_left
      intro task member
      obtain ⟨index, visited, inside⟩ := List.mem_flatMap.mp member
      exact kept index visited task inside
    have swept := ih (self.sweep (taskSets head) head) distinct fun index visited task member => by
      rw [kept index visited task member]
      exact named index (List.mem_cons_of_mem head visited) task member
    rw [rest] at swept
    change ((self.sweep (taskSets head) head).sweepAll taskSets order).destroyed.map some = _
    rw [swept, sweep, List.map_append, first, List.flatMap_cons, List.map_append, List.append_assoc]

/-- Every `destroy()` of a pass is of a frame of its own. -/
theorem cleanTasks_destroys (bound : self.Bound) (large : ¬ self.taskBinding.size < 10000)
    {order : List Nat} (covers : self.Covers order) :
    (self.cleanTasks order).destroyed.map some =
      self.destroyed.map some ++ (order.flatMap self.doneTasks).map self.frameId := by
  rw [cleanTasks, if_neg large]
  refine sweepAll_destroyed self.collect covers.1 (fun index _ task member => ?_)
    fun task index other => doneTasks_apart
  obtain ⟨found, _⟩ := (mem_doneTasks self index task).mp member
  obtain ⟨frame, known⟩ := Option.ne_none_iff_exists'.mp (bound.live task _ found)
  exact ⟨frame.id, by simp [frameId, collect, known]⟩

/-- What a pass owes to a frame that it destroys. -/
structure Destroyed (before after : ThreadPool Handle) (id : Nat) (task : Handle) : Prop where
  named : before.frameId task = some id
  done : before.isDone task = true
  notRunning : ∀ index entry, before.workers index = .running entry → entry.task ≠ task
  gone : after.frames task = none
  unqueued : ∀ index, ∀ entry ∈ after.tasks index, entry.task ≠ task
  unbound : after.taskBinding.lookup task = none

theorem destroyed_cleanTasks (bound : self.Bound) (idle : ∀ index, self.workers index = .idle)
    {order : List Nat} (covers : self.Covers order) {id : Nat}
    (now : id ∈ (self.cleanTasks order).destroyed) (before : id ∉ self.destroyed) :
    ∃ task, Destroyed self (self.cleanTasks order) id task := by
  have large : ¬ self.taskBinding.size < 10000 := by
    intro small
    rw [cleanTasks, if_pos small] at now
    exact before now
  have logged : some id ∈ (self.cleanTasks order).destroyed.map some := List.mem_map_of_mem now
  rw [cleanTasks_destroys bound large covers, List.mem_append] at logged
  have destroyed := logged.resolve_left fun already => before (by simpa using already)
  obtain ⟨task, inside, named⟩ := List.mem_map.mp destroyed
  obtain ⟨index, _, done⟩ := List.mem_flatMap.mp inside
  have collected : self.Collected task index := (mem_doneTasks self index task).mp done
  refine ⟨task, named, collected.2, ?_, cleanTasks_frames large covers collected, ?_, ?_⟩
  · intro other entry running
    rw [idle other] at running
    cases running
  · rintro other entry member rfl
    rw [cleanTasks_tasks bound large covers other] at member
    have kept := (List.mem_filter.mp member).2
    rw [collected.2] at kept
    cases kept
  · rw [cleanTasks_lookup large, if_pos collected.2]

/-- In every reachable state, a pass destroys only frames that are done and held by no
worker, each at most once, and leaves no trace of their handles. A pass that cleans
leaves no done handle bound, and every other handle with its binding, its frame and
its occurrences in their order; each of its `destroy()` calls is of a handle in one set
only and ends a frame of its own. -/
theorem pass_destroys_only_done (threadCnt : Nat) (pool : ThreadPool Handle)
    (reached : (machine threadCnt).Reachable {} pool) (order : List Nat)
    (enabled : (machine threadCnt).enabled pool (.clean order)) :
    (∀ id ∈ (pool.cleanTasks order).destroyed, id ∉ pool.destroyed →
        ∃ task, Destroyed pool (pool.cleanTasks order) id task) ∧
      (pool.cleanTasks order).destroyed.Nodup ∧
      (¬ pool.taskBinding.size < 10000 →
        (∀ task target, (pool.cleanTasks order).taskBinding.lookup task = some target →
          (pool.cleanTasks order).isDone task = false) ∧
        (∀ task, pool.isDone task = false →
          (pool.cleanTasks order).taskBinding.lookup task = pool.taskBinding.lookup task ∧
          (pool.cleanTasks order).frames task = pool.frames task) ∧
        (∀ index, (pool.cleanTasks order).tasks index =
          (pool.tasks index).filter fun entry => !pool.isDone entry.task) ∧
        (pool.cleanTasks order).destroyed.map some =
          pool.destroyed.map some ++ (order.flatMap pool.doneTasks).map pool.frameId ∧
        (order.flatMap pool.doneTasks).Nodup) := by
  have bound := bound_reachable reached
  obtain ⟨_, idle, covers⟩ := enabled
  refine ⟨?_, ?_, ?_⟩
  · intro id now before
    exact destroyed_cleanTasks bound idle covers now before
  · have after : ((machine threadCnt).next pool (.clean order)).Identified :=
      identified_step (identified_reachable reached)
    exact after.once
  · intro large
    refine ⟨?_, ?_, ?_, ?_, ?_⟩
    · intro task target found
      rw [cleanTasks_lookup large] at found
      split at found
      · cases found
      · rename_i notDone
        have kept := cleanTasks_frames_pending order (by simpa using notDone)
        rw [isDone, kept]
        simpa [isDone] using notDone
    · intro task notDone
      refine ⟨?_, cleanTasks_frames_pending order notDone⟩
      rw [cleanTasks_lookup large, notDone]
      rfl
    · intro index
      exact cleanTasks_tasks bound large covers index
    · exact cleanTasks_destroys bound large covers
    · exact doneTasks_flatMap_nodup covers.1

/-- A pool of one worker to which the tasks below a bound were added. -/
structure Filled (count : Nat) (pool : ThreadPool Nat) : Prop where
  registered : pool.registered = 1
  current : pool.currentQueue = some (.queue 0)
  size : pool.taskBinding.size = count
  bound : ∀ task, pool.taskBinding.lookup task = if task < count then some (.queue 0) else none
  frames : ∀ task, pool.frames task = if task < count then some { id := task } else none
  nextFrame : pool.nextFrame = count
  quiet : ∀ caller, pool.calls caller = none
  idle : ∀ index, pool.workers index = .idle

def addOne (task : Nat) : List (Event Nat) :=
  [.create task, .bind (.outside 0) task, .push (.outside 0)]

/-- What adding a new task from outside changes in a pool of one worker. -/
structure Added (task : Nat) (before after : ThreadPool Nat) : Prop where
  registered : after.registered = before.registered
  current : after.currentQueue = some (.queue 0)
  size : after.taskBinding.size = before.taskBinding.size + 1
  lookup : ∀ other, after.taskBinding.lookup other =
    if other = task then some (.queue 0) else before.taskBinding.lookup other
  frames : after.frames = Function.update before.frames task (some { id := before.nextFrame })
  nextFrame : after.nextFrame = before.nextFrame + 1
  quiet : (∀ caller, before.calls caller = none) → ∀ caller, after.calls caller = none
  workers : after.workers = before.workers

theorem added_addOne {pool : ThreadPool Nat} {task : Nat} (free : pool.frames task = none)
    (absent : pool.taskBinding.lookup task = none) (registered : pool.registered = 1)
    (current : pool.currentQueue = some (.queue 0)) (quiet : pool.calls (.outside 0) = none) :
    (machine 1).Allowed pool (addOne task) ∧
      Added task pool ((machine 1).exec pool (addOne task)) := by
  -- With one queue the selection wraps to that queue again.
  have next : ThreadPool.advance pool (.queue 0) = .queue 0 := by
    simp [advance, increment, first, registered]
  have unbound : (pool.create task).taskBinding.lookup task = none := absent
  have chosen : (pool.create task).currentQueue = some (.queue 0) := current
  have bound := bind_fresh unbound (.outside 0)
  rw [select, chosen] at bound
  have calling : ((pool.create task).bind (.outside 0) task).calls (.outside 0) =
      some { task, targetQueue := .queue 0 } := by
    rw [bound]
    simp
  have pushed := push_queue calling
  constructor
  · refine ⟨free, ⟨?_, trivial, quiet, ?_⟩, ⟨task, 0, calling, ?_⟩, trivial⟩
    · change pool.currentQueue ≠ none
      rw [current]
      exact Option.some_ne_none _
    · change (pool.create task).frames task ≠ none
      simp [create]
    · change 0 < ((pool.create task).bind (.outside 0) task).registered
      rw [bound]
      exact Nat.lt_of_lt_of_eq Nat.one_pos registered.symm
  · change Added task pool (((pool.create task).bind (.outside 0) task).push (.outside 0))
    rw [pushed, bound]
    refine ⟨rfl, congrArg some next, ?_, ?_, rfl, rfl, ?_, rfl⟩
    · change (AList.insert task (.queue 0) pool.taskBinding).entries.length = _
      rw [AList.entries_insert_of_notMem (AList.lookup_eq_none.mp absent), List.length_cons]
      rfl
    · intro other
      change (AList.insert task (.queue 0) pool.taskBinding).lookup other = _
      by_cases here : other = task
      · subst here
        simp
      · rw [AList.lookup_insert_ne here, if_neg here]
    · intro none_ caller
      by_cases here : caller = .outside 0
      · subst here
        simp
      · simp only [Function.update_of_ne here]
        exact none_ caller

theorem filled_addOne {count : Nat} {pool : ThreadPool Nat} (filled : Filled count pool) :
    (machine 1).Allowed pool (addOne count) ∧
      Filled (count + 1) ((machine 1).exec pool (addOne count)) := by
  have free : pool.frames count = none := by rw [filled.frames, if_neg (Nat.lt_irrefl _)]
  have absent : pool.taskBinding.lookup count = none := by
    rw [filled.bound, if_neg (Nat.lt_irrefl _)]
  obtain ⟨allowed, added⟩ :=
    added_addOne free absent filled.registered filled.current (filled.quiet _)
  have below : ∀ task, task ≠ count → (task < count ↔ task < count + 1) := by
    intro task apart
    omega
  refine ⟨allowed, ?_⟩
  constructor
  · rw [added.registered, filled.registered]
  · exact added.current
  · rw [added.size, filled.size]
  · intro task
    rw [added.lookup, filled.bound]
    by_cases here : task = count
    · subst here
      simp
    · simp [here, below task here]
  · intro task
    rw [added.frames]
    by_cases here : task = count
    · subst here
      simp [filled.nextFrame]
    · simp [here, filled.frames, below task here]
  · rw [added.nextFrame, filled.nextFrame]
  · exact added.quiet filled.quiet
  · rw [added.workers]
    exact filled.idle

def started : List (Event Nat) := [.launch, .register, .construct]

theorem filled_reachable (count : Nat) :
    ∃ pool, (machine 1).Reachable {} pool ∧ Filled count pool := by
  induction count with
  | zero =>
    refine ⟨_, ⟨started, ⟨⟨Nat.one_pos, rfl⟩, Nat.one_pos, ⟨rfl, rfl⟩, trivial⟩, rfl⟩, ?_⟩
    exact ⟨rfl, rfl, rfl, fun _ => rfl, fun _ => rfl, rfl, fun _ => rfl, fun _ => rfl⟩
  | succ count ih =>
    obtain ⟨pool, ⟨events, allowed, rfl⟩, filled⟩ := ih
    obtain ⟨more, after⟩ := filled_addOne filled
    refine ⟨_, ⟨events ++ addOne count, ?_, Machine.exec_append ..⟩, after⟩
    exact (Machine.allowed_append ..).mpr ⟨allowed, more⟩

/-- A pass over ten thousand bound tasks of which one is done. -/
theorem pass_over_filled_pool : ∃ pool : ThreadPool Nat, ¬ pool.taskBinding.size < 10000 ∧
    pool.isDone 0 = true ∧
    (pool.cleanTasks [0]).tasks 0 = (pool.tasks 0).filter (fun entry => !pool.isDone entry.task) ∧
    (pool.cleanTasks [0]).destroyed.map some =
      pool.destroyed.map some ++ ([0].flatMap pool.doneTasks).map pool.frameId := by
  obtain ⟨pool, ⟨events, allowed, reached⟩, filled⟩ := filled_reachable 10000
  have first : pool.frames 0 = some { id := 0 } := by rw [filled.frames]; rfl
  have done : ∀ task, (pool.finish 0).isDone task = true ↔ task = 0 := by
    intro task
    by_cases here : task = 0
    · subst here
      simp [isDone, finish, first]
    · simp only [isDone, finish, Function.update_of_ne here, filled.frames]
      split <;> simp [here]
  have covers : (pool.finish 0).Covers [0] := by
    refine ⟨List.nodup_singleton 0, fun index => ?_⟩
    have bound : pool.taskBinding.lookup 0 = some (.queue 0) := by rw [filled.bound]; rfl
    rw [List.mem_singleton]
    constructor
    · rintro rfl
      exact List.ne_nil_of_mem ((mem_doneTasks _ 0 0).mpr ⟨bound, (done 0).mpr rfl⟩)
    · intro some_
      obtain ⟨task, member⟩ := List.exists_mem_of_ne_nil _ some_
      obtain ⟨found, ended⟩ := (mem_doneTasks ..).mp member
      rw [(done task).mp ended] at found
      have queues := found.symm.trans bound
      simpa using queues
  have arrived : (machine 1).Reachable {} (pool.finish 0) := by
    refine ⟨events ++ [.finish 0], (Machine.allowed_append ..).mpr ⟨allowed, ?_⟩, ?_⟩
    · rw [reached]
      exact ⟨⟨_, first, rfl⟩, trivial⟩
    · rw [Machine.exec_append, reached]
      rfl
  have large : ¬ (pool.finish 0).taskBinding.size < 10000 := by
    change ¬ pool.taskBinding.size < 10000
    rw [filled.size]
    exact Nat.lt_irrefl _
  have cleaned := pass_destroys_only_done 1 (pool.finish 0) arrived [0]
    ⟨filled.quiet, filled.idle, covers⟩
  obtain ⟨_, _, tasks, destroyed, _⟩ := cleaned.2.2 large
  exact ⟨pool.finish 0, large, (done 0).mpr rfl, tasks 0, destroyed⟩

end ThreadPool

end CoroMultiplex.Pool
