import CoroMultiplex.Pool.Frames
import CoroMultiplex.Pool.Startup

/-! A task sits only in the queue it is bound to.

The binding of a frame never changes, so a task is popped by one worker only and
no two workers resume it at the same time.
-/

set_option autoImplicit false

namespace CoroMultiplex.Pool

open Foundations

namespace ThreadPool

variable {Handle : Type} [DecidableEq Handle]

/-- The occurrence belongs to this queue, and its handle still names its frame. -/
def Sits (self : ThreadPool Handle) (entry : Entry Handle) (index : Nat) : Prop :=
  self.taskBinding.lookup entry.task = some (.queue index) ∧
    self.frameId entry.task = some entry.frame

structure Bound (pool : ThreadPool Handle) : Prop where
  live : ∀ task target, pool.taskBinding.lookup task = some target → pool.frames task ≠ none
  calling : ∀ caller call, pool.calls caller = some call →
    pool.taskBinding.lookup call.task = some call.targetQueue
  queued : ∀ index entry, entry ∈ pool.tasks index → pool.Sits entry index
  held : ∀ index entry, (pool.workers index).entry = some entry → pool.Sits entry index

/-- Bindings and frame identities that a step leaves in place. -/
structure Keeps (before after : ThreadPool Handle) (task : Handle) : Prop where
  binding : ∀ target, before.taskBinding.lookup task = some target →
    after.taskBinding.lookup task = some target
  frame : ∀ id, before.frameId task = some id → after.frameId task = some id

variable {self other : ThreadPool Handle}

theorem Keeps.sits {entry : Entry Handle} {index : Nat} (keeps : Keeps self other entry.task)
    (sits : self.Sits entry index) : other.Sits entry index :=
  ⟨keeps.binding _ sits.1, keeps.frame _ sits.2⟩

/-- A step that keeps what there is has to account only for what it adds. -/
theorem Bound.extend (bound : self.Bound) (keeps : ∀ task, Keeps self other task)
    (live : ∀ task target, other.taskBinding.lookup task = some target →
      self.taskBinding.lookup task = some target ∨ other.frames task ≠ none)
    (calling : ∀ caller call, other.calls caller = some call → self.calls caller = some call ∨
      other.taskBinding.lookup call.task = some call.targetQueue)
    (queued : ∀ index entry, entry ∈ other.tasks index → entry ∈ self.tasks index ∨
      other.Sits entry index)
    (held : ∀ index entry, (other.workers index).entry = some entry →
      (self.workers index).entry = some entry ∨ entry ∈ self.tasks index) : other.Bound where
  live task target found := by
    -- An old binding is of a handle that still names its frame.
    rcases live task target found with before | alive
    · obtain ⟨frame, known⟩ := Option.ne_none_iff_exists'.mp (bound.live task target before)
      have kept := (keeps task).frame frame.id (by simp [frameId, known])
      intro gone
      simp [frameId, gone] at kept
    · exact alive
  calling caller call found := by
    rcases calling caller call found with before | here
    · exact (keeps call.task).binding _ (bound.calling caller call before)
    · exact here
  queued index entry member := by
    rcases queued index entry member with before | here
    · exact (keeps entry.task).sits (bound.queued index entry before)
    · exact here
  held index entry holding := by
    rcases held index entry holding with before | popped
    · exact (keeps entry.task).sits (bound.held index entry before)
    · exact (keeps entry.task).sits (bound.queued index entry popped)

theorem create_keeps {fresh : Handle} (free : self.frames fresh = none) (task : Handle) :
    Keeps self (self.create fresh) task where
  binding _ found := found
  frame id known := by
    have apart : task ≠ fresh := by
      rintro rfl
      simp [frameId, free] at known
    simpa [frameId, create, apart] using known

theorem bind_lookup (self : ThreadPool Handle) (caller : Caller) (fresh : Handle) :
    ∃ target, (self.bind caller fresh).taskBinding.lookup fresh = some target ∧
      (self.bind caller fresh).calls = Function.update self.calls caller
        (some { task := fresh, targetQueue := target }) := by
  cases found : self.taskBinding.lookup fresh with
  | some target =>
    rw [bind_bound found]
    exact ⟨target, found, rfl⟩
  | none =>
    rw [bind_fresh found]
    exact ⟨_, AList.lookup_insert _, rfl⟩

theorem bind_lookup_other (self : ThreadPool Handle) (caller : Caller) {fresh task : Handle}
    (apart : task ≠ fresh) :
    (self.bind caller fresh).taskBinding.lookup task = self.taskBinding.lookup task := by
  cases found : self.taskBinding.lookup fresh with
  | some target =>
    rw [bind_bound found]
    rfl
  | none =>
    rw [bind_fresh found]
    exact AList.lookup_insert_ne apart

theorem bind_lookup_kept (self : ThreadPool Handle) (caller : Caller) (fresh : Handle) {task : Handle}
    {target : QueueListIter} (found : self.taskBinding.lookup task = some target) :
    (self.bind caller fresh).taskBinding.lookup task = some target := by
  by_cases here : task = fresh
  · subst here
    rw [bind_bound found]
    exact found
  · rw [bind_lookup_other self caller here]
    exact found

theorem bound_bind (bound : self.Bound) (caller : Caller) {task : Handle}
    (alive : self.frames task ≠ none) : (self.bind caller task).Bound := by
  have frames := self.bind_keeps ThreadPool.frames (fun _ _ _ _ => rfl) caller task
  have tasks := self.bind_keeps ThreadPool.tasks (fun _ _ _ _ => rfl) caller task
  have workers := self.bind_keeps ThreadPool.workers (fun _ _ _ _ => rfl) caller task
  obtain ⟨target, found, calls⟩ := bind_lookup self caller task
  refine bound.extend (fun other => ⟨?_, ?_⟩) ?_ ?_ ?_ ?_
  · intro old before
    exact bind_lookup_kept self caller task before
  · intro id known
    rw [frameId, frames]
    exact known
  · intro other old after
    by_cases here : other = task
    · subst here
      rw [frames]
      exact Or.inr alive
    · rw [bind_lookup_other self caller here] at after
      exact Or.inl after
  · intro other call calling
    rw [calls] at calling
    rcases Table.set_cases calling with ⟨_, rfl⟩ | ⟨_, before⟩
    · exact Or.inr found
    · exact Or.inl before
  · intro index entry member
    rw [tasks] at member
    exact Or.inl member
  · intro index entry holding
    rw [workers] at holding
    exact Or.inl holding

theorem bound_push (bound : self.Bound) {caller : Caller} {task : Handle} {index : Nat}
    (calling : self.calls caller = some { task, targetQueue := .queue index }) :
    (self.push caller).Bound := by
  rw [push_queue calling]
  have target := bound.calling caller _ calling
  refine bound.extend (fun other => ⟨fun _ found => found, fun _ known => known⟩)
    (fun _ _ found => Or.inl found) ?_ ?_ (fun _ _ holding => Or.inl holding)
  · intro other call still
    exact Or.inl (Table.erased_cases still).2
  · intro queue entry member
    by_cases here : queue = index
    · subst here
      simp only [Function.update_self, List.mem_append, List.mem_singleton] at member
      rcases member with before | rfl
      · exact Or.inl before
      -- The new occurrence is marked with the frame that the bound handle names.
      · obtain ⟨frame, known⟩ := Option.ne_none_iff_exists'.mp (bound.live task _ target)
        exact Or.inr ⟨target, by simp [frameId, known]⟩
    · simp only [Function.update_of_ne here] at member
      exact Or.inl member

theorem bound_pop (bound : self.Bound) (index : Nat) : (self.pop index).Bound := by
  unfold pop
  split
  · exact bound
  · rename_i entry rest queued
    refine bound.extend (fun other => ⟨fun _ found => found, fun _ known => known⟩)
      (fun _ _ found => Or.inl found) (fun _ _ calling => Or.inl calling) ?_ ?_
    · intro queue other member
      by_cases here : queue = index
      · subst here
        simp only [Function.update_self] at member
        exact Or.inl (by rw [queued]; simp [member])
      · simp only [Function.update_of_ne here] at member
        exact Or.inl member
    · intro queue other holding
      by_cases here : queue = index
      · subst here
        simp only [Function.update_self, Worker.entry, Option.some.injEq] at holding
        exact Or.inr (by rw [queued, holding]; simp)
      · simp only [Function.update_of_ne here] at holding
        exact Or.inl holding

/-- A worker that keeps its task or gives it up. -/
theorem bound_worker (bound : self.Bound) (index : Nat) (worker : Worker Handle)
    (ledger : Nat → Ledger Handle)
    (same : ∀ entry, worker.entry = some entry → (self.workers index).entry = some entry) :
    { self with workers := Function.update self.workers index worker, ledger := ledger }.Bound := by
  refine bound.extend (fun other => ⟨fun _ found => found, fun _ known => known⟩)
    (fun _ _ found => Or.inl found) (fun _ _ calling => Or.inl calling)
    (fun _ _ member => Or.inl member) ?_
  intro queue entry holding
  by_cases here : queue = index
  · subst here
    simp only [Function.update_self] at holding
    exact Or.inl (same entry holding)
  · exact Or.inl ((congrArg Worker.entry (Function.update_of_ne here _ _)).symm.trans holding)

theorem bound_resume (bound : self.Bound) (index : Nat) : (self.resume index).Bound := by
  unfold resume
  split
  · rename_i entry holding
    split
    · exact bound_worker bound index .idle _ nofun
    · apply bound_worker bound index (.running entry)
      intro other same
      rw [holding]
      exact same
  · exact bound

/-- A pass destroys a task only together with its binding and its occurrences. -/
theorem bound_cleanTasks (bound : self.Bound) {order : List Nat}
    (quiet : ∀ caller, self.calls caller = none) (idle : ∀ index, self.workers index = .idle)
    (covers : self.Covers order) : (self.cleanTasks order).Bound := by
  by_cases small : self.taskBinding.size < 10000
  · rw [cleanTasks, if_pos small]
    exact bound
  · have calls : (self.cleanTasks order).calls = self.calls := by
      rw [cleanTasks, if_neg small]
      exact sweepAll_keeps ThreadPool.calls (fun _ _ _ => rfl) _ _ _
    have workers : (self.cleanTasks order).workers = self.workers := by
      rw [cleanTasks, if_neg small]
      exact sweepAll_keeps ThreadPool.workers (fun _ _ _ => rfl) _ _ _
    constructor
    · intro task target found
      rw [cleanTasks_lookup small] at found
      split at found
      · cases found
      · rename_i pending
        rw [cleanTasks_frames_pending order (by simpa using pending)]
        exact bound.live task target found
    · intro caller call calling
      rw [calls, quiet caller] at calling
      cases calling
    · intro index entry member
      obtain ⟨before, survives⟩ := (mem_cleanTasks_tasks small covers entry index).mp member
      obtain ⟨binding, frame⟩ := bound.queued index entry before
      -- A done entry would have been swept with the queue it is bound to.
      have pending : self.isDone entry.task = false := by
        by_contra done
        exact survives ⟨binding, by simpa using done⟩
      refine ⟨?_, ?_⟩
      · rw [cleanTasks_lookup small, pending]
        exact binding
      · rw [frameId, cleanTasks_frames_pending order pending]
        exact frame
    · intro index entry holding
      rw [workers, idle index] at holding
      cases holding

theorem bound_step {threadCnt : Nat} {event : Event Handle} (bound : self.Bound)
    (enabled : (machine threadCnt).enabled self event) :
    ((machine threadCnt).next self event).Bound := by
  cases event with
  | launch => exact ⟨bound.live, bound.calling, bound.queued, bound.held⟩
  | register => exact ⟨bound.live, bound.calling, bound.queued, bound.held⟩
  | construct => exact ⟨bound.live, bound.calling, bound.queued, bound.held⟩
  | create task =>
    exact bound.extend (create_keeps enabled) (fun _ _ found => Or.inl found)
      (fun _ _ calling => Or.inl calling) (fun _ _ member => Or.inl member)
      (fun _ _ holding => Or.inl holding)
  | finish task =>
    refine bound.extend (fun other => ⟨fun _ found => found, fun id known => ?_⟩)
      (fun _ _ found => Or.inl found) (fun _ _ calling => Or.inl calling)
      (fun _ _ member => Or.inl member) (fun _ _ holding => Or.inl holding)
    exact (finish_frameId self task other).trans known
  | bind caller task => exact bound_bind bound caller enabled.2.2.2
  | push caller =>
    obtain ⟨task, index, calling, _⟩ := enabled
    exact bound_push bound calling
  | pop index => exact bound_pop bound index
  | resume index => exact bound_resume bound index
  | leave index => exact bound_worker bound index .idle self.ledger nofun
  | clean order => exact bound_cleanTasks bound enabled.1 enabled.2.1 enabled.2.2

theorem bound_start : ({} : ThreadPool Handle).Bound where
  live task target found := by simp at found
  calling := by rintro _ _ ⟨⟩
  queued := by rintro _ _ ⟨⟩
  held := by rintro _ _ ⟨⟩

theorem bound_reachable {threadCnt : Nat} (reached : (machine threadCnt).Reachable {} self) :
    self.Bound :=
  reached.holds Bound bound_start fun _ _ bound enabled => bound_step bound enabled

/-- Two workers never hold the same handle: both would be the worker of its queue. -/
theorem held_once (bound : self.Bound) {first second : Nat} {left right : Entry Handle}
    (holdingLeft : (self.workers first).entry = some left)
    (holdingRight : (self.workers second).entry = some right) (same : left.task = right.task) :
    first = second := by
  have queueLeft := (bound.held first left holdingLeft).1
  have queueRight := (bound.held second right holdingRight).1
  rw [same, queueRight] at queueLeft
  simpa using queueLeft.symm

/-- A binding ends only with the frame it is for. -/
theorem lookup_step {threadCnt : Nat} {event : Event Handle} {task : Handle}
    {target : QueueListIter} (enabled : (machine threadCnt).enabled self event)
    (element : self.IsElement target) (found : self.taskBinding.lookup task = some target) :
    ((machine threadCnt).next self event).taskBinding.lookup task = some target ∨
      ((machine threadCnt).next self event).frames task = none := by
  cases event with
  | bind caller fresh => exact Or.inl (bind_lookup_kept self caller fresh found)
  | push caller =>
    have kept := self.push_keeps (fun pool => pool.taskBinding.lookup task) (fun _ _ _ _ _ => rfl) caller
    exact Or.inl (kept.trans found)
  | pop index =>
    have kept := self.pop_keeps (fun pool => pool.taskBinding.lookup task) (fun _ _ _ _ => rfl) index
    exact Or.inl (kept.trans found)
  | resume index =>
    have kept := self.resume_keeps (fun pool => pool.taskBinding.lookup task) (fun _ _ _ => rfl) index
    exact Or.inl (kept.trans found)
  | clean order =>
    by_cases small : self.taskBinding.size < 10000
    · left
      change (self.cleanTasks order).taskBinding.lookup task = some target
      rw [cleanTasks, if_pos small]
      exact found
    -- A binding goes only in the pass that destroys the frame.
    · by_cases done : self.isDone task = true
      · right
        cases target with
        | queue index => exact cleanTasks_frames small enabled.2.2 ⟨found, done⟩
        | sentinel => exact element.elim
      · left
        refine (cleanTasks_lookup small order task).trans ?_
        rw [if_neg done]
        exact found
  | _ => exact Or.inl found

/-- What stays true of a frame that was bound once. -/
structure Settled (task : Handle) (target : QueueListIter) (id : Nat) (pool : ThreadPool Handle) :
    Prop where
  elements : pool.Elements
  known : id < pool.nextFrame
  binding : pool.frameId task = some id → pool.taskBinding.lookup task = some target

theorem settled_step {threadCnt : Nat} {event : Event Handle} {task : Handle}
    {target : QueueListIter} {id : Nat} (settled : Settled task target id self)
    (enabled : (populated threadCnt).enabled self event) :
    Settled task target id ((populated threadCnt).next self event) where
  elements := elements_step settled.elements enabled
  known := Nat.lt_of_lt_of_le settled.known (nextFrame_step threadCnt self event)
  binding := by
    intro named
    have before : self.frameId task = some id := by
      rcases @frameId_step Handle _ self threadCnt event task id named with before | ⟨_, fresh⟩
      · exact before
      · exact absurd fresh (Nat.ne_of_lt settled.known)
    have found := settled.binding before
    have element := settled.elements.bound task target found
    rcases lookup_step enabled.1 element found with kept | gone
    · exact kept
    · change ((machine threadCnt).next self event).frameId task = some id at named
      rw [frameId, gone] at named
      cases named

/-- As long as a handle names the same frame, its binding stays the same. -/
theorem binding_persists {threadCnt : Nat} {later : ThreadPool Handle}
    (reached : (populated threadCnt).Reachable {} self)
    (onwards : (populated threadCnt).Reachable self later) {task : Handle} {target : QueueListIter}
    {id : Nat} (found : self.taskBinding.lookup task = some target)
    (named : self.frameId task = some id) (still : later.frameId task = some id) :
    later.taskBinding.lookup task = some target := by
  have known := (identified_reachable reached.of_restrict).known task id named
  have start : Settled task target id self := ⟨elements_reachable reached, known, fun _ => found⟩
  have settled := onwards.holds (Settled task target id) start
    fun _ _ settled enabled => settled_step settled enabled
  exact settled.binding still

/-- In every reachable state each queued handle is bound to its queue, a binding
lasts as long as the frame, and no handle is resumed by two workers. -/
theorem tasks_bound_exclusively (threadCnt : Nat) (pool : ThreadPool Handle)
    (reached : (populated threadCnt).Reachable {} pool) :
    (∀ index, ∀ entry ∈ pool.tasks index,
        pool.taskBinding.lookup entry.task = some (.queue index)) ∧
      (∀ later, (populated threadCnt).Reachable pool later → ∀ task target id,
        pool.taskBinding.lookup task = some target → pool.frameId task = some id →
        later.frameId task = some id → later.taskBinding.lookup task = some target) ∧
      (∀ first second left right, pool.workers first = .running left →
        pool.workers second = .running right → left.task = right.task → first = second) := by
  have bound := bound_reachable reached.of_restrict
  refine ⟨?_, ?_, ?_⟩
  · intro index entry member
    exact (bound.queued index entry member).1
  · intro later onwards task target id found named still
    exact binding_persists reached onwards found named still
  · intro first second left right runningLeft runningRight same
    apply held_once bound _ _ same
    · rw [runningLeft]; rfl
    · rw [runningRight]; rfl

/-- Two workers, started in order, and two tasks added to their queues. -/
def startedWithTasks : List (Event Nat) :=
  [.launch, .launch, .register, .register, .construct, .create 7, .create 8, .bind (.outside 0) 7,
    .bind (.outside 1) 8, .push (.outside 1), .push (.outside 0)]

/-- Both are resumed, and one of them is added again, by itself and by the other one. -/
def addedAgain : List (Event Nat) :=
  [.pop 0, .resume 0, .pop 1, .resume 1, .bind (.worker 0) 7, .bind (.worker 1) 7, .push (.worker 1),
    .push (.worker 0)]

theorem startedWithTasks_allowed : (populated 2).Allowed ({} : ThreadPool Nat) startedWithTasks :=
  ⟨⟨⟨Nat.two_pos, rfl⟩, trivial⟩, ⟨⟨Nat.one_lt_two, rfl⟩, trivial⟩, ⟨Nat.two_pos, trivial⟩,
    ⟨Nat.one_lt_two, trivial⟩, ⟨⟨rfl, rfl⟩, Nat.le_succ 1⟩, ⟨rfl, trivial⟩, ⟨rfl, trivial⟩,
    ⟨⟨Option.some_ne_none _, trivial, rfl, Option.some_ne_none _⟩, trivial⟩,
    ⟨⟨Option.some_ne_none _, trivial, rfl, Option.some_ne_none _⟩, trivial⟩,
    ⟨⟨8, 1, rfl, Nat.one_lt_two⟩, trivial⟩, ⟨⟨7, 0, rfl, Nat.two_pos⟩, trivial⟩, trivial⟩

theorem addedAgain_allowed :
    (populated 2).Allowed ((populated 2).exec ({} : ThreadPool Nat) startedWithTasks) addedAgain :=
  ⟨⟨⟨rfl, Nat.two_pos, rfl, List.cons_ne_nil _ _⟩, trivial⟩, ⟨⟨_, rfl⟩, trivial⟩,
    ⟨⟨rfl, Nat.one_lt_two, rfl, List.cons_ne_nil _ _⟩, trivial⟩, ⟨⟨_, rfl⟩, trivial⟩,
    ⟨⟨Option.some_ne_none _, ⟨_, rfl⟩, rfl, Option.some_ne_none _⟩, trivial⟩,
    ⟨⟨Option.some_ne_none _, ⟨_, rfl⟩, rfl, Option.some_ne_none _⟩, trivial⟩,
    ⟨⟨7, 0, rfl, Nat.two_pos⟩, trivial⟩, ⟨⟨7, 0, rfl, Nat.two_pos⟩, trivial⟩, trivial⟩

theorem started_task_stays_bound :
    let pool := (populated 2).exec ({} : ThreadPool Nat) startedWithTasks
    let later := (populated 2).exec pool addedAgain
    later.taskBinding.lookup 7 = some (.queue 0) ∧ later.taskBinding.lookup 8 = some (.queue 1) ∧
      (later.tasks 0).length = 2 ∧
      (∀ entry ∈ later.tasks 0, later.taskBinding.lookup entry.task = some (.queue 0)) ∧
      ∀ first second left right, later.workers first = .running left →
        later.workers second = .running right → left.task = right.task → first = second := by
  intro pool later
  have reached : (populated 2).Reachable {} pool := ⟨startedWithTasks, startedWithTasks_allowed, rfl⟩
  have onwards : (populated 2).Reachable pool later := ⟨addedAgain, addedAgain_allowed, rfl⟩
  obtain ⟨_, persists, _⟩ := tasks_bound_exclusively 2 pool reached
  obtain ⟨queued, _, exclusive⟩ := tasks_bound_exclusively 2 later (reached.append addedAgain_allowed)
  exact ⟨persists later onwards 7 (.queue 0) 0 rfl rfl rfl,
    persists later onwards 8 (.queue 1) 1 rfl rfl rfl, rfl, queued 0, exclusive⟩

end ThreadPool

end CoroMultiplex.Pool
