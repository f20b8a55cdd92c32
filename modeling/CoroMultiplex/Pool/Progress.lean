import CoroMultiplex.Pool.Exclusion

/-! The pool never gets stuck, and no notification is lost. -/

set_option autoImplicit false

namespace CoroMultiplex.Pool

open Foundations

variable {Handle : Type}

/-- The queue that an `addTask` has chosen and not yet pushed to. -/
def AddPc.target : AddPc Handle → Option QueueListIter
  | .unlockCounter target | .unlockBinding target | .lockQueue target | .pushBack target =>
    some target
  | _ => none

/-- The call has pushed to the queue and has still to notify. -/
def AddPc.WillNotify (queue : QueueListIter) : AddPc Handle → Prop
  | .unlockQueue target | .notifyAll target => target = queue
  | _ => False

/-- In `cv.wait`, whether notified or not. -/
def RunPc.Waiting (pc : RunPc) : Prop := pc = .asleep ∨ pc = .notified

theorem AddPc.action_of_wanted {pc : AddPc Handle} (wants : pc.action.wanted = some .clean) :
    pc.action = .share .clean := by
  cases pc with
  | lockClean => rfl
  | _ => cases wants

theorem RunPc.wake_asleep {pc : RunPc} (same : pc.wake = .asleep) : False := by
  cases pc <;> cases same

theorem RunPc.of_wake {pc after : RunPc} (woken : pc.wake = after) (up : after ≠ .notified) :
    pc = after := by
  cases pc with
  | asleep => exact absurd woken.symm up
  | _ => exact woken

theorem RunPc.wake_of_awake {pc : RunPc} (up : pc ≠ .asleep) : pc.wake = pc := by
  cases pc with
  | asleep => exact absurd rfl up
  | _ => rfl

/-! What the steps of the calls do to the queues and to the other calls. -/

theorem RunPc.effect_tasks {index other : Nat} (apart : other ≠ index) (pool : ThreadPool Handle)
    (pc : RunPc) : (pc.effect index pool).tasks other = pool.tasks other := by
  cases pc with
  | popFront =>
    simp only [effect, ThreadPool.pop]
    split
    · rfl
    · exact Function.update_of_ne apart _ _
  | resume => exact pool.resume_keeps (fun pool => pool.tasks other) (fun _ _ _ => rfl) index
  | _ => rfl

theorem RunPc.next_wait {index : Nat} {pool : ThreadPool Handle} {locks : LockTable Holder Lock}
    {pc : RunPc} (waiting : pc.next index pool locks = .wait) :
    pc = .testPredicate ∧ pool.tasks index = [] := by
  cases pc with
  | testPredicate =>
    by_cases empty : pool.tasks index = []
    · exact ⟨rfl, empty⟩
    · rw [next, if_neg empty] at waiting
      cases waiting
  | testEmpty | tryLock | resume =>
    simp only [next] at waiting
    split at waiting <;> cases waiting
  | _ => cases waiting

theorem RunPc.next_asleep {index : Nat} {pool : ThreadPool Handle} {locks : LockTable Holder Lock}
    {pc : RunPc} (asleep : pc.next index pool locks = .asleep) : pc = .wait ∨ pc = .asleep := by
  cases pc with
  | wait => exact Or.inl rfl
  | asleep => exact Or.inr rfl
  | testEmpty | testPredicate | tryLock | resume =>
    simp only [next] at asleep
    split at asleep <;> cases asleep
  | _ => cases asleep

variable [DecidableEq Handle]

theorem CleanPc.effect_tasks (pool : ThreadPool Handle) (pc : CleanPc Handle) (index : Nat) :
    ((pc.effect pool).tasks index).Sublist (pool.tasks index) := by
  cases pc with
  | testSize => simp only [effect]; split <;> exact List.Sublist.refl _
  | sweep doneTasks other rest =>
    by_cases here : index = other
    · subst here
      simp [effect, ThreadPool.sweep]
    · simp [effect, ThreadPool.sweep, here]
  | _ => exact List.Sublist.refl _

theorem AddPc.effect_calls {caller other : Caller} (apart : other ≠ caller)
    (pool : ThreadPool Handle) (pc : AddPc Handle) :
    (pc.effect pool caller).calls other = pool.calls other := by
  cases pc with
  | find task =>
    simp only [effect]
    split
    · exact Function.update_of_ne apart _ _
    · rfl
  | select task => exact Function.update_of_ne apart _ _
  | pushBack target =>
    simp only [effect, ThreadPool.push]
    split
    · exact Function.update_of_ne apart _ _
    · rfl
  | _ => rfl

/-- Only the push of a call that has chosen the queue changes it. -/
theorem AddPc.effect_tasks {pool : ThreadPool Handle} {caller : Caller} {pc : AddPc Handle}
    (targeted : ∀ target, pc.target = some target →
      (pool.calls caller).map Call.targetQueue = some target)
    {index : Nat} (elsewhere : pc ≠ .pushBack (.queue index)) :
    (pc.effect pool caller).tasks index = pool.tasks index := by
  cases pc with
  | find task => simp only [effect]; split <;> rfl
  | pushBack target =>
    obtain ⟨⟨task, chosen⟩, calling, same⟩ := Option.map_eq_some_iff.mp (targeted target rfl)
    cases same
    cases chosen with
    | sentinel => simp [effect, ThreadPool.push, calling]
    | queue other =>
      have apart : index ≠ other := by
        rintro rfl
        exact elsewhere rfl
      rw [effect, ThreadPool.push_queue calling]
      exact Function.update_of_ne apart _ _
  | _ => rfl

/-- After each step a call has its data where its point of control says. -/
theorem AddPc.effect_target {pool : ThreadPool Handle} {caller : Caller} {pc : AddPc Handle}
    (targeted : ∀ target, pc.target = some target →
      (pool.calls caller).map Call.targetQueue = some target)
    {target : QueueListIter} (chosen : (pc.next pool).target = some target) :
    ((pc.effect pool caller).calls caller).map Call.targetQueue = some target := by
  cases pc with
  | find task =>
    cases found : pool.taskBinding.lookup task with
    | none => simp [next, found, AddPc.target] at chosen
    | some bound =>
      simp only [next, found, AddPc.target, Option.some.injEq] at chosen
      simp [effect, found, ThreadPool.found, chosen]
  | select task =>
    simp only [next, AddPc.target, Option.some.injEq] at chosen
    simp [effect, ThreadPool.select, chosen]
  | unlockCounter | unlockBinding | lockQueue => exact targeted target chosen
  | _ => cases chosen

/-- A call that has pushed has to notify until it does. -/
theorem AddPc.WillNotify.next {queue : QueueListIter} {pc : AddPc Handle}
    (will : pc.WillNotify queue) (pool : ThreadPool Handle) :
    pc = .notifyAll queue ∨ (pc.next pool).WillNotify queue := by
  cases pc with
  | unlockQueue target => exact Or.inr will
  | notifyAll target => exact Or.inl (congrArg AddPc.notifyAll will)
  | _ => cases will

namespace LockedPool

/-- The calls that run: not a caller between two calls, not a worker asleep at its
queue, not the cleaner between two passes. -/
def InProgress (self : LockedPool Handle) : Holder → Prop
  | .add caller => self.adds caller ≠ .idle
  | .run index => self.runs index ≠ .asleep
  | .clean => self.cleaner ≠ .sleeping

/-- A worker that has begun is one of the pool's. -/
def Existing (threadCnt : Nat) (self : LockedPool Handle) : Prop :=
  ∀ index, self.runs index ≠ .lockClean → index < threadCnt

def Targeted (self : LockedPool Handle) : Prop :=
  ∀ caller target, (self.adds caller).target = some target →
    (self.pool.calls caller).map Call.targetQueue = some target

/-- A worker falls asleep only at an empty queue, and who fills the queue notifies. -/
structure Awake (locked : LockedPool Handle) : Prop where
  wait : ∀ index, locked.runs index = .wait → locked.pool.tasks index = []
  asleep : ∀ index, locked.runs index = .asleep → locked.pool.tasks index ≠ [] →
    ∃ caller, (locked.adds caller).WillNotify (.queue index)

omit [DecidableEq Handle] in
theorem notify_asleep {self : LockedPool Handle} {caller : Caller} {index : Nat}
    (asleep : self.notify caller index = .asleep) :
    self.runs index = .asleep ∧ self.adds caller ≠ .notifyAll (.queue index) := by
  unfold notify at asleep
  split at asleep
  next target notifying =>
    split at asleep
    · exact (RunPc.wake_asleep asleep).elim
    · rename_i apart
      refine ⟨asleep, fun same => apart ?_⟩
      rw [notifying] at same
      exact AddPc.notifyAll.inj same
  next other =>
    exact ⟨asleep, fun same => other _ same⟩

omit [DecidableEq Handle] in
/-- A notification leads a worker to no point but the one behind the wait. -/
theorem of_notify {self : LockedPool Handle} {caller : Caller} {index : Nat} {pc : RunPc}
    (after : self.notify caller index = pc) (up : pc ≠ .notified) : self.runs index = pc := by
  rcases self.notify_cases caller index with woken | same
  · exact RunPc.of_wake (woken.symm.trans after) up
  · exact same.symm.trans after

omit [DecidableEq Handle] in
theorem notify_of_awake {self : LockedPool Handle} {index : Nat} (up : self.runs index ≠ .asleep)
    (caller : Caller) : self.notify caller index = self.runs index := by
  rcases self.notify_cases caller index with woken | same
  · rw [woken, RunPc.wake_of_awake up]
  · exact same

theorem Existing.step {threadCnt : Nat} {self : LockedPool Handle} (existing : self.Existing threadCnt)
    (step : Step Handle) (enabled : (machine threadCnt).enabled self step) :
    ((machine threadCnt).next self step).Existing threadCnt := by
  cases step with
  | add caller =>
    intro index begun
    apply existing index
    intro outside
    exact begun ((notify_of_awake (by simp [outside]) caller).trans outside)
  | run index =>
    intro other begun
    by_cases here : other = index
    · exact here ▸ enabled.1
    · apply existing other
      simpa [machine, runStep, here] using begun
  | wake index =>
    have asleep : self.runs index = .asleep := enabled
    intro other begun
    by_cases here : other = index
    · exact existing other (by simp [here, asleep])
    · apply existing other
      simpa [machine, here] using begun
  | _ => exact existing

theorem Targeted.step {threadCnt : Nat} {self : LockedPool Handle} (targeted : self.Targeted)
    (step : Step Handle) (enabled : (machine threadCnt).enabled self step) :
    ((machine threadCnt).next self step).Targeted := by
  cases step with
  | call caller task =>
    intro other target chosen
    by_cases here : other = caller
    · subst here
      simp [machine, AddPc.target] at chosen
    · apply targeted other
      simpa [machine, here] using chosen
  | add caller =>
    intro other target chosen
    by_cases here : other = caller
    · subst here
      apply AddPc.effect_target (targeted other)
      simpa [machine, addStep] using chosen
    · change ((AddPc.effect self.pool caller _).calls other).map _ = _
      rw [AddPc.effect_calls here]
      apply targeted other
      simpa [machine, addStep, here] using chosen
  | run index =>
    intro caller target chosen
    have kept := RunPc.effect_keeps ThreadPool.calls (fun _ _ _ _ => rfl) index self.pool
      (self.runs index)
    change ((RunPc.effect index self.pool _).calls caller).map _ = _
    rw [kept]
    exact targeted caller target chosen
  | clean order =>
    intro caller target chosen
    have kept := CleanPc.effect_keeps ThreadPool.calls (fun _ _ _ _ _ _ => rfl) self.pool self.cleaner
    change ((CleanPc.effect self.pool _).calls caller).map _ = _
    rw [kept]
    exact targeted caller target chosen
  | _ => exact targeted

omit [DecidableEq Handle] in
/-- Who is about to push to a queue owns it, so its worker does not. -/
theorem pushing_elsewhere {self : LockedPool Handle} (agreed : self.Agreed) {index : Nat}
    (mine : Lock.queue (.queue index) ∈ (self.held (.run index)).exclusive) (caller : Caller) :
    self.adds caller ≠ .pushBack (.queue index) := by
  intro pushing
  have theirs : Lock.queue (.queue index) ∈ (self.held (.add caller)).exclusive := by
    simp [held, pushing, AddPc.held]
  cases agreed.owner_unique mine theirs

theorem Awake.addStep {self : LockedPool Handle} (awake : self.Awake) (agreed : self.Agreed)
    (targeted : self.Targeted) (caller : Caller) : (self.addStep caller).Awake := by
  constructor
  · intro index waiting
    have waits := of_notify waiting (by decide)
    have mine : Lock.queue (.queue index) ∈ (self.held (.run index)).exclusive := by
      simp [held, waits, RunPc.held]
    change (AddPc.effect self.pool caller _).tasks index = []
    rw [AddPc.effect_tasks (targeted caller) (pushing_elsewhere agreed mine caller)]
    exact awake.wait index waits
  · intro index asleep filled
    obtain ⟨sleeping, apart⟩ := notify_asleep asleep
    have mine : ((self.addStep caller).adds caller) = (self.adds caller).next self.pool :=
      Function.update_self _ _ _
    by_cases pushing : self.adds caller = .pushBack (.queue index)
    · refine ⟨caller, ?_⟩
      -- Who has just pushed has still to unlock and to notify.
      rw [mine, pushing]
      rfl
    · change (AddPc.effect self.pool caller _).tasks index ≠ [] at filled
      rw [AddPc.effect_tasks (targeted caller) pushing] at filled
      obtain ⟨notifier, will⟩ := awake.asleep index sleeping filled
      refine ⟨notifier, ?_⟩
      by_cases here : notifier = caller
      · subst here
        rw [mine]
        exact (will.next self.pool).resolve_left apart
      · simpa [LockedPool.addStep, here] using will

omit [DecidableEq Handle] in
theorem Awake.runStep {self : LockedPool Handle} (awake : self.Awake) {index : Nat}
    (up : self.runs index ≠ .asleep) : (self.runStep index).Awake := by
  constructor
  · intro other waiting
    by_cases here : other = index
    · subst here
      -- The worker waits because it has just seen its queue empty.
      simp only [LockedPool.runStep, Function.update_self] at waiting
      obtain ⟨testing, empty⟩ := RunPc.next_wait waiting
      simpa [LockedPool.runStep, testing, RunPc.effect] using empty
    · change (RunPc.effect index self.pool _).tasks other = []
      rw [RunPc.effect_tasks here]
      apply awake.wait other
      simpa [LockedPool.runStep, here] using waiting
  · intro other asleep filled
    by_cases here : other = index
    · subst here
      simp only [LockedPool.runStep, Function.update_self] at asleep
      -- Between the test and the wait the worker owns the queue, so it is still empty.
      have waiting := (RunPc.next_asleep asleep).resolve_right up
      simp only [LockedPool.runStep, waiting, RunPc.effect] at filled
      exact absurd (awake.wait other waiting) filled
    · change (RunPc.effect index self.pool _).tasks other ≠ [] at filled
      rw [RunPc.effect_tasks here] at filled
      apply awake.asleep other _ filled
      simpa [LockedPool.runStep, here] using asleep

theorem Awake.cleanStep {self : LockedPool Handle} (awake : self.Awake) (order : List Nat) :
    (self.cleanStep order).Awake := by
  have less := CleanPc.effect_tasks self.pool self.cleaner
  constructor
  · intro index waiting
    have empty := less index
    rw [awake.wait index waiting] at empty
    exact List.sublist_nil.mp empty
  · intro index asleep filled
    apply awake.asleep index asleep
    intro empty
    have none := less index
    rw [empty] at none
    exact filled (List.sublist_nil.mp none)

theorem Awake.step {threadCnt : Nat} {self : LockedPool Handle} (awake : self.Awake)
    (agreed : self.Agreed) (targeted : self.Targeted) (step : Step Handle)
    (enabled : (machine threadCnt).enabled self step) : ((machine threadCnt).next self step).Awake := by
  cases step with
  | call caller task =>
    refine ⟨awake.wait, fun index asleep filled => ?_⟩
    obtain ⟨notifier, will⟩ := awake.asleep index asleep filled
    refine ⟨notifier, ?_⟩
    have apart : notifier ≠ caller := by
      rintro rfl
      rw [enabled.1] at will
      exact will
    simpa [machine, apart] using will
  | add caller => exact awake.addStep agreed targeted caller
  | run index => exact awake.runStep enabled.2.1
  | clean order => exact awake.cleanStep order
  | wake index =>
    constructor
    · intro other waiting
      by_cases here : other = index
      · subst here
        simp [machine] at waiting
      · apply awake.wait other
        simpa [machine, here] using waiting
    · intro other asleep filled
      by_cases here : other = index
      · subst here
        simp [machine] at asleep
      · apply awake.asleep other _ filled
        simpa [machine, here] using asleep
  | create task => exact ⟨awake.wait, awake.asleep⟩
  | finish task => exact ⟨awake.wait, awake.asleep⟩

/-- What the mutexes and the condition variables keep in every run. -/
structure Sound (threadCnt : Nat) (locked : LockedPool Handle) : Prop where
  agreed : locked.Agreed
  existing : locked.Existing threadCnt
  targeted : locked.Targeted
  awake : locked.Awake

theorem Sound.step {threadCnt : Nat} {self : LockedPool Handle} (sound : self.Sound threadCnt)
    (step : Step Handle) (enabled : (machine threadCnt).enabled self step) :
    ((machine threadCnt).next self step).Sound threadCnt where
  agreed := sound.agreed.step threadCnt step enabled
  existing := sound.existing.step step enabled
  targeted := sound.targeted.step step enabled
  awake := sound.awake.step sound.agreed sound.targeted step enabled

omit [DecidableEq Handle] in
theorem sound_start (threadCnt : Nat) : (start threadCnt : LockedPool Handle).Sound threadCnt where
  agreed := agreed_start threadCnt
  existing := fun _ begun => absurd rfl begun
  targeted := fun _ _ chosen => by cases chosen
  awake := ⟨fun _ waiting => RunPc.noConfusion waiting, fun _ asleep => RunPc.noConfusion asleep⟩

theorem sound_reachable {threadCnt : Nat} {self : LockedPool Handle}
    (reached : (machine threadCnt).Reachable (start threadCnt) self) : self.Sound threadCnt :=
  reached.holds (Sound threadCnt) (sound_start threadCnt)
    fun _ step sound enabled => sound.step step enabled

/-- A step of a call that is in progress can be taken. -/
def CanStep (threadCnt : Nat) (self : LockedPool Handle) : Prop :=
  ∃ step holder, step.holder = some holder ∧ self.InProgress holder ∧
    (machine threadCnt).enabled self step

/-- A call that holds a lock and is not blocked moves, unless it is a task that has
called `addTask`. -/
theorem canStep_of_holding {threadCnt : Nat} {self : LockedPool Handle}
    (sound : self.Sound threadCnt) {holder : Holder} {lock : Lock}
    (holding : (self.held holder).holds lock) (ready : self.Ready holder)
    (returned : ∀ index, holder = .run index → self.runs index = .running →
      self.adds (.worker index) = .idle) : self.CanStep threadCnt := by
  cases holder with
  | add caller =>
    have calling : self.adds caller ≠ .idle := by
      intro idle
      simp [held, idle, AddPc.held, HeldLocks.holds] at holding
    exact ⟨.add caller, .add caller, rfl, calling, calling, ready⟩
  | run index =>
    have up : self.runs index ≠ .asleep := by
      intro asleep
      simp [held, asleep, RunPc.held, HeldLocks.holds] at holding
    have begun : self.runs index ≠ .lockClean := by
      intro outside
      simp [held, outside, RunPc.held, HeldLocks.holds] at holding
    exact ⟨.run index, .run index, rfl, up, sound.existing index begun, up, ready,
      returned index rfl⟩
  | clean =>
    have cleaning : self.cleaner ≠ .sleeping := by
      intro sleeping
      simp [held, sleeping, CleanPc.held, HeldLocks.holds] at holding
    obtain ⟨order, covers⟩ := self.pool.exists_covers
    exact ⟨.clean order, .clean, rfl, cleaning, ready, fun _ _ => covers⟩

omit [DecidableEq Handle] in
/-- A blocked call leads to one that holds a lock at least as high and is not blocked. -/
theorem unblocked_holder {self : LockedPool Handle} (agreed : self.Agreed) {holder : Holder}
    (blocked : ¬ self.Ready holder) :
    ∃ lock, (self.action holder).wanted = some lock ∧ ∃ other higher,
      (self.held other).holds higher ∧ lock.rank ≤ higher.rank ∧ self.Ready other :=
  agreed.unblocked_holder self.action Lock.rank 3 Lock.rank_le
    (fun _ _ waits wants _ holding => self.climbs _ waits wants holding) blocked

/-- A task that has called `addTask` shares the clean-up mutex, so its call is not
refused that mutex again, and whoever holds a higher lock moves. -/
theorem canStep_of_nested {threadCnt : Nat} {self : LockedPool Handle}
    (sound : self.Sound threadCnt) {index : Nat} (running : self.runs index = .running)
    (calling : self.adds (.worker index) ≠ .idle) : self.CanStep threadCnt := by
  by_cases ready : self.Ready (.add (.worker index))
  · exact ⟨.add (.worker index), .add (.worker index), rfl, calling, calling, ready⟩
  · obtain ⟨lock, wants, other, higher, holding, above, moves⟩ :=
      unblocked_holder sound.agreed ready
    apply canStep_of_holding sound holding moves
    rintro worker rfl again
    -- Another running task holds the clean-up mutex only, so the call waits for that one.
    have lowest : higher = .clean := by
      simpa [held, again, RunPc.held, HeldLocks.holds] using holding
    rw [lowest] at above
    have waited : lock = .clean := Lock.rank_eq_zero (Nat.le_zero.mp above)
    have shared : Lock.clean ∈ (self.held (.run index)).shared := by
      simp [held, running, RunPc.held]
    have owned : self.locks.owner .clean ≠ none := by
      intro free
      apply ready
      rw [Ready, action, AddPc.action_of_wanted (waited ▸ wants)]
      exact free
    obtain ⟨owner, owned⟩ := Option.ne_none_iff_exists'.mp owned
    exact absurd shared (sound.agreed.excluded .clean owner ((sound.agreed.owner _ _).mp owned) _)

/-- In every run, when a call is blocked some call can move; and a worker in `cv.wait`
with a task in its queue has been notified or is going to be. -/
theorem never_stuck {threadCnt : Nat} {self : LockedPool Handle}
    (reached : (machine threadCnt).Reachable (start threadCnt) self) :
    (∀ holder, ¬ self.Ready holder → self.CanStep threadCnt) ∧
    ∀ index, (self.runs index).Waiting → self.pool.tasks index ≠ [] →
      self.runs index = .notified ∨ ∃ caller, (self.adds caller).WillNotify (.queue index) := by
  have sound := sound_reachable reached
  constructor
  · intro holder blocked
    obtain ⟨_, _, other, _, holding, _, ready⟩ := unblocked_holder sound.agreed blocked
    -- A running task may itself be inside `addTask`, and then moves only there.
    by_cases nested : ∃ index, self.runs index = .running ∧ self.adds (.worker index) ≠ .idle
    · obtain ⟨index, running, calling⟩ := nested
      exact canStep_of_nested sound running calling
    · apply canStep_of_holding sound holding ready
      rintro index - running
      by_contra calling
      exact nested ⟨index, running, calling⟩
  · intro index waiting filled
    rcases waiting with asleep | notified
    · exact Or.inr (sound.awake.asleep index asleep filled)
    · exact Or.inl notified

/-- A worker falls asleep, a caller fills its queue and another one waits for the mutex. -/
def filling : List (Step Nat) :=
  List.replicate 6 (.run 0) ++
    (.call (.outside 0) 7 :: List.replicate 9 (.add (.outside 0))) ++
    (.call (.outside 1) 7 :: List.replicate 4 (.add (.outside 1)))

theorem run_allowed {self : LockedPool Nat} {steps : List (Step Nat)} (up : self.runs 0 ≠ .asleep)
    (ready : self.Ready (.run 0)) (outside : self.runs 0 ≠ .running)
    (rest : (machine 1).Allowed (self.runStep 0) steps) :
    (machine 1).Allowed self (.run 0 :: steps) :=
  ⟨⟨Nat.one_pos, up, ready, fun running => absurd running outside⟩, rest⟩

theorem add_allowed {self : LockedPool Nat} {caller : Caller} {steps : List (Step Nat)}
    (calling : self.adds caller ≠ .idle) (ready : self.Ready (.add caller))
    (rest : (machine 1).Allowed (self.addStep caller) steps) :
    (machine 1).Allowed self (.add caller :: steps) :=
  ⟨⟨calling, ready⟩, rest⟩

theorem filling_allowed : (machine 1).Allowed (start 1) filling := by
  -- the worker finds nothing and waits
  refine run_allowed (by decide) rfl (by decide) ?_
  refine run_allowed (by decide) ⟨rfl, fun _ => rfl⟩ (by decide) ?_
  iterate 4 refine run_allowed (by decide) trivial (by decide) ?_
  -- a caller binds the task and pushes it
  refine ⟨⟨rfl, fun _ same => by cases same⟩, ?_⟩
  refine add_allowed nofun rfl ?_
  refine add_allowed nofun ⟨rfl, fun _ => rfl⟩ ?_
  refine add_allowed nofun trivial ?_
  refine add_allowed nofun ⟨rfl, fun _ => rfl⟩ ?_
  iterate 3 refine add_allowed nofun trivial ?_
  refine add_allowed nofun ⟨rfl, fun _ => rfl⟩ ?_
  refine add_allowed nofun trivial ?_
  -- another caller finds it bound
  refine ⟨⟨rfl, fun _ same => by cases same⟩, ?_⟩
  refine add_allowed nofun rfl ?_
  refine add_allowed nofun ⟨rfl, fun _ => rfl⟩ ?_
  iterate 2 refine add_allowed nofun trivial ?_
  trivial

theorem never_stuck_while_filling : ∃ self : LockedPool Nat,
    ¬ self.Ready (.add (.outside 1)) ∧ self.runs 0 = .asleep ∧ self.pool.tasks 0 ≠ [] ∧
      self.CanStep 1 ∧ ∃ caller, (self.adds caller).WillNotify (.queue 0) := by
  have alive := @never_stuck Nat _ 1 _ ⟨filling, filling_allowed, rfl⟩
  have blocked : ¬ ((machine 1).exec (start 1) filling).Ready (.add (.outside 1)) :=
    fun ready => nomatch ready.1
  have asleep : ((machine 1).exec (start 1) filling).runs 0 = .asleep := rfl
  have filled : ((machine 1).exec (start 1) filling).pool.tasks 0 ≠ [] := nofun
  refine ⟨_, blocked, asleep, filled, alive.1 _ blocked, ?_⟩
  exact (alive.2 0 (Or.inl asleep) filled).resolve_left fun notified => by
    rw [asleep] at notified
    cases notified

end LockedPool

end CoroMultiplex.Pool
