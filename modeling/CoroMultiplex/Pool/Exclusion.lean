import CoroMultiplex.Pool.Locking

/-! The lock table always says what the points of control say, and every call
takes the locks in one order: clean-up, binding, counter, queue.
-/

set_option autoImplicit false

namespace CoroMultiplex.Pool

open Foundations

variable {Handle : Type}

/-- The order in which a call takes its locks. -/
def Lock.rank : Lock → Nat
  | .clean => 0
  | .binding => 1
  | .counter => 2
  | .queue _ => 3

theorem Lock.rank_le (lock : Lock) : lock.rank ≤ 3 := by
  cases lock <;> simp [rank]

theorem Lock.rank_eq_zero {lock : Lock} (lowest : lock.rank = 0) : lock = .clean := by
  cases lock with
  | clean => rfl
  | _ => cases lowest

theorem RunPc.held_wake (index : Nat) (pc : RunPc) : pc.wake.held index = pc.held index := by
  cases pc <;> rfl

/-! What a call holds after a step is what the step's lock operation leaves it. -/

theorem AddPc.follows [DecidableEq Handle] (pool : ThreadPool Handle) (pc : AddPc Handle) :
    HeldLocks.Follows pc.held (pc.next pool).held pc.action := by
  cases pc with
  | find task =>
    cases found : pool.taskBinding.lookup task <;>
      constructor <;> intro lock <;> simp [AddPc.held, AddPc.next, AddPc.action, found]
  | lockCounter | unlockCounter =>
    constructor <;> intro lock <;> cases lock <;> simp [AddPc.held, AddPc.next, AddPc.action]
  | _ =>
    constructor <;> intro lock <;> simp [AddPc.held, AddPc.next, AddPc.action, eq_comm]

theorem RunPc.follows (index : Nat) (pool : ThreadPool Handle) (locks : LockTable Holder Lock)
    (pc : RunPc) :
    HeldLocks.Follows (pc.held index) ((pc.next index pool locks).held index)
      (pc.action index locks) := by
  cases pc with
  | testEmpty =>
    by_cases empty : pool.tasks index = [] <;>
      constructor <;> intro lock <;> simp [RunPc.held, RunPc.next, RunPc.action, empty]
  | testPredicate =>
    by_cases empty : pool.tasks index = [] <;>
      constructor <;> intro lock <;> simp [RunPc.held, RunPc.next, RunPc.action, empty]
  | tryLock =>
    by_cases free : locks.owner .clean = none <;>
      constructor <;> intro lock <;> simp [RunPc.held, RunPc.next, RunPc.action, free, eq_comm]
  | resume =>
    have kept : (RunPc.next index pool locks .resume).held index = RunPc.resume.held index := by
      simp only [RunPc.next]
      split <;> rfl
    rw [kept]
    constructor <;> intro lock <;> simp [RunPc.held, RunPc.action]
  | _ =>
    constructor <;> intro lock <;> simp [RunPc.held, RunPc.next, RunPc.action, eq_comm]

theorem CleanPc.follows [DecidableEq Handle] (pool : ThreadPool Handle) (order : List Nat)
    (pc : CleanPc Handle) :
    HeldLocks.Follows pc.held (pc.next pool order).held pc.action := by
  cases pc with
  | testSize =>
    by_cases small : pool.taskBinding.size < 10000 <;>
      constructor <;> intro lock <;> simp [CleanPc.held, CleanPc.next, CleanPc.action, small]
  | nextQueue doneTasks rest =>
    cases rest <;>
      constructor <;> intro lock <;>
      simp [CleanPc.held, CleanPc.next, CleanPc.action, eq_comm, or_comm]
  | unlockQueue =>
    constructor <;> intro lock <;> cases lock <;>
      simp [CleanPc.held, CleanPc.next, CleanPc.action, eq_comm]
  | _ =>
    constructor <;> intro lock <;> simp [CleanPc.held, CleanPc.next, CleanPc.action, eq_comm]

/-! A call that has to wait holds only locks below the one it waits for. -/

theorem AddPc.climbs (pc : AddPc Handle) {lock lower : Lock}
    (wants : pc.action.wanted = some lock) (holding : pc.held.holds lower) :
    lower.rank < lock.rank := by
  cases pc with
  | lockClean => simp [AddPc.held, HeldLocks.holds] at holding
  | lockBinding | lockCounter | lockQueue =>
    cases wants
    cases lower <;> simp_all [AddPc.held, HeldLocks.holds, Lock.rank]
  | _ => cases wants

theorem CleanPc.climbs (pc : CleanPc Handle) {lock lower : Lock}
    (wants : pc.action.wanted = some lock) (holding : pc.held.holds lower) :
    lower.rank < lock.rank := by
  cases pc with
  | lockClean => simp [CleanPc.held, HeldLocks.holds] at holding
  | nextQueue doneTasks rest =>
    cases rest with
    | nil => cases wants
    | cons index rest =>
      cases wants
      cases lower <;> simp_all [CleanPc.held, HeldLocks.holds, Lock.rank]
  | _ => cases wants

/-- Trying to share the clean-up mutex with a queue locked never waits. -/
theorem RunPc.climbs (index : Nat) (locks : LockTable Holder Lock) (pc : RunPc) {lock lower : Lock}
    (blocked : ¬ (pc.action index locks).Ready locks)
    (wants : (pc.action index locks).wanted = some lock) (holding : (pc.held index).holds lower) :
    lower.rank < lock.rank := by
  cases pc with
  | lockClean | notified => simp [RunPc.held, HeldLocks.holds] at holding
  | lockQueue =>
    cases wants
    cases lower <;> simp_all [RunPc.held, HeldLocks.holds, Lock.rank]
  -- `try_lock` fails where `lock` would wait, so it is never blocked.
  | tryLock =>
    by_cases free : locks.owner .clean = none
    · rw [RunPc.action, if_pos free] at blocked
      exact absurd free blocked
    · rw [RunPc.action, if_neg free] at wants
      cases wants
  | _ => cases wants

namespace LockedPool

/-- Every lock is held by the calls that stand behind its acquisition, and no others. -/
def Agreed (self : LockedPool Handle) : Prop := Agrees self.locks self.held

theorem climbs (self : LockedPool Handle) (holder : Holder) {lock lower : Lock}
    (blocked : ¬ self.Ready holder) (wants : (self.action holder).wanted = some lock)
    (holding : (self.held holder).holds lower) : lower.rank < lock.rank := by
  cases holder with
  | add caller => exact (self.adds caller).climbs wants holding
  | run index => exact (self.runs index).climbs index self.locks blocked wants holding
  | clean => exact self.cleaner.climbs wants holding

theorem notify_cases (self : LockedPool Handle) (caller : Caller) (index : Nat) :
    self.notify caller index = (self.runs index).wake ∨
      self.notify caller index = self.runs index := by
  unfold notify
  split
  · split
    · exact Or.inl rfl
    · exact Or.inr rfl
  · exact Or.inr rfl

theorem held_notify (self : LockedPool Handle) (caller : Caller) (index : Nat) :
    (self.notify caller index).held index = (self.runs index).held index := by
  rcases self.notify_cases caller index with woken | same
  · rw [woken, RunPc.held_wake]
  · rw [same]

variable [DecidableEq Handle]

theorem held_addStep (self : LockedPool Handle) (caller : Caller) :
    (self.addStep caller).held =
      Function.update self.held (.add caller) ((self.adds caller).next self.pool).held := by
  funext holder
  cases holder with
  | add other =>
    by_cases here : other = caller
    · subst here; simp [held, addStep]
    · simp [held, addStep, here]
  | run index => simp [held, addStep, held_notify]
  | clean => simp [held, addStep]

omit [DecidableEq Handle] in
theorem held_runStep (self : LockedPool Handle) (index : Nat) :
    (self.runStep index).held = Function.update self.held (.run index)
      (((self.runs index).next index self.pool self.locks).held index) := by
  funext holder
  cases holder with
  | add caller => simp [held, runStep]
  | run other =>
    by_cases here : other = index
    · subst here; simp [held, runStep]
    · simp [held, runStep, here]
  | clean => simp [held, runStep]

theorem held_cleanStep (self : LockedPool Handle) (order : List Nat) :
    (self.cleanStep order).held =
      Function.update self.held .clean (self.cleaner.next self.pool order).held := by
  funext holder
  cases holder <;> simp [held, cleanStep]

omit [DecidableEq Handle] in
/-- A step that moves calls only between points that hold the same keeps the table. -/
theorem Agreed.of_held {self after : LockedPool Handle} (agreed : self.Agreed)
    (locks : after.locks = self.locks) (held : after.held = self.held) : after.Agreed := by
  rw [Agreed, locks, held]
  exact agreed

theorem Agreed.step {self : LockedPool Handle} (agreed : self.Agreed) (threadCnt : Nat)
    (step : Step Handle) (enabled : (machine threadCnt).enabled self step) :
    ((machine threadCnt).next self step).Agreed := by
  cases step with
  | call caller task =>
    obtain ⟨idle, _⟩ := enabled
    refine agreed.of_held rfl ?_
    funext holder
    cases holder with
    | add other =>
      by_cases here : other = caller
      · subst here; simp [machine, held, idle, AddPc.held]
      · simp [machine, held, here]
    | _ => rfl
  | add caller =>
    change Agrees (self.perform (.add caller)) (self.addStep caller).held
    rw [held_addStep]
    exact Agrees.step agreed enabled.2 ((self.adds caller).follows self.pool)
  | run index =>
    change Agrees (self.perform (.run index)) (self.runStep index).held
    rw [held_runStep]
    exact Agrees.step agreed enabled.2.2.1 ((self.runs index).follows index self.pool self.locks)
  | clean order =>
    change Agrees (self.perform .clean) (self.cleanStep order).held
    rw [held_cleanStep]
    exact Agrees.step agreed enabled.1 (self.cleaner.follows self.pool order)
  | wake index =>
    have asleep : self.runs index = .asleep := enabled
    refine agreed.of_held rfl ?_
    funext holder
    cases holder with
    | run other =>
      by_cases here : other = index
      · subst here; simp [machine, held, asleep, RunPc.held]
      · simp [machine, held, here]
    | _ => rfl
  | create task => exact agreed.of_held rfl rfl
  | finish task => exact agreed.of_held rfl rfl

omit [DecidableEq Handle] in
theorem agreed_start (threadCnt : Nat) : (start threadCnt : LockedPool Handle).Agreed := by
  constructor
  · intro lock holder
    cases holder <;> simp [start, held, AddPc.held, RunPc.held, CleanPc.held]
  · intro lock holder
    cases holder <;> simp [start, held, AddPc.held, RunPc.held, CleanPc.held]
  · intro lock holder owned
    cases holder <;> simp [start, held, AddPc.held, RunPc.held, CleanPc.held] at owned

theorem agreed_reachable {threadCnt : Nat} {self : LockedPool Handle}
    (reached : (machine threadCnt).Reachable (start threadCnt) self) : self.Agreed :=
  reached.holds Agreed (agreed_start threadCnt)
    fun _ step agreed enabled => agreed.step threadCnt step enabled

/-- In every run a lock has one owner at most, and then nobody shares it. -/
theorem owned_alone {threadCnt : Nat} {self : LockedPool Handle}
    (reached : (machine threadCnt).Reachable (start threadCnt) self) {lock : Lock}
    {owner other : Holder} (owned : lock ∈ (self.held owner).exclusive) :
    lock ∉ (self.held other).shared ∧ (lock ∈ (self.held other).exclusive → owner = other) := by
  have agreed := agreed_reachable reached
  exact ⟨agreed.excluded lock owner owned other, agreed.owner_unique owned⟩

end LockedPool

end CoroMultiplex.Pool
