import CoroMultiplex.Uring.Ring

/-! What is under way for each coroutine.

A suspended coroutine has its submission in the kernel, its completions in the queue,
or itself on the pool; a coroutine that is not suspended has nothing of the sort.
-/

set_option autoImplicit false

namespace CoroMultiplex.Uring

open Foundations Http

def Control.await? : Control → Option Await
  | .suspending await | .refused await | .suspended await => some await
  | .running | .ended => none

/-- The user data of an await, as its awaiter has filled it in. -/
def Holds (memory : Address → Option UserData) (a : Await) (value : Except ErrorCode Int) : Prop :=
  memory a.address = some {
    multishot := a.operation.multishot
    handle := a.handle
    returnVal := value
    multishotHandler := a.operation.multishotHandler }

def Await.sqe (a : Await) : Sqe := ⟨a.address, a.operation.multishot, a⟩

structure Cqe.Of (a : Await) (c : Cqe) : Prop where
  owner : c.owner = a
  userData : c.userData = a.address
  multishot : c.more = true → a.operation.multishot = true

def Task.resumes (handle : Handle) : Task → Bool
  | .coroutine other _ => other = handle
  | .handler _ _ _ => false

namespace RingState

/-- The completions whose coroutine the reaper may still hand to the pool. -/
def unreaped (s : RingState) : List Cqe :=
  match s.reaper with
  | .seen _ => s.cq.tail
  | _ => s.cq

def kernelOf (s : RingState) (handle : Handle) : List Sqe := s.kernel.filter (·.owner.handle = handle)
def pendingOf (s : RingState) (handle : Handle) : List Cqe :=
  s.unreaped.filter (·.owner.handle = handle)
def poolOf (s : RingState) (handle : Handle) : List Task := s.pool.filter (Task.resumes handle)

end RingState

/-- The stages of a coroutine, by its submissions in the kernel, its completions in the
queue and its entries on the pool. -/
inductive Stage (memory : Address → Option UserData) (posted : List Cqe) (h : Handle) :
    Control → List Sqe → List Cqe → List Task → Prop
  | running : Stage memory posted h .running [] [] []
  | ended : Stage memory posted h .ended [] [] []
  | suspending {a : Await} {value : Except ErrorCode Int} (own : a.handle = h)
      (holds : Holds memory a value) : Stage memory posted h (.suspending a) [] [] []
  | refused {a : Await} (own : a.handle = h) (holds : Holds memory a (.error .sqeBusy)) :
      Stage memory posted h (.refused a) [] [] []
  | flying {a : Await} {value : Except ErrorCode Int} {pending : List Cqe} (own : a.handle = h)
      (holds : Holds memory a value) (follow : ∀ c ∈ pending, c.Of a ∧ c.more = true) :
      Stage memory posted h (.suspended a) [a.sqe] pending []
  | landing {a : Await} {value : Except ErrorCode Int} {front : List Cqe} {last : Cqe}
      (own : a.handle = h) (holds : Holds memory a value)
      (follow : ∀ c ∈ front, c.Of a ∧ c.more = true) (of : last.Of a) (final : last.more = false) :
      Stage memory posted h (.suspended a) [] (front ++ [last]) []
  | handed {a : Await} {c : Cqe} (own : a.handle = h) (holds : Holds memory a (returned c.res))
      (of : c.Of a) (final : c.more = false) (member : c ∈ posted) :
      Stage memory posted h (.suspended a) [] [] [.coroutine h c]

theorem Stage.mono {memory later : Address → Option UserData} {posted more : List Cqe} {h : Handle}
    {control : Control} {kernel : List Sqe} {pending : List Cqe} {pool : List Task}
    (stage : Stage memory posted h control kernel pending pool)
    (kept : ∀ a, control.await? = some a → later a.address = memory a.address)
    (extends_ : posted ⊆ more) : Stage later more h control kernel pending pool := by
  have holds : ∀ a value, control.await? = some a → Holds memory a value → Holds later a value :=
    fun a value named holds => (kept a named).trans holds
  cases stage with
  | running => exact .running
  | ended => exact .ended
  | suspending own held => exact .suspending own (holds _ _ rfl held)
  | refused own held => exact .refused own (holds _ _ rfl held)
  | flying own held follow => exact .flying own (holds _ _ rfl held) follow
  | landing own held follow of final => exact .landing own (holds _ _ rfl held) follow of final
  | handed own held of final member =>
    exact .handed own (holds _ _ rfl held) of final (extends_ member)

def Staged (s : RingState) (h : Handle) : Prop :=
  Stage s.memory s.posted h (s.control h) (s.kernelOf h) (s.pendingOf h) (s.poolOf h)

/-- What the reaper relies on between its steps. -/
def Reaping (s : RingState) : Prop :=
  match s.reaper with
  | .peek | .yielded | .thrown => True
  | .store c | .seen c => s.cq.head? = some c
  | .dispatch c => s.cq.head? = some c ∧ Holds s.memory c.owner (returned c.res)
  | .last c => s.cq.head? = some c ∧ Holds s.memory c.owner (returned c.res) ∧
    c.owner.operation.multishot = true

namespace Stage

variable {memory : Address → Option UserData} {posted : List Cqe} {h : Handle} {control : Control}
variable {kernel : List Sqe} {pending : List Cqe} {pool : List Task}

theorem of_named (stage : Stage memory posted h control kernel pending pool) {a : Await}
    (named : control.await? = some a) : a.handle = h ∧ ∃ value, Holds memory a value := by
  cases stage <;> cases named
  all_goals exact ⟨‹_›, _, ‹_›⟩

theorem of_pending (stage : Stage memory posted h control kernel pending pool) {c : Cqe}
    (member : c ∈ pending) :
    control = .suspended c.owner ∧ c.Of c.owner ∧ ∃ value, Holds memory c.owner value := by
  cases stage with
  | flying own holds follow =>
    obtain ⟨of, _⟩ := follow c member
    obtain rfl := of.owner
    exact ⟨rfl, of, _, holds⟩
  | landing own holds follow of final =>
    rcases List.mem_append.mp member with early | late
    · obtain ⟨of, _⟩ := follow c early
      obtain rfl := of.owner
      exact ⟨rfl, of, _, holds⟩
    · obtain rfl := List.mem_singleton.mp late
      obtain rfl := of.owner
      exact ⟨rfl, of, _, holds⟩
  | running | ended | suspending | refused | handed => exact absurd member List.not_mem_nil

/-- The user data of a suspended await may get another value until its coroutine is
handed to the pool. -/
theorem store (stage : Stage memory posted h control kernel pending pool) {c : Cqe}
    (member : c ∈ pending) {later : Address → Option UserData} {value : Except ErrorCode Int}
    (holds : Holds later c.owner value) : Stage later posted h control kernel pending pool := by
  have owner := (stage.of_pending member).1
  cases stage with
  | flying own _ follow =>
    cases owner
    exact .flying own holds follow
  | landing own _ follow of final =>
    cases owner
    exact .landing own holds follow of final
  | running | ended | suspending | refused | handed => exact absurd member List.not_mem_nil

/-- A completion with more to follow is passed over. -/
theorem pass {c : Cqe} (stage : Stage memory posted h control kernel (c :: pending) pool)
    (more : c.more = true) : Stage memory posted h control kernel pending pool := by
  generalize whole : c :: pending = all at stage
  cases stage with
  | flying own holds follow =>
    subst whole
    exact .flying own holds fun d member => follow d (List.mem_cons_of_mem c member)
  | @landing a value front last own holds follow of final =>
    cases front with
    | nil =>
      cases whole
      rw [more] at final
      cases final
    | cons first front =>
      cases whole
      exact .landing own holds (fun d member => follow d (List.mem_cons_of_mem _ member)) of final
  | running | ended | suspending | refused | handed => cases whole

/-- The last completion takes its coroutine to the pool. -/
theorem hand {c : Cqe} (stage : Stage memory posted h control kernel (c :: pending) pool)
    (final : c.more = false) (holds : Holds memory c.owner (returned c.res)) (member : c ∈ posted) :
    Stage memory posted h control kernel pending (pool ++ [.coroutine c.owner.handle c]) := by
  generalize whole : c :: pending = all at stage
  cases stage with
  | flying own _ follow =>
    subst whole
    have more := (follow c List.mem_cons_self).2
    rw [final] at more
    cases more
  | @landing a value front last own _ follow of _ =>
    cases front with
    | nil =>
      cases whole
      obtain rfl := of.owner
      subst own
      exact .handed rfl holds of final member
    | cons first front =>
      cases whole
      have more := (follow _ List.mem_cons_self).2
      rw [final] at more
      cases more
  | running | ended | suspending | refused | handed => cases whole

theorem of_kernel (stage : Stage memory posted h control kernel pending pool) {sqe : Sqe}
    (member : sqe ∈ kernel) :
    control = .suspended sqe.owner ∧ sqe = sqe.owner.sqe ∧ kernel = [sqe] ∧ pool = [] := by
  cases stage with
  | flying own holds follow =>
    obtain rfl := List.mem_singleton.mp member
    exact ⟨rfl, rfl, rfl, rfl⟩
  | running | ended | suspending | refused | landing | handed => exact absurd member List.not_mem_nil

theorem of_pool (stage : Stage memory posted h control kernel pending pool) {handle : Handle} {c : Cqe}
    (member : .coroutine handle c ∈ pool) :
    control = .suspended c.owner ∧ handle = h ∧ c.owner.handle = h ∧ c.more = false ∧ c ∈ posted ∧
      Holds memory c.owner (returned c.res) ∧ kernel = [] ∧ pending = [] ∧
      pool = [.coroutine h c] := by
  cases stage with
  | handed own holds of final known =>
    cases List.mem_singleton.mp member
    obtain rfl := of.owner
    exact ⟨rfl, rfl, own, final, known, holds, rfl, rfl, rfl⟩
  | running | ended | suspending | refused | flying | landing => exact absurd member List.not_mem_nil

/-- A completion is posted behind the earlier ones; with the last one the submission is over. -/
theorem land {sqe : Sqe} (stage : Stage memory posted h control [sqe] pending pool) {c : Cqe}
    (of : c.Of sqe.owner) :
    Stage memory posted h control (if c.more then [sqe] else []) (pending ++ [c]) pool := by
  generalize whole : [sqe] = all at stage
  cases stage with
  | flying own holds follow =>
    cases whole
    cases more : c.more with
    | false => exact .landing own holds follow of more
    | true =>
      refine .flying own holds fun d member => ?_
      rcases List.mem_append.mp member with early | late
      · exact follow d early
      · obtain rfl := List.mem_singleton.mp late
        exact ⟨of, more⟩
  | running | ended | suspending | refused | landing | handed => cases whole

theorem of_refused {a : Await} (stage : Stage memory posted h (.refused a) kernel pending pool) :
    Holds memory a (.error .sqeBusy) := by
  cases stage with
  | refused own holds => exact holds

/-- A suspended coroutine waits in one of three places. -/
theorem of_suspended {a : Await} (stage : Stage memory posted h (.suspended a) kernel pending pool) :
    (kernel = [a.sqe] ∧ pool = []) ∨
      (∃ c ∈ pending, c.owner = a ∧ c.more = false) ∧ pool = [] ∨
      kernel = [] ∧ pending = [] ∧ ∃ c, c.owner = a ∧ pool = [.coroutine h c] := by
  cases stage with
  | flying => exact .inl ⟨rfl, rfl⟩
  | @landing _ _ front last own holds follow of final =>
    exact .inr (.inl ⟨⟨last, by simp, of.owner, final⟩, rfl⟩)
  | handed own holds of final member => exact .inr (.inr ⟨rfl, rfl, _, of.owner, rfl⟩)

/-- A coroutine that is not suspended has nothing under way. -/
theorem nothing (stage : Stage memory posted h control kernel pending pool)
    (awake : ∀ a, control ≠ .suspended a) : kernel = [] ∧ pending = [] ∧ pool = [] := by
  cases stage with
  | running | ended | suspending | refused => exact ⟨rfl, rfl, rfl⟩
  | flying | landing | handed => exact absurd rfl (awake _)

end Stage

/-- The tasks of its handler that a completion leads to. -/
def Cqe.handlers (c : Cqe) : List Task :=
  match c.owner.operation with
  | .send | .recv => []
  | .multishotAccept handler => if c.res ≥ 0 then [.handler handler c.res c] else []

/-- The coroutine that a completion takes to the pool. -/
def Cqe.callers (c : Cqe) : List Task := if c.more then [] else [.coroutine c.owner.handle c]

theorem Cqe.mem_handlers (c : Cqe) {task : Task} (member : task ∈ c.handlers) :
    ∃ handler, task = .handler handler c.res c ∧ c.owner.operation = .multishotAccept handler ∧
      c.res ≥ 0 := by
  unfold Cqe.handlers at member
  cases operation : c.owner.operation with
  | send | recv =>
    rw [operation] at member
    cases member
  | multishotAccept handler =>
    simp only [operation, List.mem_ite_nil_right, List.mem_singleton] at member
    exact ⟨handler, member.2, rfl, member.1⟩

def RingState.addTasks (s : RingState) (tasks : List Task) : RingState :=
  { s with pool := s.pool ++ tasks, handed := s.handed ++ tasks }

theorem RingState.addTasks_nil (s : RingState) : s.addTasks [] = s := by
  simp [RingState.addTasks]

structure Sound (s : RingState) : Prop where
  faultless : s.fault = false
  staged : ∀ h, Staged s h
  -- living awaiters lie at different addresses
  separate : ∀ h k a b, (s.control h).await? = some a → (s.control k).await? = some b →
    a.address = b.address → h = k
  reaping : Reaping s

theorem Staged.frame {s t : RingState} {k : Handle} (staged : Staged s k)
    (control : t.control k = s.control k) (kernel : t.kernelOf k = s.kernelOf k)
    (pending : t.pendingOf k = s.pendingOf k) (pool : t.poolOf k = s.poolOf k)
    (memory : ∀ a, (s.control k).await? = some a → t.memory a.address = s.memory a.address)
    (posted : s.posted ⊆ t.posted) : Staged t k := by
  rw [Staged, control, kernel, pending, pool]
  exact Stage.mono staged memory posted

theorem sound_start : Sound {} where
  faultless := rfl
  staged _ := .running
  separate _ _ _ _ named := by cases named
  reaping := trivial

/-- Storing a value changes the user data of one awaiter, and nothing else. -/
theorem RingState.setReturn_eq {s : RingState} {a : Await} {old : Except ErrorCode Int}
    (holds : Holds s.memory a old) (value : Except ErrorCode Int) :
    ∃ memory, s.setReturn a.address value = { s with memory := memory } ∧ Holds memory a value ∧
      ∀ address, address ≠ a.address → memory address = s.memory address := by
  rw [Holds] at holds
  simp only [RingState.setReturn, holds]
  exact ⟨_, rfl, Function.update_self .., fun address other => Function.update_of_ne other ..⟩

theorem RingState.afterwards_cases (acceptor : Handle → Option Handler) (handle : Handle)
    (value : Except ErrorCode Int) :
    RingState.afterwards acceptor handle value = .running ∨
      RingState.afterwards acceptor handle value = .ended := by
  unfold RingState.afterwards
  split
  · exact .inl rfl
  · split
    · exact .inl rfl
    · exact .inr rfl

theorem RingState.posted_complete (s : RingState) (sqe : Sqe) (res : Int) (more : Bool) :
    (s.complete sqe res more).posted =
      s.posted ++ [⟨sqe.userData, res, more, sqe.owner, s.posted.length⟩] :=
  (List.append_assoc ..).symm

theorem RingState.posted_cqeSeen (s : RingState) : s.cqeSeen.posted = s.posted := by
  rw [RingState.posted, RingState.cqeSeen, List.append_assoc, ← List.drop_one,
    List.take_append_drop, RingState.posted]

namespace Sound

variable {s : RingState}

theorem apart (sound : Sound s) {h k : Handle} {a b : Await} (named : (s.control h).await? = some a)
    (other : (s.control k).await? = some b) (differ : k ≠ h) : b.address ≠ a.address :=
  fun same => differ (sound.separate k h b a other named same)

/-- Completions that the reaper may still hand over belong to suspended awaits. -/
theorem of_unreaped (sound : Sound s) {c : Cqe} (member : c ∈ s.unreaped) :
    s.control c.owner.handle = .suspended c.owner ∧ c.Of c.owner ∧
      ∃ value, Holds s.memory c.owner value := by
  have listed : c ∈ s.pendingOf c.owner.handle := List.mem_filter.mpr ⟨member, by simp⟩
  exact Stage.of_pending (sound.staged c.owner.handle) listed

theorem of_kernel (sound : Sound s) {sqe : Sqe} (member : sqe ∈ s.kernel) :
    s.control sqe.owner.handle = .suspended sqe.owner ∧ sqe = sqe.owner.sqe ∧
      s.kernelOf sqe.owner.handle = [sqe] := by
  have listed : sqe ∈ s.kernelOf sqe.owner.handle := List.mem_filter.mpr ⟨member, by simp⟩
  obtain ⟨suspended, shape, alone, _⟩ := Stage.of_kernel (sound.staged sqe.owner.handle) listed
  exact ⟨suspended, shape, alone⟩

theorem of_pool (sound : Sound s) {handle : Handle} {c : Cqe}
    (member : .coroutine handle c ∈ s.pool) :
    c.owner.handle = handle ∧ s.control handle = .suspended c.owner ∧ c.more = false ∧
      c ∈ s.posted ∧ Holds s.memory c.owner (returned c.res) ∧ s.kernelOf handle = [] ∧
      s.pendingOf handle = [] ∧ s.poolOf handle = [.coroutine handle c] := by
  have listed : .coroutine handle c ∈ s.poolOf handle :=
    List.mem_filter.mpr ⟨member, by simp [Task.resumes]⟩
  obtain ⟨suspended, _, own, final, posted, holds, lists⟩ :=
    Stage.of_pool (sound.staged handle) listed
  exact ⟨own, suspended, final, posted, holds, lists⟩

/-- The reaper keeps what it relies on when neither its place nor the user data of its
completion changes. -/
theorem reaping_frame {t : RingState} (sound : Sound s) (reaper : t.reaper = s.reaper)
    (head : ∀ c, s.cq.head? = some c → t.cq.head? = some c)
    (memory : ∀ c ∈ s.unreaped, t.memory c.owner.address = s.memory c.owner.address) :
    Reaping t := by
  have reaping := sound.reaping
  have kept : ∀ c : Cqe, s.unreaped = s.cq → s.cq.head? = some c →
      Holds s.memory c.owner (returned c.res) → Holds t.memory c.owner (returned c.res) := by
    intro c all first holds
    have member : c ∈ s.unreaped := all ▸ List.mem_of_mem_head? first
    exact (memory c member).trans holds
  unfold Reaping at reaping ⊢
  rw [reaper]
  cases place : s.reaper with
  | peek | yielded | thrown => trivial
  | store c | seen c =>
    rw [place] at reaping
    exact head c reaping
  | dispatch c =>
    rw [place] at reaping
    have all : s.unreaped = s.cq := by rw [RingState.unreaped, place]
    exact ⟨head c reaping.1, kept c all reaping.1 reaping.2⟩
  | last c =>
    rw [place] at reaping
    have all : s.unreaped = s.cq := by rw [RingState.unreaped, place]
    exact ⟨head c reaping.1, kept c all reaping.1 reaping.2.1, reaping.2.2⟩

theorem await (sound : Sound s) {handle : Handle} {address : Address}
    (running : s.control handle = .running) (free : s.memory address = none)
    (operation : Operation) : Sound (s.await handle address operation) := by
  have occupied : ∀ a value, Holds s.memory a value → a.address ≠ address := by
    intro a value holds same
    rw [Holds, same, free] at holds
    cases holds
  have named : ∀ k a, (s.control k).await? = some a → a.address ≠ address := by
    intro k a named
    obtain ⟨_, value, holds⟩ := Stage.of_named (sound.staged k) named
    exact occupied a value holds
  have elsewhere : ∀ k, k ≠ handle →
      (s.await handle address operation).control k = s.control k := fun k other =>
    Function.update_of_ne other ..
  have here : (s.await handle address operation).control handle =
      .suspending { number := s.started.length, handle, address, operation } :=
    Function.update_self ..
  refine ⟨sound.faultless, fun k => ?_, fun h k a b first second same => ?_, ?_⟩
  · by_cases other : k = handle
    · subst other
      obtain ⟨noKernel, noPending, noPool⟩ := (sound.staged k).nothing (by simp [running])
      rw [Staged, here]
      have lists : Stage (s.await k address operation).memory (s.await k address operation).posted k
          (.suspending { number := s.started.length, handle := k, address, operation }) [] [] [] :=
        .suspending rfl (Function.update_self ..)
      rwa [← noKernel, ← noPending, ← noPool] at lists
    · refine (sound.staged k).frame (elsewhere k other) rfl rfl rfl ?_ (fun _ => id)
      intro a which
      exact Function.update_of_ne (named k a which) ..
  · by_cases left : h = handle <;> by_cases right : k = handle
    · exact left.trans right.symm
    · subst left
      rw [here] at first
      rw [elsewhere k right] at second
      cases first
      exact absurd same.symm (named k b second)
    · subst right
      rw [here] at second
      rw [elsewhere h left] at first
      cases second
      exact absurd same (named h a first)
    · rw [elsewhere h left] at first
      rw [elsewhere k right] at second
      exact sound.separate h k a b first second same
  · refine sound.reaping_frame rfl (fun _ => id) fun c member => ?_
    obtain ⟨_, _, value, holds⟩ := sound.of_unreaped member
    exact Function.update_of_ne (occupied c.owner value holds) ..

theorem separate_of_named {t : RingState} (sound : Sound s)
    (named : ∀ k b, (t.control k).await? = some b → (s.control k).await? = some b)
    (h k : Handle) (a b : Await) (first : (t.control h).await? = some a)
    (second : (t.control k).await? = some b) (same : a.address = b.address) : h = k :=
  sound.separate h k a b (named h a first) (named k b second) same

theorem grant (sound : Sound s) {a : Await} (suspending : s.control a.handle = .suspending a) :
    Sound (s.prep a true) := by
  have elsewhere : ∀ k, k ≠ a.handle → (s.prep a true).control k = s.control k := fun k other =>
    Function.update_of_ne other ..
  have here : (s.prep a true).control a.handle = .suspended a := Function.update_self ..
  have kernel : ∀ k, (s.prep a true).kernelOf k =
      s.kernelOf k ++ if a.handle = k then [a.sqe] else [] := by
    intro k
    simp only [RingState.kernelOf, RingState.prep, if_true, List.filter_append, List.filter_singleton]
    simp [Await.sqe]
  refine ⟨sound.faultless, fun k => ?_, sound.separate_of_named fun k b which => ?_, ?_⟩
  · by_cases other : k = a.handle
    · subst other
      have stage := sound.staged a.handle
      obtain ⟨noKernel, noPending, noPool⟩ := stage.nothing (by simp [suspending])
      obtain ⟨_, value, holds⟩ := Stage.of_named stage (by rw [suspending]; rfl)
      have lists : Stage (s.prep a true).memory (s.prep a true).posted a.handle (.suspended a)
          [a.sqe] [] [] := .flying rfl holds (fun c member => absurd member List.not_mem_nil)
      rw [Staged, here, kernel, noKernel, if_pos rfl, List.nil_append]
      rwa [← noPending, ← noPool] at lists
    · have none_ : (s.prep a true).kernelOf k = s.kernelOf k := by
        rw [kernel, if_neg (Ne.symm other), List.append_nil]
      exact (sound.staged k).frame (elsewhere k other) none_ rfl rfl (fun _ _ => rfl) (fun _ => id)
  · by_cases other : k = a.handle
    · subst other
      rw [here] at which
      rw [suspending]
      exact which
    · rwa [elsewhere k other] at which
  · exact sound.reaping_frame rfl (fun _ => id) fun _ _ => rfl

theorem refuse (sound : Sound s) {a : Await} (suspending : s.control a.handle = .suspending a) :
    Sound (s.prep a false) := by
  have stage := sound.staged a.handle
  have mine : (s.control a.handle).await? = some a := by rw [suspending]; rfl
  obtain ⟨_, value, holds⟩ := Stage.of_named stage mine
  obtain ⟨memory, stored, fresh, others⟩ := RingState.setReturn_eq holds (.error .sqeBusy)
  have shape : s.prep a false = { s with
      memory := memory
      control := Function.update s.control a.handle (.refused a)
      refusals := s.refusals ++ [a] } := by
    simp [RingState.prep, stored]
  rw [shape]
  have elsewhere : ∀ k, k ≠ a.handle →
      Function.update s.control a.handle (.refused a) k = s.control k := fun k other =>
    Function.update_of_ne other ..
  have here : Function.update s.control a.handle (.refused a) a.handle = .refused a :=
    Function.update_self ..
  refine ⟨sound.faultless, fun k => ?_, sound.separate_of_named fun k b which => ?_, ?_⟩
  · by_cases other : k = a.handle
    · subst other
      obtain ⟨noKernel, noPending, noPool⟩ := stage.nothing (by simp [suspending])
      have lists : Stage memory s.posted a.handle (.refused a) [] [] [] := .refused rfl fresh
      rw [← noKernel, ← noPending, ← noPool, ← here] at lists
      exact lists
    · refine (sound.staged k).frame (elsewhere k other) rfl rfl rfl (fun b which => ?_) (fun _ => id)
      exact others _ (sound.apart mine which other)
  · by_cases other : k = a.handle
    · subst other
      simp only [here] at which
      rw [suspending]
      exact which
    · simpa only [elsewhere k other] using which
  · refine sound.reaping_frame rfl (fun _ => id) fun c member => ?_
    obtain ⟨suspended, _⟩ := sound.of_unreaped member
    have other : c.owner.handle ≠ a.handle := by
      intro same
      rw [same, suspending] at suspended
      cases suspended
    exact others _ (sound.apart mine (by rw [suspended]; rfl) other)

/-- An await ends when nothing of it is under way any more. -/
theorem leave (sound : Sound s) (acceptor : Handle → Option Handler) {a : Await}
    {value : Except ErrorCode Int} (mine : (s.control a.handle).await? = some a)
    (holds : Holds s.memory a value) (noKernel : s.kernelOf a.handle = [])
    (noPending : s.pendingOf a.handle = []) {pool : List Task}
    (noPool : pool.filter (Task.resumes a.handle) = [])
    (others : ∀ k, k ≠ a.handle → pool.filter (Task.resumes k) = s.poolOf k) :
    Sound ({ s with pool := pool }.awaitResume acceptor a) := by
  rw [Holds] at holds
  simp only [RingState.awaitResume, holds]
  generalize ends : RingState.afterwards acceptor a.handle value = after
  have awake : after = .running ∨ after = .ended :=
    ends ▸ RingState.afterwards_cases acceptor a.handle value
  have elsewhere : ∀ k, k ≠ a.handle →
      Function.update s.control a.handle after k = s.control k := fun k other =>
    Function.update_of_ne other ..
  have here : Function.update s.control a.handle after a.handle = after := Function.update_self ..
  refine ⟨sound.faultless, fun k => ?_, sound.separate_of_named fun k b which => ?_, ?_⟩
  · by_cases other : k = a.handle
    · subst other
      have lists : Stage (Function.update s.memory a.address none) s.posted a.handle after [] [] [] := by
        rcases awake with same | same <;> rw [same]
        · exact .running
        · exact .ended
      rw [← noKernel, ← noPending, ← noPool, ← here] at lists
      exact lists
    · refine (sound.staged k).frame (elsewhere k other) rfl rfl (others k other) (fun b which => ?_)
        (fun _ => id)
      exact Function.update_of_ne (sound.apart mine which other) ..
  · by_cases other : k = a.handle
    · subst other
      simp only [here] at which
      rcases awake with same | same <;> rw [same] at which <;> cases which
    · simpa only [elsewhere k other] using which
  · refine sound.reaping_frame rfl (fun _ => id) fun c member => ?_
    obtain ⟨suspended, _⟩ := sound.of_unreaped member
    have other : c.owner.handle ≠ a.handle := by
      intro same
      have listed : c ∈ s.pendingOf a.handle := List.mem_filter.mpr ⟨member, by simp [same]⟩
      rw [noPending] at listed
      cases listed
    exact Function.update_of_ne (sound.apart mine (by rw [suspended]; rfl) other) ..

theorem goOn (sound : Sound s) (acceptor : Handle → Option Handler) {a : Await}
    (refused : s.control a.handle = .refused a) : Sound (s.awaitResume acceptor a) := by
  have stage := sound.staged a.handle
  have mine : (s.control a.handle).await? = some a := by rw [refused]; rfl
  obtain ⟨noKernel, noPending, noPool⟩ := stage.nothing (by simp [refused])
  obtain ⟨_, value, holds⟩ := Stage.of_named stage mine
  exact sound.leave acceptor mine holds noKernel noPending noPool fun _ _ => rfl

theorem resumeCoroutine (sound : Sound s) (acceptor : Handle → Option Handler) {handle : Handle}
    {c : Cqe} (member : .coroutine handle c ∈ s.pool) :
    s.control handle = .suspended c.owner ∧
      Sound ({ s with pool := s.pool.erase (.coroutine handle c) }.awaitResume acceptor c.owner) := by
  obtain ⟨rfl, suspended, _, _, holds, noKernel, noPending, pool⟩ := sound.of_pool member
  refine ⟨suspended, sound.leave acceptor (by rw [suspended]; rfl) holds noKernel noPending ?_ ?_⟩
  · rw [← List.erase_filter, ← RingState.poolOf, pool]
    simp
  · intro k other
    rw [← List.erase_filter, ← RingState.poolOf]
    refine List.erase_of_not_mem fun twice => other ?_
    have resumed := (List.mem_filter.mp twice).2
    exact (of_decide_eq_true resumed).symm

theorem resumeHandler (sound : Sound s) (handler : Handler) (res : Int) (c : Cqe) :
    Sound { s with pool := s.pool.erase (.handler handler res c) } where
  faultless := sound.faultless
  staged k := by
    refine (sound.staged k).frame rfl rfl rfl ?_ (fun _ _ => rfl) (fun _ => id)
    rw [RingState.poolOf, ← List.erase_filter]
    refine List.erase_of_not_mem fun twice => ?_
    have resumed := (List.mem_filter.mp twice).2
    cases resumed
  separate := sound.separate
  reaping := sound.reaping_frame rfl (fun _ => id) fun _ _ => rfl

theorem complete (sound : Sound s) {sqe : Sqe} (member : sqe ∈ s.kernel) (res : Int) (more : Bool)
    (allowed : more = true → sqe.multishot = true) : Sound (s.complete sqe res more) := by
  have stage := sound.staged sqe.owner.handle
  obtain ⟨suspended, shape, alone⟩ := sound.of_kernel member
  let c : Cqe := ⟨sqe.userData, res, more, sqe.owner, s.posted.length⟩
  have of : c.Of sqe.owner := by
    refine ⟨rfl, ?_, fun follows => ?_⟩
    · exact congrArg Sqe.userData shape
    · rw [← allowed follows]
      exact (congrArg Sqe.multishot shape).symm
  have unreaped : (s.complete sqe res more).unreaped = s.unreaped ++ [c] := by
    have reaping := sound.reaping
    unfold RingState.unreaped Reaping at *
    simp only [RingState.complete]
    cases place : s.reaper with
    | seen d =>
      rw [place] at reaping
      cases filled : s.cq with
      | nil => simp [filled] at reaping
      | cons first rest => rfl
    | peek | yielded | thrown | store | dispatch | last => rfl
  have pending : ∀ k, (s.complete sqe res more).pendingOf k =
      s.pendingOf k ++ if sqe.owner.handle = k then [c] else [] := by
    intro k
    rw [RingState.pendingOf, unreaped, List.filter_append, List.filter_singleton]
    simp [RingState.pendingOf, c]
  have kernel : ∀ k, (s.complete sqe res more).kernelOf k =
      if more then s.kernelOf k else (s.kernelOf k).erase sqe := by
    intro k
    unfold RingState.kernelOf RingState.complete
    cases more with
    | false => exact List.erase_filter.symm
    | true => rfl
  have posted : (s.complete sqe res more).posted = s.posted ++ [c] := s.posted_complete sqe res more
  have extends_ : s.posted ⊆ (s.complete sqe res more).posted :=
    posted ▸ List.subset_append_left ..
  refine ⟨sound.faultless, fun k => ?_, sound.separate, ?_⟩
  · by_cases other : sqe.owner.handle = k
    · subst other
      rw [Staged, alone] at stage
      have landed := (Stage.land stage of).mono (fun _ _ => rfl) extends_
      have kernelHere : (s.complete sqe res more).kernelOf sqe.owner.handle =
          if c.more then [sqe] else [] := by
        rw [kernel, alone]
        simp [c]
      rw [Staged, kernelHere, pending, if_pos rfl]
      exact landed
    · refine (sound.staged k).frame rfl ?_ ?_ rfl (fun _ _ => rfl) extends_
      · rw [kernel]
        have absent : sqe ∉ s.kernelOf k := fun twice =>
          other (of_decide_eq_true (List.mem_filter.mp twice).2)
        rw [List.erase_of_not_mem absent, ite_self]
      · rw [pending, if_neg other, List.append_nil]
  · refine sound.reaping_frame rfl (fun d first => ?_) fun _ _ => rfl
    rw [RingState.complete, List.head?_append, first]
    rfl

/-- A step of the reaper alone, that hands nothing over. -/
theorem turn (sound : Sound s) {reaper : ReapPc}
    (same : ({ s with reaper := reaper } : RingState).unreaped = s.unreaped)
    (reaping : Reaping { s with reaper := reaper }) : Sound { s with reaper := reaper } where
  faultless := sound.faultless
  staged k := by
    refine (sound.staged k).frame rfl rfl ?_ rfl (fun _ _ => rfl) (fun _ => id)
    rw [RingState.pendingOf, same, RingState.pendingOf]
  separate := sound.separate
  reaping := reaping

theorem peek (sound : Sound s) {outcome : Peek} (peeking : s.reaper = .peek)
    (held : ∀ h, outcome = .again h → h = false) : Sound (s.peek outcome) := by
  have all : s.unreaped = s.cq := by rw [RingState.unreaped, peeking]
  cases outcome with
  | again h =>
    obtain rfl := held h rfl
    exact sound.turn all.symm trivial
  | failed errno => exact sound.turn all.symm trivial
  | nothing => exact sound.turn all.symm trivial
  | entry =>
    unfold RingState.peek
    cases first : s.cq.head? with
    | none => exact sound
    | some c => exact sound.turn all.symm first

/-- The reaper goes past the completion at the head of the queue. -/
theorem pendingOf_past {t : RingState} {c : Cqe} (all : s.unreaped = s.cq)
    (first : s.cq.head? = some c) (past : t.unreaped = s.cq.tail) (k : Handle) :
    s.pendingOf k = (if c.owner.handle = k then [c] else []) ++ t.pendingOf k := by
  obtain ⟨rest, queue⟩ := List.head?_eq_some_iff.mp first
  rw [RingState.pendingOf, all, queue, RingState.pendingOf, past, queue, List.tail_cons]
  by_cases mine : c.owner.handle = k <;> simp [mine]

/-- Past its last completion a coroutine is on the pool. -/
theorem passed (sound : Sound s) {c : Cqe} (all : s.unreaped = s.cq)
    (first : s.cq.head? = some c) (holds : Holds s.memory c.owner (returned c.res)) :
    Sound { s.addTasks c.callers with reaper := .seen c } where
  faultless := sound.faultless
  staged k := by
    have member : c ∈ s.posted := List.mem_append_right _ (List.mem_of_mem_head? first)
    have pending := @pendingOf_past s { s.addTasks c.callers with reaper := .seen c } c all first rfl k
    have pool : { s.addTasks c.callers with reaper := .seen c }.poolOf k =
        s.poolOf k ++ c.callers.filter (Task.resumes k) := List.filter_append ..
    have stage := sound.staged k
    rw [Staged, pending] at stage
    rw [Staged, pool]
    cases more : c.more with
    | true =>
      have none_ : c.callers.filter (Task.resumes k) = [] := by simp [Cqe.callers, more]
      rw [none_, List.append_nil]
      by_cases mine : c.owner.handle = k
      · rw [if_pos mine] at stage
        exact stage.pass more
      · rw [if_neg mine] at stage
        exact stage
    | false =>
      have one : c.callers.filter (Task.resumes k) =
          if c.owner.handle = k then [.coroutine c.owner.handle c] else [] := by
        simp [Cqe.callers, more, List.filter_singleton, Task.resumes]
      rw [one]
      by_cases mine : c.owner.handle = k
      · rw [if_pos mine] at stage ⊢
        exact stage.hand more holds member
      · rw [if_neg mine] at stage ⊢
        rw [List.append_nil]
        exact stage
  separate := sound.separate
  reaping := first

/-- New tasks of handlers concern no suspended coroutine. -/
theorem spawn (sound : Sound s) (c : Cqe) : Sound (s.addTasks c.handlers) where
  faultless := sound.faultless
  staged k := by
    refine (sound.staged k).frame rfl rfl rfl ?_ (fun _ _ => rfl) (fun _ => id)
    have none_ : c.handlers.filter (Task.resumes k) = [] := by
      rw [List.filter_eq_nil_iff]
      intro task member resumes
      obtain ⟨handler, rfl, _⟩ := c.mem_handlers member
      cases resumes
    rw [RingState.poolOf, RingState.addTasks, List.filter_append, none_, List.append_nil]
    rfl
  separate := sound.separate
  reaping := sound.reaping_frame rfl (fun _ => id) fun _ _ => rfl

theorem store (sound : Sound s) {c : Cqe} (storing : s.reaper = .store c) :
    Sound { s.setReturn c.userData (returned c.res) with reaper := .dispatch c } := by
  have first : s.cq.head? = some c := by
    have reaping := sound.reaping
    rwa [Reaping, storing] at reaping
  have all : s.unreaped = s.cq := by rw [RingState.unreaped, storing]
  have member : c ∈ s.unreaped := all ▸ List.mem_of_mem_head? first
  obtain ⟨suspended, of, value, holds⟩ := sound.of_unreaped member
  obtain ⟨memory, stored, fresh, others⟩ := RingState.setReturn_eq holds (returned c.res)
  rw [of.userData, stored]
  refine ⟨sound.faultless, fun k => ?_, sound.separate, first, fresh⟩
  have pending : { s with memory := memory, reaper := .dispatch c }.pendingOf k = s.pendingOf k := by
    rw [RingState.pendingOf, RingState.pendingOf, all]
    rfl
  by_cases other : k = c.owner.handle
  · subst other
    have listed : c ∈ s.pendingOf c.owner.handle := List.mem_filter.mpr ⟨member, by simp⟩
    rw [Staged, pending]
    exact Stage.store (sound.staged c.owner.handle) listed fresh
  · refine (sound.staged k).frame rfl rfl pending rfl (fun b which => ?_) (fun _ => id)
    exact others _ (sound.apart (by rw [suspended]; rfl) which other)

/-- At its dispatch a completion finds its result in the user data of its await. -/
theorem at_dispatch (sound : Sound s) {c : Cqe} (dispatching : s.reaper = .dispatch c) :
    s.cq.head? = some c ∧ c.Of c.owner ∧ Holds s.memory c.owner (returned c.res) := by
  have reaping := sound.reaping
  rw [Reaping, dispatching] at reaping
  obtain ⟨first, holds⟩ := reaping
  have all : s.unreaped = s.cq := by rw [RingState.unreaped, dispatching]
  exact ⟨first, (sound.of_unreaped (all ▸ List.mem_of_mem_head? first)).2.1, holds⟩

theorem reap_dispatch (sound : Sound s) {c : Cqe} (dispatching : s.reaper = .dispatch c) :
    s.reap = if c.owner.operation.multishot then { s.addTasks c.handlers with reaper := .last c }
      else { s.addTasks c.callers with reaper := .seen c } := by
  obtain ⟨_, of, holds⟩ := sound.at_dispatch dispatching
  rw [Holds, ← of.userData] at holds
  simp only [RingState.reap, dispatching, holds]
  cases operation : c.owner.operation with
  | send | recv =>
    have final : c.more = false := by
      cases follows : c.more with
      | false => rfl
      | true =>
        have shot := of.multishot follows
        rw [operation] at shot
        cases shot
    simp only [RingState.addCaller, holds, Cqe.callers, final]
    rfl
  | multishotAccept handler =>
    rw [operation] at holds
    simp only [Operation.multishot, Bool.not_true, Bool.false_eq_true, if_false, if_true]
    by_cases positive : c.res ≥ 0
    · simp only [if_pos positive, RingState.addHandler, holds, Cqe.handlers, operation]
      rfl
    · simp only [if_neg positive, Cqe.handlers, operation]
      rw [RingState.addTasks_nil]

theorem reap_last (sound : Sound s) {c : Cqe} (finishing : s.reaper = .last c) :
    s.cq.head? = some c ∧ Holds s.memory c.owner (returned c.res) ∧
      c.owner.operation.multishot = true ∧
      s.reap = { s.addTasks c.callers with reaper := .seen c } := by
  have reaping := sound.reaping
  rw [Reaping, finishing] at reaping
  obtain ⟨first, holds, shot⟩ := reaping
  have all : s.unreaped = s.cq := by rw [RingState.unreaped, finishing]
  obtain ⟨_, of, _⟩ := sound.of_unreaped (all ▸ List.mem_of_mem_head? first)
  refine ⟨first, holds, shot, ?_⟩
  rw [Holds, ← of.userData] at holds
  simp only [RingState.reap, finishing]
  cases more : c.more with
  | true =>
    simp only [Cqe.callers, more, if_true]
    rw [RingState.addTasks_nil]
    rfl
  | false =>
    simp only [RingState.addCaller, holds, Cqe.callers, more]
    rfl

theorem dispatch (sound : Sound s) {c : Cqe} (dispatching : s.reaper = .dispatch c) :
    Sound s.reap := by
  obtain ⟨first, of, holds⟩ := sound.at_dispatch dispatching
  have all : s.unreaped = s.cq := by rw [RingState.unreaped, dispatching]
  rw [sound.reap_dispatch dispatching]
  split
  case isTrue shot => exact (sound.spawn c).turn all.symm ⟨first, holds, shot⟩
  case isFalse => exact sound.passed all first holds

theorem last (sound : Sound s) {c : Cqe} (finishing : s.reaper = .last c) : Sound s.reap := by
  obtain ⟨first, holds, _, reap⟩ := sound.reap_last finishing
  rw [reap]
  exact sound.passed (by rw [RingState.unreaped, finishing]) first holds

theorem seen (sound : Sound s) {c : Cqe} (seeing : s.reaper = .seen c) :
    Sound { s.cqeSeen with reaper := .peek } where
  faultless := sound.faultless
  staged k := by
    refine (sound.staged k).frame rfl rfl ?_ rfl (fun _ _ => rfl) ?_
    · rw [RingState.pendingOf, RingState.pendingOf, RingState.unreaped, RingState.unreaped, seeing]
      rfl
    · have same : { s.cqeSeen with reaper := .peek }.posted = s.posted := s.posted_cqeSeen
      rw [same]
      exact fun _ => id
  separate := sound.separate
  reaping := trivial

theorem reap (sound : Sound s) : Sound s.reap := by
  cases place : s.reaper with
  | peek | thrown =>
    simp only [RingState.reap, place]
    exact sound
  | yielded =>
    simp only [RingState.reap, place]
    exact sound.turn (by rw [RingState.unreaped, RingState.unreaped, place]) trivial
  | store c =>
    simp only [RingState.reap, place]
    exact sound.store place
  | dispatch c => exact sound.dispatch place
  | last c => exact sound.last place
  | seen c =>
    simp only [RingState.reap, place]
    exact sound.seen place

/-- One step of any coroutine, of the kernel or of the reaper. -/
theorem step (sound : Sound s) {acceptor : Handle → Option Handler} {event : Event}
    (enabled : Enabled acceptor s event) : Sound (next acceptor s event) := by
  cases event with
  | await handle address operation => exact sound.await enabled.1 enabled.2.1 operation
  | prep a free =>
    cases free with
    | true => exact sound.grant enabled
    | false => exact sound.refuse enabled
  | suspendReturns a =>
    exact {
      faultless := sound.faultless
      staged := sound.staged
      separate := sound.separate
      reaping := sound.reaping }
  | goOn a => exact sound.goOn acceptor enabled
  | complete sqe res more => exact sound.complete enabled.1 res more fun follows => (enabled.2 follows).1
  | peek outcome =>
    refine sound.peek enabled.1 fun held again => ?_
    subst again
    exact enabled.2
  | reap => exact sound.reap
  | resume task =>
    cases task with
    | handler handler res c => exact sound.resumeHandler handler res c
    | coroutine handle c =>
      obtain ⟨suspended, left⟩ := sound.resumeCoroutine acceptor enabled
      simp only [next, suspended]
      exact left

end Sound

end CoroMultiplex.Uring
