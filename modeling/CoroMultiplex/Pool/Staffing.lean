import CoroMultiplex.Pool.Cleaning
import CoroMultiplex.Pool.Startup
import Mathlib.Data.Fintype.EquivFin

/-! The threads of the pool, and the addresses that are left for new frames. -/

set_option autoImplicit false

namespace CoroMultiplex.Pool

open Foundations

namespace ThreadPool

variable {Handle : Type} [DecidableEq Handle]

/-- The threads that there are, and which of them have a task. -/
structure Staffed (threadCnt : Nat) (pool : ThreadPool Handle) : Prop where
  registered : pool.registered ≤ pool.launched
  launched : pool.launched ≤ threadCnt
  constructed : pool.currentQueue ≠ none → pool.launched = threadCnt
  working : ∀ index, pool.workers index ≠ .idle → index < threadCnt

variable {self : ThreadPool Handle} {threadCnt : Nat}

theorem select_current (self : ThreadPool Handle) (caller : Caller) (task : Handle) :
    (self.bind caller task).currentQueue = self.currentQueue ∨
      (self.bind caller task).currentQueue ≠ none := by
  unfold bind
  split
  · exact .inl rfl
  · exact .inr (Option.some_ne_none _)

/-- The constructor has ended for good. -/
theorem constructed_step (threadCnt : Nat) (event : Event Handle) (constructed : self.currentQueue ≠ none) :
    ((machine threadCnt).next self event).currentQueue ≠ none := by
  cases event with
  | construct => exact Option.some_ne_none _
  | bind caller task =>
    rcases self.select_current caller task with same | known
    · exact same.symm ▸ constructed
    · exact known
  | push caller =>
    exact (push_keeps ThreadPool.currentQueue (fun _ _ _ _ _ => rfl) self caller).symm ▸ constructed
  | pop index =>
    exact (pop_keeps ThreadPool.currentQueue (fun _ _ _ _ => rfl) self index).symm ▸ constructed
  | resume index =>
    exact (resume_keeps ThreadPool.currentQueue (fun _ _ _ => rfl) self index).symm ▸ constructed
  | clean order =>
    exact (cleanTasks_keeps ThreadPool.currentQueue (fun _ => rfl) (fun _ _ _ => rfl) self order).symm
      ▸ constructed
  | _ => exact constructed

omit [DecidableEq Handle] in
/-- Another worker, or none, has a task, and the threads are the same. -/
theorem Staffed.kept {other : ThreadPool Handle} (staffed : self.Staffed threadCnt)
    (registered : other.registered = self.registered) (launched : other.launched = self.launched)
    (constructed : other.currentQueue = self.currentQueue)
    (working : ∀ index, other.workers index ≠ .idle → self.workers index ≠ .idle ∨ index < threadCnt) :
    other.Staffed threadCnt where
  registered := by
    rw [registered, launched]
    exact staffed.registered
  launched := launched ▸ staffed.launched
  constructed known := launched ▸ staffed.constructed (constructed ▸ known)
  working index busy := (working index busy).elim (staffed.working index) id

theorem Staffed.bind (staffed : self.Staffed threadCnt) (constructed : self.currentQueue ≠ none)
    (caller : Caller) (task : Handle) : (self.bind caller task).Staffed threadCnt := by
  have launched : (self.bind caller task).launched = self.launched :=
    bind_keeps ThreadPool.launched (fun _ _ _ _ => rfl) self caller task
  have registered : (self.bind caller task).registered = self.registered :=
    bind_keeps ThreadPool.registered (fun _ _ _ _ => rfl) self caller task
  have workers : (self.bind caller task).workers = self.workers :=
    bind_keeps ThreadPool.workers (fun _ _ _ _ => rfl) self caller task
  constructor
  · rw [registered, launched]
    exact staffed.registered
  · exact launched ▸ staffed.launched
  · exact fun _ => launched ▸ staffed.constructed constructed
  · exact fun index busy => staffed.working index (workers ▸ busy)

theorem staffed_step {event : Event Handle} (staffed : self.Staffed threadCnt)
    (enabled : (machine threadCnt).enabled self event) :
    ((machine threadCnt).next self event).Staffed threadCnt := by
  cases event with
  | launch =>
    exact ⟨Nat.le_succ_of_le staffed.registered, enabled.1, fun known => absurd enabled.2 known,
      staffed.working⟩
  | register => exact ⟨enabled, staffed.launched, staffed.constructed, staffed.working⟩
  | construct => exact ⟨staffed.registered, staffed.launched, fun _ => enabled.1, staffed.working⟩
  | create task => exact staffed.kept rfl rfl rfl fun _ => .inl
  | finish task => exact staffed.kept rfl rfl rfl fun _ => .inl
  | bind caller task => exact staffed.bind enabled.1 caller task
  | push caller =>
    obtain ⟨task, index, calling, _⟩ := enabled
    change (self.push caller).Staffed threadCnt
    rw [push_queue calling]
    exact staffed.kept rfl rfl rfl fun _ => .inl
  | pop index =>
    obtain ⟨_, inside, _, queued⟩ := enabled
    obtain ⟨entry, rest, head⟩ := List.exists_cons_of_ne_nil queued
    change (self.pop index).Staffed threadCnt
    rw [pop_cons head]
    refine staffed.kept rfl rfl rfl fun other busy => ?_
    by_cases here : other = index
    · exact .inr (here ▸ inside)
    · exact .inl (Function.update_of_ne here (Worker.popped entry) self.workers ▸ busy)
  | resume index =>
    obtain ⟨entry, holding⟩ := enabled
    change (self.resume index).Staffed threadCnt
    refine staffed.kept (resume_keeps ThreadPool.registered (fun _ _ _ => rfl) self index)
      (resume_keeps ThreadPool.launched (fun _ _ _ => rfl) self index)
      (resume_keeps ThreadPool.currentQueue (fun _ _ _ => rfl) self index) fun other busy => ?_
    by_cases here : other = index
    · exact .inl (by simp [here, holding])
    · left
      unfold resume at busy
      simp only [holding] at busy
      split at busy <;> exact Function.update_of_ne here _ self.workers ▸ busy
  | leave index =>
    refine staffed.kept rfl rfl rfl fun other busy => .inl ?_
    by_cases here : other = index
    · exact absurd (by simp [here, machine, leave]) busy
    · exact Function.update_of_ne here Worker.idle self.workers ▸ busy
  | clean order =>
    exact staffed.kept (cleanTasks_keeps ThreadPool.registered (fun _ => rfl) (fun _ _ _ => rfl) self order)
      (cleanTasks_keeps ThreadPool.launched (fun _ => rfl) (fun _ _ _ => rfl) self order)
      (cleanTasks_keeps ThreadPool.currentQueue (fun _ => rfl) (fun _ _ _ => rfl) self order)
      fun index busy => .inl (cleanTasks_keeps ThreadPool.workers (fun _ => rfl) (fun _ _ _ => rfl)
        self order ▸ busy)

theorem staffed_reachable (reached : (machine threadCnt).Reachable {} self) : self.Staffed threadCnt :=
  reached.holds (Staffed threadCnt)
    ⟨Nat.le_refl 0, Nat.zero_le _, fun known => absurd rfl known, fun _ busy => absurd rfl busy⟩
    fun _ _ staffed enabled => staffed_step staffed enabled

omit [DecidableEq Handle] in
/-- There are only so many frames, and always an address for one more. -/
theorem exists_free [Infinite Handle] (identified : self.Identified) :
    ∃ task, self.frames task = none := by
  by_contra taken
  push Not at taken
  have named : ∀ task, ∃ id, self.frameId task = some id := fun task => by
    obtain ⟨frame, found⟩ := Option.ne_none_iff_exists'.mp (taken task)
    exact ⟨frame.id, by simp [frameId, found]⟩
  choose id same using named
  have injective : Function.Injective fun task =>
      (⟨id task, identified.known task (id task) (same task)⟩ : Fin self.nextFrame) := by
    intro first second equal
    have equal : id first = id second := congrArg Fin.val equal
    exact identified.apart first second _ (same first) (equal ▸ same second)
  exact (Finite.of_injective _ injective).false

/-! What a step other than a pass keeps. -/

theorem frames_kept {event : Event Handle} (enabled : (machine threadCnt).enabled self event)
    (notClean : ∀ order, event ≠ .clean order) {task : Handle} {frame : Frame}
    (known : self.frames task = some frame) (pending : event ≠ .finish task) :
    ((machine threadCnt).next self event).frames task = some frame := by
  cases event with
  | create fresh =>
    have apart : task ≠ fresh := by
      rintro rfl
      have free : self.frames task = none := enabled
      rw [known] at free
      cases free
    exact (Function.update_of_ne apart ..).trans known
  | finish ended =>
    have apart : task ≠ ended := fun same => pending (same ▸ rfl)
    exact (Function.update_of_ne apart ..).trans known
  | bind caller fresh =>
    have kept := self.bind_keeps ThreadPool.frames (fun _ _ _ _ => rfl) caller fresh
    exact (congrFun kept task).trans known
  | push caller =>
    have kept := self.push_keeps ThreadPool.frames (fun _ _ _ _ _ => rfl) caller
    exact (congrFun kept task).trans known
  | pop index =>
    have kept := self.pop_keeps ThreadPool.frames (fun _ _ _ _ => rfl) index
    exact (congrFun kept task).trans known
  | resume index =>
    have kept := self.resume_keeps ThreadPool.frames (fun _ _ _ => rfl) index
    exact (congrFun kept task).trans known
  | clean order => exact absurd rfl (notClean order)
  | _ => exact known

theorem named_kept {event : Event Handle} (enabled : (machine threadCnt).enabled self event)
    (notClean : ∀ order, event ≠ .clean order) {task : Handle} {id : Nat}
    (named : self.frameId task = some id) :
    ((machine threadCnt).next self event).frameId task = some id := by
  by_cases ends : event = .finish task
  · rw [ends]
    exact (finish_frameId self task task).trans named
  · obtain ⟨frame, known, same⟩ := Option.map_eq_some_iff.mp named
    exact Option.map_eq_some_iff.mpr ⟨frame, frames_kept enabled notClean known ends, same⟩

theorem running_kept {event : Event Handle} (enabled : (machine threadCnt).enabled self event)
    {index : Nat} {entry : Entry Handle} (running : self.workers index = .running entry)
    (stays : event ≠ .leave index) :
    ((machine threadCnt).next self event).workers index = .running entry := by
  cases event with
  | bind caller fresh =>
    have kept := self.bind_keeps ThreadPool.workers (fun _ _ _ _ => rfl) caller fresh
    exact (congrFun kept index).trans running
  | push caller =>
    have kept := self.push_keeps ThreadPool.workers (fun _ _ _ _ _ => rfl) caller
    exact (congrFun kept index).trans running
  | pop other =>
    obtain ⟨-, -, idle, some_⟩ := enabled
    have apart : index ≠ other := by
      rintro rfl
      rw [running] at idle
      cases idle
    obtain ⟨entry, rest, queued⟩ := List.exists_cons_of_ne_nil some_
    change (self.pop other).workers index = _
    rw [pop_cons queued]
    exact (Function.update_of_ne apart ..).trans running
  | resume other =>
    obtain ⟨popped, holding⟩ := enabled
    have apart : index ≠ other := by
      rintro rfl
      rw [running] at holding
      cases holding
    change (self.resume other).workers index = _
    cases done : self.isDone popped.task with
    | true =>
      rw [resume_done holding done]
      exact (Function.update_of_ne apart ..).trans running
    | false =>
      rw [resume_pending holding done]
      exact (Function.update_of_ne apart ..).trans running
  | leave other =>
    have apart : index ≠ other := fun same => stays (same ▸ rfl)
    exact (Function.update_of_ne apart ..).trans running
  | clean order =>
    have kept := cleanTasks_keeps ThreadPool.workers (fun _ => rfl) (fun _ _ _ => rfl) self order
    exact (congrFun kept index).trans running
  | _ => exact running

end ThreadPool

end CoroMultiplex.Pool
