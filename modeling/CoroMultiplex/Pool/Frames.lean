import CoroMultiplex.Pool.Schedule

/-! The life of a coroutine frame: created once at a free address, destroyed at
most once by a pass, and never named again afterwards.
-/

set_option autoImplicit false

namespace CoroMultiplex.Pool

open Foundations

namespace ThreadPool

variable {Handle : Type} [DecidableEq Handle] {self : ThreadPool Handle} {threadCnt : Nat}

theorem finish_frameId (self : ThreadPool Handle) (ended task : Handle) :
    (self.finish ended).frameId task = self.frameId task := by
  by_cases here : task = ended
  · subst here
    cases known : self.frames task <;> simp [frameId, finish, known]
  · simp [frameId, finish, here]

theorem nextFrame_step (threadCnt : Nat) (self : ThreadPool Handle) (event : Event Handle) :
    self.nextFrame ≤ ((machine threadCnt).next self event).nextFrame := by
  cases event with
  | create task => exact Nat.le_succ _
  | bind caller task =>
    exact Nat.le_of_eq (self.bind_keeps nextFrame (fun _ _ _ _ => rfl) caller task).symm
  | push caller =>
    exact Nat.le_of_eq (self.push_keeps nextFrame (fun _ _ _ _ _ => rfl) caller).symm
  | pop index => exact Nat.le_of_eq (self.pop_keeps nextFrame (fun _ _ _ _ => rfl) index).symm
  | resume index => exact Nat.le_of_eq (self.resume_keeps nextFrame (fun _ _ _ => rfl) index).symm
  | clean order =>
    simp only [machine, cleanTasks]
    split
    · exact Nat.le_refl _
    · exact Nat.le_of_eq (sweepAll_keeps ThreadPool.nextFrame (fun _ _ _ => rfl) self.collect
        self.doneTasks order).symm
  | _ => exact Nat.le_refl _

/-- A handle names a new frame only by creating it. -/
theorem frameId_step {event : Event Handle} {task : Handle} {id : Nat}
    (known : ((machine threadCnt).next self event).frameId task = some id) :
    self.frameId task = some id ∨ event = .create task ∧ id = self.nextFrame := by
  cases event with
  | create fresh =>
    by_cases here : task = fresh
    · subst here
      simp only [machine, frameId, create, Function.update_self, Option.map_some,
        Option.some.injEq] at known
      exact Or.inr ⟨rfl, known.symm⟩
    · left
      simpa [machine, frameId, create, here] using known
  | finish ended =>
    left
    exact (finish_frameId self ended task).symm.trans known
  | bind caller fresh =>
    have kept := self.bind_keeps (fun pool => pool.frameId task) (fun _ _ _ _ => rfl) caller fresh
    exact Or.inl (kept.symm.trans known)
  | push caller =>
    have kept := self.push_keeps (fun pool => pool.frameId task) (fun _ _ _ _ _ => rfl) caller
    exact Or.inl (kept.symm.trans known)
  | pop index =>
    have kept := self.pop_keeps (fun pool => pool.frameId task) (fun _ _ _ _ => rfl) index
    exact Or.inl (kept.symm.trans known)
  | resume index =>
    have kept := self.resume_keeps (fun pool => pool.frameId task) (fun _ _ _ => rfl) index
    exact Or.inl (kept.symm.trans known)
  | clean order =>
    left
    by_cases kept : ∀ index, ¬ self.Collected task index
    · have frames := cleanTasks_frames_kept order kept
      change (self.cleanTasks order).frameId task = some id at known
      rw [frameId, frames] at known
      exact known
    · change (self.cleanTasks order).frameId task = some id at known
      unfold cleanTasks at known
      split at known
      · exact known
      · rw [frameId, sweepAll_frames] at known
        split at known
        · cases known
        · exact known
  | _ => exact Or.inl known

structure Identified (pool : ThreadPool Handle) : Prop where
  known : ∀ task id, pool.frameId task = some id → id < pool.nextFrame
  fresh : ∀ task id, pool.frameId task = some id → id ∉ pool.destroyed
  apart : ∀ first second id, pool.frameId first = some id → pool.frameId second = some id →
    first = second
  once : pool.destroyed.Nodup
  past : ∀ id ∈ pool.destroyed, id < pool.nextFrame

theorem sweep_frameId (self : ThreadPool Handle) (taskSet : List Handle) (index : Nat)
    (task : Handle) : (self.sweep taskSet index).frameId task =
      if task ∈ taskSet then none else self.frameId task := by
  unfold frameId sweep
  split <;> rename_i member <;> simp [member]

theorem identified_sweep (identified : self.Identified) {taskSet : List Handle}
    (distinct : taskSet.Nodup) (index : Nat) : (self.sweep taskSet index).Identified := by
  have kept : ∀ task id, (self.sweep taskSet index).frameId task = some id →
      task ∉ taskSet ∧ self.frameId task = some id := by
    intro task id named
    rw [sweep_frameId] at named
    split at named
    · cases named
    · rename_i outside
      exact ⟨outside, named⟩
  have taken : ∀ id ∈ taskSet.filterMap self.frameId, ∃ task ∈ taskSet, self.frameId task = some id :=
    fun id member => List.mem_filterMap.mp member
  constructor
  · intro task id named
    exact identified.known task id (kept task id named).2
  · intro task id named member
    obtain ⟨outside, named⟩ := kept task id named
    rcases List.mem_append.mp member with before | now
    · exact identified.fresh task id named before
    · obtain ⟨other, inside, same⟩ := taken id now
      exact outside (identified.apart task other id named same ▸ inside)
  · intro first second id left right
    exact identified.apart first second id (kept first id left).2 (kept second id right).2
  · apply List.nodup_append.mpr
    refine ⟨identified.once, ?_, ?_⟩
    -- Handles of the set name different frames, and none that was destroyed before.
    · apply List.Nodup.filterMap _ distinct
      intro first second id left right
      exact identified.apart first second id left right
    · rintro id before other now rfl
      obtain ⟨task, _, named⟩ := taken id now
      exact identified.fresh task id named before
  · intro id member
    rcases List.mem_append.mp member with before | now
    · exact identified.past id before
    · obtain ⟨task, _, named⟩ := taken id now
      exact identified.known task id named

/-- A step that destroys no frame. -/
theorem identified_quiet {event : Event Handle} (identified : self.Identified)
    (same : ((machine threadCnt).next self event).destroyed = self.destroyed) :
    ((machine threadCnt).next self event).Identified := by
  have grown := nextFrame_step threadCnt self event
  have older : ∀ task id, self.frameId task = some id → id ≠ self.nextFrame := by
    intro task id named
    exact Nat.ne_of_lt (identified.known task id named)
  constructor
  · intro task id named
    rcases frameId_step named with before | ⟨rfl, rfl⟩
    · exact Nat.lt_of_lt_of_le (identified.known task id before) grown
    · exact Nat.lt_succ_self _
  · intro task id named
    rw [same]
    rcases frameId_step named with before | ⟨_, rfl⟩
    · exact identified.fresh task id before
    · intro member
      exact absurd (identified.past _ member) (Nat.lt_irrefl _)
  · intro first second id left right
    rcases frameId_step left with before | ⟨created, fresh⟩
    -- The identity of a new frame is above every known one.
    · rcases frameId_step right with also | ⟨_, fresh⟩
      · exact identified.apart first second id before also
      · exact absurd fresh (older first id before)
    · rcases frameId_step right with also | ⟨again, _⟩
      · exact absurd fresh (older second id also)
      · rw [created] at again
        exact Event.create.inj again
  · rw [same]
    exact identified.once
  · intro id member
    rw [same] at member
    exact Nat.lt_of_lt_of_le (identified.past id member) grown

theorem identified_step {event : Event Handle} (identified : self.Identified) :
    ((machine threadCnt).next self event).Identified := by
  cases event with
  | clean order =>
    simp only [machine, cleanTasks]
    split
    · exact identified
    · apply sweepAll_induction Identified
      · intro pool index holds
        exact identified_sweep holds (UnorderedMap.keysWhere_nodup ..) index
      · exact ⟨identified.known, identified.fresh, identified.apart, identified.once, identified.past⟩
  | bind caller task =>
    exact identified_quiet identified (self.bind_keeps destroyed (fun _ _ _ _ => rfl) caller task)
  | push caller =>
    exact identified_quiet identified (self.push_keeps destroyed (fun _ _ _ _ _ => rfl) caller)
  | pop index =>
    exact identified_quiet identified (self.pop_keeps destroyed (fun _ _ _ _ => rfl) index)
  | resume index =>
    exact identified_quiet identified (self.resume_keeps destroyed (fun _ _ _ => rfl) index)
  | _ => exact identified_quiet identified rfl

omit [DecidableEq Handle] in
theorem identified_start : ({} : ThreadPool Handle).Identified where
  known := by rintro _ _ ⟨⟩
  fresh := by rintro _ _ ⟨⟩
  apart := by rintro _ _ _ ⟨⟩
  once := List.nodup_nil
  past := by rintro _ ⟨⟩

theorem identified_reachable (reached : (machine threadCnt).Reachable {} self) : self.Identified :=
  reached.holds Identified identified_start fun _ _ identified _ => identified_step identified

end ThreadPool

end CoroMultiplex.Pool
