import CoroMultiplex.Uring.Attention

/-! Completions reach their own awaiter.

Whatever the order of the kernel's completions and of the steps of the coroutines, a
send or a receive that was submitted resumes its coroutine once and returns its own
result; one that was not submitted returns at once.
-/

set_option autoImplicit false

namespace CoroMultiplex.Uring

open Foundations Http

namespace Orderly

variable {s : RingState} {a : Await}

/-- An accepted await was started once and not refused. -/
theorem of_granted (orderly : Orderly s) (granted : a ∈ s.granted) :
    s.granted.count a = 1 ∧ s.started.count a = 1 ∧ s.refusals.count a = 0 ∧
      s.control a.handle ≠ .suspending a := by
  have settled : s.started.count a = s.granted.count a + s.refusals.count a +
    if s.control a.handle = .suspending a then 1 else 0 := orderly.balanced.settled a
  have once : s.started.count a ≤ 1 := orderly.balanced.started_once a
  have listed := List.count_pos_iff.mpr granted
  by_cases suspending : s.control a.handle = .suspending a
  · rw [if_pos suspending] at settled
    omega
  · rw [if_neg suspending] at settled
    exact ⟨by omega, by omega, by omega, suspending⟩

theorem not_granted (orderly : Orderly s) (refused : a ∈ s.refusals) : a ∉ s.granted := by
  intro granted
  have listed := List.count_pos_iff.mpr refused
  have never := (orderly.of_granted granted).2.2.1
  omega

/-- An await has one last completion at most. -/
theorem last_unique (orderly : Orderly s) {c d : Cqe} (posted : c ∈ s.posted) (other : d ∈ s.posted)
    (same : c.owner = d.owner) (final : c.more = false) (final_ : d.more = false) : c = d := by
  have serials : (s.posted.map Cqe.serial).Nodup := orderly.balanced.serials ▸ List.nodup_range
  have below := orderly.balanced.order c posted d other same final
  have above := orderly.balanced.order d other c posted same.symm final_
  exact List.inj_on_of_nodup_map serials posted other (above.antisymm below)

/-- Of an await whose coroutine is not suspended in it, nothing is under way. -/
theorem nothing_awake (orderly : Orderly s) (awake : s.control a.handle ≠ .suspended a) :
    s.kernel.countP (·.owner = a) = 0 ∧ s.unreaped.countP (·.owner = a) = 0 ∧
      s.pool.countP (Task.awakens a) = 0 := by
  refine ⟨List.countP_eq_zero.mpr ?_, List.countP_eq_zero.mpr ?_, List.countP_eq_zero.mpr ?_⟩
  · intro sqe member mine
    obtain rfl := of_decide_eq_true mine
    exact awake (orderly.sound.of_kernel member).1
  · intro c member mine
    obtain rfl := of_decide_eq_true mine
    exact awake (orderly.sound.of_unreaped member).1
  · intro task member mine
    cases task with
    | handler => cases mine
    | coroutine handle c =>
      obtain rfl := of_decide_eq_true mine
      obtain ⟨rfl, suspended, _⟩ := orderly.sound.of_pool member
      exact awake suspended

/-- A coroutine that is suspended in an await is on the pool exactly if it was handed over. -/
theorem handed_suspended (orderly : Orderly s) (granted : a ∈ s.granted)
    (suspended : s.control a.handle = .suspended a) :
    s.handed.countP (Task.awakens a) = s.pool.countP (Task.awakens a) := by
  have one := (orderly.of_granted granted).1
  have places := orderly.granted_eq a
  have onPool : s.pool.countP (Task.awakens a) = (s.poolOf a.handle).countP (Task.awakens a) := by
    rw [RingState.poolOf, List.countP_filter]
    refine List.countP_congr fun task member => ?_
    cases task with
    | handler => simp [Task.awakens]
    | coroutine handle c =>
      have own := (orderly.sound.of_pool member).1
      simp only [Task.awakens, Task.resumes, Bool.and_eq_true, decide_eq_true_eq]
      exact ⟨fun same => ⟨same, same ▸ own.symm⟩, And.left⟩
  have stage := orderly.sound.staged a.handle
  rw [Staged, suspended] at stage
  rcases stage.of_suspended with ⟨kernel, pool⟩ | ⟨⟨c, pending, owner, final⟩, pool⟩ |
    ⟨kernel, pending, c, owner, pool⟩
  · have member : a.sqe ∈ s.kernelOf a.handle := kernel ▸ List.mem_singleton_self _
    have flying : s.kernel.countP (·.owner = a) ≥ 1 :=
      List.countP_pos_iff.mpr ⟨a.sqe, (List.mem_filter.mp member).1, decide_eq_true rfl⟩
    rw [onPool, pool, List.countP_nil]
    omega
  · have waiting : (s.unreaped.countP fun c => c.owner = a ∧ c.more = false) ≥ 1 :=
      List.countP_pos_iff.mpr ⟨c, (List.mem_filter.mp pending).1, decide_eq_true ⟨owner, final⟩⟩
    rw [onPool, pool, List.countP_nil]
    omega
  · have noKernel : s.kernel.countP (·.owner = a) = 0 := by
      rw [List.countP_eq_zero]
      intro sqe member mine
      have listed : sqe ∈ s.kernelOf a.handle :=
        List.mem_filter.mpr ⟨member, by simp [of_decide_eq_true mine]⟩
      rw [kernel] at listed
      cases listed
    have noPending : (s.unreaped.countP fun c => c.owner = a ∧ c.more = false) = 0 := by
      rw [List.countP_eq_zero]
      intro d member mine
      have listed : d ∈ s.pendingOf a.handle :=
        List.mem_filter.mpr ⟨member, by simp [(of_decide_eq_true mine).1]⟩
      rw [pending] at listed
      cases listed
    have task : (s.poolOf a.handle).countP (Task.awakens a) = 1 := by
      rw [pool]
      simp [Task.awakens, owner]
    omega

/-- An accepted await is either suspended or over. -/
theorem results_of_granted (orderly : Orderly s) (granted : a ∈ s.granted) :
    s.results.countP (·.1 = a) = if s.control a.handle = .suspended a then 0 else 1 := by
  obtain ⟨_, started, never, left⟩ := orderly.of_granted granted
  have ended : s.started.count a = s.results.countP (·.1 = a) +
    if (s.control a.handle).await? = some a then 1 else 0 := orderly.balanced.ended a
  have refused : s.refusals.count a = s.results.count (a, .error .sqeBusy) +
    if s.control a.handle = .refused a then 1 else 0 := orderly.balanced.refused a
  have named : (s.control a.handle).await? = some a ↔ s.control a.handle = .suspended a := by
    cases place : s.control a.handle with
    | running | ended => simp [Control.await?]
    | suspended b => simp [Control.await?]
    | suspending b =>
      rw [place] at left
      simpa [Control.await?] using left
    | refused b =>
      have other : b ≠ a := by
        rintro rfl
        rw [place, if_pos rfl] at refused
        omega
      simpa [Control.await?] using other
  by_cases suspended : s.control a.handle = .suspended a
  · rw [if_pos (named.mpr suspended)] at ended
    rw [if_pos suspended]
    omega
  · rw [if_neg fun waits => suspended (named.mp waits)] at ended
    rw [if_neg suspended]
    omega

/-- Each hand-over of a coroutine is a task still on the pool or a result already seen. -/
theorem resumed_eq (orderly : Orderly s) (granted : a ∈ s.granted) :
    s.handed.countP (Task.awakens a) =
      s.pool.countP (Task.awakens a) + s.results.countP (·.1 = a) := by
  have results := orderly.results_of_granted granted
  by_cases suspended : s.control a.handle = .suspended a
  · rw [results, if_pos suspended, Nat.add_zero]
    exact orderly.handed_suspended granted suspended
  · obtain ⟨kernel, unreaped, pool⟩ := orderly.nothing_awake suspended
    have last : (s.unreaped.countP fun c => c.owner = a ∧ c.more = false) ≤
        s.unreaped.countP (·.owner = a) :=
      List.countP_mono_left fun c _ mine => decide_eq_true (of_decide_eq_true mine).1
    have one := (orderly.of_granted granted).1
    have places := orderly.granted_eq a
    rw [if_neg suspended] at results
    omega

/-- An accepted await returns the value of its last completion, on which its coroutine
was handed over. -/
theorem result_of_granted (orderly : Orderly s) (granted : a ∈ s.granted)
    {value : Except ErrorCode Int} (result : (a, value) ∈ s.results) :
    ∃ c ∈ s.posted, c.owner = a ∧ c.more = false ∧ value = returned c.res ∧
      .coroutine a.handle c ∈ s.handed := by
  have refused : s.refusals.count a = s.results.count (a, .error .sqeBusy) +
    if s.control a.handle = .refused a then 1 else 0 := orderly.balanced.refused a
  have never := (orderly.of_granted granted).2.2.1
  have other : value ≠ .error .sqeBusy := by
    rintro rfl
    have listed := List.count_pos_iff.mpr result
    omega
  obtain ⟨c, posted, owner, final, same⟩ := orderly.balanced.answered a value result other
  refine ⟨c, posted, owner, final, same, ?_⟩
  have resumed := orderly.resumed_eq granted
  have listed : s.results.countP (·.1 = a) ≥ 1 :=
    List.countP_pos_iff.mpr ⟨(a, value), result, decide_eq_true rfl⟩
  have handed : 0 < s.handed.countP (Task.awakens a) := by omega
  obtain ⟨task, member, mine⟩ := List.countP_pos_iff.mp handed
  cases task with
  | handler => cases mine
  | coroutine handle d =>
    have owner_ : d.owner = a := of_decide_eq_true mine
    obtain ⟨posted_, rfl, final_⟩ := orderly.of_handed_coroutine member
    obtain rfl := orderly.last_unique posted posted_ (owner.trans owner_.symm) final final_
    exact owner ▸ member

end Orderly

/-- What a send or a receive gets whose submission was accepted. -/
structure Delivered (s : RingState) (a : Await) : Prop where
  -- in flight, posted and waiting, or handed over: one of the three, and once
  once : s.kernel.countP (·.owner = a) + s.unreaped.countP (·.owner = a) +
    s.handed.countP (Task.awakens a) = 1
  handle : ∀ h c, .coroutine h c ∈ s.handed → c.owner = a → h = a.handle
  -- the value is stored before the coroutine is handed over, and stays
  stored : ∀ h c, .coroutine h c ∈ s.pool → c.owner = a → Holds s.memory a (returned c.res)
  resumed : s.handed.countP (Task.awakens a) =
    s.pool.countP (Task.awakens a) + s.results.countP (·.1 = a)
  own : ∀ value, (a, value) ∈ s.results →
    ∃ c, s.posted.filter (·.owner = a) = [c] ∧ .coroutine a.handle c ∈ s.handed ∧
      value = returned c.res

/-- What a coroutine gets whose submission was refused. -/
structure Refused (s : RingState) (a : Await) : Prop where
  unsubmitted : ∀ sqe ∈ s.kernel, sqe.owner ≠ a
  uncompleted : ∀ c ∈ s.posted, c.owner ≠ a
  unresumed : s.handed.countP (Task.awakens a) = 0
  awake : s.control a.handle ≠ .suspended a
  atOnce : s.control a.handle = .refused a ∨ (a, .error .sqeBusy) ∈ s.results
  busy : ∀ value, (a, value) ∈ s.results → value = .error .sqeBusy

namespace Orderly

variable {s : RingState} {a : Await}

/-- Every completion of a send or a receive is its last. -/
theorem final_of_single (orderly : Orderly s) (single : a.operation.multishot = false) {c : Cqe}
    (posted : c ∈ s.posted) (owner : c.owner = a) : c.more = false := by
  cases more : c.more with
  | false => rfl
  | true =>
    obtain ⟨shot, _⟩ := orderly.balanced.follows c posted more
    rw [owner, single] at shot
    cases shot

theorem delivered (orderly : Orderly s) (granted : a ∈ s.granted)
    (single : a.operation.multishot = false) : Delivered s a where
  once := by
    have places := orderly.granted_eq a
    have all : (s.unreaped.countP fun c => c.owner = a ∧ c.more = false) =
        s.unreaped.countP (·.owner = a) := by
      refine List.countP_congr fun c member => ?_
      have posted : c ∈ s.posted := orderly.sound.posted_eq ▸ List.mem_append_right _ member
      simp only [decide_eq_true_eq]
      exact ⟨And.left, fun owner => ⟨owner, orderly.final_of_single single posted owner⟩⟩
    rw [all, (orderly.of_granted granted).1] at places
    exact places.symm
  handle h c member owner := owner ▸ (orderly.of_handed_coroutine member).2.1
  stored h c member owner := by
    obtain ⟨_, _, _, _, holds, _⟩ := orderly.sound.of_pool member
    exact owner ▸ holds
  resumed := orderly.resumed_eq granted
  own value result := by
    obtain ⟨c, posted, owner, final, same, handed⟩ := orderly.result_of_granted granted result
    refine ⟨c, ?_, handed, same⟩
    have nodup : (s.posted.filter (·.owner = a)).Nodup := orderly.posted_nodup.filter _
    refine List.perm_singleton.mp ((List.perm_ext_iff_of_nodup nodup (List.nodup_singleton c)).mpr ?_)
    intro d
    rw [List.mem_filter, List.mem_singleton, decide_eq_true_eq]
    constructor
    · rintro ⟨posted_, owner_⟩
      exact orderly.last_unique posted_ posted (owner_.trans owner.symm)
        (orderly.final_of_single single posted_ owner_) final
    · rintro rfl
      exact ⟨posted, owner⟩

theorem refused (orderly : Orderly s) (refused : a ∈ s.refusals) : Refused s a := by
  have notGranted := orderly.not_granted refused
  have none_ : s.granted.count a = 0 := List.count_eq_zero.mpr notGranted
  have places := orderly.granted_eq a
  rw [none_] at places
  have unsubmitted : ∀ sqe ∈ s.kernel, sqe.owner ≠ a := by
    intro sqe member owner
    have listed : s.kernel.countP (·.owner = a) ≥ 1 :=
      List.countP_pos_iff.mpr ⟨sqe, member, decide_eq_true owner⟩
    omega
  have uncompleted : ∀ c ∈ s.posted, c.owner ≠ a := fun c member owner =>
    notGranted (owner ▸ orderly.balanced.owned c member)
  have refusals : s.refusals.count a = s.results.count (a, .error .sqeBusy) +
    if s.control a.handle = .refused a then 1 else 0 := orderly.balanced.refused a
  refine ⟨unsubmitted, uncompleted, by omega, fun suspended => ?_, ?_, fun value result => ?_⟩
  · have stage := orderly.sound.staged a.handle
    rw [Staged, suspended] at stage
    rcases stage.of_suspended with ⟨kernel, _⟩ | ⟨⟨c, pending, owner, _⟩, _⟩ | ⟨_, _, c, owner, pool⟩
    · have member : a.sqe ∈ s.kernelOf a.handle := kernel ▸ List.mem_singleton_self _
      exact unsubmitted a.sqe (List.mem_filter.mp member).1 rfl
    · have waiting := (List.mem_filter.mp pending).1
      exact uncompleted c (orderly.sound.posted_eq ▸ List.mem_append_right _ waiting) owner
    · have member : .coroutine a.handle c ∈ s.poolOf a.handle := pool ▸ List.mem_singleton_self _
      obtain ⟨_, _, _, posted, _⟩ := orderly.sound.of_pool (List.mem_filter.mp member).1
      exact uncompleted c posted owner
  · have listed := List.count_pos_iff.mpr refused
    by_cases still : s.control a.handle = .refused a
    · exact .inl still
    · rw [if_neg still] at refusals
      exact .inr (List.count_pos_iff.mp (by omega))
  · by_contra other
    obtain ⟨c, posted, owner, _⟩ := orderly.balanced.answered a value result other
    exact uncompleted c posted owner

end Orderly

end CoroMultiplex.Uring
