import CoroMultiplex.Async.Placement
import Mathlib.Algebra.BigOperators.Group.Finset.Piecewise
import Mathlib.Algebra.Order.BigOperators.Group.Finset

/-! What each step of the workers keeps: the places of the roots, and their accounts. -/

set_option autoImplicit false

namespace CoroMultiplex.Async

open Foundations Pool

variable {A V E : Type}

namespace Workers

/-- What the coroutines of one root have done. -/
def reports (s : Workers A V E) (id : Nat) : List (Report A V E) :=
  s.log.filterMap fun entry => if entry.1 = id then some entry.2 else none

/-- The frames are those of the pool, and a worker is in a task when the pool says so. -/
structure Synced (threadCnt : Nat) (s : Workers A V E) : Prop where
  reached : (ThreadPool.machine threadCnt).Reachable {} s.pool
  frames : ∀ handle, s.frames handle = none ↔ s.pool.frames handle = none
  stages : ∀ index, s.stage index = .loop ↔ ∀ entry, s.pool.workers index ≠ .running entry
  defined : ∀ index, s.stage index ≠ .inside .undefined

end Workers

/-- What is left of a root: its outcome and its actions. -/
def account (located : Option (Place × Strand A V E)) : Option (Except E V × List A) :=
  located.map fun pair => (pair.2.outcome, pair.2.actions)

/-- What a root has done and what is left of it are what its body is to do. -/
structure Accounted (s : Workers A V E) (strands : Strands A V E) : Prop where
  ongoing : ∀ id outcome actions, account (strands id) = some (outcome, actions) →
    ∃ body, s.bodies id = some body ∧ outcome = body.eval ∧
      s.reports id ++ actions.map .acts = body.actions.map .acts
  ended : ∀ id body, s.bodies id = some body → strands id = none →
    s.reports id = body.actions.map .acts ++ [.ends body.eval]
  known : ∀ id, s.bodies id ≠ none → id < s.pool.nextFrame
  logged : ∀ entry ∈ s.log, s.bodies entry.1 ≠ none

structure Sound (threadCnt : Nat) (s : Workers A V E) (strands : Strands A V E) : Prop where
  synced : s.Synced threadCnt
  tracks : Tracks s strands
  accounted : Accounted s strands

/-- How many steps it takes at most until the body of a strand runs. -/
def Place.rank (stage : Nat → Stage A V E) : Place → Nat
  | .spawned _ => 7
  | .calling _ => 6
  | .queued _ => 5
  | .popped _ => 4
  | .on index =>
    match stage index with
    | .adding _ => 7
    | .inside (.resuming _) => 1
    | .loop | .inside _ => 0

def weight (stage : Nat → Stage A V E) : Option (Place × Strand A V E) → Nat
  | none => 0
  | some (place, strand) => place.rank stage + strand.work

def Stage.busy : Stage A V E → Nat
  | .loop => 0
  | .inside _ | .adding _ => 1

/-- A bound for the steps that are left for the workers and for the roots below a bound. -/
def effort (threadCnt bound : Nat) (s : Workers A V E) (strands : Strands A V E) : Nat :=
  (∑ id ∈ Finset.range bound, weight s.stage (strands id)) +
    (∑ index ∈ Finset.range threadCnt, (s.stage index).busy) + (threadCnt - s.pool.registered)

/-- A step for the roots: what is left to do becomes less. -/
def Serves (threadCnt bound : Nat) (s : Workers A V E) (strands : Strands A V E)
    (s' : Workers A V E) : Prop :=
  ∃ strands', Sound threadCnt s' strands' ∧
    ((∀ id, strands id ≠ none → id < bound) →
      (∀ id, strands' id ≠ none → id < bound) ∧
      effort threadCnt bound s' strands' < effort threadCnt bound s strands)

section

variable {s s' : Workers A V E} {strands : Strands A V E} {threadCnt index id : Nat} {handle : Handle}
variable {new : Option (Place × Strand A V E)}

theorem Serves.sound {bound : Nat} (serves : Serves threadCnt bound s strands s') :
    ∃ strands', Sound threadCnt s' strands' := serves.imp fun _ after => after.1

theorem account_none {located : Option (Place × Strand A V E)} :
    account located = none ↔ located = none := Option.map_eq_none_iff

/-- The strand of a root moves, and nothing is reported. -/
theorem Accounted.move (accounted : Accounted s strands) (log : s'.log = s.log)
    (bodies : s'.bodies = s.bodies) (older : s.pool.nextFrame ≤ s'.pool.nextFrame)
    (same : account new = account (strands id)) :
    Accounted s' (Function.update strands id new) := by
  have reports : ∀ other, s'.reports other = s.reports other := fun other => by
    rw [Workers.reports, log, Workers.reports]
  have kept : ∀ other, account (Function.update strands id new other) = account (strands other) := by
    intro other
    by_cases here : other = id
    · subst here
      rw [Function.update_self, same]
    · rw [Function.update_of_ne here]
  constructor
  · intro other outcome actions left
    rw [kept] at left
    rw [bodies, reports]
    exact accounted.ongoing other outcome actions left
  · intro other body spawned gone
    rw [bodies] at spawned
    rw [reports]
    exact accounted.ended other body spawned (account_none.mp ((kept other).symm.trans
      (account_none.mpr gone)))
  · intro other spawned
    rw [bodies] at spawned
    exact Nat.lt_of_lt_of_le (accounted.known other spawned) older
  · intro entry member
    rw [log] at member
    rw [bodies]
    exact accounted.logged entry member

theorem Tracks.same (tracks : Tracks s strands)
    (occupied : ∀ handle place, s'.Occupies handle place ↔ s.Occupies handle place)
    (upheld : ∀ other place strand, strands other = some (place, strand) →
      Upheld s' other place strand)
    (distinct : ∀ index, ((s'.pool.tasks index).map Entry.task).Nodup) : Tracks s' strands where
  upheld := upheld
  occupied handle place := (occupied handle place).trans (tracks.occupied handle place)
  distinct := distinct

/-- A handle at an end of its coroutine, or of none, is in no strand. -/
theorem Tracks.framed (tracks : Tracks s strands) {place : Place} {strand : Strand A V E}
    (found : strands id = some (place, strand)) (member : handle ∈ strand.handles) :
    ∃ point promise, point ≠ .final ∧ s.frames handle = some ⟨point, promise⟩ :=
  (tracks.upheld id place strand found).ready.pending member

theorem Workers.Synced.advance_frames (synced : s.Synced threadCnt) {pool : ThreadPool Handle}
    (same : pool.frames = s.pool.frames) : (s.advance pool).frames = s.frames := by
  funext handle
  change (if pool.frames handle = none then none else s.frames handle) = s.frames handle
  rw [same]
  split
  · rename_i gone
    exact ((synced.frames handle).mpr gone).symm
  · rfl

/-- A step of the pool that touches no frame and not what the workers run. -/
theorem Workers.Synced.advance (synced : s.Synced threadCnt) {event : Pool.Event Handle}
    (enabled : (ThreadPool.machine threadCnt).enabled s.pool event)
    (frames : ((ThreadPool.machine threadCnt).next s.pool event).frames = s.pool.frames)
    (workers : ∀ index entry,
      ((ThreadPool.machine threadCnt).next s.pool event).workers index = .running entry ↔
        s.pool.workers index = .running entry) :
    (s.advance ((ThreadPool.machine threadCnt).next s.pool event)).Synced threadCnt where
  reached := synced.reached.next event enabled
  frames handle := by
    rw [synced.advance_frames frames]
    change _ ↔ ((ThreadPool.machine threadCnt).next s.pool event).frames handle = none
    rw [frames]
    exact synced.frames handle
  stages index := by
    refine (synced.stages index).trans (forall_congr' fun entry => ?_)
    exact not_congr (workers index entry).symm
  defined := synced.defined

/-- The control of a root goes to another place, and its frames stay as they are. -/
theorem Tracks.moves (tracks : Tracks s strands) {source : Place} (target : Place)
    {strand : Strand A V E} (stored : strands id = some (source, strand)) (ready : s'.Ready strand target)
    (frames : s'.frames = s.frames) (root : s'.root = s.root)
    (poolFrames : s'.pool.frames = s.pool.frames)
    (stage : ∀ index, source ≠ .on index → target ≠ .on index → s'.stage index = s.stage index)
    (vacant : ∀ index handle, target = .on index → ¬ s.Occupies handle (.on index))
    (occupied : ∀ handle place, s'.Occupies handle place ↔ place = target ∧ handle = strand.top ∨
      s.Occupies handle place ∧ ¬ (place = source ∧ handle = strand.top))
    (distinct : ∀ index, ((s'.pool.tasks index).map Entry.task).Nodup) :
    Tracks s' (Function.update strands id (some (target, strand))) := by
  refine tracks.change id _ (fun handle place => ?_) ?_ ?_ distinct
  · rw [occupied, stored]
    simp [spot, eq_comm]
  · intro place located same
    cases same
    exact ⟨ready, (tracks.upheld id source strand stored).owned.kept (fun _ _ => by rw [root])
      fun _ _ => by rw [poolFrames]⟩
  · intro other place located apart found
    refine tracks.keep found (fun _ _ => by rw [frames]) (fun _ _ _ => by rw [frames])
      (fun index at_ => stage index ?_ ?_) (fun _ _ => by rw [root]) fun _ _ => by rw [poolFrames]
    · rintro rfl
      exact tracks.elsewhere stored found apart at_
    · rintro rfl
      subst at_
      exact vacant index located.top rfl ((tracks.occupied _ _).mpr ⟨other, by rw [found]; rfl⟩)

theorem busy_le {stage stage' : Nat → Stage A V E} (elsewhere : ∀ other, other ≠ index →
    stage' other = stage other) (threadCnt : Nat) :
    ∑ other ∈ Finset.range threadCnt, (stage' other).busy ≤
      (∑ other ∈ Finset.range threadCnt, (stage other).busy) +
        ((stage' index).busy - (stage index).busy) := by
  have each : ∀ other ∈ Finset.range threadCnt, (stage' other).busy ≤ (stage other).busy +
      if other = index then (stage' index).busy - (stage index).busy else 0 := by
    intro other _
    by_cases here : other = index
    · subst here
      simp only [if_true]
      omega
    · simp [here, elsewhere other here]
  refine (Finset.sum_le_sum each).trans ?_
  rw [Finset.sum_add_distrib, Finset.sum_ite_eq']
  split <;> omega

theorem Place.rank_elsewhere {stage stage' : Nat → Stage A V E}
    (elsewhere : ∀ other, other ≠ index → stage' other = stage other) {place : Place}
    (apart : place ≠ .on index) : place.rank stage' = place.rank stage := by
  cases place with
  | on other =>
    have same : stage' other = stage other := elsewhere other fun here => apart (here ▸ rfl)
    simp only [Place.rank, same]
  | _ => rfl

/-- One strand goes on, and what is left of the others stays the same. -/
theorem Sound.serves (index : Nat) (sound : Sound threadCnt s' (Function.update strands id new))
    (known : strands id ≠ none)
    (others : ∀ other place strand, other ≠ id → strands other = some (place, strand) →
      place.rank s'.stage = place.rank s.stage)
    (elsewhere : ∀ other, other ≠ index → s'.stage other = s.stage other)
    (registered : s'.pool.registered = s.pool.registered)
    (lighter : weight s'.stage new + ((s'.stage index).busy - (s.stage index).busy) <
      weight s.stage (strands id)) (bound : Nat) : Serves threadCnt bound s strands s' := by
  refine ⟨_, sound, fun within => ⟨fun other there => ?_, ?_⟩⟩
  · by_cases here : other = id
    · exact here ▸ within id known
    · rw [Function.update_of_ne here] at there
      exact within other there
  · have member : id ∈ Finset.range bound := Finset.mem_range.mpr (within id known)
    have same : ∀ other ∈ (Finset.range bound).erase id,
        weight s'.stage (Function.update strands id new other) = weight s.stage (strands other) := by
      intro other inside
      have apart := Finset.ne_of_mem_erase inside
      rw [Function.update_of_ne apart]
      cases found : strands other with
      | none => rfl
      | some located => simp only [weight, others other located.1 located.2 apart found]
    have busy := busy_le elsewhere threadCnt
    rw [effort, effort, registered, ← Finset.add_sum_erase _ _ member, ← Finset.add_sum_erase _ _ member,
      Finset.sum_congr rfl same, Function.update_self]
    omega

theorem Sound.serves_still (sound : Sound threadCnt s' (Function.update strands id new))
    (known : strands id ≠ none) (stage : s'.stage = s.stage)
    (registered : s'.pool.registered = s.pool.registered)
    (lighter : weight s.stage new < weight s.stage (strands id)) (bound : Nat) :
    Serves threadCnt bound s strands s' := by
  refine sound.serves 0 known (fun _ _ _ _ _ => by rw [stage]) (fun _ _ => by rw [stage]) registered ?_
    bound
  rw [stage, Nat.sub_self]
  exact lighter

/-- Threads are started, their queues registered and the constructor ended. -/
theorem Sound.starts (sound : Sound threadCnt s strands) {event : Pool.Event Handle}
    (starting : event = .launch ∨ event = .register ∨ event = .construct)
    (enabled : (ThreadPool.machine threadCnt).enabled s.pool event) :
    Sound threadCnt (s.advance ((ThreadPool.machine threadCnt).next s.pool event)) strands := by
  obtain ⟨synced, tracks, accounted⟩ := sound
  have poolFrames : ((ThreadPool.machine threadCnt).next s.pool event).frames = s.pool.frames := by
    rcases starting with rfl | rfl | rfl <;> rfl
  have frames := synced.advance_frames poolFrames
  rcases starting with rfl | rfl | rfl
  all_goals
    refine ⟨synced.advance enabled rfl (fun _ _ => Iff.rfl), ?_, ?_⟩
    · refine tracks.same (fun handle place => ?_) (fun other place strand found => ?_) tracks.distinct
      · cases place <;> rfl
      · exact tracks.keep found (fun _ _ => by rw [frames]) (fun _ _ _ => by rw [frames])
          (fun _ _ => rfl) (fun _ _ => rfl) fun _ _ => rfl
    · exact ⟨accounted.ongoing, accounted.ended, accounted.known, accounted.logged⟩

/-- `push`: the control of a root goes from a call of `addTask` into a queue. -/
theorem Sound.push (sound : Sound threadCnt s strands) {caller : Caller}
    (enabled : (ThreadPool.machine threadCnt).enabled s.pool (.push caller)) (bound : Nat) :
    Serves threadCnt bound s strands (s.advance (s.pool.push caller)) := by
  obtain ⟨synced, tracks, accounted⟩ := sound
  obtain ⟨task, index, calling, _⟩ := id enabled
  have pushed := ThreadPool.push_queue calling
  have here : s.Occupies task (.calling caller) := ⟨_, calling⟩
  obtain ⟨strand, stored, rfl, upheld⟩ := tracks.located here
  have poolFrames : (s.pool.push caller).frames = s.pool.frames := by rw [pushed]
  have workers : (s.pool.push caller).workers = s.pool.workers := by rw [pushed]
  have frames := synced.advance_frames poolFrames
  have unqueued : ∀ other, ¬ s.Occupies strand.top (.queued other) := fun other also => by
    cases tracks.unique here also
  have after : Sound threadCnt (s.advance (s.pool.push caller))
      (Function.update strands (s.root strand.top) (some (.queued index, strand))) := by
    refine ⟨synced.advance enabled poolFrames fun index _ =>
        iff_of_eq (congrArg (· = _) (congrFun workers index)),
      tracks.moves (.queued index) stored ?_ frames rfl poolFrames (fun _ _ _ => rfl)
        (fun _ _ same => by cases same) ?_ ?_, accounted.move (by rfl) (by rfl) ?_ ?_⟩
    · exact upheld.ready.kept (fun _ _ => by rw [frames]) (fun _ _ _ => by rw [frames]) fun _ _ => rfl
    · intro handle place
      cases place with
      | calling other =>
        by_cases same : other = caller
        · subst same
          simp [Workers.Occupies, Workers.advance, pushed, calling, eq_comm]
        · simp [Workers.Occupies, Workers.advance, pushed, same]
      | queued other =>
        by_cases same : other = index
        · subst same
          simp [Workers.Occupies, Workers.advance, pushed, or_comm]
        · simp [Workers.Occupies, Workers.advance, pushed, same]
      | _ => simp [Workers.Occupies, Workers.advance, pushed]
    · intro other
      change (((s.pool.push caller).tasks other).map Entry.task).Nodup
      by_cases same : other = index
      · subst same
        simp only [pushed, Function.update_self, List.map_append, List.map_cons, List.map_nil]
        refine List.nodup_append.mpr ⟨tracks.distinct other, List.nodup_singleton _, ?_⟩
        rintro first inside second last rfl
        exact unqueued other (List.mem_singleton.mp last ▸ inside)
      · simp only [pushed, Function.update_of_ne same]
        exact tracks.distinct other
    · exact Nat.le_of_eq (by rw [Workers.advance, pushed])
    · rw [stored]
      rfl
  refine after.serves_still (by simp [stored]) ?_ ?_ ?_ bound
  · rfl
  · rw [Workers.advance, pushed]
  · rw [stored]
    exact Nat.add_lt_add_right (by decide : 5 < 6) _

/-- `pop`: it goes from the queue to the worker. -/
theorem Sound.pop (sound : Sound threadCnt s strands)
    (enabled : (ThreadPool.machine threadCnt).enabled s.pool (.pop index)) (bound : Nat) :
    Serves threadCnt bound s strands (s.advance (s.pool.pop index)) := by
  obtain ⟨synced, tracks, accounted⟩ := sound
  obtain ⟨_, _, idle, nonempty⟩ := id enabled
  obtain ⟨entry, rest, queued⟩ := List.exists_cons_of_ne_nil nonempty
  have popped := ThreadPool.pop_cons queued
  have here : s.Occupies entry.task (.queued index) := by simp [Workers.Occupies, queued]
  obtain ⟨strand, stored, top, upheld⟩ := tracks.located here
  have poolFrames : (s.pool.pop index).frames = s.pool.frames := by rw [popped]
  have frames := synced.advance_frames poolFrames
  have distinct := tracks.distinct index
  rw [queued, List.map_cons, List.nodup_cons] at distinct
  have after : Sound threadCnt (s.advance (s.pool.pop index))
      (Function.update strands (s.root entry.task) (some (.popped index, strand))) := by
    refine ⟨synced.advance enabled poolFrames fun other running => ?_,
      tracks.moves (.popped index) stored ?_ frames rfl poolFrames (fun _ _ _ => rfl)
        (fun _ _ same => by cases same) ?_ ?_, accounted.move (by rfl) (by rfl) ?_ ?_⟩
    · change (s.pool.pop index).workers other = _ ↔ _
      rw [popped]
      by_cases same : other = index
      · subst same
        simp [idle]
      · simp [same]
    · exact upheld.ready.kept (fun _ _ => by rw [frames]) (fun _ _ _ => by rw [frames]) fun _ _ => rfl
    · intro handle place
      cases place with
      | popped other =>
        by_cases same : other = index
        · subst same
          simp [Workers.Occupies, Workers.advance, popped, idle, top, eq_comm]
        · simp [Workers.Occupies, Workers.advance, popped, same]
      | queued other =>
        by_cases same : other = index
        · subst same
          have left : handle ∈ rest.map Entry.task → handle ≠ entry.task := by
            rintro member rfl
            exact distinct.1 member
          simp only [Workers.Occupies, Workers.advance, popped, queued, top, Function.update_self,
            reduceCtorEq, false_and, false_or, true_and, List.map_cons, List.mem_cons]
          constructor
          · exact fun member => ⟨.inr member, left member⟩
          · rintro ⟨first | member, apart⟩
            · exact absurd first apart
            · exact member
        · simp [Workers.Occupies, Workers.advance, popped, same]
      | _ => simp [Workers.Occupies, Workers.advance, popped]
    · intro other
      change (((s.pool.pop index).tasks other).map Entry.task).Nodup
      by_cases same : other = index
      · subst same
        simp only [popped, Function.update_self]
        exact distinct.2
      · simp only [popped, Function.update_of_ne same]
        exact tracks.distinct other
    · exact Nat.le_of_eq (by rw [Workers.advance, popped])
    · rw [stored]
      rfl
  refine after.serves_still (by simp [stored]) ?_ ?_ ?_ bound
  · rfl
  · rw [Workers.advance, popped]
  · rw [stored]
    exact Nat.add_lt_add_right (by decide : 4 < 5) _

/-- `cleanTasks`: no worker runs, and no coroutine of a strand is done. -/
theorem Sound.clean (sound : Sound threadCnt s strands) {order : List Nat}
    (enabled : (ThreadPool.machine threadCnt).enabled s.pool (.clean order)) :
    Sound threadCnt (s.advance (s.pool.cleanTasks order)) strands := by
  obtain ⟨synced, tracks, accounted⟩ := sound
  have after := enabled
  obtain ⟨_, idle, covers⟩ := enabled
  have looping : ∀ index, s.stage index = .loop := fun index =>
    (synced.stages index).mpr fun entry running => by
      rw [idle index] at running
      cases running
  have calls : (s.pool.cleanTasks order).calls = s.pool.calls :=
    ThreadPool.cleanTasks_keeps ThreadPool.calls (fun _ => rfl) (fun _ _ _ => rfl) s.pool order
  have workers : (s.pool.cleanTasks order).workers = s.pool.workers :=
    ThreadPool.cleanTasks_keeps ThreadPool.workers (fun _ => rfl) (fun _ _ _ => rfl) s.pool order
  have tasks : (s.pool.cleanTasks order).tasks = s.pool.tasks := by
    funext index
    by_cases small : s.pool.taskBinding.size < 10000
    · rw [ThreadPool.cleanTasks, if_pos small]
    · rw [ThreadPool.cleanTasks_tasks (ThreadPool.bound_reachable synced.reached) small covers]
      refine List.filter_eq_self.mpr fun entry member => ?_
      have here : s.Occupies entry.task (.queued index) := List.mem_map_of_mem member
      obtain ⟨strand, _, top, upheld⟩ := tracks.located here
      simp [← top, upheld.owned.pending strand.top List.mem_cons_self]
  have kept : ∀ {id place} {strand : Strand A V E}, strands id = some (place, strand) →
      ∀ handle ∈ strand.handles,
        (s.pool.cleanTasks order).frames handle = s.pool.frames handle := by
    intro id place strand found handle member
    exact ThreadPool.cleanTasks_frames_pending order
      ((tracks.upheld id place strand found).owned.pending handle member)
  refine ⟨⟨synced.reached.next _ after, fun handle => ?_, fun index => ?_, synced.defined⟩,
    tracks.same (fun handle place => ?_) (fun other place strand found => ?_) ?_, ?_⟩
  · change (if (s.pool.cleanTasks order).frames handle = none then none else s.frames handle) = none ↔
      (s.pool.cleanTasks order).frames handle = none
    split
    · rename_i gone
      simp [gone]
    · rename_i alive
      have before : s.pool.frames handle ≠ none := fun gone =>
        alive (ThreadPool.cleanTasks_frames_none order gone)
      simp [alive, (synced.frames handle).not.mpr before]
  · change s.stage index = .loop ↔ ∀ entry, (s.pool.cleanTasks order).workers index ≠ .running entry
    rw [workers]
    exact synced.stages index
  · cases place with
    | calling caller =>
      change (∃ target, (s.pool.cleanTasks order).calls caller = _) ↔ _
      rw [calls]
      rfl
    | queued index =>
      change handle ∈ ((s.pool.cleanTasks order).tasks index).map Entry.task ↔ _
      rw [tasks]
      rfl
    | popped index =>
      change (∃ entry, (s.pool.cleanTasks order).workers index = _ ∧ _) ↔ _
      rw [workers]
      rfl
    | spawned thread => rfl
    | on index => rfl
  · have before := tracks.upheld other place strand found
    have frames : ∀ handle ∈ strand.handles,
        (s.advance (s.pool.cleanTasks order)).frames handle = s.frames handle := by
      intro handle member
      change (if (s.pool.cleanTasks order).frames handle = none then none else s.frames handle) = _
      rw [kept found handle member]
      split
      · rename_i gone
        exact ((synced.frames handle).mpr gone).symm
      · rfl
    refine ⟨?_, before.owned.kept (fun _ _ => rfl) (kept found)⟩
    cases place with
    | on index =>
      have goes : strand.Goes s.frames (s.stage index) := before.ready
      rw [looping index] at goes
      exact goes.elim
    | _ => exact Strand.Waits.kept before.ready frames
  · intro index
    change (((s.pool.cleanTasks order).tasks index).map Entry.task).Nodup
    rw [tasks]
    exact tracks.distinct index
  · have nextFrame : (s.pool.cleanTasks order).nextFrame = s.pool.nextFrame :=
      ThreadPool.cleanTasks_keeps ThreadPool.nextFrame (fun _ => rfl) (fun _ _ _ => rfl) s.pool order
    refine ⟨accounted.ongoing, accounted.ended, fun id spawned => ?_, accounted.logged⟩
    exact Nat.lt_of_lt_of_eq (accounted.known id spawned) nextFrame.symm

/-- The frame of a new root, detached or not. -/
theorem Workers.spawn_frames [Inhabited V] (s : Workers A V E) (thread : Nat) (task : Handle)
    (body : Body A V E) (detached : Bool) :
    (s.spawn thread task body detached).frames = Function.update s.frames task
      (some ⟨.initial body, { detached := detached, returnValue := default }⟩) := by
  cases detached <;>
    simp [Workers.spawn, Workers.view, TaskState.create, TaskState.setFrame, TaskState.detach,
      TaskState.withFrame]

theorem Workers.Synced.free (synced : s.Synced threadCnt) (free : s.pool.frames handle = none) :
    s.frames handle = none := (synced.frames handle).mpr free

/-- Creating a frame at a free address leaves the strands alone. -/
theorem Tracks.create (tracks : Tracks s strands) (synced : s.Synced threadCnt) {fresh : Handle}
    (free : s.pool.frames fresh = none) {place : Place} {strand : Strand A V E}
    (found : strands id = some (place, strand))
    (frames : ∀ handle, handle ≠ fresh → s'.frames handle = s.frames handle)
    (root : ∀ handle, handle ≠ fresh → s'.root handle = s.root handle)
    (pool : s'.pool = s.pool.create fresh)
    (stage : ∀ index, place = .on index → s'.stage index = s.stage index) :
    Upheld s' id place strand := by
  have apart : ∀ handle ∈ strand.handles, handle ≠ fresh := by
    rintro handle member rfl
    obtain ⟨_, _, _, known⟩ := tracks.framed found member
    rw [synced.free free] at known
    cases known
  refine tracks.keep found (fun handle member => frames handle (apart handle member)) ?_ stage
    (fun handle member => root handle (apart handle member)) fun handle member => ?_
  · rintro handle promise final
    refine frames handle ?_
    rintro rfl
    rw [synced.free free] at final
    cases final
  · rw [pool]
    exact Function.update_of_ne (apart handle member) ..

/-- `spawn`: a thread creates a root. -/
theorem Sound.spawn [Inhabited V] (sound : Sound threadCnt s strands) {thread : Nat} {task : Handle}
    (vacant : s.spawned thread = none) (free : s.pool.frames task = none) (body : Body A V E)
    (detached : Bool) : ∃ strands', Sound threadCnt (s.spawn thread task body detached) strands' := by
  obtain ⟨synced, tracks, accounted⟩ := sound
  have frames := s.spawn_frames thread task body detached
  have absent : s.bodies s.pool.nextFrame = none := by
    by_contra known
    exact Nat.lt_irrefl _ (accounted.known _ known)
  have unborn : strands s.pool.nextFrame = none := by
    rw [← account_none]
    by_contra known
    obtain ⟨⟨outcome, actions⟩, left⟩ := Option.ne_none_iff_exists'.mp known
    obtain ⟨other, spawned, _⟩ := accounted.ongoing _ outcome actions left
    rw [absent] at spawned
    cases spawned
  have unreported : s.reports s.pool.nextFrame = [] := by
    refine List.filterMap_eq_nil_iff.mpr fun entry member => if_neg ?_
    rintro same
    exact accounted.logged entry member (same ▸ absent)
  have reports : ∀ id, (s.spawn thread task body detached).reports id = s.reports id := fun _ => rfl
  have bodies : (s.spawn thread task body detached).bodies =
      Function.update s.bodies s.pool.nextFrame (some body) := rfl
  refine ⟨_, ⟨synced.reached.next (.create task) free, fun handle => ?_, synced.stages, synced.defined⟩,
    tracks.change s.pool.nextFrame (some (.spawned thread, ⟨task, body, []⟩)) ?_ ?_ ?_
    tracks.distinct, ?_⟩
  · rw [frames]
    change _ ↔ Function.update s.pool.frames task _ handle = none
    by_cases here : handle = task
    · simp [here]
    · simpa [here] using synced.frames handle
  · intro handle place
    cases place with
    | spawned other =>
      by_cases same : other = thread
      · subst same
        simp [Workers.Occupies, Workers.spawn, spot, unborn, vacant]
      · simp [Workers.Occupies, Workers.spawn, spot, unborn, same, Ne.symm same]
    | _ => simp [Workers.Occupies, Workers.spawn, ThreadPool.create, spot, unborn]
  · intro place strand same
    cases same
    refine ⟨.inl ⟨{ detached := detached, returnValue := default }, ?_, rfl, rfl⟩,
      List.nodup_singleton _, ?_, ?_, ?_⟩
    · rw [frames, Function.update_self]
    · intro handle member
      rw [List.mem_singleton.mp member]
      exact Function.update_self ..
    · change (s.pool.create task).frameId task = _
      simp [ThreadPool.frameId, ThreadPool.create]
    · intro handle member
      rw [List.mem_singleton.mp member]
      change (s.pool.create task).isDone task = false
      simp [ThreadPool.isDone, ThreadPool.create]
  · intro other place strand _ found
    refine tracks.create synced free found (fun handle apart => ?_) (fun handle apart => ?_) rfl
      fun _ _ => rfl
    · rw [frames, Function.update_of_ne apart]
    · exact Function.update_of_ne apart ..
  · constructor
    · intro id outcome actions left
      rw [bodies, reports]
      by_cases here : id = s.pool.nextFrame
      · subst here
        rw [Function.update_self] at left ⊢
        cases left
        refine ⟨body, rfl, rfl, ?_⟩
        rw [unreported]
        simp [Strand.actions, Strand.unwindActions]
      · rw [Function.update_of_ne here] at left ⊢
        exact accounted.ongoing id outcome actions left
    · intro id other spawned gone
      rw [bodies] at spawned
      rw [reports]
      by_cases here : id = s.pool.nextFrame
      · subst here
        rw [Function.update_self] at gone
        cases gone
      · rw [Function.update_of_ne here] at spawned gone
        exact accounted.ended id other spawned gone
    · intro id spawned
      rw [bodies] at spawned
      by_cases here : id = s.pool.nextFrame
      · exact here ▸ Nat.lt_succ_self _
      · rw [Function.update_of_ne here] at spawned
        exact Nat.lt_succ_of_lt (accounted.known id spawned)
    · intro entry member
      rw [bodies]
      by_cases here : entry.1 = s.pool.nextFrame
      · rw [here, Function.update_self]
        exact Option.some_ne_none _
      · rw [Function.update_of_ne here]
        exact accounted.logged entry member

/-- What `bind` leaves in the pool, and the call that it makes. -/
structure BindsCall (before after : ThreadPool Handle) (caller : Caller) (task : Handle) : Prop where
  calls : ∃ target, after.calls = Function.update before.calls caller (some ⟨task, target⟩)
  tasks : after.tasks = before.tasks
  workers : after.workers = before.workers
  frames : after.frames = before.frames
  nextFrame : after.nextFrame = before.nextFrame
  registered : after.registered = before.registered

theorem bindsCall (pool : ThreadPool Handle) (caller : Caller) (task : Handle) :
    BindsCall pool (pool.bind caller task) caller task where
  calls := by
    obtain ⟨target, _, calls⟩ := pool.bind_lookup caller task
    exact ⟨target, calls⟩
  tasks := pool.bind_keeps ThreadPool.tasks (fun _ _ _ _ => rfl) caller task
  workers := pool.bind_keeps ThreadPool.workers (fun _ _ _ _ => rfl) caller task
  frames := pool.bind_keeps ThreadPool.frames (fun _ _ _ _ => rfl) caller task
  nextFrame := pool.bind_keeps ThreadPool.nextFrame (fun _ _ _ _ => rfl) caller task
  registered := pool.bind_keeps ThreadPool.registered (fun _ _ _ _ => rfl) caller task

/-- `addTask` of a root, up to the push. -/
theorem Sound.add (sound : Sound threadCnt s strands) {thread : Nat}
    (here : s.spawned thread = some handle)
    (enabled : (ThreadPool.machine threadCnt).enabled s.pool (.bind (.outside thread) handle))
    (bound : Nat) : Serves threadCnt bound s strands (s.add thread handle) := by
  obtain ⟨synced, tracks, accounted⟩ := sound
  have spawned : s.Occupies handle (.spawned thread) := here
  obtain ⟨strand, stored, rfl, upheld⟩ := tracks.located spawned
  have binds := bindsCall s.pool (.outside thread) strand.top
  obtain ⟨target, calls⟩ := binds.calls
  obtain ⟨_, _, quiet, _⟩ := id enabled
  have after : Sound threadCnt (s.add thread strand.top)
      (Function.update strands (s.root strand.top) (some (.calling (.outside thread), strand))) := by
    refine ⟨⟨synced.reached.next (.bind (.outside thread) strand.top) enabled,
        fun other => ?_, fun index => ?_, synced.defined⟩,
      tracks.moves (.calling (.outside thread)) stored ?_ rfl rfl binds.frames
        (fun _ _ _ => rfl) (fun _ _ same => by cases same) (fun other place => ?_) (fun index => ?_),
      accounted.move (by rfl) (by rfl) (Nat.le_of_eq binds.nextFrame.symm) (by rw [stored]; rfl)⟩
    · change _ ↔ (s.pool.bind (.outside thread) strand.top).frames other = none
      rw [binds.frames]
      exact synced.frames other
    · change _ ↔ ∀ entry, (s.pool.bind (.outside thread) strand.top).workers index ≠ .running entry
      rw [binds.workers]
      exact synced.stages index
    · exact upheld.ready
    · cases place with
      | spawned other_ =>
        by_cases same : other_ = thread
        · subst same
          simp [Workers.Occupies, Workers.add, here, eq_comm]
        · simp [Workers.Occupies, Workers.add, same]
      | calling caller =>
        by_cases same : caller = .outside thread
        · subst same
          simp [Workers.Occupies, Workers.add, calls, quiet, eq_comm]
        · simp [Workers.Occupies, Workers.add, calls, same]
      | queued index => simp [Workers.Occupies, Workers.add, binds.tasks]
      | popped index => simp [Workers.Occupies, Workers.add, binds.workers]
      | on index => simp [Workers.Occupies, Workers.add]
    · change (((s.pool.bind (.outside thread) strand.top).tasks index).map Entry.task).Nodup
      rw [binds.tasks]
      exact tracks.distinct index
  refine after.serves_still (by simp [stored]) ?_ ?_ ?_ bound
  · rfl
  · exact binds.registered
  · rw [stored]
    exact Nat.add_lt_add_right (by decide : 6 < 7) _

/-- `addTask` of a coroutine that suspends on the scheduler, up to the push. -/
theorem Sound.schedule (sound : Sound threadCnt s strands) (here : s.stage index = .adding handle)
    (enabled : (ThreadPool.machine threadCnt).enabled s.pool (.bind (.worker index) handle))
    (bound : Nat) : Serves threadCnt bound s strands (s.schedule index handle) := by
  obtain ⟨synced, tracks, accounted⟩ := sound
  have adding : s.Occupies handle (.on index) := by simp [Workers.Occupies, here, Stage.handle?]
  obtain ⟨strand, stored, rfl, upheld⟩ := tracks.located adding
  have binds := bindsCall s.pool (.worker index) strand.top
  obtain ⟨target, calls⟩ := binds.calls
  obtain ⟨_, ⟨entry, running⟩, quiet, _⟩ := id enabled
  have scheduled : strand.Backed s.frames (.scheduled strand.body) := by
    have goes : strand.Goes s.frames (s.stage index) := upheld.ready
    rw [here] at goes
    exact goes
  have after : Sound threadCnt (s.schedule index strand.top)
      (Function.update strands (s.root strand.top) (some (.calling (.worker index), strand))) := by
    refine ⟨⟨synced.reached.next (.bind (.worker index) strand.top) enabled,
        fun other => ?_, fun other => ?_, fun other => ?_⟩,
      tracks.moves (.calling (.worker index)) stored (.inr scheduled) rfl rfl binds.frames
        (fun other source _ => ?_) (fun _ _ same => by cases same) (fun other place => ?_)
        (fun other => ?_),
      accounted.move (by rfl) (by rfl) (Nat.le_of_eq binds.nextFrame.symm) (by rw [stored]; rfl)⟩
    · change _ ↔ (s.pool.bind (.worker index) strand.top).frames other = none
      rw [binds.frames]
      exact synced.frames other
    · change Function.update s.stage index _ other = .loop ↔
        ∀ entry, (s.pool.bind (.worker index) strand.top).workers other ≠ .running entry
      rw [binds.workers]
      by_cases same : other = index
      · subst same
        simp [running]
      · rw [Function.update_of_ne same]
        exact synced.stages other
    · change Function.update s.stage index _ other ≠ _
      by_cases same : other = index
      · subst same
        simp
      · rw [Function.update_of_ne same]
        exact synced.defined other
    · have apart : other ≠ index := fun same => source (same ▸ rfl)
      exact Function.update_of_ne apart ..
    · cases place with
      | spawned thread => simp [Workers.Occupies, Workers.schedule, Workers.setStage]
      | calling caller =>
        by_cases same : caller = .worker index
        · subst same
          simp [Workers.Occupies, Workers.schedule, Workers.setStage, calls, quiet, eq_comm]
        · simp [Workers.Occupies, Workers.schedule, Workers.setStage, calls, same]
      | queued index_ => simp [Workers.Occupies, Workers.schedule, Workers.setStage, binds.tasks]
      | popped index_ => simp [Workers.Occupies, Workers.schedule, Workers.setStage, binds.workers]
      | on index_ =>
        by_cases same : index_ = index
        · subst same
          simp [Workers.Occupies, Workers.schedule, Workers.setStage, here, Stage.handle?,
            Control.handle?, eq_comm]
        · simp [Workers.Occupies, Workers.schedule, Workers.setStage, same]
    · change (((s.pool.bind (.worker index) strand.top).tasks other).map Entry.task).Nodup
      rw [binds.tasks]
      exact tracks.distinct other
  refine after.serves index (by simp [stored]) (fun other place strand apart found => ?_) ?_ ?_ ?_ bound
  · exact Place.rank_elsewhere (fun _ apart => Workers.setStage_elsewhere _ _ apart)
      (tracks.elsewhere stored found apart)
  · exact fun other apart => Workers.setStage_elsewhere _ _ apart
  · exact binds.registered
  · rw [stored]
    simp [weight, Place.rank, here, Workers.schedule, Stage.busy]

/-- `runTasks` resumes what it has popped. -/
theorem Sound.resume (sound : Sound threadCnt s strands) {entry : Entry Handle}
    (holding : s.pool.workers index = .popped entry) (bound : Nat) :
    Serves threadCnt bound s strands (s.resume index entry.task) := by
  obtain ⟨synced, tracks, accounted⟩ := sound
  have popped : s.Occupies entry.task (.popped index) := ⟨entry, holding, rfl⟩
  obtain ⟨strand, stored, top, upheld⟩ := tracks.located popped
  have pending : s.pool.isDone entry.task = false :=
    top ▸ upheld.owned.pending strand.top List.mem_cons_self
  have resumed := ThreadPool.resume_pending holding pending
  have looping : s.stage index = .loop := (synced.stages index).mpr fun other running => by
    rw [holding] at running
    cases running
  have same : s.resume index entry.task =
      { s with pool := s.pool.resume index }.setStage index (.inside (.resuming entry.task)) := by
    rw [Workers.resume, pending]
    rfl
  rw [same]
  have after : Sound threadCnt ({ s with pool := s.pool.resume index }.setStage index (.inside (.resuming entry.task)))
      (Function.update strands (s.root entry.task) (some (.on index, strand))) := by
    refine ⟨⟨synced.reached.next (.resume index) ⟨entry, holding⟩, fun other => ?_,
        fun other => ?_, fun other => ?_⟩,
      tracks.moves (.on index) stored ?_ rfl rfl (by simp [Workers.setStage, resumed])
        (fun other _ apart => ?_) ?_ (fun other place => ?_) (fun other => ?_),
      accounted.move (by rfl) (by rfl) (Nat.le_of_eq (by simp [Workers.setStage, resumed]))
        (by rw [stored]; rfl)⟩
    · simpa [Workers.setStage, resumed] using synced.frames other
    · by_cases here : other = index
      · subst here
        simp [Workers.setStage, resumed]
      · simpa [Workers.setStage, resumed, here] using synced.stages other
    · by_cases here : other = index
      · subst here
        simp [Workers.setStage]
      · simpa [Workers.setStage, here] using synced.defined other
    · change strand.Goes s.frames (Function.update s.stage index (.inside (.resuming entry.task)) index)
      rw [Function.update_self]
      exact .inl upheld.ready
    · have elsewhere : other ≠ index := fun same => apart (same ▸ rfl)
      exact Function.update_of_ne elsewhere ..
    · rintro other handle at_
      cases at_
      simp [Workers.Occupies, looping, Stage.handle?]
    · cases place with
      | spawned thread => simp [Workers.Occupies, Workers.setStage]
      | calling caller => simp [Workers.Occupies, Workers.setStage, resumed]
      | queued other_ => simp [Workers.Occupies, Workers.setStage, resumed]
      | popped other_ =>
        by_cases here : other_ = index
        · subst here
          simp [Workers.Occupies, Workers.setStage, resumed, holding, top, eq_comm]
        · simp [Workers.Occupies, Workers.setStage, resumed, here]
      | on other_ =>
        by_cases here : other_ = index
        · subst here
          simp [Workers.Occupies, Workers.setStage, Stage.handle?, Control.handle?, looping, top, eq_comm]
        · simp [Workers.Occupies, Workers.setStage, here]
    · simpa [Workers.setStage, resumed] using tracks.distinct other
  refine after.serves index (by simp [stored]) (fun other place strand apart found => ?_) ?_ ?_ ?_ bound
  · refine Place.rank_elsewhere (fun _ apart => Workers.setStage_elsewhere _ _ apart) ?_
    rintro rfl
    have occupied : s.Occupies strand.top (.on index) :=
      (tracks.occupied _ _).mpr ⟨other, by rw [found]; rfl⟩
    simp [Workers.Occupies, looping, Stage.handle?] at occupied
  · exact fun other apart => Workers.setStage_elsewhere _ _ apart
  · simp [Workers.setStage, resumed]
  · rw [stored]
    simp only [weight, Place.rank, Workers.setStage_here, looping, Stage.busy]
    omega

/-- `runTasks` returns behind a coroutine that has suspended or ended. -/
theorem Sound.leave (sound : Sound threadCnt s strands) (ended : s.stage index = .inside (.idle .returns))
    (enabled : (ThreadPool.machine threadCnt).enabled s.pool (.leave index)) :
    Sound threadCnt (s.leave index) strands := by
  obtain ⟨synced, tracks, accounted⟩ := sound
  obtain ⟨⟨entry, running⟩, _⟩ := id enabled
  have vacant : ∀ handle, ¬ s.Occupies handle (.on index) := by
    simp [Workers.Occupies, ended, Stage.handle?, Control.handle?]
  refine ⟨⟨synced.reached.next (.leave index) enabled, synced.frames, fun other => ?_,
      fun other => ?_⟩,
    tracks.same (fun handle place => ?_) (fun other place strand found => ?_) tracks.distinct,
    accounted.ongoing, accounted.ended, accounted.known, accounted.logged⟩
  · by_cases here : other = index
    · subst here
      simp [Workers.leave, Workers.setStage, ThreadPool.leave]
    · simpa [Workers.leave, Workers.setStage, ThreadPool.leave, here] using synced.stages other
  · by_cases here : other = index
    · subst here
      simp [Workers.leave, Workers.setStage]
    · simpa [Workers.leave, Workers.setStage, here] using synced.defined other
  · cases place with
    | popped other =>
      by_cases here : other = index
      · subst here
        simp [Workers.Occupies, Workers.leave, Workers.setStage, ThreadPool.leave, running]
      · simp [Workers.Occupies, Workers.leave, Workers.setStage, ThreadPool.leave, here]
    | on other =>
      by_cases here : other = index
      · subst here
        simp [Workers.Occupies, Workers.leave, Workers.setStage, ended, Stage.handle?, Control.handle?]
      · simp [Workers.Occupies, Workers.leave, Workers.setStage, here]
    | _ => exact Iff.rfl
  · refine tracks.keep found (fun _ _ => rfl) (fun _ _ _ => rfl) (fun at_ here => ?_)
      (fun _ _ => rfl) fun _ _ => rfl
    subst here
    have elsewhere : at_ ≠ index := by
      rintro rfl
      exact vacant strand.top ((tracks.occupied _ _).mpr ⟨other, by rw [found]; rfl⟩)
    exact Function.update_of_ne elsewhere ..

end

end CoroMultiplex.Async
