import CoroMultiplex.Async.Roots
import CoroMultiplex.Pool.Staffing

/-! The workers bring every root to its end.

Steps that leave less to do are those of the workers and of the calls of `addTask`. Where
none of them can be taken, no root is left.
-/

set_option autoImplicit false

namespace CoroMultiplex.Async

open Foundations Pool

variable {A V E : Type} [Inhabited V]

/-- A step of a worker, or of a call of `addTask`. -/
def Serving : WorkersEvent A V E → Prop
  | .pool .register | .pool (.push _) | .pool (.pop _) => True
  | .pool _ | .spawn _ _ _ _ => False
  | .add _ | .resume _ | .proceed _ _ | .schedule _ | .leave _ => True

/-- The workers and the calls alone, without new roots and without passes. -/
def serving (A V E : Type) [Inhabited V] (threadCnt : Nat) :
    Machine (Workers A V E) (WorkersEvent A V E) :=
  (workers A V E threadCnt).restrict fun _ event => Serving event

namespace Workers

/-- The constructor ends when at least one queue is registered. -/
def Populated (s : Workers A V E) : WorkersEvent A V E → Prop
  | .pool event => s.pool.Populated event
  | _ => True

/-- A thread adds a root before it spawns another, and no exception leaves a resume call. -/
structure Orderly (s : Workers A V E) : Prop where
  outside : ∀ thread, s.spawned thread ≠ none → s.pool.calls (.outside thread) = none
  caught : ∀ index exception, s.stage index ≠ .inside (.idle (.throws exception))

end Workers

variable {s s' : Workers A V E} {strands : Strands A V E} {threadCnt index id : Nat} {handle : Handle}

omit [Inhabited V] in
theorem serving_populated {event : WorkersEvent A V E} (serves : Serving event) : s.Populated event := by
  cases event with
  | pool event =>
    cases event with
    | construct => exact serves.elim
    | _ => trivial
  | _ => trivial

/-- The pool takes part in a step with one of its own, or with none. -/
theorem Sound.pool_step (sound : Sound threadCnt s strands) {event : WorkersEvent A V E}
    (enabled : s.Enabled threadCnt event) (populated : s.Populated event) :
    ∃ events, (ThreadPool.populated threadCnt).Allowed s.pool events ∧
      (s.step threadCnt event).pool = (ThreadPool.populated threadCnt).exec s.pool events := by
  cases event with
  | pool event => exact ⟨[event], ⟨⟨enabled.2, populated⟩, trivial⟩, rfl⟩
  | spawn thread task body detached =>
    exact ⟨[.create task], ⟨⟨enabled.2.2, trivial⟩, trivial⟩, rfl⟩
  | add thread =>
    obtain ⟨task, spawned, enabled⟩ := enabled
    refine ⟨[.bind (.outside thread) task], ⟨⟨enabled, trivial⟩, trivial⟩, ?_⟩
    simp only [Workers.step, spawned]
    rfl
  | resume index =>
    obtain ⟨entry, holding⟩ := enabled
    refine ⟨[.resume index], ⟨⟨⟨entry, holding⟩, trivial⟩, trivial⟩, ?_⟩
    simp only [Workers.step, holding, Worker.entry]
    rfl
  | proceed index fresh =>
    obtain ⟨control, here, busy, free⟩ := enabled
    simp only [Workers.step, here]
    cases control with
    | running handle body =>
      cases body with
      | done outcome =>
        obtain ⟨_, _, stored, _⟩ := sound.tracks.running here rfl
        have unended : ∃ frame, s.pool.frames handle = some frame ∧ frame.done = false :=
          sound.synced.unended sound.tracks stored List.mem_cons_self
        refine ⟨[.finish handle], ⟨⟨unended, trivial⟩, trivial⟩, ?_⟩
        rw [Workers.proceed_done]
        rfl
      | await child after => exact ⟨[.create fresh], ⟨⟨free, trivial⟩, trivial⟩, rfl⟩
      | perform action rest => exact ⟨[], trivial, rfl⟩
      | schedule rest => exact ⟨[], trivial, rfl⟩
    | _ => exact ⟨[], trivial, rfl⟩
  | schedule index =>
    obtain ⟨handle, here, enabled⟩ := enabled
    refine ⟨[.bind (.worker index) handle], ⟨⟨enabled, trivial⟩, trivial⟩, ?_⟩
    simp only [Workers.step, here]
    rfl
  | leave index => exact ⟨[.leave index], ⟨⟨enabled.2, trivial⟩, trivial⟩, rfl⟩

omit [Inhabited V] in
theorem Promise.unhandledException_ends {promise : Promise V E} {exception : E} {exit : Exit E}
    (ends : promise.unhandledException exception = .error exit) : exit = .terminates := by
  unfold unhandledException at ends
  split at ends
  · exact (Except.error.inj ends).symm
  · cases ends

omit [Inhabited V] in
theorem TaskState.finish_caught (t : TaskState A V E) (handle : Handle) (outcome : Except E V)
    (exception : E) :
    (t.finish handle outcome).control ≠ .idle (.throws exception) := by
  simp only [finish, withFrame]
  split
  · simp
  · cases outcome with
    | ok value =>
      simp only [finalSuspend]
      split <;> simp
    | error other =>
      simp only
      split
      · rename_i exit ends
        simp [Promise.unhandledException_ends ends]
      · simp only [finalSuspend]
        split <;> simp

/-- No exception leaves a resume call: the promise stores it, or the program ends. -/
theorem next_caught (t : TaskState A V E) (exception : E)
    (before : t.control ≠ .idle (.throws exception)) :
    (next t .proceed).control ≠ .idle (.throws exception) := by
  cases control : t.control with
  | running handle body =>
    cases body with
    | done outcome =>
      simp only [next, control, TaskState.run]
      exact t.finish_caught handle outcome exception
    | perform action rest => simp [next, control, TaskState.run]
    | schedule rest => simp [next, control, TaskState.run]
    | await child after =>
      simp only [next, control, TaskState.run, TaskState.awaitSuspend, TaskState.withFrame]
      split <;> simp
  | resuming handle =>
    simp only [next, control, TaskState.resume, TaskState.withFrame]
    split
    · simp
    · split
      · simp
      · simp
      · split <;> simp
      · simp
      · simp
  | idle exit => simpa [next, control] using before
  | undefined => simp [next, control]

namespace Workers

omit [Inhabited V] in
theorem Orderly.stages (orderly : s.Orderly) (stage : Stage A V E)
    (caught : ∀ exception, stage ≠ .inside (.idle (.throws exception)))
    (calls : ∀ thread, s'.pool.calls (.outside thread) = s.pool.calls (.outside thread))
    (spawned : s'.spawned = s.spawned) (stages : s'.stage = Function.update s.stage index stage) :
    s'.Orderly := by
  refine ⟨fun thread held => ?_, fun other exception => ?_⟩
  · rw [calls]
    exact orderly.outside thread (spawned ▸ held)
  · rw [stages]
    by_cases here : other = index
    · rw [here, Function.update_self]
      exact caught exception
    · rw [Function.update_of_ne here]
      exact orderly.caught other exception

omit [Inhabited V] in
theorem Orderly.pool (orderly : s.Orderly) {pool : ThreadPool Handle}
    (calls : ∀ caller, s.pool.calls caller = none → pool.calls caller = none) :
    (s.advance pool).Orderly :=
  ⟨fun thread held => calls _ (orderly.outside thread held), orderly.caught⟩

theorem proceed_calls (s : Workers A V E) (index : Nat) (fresh : Handle) (control : Control A V E) :
    (s.proceed index fresh control).pool.calls = s.pool.calls ∧
      (s.proceed index fresh control).spawned = s.spawned ∧
      (s.proceed index fresh control).bodies = s.bodies ∧
      ∃ stage, (s.proceed index fresh control).stage = Function.update s.stage index stage ∧
        (stage = .inside (next (s.view fresh control) .proceed).control ∨ ∃ handle, stage = .adding handle) := by
  cases control with
  | running handle body =>
    cases body with
    | done outcome =>
      rw [proceed_done]
      exact ⟨rfl, rfl, rfl, _, rfl, .inl rfl⟩
    | perform action rest => exact ⟨rfl, rfl, rfl, _, rfl, .inl rfl⟩
    | schedule rest => exact ⟨rfl, rfl, rfl, .adding handle, Function.update_idem .., .inr ⟨_, rfl⟩⟩
    | await child after => exact ⟨rfl, rfl, rfl, _, rfl, .inl rfl⟩
  | _ => exact ⟨rfl, rfl, rfl, _, rfl, .inl rfl⟩

theorem Orderly.step (orderly : s.Orderly) {event : WorkersEvent A V E}
    (enabled : s.Enabled threadCnt event) : (s.step threadCnt event).Orderly := by
  cases event with
  | pool event =>
    refine orderly.pool fun caller quiet => ?_
    obtain ⟨plain, enabled⟩ := enabled
    cases event with
    | push other =>
      obtain ⟨task, index, calling, _⟩ := enabled
      change (s.pool.push other).calls caller = none
      rw [ThreadPool.push_queue calling]
      by_cases here : caller = other
      · simp [here]
      · simpa [here] using quiet
    | pop index =>
      exact (ThreadPool.pop_keeps ThreadPool.calls (fun _ _ _ _ => rfl) s.pool index).symm ▸ quiet
    | clean order =>
      exact (ThreadPool.cleanTasks_keeps ThreadPool.calls (fun _ => rfl) (fun _ _ _ => rfl) s.pool
        order).symm ▸ quiet
    | launch => exact quiet
    | register => exact quiet
    | construct => exact quiet
    | create task => exact plain.elim
    | finish task => exact plain.elim
    | bind other task => exact plain.elim
    | resume index => exact plain.elim
    | leave index => exact plain.elim
  | spawn thread task body detached =>
    refine ⟨fun other held => ?_, orderly.caught⟩
    by_cases here : other = thread
    · exact here ▸ enabled.2.1
    · exact orderly.outside other (Function.update_of_ne here (some task) s.spawned ▸ held)
  | add thread =>
    obtain ⟨task, spawned, enabled⟩ := enabled
    obtain ⟨target, _, calls⟩ := s.pool.bind_lookup (.outside thread) task
    simp only [Workers.step, spawned]
    refine ⟨fun other held => ?_, orderly.caught⟩
    have apart : other ≠ thread := fun here => held (here ▸ Function.update_self ..)
    change (s.pool.bind (.outside thread) task).calls (.outside other) = none
    rw [calls, Function.update_of_ne (by simpa using apart)]
    exact orderly.outside other (Function.update_of_ne apart none s.spawned ▸ held)
  | resume index =>
    obtain ⟨entry, holding⟩ := enabled
    simp only [Workers.step, holding, Worker.entry]
    refine orderly.stages _ (fun exception => ?_) (fun thread => ?_) rfl rfl
    · split <;> simp
    · exact congrFun (ThreadPool.resume_keeps ThreadPool.calls (fun _ _ _ => rfl) s.pool index) _
  | proceed index fresh =>
    obtain ⟨control, here, busy, free⟩ := enabled
    simp only [Workers.step, here]
    obtain ⟨calls, spawned, _, stage, stages, known⟩ := s.proceed_calls index fresh control
    refine orderly.stages stage (fun exception => ?_) (fun _ => by rw [calls]) spawned stages
    rcases known with rfl | ⟨handle, rfl⟩
    · have caught := next_caught (s.view fresh control) exception fun idle =>
        orderly.caught index exception (here.trans (congrArg Stage.inside idle))
      simpa using caught
    · simp
  | schedule index =>
    obtain ⟨handle, here, enabled⟩ := enabled
    obtain ⟨target, _, calls⟩ := s.pool.bind_lookup (.worker index) handle
    simp only [Workers.step, here]
    refine orderly.stages (.inside (.idle .returns)) (by simp) (fun thread => ?_) rfl rfl
    change (s.pool.bind (.worker index) handle).calls (.outside thread) = _
    rw [calls, Function.update_of_ne (by simp)]
  | leave index => exact orderly.stages .loop (by simp) (fun _ => rfl) rfl rfl

end Workers

/-- What the workers know of themselves, of the roots and of the pool. -/
structure Working (threadCnt : Nat) (s : Workers A V E) (strands : Strands A V E) : Prop
    extends Sound threadCnt s strands where
  orderly : s.Orderly
  elements : s.pool.Elements
  staffed : s.pool.Staffed threadCnt

theorem working_reachable
    (reached : ((workers A V E threadCnt).restrict Workers.Populated).Reachable {} s) :
    ∃ strands, Working threadCnt s strands := by
  obtain ⟨strands, sound⟩ := sound_reachable reached.of_restrict
  have orderly : s.Orderly := reached.holds Workers.Orderly ⟨fun _ held => absurd rfl held, by simp⟩
    fun _ _ orderly enabled => orderly.step enabled.1.2
  have pooled : ∃ pool, (ThreadPool.populated threadCnt).Reachable {} pool ∧
      (∃ strands, Sound threadCnt s strands) ∧ s.pool = pool := by
    refine reached.simulated (fun s pool => (∃ strands, Sound threadCnt s strands) ∧ s.pool = pool)
      ⟨{}, ⟨[], trivial, rfl⟩, ⟨_, sound_start threadCnt⟩, rfl⟩ ?_
    rintro before event _ _ ⟨⟨strands, sound⟩, rfl⟩ ⟨⟨_, enabled⟩, populated⟩
    obtain ⟨events, allowed, same⟩ := sound.pool_step enabled populated
    exact ⟨events, allowed, sound.step enabled, same⟩
  obtain ⟨_, pooled, _, rfl⟩ := pooled
  exact ⟨strands, sound, orderly, ThreadPool.elements_reachable pooled,
    ThreadPool.staffed_reachable pooled.of_restrict⟩

/-! Where there is a root left, there is a step of a worker or of a call. -/

omit [Inhabited V] in
theorem Working.pushes (working : Working threadCnt s strands) {caller : Caller}
    (calling : s.pool.calls caller ≠ none) :
    ∃ event : WorkersEvent A V E, Serving event ∧ s.Enabled threadCnt event := by
  obtain ⟨⟨task, target⟩, called⟩ := Option.ne_none_iff_exists'.mp calling
  have element := working.elements.called caller _ called
  cases target with
  | queue index => exact ⟨.pool (.push caller), trivial, trivial, task, index, called, element⟩
  | sentinel => exact element.elim

omit [Inhabited V] in
/-- A handle that some place has the control of names a frame. -/
theorem Tracks.occupied_frame (tracks : Tracks s strands) (synced : s.Synced threadCnt) {place : Place}
    (here : s.Occupies handle place) : s.pool.frames handle ≠ none := by
  obtain ⟨strand, stored, rfl, _⟩ := tracks.located here
  obtain ⟨frame, found, _⟩ := synced.unended tracks stored List.mem_cons_self
  simp [found]

omit [Inhabited V] in
/-- A worker with a task goes on, or the program has ended. -/
theorem Working.works (working : Working threadCnt s strands) (constructed : s.pool.currentQueue ≠ none)
    (ongoing : ¬ s.Terminated) (busy : s.pool.workers index ≠ .idle) :
    ∃ event : WorkersEvent A V E, Serving event ∧ s.Enabled threadCnt event := by
  obtain ⟨fresh, free⟩ := ThreadPool.exists_free (ThreadPool.identified_reachable working.synced.reached)
  cases worker : s.pool.workers index with
  | idle => exact absurd worker busy
  | popped entry => exact ⟨.resume index, trivial, entry, worker⟩
  | running entry =>
    by_cases calling : s.pool.calls (.worker index) = none
    · cases at_ : s.stage index with
      | loop => exact absurd worker ((working.synced.stages index).mp at_ entry)
      | adding handle =>
        have here : s.Occupies handle (.on index) := by simp [Workers.Occupies, at_, Stage.handle?]
        exact ⟨.schedule index, trivial, handle, at_, constructed, ⟨entry, worker⟩, calling,
          working.tracks.occupied_frame working.synced here⟩
      | inside control =>
        cases control with
        | running handle body =>
          exact ⟨.proceed index fresh, trivial, _, at_, Option.some_ne_none _, free⟩
        | resuming handle =>
          exact ⟨.proceed index fresh, trivial, _, at_, Option.some_ne_none _, free⟩
        | idle exit =>
          cases exit with
          | returns => exact ⟨.leave index, trivial, at_, ⟨entry, worker⟩, calling⟩
          | throws exception => exact absurd at_ (working.orderly.caught index exception)
          | terminates => exact absurd ⟨index, at_⟩ ongoing
        | undefined => exact absurd at_ (working.synced.defined index)
    · exact working.pushes calling

omit [Inhabited V] in
/-- A root that has not ended can go on, whichever place has its control. -/
theorem Working.goes_on (working : Working threadCnt s strands)
    (constructed : s.pool.currentQueue ≠ none) (ongoing : ¬ s.Terminated) (left : strands id ≠ none) :
    ∃ event : WorkersEvent A V E, Serving event ∧ s.Enabled threadCnt event := by
  obtain ⟨⟨place, strand⟩, stored⟩ := Option.ne_none_iff_exists'.mp left
  have here : s.Occupies strand.top place :=
    (working.tracks.occupied _ _).mpr ⟨id, by rw [stored]; rfl⟩
  cases place with
  | spawned thread =>
    have quiet := working.orderly.outside thread (by simp [show s.spawned thread = _ from here])
    exact ⟨.add thread, trivial, strand.top, here, constructed, trivial, quiet,
      working.tracks.occupied_frame working.synced here⟩
  | calling caller =>
    obtain ⟨target, called⟩ := here
    exact working.pushes (called ▸ Option.some_ne_none _)
  | queued index =>
    by_cases idle : s.pool.workers index = .idle
    · by_cases all : s.pool.registered = threadCnt
      · obtain ⟨entry, member, top⟩ := List.mem_map.mp here
        obtain ⟨bound, _⟩ := (ThreadPool.bound_reachable working.synced.reached).queued index entry member
        have element : index < s.pool.registered := working.elements.bound _ _ bound
        exact ⟨.pool (.pop index), trivial, trivial, all, all ▸ element, idle, fun empty => by
          simp [empty] at member⟩
      · refine ⟨.pool .register, trivial, trivial, ?_⟩
        change s.pool.registered < s.pool.launched
        have registered := working.staffed.registered
        have launched := working.staffed.constructed constructed
        omega
    · exact working.works constructed ongoing idle
  | popped index =>
    obtain ⟨entry, holding, _⟩ := here
    have busy : s.pool.workers index ≠ .idle := by simp [holding]
    exact working.works constructed ongoing busy
  | on index =>
    have inside : s.stage index ≠ .loop := (Stage.live here).1
    have busy : s.pool.workers index ≠ .idle := fun idle =>
      inside ((working.synced.stages index).mpr (by simp [idle]))
    exact working.works constructed ongoing busy

/-! A step of a worker or of a call leaves less to do. -/

omit [Inhabited V] in
theorem Sound.registers (sound : Sound threadCnt s strands) (staffed : s.pool.Staffed threadCnt)
    (enabled : (ThreadPool.machine threadCnt).enabled s.pool .register) (bound : Nat) :
    Serves threadCnt bound s strands
      (s.advance ((ThreadPool.machine threadCnt).next s.pool .register)) := by
  refine ⟨strands, sound.starts (.inr (.inl rfl)) enabled, fun within => ⟨within, ?_⟩⟩
  have registered : s.pool.registered < s.pool.launched := enabled
  have launched := staffed.launched
  have stage : (s.advance ((ThreadPool.machine threadCnt).next s.pool .register)).stage = s.stage := rfl
  have more : (s.advance ((ThreadPool.machine threadCnt).next s.pool .register)).pool.registered =
    s.pool.registered + 1 := rfl
  rw [effort, effort, stage, more]
  omega

omit [Inhabited V] in
theorem Sound.leaves (sound : Sound threadCnt s strands) (staffed : s.pool.Staffed threadCnt)
    (ended : s.stage index = .inside (.idle .returns))
    (enabled : (ThreadPool.machine threadCnt).enabled s.pool (.leave index)) (bound : Nat) :
    Serves threadCnt bound s strands (s.leave index) := by
  refine ⟨strands, sound.leave ended enabled, fun within => ⟨within, ?_⟩⟩
  obtain ⟨⟨entry, running⟩, _⟩ := enabled
  have inside : index ∈ Finset.range threadCnt :=
    Finset.mem_range.mpr (staffed.working index (by simp [running]))
  have same : ∀ id ∈ Finset.range bound,
      weight (s.leave index).stage (strands id) = weight s.stage (strands id) := by
    intro id _
    cases stored : strands id with
    | none => rfl
    | some located =>
      obtain ⟨place, strand⟩ := located
      have apart : place ≠ .on index := by
        rintro rfl
        have occupied : s.Occupies strand.top (.on index) :=
          (sound.tracks.occupied _ _).mpr ⟨id, by rw [stored]; rfl⟩
        simp [Workers.Occupies, ended, Stage.handle?, Control.handle?] at occupied
      have rank : place.rank (s.leave index).stage = place.rank s.stage :=
        Place.rank_elsewhere (fun _ other => Workers.setStage_elsewhere _ _ other) apart
      simp only [weight, rank]
  have others : ∀ other ∈ (Finset.range threadCnt).erase index,
      ((s.leave index).stage other).busy = (s.stage other).busy := fun other member =>
    congrArg Stage.busy (Workers.setStage_elsewhere _ _ (Finset.ne_of_mem_erase member))
  have here : ((s.leave index).stage index).busy = 0 := by simp [Workers.leave, Stage.busy]
  have before : (s.stage index).busy = 1 := by simp [ended, Stage.busy]
  have registered : (s.leave index).pool.registered = s.pool.registered := rfl
  rw [effort, effort, Finset.sum_congr rfl same, registered, ← Finset.add_sum_erase _ _ inside,
    ← Finset.add_sum_erase _ _ inside, Finset.sum_congr rfl others, here, before]
  omega

theorem Sound.serving (sound : Sound threadCnt s strands) (staffed : s.pool.Staffed threadCnt)
    {event : WorkersEvent A V E} (serves : Serving event) (enabled : s.Enabled threadCnt event)
    (bound : Nat) : Serves threadCnt bound s strands (s.step threadCnt event) := by
  cases event with
  | pool event =>
    obtain ⟨plain, enabled⟩ := enabled
    cases event with
    | register => exact sound.registers staffed enabled bound
    | push caller => exact sound.push enabled bound
    | pop index => exact sound.pop enabled bound
    | _ => exact serves.elim
  | spawn thread task body detached => exact serves.elim
  | add thread =>
    obtain ⟨task, spawned, enabled⟩ := enabled
    simp only [Workers.step, spawned]
    exact sound.add spawned enabled bound
  | resume index =>
    obtain ⟨entry, holding⟩ := enabled
    simp only [Workers.step, holding, Worker.entry]
    exact sound.resume holding bound
  | proceed index fresh =>
    obtain ⟨control, here, busy, free⟩ := enabled
    simp only [Workers.step, here]
    exact sound.proceed here busy free bound
  | schedule index =>
    obtain ⟨handle, here, enabled⟩ := enabled
    simp only [Workers.step, here]
    exact sound.schedule here enabled bound
  | leave index => exact sound.leaves staffed enabled.1 enabled.2 bound

/-- The bodies of the roots are what they were. -/
theorem serving_bodies {event : WorkersEvent A V E} (serves : Serving event) :
    (s.step threadCnt event).bodies = s.bodies := by
  cases event with
  | pool event => rfl
  | spawn thread task body detached => exact serves.elim
  | add thread =>
    simp only [Workers.step]
    split <;> rfl
  | resume index =>
    simp only [Workers.step]
    split <;> rfl
  | proceed index fresh =>
    simp only [Workers.step]
    split
    · exact (s.proceed_calls index fresh _).2.2.1
    · rfl
    · rfl
  | schedule index =>
    simp only [Workers.step]
    split <;> rfl
  | leave index => rfl

/-- What the end of the constructor has given the pool stays. -/
theorem Sound.constructed_step (sound : Sound threadCnt s strands) {event : WorkersEvent A V E}
    (enabled : s.Enabled threadCnt event) (populated : s.Populated event)
    (constructed : s.pool.currentQueue ≠ none) :
    (s.step threadCnt event).pool.currentQueue ≠ none := by
  obtain ⟨events, allowed, same⟩ := sound.pool_step enabled populated
  rw [same]
  exact Machine.state_invariant (fun pool => pool.currentQueue ≠ none) constructed
    (fun _ event before _ => ThreadPool.constructed_step threadCnt event before)
    events allowed

/-- Once the constructor has ended, the workers and the calls of `addTask` can take only so
many steps, in any order, until threads spawn more roots; and where they can take none, each
root has ended as its body does when each await is a call, unless the program has ended. -/
theorem roots_are_served (threadCnt : Nat) (s : Workers A V E)
    (reached : ((workers A V E threadCnt).restrict Workers.Populated).Reachable {} s)
    (constructed : s.pool.currentQueue ≠ none) :
    ∃ bound, ∀ events, (serving A V E threadCnt).Allowed s events →
      events.length ≤ bound ∧
        ((∀ event, ¬ (serving A V E threadCnt).enabled
            ((serving A V E threadCnt).exec s events) event) →
          ((serving A V E threadCnt).exec s events).Terminated ∨
            ∀ id body, s.bodies id = some body →
              ((serving A V E threadCnt).exec s events).reports id =
                body.actions.map .acts ++ [.ends body.eval]) := by
  obtain ⟨strands, working⟩ := working_reachable reached
  have within : ∀ id, strands id ≠ none → id < s.pool.nextFrame := by
    intro id known
    obtain ⟨⟨outcome, actions⟩, left⟩ := Option.ne_none_iff_exists'.mp (account_none.not.mpr known)
    obtain ⟨body, spawned, _⟩ := working.accounted.ongoing id outcome actions left
    exact working.accounted.known id (spawned ▸ Option.some_ne_none _)
  let Left (later : Workers A V E) (left : Nat) : Prop :=
    ((workers A V E threadCnt).restrict Workers.Populated).Reachable {} later ∧
      later.pool.currentQueue ≠ none ∧ later.bodies = s.bodies ∧
      ∃ strands, Sound threadCnt later strands ∧ (∀ id, strands id ≠ none → id < s.pool.nextFrame) ∧
        effort threadCnt s.pool.nextFrame later strands = left
  have decreases : ∀ later left event, Left later left → (serving A V E threadCnt).enabled later event →
      ∃ fewer, fewer < left ∧ Left ((serving A V E threadCnt).next later event) fewer := by
    rintro later _ event ⟨arrived, begun, bodies, strands, sound, below, rfl⟩ ⟨⟨ongoing, enabled⟩, serves⟩
    have staffed := ThreadPool.staffed_reachable sound.synced.reached
    obtain ⟨strands', sound', lighter⟩ := sound.serving staffed serves enabled s.pool.nextFrame
    obtain ⟨below', less⟩ := lighter below
    have populated : later.Populated event := serving_populated serves
    exact ⟨_, less, arrived.next event ⟨⟨ongoing, enabled⟩, populated⟩,
      sound.constructed_step enabled populated begun, (serving_bodies serves).trans bodies, strands',
      sound', below', rfl⟩
  refine ⟨effort threadCnt s.pool.nextFrame s strands, fun events allowed => ?_⟩
  obtain ⟨bounded, fewer, arrived, begun, bodies, _⟩ := Machine.run_bounded Left decreases
    ⟨reached, constructed, rfl, strands, working.toSound, within, rfl⟩ allowed
  refine ⟨bounded, fun stuck => or_iff_not_imp_left.mpr fun ongoing id body spawned => ?_⟩
  obtain ⟨strands_, working_⟩ := working_reachable arrived
  refine working_.accounted.ended id body (bodies ▸ spawned) ?_
  by_contra left
  obtain ⟨event, serves, enabled⟩ := working_.goes_on begun ongoing left
  exact stuck event ⟨⟨ongoing, enabled⟩, serves⟩

/-- A root that awaits and suspends, spawned when the constructor has ended. -/
theorem one_root_is_served :
    let s := (workers Nat Nat Nat 1).exec {} [.pool .launch, .pool .register, .pool .construct,
      .spawn 0 7 nestedRoot true]
    s.bodies 0 = some nestedRoot ∧
      ∃ bound, ∀ events, (serving Nat Nat Nat 1).Allowed s events →
        events.length ≤ bound ∧
          ((∀ event, ¬ (serving Nat Nat Nat 1).enabled ((serving Nat Nat Nat 1).exec s events) event) →
            ((serving Nat Nat Nat 1).exec s events).Terminated ∨
              ∀ id body, s.bodies id = some body →
                ((serving Nat Nat Nat 1).exec s events).reports id =
                  body.actions.map .acts ++ [.ends body.eval]) := by
  intro s
  refine ⟨rfl, roots_are_served 1 s ⟨_, ?_, rfl⟩ (Option.some_ne_none _)⟩
  refine ⟨⟨⟨?_, trivial, Nat.one_pos, rfl⟩, trivial⟩, ⟨⟨?_, trivial, Nat.one_pos⟩, trivial⟩,
    ⟨⟨?_, trivial, rfl, rfl⟩, Nat.le_refl 1⟩, ⟨⟨?_, rfl, rfl, rfl⟩, trivial⟩, trivial⟩
  all_goals exact unterminated (fun ended => by cases ended) fun _ => rfl

end CoroMultiplex.Async
