import CoroMultiplex.Epoll.Registration
import CoroMultiplex.Pool.Staffing

/-! What the epoll loops hand to the pool.

A pass waits until no worker is inside `runTasks`, so no frame goes between the call of
`epoll_wait` and the last `addTask` of its round.
-/

set_option autoImplicit false

namespace CoroMultiplex.Epoll

open Foundations Pool Async

variable {Handle : Type}

namespace Reactor

/-- The address names the live frame of a client's handler or of an accept loop. -/
def Names (self : Reactor Handle) (task : Handle) : Prop :=
  ∃ id, self.pool.frameId task = some id ∧
    ((∃ connection ∈ self.connections, connection.task = task ∧ connection.frame = id) ∨
      ∃ server, self.role task = .acceptAll server)

/-- A worker is in a round, and every entry that it has yet to read names a live frame. -/
structure Looping (state : Reactor Handle) (task : Handle) (i : Nat) (fds : Int) : Prop where
  watched : ∃ index, state.running? index = some task ∧ state.stage index = .watching
  counted : ∃ count : Nat, fds = count ∧ i ≤ count ∧ count ≤ maxevents
  entries : ∀ place : Nat, i ≤ place → place < fds →
    ∃ added, (state.waits task).events place = some added ∧ state.Names added

structure Steady (state : Reactor Handle) : Prop where
  identified : state.pool.Identified
  running : ∀ index, state.stage index ≠ .loop → ∃ entry, state.pool.workers index = .running entry
  -- the loops never end
  roles : ∀ task, state.role task ≠ .other → ∃ id, state.pool.frames task = some { id := id }
  older : ∀ connection ∈ state.connections, connection.frame < state.pool.nextFrame
  living : ∀ connection ∈ state.connections, connection.owners ≠ [] →
    state.pool.frameId connection.task = some connection.frame
  looping : ∀ task i fds, (state.waits task).point = .looping i fds → state.Looping task i fds

/-- What every step but a pass does with the frames. -/
structure Onward (before after : Reactor Handle) : Prop where
  identified : after.pool.Identified
  named : ∀ task id, before.pool.frameId task = some id → after.pool.frameId task = some id
  nextFrame : before.pool.nextFrame ≤ after.pool.nextFrame
  role : ∀ task, before.role task ≠ .other → after.role task = before.role task
  roles : ∀ task, after.role task ≠ .other → ∃ id, after.pool.frames task = some { id := id }
  kept : ∀ connection ∈ before.connections, ∃ still ∈ after.connections,
    still.task = connection.task ∧ still.frame = connection.frame
  known : ∀ connection ∈ after.connections,
    (∃ old ∈ before.connections, connection.task = old.task ∧ connection.frame = old.frame ∧
      (connection.owners ≠ [] → old.owners ≠ [])) ∨
    connection.frame < after.pool.nextFrame ∧
      after.pool.frameId connection.task = some connection.frame

variable {self other : Reactor Handle}

theorem Names.onward {task : Handle} (names : self.Names task) (onward : Onward self other) :
    other.Names task := by
  obtain ⟨id, named, ⟨connection, member, rfl, rfl⟩ | ⟨server, role⟩⟩ := names
  · obtain ⟨still, inside, same, frame⟩ := onward.kept connection member
    exact ⟨_, onward.named _ _ named, .inl ⟨still, inside, same, frame⟩⟩
  · have stays := onward.role task (by simp [role])
    exact ⟨id, onward.named _ _ named, .inr ⟨server, stays.trans role⟩⟩

theorem Looping.onward {task : Handle} {i : Nat} {fds : Int} (looping : self.Looping task i fds)
    (onward : Onward self other) (waits : other.waits task = self.waits task)
    (watched : ∀ index, self.running? index = some task → self.stage index = .watching →
      other.running? index = some task ∧ other.stage index = .watching) : other.Looping task i fds where
  watched := by
    obtain ⟨index, runs, point⟩ := looping.watched
    exact ⟨index, watched index runs point⟩
  counted := looping.counted
  entries place after below := by
    obtain ⟨added, entry, names⟩ := looping.entries place after below
    exact ⟨added, by rw [waits, entry], names.onward onward⟩

theorem Steady.onward (steady : self.Steady) (onward : Onward self other)
    (running : ∀ index, other.stage index ≠ .loop → ∃ entry, other.pool.workers index = .running entry)
    (looping : ∀ task i fds, (other.waits task).point = .looping i fds → other.Looping task i fds) :
    other.Steady where
  identified := onward.identified
  running := running
  roles := onward.roles
  older connection member := by
    rcases onward.known connection member with ⟨old, inside, -, frame, -⟩ | ⟨younger, -⟩
    · rw [frame]
      exact (steady.older old inside).trans_le onward.nextFrame
    · exact younger
  living connection member owned := by
    rcases onward.known connection member with ⟨old, inside, task, frame, before⟩ | ⟨-, named⟩
    · rw [task, frame]
      exact onward.named _ _ (steady.living old inside (before owned))
    · exact named
  looping := looping

/-- The steps in which the pool stands still. -/
theorem Steady.still (steady : self.Steady) (pool : other.pool = self.pool) (role : other.role = self.role)
    (kept : ∀ connection ∈ self.connections, ∃ still ∈ other.connections,
      still.task = connection.task ∧ still.frame = connection.frame)
    (known : ∀ connection ∈ other.connections, ∃ old ∈ self.connections,
      connection.task = old.task ∧ connection.frame = old.frame ∧
        (connection.owners ≠ [] → old.owners ≠ [])) : Onward self other where
  identified := pool ▸ steady.identified
  named _ _ named := pool ▸ named
  nextFrame := pool ▸ Nat.le_refl _
  role task _ := role ▸ rfl
  roles := by
    rw [pool, role]
    exact steady.roles
  kept := kept
  known connection member := .inl (known connection member)

theorem running?_eq_some {index : Nat} {task : Handle} (runs : self.running? index = some task) :
    ∃ entry, self.pool.workers index = .running entry ∧ entry.task = task := by
  unfold running? at runs
  split at runs
  · rename_i entry running
    exact ⟨entry, running, Option.some.inj runs⟩
  · cases runs
  · cases runs

theorem running?_of_workers {index : Nat} {entry : Entry Handle}
    (running : self.pool.workers index = .running entry) : self.running? index = some entry.task := by
  simp [running?, running]

variable [DecidableEq Handle] {threadCnt : Nat}

/-- The steps of the pool other than a pass. -/
theorem Steady.advance (steady : self.Steady) {event : Pool.Event Handle}
    (enabled : (ThreadPool.machine threadCnt).enabled self.pool event)
    (notClean : ∀ order, event ≠ .clean order)
    (spares : ∀ task, event = .finish task → self.role task = .other)
    (pool : other.pool = (ThreadPool.machine threadCnt).next self.pool event)
    (role : ∀ task, other.role task = self.role task ∨
      self.role task = .other ∧ ∃ id, other.pool.frames task = some { id := id })
    (kept : ∀ connection ∈ self.connections, connection ∈ other.connections)
    (known : ∀ connection ∈ other.connections, connection ∈ self.connections ∨
      connection.frame < other.pool.nextFrame ∧
        other.pool.frameId connection.task = some connection.frame) : Onward self other where
  identified := by
    rw [pool]
    exact ThreadPool.identified_step steady.identified
  named task id named := by
    rw [pool]
    exact ThreadPool.named_kept enabled notClean named
  nextFrame := by
    rw [pool]
    exact ThreadPool.nextFrame_step threadCnt self.pool event
  role task loop := (role task).resolve_right fun fresh => loop fresh.1
  roles task loop := by
    rcases role task with same | ⟨-, fresh⟩
    · rw [same] at loop
      obtain ⟨id, frame⟩ := steady.roles task loop
      refine ⟨id, ?_⟩
      rw [pool]
      exact ThreadPool.frames_kept enabled notClean frame fun ends => loop (spares task ends)
    · exact fresh
  kept connection member := ⟨connection, kept connection member, rfl, rfl⟩
  known connection member :=
    (known connection member).imp_left fun old => ⟨connection, old, rfl, rfl, id⟩

theorem running?_advance {event : Pool.Event Handle}
    (enabled : (ThreadPool.machine threadCnt).enabled self.pool event)
    (pool : other.pool = (ThreadPool.machine threadCnt).next self.pool event) {index : Nat} {task : Handle}
    (runs : self.running? index = some task) (stays : event ≠ .leave index) :
    other.running? index = some task := by
  obtain ⟨entry, running, rfl⟩ := running?_eq_some runs
  apply running?_of_workers
  rw [pool]
  exact ThreadPool.running_kept enabled running stays

omit [DecidableEq Handle] in
/-- The workers stay where they are, but for one that is in neither a round nor its own loop. -/
theorem Steady.turn (steady : self.Steady) (onward : Onward self other) {index : Nat}
    (active : self.stage index ≠ .loop) (unwatched : self.stage index ≠ .watching)
    (waits : other.waits = self.waits)
    (workers : ∀ place entry, self.pool.workers place = .running entry →
      other.pool.workers place = .running entry)
    (stage : ∀ place, place ≠ index → other.stage place = self.stage place) : other.Steady := by
  refine steady.onward onward ?_ ?_
  · intro place busy
    have before : self.stage place ≠ .loop := by
      by_cases here : place = index
      · exact here ▸ active
      · exact stage place here ▸ busy
    obtain ⟨entry, running⟩ := steady.running place before
    exact ⟨entry, workers place entry running⟩
  · intro task i fds point
    rw [waits] at point
    refine (steady.looping task i fds point).onward onward (congrFun waits task) ?_
    intro place runs watching
    obtain ⟨entry, running, rfl⟩ := running?_eq_some runs
    have apart : place ≠ index := by
      rintro rfl
      exact unwatched watching
    exact ⟨running?_of_workers (workers place entry running), (stage place apart).trans watching⟩

omit [DecidableEq Handle] in
/-- The workers stay where they are. -/
theorem Steady.rest (steady : self.Steady) (onward : Onward self other)
    (stage : other.stage = self.stage)
    (waits : ∀ task, other.waits task = self.waits task ∨ (other.waits task).point = .waiting)
    (workers : ∀ place entry, self.pool.workers place = .running entry →
      other.pool.workers place = .running entry) : other.Steady := by
  refine steady.onward onward ?_ ?_
  · intro place busy
    rw [stage] at busy
    obtain ⟨entry, running⟩ := steady.running place busy
    exact ⟨entry, workers place entry running⟩
  · intro task i fds point
    rcases waits task with same | waiting
    · rw [same] at point
      refine (steady.looping task i fds point).onward onward same ?_
      intro place runs watching
      obtain ⟨entry, running, rfl⟩ := running?_eq_some runs
      exact ⟨running?_of_workers (workers place entry running), (congrFun stage place).trans watching⟩
    · rw [waiting] at point
      cases point

/-- What holds in every state of a run. -/
structure Orderly (state : Reactor Handle) : Prop where
  booked : state.Booked
  steady : state.Steady

theorem Orderly.pool (orderly : self.Orderly) {event : Pool.Event Handle} (plain : self.Plain event)
    (enabled : (ThreadPool.machine threadCnt).enabled self.pool event) :
    ({ self with pool := (ThreadPool.machine threadCnt).next self.pool event } : Reactor Handle).Orderly where
  booked := orderly.booked.same rfl rfl rfl rfl rfl
  steady := by
    have notClean : ∀ order, event ≠ .clean order := by rintro order rfl; exact plain
    refine orderly.steady.rest (orderly.steady.advance enabled notClean ?_ rfl (fun _ => .inl rfl)
      (fun _ member => member) (fun _ member => .inl member)) rfl (fun _ => .inl rfl) ?_
    · rintro task rfl
      exact plain
    · intro place entry running
      refine ThreadPool.running_kept enabled running ?_
      rintro rfl
      exact plain

omit [DecidableEq Handle] in
/-- A free address is not that of a loop. -/
theorem Steady.unassigned (steady : self.Steady) {task : Handle} (free : self.pool.frames task = none) :
    self.role task = .other := by
  by_contra loop
  obtain ⟨id, frame⟩ := steady.roles task loop
  rw [free] at frame
  cases frame

theorem create_frames (pool : ThreadPool Handle) (task : Handle) :
    (pool.create task).frames task = some { id := pool.nextFrame } := Function.update_self ..

/-- A loop is called, at a free address. -/
theorem Steady.call (steady : self.Steady) {task : Handle} {role : Role}
    (free : self.pool.frames task = none) (pool : other.pool = self.pool.create task)
    (roles : other.role = Function.update self.role task role)
    (connections : other.connections = self.connections) : Onward self other := by
  have enabled : (ThreadPool.machine 0).enabled self.pool (.create task) := free
  refine steady.advance enabled (by simp) (by simp) pool ?_ ?_ ?_
  · intro place
    rw [roles, pool]
    by_cases here : place = task
    · subst here
      exact .inr ⟨steady.unassigned free, _, create_frames self.pool place⟩
    · exact .inl (Function.update_of_ne here ..)
  · exact fun connection member => connections ▸ member
  · exact fun connection member => .inl (connections ▸ member)

theorem create_running {pool : ThreadPool Handle} (task : Handle) (index : Nat) (entry : Entry Handle)
    (running : pool.workers index = .running entry) :
    (pool.create task).workers index = .running entry := running

theorem Orderly.listen (orderly : self.Orderly) {server : Nat} {task : Handle}
    (closed : self.isOpen server = false) (free : self.pool.frames task = none) :
    (self.listen server task).Orderly where
  booked := orderly.booked.listen closed (orderly.steady.unassigned free)
  steady := orderly.steady.rest (orderly.steady.call free rfl rfl rfl) rfl (fun _ => .inl rfl)
    (create_running task)

theorem Orderly.watch (orderly : self.Orderly) {task : Handle} (free : self.pool.frames task = none) :
    (self.watch task).Orderly where
  booked := orderly.booked.watch (orderly.steady.unassigned free)
  steady := by
    refine orderly.steady.rest (orderly.steady.call free rfl rfl rfl) rfl ?_ (create_running task)
    intro place
    by_cases here : place = task
    · subst here
      have starts : (self.watch place).waits place = { results := [] } := Function.update_self ..
      exact .inr (congrArg EpollWait.point starts)
    · exact .inl (Function.update_of_ne here ..)

omit [DecidableEq Handle] in
theorem Orderly.register (orderly : self.Orderly) {server : Nat} {task : Handle}
    (role : self.role task = .acceptAll server) (free : self.interest server = none) :
    (self.register task).Orderly where
  booked := orderly.booked.register role free
  steady := by
    have registers : self.register task =
        { self with interest := Function.update self.interest server (some task) } := by
      simp [Reactor.register, role]
    rw [registers]
    exact orderly.steady.rest (orderly.steady.still rfl rfl (fun connection member =>
      ⟨connection, member, rfl, rfl⟩) (fun connection member => ⟨connection, member, rfl, rfl, id⟩))
      rfl (fun _ => .inl rfl) (fun _ _ running => running)

omit [DecidableEq Handle] in
theorem Orderly.share (orderly : self.Orderly) {frame : Nat} (id : Nat)
    (shared : ∃ connection ∈ self.connections, connection.frame = frame ∧ connection.owners ≠ []) :
    (self.share frame id).Orderly where
  booked := orderly.booked.share id shared
  steady := by
    refine orderly.steady.rest (orderly.steady.still rfl rfl ?_ ?_) rfl (fun _ => .inl rfl)
      (fun _ _ running => running)
    · intro connection member
      exact ⟨_, List.mem_map_of_mem member, connection.copy_task frame id, connection.copy_frame frame id⟩
    · intro connection member
      obtain ⟨old, inside, rfl⟩ := List.mem_map.mp member
      exact ⟨old, inside, old.copy_task frame id, old.copy_frame frame id, fun owned empty =>
        owned ((orderly.booked.copy_owners id shared inside).mpr empty)⟩

omit [DecidableEq Handle] in
/-- Pointers go, and frames stay. -/
theorem Steady.release (steady : self.Steady) (left : Connection Handle → List Owner)
    (fewer : ∀ connection ∈ self.connections, left connection ≠ [] → connection.owners ≠ []) :
    Onward self (self.release left) := by
  refine steady.still rfl rfl ?_ ?_
  · intro connection member
    exact ⟨_, List.mem_map_of_mem member, rfl, rfl⟩
  · intro connection member
    obtain ⟨old, inside, rfl⟩ := List.mem_map.mp member
    exact ⟨old, inside, rfl, rfl, fewer old inside⟩

omit [DecidableEq Handle] in
theorem Orderly.drop (orderly : self.Orderly) (frame id : Nat) :
    (self.drop frame (.frame id)).Orderly where
  booked := orderly.booked.drop frame (.frame id) (by simp)
  steady := orderly.steady.rest (orderly.steady.release _ fun connection _ => drop_fewer frame _ connection)
    rfl (fun _ => .inl rfl) (fun _ _ running => running)

omit [DecidableEq Handle] in
theorem Steady.alike (steady : self.Steady) (pool : other.pool = self.pool)
    (role : other.role = self.role) (connections : other.connections = self.connections) :
    Onward self other :=
  steady.still pool role (fun connection member => ⟨connection, connections ▸ member, rfl, rfl⟩)
    fun connection member => ⟨connection, connections ▸ member, rfl, rfl, id⟩

theorem Orderly.accept (orderly : self.Orderly) {index : Nat} (accepting : self.stage index = .accepting)
    (result : Except Nat Nat) (closed : ∀ clientfd, result = .ok clientfd → self.isOpen clientfd = false) :
    (self.accept index result).Orderly where
  booked := orderly.booked.accept accepting result closed
  steady := by
    have active : self.stage index ≠ .loop := by simp [accepting]
    have unwatched : self.stage index ≠ .watching := by simp [accepting]
    cases result with
    | ok clientfd =>
      exact orderly.steady.turn (orderly.steady.alike rfl rfl rfl) active unwatched rfl
        (fun _ _ running => running) (fun _ apart => Function.update_of_ne apart ..)
    | error errno =>
      rcases self.accept_error index errno with suspends | throws
      · rw [suspends]
        exact orderly.steady.turn (orderly.steady.alike rfl rfl rfl) active unwatched rfl
          (fun _ _ running => running) (fun _ apart => Function.update_of_ne apart ..)
      · rw [throws]
        exact orderly.steady.rest (orderly.steady.alike rfl rfl rfl) rfl (fun _ => .inl rfl)
          (fun _ _ running => running)

theorem Orderly.construct (orderly : self.Orderly) {index clientfd : Nat}
    (accepted : self.stage index = .accepted clientfd) (succeeds : Bool) :
    (self.construct index clientfd succeeds).Orderly where
  booked := orderly.booked.construct accepted succeeds
  steady := by
    have active : self.stage index ≠ .loop := by simp [accepted]
    have unwatched : self.stage index ≠ .watching := by simp [accepted]
    cases succeeds <;>
      exact orderly.steady.turn (orderly.steady.alike rfl rfl rfl) active unwatched rfl
        (fun _ _ running => running) (fun _ apart => Function.update_of_ne apart ..)

theorem Orderly.handle (orderly : self.Orderly) {index clientfd : Nat} {task : Handle}
    (constructed : self.stage index = .constructed clientfd) (free : self.pool.frames task = none) :
    (self.handle index clientfd task).Orderly where
  booked := orderly.booked.handle constructed orderly.steady.older task
  steady := by
    have enabled : (ThreadPool.machine 0).enabled self.pool (.create task) := free
    have onward : Onward self (self.handle index clientfd task) := by
      refine orderly.steady.advance enabled (by simp) (by simp) rfl (fun _ => .inl rfl) ?_ ?_
      · exact fun connection member => List.mem_append_left _ member
      · intro connection member
        refine (List.mem_append.mp member).imp_right fun new => ?_
        obtain rfl := List.mem_singleton.mp new
        exact ⟨Nat.lt_succ_self _, congrArg (Option.map Frame.id) (create_frames self.pool task)⟩
    exact orderly.steady.turn onward (by simp [constructed]) (by simp [constructed]) rfl
      (create_running task) (fun _ apart => Function.update_of_ne apart ..)

theorem Orderly.addEvent (orderly : self.Orderly) {index clientfd frame : Nat} {task : Handle}
    (handled : self.stage index = .handled clientfd task frame) (succeeds : Bool) :
    (self.addEvent index clientfd task frame succeeds).Orderly where
  booked := orderly.booked.addEvent handled succeeds
  steady := by
    cases succeeds with
    | false =>
      exact orderly.steady.rest (orderly.steady.alike rfl rfl rfl) rfl (fun _ => .inl rfl)
        (fun _ _ running => running)
    | true =>
      have onward : Onward self (self.addEvent index clientfd task frame true) :=
        orderly.steady.still rfl rfl
          (fun connection member => ⟨_, List.mem_map_of_mem member, rfl, rfl⟩) (by
            intro connection member
            obtain ⟨old, inside, rfl⟩ := List.mem_map.mp member
            exact ⟨old, inside, rfl, rfl, drop_fewer frame (.acceptAll index) old⟩)
      exact orderly.steady.turn onward (by simp [handled]) (by simp [handled]) rfl
        (fun _ _ running => running) (fun _ apart => Function.update_of_ne apart ..)

/-- A worker that has popped a task is in its own loop. -/
theorem Steady.popped (steady : self.Steady) {index : Nat} {entry : Entry Handle}
    (popped : self.pool.workers index = .popped entry) : self.stage index = .loop := by
  by_contra busy
  obtain ⟨other, running⟩ := steady.running index busy
  rw [popped] at running
  cases running

theorem Orderly.resume (orderly : self.Orderly) {index : Nat} {entry : Entry Handle}
    (popped : self.pool.workers index = .popped entry) : (self.resume index entry.task).Orderly := by
  have loop := orderly.steady.popped popped
  have enabled : (ThreadPool.machine 0).enabled self.pool (.resume index) := ⟨entry, popped⟩
  have onward : Onward self (self.resume index entry.task) :=
    orderly.steady.advance enabled (by simp) (by simp) rfl (fun _ => .inl rfl)
      (fun _ member => member) (fun _ member => .inl member)
  have elsewhere : ∀ place, place ≠ index →
      (self.resume index entry.task).stage place = self.stage place :=
    fun place apart => Function.update_of_ne apart ..
  constructor
  · have same : ({ self with pool := self.pool.resume index } : Reactor Handle).Booked :=
      orderly.booked.same rfl rfl rfl rfl rfl
    have idle : (self.stage index).fd? = none := by simp [loop, Stage.fd?]
    have apart : ∀ clientfd task frame, self.stage index ≠ .handled clientfd task frame := by simp [loop]
    change ({ self with pool := self.pool.resume index }.setStage index
      (if self.pool.isDone entry.task then .loop else (self.role entry.task).enter)).Booked
    cases self.pool.isDone entry.task with
    | true => exact same.goOn apart (by simp) idle.symm
    | false =>
      exact same.goOn apart (self.role entry.task).enter_ne_handled
        ((self.role entry.task).enter_fd?.trans idle.symm)
  · refine orderly.steady.onward onward ?_ ?_
    · intro place busy
      by_cases here : place = index
      · subst here
        cases done : self.pool.isDone entry.task with
        | true =>
          refine absurd ?_ busy
          change Function.update self.stage place _ place = _
          rw [Function.update_self, if_pos done]
        | false =>
          refine ⟨entry, ?_⟩
          change (self.pool.resume place).workers place = _
          rw [ThreadPool.resume_pending popped done]
          exact Function.update_self ..
      · rw [elsewhere place here] at busy
        obtain ⟨other, running⟩ := orderly.steady.running place busy
        exact ⟨other, ThreadPool.running_kept enabled running (by simp)⟩
    · intro task i fds point
      refine (orderly.steady.looping task i fds point).onward onward rfl ?_
      intro place runs watching
      have apart : place ≠ index := by
        rintro rfl
        rw [loop] at watching
        cases watching
      exact ⟨running?_advance enabled rfl runs (by simp), (elsewhere place apart).trans watching⟩

theorem Orderly.leave (orderly : self.Orderly) {index : Nat}
    (ends : self.stage index = .inside ∨ self.stage index = .suspended)
    (enabled : (ThreadPool.machine threadCnt).enabled self.pool (.leave index)) :
    (self.leave index).Orderly := by
  have elsewhere : ∀ place, place ≠ index → (self.leave index).stage place = self.stage place :=
    fun place apart => Function.update_of_ne apart ..
  have here : (self.leave index).stage index = .loop := Function.update_self ..
  have onward : Onward self (self.leave index) :=
    orderly.steady.advance enabled (by simp) (by simp) rfl (fun _ => .inl rfl)
      (fun _ member => member) (fun _ member => .inl member)
  constructor
  · have same : ({ self with pool := self.pool.leave index } : Reactor Handle).Booked :=
      orderly.booked.same rfl rfl rfl rfl rfl
    rcases ends with point | point <;>
      exact same.goOn (by simp [point]) (by simp) (by simp [point, Stage.fd?])
  · refine orderly.steady.onward onward ?_ ?_
    · intro place busy
      have apart : place ≠ index := by
        rintro rfl
        exact busy here
      rw [elsewhere place apart] at busy
      obtain ⟨entry, running⟩ := orderly.steady.running place busy
      refine ⟨entry, ThreadPool.running_kept enabled running ?_⟩
      rintro same
      cases same
      exact apart rfl
    · intro task i fds point
      refine (orderly.steady.looping task i fds point).onward onward rfl ?_
      intro place runs watching
      have apart : place ≠ index := by
        rintro rfl
        rcases ends with point | point <;> rw [point] at watching <;> cases watching
      refine ⟨running?_advance enabled rfl runs ?_, (elsewhere place apart).trans watching⟩
      rintro same
      cases same
      exact apart rfl

omit [DecidableEq Handle] in
/-- What epoll watches names a live frame. -/
theorem Orderly.names (orderly : self.Orderly) {fd : Nat} {task : Handle}
    (interest : self.interest fd = some task) : self.Names task := by
  rcases orderly.booked.known fd task interest with ⟨connection, member, owned, -, rfl⟩ | role
  · exact ⟨_, orderly.steady.living connection member owned, .inl ⟨connection, member, rfl, rfl⟩⟩
  · obtain ⟨id, frame⟩ := orderly.steady.roles task (by simp [role])
    exact ⟨id, congrArg (Option.map Frame.id) frame, .inr ⟨fd, role⟩⟩

/-- A round begins with what the kernel reports. -/
theorem Orderly.wait (orderly : self.Orderly) {index : Nat} {task : Handle} {handles : List Handle}
    (fits : handles.length ≤ maxevents) (point : self.stage index = .watching)
    (runs : self.running? index = some task) (waiting : (self.waits task).point = .waiting)
    (reported : ∀ added ∈ handles, ∃ fd, self.interest fd = some added) :
    (self.wait task (.ready handles fits)).Orderly where
  booked := orderly.booked.same rfl rfl rfl rfl rfl
  steady := by
    have onward : Onward self (self.wait task (.ready handles fits)) :=
      orderly.steady.alike rfl rfl rfl
    refine orderly.steady.onward onward orderly.steady.running ?_
    intro place i fds looping
    by_cases here : place = task
    · subst here
      have begins : (self.wait place (.ready handles fits)).waits place =
          { self.waits place with
            point := .looping 0 handles.length
            events := (WaitResult.ready handles fits).fill (self.waits place).events
            results := [] } := by
        simp [Reactor.wait, EpollWait.proceed, waiting, WaitResult.fds]
      rw [begins] at looping
      obtain ⟨rfl, rfl⟩ := WaitPoint.looping.inj looping
      refine ⟨⟨index, runs, point⟩, ⟨handles.length, rfl, Nat.zero_le _, fits⟩, ?_⟩
      intro cell _ below
      have inside : cell < handles.length := by omega
      obtain ⟨fd, interest⟩ := reported handles[cell] (List.getElem_mem inside)
      refine ⟨handles[cell], ?_, (orderly.names interest).onward onward⟩
      rw [begins]
      change (handles[cell]?).or _ = _
      rw [List.getElem?_eq_getElem inside, Option.some_or]
    · have same : (self.wait task (.ready handles fits)).waits place = self.waits place :=
        Function.update_of_ne here ..
      rw [same] at looping
      exact (orderly.steady.looping place i fds looping).onward onward same
        fun _ runs watching => ⟨runs, watching⟩

omit [DecidableEq Handle] in
/-- What is added next is an entry, and the round goes on, or the loop itself, and it ends. -/
theorem next?_cases {wait : EpollWait Handle} {task added : Handle}
    (next : next? wait task = some added) : ∃ i fds, wait.point = .looping i fds ∧
      (i ≠ fds ∧ wait.proceed.point = .looping (i + 1) fds ∧ wait.proceed.events = wait.events ∨
        wait.proceed.point = .waiting) := by
  cases point : wait.point with
  | waiting => simp [next?, point] at next
  | undefined => simp [next?, point] at next
  | looping i fds =>
    refine ⟨i, fds, rfl, ?_⟩
    by_cases last : i = fds
    · exact .inr (by simp [EpollWait.proceed, point, last])
    · have cell : wait.cell? i = some added := by simpa [next?, point, last] using next
      exact .inl ⟨last, by simp [EpollWait.proceed, point, last, cell],
        by simp [EpollWait.proceed, point, last, cell]⟩

/-- The loop adds an entry, or ends its round. -/
theorem Orderly.dispatch (orderly : self.Orderly) {index : Nat} {task added : Handle}
    (point : self.stage index = .watching) (runs : self.running? index = some task)
    (next : next? (self.waits task) task = some added)
    (enabled : (ThreadPool.machine threadCnt).enabled self.pool (.bind (.worker index) added)) :
    (self.dispatch index task added).Orderly := by
  have pool : (self.dispatch index task added).pool =
      (ThreadPool.machine threadCnt).next self.pool (.bind (.worker index) added) := rfl
  have onward : Onward self (self.dispatch index task added) :=
    orderly.steady.advance enabled (by simp) (by simp) pool (fun _ => .inl rfl)
      (fun _ member => member) (fun _ member => .inl member)
  have waits : (self.dispatch index task added).waits task = (self.waits task).proceed :=
    Function.update_self ..
  have elsewhere : ∀ place, place ≠ index →
      (self.dispatch index task added).stage place = self.stage place :=
    fun place apart => Function.update_of_ne apart ..
  have kept : ∀ place watched, self.running? place = some watched →
      (self.dispatch index task added).running? place = some watched :=
    fun place watched runs => running?_advance enabled pool runs (by simp)
  constructor
  · have same : ({ self with
        pool := self.pool.bind (.worker index) added
        waits := Function.update self.waits task (self.waits task).proceed } : Reactor Handle).Booked :=
      orderly.booked.same rfl rfl rfl rfl rfl
    refine same.goOn (by simp [point]) ?_ ?_
    · intro clientfd handler frame
      by_cases ended : (self.waits task).proceed.point = .waiting <;> simp [ended]
    · by_cases ended : (self.waits task).proceed.point = .waiting <;>
        simp [ended, point, Stage.fd?]
  · refine orderly.steady.onward onward ?_ ?_
    · intro place busy
      have active : self.stage place ≠ .loop := by
        by_cases here : place = index
        · simp [here, point]
        · exact elsewhere place here ▸ busy
      obtain ⟨entry, running⟩ := orderly.steady.running place active
      exact ⟨entry, ThreadPool.running_kept enabled running (by simp)⟩
    · intro watched i fds looping
      by_cases here : watched = task
      · subst here
        rw [waits] at looping
        obtain ⟨first, count, before, goesOn | ends⟩ := next?_cases next
        · obtain ⟨apart, after, events⟩ := goesOn
          obtain ⟨rfl, rfl⟩ := WaitPoint.looping.inj (after.symm.trans looping)
          have round := orderly.steady.looping watched first count before
          refine ⟨⟨index, kept index watched runs, ?_⟩, ?_, ?_⟩
          · have more : (self.waits watched).proceed.point ≠ .waiting := by simp [after]
            exact (Function.update_self ..).trans (if_neg more)
          · obtain ⟨total, rfl, below, fits⟩ := round.counted
            exact ⟨total, rfl, by omega, fits⟩
          · intro cell beyond below
            obtain ⟨handle, entry, names⟩ := round.entries cell (by omega) below
            exact ⟨handle, by rw [waits, events, entry], names.onward onward⟩
        · rw [ends] at looping
          cases looping
      · have same : (self.dispatch index task added).waits watched = self.waits watched :=
          Function.update_of_ne here ..
        rw [same] at looping
        refine (orderly.steady.looping watched i fds looping).onward onward same ?_
        intro place running watching
        have apart : place ≠ index := by
          rintro rfl
          exact here (Option.some.inj (running.symm.trans runs))
        exact ⟨kept place watched running, (elsewhere place apart).trans watching⟩

/-- No worker is inside `runTasks` while a pass is on. -/
theorem Orderly.clean (orderly : self.Orderly) {order : List Nat}
    (enabled : (ThreadPool.machine threadCnt).enabled self.pool (.clean order))
    (careful : Careful self (.clean order)) : (self.clean order).Orderly := by
  obtain ⟨-, idle, -⟩ := enabled
  have loops : ∀ index, self.stage index = .loop := by
    intro index
    by_contra busy
    obtain ⟨entry, running⟩ := orderly.steady.running index busy
    rw [idle index] at running
    cases running
  have fewer : ∀ connection : Connection Handle,
      spared (self.pool.cleanTasks order).destroyed connection ≠ [] → connection.owners ≠ [] := by
    intro connection some_ empty
    simp [spared, empty] at some_
  constructor
  · have same : ({ self with pool := self.pool.cleanTasks order } : Reactor Handle).Booked :=
      orderly.booked.same rfl rfl rfl rfl rfl
    refine same.release _ (fun connection _ => fewer connection) ?_
    intro connection _ index _ point
    cases (loops index).symm.trans point
  · refine ⟨?_, ?_, ?_, ?_, ?_, ?_⟩
    · have identified : ((ThreadPool.machine threadCnt).next self.pool (.clean order)).Identified :=
        ThreadPool.identified_step orderly.steady.identified
      exact identified
    · exact fun index busy => absurd (loops index) busy
    · intro task loop
      obtain ⟨id, frame⟩ := orderly.steady.roles task loop
      refine ⟨id, ?_⟩
      have pending : self.pool.isDone task = false := by simp [ThreadPool.isDone, frame]
      exact (ThreadPool.cleanTasks_frames_pending order pending).trans frame
    · intro connection member
      obtain ⟨old, inside, rfl⟩ := List.mem_map.mp member
      have grown := ThreadPool.nextFrame_step threadCnt self.pool (.clean order)
      exact (orderly.steady.older old inside).trans_le grown
    · intro connection member owned
      obtain ⟨old, inside, rfl⟩ := List.mem_map.mp member
      have named := orderly.steady.living old inside (fewer old owned)
      refine (ThreadPool.cleanTasks_frameId named order).resolve_right fun gone => ?_
      exact owned (careful old inside gone)
    · intro task i fds point
      obtain ⟨index, -, watching⟩ := (orderly.steady.looping task i fds point).watched
      rw [loops index] at watching
      cases watching

theorem Orderly.step (orderly : self.Orderly) {event : ReactorEvent Handle}
    (enabled : (reactor Handle threadCnt).enabled self event) (careful : Careful self event) :
    ((reactor Handle threadCnt).next self event).Orderly := by
  obtain ⟨-, enabled⟩ := enabled
  change (self.step threadCnt event).Orderly
  cases event with
  | pool event => exact orderly.pool enabled.1 enabled.2
  | clean order => exact orderly.clean enabled careful
  | listen server task => exact orderly.listen enabled.1 enabled.2
  | watch task => exact orderly.watch enabled
  | register task =>
    obtain ⟨server, role, free⟩ := enabled
    exact orderly.register role free
  | resume index =>
    obtain ⟨entry, popped⟩ := enabled
    have resumes : self.step threadCnt (.resume index) = self.resume index entry.task := by
      simp [Reactor.step, popped, Worker.entry]
    rw [resumes]
    exact orderly.resume popped
  | accept index result => exact orderly.accept enabled.1 result enabled.2
  | construct index succeeds =>
    obtain ⟨clientfd, accepted⟩ := enabled
    simp only [Reactor.step, accepted]
    exact orderly.construct accepted succeeds
  | handle index task =>
    obtain ⟨⟨clientfd, constructed⟩, free⟩ := enabled
    simp only [Reactor.step, constructed]
    exact orderly.handle constructed free
  | addEvent index succeeds =>
    obtain ⟨clientfd, task, frame, handled, -⟩ := enabled
    simp only [Reactor.step, handled]
    exact orderly.addEvent handled succeeds
  | wait index result =>
    obtain ⟨point, ⟨task, runs, waiting⟩, reported⟩ := enabled
    simp only [Reactor.step, runs]
    cases result with
    | failed errno => exact absurd trivial careful
    | ready handles fits => exact orderly.wait fits point runs waiting reported
  | dispatch index =>
    obtain ⟨point, task, added, runs, next, calls⟩ := enabled
    simp only [Reactor.step, runs, next]
    exact orderly.dispatch point runs next calls
  | share frame id => exact orderly.share id enabled.1
  | drop frame id => exact orderly.drop frame id
  | leave index => exact orderly.leave enabled.1 enabled.2

omit [DecidableEq Handle] in
theorem orderly_start : ({} : Reactor Handle).Orderly where
  booked := by
    have holding : ({} : Reactor Handle).holding = fun _ => none := by
      funext holder
      cases holder <;> rfl
    refine ⟨List.nodup_nil, ?_, by simp, by simp, by simp⟩
    rw [holding]
    exact Exclusive.empty
  steady := ⟨ThreadPool.identified_start, by simp, by simp, by simp, by simp, by simp⟩

/-- What a maintainer may rely on in every state. -/
structure Attended (state : Reactor Handle) : Prop where
  -- what an epoll loop has yet to add names a live handler, or an accept loop
  dispatched : ∀ task i fds, (state.waits task).point = .looping i fds → ∀ place : Nat, i ≤ place →
    place < fds → ∃ added, (state.waits task).cell? place = some added ∧ state.Names added
  -- a descriptor is open as long as one worker, client or accept loop holds it
  exclusive : Exclusive state.holding state.isOpen
  -- epoll watches open descriptors only
  watched : ∀ fd task, state.interest fd = some task → state.isOpen fd = true ∧ state.Names task
  -- an open client has a live handler of its own, and epoll watches it once it is accepted
  handlers : (state.connections.map Connection.frame).Nodup
  registered : ∀ connection ∈ state.connections, connection.owners ≠ [] →
    state.pool.frameId connection.task = some connection.frame ∧
      (state.interest connection.clientfd = some connection.task ∨
        ∃ index, state.stage index =
          .handled connection.clientfd connection.task connection.frame)

omit [DecidableEq Handle] in
theorem Orderly.attended (orderly : self.Orderly) : self.Attended where
  dispatched task i fds point place after below := by
    have round := orderly.steady.looping task i fds point
    obtain ⟨added, entry, names⟩ := round.entries place after below
    obtain ⟨count, rfl, -, fits⟩ := round.counted
    have inside : place < maxevents := by omega
    exact ⟨added, by rw [EpollWait.cell?, if_pos inside, entry], names⟩
  exclusive := orderly.booked.exclusive
  watched fd task interest := by
    refine ⟨?_, orderly.names interest⟩
    rw [orderly.booked.exclusive.taken_iff]
    rcases orderly.booked.known fd task interest with ⟨connection, member, owned, rfl, -⟩ | role
    · exact ⟨.connection connection.frame, (holding_connection orderly.booked.distinct _ _).mpr
        ⟨connection, member, rfl, owned, rfl⟩⟩
    · exact ⟨.server task, by simp [holding, role, Role.server?]⟩
  handlers := orderly.booked.distinct
  registered connection member owned :=
    ⟨orderly.steady.living connection member owned, orderly.booked.registered connection member owned⟩

end Reactor

variable [DecidableEq Handle]

/-- In every run in which no call of `epoll_wait` fails and no pass destroys a handler whose
client has another owner: the epoll loops add only live handlers and accept loops, and
every open descriptor has one holder and is watched under its own handler. -/
theorem epoll_dispatches_live_handlers {threadCnt : Nat} {state : Reactor Handle}
    (reached : ((reactor Handle threadCnt).restrict Careful).Reachable {} state) : state.Attended :=
  (reached.holds Reactor.Orderly Reactor.orderly_start
    fun _ _ orderly enabled => orderly.step enabled.1 enabled.2).attended

/-- One worker serves the loops at 10 and 11; the server 3 has a client, whose handler at 12
epoll then reports. -/
def oneClient : List (ReactorEvent Nat) :=
  [.pool .launch, .pool .register, .pool .construct, .listen 3 10, .watch 11, .register 10,
    .pool (.bind (.outside 0) 11), .pool (.push (.outside 0)),
    .pool (.pop 0), .resume 0, .wait 0 (.ready [10] (by decide)),
    .dispatch 0, .pool (.push (.worker 0)), .dispatch 0, .pool (.push (.worker 0)), .leave 0,
    .pool (.pop 0), .resume 0, .accept 0 (.ok 5), .construct 0 true, .handle 0 12, .addEvent 0 true,
    .accept 0 (.error 11), .leave 0,
    .pool (.pop 0), .resume 0, .wait 0 (.ready [12] (by decide))]

theorem oneClient_allowed : ((reactor Nat 1).restrict Careful).Allowed {} oneClient := by
  refine ⟨⟨⟨rfl, trivial, Nat.one_pos, rfl⟩, trivial⟩, ⟨⟨rfl, trivial, Nat.one_pos⟩, trivial⟩,
    ⟨⟨rfl, trivial, rfl, rfl⟩, trivial⟩, ⟨⟨rfl, rfl, rfl⟩, trivial⟩, ⟨⟨rfl, rfl⟩, trivial⟩,
    ⟨⟨rfl, 3, rfl, rfl⟩, trivial⟩,
    -- The loop at 11 runs a first round, for the server.
    ⟨⟨rfl, trivial, Option.some_ne_none _, trivial, rfl, Option.some_ne_none _⟩, trivial⟩,
    ⟨⟨rfl, trivial, 11, 0, rfl, Nat.one_pos⟩, trivial⟩,
    ⟨⟨rfl, trivial, rfl, Nat.one_pos, rfl, List.cons_ne_nil _ _⟩, trivial⟩, ⟨⟨rfl, _, rfl⟩, trivial⟩,
    ⟨⟨rfl, rfl, ⟨11, rfl, rfl⟩, List.forall_mem_singleton.mpr ⟨3, rfl⟩⟩, id⟩,
    ⟨⟨rfl, rfl, 11, 10, rfl, rfl, Option.some_ne_none _, ⟨_, rfl⟩, rfl, Option.some_ne_none _⟩, trivial⟩,
    ⟨⟨rfl, trivial, 10, 0, rfl, Nat.one_pos⟩, trivial⟩,
    ⟨⟨rfl, rfl, 11, 11, rfl, rfl, Option.some_ne_none _, ⟨_, rfl⟩, rfl, Option.some_ne_none _⟩, trivial⟩,
    ⟨⟨rfl, trivial, 11, 0, rfl, Nat.one_pos⟩, trivial⟩, ⟨⟨rfl, .inr rfl, ⟨_, rfl⟩, rfl⟩, trivial⟩,
    -- The server accepts its client.
    ⟨⟨rfl, trivial, rfl, Nat.one_pos, rfl, List.cons_ne_nil _ _⟩, trivial⟩, ⟨⟨rfl, _, rfl⟩, trivial⟩,
    ⟨⟨rfl, rfl, fun clientfd same => by cases same; rfl⟩, trivial⟩, ⟨⟨rfl, 5, rfl⟩, trivial⟩,
    ⟨⟨rfl, ⟨5, rfl⟩, rfl⟩, trivial⟩, ⟨⟨rfl, 5, 12, 2, rfl, fun _ => rfl⟩, trivial⟩,
    ⟨⟨rfl, rfl, nofun⟩, trivial⟩, ⟨⟨rfl, .inr rfl, ⟨_, rfl⟩, rfl⟩, trivial⟩,
    -- The next round is for the client.
    ⟨⟨rfl, trivial, rfl, Nat.one_pos, rfl, List.cons_ne_nil _ _⟩, trivial⟩, ⟨⟨rfl, _, rfl⟩, trivial⟩,
    ⟨⟨rfl, rfl, ⟨11, rfl, rfl⟩, List.forall_mem_singleton.mpr ⟨5, rfl⟩⟩, id⟩, trivial⟩

theorem reported_client_is_attended :
    ∃ state : Reactor Nat, state.Attended ∧ (state.waits 11).point = .looping 0 1 ∧
      (state.waits 11).cell? 0 = some 12 ∧ state.connections.map Connection.task = [12] :=
  ⟨(reactor Nat 1).exec {} oneClient,
    epoll_dispatches_live_handlers ⟨oneClient, oneClient_allowed, rfl⟩, rfl, rfl, rfl⟩

end CoroMultiplex.Epoll
