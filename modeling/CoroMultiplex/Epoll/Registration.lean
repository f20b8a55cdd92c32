import CoroMultiplex.Epoll.Reactor

/-! Which descriptors are open, who holds them, and what epoll knows of them.

A client's descriptor is in the hands of one worker from the accept to the call of the
handler, and then of the connection, until the last pointer to the client goes.
-/

set_option autoImplicit false

namespace CoroMultiplex.Epoll

open Foundations

/-- Who may hold a descriptor. -/
inductive Holder (Handle : Type) where
  | worker (index : Nat)
  | connection (frame : Nat)
  | server (task : Handle)
  deriving DecidableEq

variable {Handle : Type}

def Stage.fd? : Stage Handle → Option Nat
  | .accepted clientfd | .constructed clientfd => some clientfd
  | .loop | .inside | .accepting | .handled .. | .watching | .suspended => none

theorem Role.enter_fd? (role : Role) : (role.enter : Stage Handle).fd? = none := by
  cases role <;> rfl

theorem Role.enter_ne_handled (role : Role) (clientfd : Nat) (task : Handle) (frame : Nat) :
    role.enter ≠ .handled clientfd task frame := by
  cases role <;> simp [Role.enter]

def Role.server? : Role → Option Nat
  | .acceptAll server => some server
  | .epollWaitEvent | .other => none

namespace Connection

variable (connection : Connection Handle) (frame id : Nat)

@[simp] theorem copy_clientfd : (connection.copy frame id).clientfd = connection.clientfd := by
  unfold copy; split <;> rfl

@[simp] theorem copy_task : (connection.copy frame id).task = connection.task := by
  unfold copy; split <;> rfl

@[simp] theorem copy_frame : (connection.copy frame id).frame = connection.frame := by
  unfold copy; split <;> rfl

theorem subset_copy : connection.owners ⊆ (connection.copy frame id).owners := by
  unfold copy
  split
  · exact List.subset_append_left _ _
  · exact List.Subset.refl _

end Connection

namespace Reactor

def connection? (self : Reactor Handle) (frame : Nat) : Option (Connection Handle) :=
  self.connections.find? fun connection => connection.frame = frame

def holding (self : Reactor Handle) : Holder Handle → Option Nat
  | .worker index => (self.stage index).fd?
  | .connection frame => (self.connection? frame).bind fun connection =>
      if connection.owners = [] then none else some connection.clientfd
  | .server task => (self.role task).server?

/-- The descriptors, their holders and the interest list of epoll agree. -/
structure Booked (state : Reactor Handle) : Prop where
  distinct : (state.connections.map Connection.frame).Nodup
  exclusive : Exclusive state.holding state.isOpen
  -- epoll knows a client by its handler, and a server by its accept loop
  known : ∀ fd task, state.interest fd = some task →
    (∃ connection ∈ state.connections, connection.owners ≠ [] ∧ connection.clientfd = fd ∧
      connection.task = task) ∨ state.role task = .acceptAll fd
  handled : ∀ index clientfd task frame, state.stage index = .handled clientfd task frame →
    ∃ connection ∈ state.connections, connection.clientfd = clientfd ∧ connection.task = task ∧
      connection.frame = frame ∧ .acceptAll index ∈ connection.owners
  registered : ∀ connection ∈ state.connections, connection.owners ≠ [] →
    state.interest connection.clientfd = some connection.task ∨
      ∃ index, state.stage index = .handled connection.clientfd connection.task connection.frame

variable {self other : Reactor Handle}

theorem connection_unique (distinct : (self.connections.map Connection.frame).Nodup)
    {first second : Connection Handle} (left : first ∈ self.connections)
    (right : second ∈ self.connections) (same : first.frame = second.frame) : first = second :=
  List.inj_on_of_nodup_map distinct left right same

theorem holding_connection (distinct : (self.connections.map Connection.frame).Nodup)
    (frame fd : Nat) : self.holding (.connection frame) = some fd ↔
      ∃ connection ∈ self.connections, connection.frame = frame ∧ connection.owners ≠ [] ∧
        connection.clientfd = fd := by
  simp only [holding, Option.bind_eq_some_iff]
  constructor
  · rintro ⟨connection, found, held⟩
    have member := List.mem_of_find?_eq_some found
    have named := List.find?_some found
    split at held
    · cases held
    · rename_i owned
      exact ⟨connection, member, by simpa using named, owned, Option.some.inj held⟩
  · rintro ⟨connection, member, named, owned, same⟩
    cases found : self.connection? frame with
    | none =>
      have absent := List.find?_eq_none.mp found connection member
      exact absurd named (by simpa using absent)
    | some first =>
      have here := List.find?_some found
      have equal := connection_unique distinct (List.mem_of_find?_eq_some found) member
        ((by simpa using here : first.frame = frame).trans named.symm)
      subst equal
      exact ⟨first, rfl, by rw [if_neg owned, same]⟩

/-- An open client is the only holder of its descriptor. -/
theorem Booked.sole (booked : self.Booked) {connection : Connection Handle}
    (member : connection ∈ self.connections) (owned : connection.owners ≠ []) {holder : Holder Handle}
    (held : self.holding holder = some connection.clientfd) : holder = .connection connection.frame :=
  booked.exclusive.unique _ _ _ held
    ((holding_connection booked.distinct _ _).mpr ⟨connection, member, rfl, owned, rfl⟩)

/-- What the book-keeping does not mention may change. -/
theorem Booked.same (booked : self.Booked) (role : other.role = self.role)
    (stage : other.stage = self.stage) (isOpen : other.isOpen = self.isOpen)
    (interest : other.interest = self.interest) (connections : other.connections = self.connections) :
    other.Booked := by
  have holding : other.holding = self.holding := by
    funext holder
    cases holder <;> simp only [Reactor.holding, connection?, role, stage, connections]
  constructor
  · rw [connections]
    exact booked.distinct
  · rw [holding, isOpen]
    exact booked.exclusive
  · rw [interest, connections, role]
    exact booked.known
  · rw [stage, connections]
    exact booked.handled
  · rw [connections, interest, stage]
    exact booked.registered

variable [DecidableEq Handle]

theorem holding_setStage (self : Reactor Handle) (index : Nat) (stage : Stage Handle) :
    (self.setStage index stage).holding =
      Function.update self.holding (.worker index) stage.fd? := by
  funext holder
  cases holder with
  | worker place =>
    by_cases here : place = index
    · subst here
      simp [holding, setStage]
    · simp [holding, setStage, here]
  | connection frame => rw [Function.update_of_ne (by simp)]; rfl
  | server task => rw [Function.update_of_ne (by simp)]; rfl

/-- A worker turns from one point to another, where neither comes after the call of a handler. -/
theorem Booked.turn (booked : self.Booked) {index : Nat} {stage : Stage Handle} {isOpen : Nat → Bool}
    (before : ∀ clientfd task frame, self.stage index ≠ .handled clientfd task frame)
    (after : ∀ clientfd task frame, stage ≠ .handled clientfd task frame)
    (exclusive : Exclusive (Function.update self.holding (.worker index) stage.fd?) isOpen) :
    ({ self with isOpen := isOpen }.setStage index stage).Booked where
  distinct := booked.distinct
  exclusive := by
    rw [holding_setStage]
    exact exclusive
  known := booked.known
  handled place clientfd task frame point := by
    by_cases here : place = index
    · subst here
      exact absurd ((Function.update_self ..).symm.trans point) (after clientfd task frame)
    · exact booked.handled place clientfd task frame ((Function.update_of_ne here ..).symm.trans point)
  registered connection member owned := by
    refine (booked.registered connection member owned).imp_right ?_
    rintro ⟨place, point⟩
    have apart : place ≠ index := by
      rintro rfl
      exact before _ _ _ point
    exact ⟨place, (Function.update_of_ne apart ..).trans point⟩

/-- It keeps what it has in its hands. -/
theorem Booked.goOn (booked : self.Booked) {index : Nat} {stage : Stage Handle}
    (before : ∀ clientfd task frame, self.stage index ≠ .handled clientfd task frame)
    (after : ∀ clientfd task frame, stage ≠ .handled clientfd task frame)
    (fd : stage.fd? = (self.stage index).fd?) : (self.setStage index stage).Booked := by
  refine booked.turn before after ?_
  rw [fd]
  exact (Function.update_eq_self (Holder.worker index) self.holding).symm ▸ booked.exclusive

theorem Booked.listen (booked : self.Booked) {server : Nat} {task : Handle}
    (closed : self.isOpen server = false) (free : self.role task = .other) :
    (self.listen server task).Booked where
  distinct := booked.distinct
  exclusive := by
    have held : (self.listen server task).holding =
        Function.update self.holding (.server task) (some server) := by
      funext holder
      cases holder with
      | server place =>
        by_cases here : place = task
        · subst here
          simp [holding, Reactor.listen, Role.server?]
        · simp [holding, Reactor.listen, here]
      | worker index => rw [Function.update_of_ne (by simp)]; rfl
      | connection frame => rw [Function.update_of_ne (by simp)]; rfl
    rw [held]
    exact booked.exclusive.acquire (by simp [holding, free, Role.server?]) closed
  known fd watched interest := by
    refine (booked.known fd watched interest).imp_right fun role => ?_
    have apart : watched ≠ task := by
      rintro rfl
      rw [free] at role
      cases role
    exact (Function.update_of_ne apart ..).trans role
  handled := booked.handled
  registered := booked.registered

theorem Booked.watch (booked : self.Booked) {task : Handle} (free : self.role task = .other) :
    (self.watch task).Booked := by
  have holding : (self.watch task).holding = self.holding := by
    funext holder
    cases holder with
    | server place =>
      by_cases here : place = task
      · subst here
        simp [Reactor.holding, Reactor.watch, free, Role.server?]
      · simp [Reactor.holding, Reactor.watch, here]
    | worker index => rfl
    | connection frame => rfl
  refine ⟨booked.distinct, holding.symm ▸ booked.exclusive, ?_, booked.handled, booked.registered⟩
  intro fd watched interest
  refine (booked.known fd watched interest).imp_right fun role => ?_
  have apart : watched ≠ task := by
    rintro rfl
    rw [free] at role
    cases role
  exact (Function.update_of_ne apart ..).trans role

omit [DecidableEq Handle] in
theorem Booked.register (booked : self.Booked) {server : Nat} {task : Handle}
    (role : self.role task = .acceptAll server) (free : self.interest server = none) :
    (self.register task).Booked := by
  have registers : self.register task =
      { self with interest := Function.update self.interest server (some task) } := by
    simp [Reactor.register, role]
  rw [registers]
  refine ⟨booked.distinct, booked.exclusive, ?_, booked.handled, ?_⟩
  · intro fd watched interest
    change Function.update self.interest server (some task) fd = some watched at interest
    by_cases here : fd = server
    · rw [here, Function.update_self, Option.some.injEq] at interest
      exact .inr (interest ▸ here ▸ role)
    · rw [Function.update_of_ne here] at interest
      exact booked.known fd watched interest
  · intro connection member owned
    refine (booked.registered connection member owned).imp_left fun interest => ?_
    have apart : connection.clientfd ≠ server := by
      intro same
      rw [same, free] at interest
      cases interest
    exact (Function.update_of_ne apart ..).trans interest

omit [DecidableEq Handle] in
theorem accept_error (self : Reactor Handle) (index errno : Nat) :
    self.accept index (.error errno) = self.setStage index .suspended ∨
      self.accept index (.error errno) = { self with terminated := true } := by
  by_cases retry : retries errno = true
  · exact .inl (if_pos retry)
  · exact .inr (if_neg retry)

theorem Booked.accept (booked : self.Booked) {index : Nat} (accepting : self.stage index = .accepting)
    (result : Except Nat Nat) (closed : ∀ clientfd, result = .ok clientfd → self.isOpen clientfd = false) :
    (self.accept index result).Booked := by
  have before : ∀ clientfd task frame, self.stage index ≠ .handled clientfd task frame := by
    simp [accepting]
  cases result with
  | ok clientfd =>
    have idle : self.holding (.worker index) = none := by simp [holding, accepting, Stage.fd?]
    exact booked.turn before (by simp) (booked.exclusive.acquire idle (closed clientfd rfl))
  | error errno =>
    rcases self.accept_error index errno with suspends | throws
    · rw [suspends]
      exact booked.goOn before (by simp) (by simp [accepting, Stage.fd?])
    · rw [throws]
      exact booked.same rfl rfl rfl rfl rfl

theorem Booked.construct (booked : self.Booked) {index clientfd : Nat}
    (accepted : self.stage index = .accepted clientfd) (succeeds : Bool) :
    (self.construct index clientfd succeeds).Booked := by
  have before : ∀ client task frame, self.stage index ≠ .handled client task frame := by
    simp [accepted]
  cases succeeds with
  | true =>
    have goesOn : (self.setStage index (.constructed clientfd)).Booked :=
      booked.goOn before (by simp) (by simp [accepted, Stage.fd?])
    exact goesOn
  | false =>
    have held : self.holding (.worker index) = some clientfd := by simp [holding, accepted, Stage.fd?]
    have turned : ({ self with
        isOpen := Function.update self.isOpen clientfd false }.setStage index .inside).Booked :=
      booked.turn before (by simp) (booked.exclusive.release held)
    exact turned.same rfl rfl rfl rfl rfl

/-- The descriptor goes from the worker to the connection. -/
theorem holding_handle {index clientfd : Nat} {task : Handle}
    (absent : self.connection? self.pool.nextFrame = none)
    (constructed : self.stage index = .constructed clientfd) :
    (self.handle index clientfd task).holding =
      Function.update (Function.update self.holding (.connection self.pool.nextFrame)
        (self.holding (.worker index))) (.worker index) none := by
  have held : self.holding (.worker index) = some clientfd := by
    simp [holding, constructed, Stage.fd?]
  funext holder
  cases holder with
  | worker place =>
    by_cases here : place = index
    · subst here
      simp [holding, Reactor.handle, setStage, Stage.fd?]
    · simp [holding, Reactor.handle, setStage, here]
  | connection frame =>
    rw [Function.update_of_ne (by simp), held]
    unfold connection? at absent
    by_cases here : frame = self.pool.nextFrame
    · subst here
      simp [holding, connection?, Reactor.handle, setStage, List.find?_append, absent]
    · have other : ¬ self.pool.nextFrame = frame := fun same => here same.symm
      simp [holding, connection?, Reactor.handle, setStage, List.find?_append, here, other]
  | server place => simp [holding, Reactor.handle, setStage]

theorem Booked.handle (booked : self.Booked) {index clientfd : Nat}
    (constructed : self.stage index = .constructed clientfd)
    (older : ∀ connection ∈ self.connections, connection.frame < self.pool.nextFrame) (task : Handle) :
    (self.handle index clientfd task).Booked := by
  have before : ∀ client task frame, self.stage index ≠ .handled client task frame := by
    simp [constructed]
  have fresh : self.pool.nextFrame ∉ self.connections.map Connection.frame := by
    intro member
    obtain ⟨connection, inside, same⟩ := List.mem_map.mp member
    exact Nat.lt_irrefl _ (same ▸ older connection inside)
  have distinct : ((self.handle index clientfd task).connections.map Connection.frame).Nodup := by
    simpa [Reactor.handle, setStage] using List.nodup_append_comm.mp
      (List.nodup_cons.mpr ⟨fresh, booked.distinct⟩)
  have absent : self.connection? self.pool.nextFrame = none := by
    refine List.find?_eq_none.mpr fun connection inside named => ?_
    exact fresh (List.mem_map.mpr ⟨connection, inside, by simpa using named⟩)
  have idle : self.holding (.connection self.pool.nextFrame) = none := by
    simp [Reactor.holding, absent]
  refine ⟨distinct, ?_, ?_, ?_, ?_⟩
  · rw [holding_handle absent constructed]
    exact booked.exclusive.transfer idle
  · intro fd watched interest
    refine (booked.known fd watched interest).imp_left ?_
    rintro ⟨connection, member, open_⟩
    exact ⟨connection, List.mem_append_left _ member, open_⟩
  · intro place client handler frame point
    by_cases here : place = index
    · subst here
      cases (Function.update_self ..).symm.trans point
      exact ⟨_, List.mem_append_right _ (List.mem_singleton_self _), rfl, rfl, rfl, List.mem_cons_self⟩
    · obtain ⟨connection, member, parts⟩ := booked.handled place client handler frame
        ((Function.update_of_ne here ..).symm.trans point)
      exact ⟨connection, List.mem_append_left _ member, parts⟩
  · intro connection member owned
    rcases List.mem_append.mp member with old | new
    · refine (booked.registered connection old owned).imp_right ?_
      rintro ⟨place, point⟩
      have apart : place ≠ index := by
        rintro rfl
        exact before _ _ _ point
      exact ⟨place, (Function.update_of_ne apart ..).trans point⟩
    · obtain rfl := List.mem_singleton.mp new
      exact .inr ⟨index, Function.update_self ..⟩

omit [DecidableEq Handle] in
/-- A pointer is copied only where there is one. -/
theorem Booked.copy_owners (booked : self.Booked) {frame : Nat} (id : Nat)
    (shared : ∃ connection ∈ self.connections, connection.frame = frame ∧ connection.owners ≠ [])
    {connection : Connection Handle} (member : connection ∈ self.connections) :
    (connection.copy frame id).owners = [] ↔ connection.owners = [] := by
  obtain ⟨chosen, inside, named, owned⟩ := shared
  unfold Connection.copy
  split
  · rename_i same
    have equal := connection_unique booked.distinct member inside (same.trans named.symm)
    simp [equal, owned]
  · rfl

omit [DecidableEq Handle] in
theorem Booked.share (booked : self.Booked) {frame : Nat} (id : Nat)
    (shared : ∃ connection ∈ self.connections, connection.frame = frame ∧ connection.owners ≠ []) :
    (self.share frame id).Booked := by
  have holding : (self.share frame id).holding = self.holding := by
    funext holder
    cases holder with
    | connection place =>
      have found : (self.share frame id).connection? place =
          (self.connection? place).map (Connection.copy frame id) := by
        simp only [connection?, Reactor.share]
        rw [List.find?_map]
        simp only [Function.comp_def, Connection.copy_frame]
      simp only [Reactor.holding, found]
      cases here : self.connection? place with
      | none => rfl
      | some connection =>
        have member := List.mem_of_find?_eq_some here
        simp [booked.copy_owners id shared member]
    | worker index => rfl
    | server task => rfl
  refine ⟨?_, holding.symm ▸ booked.exclusive, ?_, ?_, ?_⟩
  · have frames : (self.share frame id).connections.map Connection.frame =
        self.connections.map Connection.frame := by
      simp only [Reactor.share, List.map_map]
      exact List.map_congr_left fun connection _ => connection.copy_frame frame id
    rw [frames]
    exact booked.distinct
  · intro fd task interest
    refine (booked.known fd task interest).imp_left ?_
    rintro ⟨connection, member, owned, rfl, rfl⟩
    exact ⟨_, List.mem_map_of_mem member,
      fun empty => owned ((booked.copy_owners id shared member).mp empty),
      connection.copy_clientfd frame id, connection.copy_task frame id⟩
  · intro index clientfd task handler point
    obtain ⟨connection, member, rfl, rfl, rfl, owner⟩ :=
      booked.handled index clientfd task handler point
    exact ⟨_, List.mem_map_of_mem member, connection.copy_clientfd frame id,
      connection.copy_task frame id, connection.copy_frame frame id,
      connection.subset_copy frame id owner⟩
  · intro connection member owned
    obtain ⟨old, before, rfl⟩ := List.mem_map.mp member
    rw [old.copy_clientfd, old.copy_task, old.copy_frame]
    exact booked.registered old before
      fun empty => owned ((booked.copy_owners id shared before).mpr empty)

omit [DecidableEq Handle] in
theorem mem_closes (self : Reactor Handle) (left : Connection Handle → List Owner) (fd : Nat) :
    fd ∈ self.closes left ↔ ∃ connection ∈ self.connections, connection.owners ≠ [] ∧
      left connection = [] ∧ connection.clientfd = fd := by
  simp only [closes, List.mem_filterMap, Option.ite_none_right_eq_some, Option.some.injEq, and_assoc]

omit [DecidableEq Handle] in
theorem release_distinct (distinct : (self.connections.map Connection.frame).Nodup)
    (left : Connection Handle → List Owner) :
    ((self.release left).connections.map Connection.frame).Nodup := by
  rw [release, List.map_map]
  exact distinct

omit [DecidableEq Handle] in
/-- Pointers to clients go, but none of those in a call of `acceptAll` that goes on. -/
theorem Booked.release (booked : self.Booked) (left : Connection Handle → List Owner)
    (fewer : ∀ connection ∈ self.connections, left connection ≠ [] → connection.owners ≠ [])
    (kept : ∀ connection ∈ self.connections, ∀ index, .acceptAll index ∈ connection.owners →
      self.stage index = .handled connection.clientfd connection.task connection.frame →
        .acceptAll index ∈ left connection) : (self.release left).Booked := by
  have distinct := release_distinct booked.distinct left
  -- The descriptor of a client that stays is not among those that close.
  have stays : ∀ connection ∈ self.connections, left connection ≠ [] →
      connection.clientfd ∉ self.closes left := by
    intro connection member owned closing
    obtain ⟨gone, inside, owners, empty, same⟩ := (mem_closes self left _).mp closing
    have sole := booked.sole member (fewer connection member owned) (same ▸
      (holding_connection booked.distinct _ _).mpr ⟨gone, inside, rfl, owners, rfl⟩)
    have equal := connection_unique booked.distinct inside member (by simpa using sole)
    exact owned (equal ▸ empty)
  have holds : ∀ frame fd, (self.release left).holding (.connection frame) = some fd ↔
      ∃ connection ∈ self.connections, connection.frame = frame ∧ left connection ≠ [] ∧
        connection.clientfd = fd := by
    intro frame fd
    rw [holding_connection distinct]
    simp [Reactor.release]
  have fewerHeld : ∀ holder fd, (self.release left).holding holder = some fd →
      self.holding holder = some fd := by
    rintro (index | frame | task) fd held
    · exact held
    · obtain ⟨connection, member, named, owned, same⟩ := (holds frame fd).mp held
      exact (holding_connection booked.distinct _ _).mpr
        ⟨connection, member, named, fewer connection member owned, same⟩
    · exact held
  refine ⟨distinct, booked.exclusive.shrink fewerHeld ?_, ?_, ?_, ?_⟩
  · intro fd
    change (self.isOpen fd && !(self.closes left).contains fd) = true ↔ _
    rw [Bool.and_eq_true, booked.exclusive.taken_iff, Bool.not_eq_true', List.contains_eq_mem,
      decide_eq_false_iff_not]
    constructor
    · rintro ⟨⟨holder, held⟩, outside⟩
      refine ⟨holder, ?_⟩
      cases holder with
      | connection frame =>
        obtain ⟨connection, member, named, owned, rfl⟩ :=
          (holding_connection booked.distinct frame fd).mp held
        refine (holds frame _).mpr ⟨connection, member, named, fun empty => outside ?_, rfl⟩
        exact (mem_closes self left _).mpr ⟨connection, member, owned, empty, rfl⟩
      | worker index => exact held
      | server task => exact held
    · rintro ⟨holder, held⟩
      have before := fewerHeld holder fd held
      refine ⟨⟨holder, before⟩, fun closing => ?_⟩
      obtain ⟨gone, inside, owners, empty, rfl⟩ := (mem_closes self left fd).mp closing
      obtain rfl := booked.sole inside owners before
      obtain ⟨connection, member, named, owned, _⟩ := (holds _ _).mp held
      exact owned (connection_unique booked.distinct member inside named ▸ empty)
  · intro fd task interest
    change (if fd ∈ self.closes left then none else self.interest fd) = some task at interest
    split at interest
    · cases interest
    · rename_i outside
      refine (booked.known fd task interest).imp_left ?_
      rintro ⟨connection, member, owned, rfl, rfl⟩
      refine ⟨_, List.mem_map_of_mem member, fun empty => outside ?_, rfl, rfl⟩
      exact (mem_closes self left _).mpr ⟨connection, member, owned, empty, rfl⟩
  · intro index clientfd task frame point
    obtain ⟨connection, member, rfl, rfl, rfl, owner⟩ :=
      booked.handled index clientfd task frame point
    exact ⟨_, List.mem_map_of_mem member, rfl, rfl, rfl, kept connection member index owner point⟩
  · intro connection member owned
    obtain ⟨old, inside, rfl⟩ := List.mem_map.mp member
    have interest : (self.release left).interest old.clientfd = self.interest old.clientfd :=
      if_neg (stays old inside owned)
    rw [interest]
    exact booked.registered old inside (fewer old inside owned)

omit [DecidableEq Handle] in
theorem drop_fewer (frame : Nat) (owner : Owner) (connection : Connection Handle)
    (some_ : (if connection.frame = frame then connection.owners.erase owner
      else connection.owners) ≠ []) : connection.owners ≠ [] := by
  rintro empty
  simp [empty] at some_

omit [DecidableEq Handle] in
theorem Booked.drop (booked : self.Booked) (frame : Nat) (owner : Owner)
    (unused : ∀ index, owner = .acceptAll index →
      ∀ clientfd task frame, self.stage index ≠ .handled clientfd task frame) :
    (self.drop frame owner).Booked := by
  refine booked.release _ (fun connection _ => drop_fewer frame owner connection) ?_
  · intro connection _ index member point
    split
    · refine (List.mem_erase_of_ne ?_).mpr member
      rintro rfl
      exact unused index rfl _ _ _ point
    · exact member

/-- The client is registered under its handler, and the pointer of `acceptAll` goes. -/
theorem Booked.addEvent (booked : self.Booked) {index clientfd frame : Nat} {task : Handle}
    (handled : self.stage index = .handled clientfd task frame) (succeeds : Bool) :
    (self.addEvent index clientfd task frame succeeds).Booked := by
  obtain ⟨client, inside, rfl, rfl, rfl, owner⟩ := booked.handled index clientfd task frame handled
  have owned : client.owners ≠ [] := List.ne_nil_of_mem owner
  cases succeeds with
  | false => exact booked.same rfl rfl rfl rfl rfl
  | true =>
    let added := { self with
      interest := Function.update self.interest client.clientfd (some client.task) }.setStage index
        .accepting
    have interest_other : ∀ fd, fd ≠ client.clientfd → added.interest fd = self.interest fd :=
      fun fd apart => Function.update_of_ne apart ..
    have stage_other : ∀ place, place ≠ index → added.stage place = self.stage place :=
      fun place apart => Function.update_of_ne apart ..
    have stage_here : added.stage index = .accepting := Function.update_self ..
    have interest_here : added.interest client.clientfd = some client.task := Function.update_self ..
    have registered : added.Booked := by
      refine ⟨booked.distinct, ?_, ?_, ?_, ?_⟩
      · have holding : added.holding = self.holding := by
          change ({ self with interest := _ }.setStage index .accepting).holding = _
          rw [holding_setStage]
          refine Function.update_eq_self_iff.mpr ?_
          simp [Reactor.holding, handled, Stage.fd?]
        rw [holding]
        exact booked.exclusive
      · intro fd watched interest
        by_cases here : fd = client.clientfd
        · subst here
          exact .inl ⟨client, inside, owned, rfl, Option.some.inj (interest_here.symm.trans interest)⟩
        · exact booked.known fd watched ((interest_other fd here).symm.trans interest)
      · intro place other handler frame point
        by_cases here : place = index
        · subst here
          cases stage_here.symm.trans point
        · exact booked.handled place other handler frame ((stage_other place here).symm.trans point)
      · intro connection member some_
        by_cases here : connection.clientfd = client.clientfd
        · have sole := booked.sole member some_ (here ▸
            (holding_connection booked.distinct _ _).mpr ⟨client, inside, rfl, owned, rfl⟩)
          have equal := connection_unique booked.distinct inside member (by simpa using sole)
          exact .inl (equal ▸ interest_here)
        · rcases booked.registered connection member some_ with known | ⟨place, point⟩
          · exact .inl ((interest_other _ here).trans known)
          · have apart : place ≠ index := by
              rintro rfl
              exact here (Stage.handled.inj (handled.symm.trans point)).1.symm
            exact .inr ⟨place, (stage_other place apart).trans point⟩
    have dropped : (added.drop client.frame (.acceptAll index)).Booked := by
      refine registered.drop _ _ ?_
      rintro place same fd handler frame point
      cases same
      cases stage_here.symm.trans point
    exact dropped

end Reactor

end CoroMultiplex.Epoll
