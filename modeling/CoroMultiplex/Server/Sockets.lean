import CoroMultiplex.Pool.Cleaning
import Mathlib.Order.Basic

/-! The sockets of the sessions and the clean-up of the pool.

The socket of a session is shared: by a local of the body of `clientHandle`, which dies
when the body ends, and by a parameter of each `responseHandler`, which lives until its
frame is destroyed. Only a pass of `cleanTasks` destroys frames.
-/

set_option autoImplicit false

namespace CoroMultiplex.Server

open Foundations Pool

/-- An accepted connection and the owners of its socket. -/
structure Client (Handle : Type) where
  -- the coroutine of `clientHandle`: its address, and its frame
  task : Handle
  frame : Nat
  body : Bool := true
  -- the frames of the `responseHandler` coroutines
  responses : List Nat := []
  useCount : Nat := 1

namespace Client

variable {Handle : Type}

/-- `socketBase` closes its descriptor when the last owner has gone. -/
def isOpen (client : Client Handle) : Bool := client.useCount != 0

def release (client : Client Handle) (owners : Nat) : Client Handle :=
  { client with useCount := client.useCount - owners }

/-- `responseHandler(client, ...)`: the pointer is copied into the new frame. -/
def respond (client : Client Handle) (response : Nat) : Client Handle :=
  { client with responses := client.responses ++ [response], useCount := client.useCount + 1 }

/-- The body of `clientHandle` ends. -/
def endBody (client : Client Handle) : Client Handle := { client.release 1 with body := false }

/-- Frames are destroyed, and their parameters with them. -/
def destroy (client : Client Handle) (frames : List Nat) : Client Handle :=
  client.release (client.responses.countP (· ∈ frames))

end Client

structure SocketState (Handle : Type) where
  pool : ThreadPool Handle := {}
  clients : List (Client Handle) := []

inductive SocketEvent (Handle : Type) where
  | pool (event : Pool.Event Handle)
  | accept (task : Handle)
  | respond (caller task : Handle)
  | returns (caller : Handle)
  | responded (task : Handle)

namespace SocketState

variable {Handle : Type} [DecidableEq Handle]

/-- The session whose body runs in a coroutine. -/
def updateBody (self : SocketState Handle) (caller : Handle)
    (update : Client Handle → Client Handle) : List (Client Handle) :=
  self.clients.map fun client =>
    if client.body && client.task = caller then update client else client

/-- `clientHandle(fd)`; the descriptor is open from the accept on. -/
def accept (self : SocketState Handle) (task : Handle) : SocketState Handle where
  pool := self.pool.create task
  clients := self.clients ++ [{ task := task, frame := self.pool.nextFrame }]

def respond (self : SocketState Handle) (caller task : Handle) : SocketState Handle where
  pool := self.pool.create task
  clients := self.updateBody caller fun client => client.respond self.pool.nextFrame

/-- `clientHandle` returns. -/
def returns (self : SocketState Handle) (caller : Handle) : SocketState Handle where
  pool := self.pool.finish caller
  clients := self.updateBody caller Client.endBody

/-- `responseHandler` returns; its parameters stay in the frame. -/
def responded (self : SocketState Handle) (task : Handle) : SocketState Handle :=
  { self with pool := self.pool.finish task }

/-- A step of the pool. -/
def advance (self : SocketState Handle) (pool : ThreadPool Handle) : SocketState Handle where
  pool := pool
  clients := self.clients.map fun client =>
    client.destroy (pool.destroyed.drop self.pool.destroyed.length)

end SocketState

open SocketState ThreadPool

variable {Handle : Type} [DecidableEq Handle]

/-- The coroutine at an address is one of the sessions' own. -/
def SocketState.Owns (self : SocketState Handle) (task : Handle) : Prop :=
  ∃ client ∈ self.clients, self.pool.frameId task = some client.frame ∨
    ∃ id ∈ client.responses, self.pool.frameId task = some id

def sockets (threadCnt : Nat) : Machine (SocketState Handle) (SocketEvent Handle) where
  enabled self
    | .pool event => (machine threadCnt).enabled self.pool event ∧
      match event with
      | .finish task => ¬ self.Owns task
      | _ => True
    | .accept task => self.pool.frames task = none
    | .respond caller task => self.pool.frames task = none ∧
      ∃ client ∈ self.clients, client.body = true ∧ client.task = caller
    | .returns caller => ∃ client ∈ self.clients, client.body = true ∧ client.task = caller
    -- a worker has resumed it, as it calls no other coroutine
    | .responded task =>
      (∃ index entry, self.pool.workers index = .running entry ∧ entry.task = task) ∧
      self.pool.isDone task = false ∧
      ∃ client ∈ self.clients, ∃ id ∈ client.responses, self.pool.frameId task = some id
  next self
    | .pool event => self.advance ((machine threadCnt).next self.pool event)
    | .accept task => self.accept task
    | .respond caller task => self.respond caller task
    | .returns caller => self.returns caller
    | .responded task => self.responded task

/-- The coroutine with this frame is at its final suspension point, or destroyed already. -/
def Finished (pool : ThreadPool Handle) (id : Nat) : Prop :=
  id ∈ pool.destroyed ∨ ∃ task, pool.frameId task = some id ∧ pool.isDone task = true

/-- What is known of one session. -/
structure Holding (pool : ThreadPool Handle) (client : Client Handle) : Prop where
  older : client.frame < pool.nextFrame
  olderResponses : ∀ id ∈ client.responses, id < pool.nextFrame
  living : client.body = true → pool.frames client.task = some { id := client.frame }
  count : client.useCount =
    (if client.body then 1 else 0) + client.responses.countP (· ∉ pool.destroyed)
  -- a response that has ended has been resumed by the worker of its queue
  bound : ∀ id ∈ client.responses, ∀ task, pool.frameId task = some id → pool.isDone task = true →
    ∃ index, pool.taskBinding.lookup task = some (.queue index)

/-- What is outside a list leaves it for a longer one, or stays outside. -/
theorem countP_notMem_append {α : Type} [DecidableEq α] (items : List α) {before fresh : List α}
    (new : ∀ item ∈ fresh, item ∉ before) :
    items.countP (· ∉ before) =
      items.countP (· ∉ before ++ fresh) + items.countP (· ∈ fresh) := by
  simp only [List.mem_append]
  induction items with
  | nil => rfl
  | cons item items ih =>
    rw [List.countP_cons, List.countP_cons, List.countP_cons, ih]
    by_cases inside : item ∈ fresh
    · simp [inside, new item inside]
      omega
    · simp [inside]
      omega

namespace Holding

variable {pool later : ThreadPool Handle} {client : Client Handle}

/-- A step that destroys nothing has to account only for frames that it ends. -/
theorem kept (holding : Holding pool client) (grown : pool.nextFrame ≤ later.nextFrame)
    (destroyed : later.destroyed = pool.destroyed)
    (living : client.body = true → later.frames client.task = pool.frames client.task)
    (lookup : ∀ task target, pool.taskBinding.lookup task = some target →
      later.taskBinding.lookup task = some target)
    (ended : ∀ id ∈ client.responses, ∀ task, later.frameId task = some id →
      later.isDone task = true → pool.frameId task = some id ∧ pool.isDone task = true ∨
        ∃ index, pool.taskBinding.lookup task = some (.queue index)) : Holding later client where
  older := holding.older.trans_le grown
  olderResponses id member := (holding.olderResponses id member).trans_le grown
  living body := (living body).trans (holding.living body)
  count := by rw [destroyed]; exact holding.count
  bound id member task named done := by
    rcases ended id member task named done with ⟨before, already⟩ | ⟨index, found⟩
    · obtain ⟨index, found⟩ := holding.bound id member task before already
      exact ⟨index, lookup task _ found⟩
    · exact ⟨index, lookup task _ found⟩

theorem quiet (holding : Holding pool client) (frames : later.frames = pool.frames)
    (nextFrame : later.nextFrame = pool.nextFrame) (destroyed : later.destroyed = pool.destroyed)
    (lookup : ∀ task target, pool.taskBinding.lookup task = some target →
      later.taskBinding.lookup task = some target) : Holding later client := by
  refine holding.kept nextFrame.ge destroyed (fun _ => by rw [frames]) lookup ?_
  intro id member task named done
  rw [frameId, frames] at named
  rw [isDone, frames] at done
  exact .inl ⟨named, done⟩

theorem create (holding : Holding pool client) {fresh : Handle} (free : pool.frames fresh = none) :
    Holding (pool.create fresh) client := by
  refine holding.kept (Nat.le_succ _) rfl (fun body => ?_) (fun _ _ found => found) ?_
  · have apart : client.task ≠ fresh := by
      rintro rfl
      rw [holding.living body] at free
      cases free
    exact Function.update_of_ne apart ..
  · intro id member task named done
    by_cases here : task = fresh
    · subst here
      simp [isDone, ThreadPool.create] at done
    · simp only [frameId, isDone, ThreadPool.create, Function.update_of_ne here] at named done
      exact .inl ⟨named, done⟩

/-- The end of a coroutine that is not this session's body, and if it is one of its
responses then one that a worker has resumed. -/
theorem finish (holding : Holding pool client) {ended : Handle}
    (other : client.body = true → pool.frameId ended ≠ some client.frame)
    (resumed : ∀ id ∈ client.responses, pool.frameId ended = some id →
      ∃ index, pool.taskBinding.lookup ended = some (.queue index)) :
    Holding (pool.finish ended) client := by
  refine holding.kept (Nat.le_refl _) rfl (fun body => ?_) (fun _ _ found => found) ?_
  · have apart : client.task ≠ ended := by
      rintro rfl
      exact other body (by rw [frameId, holding.living body]; rfl)
    exact Function.update_of_ne apart ..
  · intro id member task named done
    rw [finish_frameId] at named
    by_cases here : task = ended
    · subst here
      exact .inr (resumed id member named)
    · refine .inl ⟨named, ?_⟩
      simpa only [isDone, ThreadPool.finish, Function.update_of_ne here] using done

/-- Frames destroyed by a pass release the socket as often as they held it. -/
theorem clean (holding : Holding pool client) {order : List Nat}
    (identified : (pool.cleanTasks order).Identified) (covers : pool.Covers order) :
    Holding (pool.cleanTasks order)
      (client.destroy ((pool.cleanTasks order).destroyed.drop pool.destroyed.length)) where
  older := holding.older.trans_le (nextFrame_step 0 pool (.clean order))
  olderResponses id member :=
    (holding.olderResponses id member).trans_le (nextFrame_step 0 pool (.clean order))
  living body := by
    have alive := holding.living body
    refine (cleanTasks_frames_pending order ?_).trans alive
    change pool.isDone client.task = false
    rw [isDone, alive]
    rfl
  count := by
    obtain ⟨fresh, grown⟩ := pool.cleanTasks_destroyed order
    have once := identified.once
    rw [← grown] at once ⊢
    have new : ∀ id ∈ fresh, id ∉ pool.destroyed := fun id inside before =>
      (List.nodup_append.mp once).2.2 id before id inside rfl
    rw [List.drop_left]
    change client.useCount - client.responses.countP (· ∈ fresh) =
      (if client.body then 1 else 0) + client.responses.countP (· ∉ pool.destroyed ++ fresh)
    have parts := countP_notMem_append client.responses new
    have before := holding.count
    omega
  bound id member task named done := by
    by_cases small : pool.taskBinding.size < 10000
    · rw [cleanTasks, if_pos small] at named done ⊢
      exact holding.bound id member task named done
    · -- A large pass leaves no response that has ended.
      exfalso
      by_cases kept : ∀ index, ¬ pool.Collected task index
      · rw [frameId, cleanTasks_frames_kept order kept] at named
        rw [isDone, cleanTasks_frames_kept order kept] at done
        obtain ⟨index, found⟩ := holding.bound id member task named done
        exact kept index ⟨found, done⟩
      · obtain ⟨index, collected⟩ := not_forall_not.mp kept
        rw [frameId, cleanTasks_frames small covers collected] at named
        cases named

/-- The body hands a pointer to a response that has just been created. -/
theorem respond (holding : Holding pool client) {response : Nat}
    (younger : response < pool.nextFrame) (fresh : response ∉ pool.destroyed)
    (pending : ∀ task, pool.frameId task = some response → pool.isDone task = false) :
    Holding pool (client.respond response) where
  older := holding.older
  olderResponses id member := by
    rcases List.mem_append.mp member with before | new
    · exact holding.olderResponses id before
    · exact List.mem_singleton.mp new ▸ younger
  living := holding.living
  count := by
    have one : [response].countP (· ∉ pool.destroyed) = 1 := by simp [fresh]
    have before := holding.count
    change client.useCount + 1 = (if client.body then 1 else 0) +
      (client.responses ++ [response]).countP (· ∉ pool.destroyed)
    rw [List.countP_append]
    omega
  bound id member task named done := by
    rcases List.mem_append.mp member with before | new
    · exact holding.bound id before task named done
    · rw [List.mem_singleton.mp new] at named
      rw [pending task named] at done
      cases done

theorem endBody (holding : Holding pool client) (body : client.body = true) :
    Holding pool client.endBody where
  older := holding.older
  olderResponses := holding.olderResponses
  living := nofun
  count := by
    have before := holding.count
    rw [if_pos body] at before
    simp only [Client.endBody, Client.release, Bool.false_eq_true, if_false]
    omega
  bound := holding.bound

/-- The descriptor is open as long as a pointer to its socket lives. -/
theorem isOpen_iff (holding : Holding pool client) :
    client.isOpen = true ↔
      client.body = true ∨ ∃ id ∈ client.responses, id ∉ pool.destroyed := by
  rw [Client.isOpen, bne_iff_ne, holding.count]
  cases client.body with
  | true => simp
  | false => simp [List.countP_eq_zero]

/-- A session whose coroutine has ended has left its body. -/
theorem body_ended (holding : Holding pool client) (identified : pool.Identified)
    (finished : Finished pool client.frame) : client.body = false := by
  by_contra still
  have alive := holding.living (by simpa using still)
  have named : pool.frameId client.task = some client.frame := by rw [frameId, alive]; rfl
  rcases finished with gone | ⟨task, same, done⟩
  · exact identified.fresh client.task client.frame named gone
  · rw [identified.apart task client.task client.frame same named, isDone, alive] at done
    cases done

/-- A large pass destroys every response that has ended. -/
theorem response_destroyed (holding : Holding pool client)
    (large : ¬ pool.taskBinding.size < 10000) {order : List Nat} (covers : pool.Covers order)
    {id : Nat} (member : id ∈ client.responses) (finished : Finished pool id) :
    id ∈ (pool.cleanTasks order).destroyed := by
  rcases finished with gone | ⟨task, named, done⟩
  · exact (pool.cleanTasks_destroyed order).subset gone
  · obtain ⟨index, found⟩ := holding.bound id member task named done
    rcases cleanTasks_frameId named order with still | destroyed
    · rw [frameId, cleanTasks_frames large covers ⟨found, done⟩] at still
      cases still
    · exact destroyed

end Holding

end CoroMultiplex.Server
