import CoroMultiplex.Foundations.Machine
import CoroMultiplex.Server.Responder
import CoroMultiplex.Storage.Mappings

/-! The handlers of the server and the mappings that they hold.

A handler keeps its pointer from the lookup to the end of its body, whatever the cache
does with its own in between.
-/

set_option autoImplicit false

namespace CoroMultiplex.Server

open Foundations Http Storage

structure Handler where
  request : HttpRequest
  task : ResponseTask
  -- `file`, in the frame of the coroutine until its body ends
  file : Option FilePointer

structure FileServer where
  store : FileStore
  handlers : List Handler := []
  -- an exception has left a detached coroutine
  terminated : Bool := false

namespace FileServer

/-- The handler behind its lookup, up to its first send. -/
def enter (s : FileServer) (webRoot : Path) (request : HttpRequest) (store : FileStore)
    (file : Option FilePointer) : FileServer :=
  match ResponseTask.prepare (fun _ => .ok (file.map Shared.value)) request webRoot with
  | .error _ => { s with store := store, terminated := true }
  | .ok task => { s with store := store, handlers := s.handlers ++ [⟨request, task, file⟩] }

def start (s : FileServer) (webRoot : Path) (request : HttpRequest) (os : Os) : FileServer :=
  match HttpResponse.ofRequest request webRoot with
  | .error _ => { s with terminated := true }
  | .ok response =>
    if response.status = .ok then
      match s.store.get os response.uri with
      | (_, store, .error _) => { s with store := store, terminated := true }
      | (_, store, .ok file) => s.enter webRoot request store file
    else s.enter webRoot request s.store none

/-- A handler goes on with what its send resumes with. -/
def send (s : FileServer) (index : Nat) (result : SendResult) : FileServer :=
  match s.handlers[index]? with
  | none => s
  | some handler =>
    let task := handler.task.resume result
    if task.running then { s with handlers := s.handlers.set index ⟨handler.request, task, handler.file⟩ }
    else
      -- `co_return` destroys the locals of the coroutine
      { s with
        store := { s.store with
          mappings := handler.file.elim s.store.mappings s.store.mappings.release }
        handlers := s.handlers.set index ⟨handler.request, task, none⟩ }

inductive Event where
  | start (request : HttpRequest) (os : Os)
  | send (index : Nat) (result : SendResult)
  -- what else a program may do with its cache
  | put (os : Os) (key : Path)
  | refresh

/-- Every interleaving of the handlers; each call of the cache is alone, under its mutex. -/
def machine (webRoot : Path) : Machine FileServer Event where
  enabled s event := s.terminated = false ∧
    match event with
    | .start _ os | .put os _ => os.Fresh s.store.mappings.descriptors
    | .send index _ => ∃ handler, s.handlers[index]? = some handler ∧ handler.task.running = true
    | .refresh => True
  next s
    | .start request os => s.start webRoot request os
    | .send index result => s.send index result
    | .put os key => { s with store := (s.store.put os key).2.1 }
    | .refresh => { s with store := s.store.refresh }

/-- The pointers of the cache and those of the handlers. -/
def pointers (s : FileServer) : List FilePointer :=
  s.store.pointers ++ s.handlers.filterMap Handler.file

end FileServer

/-- A handler that runs sends from what it points to, and one that has ended points to nothing. -/
def Handler.Holds (handler : Handler) : Prop :=
  if handler.task.running then handler.task.file = handler.file.map Shared.value
  else handler.file = none

theorem Handler.Holds.running {handler : Handler} (holds : handler.Holds) {pointer : FilePointer}
    (held : handler.file = some pointer) : handler.task.running = true := by
  unfold Handler.Holds at holds
  split at holds
  · assumption
  · rw [held] at holds
    cases holds

/-- What a handler is given for its file is the file of its task. -/
theorem ResponseTask.prepare_file {request : HttpRequest} {webRoot : Path} {response : HttpResponse}
    {file : Option FileCache} (responded : HttpResponse.ofRequest request webRoot = .ok response)
    (asked : response.status ≠ .ok → file = none) :
    ∃ task, prepare (fun _ => .ok file) request webRoot = .ok task ∧ task.running = true ∧
      task.file = file := by
  unfold prepare
  simp only [responded]
  by_cases found : response.status = .ok
  · rw [if_pos found]
    cases file with
    | none => exact ⟨_, rfl, rfl, rfl⟩
    | some fc => exact ⟨_, rfl, rfl, rfl⟩
  · rw [if_neg found, asked found]
    exact ⟨_, rfl, rfl, rfl⟩

/-- Resuming a task changes nothing but its phase. -/
theorem ResponseTask.resume_phase (self : ResponseTask) (result : SendResult) :
    ∃ phase, self.resume result = { self with phase := phase } := by
  unfold resume
  split
  · exact ⟨_, rfl⟩
  · split
    · split <;> exact ⟨_, rfl⟩
    · exact ⟨_, rfl⟩
  · split
    · split <;> exact ⟨_, rfl⟩
    · split <;> exact ⟨_, rfl⟩
    · exact ⟨_, rfl⟩
    · exact ⟨_, rfl⟩

theorem ResponseTask.resume_file (self : ResponseTask) (result : SendResult) :
    (self.resume result).file = self.file := by
  obtain ⟨phase, same⟩ := self.resume_phase result
  rw [same]

structure Lending (capacity : Nat) (s : FileServer) : Prop where
  kept : s.store.mappings.Kept s.pointers
  coherent : Coherent FilePointer.traits s.store.cache
  capacity : s.store.cache.capacity = capacity
  holders : ∀ handler ∈ s.handlers, handler.Holds

namespace Lending

variable {capacity : Nat} {webRoot : Path} {s : FileServer}

theorem empty (positive : 0 < capacity) : Lending capacity { store := { cache := { capacity } } } where
  kept := .empty
  coherent := .empty positive
  capacity := rfl
  holders := by simp

theorem get_cache_coherent (lending : Lending capacity s) (os : Os) (key : Path) :
    Coherent FilePointer.traits (s.store.get os key).2.1.cache ∧
      (s.store.get os key).2.1.cache.capacity = capacity := by
  obtain ⟨coherent, same, _⟩ := LruCache.get_coherent key lending.coherent
    (s.store.builder_honest os)
  rw [(s.store.get_cache os key).2.1]
  exact ⟨coherent, same.trans lending.capacity⟩

theorem enter (lending : Lending capacity s) {store : FileStore} {file : Option FilePointer}
    {request : HttpRequest} {response : HttpResponse}
    (responded : HttpResponse.ofRequest request webRoot = .ok response)
    (asked : response.status ≠ .ok → file = none)
    (kept : store.mappings.Kept (file.toList ++ (store.pointers ++ s.handlers.filterMap Handler.file)))
    (coherent : Coherent FilePointer.traits store.cache) (same : store.cache.capacity = capacity) :
    Lending capacity (s.enter webRoot request store file) := by
  obtain ⟨task, prepared, running, own⟩ := ResponseTask.prepare_file responded fun other =>
    (asked other ▸ rfl : file.map Shared.value = none)
  simp only [FileServer.enter, prepared]
  refine ⟨?_, coherent, same, fun handler member => ?_⟩
  · have order : (file.toList ++ (store.pointers ++ s.handlers.filterMap Handler.file)).Perm
        (store.pointers ++ (s.handlers ++ [(⟨request, task, file⟩ : Handler)]).filterMap Handler.file) := by
      have new : [(⟨request, task, file⟩ : Handler)].filterMap Handler.file = file.toList := by
        cases file <;> rfl
      rw [List.filterMap_append, new, ← List.append_assoc store.pointers]
      exact List.perm_append_comm
    exact kept.perm order
  · rcases List.mem_append.mp member with old | new
    · exact lending.holders handler old
    · rw [List.mem_singleton.mp new]
      exact (if_pos running).mpr own

theorem start (lending : Lending capacity s) (request : HttpRequest) {os : Os}
    (fresh : os.Fresh s.store.mappings.descriptors) : Lending capacity (s.start webRoot request os) := by
  unfold FileServer.start
  cases responded : HttpResponse.ofRequest request webRoot with
  | error thrown => exact ⟨lending.kept, lending.coherent, lending.capacity, lending.holders⟩
  | ok response =>
    by_cases found : response.status = .ok
    · obtain ⟨coherent, same⟩ := lending.get_cache_coherent os response.uri
      have kept := FileStore.get_kept lending.kept lending.coherent fresh response.uri
      simp only [if_pos found]
      generalize s.store.get os response.uri = answer at coherent same kept ⊢
      obtain ⟨calls, store, halt | file⟩ := answer
      · exact ⟨kept, coherent, same, lending.holders⟩
      · refine lending.enter responded (fun other => absurd found other) ?_ coherent same
        cases file <;> exact kept
    · simp only [if_neg found]
      exact lending.enter responded (fun _ => rfl) lending.kept lending.coherent lending.capacity

/-- The pointer of one handler, taken from the list of all. -/
theorem pointers_perm (store : FileStore) (front back : List Handler) (handler : Handler) :
    (store.pointers ++ (front ++ handler :: back).filterMap Handler.file).Perm
      (handler.file.toList ++ (store.pointers ++ (front ++ back).filterMap Handler.file)) := by
  have own : (handler :: back).filterMap Handler.file =
      handler.file.toList ++ back.filterMap Handler.file := by
    cases held : handler.file <;> simp [held]
  have front_ : (store.pointers ++ (front.filterMap Handler.file ++
      (handler.file.toList ++ back.filterMap Handler.file))).Perm
      (handler.file.toList ++ (store.pointers ++ front.filterMap Handler.file ++
        back.filterMap Handler.file)) := by
    rw [← List.append_assoc store.pointers]
    exact List.perm_append_comm_assoc _ _ _
  rw [List.filterMap_append, List.filterMap_append, own]
  rwa [List.append_assoc] at front_

/-- One handler goes on, and the pointers of the others are where they were. -/
theorem replace (lending : Lending capacity s) {index : Nat} {before after : Handler}
    {mappings : Mappings} (known : s.handlers[index]? = some before) (holds : after.Holds)
    (kept : ∀ others, s.store.mappings.Kept (before.file.toList ++ others) →
      mappings.Kept (after.file.toList ++ others)) :
    Lending capacity { s with
      store := { s.store with mappings := mappings }
      handlers := s.handlers.set index after } := by
  obtain ⟨inside, same⟩ := List.getElem?_eq_some_iff.mp known
  have split : s.handlers = s.handlers.take index ++ before :: s.handlers.drop (index + 1) := by
    simp [← same]
  have set : s.handlers.set index after =
      s.handlers.take index ++ after :: s.handlers.drop (index + 1) := by
    simp [List.set_eq_take_append_cons_drop, inside]
  refine ⟨?_, lending.coherent, lending.capacity, fun handler member => ?_⟩
  · have first := lending.kept
    rw [FileServer.pointers, split] at first
    have second := kept _ (first.perm (pointers_perm _ _ _ _))
    simp only [FileServer.pointers, set]
    exact second.perm (pointers_perm s.store _ _ after).symm
  · simp only [set, List.mem_append, List.mem_cons] at member
    rcases member with earlier | rfl | later
    · exact lending.holders handler (List.mem_of_mem_take earlier)
    · exact holds
    · exact lending.holders handler (List.mem_of_mem_drop later)

theorem send (lending : Lending capacity s) {index : Nat} {handler : Handler}
    (known : s.handlers[index]? = some handler) (running : handler.task.running = true)
    (result : SendResult) : Lending capacity (s.send index result) := by
  have holds := lending.holders handler (List.mem_of_getElem? known)
  have own : handler.task.file = handler.file.map Shared.value := (if_pos running).mp holds
  simp only [FileServer.send, known]
  split
  · rename_i still
    refine lending.replace known ?_ fun others kept => kept
    exact (if_pos still).mpr ((handler.task.resume_file result).trans own)
  · rename_i ended
    refine lending.replace known ((if_neg ended).mpr rfl) fun others kept => ?_
    cases held : handler.file with
    | none =>
      rw [held] at kept
      exact kept
    | some pointer =>
      rw [held] at kept
      exact kept.release

theorem step (lending : Lending capacity s) {event : FileServer.Event}
    (enabled : (FileServer.machine webRoot).enabled s event) :
    Lending capacity ((FileServer.machine webRoot).next s event) := by
  cases event with
  | start request os => exact lending.start request enabled.2
  | send index result =>
    obtain ⟨_, handler, known, running⟩ := enabled
    exact lending.send known running result
  | put os key =>
    obtain ⟨coherent, same, _⟩ := LruCache.put_coherent key lending.coherent
      (s.store.builder_honest os)
    rw [← (s.store.put_cache os key).2.1] at coherent same
    exact ⟨FileStore.put_kept lending.kept lending.coherent enabled.2 key, coherent,
      same.trans lending.capacity, lending.holders⟩
  | refresh =>
    exact ⟨FileStore.refresh_kept lending.kept, lending.coherent.refresh, lending.capacity, lending.holders⟩

theorem reachable (positive : 0 < capacity)
    (reached : (FileServer.machine webRoot).Reachable { store := { cache := { capacity } } } s) :
    Lending capacity s :=
  reached.holds (Lending capacity) (empty positive) fun _ _ lending enabled => lending.step enabled

end Lending

namespace FileServer

variable {s : FileServer}

theorem mem_pointers (pointer : FilePointer) :
    pointer ∈ s.pointers ↔ (∃ node ∈ s.store.cache.cacheList, node.value = pointer) ∨
      ∃ handler ∈ s.handlers, handler.file = some pointer := by
  simp [pointers, FileStore.pointers]

/-- There are no more pointers than nodes and running handlers. -/
theorem pointers_length (holders : ∀ handler ∈ s.handlers, handler.Holds) :
    s.pointers.length ≤
      s.store.cache.cacheList.length + (s.handlers.filter fun handler => handler.task.running).length := by
  have fewer : ∀ handlers : List Handler, (∀ handler ∈ handlers, handler.Holds) →
      (handlers.filterMap Handler.file).length ≤
        (handlers.filter fun handler => handler.task.running).length := by
    intro handlers
    induction handlers with
    | nil => exact fun _ => Nat.le_refl 0
    | cons handler handlers ih =>
      intro holders
      have rest := ih fun other member => holders other (List.mem_cons_of_mem _ member)
      cases held : handler.file with
      | none =>
        rw [List.filterMap_cons_none held]
        exact rest.trans (((List.sublist_cons_self handler handlers).filter _).length_le)
      | some pointer =>
        have running := (holders handler List.mem_cons_self).running held
        rw [List.filterMap_cons_some held]
        simpa [running] using rest
  rw [pointers, List.length_append, FileStore.pointers, List.length_map]
  exact Nat.add_le_add_left (fewer s.handlers holders) _

end FileServer

/-- The mapping that a handler sends from, or that the cache can still hand out, is not
undone before the handler has ended and the cache has dropped it; then it is, and once. So
there are no more mappings than places in the cache and running handlers, and the open
descriptors are those of the mappings that are left. -/
theorem mappings_live_while_held {capacity : Nat} (positive : 0 < capacity) (webRoot : Path)
    (s : FileServer)
    (reached : (FileServer.machine webRoot).Reachable { store := { cache := { capacity } } } s) :
    let blocks := s.store.mappings.blocks
    let cached := fun pointer => ∃ node ∈ s.store.cache.cacheList, node.value = pointer
    let held := fun pointer => ∃ handler ∈ s.handlers, handler.task.running = true ∧
      handler.task.file = some pointer.value ∧ handler.file = some pointer
    (∀ handler ∈ s.handlers, handler.task.running = true →
        handler.task.file = handler.file.map Shared.value) ∧
      (∀ pointer, cached pointer ∨ held pointer → pointer.id ∉ blocks.destroyed.map Shared.id) ∧
      (blocks.destroyed.map Shared.id).Nodup ∧
      (∀ id < blocks.allocated, id ∉ blocks.destroyed.map Shared.id →
        ∃ pointer, pointer.id = id ∧ (cached pointer ∨ held pointer)) ∧
      blocks.allocated ≤ blocks.destroyed.length + capacity +
        (s.handlers.filter fun handler => handler.task.running).length ∧
      ∀ fd, s.store.mappings.descriptors fd = true ↔
        fd ≥ 0 ∧ ∃ pointer, (cached pointer ∨ held pointer) ∧ pointer.value.mFile.fd = fd := by
  intro blocks cached held
  have lending := Lending.reachable positive reached
  have kept := lending.kept
  have own : ∀ handler ∈ s.handlers, handler.task.running = true →
      handler.task.file = handler.file.map Shared.value := fun handler member running =>
    (if_pos running).mp (lending.holders handler member)
  have listed : ∀ pointer, pointer ∈ s.pointers ↔ cached pointer ∨ held pointer := by
    intro pointer
    rw [FileServer.mem_pointers]
    refine or_congr_right (exists_congr fun handler => and_congr_right fun member => ?_)
    constructor
    · intro points
      have running := (lending.holders handler member).running points
      exact ⟨running, by rw [own handler member running, points, Option.map_some], points⟩
    · exact fun points => points.2.2
  refine ⟨own, fun pointer there gone => ?_, kept.once, fun id made left => ?_, ?_, fun fd => ?_⟩
  · obtain ⟨other, member, same⟩ := List.mem_map.mp gone
    have absent := (kept.gone other member).2
    exact absent (same ▸ List.mem_map_of_mem ((listed pointer).mpr there))
  · rcases kept.whole id made with member | gone
    · obtain ⟨pointer, there, same⟩ := List.mem_map.mp member
      exact ⟨pointer, same, (listed pointer).mp there⟩
    · exact absurd gone left
  · have made := kept.allocated_le
    have pointers := FileServer.pointers_length lending.holders
    have bounded := lending.coherent.bounded
    rw [lending.capacity] at bounded
    change s.store.mappings.blocks.allocated ≤ s.store.mappings.blocks.destroyed.length + _ + _
    omega
  · rw [kept.open_iff]
    simp only [listed]

/-- A request for a page, whatever type it has. -/
def anyType (uri : Path) : HttpRequest :=
  { method := .get, uri := uri, headers := (∅ : HttpHeaders).insert (bytes "Accept") (bytes "*/*") }

/-- The only place of the cache goes to the second page while the first is still sent; the
mapping of the first ends with its handler. -/
theorem evicted_mapping_lives_on :
    let machine := FileServer.machine (bytes "/srv")
    let start : FileServer := { store := { cache := { capacity := 1 } } }
    let sending := machine.exec start [.start (anyType (bytes "/a.html")) twoByteFiles,
      .start (anyType (bytes "/b.html")) { twoByteFiles with openFile := fun _ => 4 }]
    let ended := machine.exec sending [.send 0 (.failed 104)]
    sending.store.pointers.map Shared.id = [1] ∧
      sending.store.mappings.blocks.destroyed.map Shared.id = [] ∧
      ended.store.mappings.blocks.destroyed.map Shared.id = [0] ∧
      ended.store.mappings.blocks.allocated ≤ ended.store.mappings.blocks.destroyed.length + 1 +
        (ended.handlers.filter fun handler => handler.task.running).length := by
  intro machine start sending ended
  have nothing : machine.Reachable start start := ⟨[], trivial, rfl⟩
  have first := nothing.next (.start (anyType (bytes "/a.html")) twoByteFiles) ⟨rfl, fun _ _ => rfl⟩
  have second : machine.Reachable start sending :=
    first.next (.start (anyType (bytes "/b.html")) { twoByteFiles with openFile := fun _ => 4 })
      ⟨rfl, fun _ _ => rfl⟩
  have reached : machine.Reachable start ended :=
    second.next (.send 0 (.failed 104)) ⟨rfl, _, rfl, rfl⟩
  exact ⟨rfl, rfl, rfl, (mappings_live_while_held Nat.one_pos (bytes "/srv") ended reached).2.2.2.2.1⟩

end CoroMultiplex.Server
