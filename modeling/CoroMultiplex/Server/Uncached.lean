import CoroMultiplex.Server.Lending
import CoroMultiplex.Storage.Transparency

/-! Responses do not depend on what is cached.

While the files stay as they are, a handler sends what it would send if each lookup read
the file anew, whichever requests were served before and are served beside it.
-/

set_option autoImplicit false

namespace CoroMultiplex.Server

open Foundations Http Storage

/-- A lookup without a cache. -/
def read (files : Files) (p : Path) : Except Exception (Option FileCache) :=
  .ok ((files p.components).map fun content => { mLoc := content, mPath := p })

namespace ResponseTask

/-- A task is what it sends of its file, and not where the file is. -/
theorem prepare_alike {get : Path → Except Exception (Option FileCache)} {request : HttpRequest}
    {webRoot : Path} {response : HttpResponse} {file found : Option FileCache}
    (responded : HttpResponse.ofRequest request webRoot = .ok response)
    (got : response.status = .ok → get response.uri = .ok found)
    (alike : response.status = .ok → file.map FileCache.data = found.map FileCache.data)
    (asked : response.status ≠ .ok → file = none) :
    ∃ task direct, prepare (fun _ => .ok file) request webRoot = .ok task ∧
      prepare get request webRoot = .ok direct ∧ task.response = direct.response ∧
      task.pieces = direct.pieces := by
  unfold prepare
  simp only [responded]
  by_cases served : response.status = .ok
  · rw [if_pos served, if_pos served, got served]
    have same := alike served
    cases file with
    | none =>
      cases found with
      | none => exact ⟨_, _, rfl, rfl, rfl, rfl⟩
      | some fc => cases same
    | some first =>
      cases found with
      | none => cases same
      | some second =>
        have data : first.data = second.data := Option.some.inj same
        have size : first.size = second.size := congrArg List.length data
        refine ⟨_, _, rfl, rfl, ?_, ?_⟩
        · simp only [make, size]
        · simp [pieces, make, sendsBody, fileData, size, data]
  · rw [if_neg served, if_neg served]
    exact ⟨_, _, rfl, rfl, rfl, rfl⟩

theorem resume_response (self : ResponseTask) (result : SendResult) :
    (self.resume result).response = self.response ∧ (self.resume result).pieces = self.pieces := by
  obtain ⟨phase, same⟩ := self.resume_phase result
  rw [same]
  exact ⟨rfl, rfl⟩

end ResponseTask

/-- The operating system opens these files. -/
def FileServer.Unchanged (files : Files) (_ : FileServer) : FileServer.Event → Prop
  | .start _ os | .put os _ => os.Serves files
  | .send _ _ | .refresh => True

/-- A handler sends what it would send without a cache. -/
def Handler.Direct (files : Files) (webRoot : Path) (handler : Handler) : Prop :=
  ∃ direct, ResponseTask.prepare (read files) handler.request webRoot = .ok direct ∧
    handler.task.response = direct.response ∧ handler.task.pieces = direct.pieces

structure Uncached (files : Files) (webRoot : Path) (s : FileServer) : Prop where
  truthful : Truthful FilePointer.traits (fun pointer => pointer.value.data) files s.store.cache
  direct : ∀ handler ∈ s.handlers, handler.Direct files webRoot

namespace Uncached

variable {capacity : Nat} {files : Files} {webRoot : Path} {s : FileServer}

theorem enter (uncached : Uncached files webRoot s) {store : FileStore} {file : Option FilePointer}
    {request : HttpRequest} {response : HttpResponse}
    (responded : HttpResponse.ofRequest request webRoot = .ok response)
    (truthful : Truthful FilePointer.traits (fun pointer => pointer.value.data) files store.cache)
    (found : response.status = .ok →
      file.map (fun pointer => pointer.value.data) = files response.uri.components)
    (asked : response.status ≠ .ok → file = none) :
    Uncached files webRoot (s.enter webRoot request store file) := by
  have alike : response.status = .ok → (file.map Shared.value).map FileCache.data =
      ((files response.uri.components).map fun content =>
        ({ mLoc := content, mPath := response.uri } : FileCache)).map FileCache.data := by
    intro served
    have seen := found served
    rw [Option.map_map, Option.map_map]
    exact seen.trans (by simp [Function.comp_def, FileCache.data])
  obtain ⟨task, direct, prepared, answered, same, pieces⟩ := ResponseTask.prepare_alike responded
    (fun _ => (rfl : read files response.uri = _)) alike fun other => by rw [asked other, Option.map_none]
  simp only [FileServer.enter, prepared]
  refine ⟨truthful, fun handler member => ?_⟩
  rcases List.mem_append.mp member with old | new
  · exact uncached.direct handler old
  · rw [List.mem_singleton.mp new]
    exact ⟨direct, answered, same, pieces⟩

theorem start (uncached : Uncached files webRoot s) (lending : Lending capacity s)
    (request : HttpRequest) {os : Os} (serves : os.Serves files) :
    Uncached files webRoot (s.start webRoot request os) := by
  unfold FileServer.start
  cases responded : HttpResponse.ofRequest request webRoot with
  | error thrown => exact ⟨uncached.truthful, uncached.direct⟩
  | ok response =>
    by_cases served : response.status = .ok
    · obtain ⟨truthful, found, answered, seen⟩ := uncached.truthful.get lending.coherent
        (s.store.builder_honest os) (s.store.builder_tells serves) response.uri
      obtain ⟨_, cache, answer⟩ := s.store.get_cache os response.uri
      rw [← cache] at truthful
      rw [← answer] at answered
      simp only [if_pos served]
      generalize s.store.get os response.uri = result at truthful answered ⊢
      obtain ⟨calls, store, outcome⟩ := result
      obtain rfl : outcome = .ok found := answered
      exact uncached.enter responded truthful (fun _ => seen) fun other => absurd served other
    · simp only [if_neg served]
      exact uncached.enter responded uncached.truthful (fun other => absurd other served) fun _ => rfl

theorem send (uncached : Uncached files webRoot s) (index : Nat) (result : SendResult) :
    Uncached files webRoot (s.send index result) := by
  unfold FileServer.send
  cases known : s.handlers[index]? with
  | none => exact uncached
  | some handler =>
    obtain ⟨direct, answered, same, pieces⟩ := uncached.direct handler (List.mem_of_getElem? known)
    obtain ⟨response, kept⟩ := handler.task.resume_response result
    have others : ∀ file, ∀ other ∈ s.handlers.set index ⟨handler.request, handler.task.resume result, file⟩,
        other.Direct files webRoot := by
      intro file other member
      rcases List.mem_or_eq_of_mem_set member with old | rfl
      · exact uncached.direct other old
      · exact ⟨direct, answered, response.trans same, kept.trans pieces⟩
    simp only
    split
    · exact ⟨uncached.truthful, others handler.file⟩
    · exact ⟨uncached.truthful, others none⟩

theorem step (uncached : Uncached files webRoot s) (lending : Lending capacity s)
    {event : FileServer.Event} (unchanged : s.Unchanged files event) :
    Uncached files webRoot ((FileServer.machine webRoot).next s event) := by
  cases event with
  | start request os => exact uncached.start lending request unchanged
  | send index result => exact uncached.send index result
  | put os key =>
    refine ⟨?_, uncached.direct⟩
    change Truthful _ _ _ (s.store.put os key).2.1.cache
    rw [(s.store.put_cache os key).2.1]
    exact uncached.truthful.put lending.coherent (s.store.builder_honest os)
      (s.store.builder_tells unchanged) key
  | refresh => exact ⟨fun node member => absurd member List.not_mem_nil, uncached.direct⟩

end Uncached

end CoroMultiplex.Server
