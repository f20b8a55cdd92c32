import CoroMultiplex.Foundations.Paging
import CoroMultiplex.Storage.Recall

/-! How often the file cache opens files, against any other way to keep files in memory. -/

set_option autoImplicit false

namespace CoroMultiplex.Storage

open Foundations Http

section Answers

variable {Key Class Value Effect Thrown : Type} {capacity : Nat}

/-- A request for a key, with what builds its value at that time. -/
structure Request (Key Value Effect Thrown : Type) where
  build : Key → Built Value Effect Thrown
  key : Key

def Request.call (request : Request Key Value Effect Thrown) : Call Key Value Effect Thrown :=
  .get request.build request.key

/-- Whether a value was returned, neither the null pointer nor an exception. -/
def found : Except (Halt Thrown) (Reply Value) → Bool
  | .ok (.value (some _)) => true
  | _ => false

/-- The classes of the keys that were answered with a value, in order. -/
def answered (T : Traits Key Class Value) :
    List (Request Key Value Effect Thrown) → List (List Effect × Except (Halt Thrown) (Reply Value)) →
      List Class
  | request :: requests, (_, answer) :: answers =>
    if found answer then T.classOf request.key :: answered T requests answers
    else answered T requests answers
  | _, _ => []

/-- The answers without a value. -/
def refused (answers : List (List Effect × Except (Halt Thrown) (Reply Value))) : Nat :=
  answers.countP (!found ·.2)

def effectsOf (counts : Effect → Bool)
    (answers : List (List Effect × Except (Halt Thrown) (Reply Value))) : Nat :=
  (answers.flatMap Prod.fst).countP counts

/-- Each build has one of the effects that are counted. -/
def Once (counts : Effect → Bool) (request : Request Key Value Effect Thrown) : Prop :=
  (request.build request.key).1.countP counts = 1

theorem effectsOf_cons (counts : Effect → Bool) (effects : List Effect)
    (answer : Except (Halt Thrown) (Reply Value))
    (answers : List (List Effect × Except (Halt Thrown) (Reply Value))) :
    effectsOf counts ((effects, answer) :: answers) =
      effects.countP counts + effectsOf counts answers := by
  rw [effectsOf, List.flatMap_cons, List.countP_append, effectsOf]

theorem refused_cons (effects : List Effect) (answer : Except (Halt Thrown) (Reply Value))
    (answers : List (List Effect × Except (Halt Thrown) (Reply Value))) :
    refused ((effects, answer) :: answers) = refused answers + if found answer then 0 else 1 := by
  rw [refused, List.countP_cons, refused]
  cases found answer <;> rfl

variable [DecidableEq Class] {T : Traits Key Class Value} {cache : LruCache Class Value}
variable {reference : Recency Class Value capacity} {counts : Effect → Bool}

theorem answers_cons (call : Call Key Value Effect Thrown) (calls : List (Call Key Value Effect Thrown)) :
    (cache.run T (call :: calls)).2 =
      ((cache.perform T call).1, (cache.perform T call).2.2) ::
        ((cache.perform T call).2.1.run T calls).2 := rfl

/-- An answer with a value touches the key, and builds it on a fault only; other answers
leave the keys as they are. -/
theorem Mirrors.request (mirrors : Mirrors T cache reference) {request : Request Key Value Effect Thrown}
    (honest : T.Honest request.build) (once : Once counts request) :
    let keys := reference.pairs.map Prod.fst
    let ran := cache.perform T request.call
    ∃ after : Recency Class Value capacity, Mirrors T ran.2.1 after ∧
      if found ran.2.2 then
        after.pairs.map Prod.fst = touch capacity keys (T.classOf request.key) ∧
          ran.1.countP counts = if T.classOf request.key ∈ keys then 0 else 1
      else after = reference ∧ ran.1.countP counts = 1 := by
  intro keys ran
  obtain ⟨effects, kept, answer⟩ := mirrors.get honest request.key
  refine ⟨_, kept, ?_⟩
  simp only [ran, Request.call, LruCache.perform, effects, answer]
  cases present : reference.find (T.classOf request.key) with
  | some value =>
    have listed : T.classOf request.key ∈ keys := by
      by_contra absent
      rw [(reference.find_eq_none _).mpr absent] at present
      cases present
    simp only [Recency.get, present]
    exact ⟨reference.keys_use _ _, by rw [if_pos listed]; rfl⟩
  | none =>
    have absent := (reference.find_eq_none _).mp present
    rw [Once] at once
    rcases built : request.build request.key with ⟨calls, thrown | _ | value⟩ <;>
      rw [built] at once <;> simp only [Recency.get, present]
    · exact ⟨trivial, once⟩
    · exact ⟨trivial, once⟩
    · exact ⟨reference.keys_use _ _, by rw [if_neg absent]; exact once⟩

/-- What is counted are the faults of the requests that are answered, and the refusals. -/
theorem Mirrors.counted (mirrors : Mirrors T cache reference)
    {requests : List (Request Key Value Effect Thrown)}
    (honest : ∀ request ∈ requests, T.Honest request.build)
    (once : ∀ request ∈ requests, Once counts request) :
    let answers := (cache.run T (requests.map Request.call)).2
    effectsOf counts answers =
      faults capacity (reference.pairs.map Prod.fst) (answered T requests answers) +
        refused answers := by
  induction requests generalizing cache reference with
  | nil => rfl
  | cons request requests ih =>
    obtain ⟨after, kept, step⟩ := mirrors.request (honest request List.mem_cons_self)
      (once request List.mem_cons_self)
    have rest := ih kept (fun other member => honest other (List.mem_cons_of_mem _ member))
      fun other member => once other (List.mem_cons_of_mem _ member)
    simp only [List.map_cons, answers_cons, effectsOf_cons, refused_cons, answered] at step rest ⊢
    cases answer : found (cache.perform T request.call).2.2 with
    | true =>
      simp only [answer, if_true] at step
      rw [step.1] at rest
      simp only [if_true, faults, step.2, rest]
      omega
    | false =>
      simp only [answer, Bool.false_eq_true, if_false] at step
      obtain ⟨rfl, counted⟩ := step
      simp only [Bool.false_eq_true, if_false, counted, rest]
      omega

end Answers

namespace SysCall

def isOpen : SysCall → Bool
  | .openPath _ => true
  | _ => false

end SysCall

/-- A request for a file, with what the operating system answers meanwhile. -/
def fileRequest (os : Os) (p : Path) : Request Path FileCache SysCall Exception where
  build := FileCache.build os
  key := p

theorem FileCache.build_once (os : Os) (p : Path) : Once SysCall.isOpen (fileRequest os p) := by
  change (build os p).1.countP SysCall.isOpen = 1
  unfold build RegularFile.open
  by_cases refused : os.openFile (cStr p) < 0
  · simp [refused, List.countP_cons, SysCall.isOpen]
  · cases os.fileSize (cStr p) with
    | error thrown => simp [refused, List.countP_cons, SysCall.isOpen]
    | ok size =>
      simp only [refused, if_false, map]
      cases os.mmap (os.openFile (cStr p)) size <;> rfl

/-- For every `capacity - room + 1` files that any other way to keep at most `room` files in
memory loads to serve the requests that are answered, the cache opens at most `capacity`
files, but for its first `capacity` ones and the requests without an answer. -/
theorem file_cache_is_competitive {capacity room : Nat} (positive : 0 < capacity)
    (fits : room ≤ capacity) (requests : List (Os × Path)) :
    let asked := requests.map fun request => fileRequest request.1 request.2
    let answers := (LruCache.run FileCache.traits { capacity } (asked.map Request.call)).2
    ∀ schedule, Serves room (answered FileCache.traits asked answers) schedule →
      (capacity - room + 1) * effectsOf SysCall.isOpen answers ≤
        capacity * loads ∅ schedule + (capacity - room + 1) * (capacity + refused answers) := by
  intro asked answers schedule serves
  have mirrors : Mirrors FileCache.traits { capacity } (Recency.empty positive) :=
    ⟨rfl, rfl, .empty positive⟩
  have honest : ∀ request ∈ asked, FileCache.traits.Honest request.build := by
    intro request member
    obtain ⟨pair, _, rfl⟩ := List.mem_map.mp member
    exact FileCache.build_honest pair.1
  have once : ∀ request ∈ asked, Once SysCall.isOpen request := by
    intro request member
    obtain ⟨pair, _, rfl⟩ := List.mem_map.mp member
    exact FileCache.build_once pair.1 pair.2
  have counted : effectsOf SysCall.isOpen answers =
      faults capacity [] (answered FileCache.traits asked answers) + refused answers :=
    mirrors.counted honest once
  have few := faults_competitive positive fits serves
  rw [counted, Nat.mul_add, Nat.mul_add]
  omega

/-- Two of three requests are opened where a single file in memory is loaded three times. -/
theorem two_files_against_one :
    let requests := [(twoByteFiles, bytes "/a"), (twoByteFiles, bytes "/b"), (twoByteFiles, bytes "/a")]
    let asked := requests.map fun request => fileRequest request.1 request.2
    let answers := (LruCache.run FileCache.traits { capacity := 2 } (asked.map Request.call)).2
    effectsOf SysCall.isOpen answers = 2 ∧
      2 * effectsOf SysCall.isOpen answers ≤
        2 * loads ∅ [{[bytes "/", bytes "a"]}, {[bytes "/", bytes "b"]}, {[bytes "/", bytes "a"]}] +
          2 * (2 + refused answers) := by
  intro requests asked answers
  refine ⟨by decide, file_cache_is_competitive Nat.two_pos Nat.one_lt_two.le requests _ ?_⟩
  have same : answered FileCache.traits asked answers =
      [[bytes "/", bytes "a"], [bytes "/", bytes "b"], [bytes "/", bytes "a"]] := by decide
  change Serves 1 (answered FileCache.traits asked answers) _
  rw [same]
  simp [Serves]

end CoroMultiplex.Storage
