import CoroMultiplex.Storage.Coherence

/-! The least recently used cache answers as a recency list does. -/

set_option autoImplicit false

namespace CoroMultiplex.Storage

open Foundations

variable {Key Class Value Effect Thrown : Type} [DecidableEq Class] {capacity : Nat}

/-- The calls of a cache, made on a recency list. -/
def onRecency (T : Traits Key Class Value) (reference : Recency Class Value capacity) :
    Call Key Value Effect Thrown →
      List Effect × Recency Class Value capacity × Except Thrown (Reply Value)
  | .get build key =>
    let (effects, after, answer) := reference.get (build key) (T.classOf key)
    (effects, after, answer.map .value)
  | .put build key =>
    let (effects, after, answer) := reference.put (build key) (T.classOf key)
    (effects, after, answer.map .stored)
  | .refresh => ([], reference.refresh, .ok .refreshed)

def onRecencyAll (T : Traits Key Class Value) (reference : Recency Class Value capacity) :
    List (Call Key Value Effect Thrown) → List (List Effect × Except Thrown (Reply Value))
  | [] => []
  | call :: calls =>
    let (effects, after, answer) := onRecency T reference call
    (effects, answer) :: onRecencyAll T after calls

/-- The pairs of a recency list are the nodes of the cache, in the same order. -/
structure Mirrors (T : Traits Key Class Value) (cache : LruCache Class Value)
    (reference : Recency Class Value capacity) : Prop where
  pairs : reference.pairs = cache.cacheList.map fun node => (T.nodeClass node, node.value)
  capacity : cache.capacity = capacity
  coherent : Coherent T cache

namespace Mirrors

variable {T : Traits Key Class Value} {cache : LruCache Class Value}
variable {reference : Recency Class Value capacity}

theorem find_absent (mirrors : Mirrors T cache reference) {key : Class} (absent : key ∉ cache.map) :
    reference.find key = none := by
  have classes : reference.pairs.map Prod.fst = cache.cacheList.map T.nodeClass := by
    rw [mirrors.pairs, List.map_map]
    rfl
  rwa [Recency.find_eq_none, classes, ← mirrors.coherent.mem_map]

theorem fetched (mirrors : Mirrors T cache reference) {key : Class} {value : Value}
    {after : LruCache Class Value} (fetched : Fetched T cache key value after) :
    reference.find key = some value ∧ Mirrors T after (reference.use key value) := by
  obtain ⟨front, node, back, split, rfl, rfl, moved⟩ := fetched.list
  have pairs := mirrors.pairs
  rw [split, List.map_append, List.map_cons] at pairs
  refine ⟨reference.find_split pairs, ?_, fetched.capacity.trans mirrors.capacity, fetched.coherent⟩
  rw [reference.pairs_use_present pairs, moved, List.map_cons, List.map_append]

theorem filled (mirrors : Mirrors T cache reference) {key : Key} {value : Value}
    {after : LruCache Class Value} (absent : T.classOf key ∉ cache.map)
    (named : T.classOf (T.path value) = T.classOf key) (filled : Filled T cache value after) :
    Mirrors T after (reference.use (T.classOf key) value) := by
  obtain ⟨address, list⟩ := filled.list
  refine ⟨?_, filled.capacity.trans mirrors.capacity, filled.coherent⟩
  have missing := (Recency.find_eq_none _ _).mp (mirrors.find_absent absent)
  rw [reference.pairs_use_absent missing, list, mirrors.pairs, List.length_map, mirrors.capacity,
    List.map_cons]
  have head : T.nodeClass ⟨address, value⟩ = T.classOf key := named
  split <;> simp [head, List.map_dropLast]

/-- An absent key is built on both sides. -/
theorem missed (mirrors : Mirrors T cache reference) {build : Key → Built Value Effect Thrown}
    (honest : T.Honest build) {key : Key} (absent : T.classOf key ∉ cache.map)
    {after : LruCache Class Value} {answer : Except (Halt Thrown) (Option Value)}
    (missed : Missed T cache (build key).2 after answer) :
    (reference.get (build key) (T.classOf key)).1 = (build key).1 ∧
      Mirrors T after (reference.get (build key) (T.classOf key)).2.1 ∧
      answer = (reference.get (build key) (T.classOf key)).2.2.mapError .thrown := by
  rcases built : build key with ⟨effects, outcome⟩
  simp only [built] at missed
  simp only [Recency.get, mirrors.find_absent absent]
  cases missed with
  | threw thrown => exact ⟨rfl, mirrors, rfl⟩
  | failed => exact ⟨rfl, mirrors, rfl⟩
  | filled filled =>
    exact ⟨rfl, mirrors.filled absent (honest key _ (by rw [built])) filled, rfl⟩

theorem get (mirrors : Mirrors T cache reference) {build : Key → Built Value Effect Thrown}
    (honest : T.Honest build) (key : Key) :
    (cache.get T build key).1 = (reference.get (build key) (T.classOf key)).1 ∧
      Mirrors T (cache.get T build key).2.1 (reference.get (build key) (T.classOf key)).2.1 ∧
      (cache.get T build key).2.2 =
        (reference.get (build key) (T.classOf key)).2.2.mapError .thrown := by
  by_cases present : T.classOf key ∈ cache.map
  · obtain ⟨after, value, found, same⟩ :=
      LruCache.get_present build mirrors.coherent present
    obtain ⟨stored, moved⟩ := mirrors.fetched found
    simp only [same, Recency.get, stored]
    exact ⟨trivial, moved, rfl⟩
  · obtain ⟨after, answer, missed, same⟩ := LruCache.get_absent mirrors.coherent honest present
    obtain ⟨effects, kept, answered⟩ := mirrors.missed honest present missed
    rw [same]
    exact ⟨effects.symm, kept, answered⟩

theorem put (mirrors : Mirrors T cache reference) {build : Key → Built Value Effect Thrown}
    (honest : T.Honest build) (key : Key) :
    (cache.put T build key).1 = (reference.put (build key) (T.classOf key)).1 ∧
      Mirrors T (cache.put T build key).2.1 (reference.put (build key) (T.classOf key)).2.1 ∧
      (cache.put T build key).2.2 =
        (reference.put (build key) (T.classOf key)).2.2.mapError .thrown := by
  by_cases present : T.classOf key ∈ cache.map
  · obtain ⟨after, value, found, _⟩ := LruCache.get_present build mirrors.coherent present
    have stored := (mirrors.fetched found).1
    simp only [LruCache.put_present present, Recency.put, stored]
    exact ⟨trivial, mirrors, rfl⟩
  · obtain ⟨after, answer, missed, same⟩ := LruCache.put_absent mirrors.coherent honest present
    obtain ⟨effects, kept, answered⟩ := mirrors.missed honest present missed
    rw [same, reference.put_absent (mirrors.find_absent present)]
    refine ⟨effects.symm, kept, ?_⟩
    rw [answered]
    cases (reference.get (build key) (T.classOf key)).2.2 <;> rfl

omit [DecidableEq Class] in
theorem refresh (mirrors : Mirrors T cache reference) : Mirrors T cache.refresh reference.refresh where
  pairs := rfl
  capacity := mirrors.capacity
  coherent := mirrors.coherent.refresh

theorem perform (mirrors : Mirrors T cache reference) {call : Call Key Value Effect Thrown}
    (honest : call.Honest T) :
    (cache.perform T call).1 = (onRecency T reference call).1 ∧
      Mirrors T (cache.perform T call).2.1 (onRecency T reference call).2.1 ∧
      (cache.perform T call).2.2 = (onRecency T reference call).2.2.mapError .thrown := by
  cases call with
  | get build key =>
    obtain ⟨effects, kept, answer⟩ := mirrors.get honest key
    refine ⟨effects, kept, ?_⟩
    simp only [LruCache.perform, onRecency, answer]
    cases (reference.get (build key) (T.classOf key)).2.2 <;> rfl
  | put build key =>
    obtain ⟨effects, kept, answer⟩ := mirrors.put honest key
    refine ⟨effects, kept, ?_⟩
    simp only [LruCache.perform, onRecency, answer]
    cases (reference.put (build key) (T.classOf key)).2.2 <;> rfl
  | refresh => exact ⟨rfl, mirrors.refresh, rfl⟩

end Mirrors

theorem run_eq_onRecencyAll {T : Traits Key Class Value} {cache : LruCache Class Value}
    {reference : Recency Class Value capacity} (mirrors : Mirrors T cache reference)
    (calls : List (Call Key Value Effect Thrown)) (honest : ∀ call ∈ calls, call.Honest T) :
    (cache.run T calls).2 =
      (onRecencyAll T reference calls).map fun answer => (answer.1, answer.2.mapError .thrown) := by
  induction calls generalizing cache reference with
  | nil => rfl
  | cons call calls ih =>
    obtain ⟨effects, kept, answer⟩ := mirrors.perform (honest call List.mem_cons_self)
    have later := ih kept fun call member => honest call (List.mem_cons_of_mem _ member)
    simp only [LruCache.run, onRecencyAll, List.map_cons, effects, answer, later]

/-- Any sequence of calls is answered, with the same effects of the same builds, as by
a recency list of at most `capacity` pairs. -/
theorem cache_refines_recency (T : Traits Key Class Value) (positive : 0 < capacity)
    (calls : List (Call Key Value Effect Thrown)) (honest : ∀ call ∈ calls, call.Honest T) :
    (LruCache.run T { capacity } calls).2 =
      (onRecencyAll T (Recency.empty positive) calls).map
        fun answer => (answer.1, answer.2.mapError .thrown) :=
  run_eq_onRecencyAll ⟨rfl, rfl, .empty positive⟩ calls honest

/-- A builder that stamps its values, to tell one build of a key from the next. -/
def stampedWith (stamp key : Nat) : Built (Nat × Nat) Nat Empty := ([key], .ok (some (key, stamp)))

def stampedTraits : Traits Nat Nat (Nat × Nat) where
  classOf := id
  path := Prod.fst

theorem stampedWith_honest (stamp : Nat) : stampedTraits.Honest (stampedWith stamp) := by
  intro key value built
  cases built
  rfl

theorem cache_refines_recency_through_evictions :
    (LruCache.run stampedTraits { capacity := 2 }
      [.get (stampedWith 10) 1, .get (stampedWith 20) 2, .get (stampedWith 30) 1,
        .put (stampedWith 40) 3, .get (stampedWith 50) 1, .get (stampedWith 60) 2]).2 =
      [([1], .ok (.value (some (1, 10)))), ([2], .ok (.value (some (2, 20)))),
        ([], .ok (.value (some (1, 10)))), ([3], .ok (.stored true)),
        ([], .ok (.value (some (1, 10)))), ([2], .ok (.value (some (2, 60))))] := by
  rw [cache_refines_recency stampedTraits Nat.two_pos]
  · rfl
  · intro call member
    simp only [List.mem_cons, List.not_mem_nil, or_false] at member
    rcases member with rfl | rfl | rfl | rfl | rfl | rfl <;> exact stampedWith_honest _

end CoroMultiplex.Storage
