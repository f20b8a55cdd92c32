import CoroMultiplex.Storage.FileCache
import CoroMultiplex.Storage.Lru

/-! The list and the map of the least recently used cache agree after every call. -/

set_option autoImplicit false

namespace CoroMultiplex.Storage

open Foundations

variable {Key Class Value Effect Thrown : Type}

namespace Traits

def nodeClass (T : Traits Key Class Value) (node : Node Value) : Class := T.classOf (T.path node.value)

/-- The map entry that points to a node. -/
def entry (T : Traits Key Class Value) (node : Node Value) : Sigma fun _ : Class => Nat :=
  ⟨T.nodeClass node, node.address⟩

/-- What is built for a key says so. -/
def Honest (T : Traits Key Class Value) (build : Key → Built Value Effect Thrown) : Prop :=
  ∀ key value, (build key).2 = .ok (some value) → T.classOf (T.path value) = T.classOf key

end Traits

def Call.Honest (T : Traits Key Class Value) : Call Key Value Effect Thrown → Prop
  | .get build _ => T.Honest build
  | .put build _ => T.Honest build
  | .refresh => True

/-- Cached files, found by the components of their paths. -/
def FileCache.traits : Traits Path (List Bytes) FileCache where
  classOf := Path.components
  path := FileCache.path

theorem FileCache.build_honest (os : Os) : FileCache.traits.Honest (FileCache.build os) := by
  intro key value built
  exact congrArg Path.components (FileCache.path_of_build built)

structure Coherent (T : Traits Key Class Value) (cache : LruCache Class Value) : Prop where
  index : cache.map.entries.Perm (cache.cacheList.map T.entry)
  addresses : (cache.cacheList.map Node.address).Nodup
  fresh : ∀ node ∈ cache.cacheList, node.address < cache.nextNode
  bounded : cache.cacheList.length ≤ cache.capacity
  positive : 0 < cache.capacity

namespace Coherent

variable {T : Traits Key Class Value} {cache : LruCache Class Value}

theorem empty {capacity : Nat} (positive : 0 < capacity) :
    Coherent T ({ capacity } : LruCache Class Value) where
  index := .nil
  addresses := List.nodup_nil
  fresh := by simp
  bounded := Nat.zero_le _
  positive := positive

theorem refresh (coherent : Coherent T cache) : Coherent T cache.refresh where
  index := .nil
  addresses := List.nodup_nil
  fresh := by simp [LruCache.refresh]
  bounded := Nat.zero_le _
  positive := coherent.positive

theorem keys_perm (coherent : Coherent T cache) :
    cache.map.keys.Perm (cache.cacheList.map T.nodeClass) := by
  have keys := coherent.index.map Sigma.fst
  rw [List.map_map] at keys
  exact keys

theorem classes (coherent : Coherent T cache) : (cache.cacheList.map T.nodeClass).Nodup :=
  coherent.keys_perm.nodup_iff.mp cache.map.keys_nodup

theorem size (coherent : Coherent T cache) : cache.map.size = cache.cacheList.length := by
  have length := coherent.index.length_eq
  rwa [List.length_map] at length

/-- A node is found under its address. -/
theorem node?_eq (coherent : Coherent T cache) {node : Node Value} (member : node ∈ cache.cacheList) :
    cache.node? node.address = some node := by
  obtain ⟨front, back, split⟩ := List.append_of_mem member
  have addresses := coherent.addresses
  rw [split, List.map_append, List.nodup_append] at addresses
  rw [LruCache.node?, List.find?_eq_some_iff_append]
  refine ⟨by simp, front, back, split, ?_⟩
  intro other before
  have differs := addresses.2.2 other.address (List.mem_map_of_mem before) node.address (by simp)
  simpa using differs

theorem mem_map (coherent : Coherent T cache) (key : Class) :
    key ∈ cache.map ↔ key ∈ cache.cacheList.map T.nodeClass := by
  rw [AList.mem_keys, coherent.keys_perm.mem_iff]

/-- Reordering the list keeps it in agreement with the map. -/
theorem reorder (coherent : Coherent T cache) {list : List (Node Value)}
    (order : cache.cacheList.Perm list) : Coherent T { cache with cacheList := list } where
  index := coherent.index.trans (order.map T.entry)
  addresses := (order.map Node.address).nodup_iff.mp coherent.addresses
  fresh node member := coherent.fresh node (order.mem_iff.mpr member)
  bounded := order.length_eq ▸ coherent.bounded
  positive := coherent.positive

variable [DecidableEq Class]

theorem lookup_eq_some (coherent : Coherent T cache) (key : Class) (iterator : Nat) :
    cache.map.lookup key = some iterator ↔
      ∃ node ∈ cache.cacheList, node.address = iterator ∧ T.nodeClass node = key := by
  have listed := (@AList.mem_lookup_iff _ _ _ key iterator cache.map).trans coherent.index.mem_iff
  rw [← Option.mem_def, listed, List.mem_map]
  constructor
  · rintro ⟨node, member, same⟩
    cases same
    exact ⟨node, member, rfl, rfl⟩
  · rintro ⟨node, member, rfl, rfl⟩
    exact ⟨node, member, rfl⟩

/-- A present key has one node, and its iterator leads there. -/
theorem present (coherent : Coherent T cache) {key : Class} (present : key ∈ cache.map) :
    ∃ front node back, cache.cacheList = front ++ node :: back ∧ T.nodeClass node = key ∧
      cache.map.lookup key = some node.address := by
  rw [coherent.mem_map, List.mem_map] at present
  obtain ⟨node, member, same⟩ := present
  obtain ⟨front, back, split⟩ := List.append_of_mem member
  exact ⟨front, node, back, split, same, (coherent.lookup_eq_some key _).mpr ⟨node, member, rfl, same⟩⟩

theorem at?_eq (coherent : Coherent T cache) {key : Key} {node : Node Value}
    (member : node ∈ cache.cacheList) (same : T.nodeClass node = T.classOf key) :
    cache.at? T key = some node.value := by
  have found := (coherent.lookup_eq_some _ _).mpr ⟨node, member, rfl, same⟩
  simp [LruCache.at?, found, coherent.node?_eq member]

theorem evict (coherent : Coherent T cache) {front : List (Node Value)} {endNode : Node Value}
    (split : cache.cacheList = front ++ [endNode]) :
    Coherent T { cache with
      map := cache.map.erase (T.nodeClass endNode)
      cacheList := front } where
  index := by
    have classes := coherent.classes
    rw [split, List.map_append, List.nodup_append] at classes
    have elsewhere : T.nodeClass endNode ∉ (front.map T.entry).keys := by
      intro twice
      rw [List.keys, List.map_map] at twice
      exact classes.2.2 _ twice _ (by simp) rfl
    have erased := @List.Perm.kerase _ _ _ (T.nodeClass endNode) _ _ cache.map.nodupKeys coherent.index
    rw [split, List.map_append, List.kerase_append_right elsewhere] at erased
    have last : List.kerase (T.nodeClass endNode) ([endNode].map T.entry) = [] := by
      simp [Traits.entry]
    rwa [last, List.append_nil] at erased
  addresses := by
    have addresses := coherent.addresses
    rw [split, List.map_append] at addresses
    exact addresses.sublist (List.sublist_append_left _ _)
  fresh node member := coherent.fresh node (by simp [split, member])
  bounded := by
    have bounded := coherent.bounded
    rw [split, List.length_append] at bounded
    exact Nat.le_of_add_right_le bounded
  positive := coherent.positive

theorem pushFront (coherent : Coherent T cache) {key : Key} {value : Value}
    (named : T.classOf (T.path value) = T.classOf key) (absent : T.classOf key ∉ cache.map)
    (room : cache.cacheList.length < cache.capacity) : Coherent T (cache.pushFront T key value) where
  index := by
    have head : T.entry ⟨cache.nextNode, value⟩ = ⟨T.classOf key, cache.nextNode⟩ := by
      rw [Traits.entry, Traits.nodeClass, named]
    rw [LruCache.pushFront, AList.entries_insert_of_notMem absent, List.map_cons, head]
    exact coherent.index.cons _
  addresses := by
    rw [LruCache.pushFront, List.map_cons, List.nodup_cons]
    constructor
    · intro twice
      obtain ⟨node, member, same⟩ := List.mem_map.mp twice
      have older := coherent.fresh node member
      rw [same] at older
      exact Nat.lt_irrefl _ older
    · exact coherent.addresses
  fresh := by
    intro node member
    rcases List.mem_cons.mp member with rfl | member
    · exact Nat.lt_succ_self _
    · exact Nat.lt_succ_of_lt (coherent.fresh node member)
  bounded := by
    rw [LruCache.pushFront, List.length_cons]
    exact room
  positive := coherent.positive

end Coherent

/-- A node with a new value in front of the others, the last of which is dropped
when the cache is full. -/
structure Filled (T : Traits Key Class Value) (cache : LruCache Class Value) (value : Value)
    (after : LruCache Class Value) : Prop where
  list : ∃ address, after.cacheList = ⟨address, value⟩ ::
    if cache.cacheList.length = cache.capacity then cache.cacheList.dropLast else cache.cacheList
  capacity : after.capacity = cache.capacity
  coherent : Coherent T after

/-- What an absent key comes to, by what is built for it. -/
inductive Missed (T : Traits Key Class Value) (cache : LruCache Class Value) :
    Except Thrown (Option Value) → LruCache Class Value → Except (Halt Thrown) (Option Value) → Prop
  | threw (thrown : Thrown) : Missed T cache (.error thrown) cache (.error (.thrown thrown))
  | failed : Missed T cache (.ok none) cache (.ok none)
  | filled {value : Value} {after : LruCache Class Value} (filled : Filled T cache value after) :
      Missed T cache (.ok (some value)) after (.ok (some value))

theorem Missed.keeps {T : Traits Key Class Value} {cache after : LruCache Class Value}
    {outcome : Except Thrown (Option Value)} {answer : Except (Halt Thrown) (Option Value)}
    (missed : Missed T cache outcome after answer) (coherent : Coherent T cache) :
    Coherent T after ∧ after.capacity = cache.capacity ∧ answer ≠ .error .undefined := by
  cases missed with
  | threw thrown => exact ⟨coherent, rfl, fun same => by cases same⟩
  | failed => exact ⟨coherent, rfl, fun same => by cases same⟩
  | filled filled => exact ⟨filled.coherent, filled.capacity, fun same => by cases same⟩

/-- A node moved to the front of the list. -/
structure Fetched (T : Traits Key Class Value) (cache : LruCache Class Value) (key : Class)
    (value : Value) (after : LruCache Class Value) : Prop where
  list : ∃ front node back, cache.cacheList = front ++ node :: back ∧ T.nodeClass node = key ∧
    node.value = value ∧ after.cacheList = node :: (front ++ back)
  capacity : after.capacity = cache.capacity
  coherent : Coherent T after

namespace LruCache

variable [DecidableEq Class] {T : Traits Key Class Value} {cache : LruCache Class Value}
variable {build : Key → Built Value Effect Thrown} {key : Key}

theorem evict_eq {front : List (Node Value)} {endNode : Node Value}
    (split : cache.cacheList = front ++ [endNode]) :
    cache.evict T = some { cache with
      map := cache.map.erase (T.nodeClass endNode)
      cacheList := front } := by
  have last : cache.cacheList.getLast? = some endNode := by simp [split]
  have rest : cache.cacheList.dropLast = front := by simp [split]
  rw [evict, last, rest]
  rfl

/-- There is room for one more node after the eviction, which never meets an empty list. -/
theorem room_spec (coherent : Coherent T cache) (absent : T.classOf key ∉ cache.map)
    {value : Value} (named : T.classOf (T.path value) = T.classOf key) :
    ∃ roomy, (if cache.map.size = cache.capacity then cache.evict T else some cache) = some roomy ∧
      Filled T cache value (roomy.pushFront T key value) := by
  have positive := coherent.positive
  have bounded := coherent.bounded
  rw [coherent.size]
  by_cases full : cache.cacheList.length = cache.capacity
  · rcases List.eq_nil_or_concat cache.cacheList with empty | ⟨front, endNode, split⟩
    · rw [empty, List.length_nil] at full
      omega
    · rw [List.concat_eq_append] at split
      have stillAbsent : T.classOf key ∉ cache.map.erase (T.nodeClass endNode) :=
        fun member => absent (AList.mem_erase.mp member).2
      have room : front.length < cache.capacity := by
        rw [split, List.length_append, List.length_singleton] at full
        omega
      have rest : cache.cacheList.dropLast = front := by simp [split]
      refine ⟨_, (if_pos full).trans (evict_eq split), ⟨cache.nextNode, ?_⟩, rfl,
        (coherent.evict split).pushFront named stillAbsent room⟩
      rw [if_pos full, rest]
      rfl
  · have room : cache.cacheList.length < cache.capacity := by omega
    refine ⟨cache, if_neg full, ⟨cache.nextNode, ?_⟩, rfl, coherent.pushFront named absent room⟩
    rw [if_neg full]
    rfl

theorem put_present (present : T.classOf key ∈ cache.map) :
    cache.put T build key = ([], cache, .ok false) := by
  rw [put, if_pos present]

theorem put_absent (coherent : Coherent T cache) (honest : T.Honest build)
    (absent : T.classOf key ∉ cache.map) :
    ∃ after answer, Missed T cache (build key).2 after answer ∧
      cache.put T build key = ((build key).1, after, answer.map Option.isSome) := by
  rw [put, if_neg absent]
  rcases same : build key with ⟨effects, outcome⟩
  cases outcome with
  | error thrown => exact ⟨cache, _, .threw thrown, rfl⟩
  | ok built =>
    cases built with
    | none => exact ⟨cache, _, .failed, rfl⟩
    | some value =>
      have named := honest key value (by rw [same])
      obtain ⟨roomy, found, filled⟩ := room_spec coherent absent named
      exact ⟨_, _, .filled filled, by simp only [found]; rfl⟩

/-- A value is found at the front right after it was stored. -/
theorem get_absent (coherent : Coherent T cache) (honest : T.Honest build)
    (absent : T.classOf key ∉ cache.map) :
    ∃ after answer, Missed T cache (build key).2 after answer ∧
      cache.get T build key = ((build key).1, after, answer) := by
  obtain ⟨after, answer, missed, same⟩ := put_absent coherent honest absent
  refine ⟨after, answer, missed, ?_⟩
  rw [get, if_pos absent, same]
  generalize built : (build key).2 = outcome at missed
  cases missed with
  | threw thrown => rfl
  | failed => rfl
  | @filled value after filled =>
    obtain ⟨address, list⟩ := filled.list
    have named : T.classOf (T.path value) = T.classOf key := honest key value built
    have member : ⟨address, value⟩ ∈ after.cacheList := list ▸ List.mem_cons_self
    have found : after.at? T key = some value := filled.coherent.at?_eq member named
    simp [Except.map, found]

theorem moveToFront_eq (coherent : Coherent T cache) {front back : List (Node Value)}
    {node : Node Value} (split : cache.cacheList = front ++ node :: back)
    (found : cache.map.lookup (T.classOf key) = some node.address) :
    cache.moveToFront T key = some { cache with cacheList := node :: (front ++ back) } := by
  have addresses := coherent.addresses
  rw [split, List.map_append, List.nodup_append] at addresses
  have elsewhere : ∀ other ∈ front, other.address ≠ node.address := fun other member =>
    addresses.2.2 other.address (List.mem_map_of_mem member) node.address (by simp)
  simp only [moveToFront, found]
  cases front with
  | nil =>
    have inFront : cache.cacheList.head?.map Node.address = some node.address := by simp [split]
    rw [List.nil_append] at split ⊢
    rw [if_pos inFront, ← split]
  | cons first front =>
    have notFirst : cache.cacheList.head?.map Node.address ≠ some node.address := by
      simpa [split] using elsewhere first List.mem_cons_self
    have member : node ∈ cache.cacheList := by simp [split]
    have rest : cache.cacheList.eraseP (·.address = node.address) = first :: front ++ back := by
      rw [split, List.eraseP_append_right _ (by simpa using elsewhere)]
      simp
    rw [if_neg notFirst, coherent.node?_eq member]
    simp only [rest]

theorem get_present (build : Key → Built Value Effect Thrown) (coherent : Coherent T cache)
    (present : T.classOf key ∈ cache.map) :
    ∃ after value, Fetched T cache (T.classOf key) value after ∧
      cache.get T build key = ([], after, .ok (some value)) := by
  obtain ⟨front, node, back, split, named, found⟩ := coherent.present present
  have moved := moveToFront_eq coherent split found
  have order : cache.cacheList.Perm (node :: (front ++ back)) := by
    rw [split]
    exact List.perm_middle
  have reordered := coherent.reorder order
  have read := reordered.at?_eq List.mem_cons_self named
  refine ⟨{ cache with cacheList := node :: (front ++ back) }, node.value,
    ⟨⟨front, node, back, split, named, rfl, rfl⟩, rfl, reordered⟩, ?_⟩
  rw [get, if_neg (not_not_intro present), moved]
  simp only [read]

theorem map_defined {Answer Other : Type} {wrap : Answer → Other}
    {answer : Except (Halt Thrown) Answer} (defined : answer ≠ .error .undefined) :
    answer.map wrap ≠ .error .undefined := by
  cases answer with
  | error halt => exact fun same => defined (by cases same; rfl)
  | ok reply => exact fun same => by cases same

theorem put_coherent (key : Key) (coherent : Coherent T cache) (honest : T.Honest build) :
    Coherent T (cache.put T build key).2.1 ∧
      (cache.put T build key).2.1.capacity = cache.capacity ∧
      (cache.put T build key).2.2 ≠ .error .undefined := by
  by_cases present : T.classOf key ∈ cache.map
  · rw [put_present present]
    exact ⟨coherent, rfl, fun same => by cases same⟩
  · obtain ⟨after, answer, missed, same⟩ := put_absent coherent honest present
    obtain ⟨kept, capacity, defined⟩ := missed.keeps coherent
    rw [same]
    exact ⟨kept, capacity, map_defined defined⟩

theorem get_coherent (key : Key) (coherent : Coherent T cache) (honest : T.Honest build) :
    Coherent T (cache.get T build key).2.1 ∧
      (cache.get T build key).2.1.capacity = cache.capacity ∧
      (cache.get T build key).2.2 ≠ .error .undefined := by
  by_cases present : T.classOf key ∈ cache.map
  · obtain ⟨after, value, fetched, same⟩ := get_present build coherent present
    rw [same]
    exact ⟨fetched.coherent, fetched.capacity, fun same => by cases same⟩
  · obtain ⟨after, answer, missed, same⟩ := get_absent coherent honest present
    rw [same]
    exact missed.keeps coherent

theorem perform_coherent (coherent : Coherent T cache) {call : Call Key Value Effect Thrown}
    (honest : call.Honest T) :
    Coherent T (cache.perform T call).2.1 ∧
      (cache.perform T call).2.1.capacity = cache.capacity ∧
      (cache.perform T call).2.2 ≠ .error .undefined := by
  cases call with
  | get build key =>
    obtain ⟨kept, capacity, defined⟩ := get_coherent key coherent honest
    exact ⟨kept, capacity, map_defined defined⟩
  | put build key =>
    obtain ⟨kept, capacity, defined⟩ := put_coherent key coherent honest
    exact ⟨kept, capacity, map_defined defined⟩
  | refresh => exact ⟨coherent.refresh, rfl, fun same => by cases same⟩

theorem run_append (first rest : List (Call Key Value Effect Thrown)) :
    (cache.run T (first ++ rest)).1 = ((cache.run T first).1.run T rest).1 := by
  induction first generalizing cache with
  | nil => rfl
  | cons call first ih => exact ih

theorem run_coherent (calls : List (Call Key Value Effect Thrown)) (coherent : Coherent T cache)
    (honest : ∀ call ∈ calls, call.Honest T) :
    Coherent T (cache.run T calls).1 ∧ (cache.run T calls).1.capacity = cache.capacity ∧
      ∀ answer ∈ (cache.run T calls).2, answer.2 ≠ .error .undefined := by
  induction calls generalizing cache with
  | nil => exact ⟨coherent, rfl, by simp [run]⟩
  | cons call calls ih =>
    obtain ⟨kept, same, defined⟩ := perform_coherent coherent (honest call List.mem_cons_self)
    obtain ⟨final, still, later⟩ := ih kept fun call member =>
      honest call (List.mem_cons_of_mem _ member)
    refine ⟨final, still.trans same, ?_⟩
    intro answer member
    rcases List.mem_cons.mp member with rfl | member
    · exact defined
    · exact later answer member

end LruCache

/-- After any sequence of calls the keys of the map are the paths of the nodes, each
entry points to the one live node of its key, and the capacity is respected; no
call takes the last element of an empty list or follows a dangling iterator. -/
theorem cache_map_agrees_with_list [DecidableEq Class] (T : Traits Key Class Value) {capacity : Nat}
    (positive : 0 < capacity) (calls : List (Call Key Value Effect Thrown))
    (honest : ∀ call ∈ calls, call.Honest T) :
    let final := (LruCache.run T { capacity } calls).1
    let answers := (LruCache.run T { capacity } calls).2
    (final.map.keys.Perm (final.cacheList.map fun node => T.classOf (T.path node.value)) ∧
        (final.cacheList.map fun node => T.classOf (T.path node.value)).Nodup) ∧
      (∀ key iterator, final.map.lookup key = some iterator →
        ∃ node, final.node? iterator = some node ∧ node ∈ final.cacheList ∧
          T.classOf (T.path node.value) = key) ∧
      final.map.size = final.cacheList.length ∧ final.cacheList.length ≤ capacity ∧
      ∀ answer ∈ answers, answer.2 ≠ .error .undefined := by
  intro final answers
  obtain ⟨coherent, same, defined⟩ :=
    LruCache.run_coherent calls (@Coherent.empty _ _ _ T _ positive) honest
  refine ⟨⟨coherent.keys_perm, coherent.classes⟩, ?_, coherent.size, ?_, defined⟩
  · intro key iterator found
    obtain ⟨node, member, rfl, named⟩ := (coherent.lookup_eq_some key iterator).mp found
    exact ⟨node, coherent.node?_eq member, member, named⟩
  · have bounded := coherent.bounded
    rwa [same] at bounded

/-- A file system on which every path names a file of two bytes. -/
def twoByteFiles : Os where
  openFile _ := 3
  errno := 0
  fileSize _ := .ok 2
  mmap _ _ := some fun _ => 65

theorem file_cache_agrees_after_eviction :
    let calls := [Call.get (FileCache.build twoByteFiles) (bytes "/a"),
      .get (FileCache.build twoByteFiles) (bytes "/b")]
    let ran := LruCache.run FileCache.traits { capacity := 1 } calls
    ran.1.map.size = ran.1.cacheList.length ∧ ran.1.cacheList.length ≤ 1 ∧
      ∀ answer ∈ ran.2, answer.2 ≠ .error .undefined := by
  intro calls ran
  have honest : ∀ call ∈ calls, call.Honest FileCache.traits := by
    intro call member
    simp only [calls, List.mem_cons, List.not_mem_nil, or_false] at member
    rcases member with rfl | rfl <;> exact FileCache.build_honest twoByteFiles
  exact (cache_map_agrees_with_list FileCache.traits Nat.one_pos calls honest).2.2

end CoroMultiplex.Storage
