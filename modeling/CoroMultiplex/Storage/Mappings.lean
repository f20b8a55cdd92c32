import CoroMultiplex.Foundations.Sharing
import CoroMultiplex.Storage.Coherence

/-! The file cache with the pointers that it shares.

A mapping is undone and its descriptor closed when the last `shared_ptr` to it is
released, be it by the cache or by whoever has looked it up.
-/

set_option autoImplicit false

namespace CoroMultiplex.Storage

open Foundations Http

abbrev FilePointer := Shared FileCache

structure Mappings where
  blocks : ControlBlocks FileCache := {}
  -- the descriptors of regular files that are open
  descriptors : Int → Bool := fun _ => false

namespace Mappings

/-- `make_shared`, with what the object has opened when its build ends. -/
def make (self : Mappings) (object : FileCache) : Mappings × FilePointer :=
  let (blocks, fc) := self.blocks.makeShared object
  ({ blocks := blocks
     descriptors := if object.mFile.fd ≥ 0 then Function.update self.descriptors object.mFile.fd true
       else self.descriptors }, fc)

def copy (self : Mappings) (pointer : FilePointer) : Mappings :=
  { self with blocks := self.blocks.copy pointer }

/-- The last release runs `~fileCache`, and with it `~regularFile`. -/
def release (self : Mappings) (pointer : FilePointer) : Mappings :=
  { blocks := self.blocks.release pointer
    descriptors := if self.blocks.useCount pointer.id = 1 ∧ pointer.value.mFile.fd ≥ 0 then
        Function.update self.descriptors pointer.value.mFile.fd false
      else self.descriptors }

/-- `fileCacheBuilder::build`, with the object that it has made before it opens the file. -/
def build (self : Mappings) (os : Os) (p : Path) :
    List SysCall × Mappings × Except Exception (Option FilePointer) :=
  match RegularFile.open {} os p with
  | (calls, file, .error thrown) =>
    let (mappings, fc) := self.make { mFile := file }
    (calls, mappings.release fc, .error thrown)
  | (calls, file, .ok (.error _)) =>
    let (mappings, fc) := self.make { mFile := file }
    (calls, mappings.release fc, .ok none)
  | (calls, file, .ok (.ok ())) =>
    let (mapCalls, object, _) := FileCache.map { mFile := file, mPath := p } os
    let (mappings, fc) := self.make object
    (calls ++ mapCalls, mappings, .ok (some fc))

end Mappings

/-- Cached pointers, found by the paths of what they point to. -/
def FilePointer.traits : Traits Path (List Bytes) FilePointer where
  classOf := Path.components
  path pointer := pointer.value.path

/-- `lruCache` of shared files. -/
structure FileStore where
  cache : LruCache (List Bytes) FilePointer
  mappings : Mappings := {}

namespace FileStore

/-- `endNode` copies the last pointer, the list drops its own, and the block ends. -/
def evict (self : FileStore) : Option FileStore :=
  match self.cache.cacheList.getLast? with
  | none => none
  | some endNode =>
    (self.cache.evict FilePointer.traits).map fun cache =>
      { cache := cache
        mappings := ((self.mappings.copy endNode.value).release endNode.value).release endNode.value }

def put (self : FileStore) (os : Os) (key : Path) :
    List SysCall × FileStore × Except (Halt Exception) Bool :=
  if key.components ∈ self.cache.map then ([], self, .ok false)
  else
    match self.mappings.build os key with
    | (calls, mappings, .error thrown) => (calls, { self with mappings := mappings }, .error (.thrown thrown))
    | (calls, mappings, .ok none) => (calls, { self with mappings := mappings }, .ok false)
    | (calls, mappings, .ok (some newNode)) =>
      let built := { self with mappings := mappings }
      match if built.cache.map.size = built.cache.capacity then built.evict else some built with
      | none => (calls, built, .error .undefined)
      | some roomy =>
        -- `push_front` copies the pointer, and `newNode` is released at the return
        (calls, { cache := roomy.cache.pushFront FilePointer.traits key newNode
                  mappings := (roomy.mappings.copy newNode).release newNode }, .ok true)

/-- The value that is returned is one more pointer. -/
def get (self : FileStore) (os : Os) (key : Path) :
    List SysCall × FileStore × Except (Halt Exception) (Option FilePointer) :=
  if key.components ∉ self.cache.map then
    match self.put os key with
    | (calls, store, .error halt) => (calls, store, .error halt)
    | (calls, store, .ok false) => (calls, store, .ok none)
    | (calls, store, .ok true) =>
      match store.cache.at? FilePointer.traits key with
      | none => (calls, store, .error .undefined)
      | some value => (calls, { store with mappings := store.mappings.copy value }, .ok (some value))
  else
    match self.cache.moveToFront FilePointer.traits key with
    | none => ([], self, .error .undefined)
    | some cache =>
      match cache.at? FilePointer.traits key with
      | none => ([], { self with cache := cache }, .error .undefined)
      | some value => ([], { cache := cache, mappings := self.mappings.copy value }, .ok (some value))

/-- The pointers of the cache. -/
def pointers (self : FileStore) : List FilePointer := self.cache.cacheList.map Node.value

/-- `cacheList.clear()` releases the pointers from the front on. -/
def refresh (self : FileStore) : FileStore where
  cache := self.cache.refresh
  mappings := self.pointers.foldl Mappings.release self.mappings

/-- What a lookup builds, as the cache sees it. -/
def builder (self : FileStore) (os : Os) (p : Path) : Built FilePointer SysCall Exception :=
  ((self.mappings.build os p).1, (self.mappings.build os p).2.2)

variable (self : FileStore) (os : Os) (key : Path)

/-- But for the counts it is the cache of any values. -/
theorem put_cache : (self.put os key).1 = (self.cache.put FilePointer.traits (self.builder os) key).1 ∧
    (self.put os key).2.1.cache = (self.cache.put FilePointer.traits (self.builder os) key).2.1 ∧
    (self.put os key).2.2 = (self.cache.put FilePointer.traits (self.builder os) key).2.2 := by
  have same : FilePointer.traits.classOf key = key.components := rfl
  unfold put LruCache.put
  rw [same]
  by_cases present : key.components ∈ self.cache.map
  · simp [present]
  · simp only [present, if_false, builder]
    rcases self.mappings.build os key with ⟨calls, mappings, thrown | _ | newNode⟩
    · simp
    · simp
    · by_cases full : self.cache.map.size = self.cache.capacity
      · simp only [full, if_true, evict, LruCache.evict]
        cases self.cache.cacheList.getLast? <;> simp
      · simp [full]

theorem get_cache : (self.get os key).1 = (self.cache.get FilePointer.traits (self.builder os) key).1 ∧
    (self.get os key).2.1.cache = (self.cache.get FilePointer.traits (self.builder os) key).2.1 ∧
    (self.get os key).2.2 = (self.cache.get FilePointer.traits (self.builder os) key).2.2 := by
  have same : FilePointer.traits.classOf key = key.components := rfl
  obtain ⟨calls, cache, answer⟩ := self.put_cache os key
  unfold get LruCache.get
  rw [same]
  by_cases absent : key.components ∉ self.cache.map
  · rw [if_pos absent, if_pos absent]
    generalize self.put os key = counted at calls cache answer ⊢
    generalize self.cache.put FilePointer.traits (self.builder os) key = plain at calls cache answer ⊢
    obtain ⟨calls_, store, outcome⟩ := counted
    obtain ⟨calls', cache', outcome'⟩ := plain
    obtain rfl : calls_ = calls' := calls
    obtain rfl : store.cache = cache' := cache
    obtain rfl : outcome = outcome' := answer
    rcases outcome with halt | _ | _
    · simp
    · simp
    · simp only
      cases store.cache.at? FilePointer.traits key <;> simp
  · rw [if_neg absent, if_neg absent]
    cases self.cache.moveToFront FilePointer.traits key with
    | none => simp
    | some cache =>
      simp only
      cases cache.at? FilePointer.traits key <;> simp

end FileStore

/-- `open` answers with a descriptor that is not in use. -/
def Os.Fresh (os : Os) (descriptors : Int → Bool) : Prop :=
  ∀ path, os.openFile path ≥ 0 → descriptors (os.openFile path) = false

/-- The pointer of an answer, if it has one. -/
def pointersOf {Thrown : Type} : Except Thrown (Option FilePointer) → List FilePointer
  | .ok (some pointer) => [pointer]
  | .ok none | .error _ => []

/-- The pointers are counted, and the open descriptors are those of what they point to. -/
structure Mappings.Kept (mappings : Mappings) (pointers : List FilePointer) : Prop
    extends mappings.blocks.Counted pointers where
  open_iff : ∀ fd, mappings.descriptors fd = true ↔
    fd ≥ 0 ∧ ∃ pointer ∈ pointers, pointer.value.mFile.fd = fd
  apart : ∀ first ∈ pointers, ∀ second ∈ pointers, first.value.mFile.fd ≥ 0 →
    first.value.mFile.fd = second.value.mFile.fd → first = second

namespace Mappings.Kept

variable {mappings : Mappings} {pointers : List FilePointer} {pointer : FilePointer}

theorem empty : Kept {} [] where
  toCounted := .empty
  open_iff := by simp
  apart := by simp

theorem perm {other : List FilePointer} (kept : mappings.Kept pointers) (order : pointers.Perm other) :
    mappings.Kept other where
  toCounted := kept.toCounted.perm order
  open_iff fd := (kept.open_iff fd).trans (by simp only [order.mem_iff])
  apart first left second right :=
    kept.apart first (order.mem_iff.mpr left) second (order.mem_iff.mpr right)

theorem make {object : FileCache} (kept : mappings.Kept pointers)
    (fresh : object.mFile.fd ≥ 0 → mappings.descriptors object.mFile.fd = false) :
    (mappings.make object).1.Kept ((mappings.make object).2 :: pointers) where
  toCounted := kept.toCounted.make object
  open_iff fd := by
    change (if object.mFile.fd ≥ 0 then Function.update mappings.descriptors object.mFile.fd true
      else mappings.descriptors) fd = true ↔ _
    have own : (mappings.make object).2.value = object := rfl
    simp only [List.mem_cons, exists_eq_or_imp, own]
    by_cases opened : object.mFile.fd ≥ 0
    · by_cases here : fd = object.mFile.fd
      · subst here
        simp [opened]
      · rw [if_pos opened, Function.update_of_ne here, kept.open_iff]
        simp [Ne.symm here]
    · rw [if_neg opened, kept.open_iff]
      constructor
      · exact fun ⟨valid, held⟩ => ⟨valid, .inr held⟩
      · rintro ⟨valid, rfl | held⟩
        · exact absurd valid opened
        · exact ⟨valid, held⟩
  apart first left second right valid equal := by
    -- A pointer of before has a descriptor that is open, and the new one has another.
    have other : ∀ pointer ∈ pointers, pointer.value.mFile.fd ≥ 0 →
        pointer.value.mFile.fd ≠ object.mFile.fd := by
      intro pointer held valid same
      have taken := (kept.open_iff _).mpr ⟨valid, pointer, held, rfl⟩
      rw [same, fresh (same ▸ valid)] at taken
      cases taken
    rcases List.mem_cons.mp left with rfl | left <;> rcases List.mem_cons.mp right with rfl | right
    · rfl
    · exact absurd equal.symm (other second right (equal ▸ valid))
    · exact absurd equal (other first left valid)
    · exact kept.apart first left second right valid equal

theorem copy (kept : mappings.Kept pointers) (held : pointer ∈ pointers) :
    (mappings.copy pointer).Kept (pointer :: pointers) where
  toCounted := kept.toCounted.copy held
  open_iff fd := by
    rw [Mappings.copy, kept.open_iff]
    simp only [List.mem_cons, exists_eq_or_imp]
    refine and_congr_right fun _ => ⟨.inr, ?_⟩
    rintro (same | other)
    · exact ⟨pointer, held, same⟩
    · exact other
  apart first left second right := by
    have inside : ∀ other ∈ pointer :: pointers, other ∈ pointers := by
      rintro other member
      rcases List.mem_cons.mp member with rfl | member
      · exact held
      · exact member
    exact kept.apart first (inside first left) second (inside second right)

theorem release (kept : mappings.Kept (pointer :: pointers)) :
    (mappings.release pointer).Kept pointers where
  toCounted := kept.toCounted.release
  open_iff fd := by
    have last : mappings.blocks.useCount pointer.id = 1 ↔ pointer ∉ pointers := by
      rw [kept.count, List.map_cons, List.count_cons_self, Nat.add_eq_right, List.count_eq_zero]
      refine not_congr ⟨fun member => ?_, List.mem_map_of_mem⟩
      obtain ⟨other, held, same⟩ := List.mem_map.mp member
      have equal := kept.same other (List.mem_cons_of_mem _ held) pointer List.mem_cons_self same
      exact equal ▸ held
    have before := kept.open_iff fd
    simp only [List.mem_cons, exists_eq_or_imp] at before
    rw [Mappings.release]
    by_cases closes : mappings.blocks.useCount pointer.id = 1 ∧ pointer.value.mFile.fd ≥ 0
    · simp only [if_pos closes]
      by_cases here : fd = pointer.value.mFile.fd
      · subst here
        simp only [Function.update_self, Bool.false_eq_true, false_iff]
        rintro ⟨valid, other, held, same⟩
        have equal := kept.apart pointer List.mem_cons_self other (List.mem_cons_of_mem _ held) valid
          same.symm
        exact last.mp closes.1 (equal ▸ held)
      · rw [Function.update_of_ne here, before]
        simp [Ne.symm here]
    · simp only [if_neg closes]
      rw [before]
      refine and_congr_right fun valid => ⟨?_, .inr⟩
      rintro (rfl | other)
      · exact ⟨pointer, by_contra fun absent => closes ⟨last.mpr absent, valid⟩, rfl⟩
      · exact other
  apart first left second right :=
    kept.apart first (List.mem_cons_of_mem _ left) second (List.mem_cons_of_mem _ right)

theorem release_all {released : List FilePointer} (kept : mappings.Kept (released ++ pointers)) :
    (released.foldl Mappings.release mappings).Kept pointers := by
  induction released generalizing mappings with
  | nil => exact kept
  | cons pointer released ih => exact ih kept.release

end Mappings.Kept

section

variable {mappings : Mappings} {held : List FilePointer} {self : FileStore} {os : Os} {key : Path}

theorem RegularFile.open_fd (os : Os) (p : Path) :
    (RegularFile.open {} os p).2.1.fd = os.openFile (cStr p) := by
  unfold RegularFile.open
  by_cases refused : os.openFile (cStr p) < 0
  · simp [refused]
  · simp only [refused, if_false]
    cases os.fileSize (cStr p) <;> rfl

theorem FileCache.map_keeps (self : FileCache) (os : Os) :
    (self.map os).2.1.mFile = self.mFile ∧ (self.map os).2.1.mPath = self.mPath := by
  unfold FileCache.map
  cases os.mmap self.mFile.fd self.mFile.size <;> exact ⟨rfl, rfl⟩

theorem Mappings.build_path {pointer : FilePointer}
    (built : (mappings.build os key).2.2 = .ok (some pointer)) : pointer.value.path = key := by
  unfold Mappings.build at built
  rcases opened : RegularFile.open {} os key with ⟨calls, file, thrown | code | done⟩
  · simp [opened] at built
  · simp [opened] at built
  · simp only [opened] at built
    cases built
    exact (FileCache.map_keeps { mFile := file, mPath := key } os).2

theorem Mappings.Kept.build (kept : mappings.Kept held) (fresh : os.Fresh mappings.descriptors)
    (key : Path) :
    (mappings.build os key).2.1.Kept (pointersOf (mappings.build os key).2.2 ++ held) := by
  have opened := RegularFile.open_fd os key
  unfold Mappings.build
  generalize RegularFile.open {} os key = result at opened ⊢
  obtain ⟨calls, file, answer⟩ := result
  have unused : ∀ object : FileCache, object.mFile = file → object.mFile.fd ≥ 0 →
      mappings.descriptors object.mFile.fd = false := by
    rintro object rfl valid
    have same : object.mFile.fd = os.openFile (cStr key) := opened
    rw [same] at valid ⊢
    exact fresh _ valid
  rcases answer with thrown | code | done
  · exact (kept.make (unused { mFile := file } rfl)).release
  · exact (kept.make (unused { mFile := file } rfl)).release
  · exact kept.make (unused _ (FileCache.map_keeps { mFile := file, mPath := key } os).1)

namespace FileStore

theorem builder_honest (self : FileStore) (os : Os) : FilePointer.traits.Honest (self.builder os) := by
  intro key pointer built
  exact congrArg Path.components (Mappings.build_path built)

/-- A full cache drops its last pointer. -/
theorem evict_kept {pointers : List FilePointer} {front : List (Node FilePointer)}
    {endNode : Node FilePointer} (split : self.cache.cacheList = front ++ [endNode])
    (kept : self.mappings.Kept (pointers ++ (self.pointers ++ held))) :
    ∃ roomy, self.evict = some roomy ∧
      roomy.mappings.Kept (pointers ++ (roomy.pointers ++ held)) := by
  have order : (pointers ++ (self.pointers ++ held)).Perm
      (endNode.value :: (pointers ++ (front.map Node.value ++ held))) := by
    simp only [FileStore.pointers, split, List.map_append, List.map_cons, List.map_nil, List.append_assoc,
      List.singleton_append]
    rw [← List.append_assoc, ← List.append_assoc pointers]
    exact List.perm_middle
  have dropped := (((kept.perm order).copy List.mem_cons_self).release).release
  refine ⟨{
    cache := { self.cache with
      map := self.cache.map.erase (FilePointer.traits.nodeClass endNode)
      cacheList := front }
    mappings := ((self.mappings.copy endNode.value).release endNode.value).release endNode.value },
    ?_, dropped⟩
  simp [evict, LruCache.evict, split, Traits.nodeClass]

/-- The new pointer is in the list, and `newNode` is gone. -/
theorem push_kept {newNode : FilePointer}
    (kept : self.mappings.Kept (newNode :: (self.pointers ++ held))) :
    ((self.mappings.copy newNode).release newNode).Kept
      ((self.cache.pushFront FilePointer.traits key newNode).cacheList.map Node.value ++ held) :=
  (kept.copy List.mem_cons_self).release

theorem put_kept (kept : self.mappings.Kept (self.pointers ++ held))
    (coherent : Coherent FilePointer.traits self.cache) (fresh : os.Fresh self.mappings.descriptors)
    (key : Path) : (self.put os key).2.1.mappings.Kept ((self.put os key).2.1.pointers ++ held) := by
  have built := kept.build fresh key
  unfold put
  by_cases present : key.components ∈ self.cache.map
  · simpa [present] using kept
  · simp only [present, if_false]
    generalize self.mappings.build os key = result at built ⊢
    obtain ⟨calls, mappings, thrown | _ | newNode⟩ := result
    · exact built
    · exact built
    · let store : FileStore := { self with mappings := mappings }
      have together : store.mappings.Kept ([newNode] ++ (store.pointers ++ held)) := built
      by_cases full : self.cache.map.size = self.cache.capacity
      · have nonempty : self.cache.cacheList ≠ [] := by
          intro empty
          have positive := coherent.positive
          rw [← full, coherent.size, empty] at positive
          exact Nat.lt_irrefl _ positive
        have split : store.cache.cacheList = self.cache.cacheList.dropLast ++ _ :=
          (List.dropLast_append_getLast nonempty).symm
        obtain ⟨roomy, evicted, kept⟩ := evict_kept split together
        have same : FileStore.evict { self with mappings := mappings } = some roomy := evicted
        simp only [full, if_true, same]
        exact push_kept kept
      · simp only [full, if_false]
        exact push_kept together

theorem at?_mem {cache : LruCache (List Bytes) FilePointer} {pointer : FilePointer}
    (found : cache.at? FilePointer.traits key = some pointer) :
    pointer ∈ cache.cacheList.map Node.value := by
  obtain ⟨node, known, rfl⟩ := Option.map_eq_some_iff.mp found
  obtain ⟨iterator, _, named⟩ := Option.bind_eq_some_iff.mp known
  exact List.mem_map_of_mem (List.mem_of_find?_eq_some named)

/-- A lookup counts the pointer that it returns. -/
theorem get_kept (kept : self.mappings.Kept (self.pointers ++ held))
    (coherent : Coherent FilePointer.traits self.cache) (fresh : os.Fresh self.mappings.descriptors)
    (key : Path) : (self.get os key).2.1.mappings.Kept
      (pointersOf (self.get os key).2.2 ++ ((self.get os key).2.1.pointers ++ held)) := by
  have stored := put_kept kept coherent fresh key
  unfold get
  by_cases absent : key.components ∉ self.cache.map
  · simp only [if_pos absent]
    generalize self.put os key = result at stored ⊢
    obtain ⟨calls, store, halt | _ | _⟩ := result
    · exact stored
    · exact stored
    · simp only
      cases found : store.cache.at? FilePointer.traits key with
      | none => exact stored
      | some pointer => exact stored.copy (List.mem_append_left _ (at?_mem found))
  · simp only [if_neg absent]
    obtain ⟨front, node, back, split, named, iterator⟩ := coherent.present (not_not.mp absent)
    have moved : self.cache.moveToFront FilePointer.traits key = _ :=
      LruCache.moveToFront_eq coherent split iterator
    have order : (self.pointers ++ held).Perm ((node :: (front ++ back)).map Node.value ++ held) := by
      rw [pointers, split]
      exact (List.perm_middle.map Node.value).append_right held
    simp only [moved]
    cases found : LruCache.at? FilePointer.traits { self.cache with cacheList := node :: (front ++ back) } key with
    | none => exact kept.perm order
    | some pointer => exact (kept.perm order).copy (List.mem_append_left _ (at?_mem found))

theorem refresh_kept (kept : self.mappings.Kept (self.pointers ++ held)) :
    self.refresh.mappings.Kept (self.refresh.pointers ++ held) := kept.release_all

end FileStore

end

end CoroMultiplex.Storage
