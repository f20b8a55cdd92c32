import CoroMultiplex.Storage.Mappings
import CoroMultiplex.Storage.Whole

/-! What is seen of a value that the cache returns, when what is seen of the values that
are built depends on the classes of their keys alone.
-/

set_option autoImplicit false

namespace CoroMultiplex.Storage

open Foundations Http

section

variable {Key Class Value Effect Thrown Seen : Type} [DecidableEq Class]

/-- The cached values are seen as their classes have it. -/
def Truthful (T : Traits Key Class Value) (observe : Value → Seen) (truth : Class → Option Seen)
    (cache : LruCache Class Value) : Prop :=
  ∀ node ∈ cache.cacheList, truth (T.nodeClass node) = some (observe node.value)

/-- Builds do not throw, and are seen as the classes of their keys have it. -/
def Tells (T : Traits Key Class Value) (observe : Value → Seen) (truth : Class → Option Seen)
    (build : Key → Built Value Effect Thrown) : Prop :=
  ∀ key, ∃ found, (build key).2 = .ok found ∧ found.map observe = truth (T.classOf key)

variable {T : Traits Key Class Value} {observe : Value → Seen} {truth : Class → Option Seen}
variable {cache after : LruCache Class Value} {build : Key → Built Value Effect Thrown} {key : Key}

omit [DecidableEq Class] in
theorem Truthful.filled (truthful : Truthful T observe truth cache) {value : Value}
    (seen : truth (T.classOf (T.path value)) = some (observe value)) (filled : Filled T cache value after) :
    Truthful T observe truth after := by
  obtain ⟨address, list⟩ := filled.list
  intro node member
  rw [list, List.mem_cons] at member
  rcases member with rfl | member
  · exact seen
  · split at member
    · exact truthful node (List.mem_of_mem_dropLast member)
    · exact truthful node member

omit [DecidableEq Class] in
/-- A missed key is answered as its class has it. -/
theorem Truthful.missed (truthful : Truthful T observe truth cache) (honest : T.Honest build)
    (tells : Tells T observe truth build) {answer : Except (Halt Thrown) (Option Value)}
    (missed : Missed T cache (build key).2 after answer) :
    Truthful T observe truth after ∧
      ∃ found, answer = .ok found ∧ found.map observe = truth (T.classOf key) := by
  obtain ⟨found, built, seen⟩ := tells key
  have named := honest key
  rw [built] at missed named
  cases missed with
  | failed => exact ⟨truthful, none, rfl, seen⟩
  | filled filled =>
    refine ⟨truthful.filled ?_ filled, _, rfl, seen⟩
    rw [named _ rfl]
    exact seen.symm

theorem Truthful.get (truthful : Truthful T observe truth cache) (coherent : Coherent T cache)
    (honest : T.Honest build) (tells : Tells T observe truth build) (key : Key) :
    Truthful T observe truth (cache.get T build key).2.1 ∧
      ∃ found, (cache.get T build key).2.2 = .ok found ∧ found.map observe = truth (T.classOf key) := by
  by_cases present : T.classOf key ∈ cache.map
  · obtain ⟨after, value, fetched, same⟩ := LruCache.get_present build coherent present
    obtain ⟨front, node, back, split, named, rfl, moved⟩ := fetched.list
    have known := truthful node (by simp [split])
    rw [same]
    refine ⟨fun other member => truthful other ?_, _, rfl, ?_⟩
    · rw [moved, ← List.perm_middle.mem_iff] at member
      rwa [split]
    · rw [← named]
      exact known.symm
  · obtain ⟨after, answer, missed, same⟩ := LruCache.get_absent coherent honest present
    rw [same]
    exact truthful.missed honest tells missed

theorem Truthful.put (truthful : Truthful T observe truth cache) (coherent : Coherent T cache)
    (honest : T.Honest build) (tells : Tells T observe truth build) (key : Key) :
    Truthful T observe truth (cache.put T build key).2.1 := by
  by_cases present : T.classOf key ∈ cache.map
  · rwa [LruCache.put_present present]
  · obtain ⟨after, answer, missed, same⟩ := LruCache.put_absent coherent honest present
    rw [same]
    exact (truthful.missed honest tells missed).1

end

/-- The regular files that there are, by the components of their paths. -/
abbrev Files := List Bytes → Option Bytes

/-- The operating system opens these files, knows their sizes and maps them. -/
def Os.Serves (os : Os) (files : Files) : Prop :=
  ∀ p : Path, match files p.components with
    | none => os.openFile (cStr p) < 0
    | some content => ¬ os.openFile (cStr p) < 0 ∧ os.fileSize (cStr p) = .ok content.length ∧
        FileCache.mapped os (os.openFile (cStr p)) content.length = content

namespace FileStore

/-- But for its pointer, a build is that of the file alone. -/
theorem builder_value (self : FileStore) (os : Os) (p : Path) :
    (self.builder os p).2.map (Option.map Shared.value) = (FileCache.build os p).2 := by
  unfold builder Mappings.build FileCache.build
  rcases RegularFile.open {} os p with ⟨calls, file, thrown | code | done⟩ <;> rfl

theorem built_of_build {self : FileStore} {os : Os} {p : Path} {file : Option FileCache}
    (built : (FileCache.build os p).2 = .ok file) :
    ∃ found, (self.builder os p).2 = .ok found ∧ found.map Shared.value = file := by
  have value := self.builder_value os p
  rw [built] at value
  cases known : (self.builder os p).2 with
  | error thrown =>
    rw [known] at value
    cases value
  | ok found =>
    rw [known] at value
    exact ⟨found, rfl, Except.ok.inj value⟩

theorem builder_tells (self : FileStore) {os : Os} {files : Files} (serves : os.Serves files) :
    Tells FilePointer.traits (fun pointer => pointer.value.data) files (self.builder os) := by
  intro p
  have known := serves p
  change ∃ found, _ ∧ _ = files p.components
  cases content : files p.components with
  | none =>
    simp only [content] at known
    rcases FileCache.build_cases os p with ⟨_, built⟩ | ⟨opened, _⟩ | ⟨opened, _⟩
    · obtain ⟨found, same, value⟩ := built_of_build built
      exact ⟨found, same, by simpa using value⟩
    · exact absurd known opened
    · exact absurd known opened
  | some content_ =>
    simp only [content] at known
    obtain ⟨opened, size, mapped⟩ := known
    rcases FileCache.build_cases os p with ⟨refused, _⟩ | ⟨_, thrown, asked, _⟩ | ⟨_, size_, asked, built⟩
    · exact absurd refused opened
    · rw [size] at asked
      cases asked
    · rw [size, Except.ok.injEq] at asked
      subst asked
      obtain ⟨found, same, value⟩ := built_of_build built
      refine ⟨found, same, ?_⟩
      have seen := congrArg (Option.map FileCache.data) value
      rwa [Option.map_map, Option.map_some, FileCache.data, mapped] at seen

end FileStore

end CoroMultiplex.Storage
