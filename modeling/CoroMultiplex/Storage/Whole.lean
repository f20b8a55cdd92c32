import CoroMultiplex.Storage.Coherence

/-! Which lookups of the file cache answer with the whole file or with nothing. -/

set_option autoImplicit false

namespace CoroMultiplex.Storage

open Foundations Http

/-- As many bytes are mapped as the file had when it was opened. -/
def FileCache.Complete (entry : FileCache) : Prop := entry.data.length = entry.mFile.size

/-- The file cannot be opened, or its size is known and all of it is mapped. -/
def Os.Loads (os : Os) (p : Path) : Prop :=
  os.openFile (cStr p) < 0 ∨ ∃ size, os.fileSize (cStr p) = .ok size ∧
    (size = 0 ∨ (os.mmap (os.openFile (cStr p)) size).isSome)

/-- Nothing, with the cache as it was, or an entry of this path that announces and
holds all bytes of its file. -/
def WholeOrNothing (cache : LruCache (List Bytes) FileCache) (os : Os) (p : Path) : Prop :=
  match cache.get FileCache.traits (FileCache.build os) p with
  | (_, _, .error _) => False
  | (_, after, .ok none) => after.cacheList = cache.cacheList ∧ after.map = cache.map
  | (_, _, .ok (some entry)) =>
    Path.components entry.path = Path.components p ∧ entry.size = entry.mFile.size ∧
      entry.data.length = entry.mFile.size ∧
      (Path.components p ∉ cache.map → os.fileSize (cStr p) = .ok entry.size)

namespace FileCache

/-- What is mapped of a file; a mapping that fails leaves an empty span. -/
def mapped (os : Os) (fd : Int) (size : Nat) : Bytes :=
  match os.mmap fd size with
  | none => []
  | some byteAt => (List.range size).map byteAt

theorem length_mapped (os : Os) (fd : Int) (size : Nat) :
    (mapped os fd size).length = size ↔ size = 0 ∨ (os.mmap fd size).isSome := by
  unfold mapped
  cases os.mmap fd size with
  | none => simp [eq_comm]
  | some byteAt => simp

/-- The three ends of a build. -/
theorem build_cases (os : Os) (p : Path) :
    (os.openFile (cStr p) < 0 ∧ (build os p).2 = .ok none) ∨
      (¬ os.openFile (cStr p) < 0 ∧ ∃ thrown, os.fileSize (cStr p) = .error thrown ∧
        (build os p).2 = .error thrown) ∨
      (¬ os.openFile (cStr p) < 0 ∧ ∃ size, os.fileSize (cStr p) = .ok size ∧
        (build os p).2 = .ok (some {
          mLoc := mapped os (os.openFile (cStr p)) size
          mFile := { fd := os.openFile (cStr p), size := size }
          mPath := p })) := by
  unfold build RegularFile.open
  by_cases refused : os.openFile (cStr p) < 0
  · exact .inl ⟨refused, by simp [refused]⟩
  · cases asked : os.fileSize (cStr p) with
    | error thrown => exact .inr (.inl ⟨refused, thrown, rfl, by simp [refused]⟩)
    | ok size =>
      refine .inr (.inr ⟨refused, size, rfl, ?_⟩)
      simp only [refused, if_false, map, mapped]
      cases os.mmap (os.openFile (cStr p)) size <;> rfl

end FileCache

section

variable {cache : LruCache (List Bytes) FileCache} {os : Os} {p : Path}

/-- On a hit it depends on the stored entry alone. -/
theorem whole_iff_of_present (coherent : Coherent FileCache.traits cache)
    (present : Path.components p ∈ cache.map) :
    WholeOrNothing cache os p ↔
      ∀ entry, cache.at? FileCache.traits p = some entry → entry.Complete := by
  obtain ⟨after, entry, fetched, same⟩ := LruCache.get_present
      (FileCache.build os) coherent present
  obtain ⟨front, node, back, split, named, rfl, _⟩ := fetched.list
  have member : node ∈ cache.cacheList := by simp [split]
  have stored : cache.at? FileCache.traits p = some node.value := coherent.at?_eq member named
  simp only [WholeOrNothing, same, stored, Option.some.injEq, forall_eq']
  constructor
  · exact fun whole => whole.2.2.1
  · exact fun complete => ⟨named, complete, complete, fun absent => absurd present absent⟩

/-- On a miss it depends on what the operating system answers. -/
theorem whole_iff_of_absent (coherent : Coherent FileCache.traits cache)
    (absent : Path.components p ∉ cache.map) : WholeOrNothing cache os p ↔ os.Loads p := by
  obtain ⟨after, answer, missed, same⟩ := LruCache.get_absent coherent
      (FileCache.build_honest os) absent
  simp only [WholeOrNothing, same, Os.Loads]
  rcases FileCache.build_cases os p with ⟨refused, built⟩ | ⟨opened, thrown, asked, built⟩ |
    ⟨opened, size, asked, built⟩
  · rw [built] at missed
    cases missed with
    | failed => simp [refused]
  · rw [built] at missed
    cases missed with
    | threw => simp [opened, asked]
  · rw [built] at missed
    cases missed with
    | filled filled =>
      have covered := FileCache.length_mapped os (os.openFile (cStr p)) size
      simp only [opened, asked, false_or, Except.ok.injEq, exists_eq_left']
      rw [← covered]
      constructor
      · exact fun whole => whole.2.1
      · exact fun complete => ⟨rfl, complete, complete, fun _ => complete.symm⟩

/-- A lookup keeps complete entries, and adds another one where the file loads. -/
theorem complete_of_get (coherent : Coherent FileCache.traits cache)
    (complete : ∀ node ∈ cache.cacheList, node.value.Complete)
    (loads : Path.components p ∉ cache.map → os.Loads p) :
    ∀ node ∈ (cache.get FileCache.traits (FileCache.build os) p).2.1.cacheList,
      node.value.Complete := by
  by_cases present : Path.components p ∈ cache.map
  · obtain ⟨after, entry, fetched, same⟩ := LruCache.get_present
      (FileCache.build os) coherent present
    obtain ⟨front, first, back, split, _, _, moved⟩ := fetched.list
    have order : after.cacheList.Perm cache.cacheList := by
      rw [split, moved]
      exact List.perm_middle.symm
    rw [same]
    exact fun node member => complete node (order.mem_iff.mp member)
  · have whole := (whole_iff_of_absent coherent present).mpr (loads present)
    obtain ⟨after, answer, missed, same⟩ := LruCache.get_absent coherent
      (FileCache.build_honest os) present
    simp only [WholeOrNothing, same] at whole
    rw [same]
    generalize (FileCache.build os p).2 = outcome at missed
    cases missed with
    | threw thrown => exact complete
    | failed => exact complete
    | filled filled =>
      obtain ⟨address, list⟩ := filled.list
      intro node member
      rw [list, List.mem_cons] at member
      rcases member with rfl | member
      · exact whole.2.2.1
      · split at member
        · exact complete node (List.mem_of_mem_dropLast member)
        · exact complete node member

end

/-- A call of the program on its file cache, with what the operating system answers
while it lasts. -/
inductive FileCall where
  | get (os : Os) (p : Path)
  | refresh

def FileCall.call : FileCall → Call Path FileCache SysCall Exception
  | .get os p => .get (FileCache.build os) p
  | .refresh => .refresh

theorem FileCall.honest (calls : List FileCall) :
    ∀ call ∈ calls.map FileCall.call, call.Honest FileCache.traits := by
  intro call member
  obtain ⟨file, _, rfl⟩ := List.mem_map.mp member
  cases file with
  | get os p => exact FileCache.build_honest os
  | refresh => trivial

def filesAfter (capacity : Nat) (calls : List FileCall) : LruCache (List Bytes) FileCache :=
  (LruCache.run FileCache.traits { capacity } (calls.map FileCall.call)).1

section

variable {capacity : Nat} (positive : 0 < capacity)

include positive

theorem filesAfter_coherent (calls : List FileCall) :
    Coherent FileCache.traits (filesAfter capacity calls) :=
  (LruCache.run_coherent _ (.empty positive) (FileCall.honest calls)).1

theorem filesAfter_complete (calls : List FileCall)
    (loads : ∀ before os p after, calls = before ++ .get os p :: after →
      Path.components p ∉ (filesAfter capacity before).map → os.Loads p) :
    ∀ node ∈ (filesAfter capacity calls).cacheList, node.value.Complete := by
  induction calls using List.reverseRecOn with
  | nil => exact fun node member => absurd member List.not_mem_nil
  | append_singleton calls call ih =>
    have complete := ih fun before os p after split =>
      loads before os p (after ++ [call]) (by simp [split])
    have coherent := filesAfter_coherent positive calls
    rw [filesAfter, List.map_append, LruCache.run_append]
    cases call with
    | get os p => exact complete_of_get coherent complete (loads calls os p [] rfl)
    | refresh => exact fun node member => absurd member List.not_mem_nil

end

/-- A lookup is answered with the whole file or with nothing if and only if the
stored entry is complete, on a hit, or the file loads, on a miss. So in a run from
the empty cache all lookups are if and only if each file loads that is missed. -/
theorem file_cache_whole_or_nothing_iff {cache : LruCache (List Bytes) FileCache}
    (coherent : Coherent FileCache.traits cache) (os : Os) (p : Path) {capacity : Nat}
    (positive : 0 < capacity) (calls : List FileCall) :
    (WholeOrNothing cache os p ↔
      if Path.components p ∈ cache.map then
        ∀ entry, cache.at? FileCache.traits p = some entry → entry.Complete
      else os.Loads p) ∧
    ((∀ before os p after, calls = before ++ .get os p :: after →
        WholeOrNothing (filesAfter capacity before) os p) ↔
      ∀ before os p after, calls = before ++ .get os p :: after →
        Path.components p ∉ (filesAfter capacity before).map → os.Loads p) := by
  constructor
  · split
    · next present => exact whole_iff_of_present coherent present
    · next absent => exact whole_iff_of_absent coherent absent
  · constructor
    · intro whole before os p after split absent
      have reached := filesAfter_coherent positive before
      exact (whole_iff_of_absent reached absent).mp (whole before os p after split)
    · intro loads before os p after split
      have reached := filesAfter_coherent positive before
      by_cases present : Path.components p ∈ (filesAfter capacity before).map
      · have complete := filesAfter_complete positive before fun first system path rest inner =>
          loads first system path (rest ++ .get os p :: after) (by simp [split, inner])
        rw [whole_iff_of_present reached present]
        intro entry found
        obtain ⟨_, node, _, inner, named, _⟩ := reached.present present
        have member : node ∈ (filesAfter capacity before).cacheList := by simp [inner]
        have stored := reached.at?_eq member named
        rw [found, Option.some.injEq] at stored
        exact stored ▸ complete node member
      · exact (whole_iff_of_absent reached present).mpr (loads before os p after split present)

theorem second_lookup_is_whole :
    WholeOrNothing (filesAfter 1024 [.get twoByteFiles (bytes "/a")]) twoByteFiles (bytes "/b") := by
  have empty : Coherent FileCache.traits (filesAfter 1024 []) := filesAfter_coherent (by decide) []
  have both := (file_cache_whole_or_nothing_iff empty twoByteFiles (bytes "/a")
    (by decide : 0 < 1024) [.get twoByteFiles (bytes "/a"), .get twoByteFiles (bytes "/b")]).2
  refine both.mpr ?_ [.get twoByteFiles (bytes "/a")] twoByteFiles (bytes "/b") [] rfl
  intro before os p after split _
  have member : FileCall.get os p ∈
      [FileCall.get twoByteFiles (bytes "/a"), .get twoByteFiles (bytes "/b")] := by simp [split]
  have same : os = twoByteFiles := by
    rcases List.mem_pair.mp member with same | same <;> cases same <;> rfl
  subst same
  exact .inr ⟨2, rfl, .inr rfl⟩

/-- A directory can be opened, and its size cannot be told. -/
def directories : Os where
  openFile _ := 3
  errno := 0
  fileSize _ := .error .filesystemError
  mmap _ _ := none

/-- Files of two bytes on a system that has no room for a mapping. -/
def unmappedFiles : Os := { twoByteFiles with mmap := fun _ _ => none }

theorem directory_and_failed_mapping_are_not_whole :
    ¬ WholeOrNothing { capacity := 1024 } directories (bytes "/srv/www") ∧
      ¬ WholeOrNothing { capacity := 1024 } unmappedFiles (bytes "/srv/www/a") := by
  constructor
  · exact fun whole => whole
  · intro whole
    have announced : (0 : Nat) = 2 := whole.2.1
    exact absurd announced (by decide)

end CoroMultiplex.Storage
