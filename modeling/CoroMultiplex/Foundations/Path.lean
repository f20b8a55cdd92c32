import CoroMultiplex.Foundations.Bytes
import Mathlib.Data.List.DropRight

/-! Paths of the standard filesystem library under the POSIX format.

A path is its generic text. The separator is the only structure the format
gives it: there are no root names, and repeated separators count as one.
-/

set_option autoImplicit false

namespace CoroMultiplex.Foundations

abbrev Path := Bytes

namespace Path

def slash : UInt8 := 47
def dot : UInt8 := 46
def dotdot : Bytes := [dot, dot]

/-- The non-empty pieces between separators. -/
def names (path : Path) : List Bytes := (path.splitOn slash).filter (· ≠ [])

/-- Iteration order of a path: its root directory, its names, and an empty
last component when a name is followed by a separator. -/
def components (path : Path) : List Bytes :=
  (if path.head? = some slash then [[slash]] else []) ++ names path ++
    (if names path ≠ [] ∧ path.getLast? = some slash then [[]] else [])

/-- Text behind the last separator; empty for a path that ends in one. -/
def filename (path : Path) : Bytes := path.rtakeWhile (· != slash)

/-- The last dot of the filename and what follows it. The two special names
and a filename whose only dot leads it have no extension. -/
def extension (path : Path) : Bytes :=
  let name := filename path
  if name = [dot] ∨ name = dotdot then []
  else if (name.rdropWhile (· != dot)).length ≤ 1 then []
  else dot :: name.rtakeWhile (· != dot)

def hasExtension (path : Path) : Bool := extension path != []

/-- Everything behind the root directory. -/
def relativePath (path : Path) : Path := path.dropWhile (· == slash)

def IsRelative (path : Path) : Prop := path.head? ≠ some slash

instance (path : Path) : Decidable (IsRelative path) := inferInstanceAs (Decidable (_ ≠ _))

/-- `operator/`: an absolute right operand replaces the left one, and a
separator is inserted behind a filename. -/
def append (path other : Path) : Path :=
  if IsRelative other then
    if filename path = [] then path ++ other else path ++ slash :: other
  else other

example : components (bytes "/a//b/") = [bytes "/", bytes "a", bytes "b", []] := by decide
example : extension (bytes "/srv/x.tar.gz") = bytes ".gz" := by decide
example : extension (bytes "/srv/.profile") = [] := by decide
example : append (bytes "/srv") (bytes "a/b") = bytes "/srv/a/b" := by decide

@[simp] theorem names_nil : names [] = [] := rfl

@[simp] theorem names_slash (path : Path) : names (slash :: path) = names path := by
  simp [names, List.splitOn_cons_eq_if_modifyHead]

theorem names_append_slash (front back : Path) :
    names (front ++ slash :: back) = names front ++ names back := by
  simp only [names, List.splitOn_append_cons_self, List.filter_append]

theorem names_relativePath (path : Path) : names (relativePath path) = names path := by
  induction path with
  | nil => rfl
  | cons head path ih =>
    by_cases separator : head = slash
    · subst separator
      rw [names_slash, ← ih]
      simp [relativePath]
    · simp [relativePath, separator]

theorem relativePath_isRelative (path : Path) : IsRelative (relativePath path) := by
  intro absolute
  have stops := List.head?_dropWhile_not (· == slash) path
  rw [relativePath] at absolute
  simp [absolute] at stops

theorem relativePath_of_isRelative {path : Path} (relative : IsRelative path) :
    relativePath path = path := by
  cases path with
  | nil => rfl
  | cons head rest =>
    have notSlash : head ≠ slash := by simpa [IsRelative] using relative
    simp [relativePath, notSlash]

theorem append_relative {other : Path} (relative : IsRelative other) (path : Path) :
    append path other = path ++ (if filename path = [] then [] else [slash]) ++ other := by
  simp only [append, relative, if_true]
  split <;> simp

theorem append_injective {path first second : Path} (relativeFirst : IsRelative first)
    (relativeSecond : IsRelative second) (same : append path first = append path second) :
    first = second := by
  rw [append_relative relativeFirst, append_relative relativeSecond] at same
  exact List.append_cancel_left same

theorem length_le_append {other : Path} (relative : IsRelative other) (path : Path) :
    path.length ≤ (append path other).length := by
  rw [append_relative relative, List.append_assoc, List.length_append]
  omega

theorem cStr_isRelative {path : Path} (relative : IsRelative path) : IsRelative (cStr path) := by
  cases path with
  | nil => exact relative
  | cons head rest =>
    have notSlash : head ≠ slash := by simpa [IsRelative] using relative
    by_cases zero : head = 0 <;> simp [IsRelative, cStr, zero, notSlash]

/-- The NUL-terminated view of an appended path under a clean root cuts only
what was appended. -/
theorem cStr_append_relative {root rest : Path} (clean : 0 ∉ root) (relative : IsRelative rest) :
    cStr (append root rest) = append root (cStr rest) := by
  have cleanFront : 0 ∉ root ++ (if filename root = [] then [] else [slash]) := by
    have notSlash : (0 : UInt8) ≠ slash := by decide
    split <;> simp [clean, notSlash]
  rw [append_relative relative, append_relative (cStr_isRelative relative), cStr_append cleanFront]

/-- Dropping leading separators and cutting at a NUL do not interfere. -/
theorem cStr_relativePath (path : Path) : cStr (relativePath path) = relativePath (cStr path) := by
  induction path with
  | nil => rfl
  | cons head path ih =>
    by_cases separator : head = slash
    · subst separator
      have notZero : slash ≠ 0 := by decide
      simpa [relativePath, cStr, notZero] using ih
    · have kept : relativePath (head :: path) = head :: path := by simp [relativePath, separator]
      have relative : IsRelative (head :: path) := by simpa [IsRelative] using separator
      have cut : IsRelative (cStr (head :: path)) := cStr_isRelative relative
      rw [kept, relativePath_of_isRelative cut]

theorem mem_components_iff {name : Bytes} (nonempty : name ≠ []) (notRoot : name ≠ [slash])
    (path : Path) : name ∈ components path ↔ name ∈ names path := by
  simp only [components, List.mem_append]
  constructor
  · rintro ((root | inner) | last)
    · split at root
      · exact absurd (List.mem_singleton.mp root) notRoot
      · cases root
    · exact inner
    · split at last
      · exact absurd (List.mem_singleton.mp last) nonempty
      · cases last
  · exact fun inner => .inl (.inr inner)

theorem dotdot_mem_components_iff (path : Path) : dotdot ∈ components path ↔ dotdot ∈ names path :=
  mem_components_iff (by decide) (by decide) path

theorem slash_not_mem_filename (path : Path) : slash ∉ filename path := by
  intro member
  simpa using List.mem_rtakeWhile_imp member

theorem filename_concat (path : Path) (last : UInt8) :
    filename (path ++ [last]) = if last = slash then [] else filename path ++ [last] := by
  by_cases separator : last = slash <;> simp [filename, separator]

/-- A path is its filename, or ends in it behind a separator. -/
theorem filename_split (path : Path) :
    path = filename path ∨ ∃ front, path = front ++ slash :: filename path := by
  induction path using List.reverseRecOn with
  | nil => exact .inl rfl
  | append_singleton path last ih =>
    rw [filename_concat]
    by_cases separator : last = slash
    · exact .inr ⟨path, by simp [separator]⟩
    · rw [if_neg separator]
      rcases ih with whole | ⟨front, split⟩
      · exact .inl (congrArg (· ++ [last]) whole)
      · refine .inr ⟨front, ?_⟩
        rw [← List.cons_append, ← List.append_assoc, ← split]

theorem names_of_slash_not_mem {name : Bytes} (single : slash ∉ name) (nonempty : name ≠ []) :
    names name = [name] := by
  simp [names, List.splitOn_eq_singleton single, nonempty]

theorem filename_slash (path : Path) : filename (slash :: path) = filename path := by
  induction path using List.reverseRecOn with
  | nil => rfl
  | append_singleton path last ih =>
    rw [← List.cons_append, filename_concat, filename_concat, ih]

theorem filename_relativePath (path : Path) : filename (relativePath path) = filename path := by
  induction path with
  | nil => rfl
  | cons head path ih =>
    by_cases separator : head = slash
    · subst separator
      rw [filename_slash, ← ih]
      simp [relativePath]
    · simp [relativePath, separator]

theorem extension_relativePath (path : Path) : extension (relativePath path) = extension path := by
  simp only [extension, filename_relativePath]

theorem filename_of_hasExtension {path : Path} (typed : hasExtension path = true) :
    filename path ≠ [] ∧ filename path ≠ dotdot := by
  constructor <;> intro name <;> simp [hasExtension, extension, name] at typed

/-- Cutting the end off a path can turn its last name into the parent component, but
then the path that is left has no extension. -/
theorem dotdot_of_typed_beginning {path longer : Path} (beginning : path <+: longer)
    (typed : hasExtension path = true) (parent : dotdot ∈ names path) : dotdot ∈ names longer := by
  obtain ⟨named, notParent⟩ := filename_of_hasExtension typed
  have last := names_of_slash_not_mem (slash_not_mem_filename path) named
  obtain ⟨rest, rfl⟩ := beginning
  rcases filename_split path with whole | ⟨front, split⟩
  · rw [whole, last, List.mem_singleton] at parent
    exact absurd parent.symm notParent
  · rw [split, names_append_slash, last, List.mem_append, List.mem_singleton] at parent
    have inFront := parent.resolve_right (Ne.symm notParent)
    rw [split, List.append_assoc, List.cons_append, names_append_slash]
    exact List.mem_append_left _ inFront

end Path

end CoroMultiplex.Foundations
