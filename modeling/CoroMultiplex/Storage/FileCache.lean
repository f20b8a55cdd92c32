import CoroMultiplex.Http.Response

/-! Opening a file and mapping it into the cache.

System calls are recorded in the order they are made. A callee of the kernel
reads a path up to its first NUL, whatever the path object holds behind it.
-/

set_option autoImplicit false

namespace CoroMultiplex.Storage

open Foundations Http

inductive SysCall where
  | closeFd (fd : Int)
  | openPath (path : Bytes)
  | fileSize (path : Bytes)
  | mmap (fd : Int) (length : Nat)
  deriving DecidableEq, Repr

/-- What the operating system answers while one value is built. -/
structure Os where
  openFile : Bytes → Int
  errno : Nat
  -- `std::filesystem::file_size` throws where it cannot answer
  fileSize : Bytes → Except Exception Nat
  mmap : Int → Nat → Option (Nat → UInt8)

structure RegularFile where
  fd : Int := -1
  size : Nat := 0

/-- `regularFile::open`. The test `size < 0` of an unsigned size never holds. -/
def RegularFile.open (self : RegularFile) (os : Os) (path : Path) :
    List SysCall × RegularFile × Except Exception (Except ErrorCode Unit) :=
  let closing := if self.fd ≥ 0 then [SysCall.closeFd self.fd] else []
  let fd := os.openFile (cStr path)
  if fd < 0 then
    (closing ++ [.openPath (cStr path)], { self with fd := fd }, .ok (.error (.system os.errno)))
  else
    let calls := closing ++ [.openPath (cStr path), .fileSize (cStr path)]
    match os.fileSize (cStr path) with
    | .error thrown => (calls, { self with fd := fd }, .error thrown)
    | .ok size => (calls, { fd := fd, size := size }, .ok (.ok ()))

structure FileCache where
  -- the mapped span; empty as long as nothing is mapped
  mLoc : Bytes := []
  mFile : RegularFile := {}
  mPath : Path := []

namespace FileCache

def data (self : FileCache) : Bytes := self.mLoc
def size (self : FileCache) : Nat := self.mLoc.length
def path (self : FileCache) : Path := self.mPath

/-- The bool result tells whether the mapping succeeded; the caller drops it. -/
def map (self : FileCache) (os : Os) : List SysCall × FileCache × Bool :=
  let calls := [SysCall.mmap self.mFile.fd self.mFile.size]
  match os.mmap self.mFile.fd self.mFile.size with
  | none => (calls, self, false)
  | some byteAt => (calls, { self with mLoc := (List.range self.mFile.size).map byteAt }, true)

/-- `fileCacheBuilder::build`; `none` is the null pointer. -/
def build (os : Os) (p : Path) : List SysCall × Except Exception (Option FileCache) :=
  match RegularFile.open {} os p with
  | (calls, _, .error thrown) => (calls, .error thrown)
  | (calls, _, .ok (.error _)) => (calls, .ok none)
  | (calls, file, .ok (.ok ())) =>
    let (mapCalls, fc, _) := map { mFile := file, mPath := p } os
    (calls ++ mapCalls, .ok (some fc))

/-- A build opens the NUL-terminated view of its key, and nothing else. -/
theorem openPath_mem_build (os : Os) (p : Path) (path : Bytes) :
    .openPath path ∈ (build os p).1 ↔ path = cStr p := by
  unfold build RegularFile.open
  by_cases refused : os.openFile (cStr p) < 0
  · simp [refused]
  · cases os.fileSize (cStr p) with
    | error thrown => simp [refused]
    | ok size =>
      simp only [refused, if_false, map]
      cases os.mmap (os.openFile (cStr p)) size <;> simp

theorem path_map (self : FileCache) (os : Os) : (map self os).2.1.path = self.path := by
  unfold map
  cases os.mmap self.mFile.fd self.mFile.size <;> rfl

theorem path_of_build {os : Os} {p : Path} {fc : FileCache} (built : (build os p).2 = .ok (some fc)) :
    fc.path = p := by
  unfold build at built
  rcases opened : RegularFile.open {} os p with ⟨calls, file, outcome⟩
  rw [opened] at built
  cases outcome with
  | error thrown => cases built
  | ok result =>
    cases result with
    | error code => cases built
    | ok done =>
      cases built
      exact path_map _ os

end FileCache

end CoroMultiplex.Storage
