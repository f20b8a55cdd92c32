import CoroMultiplex.Http.Resolution
import CoroMultiplex.Storage.FileCache

/-! Which paths serving a request hands to the operating system.

The parent test compares whole components of the path object, while the kernel
reads the path up to its first NUL.
-/

set_option autoImplicit false

namespace CoroMultiplex.Server

open Foundations Foundations.Sequence Http HttpResponse Storage

/-- The system calls made to answer one request message. A key already in the
file cache is not built again. -/
def serveCalls (os : Os) (contained : Path → Bool) (webRoot : Path) (requestMsg : Bytes) :
    List SysCall :=
  match ofRequest (HttpRequest.parseResquest {} requestMsg).1 webRoot with
  | .error _ => []
  | .ok response =>
    if response.status = .ok then
      if contained response.uri then [] else (FileCache.build os response.uri).1
    else []

/-- The root, then only components that do not lead upwards. -/
def InsideRoot (webRoot path : Path) : Prop :=
  ∃ rest, Path.IsRelative rest ∧ path = Path.append webRoot rest ∧ Path.dotdot ∉ Path.names rest

/-- A byte that neither starts a query nor ends a C string. -/
def plain (byte : UInt8) : Bool := byte != 63 && byte != 0

theorem cStr_resolved (uri : Path) : cStr (resolved uri) = (indexed uri).takeWhile plain := by
  rw [resolved, withoutArgs_eq, cStr, List.takeWhile_takeWhile]
  congr 1
  funext byte
  rw [Bool.eq_iff_iff]
  simp [plain, and_comm]

/-- The index rule adds a harmless name behind the target, or behind a query or
a NUL that hides it. -/
theorem dotdot_indexed (uri : Path) :
    Path.dotdot ∈ Path.names ((indexed uri).takeWhile plain) ↔
      Path.dotdot ∈ Path.names (uri.takeWhile plain) := by
  by_cases ends : [Path.slash] <:+ uri
  · obtain ⟨front, rfl⟩ := ends
    rw [indexed_of_slash]
    -- A query or a NUL before the end hides the index name.
    by_cases clean : ∀ byte ∈ front, plain byte = true
    · have whole : ∀ byte ∈ front ++ [Path.slash], plain byte = true := by
        intro byte member
        rcases List.mem_append.mp member with inFront | last
        · exact clean byte inFront
        · rw [List.mem_singleton.mp last]; decide
      have harmless : Path.dotdot ∉ Path.names (bytes "index.html") := by decide
      have suffix : (Path.slash :: bytes "index.html").takeWhile plain =
          Path.slash :: bytes "index.html" := by decide
      rw [List.takeWhile_append_of_pos clean, suffix, List.takeWhile_eq_self_iff.mpr whole,
        Path.names_append_slash, Path.names_append_slash, List.mem_append, List.mem_append]
      simp [harmless]
    · have stops : ∀ tail : Bytes, (front ++ tail).takeWhile plain = front.takeWhile plain := by
        intro tail
        rw [List.takeWhile_append, if_neg]
        intro all
        exact clean (List.takeWhile_eq_self_iff.mp
          ((List.takeWhile_prefix plain).eq_of_length all))
      rw [stops, stops]
  · rw [indexed, if_neg ends]

/-- The C string of a served path names the root and the visible part of the target. -/
theorem cStr_served {webRoot : Path} (clean : 0 ∉ webRoot) (request : HttpRequest) :
    cStr (served request webRoot).uri =
      Path.append webRoot (Path.relativePath (cStr (resolved request.uri))) := by
  have relative := Path.relativePath_isRelative (resolved request.uri)
  rw [served, Path.cStr_append_relative clean relative, Path.cStr_relativePath]

/-- Serving an accepted message that is not cached opens its file. -/
theorem openPath_served {requestMsg : Bytes} {request : HttpRequest} (ok : Served request)
    (parsed : (HttpRequest.parseResquest {} requestMsg).1 = request) (os : Os) (webRoot : Path) :
    .openPath (cStr (served request webRoot).uri) ∈
      serveCalls os (fun _ => false) webRoot requestMsg := by
  have status : (served request webRoot).status = .ok := rfl
  simp only [serveCalls, parsed, ofRequest_of_served ok, status, if_true, Bool.false_eq_true,
    if_false]
  exact (FileCache.openPath_mem_build os _ _).mpr rfl

/-- An operating system that refuses to open any file. -/
def emptyOs : Os where
  openFile _ := -1
  errno := 2
  fileSize _ := .ok 0
  mmap _ _ := none

/-- Every path opened for a message lies inside the root if and only if the message
is not served, or the root is free of NUL and the part of the target before its
first question mark or NUL has no parent component. -/
theorem opens_inside_iff (webRoot : Path) (requestMsg : Bytes) :
    (∀ os contained path, .openPath path ∈ serveCalls os contained webRoot requestMsg →
        InsideRoot webRoot path) ↔
      (Served (HttpRequest.parseResquest {} requestMsg).1 → 0 ∉ webRoot ∧
        Path.dotdot ∉ Path.names
          ((HttpRequest.parseResquest {} requestMsg).1.uri.takeWhile plain)) := by
  generalize parsed : (HttpRequest.parseResquest {} requestMsg).1 = request
  have visible : Path.dotdot ∈ Path.names (Path.relativePath (cStr (resolved request.uri))) ↔
      Path.dotdot ∈ Path.names (request.uri.takeWhile plain) := by
    rw [Path.names_relativePath, cStr_resolved, dotdot_indexed]
  constructor
  · intro inside ok
    obtain ⟨rest, relative, same, harmless⟩ := inside emptyOs (fun _ => false) _
      (openPath_served ok parsed emptyOs webRoot)
    -- A NUL in the root would cut the path short of the root itself.
    have clean : 0 ∉ webRoot := by
      intro dirty
      have longer := Path.length_le_append relative webRoot
      have uri : ∃ tail, (served request webRoot).uri = webRoot ++ tail := by
        refine ⟨(if Path.filename webRoot = [] then [] else [Path.slash]) ++
          Path.relativePath (resolved request.uri), ?_⟩
        rw [← List.append_assoc]
        exact Path.append_relative (Path.relativePath_isRelative _) webRoot
      obtain ⟨tail, uri⟩ := uri
      have shorter := cStr_length_lt dirty tail
      rw [← same, uri] at longer
      omega
    refine ⟨clean, ?_⟩
    rw [cStr_served clean] at same
    have unique := Path.append_injective (Path.relativePath_isRelative _) relative same
    rw [← visible, unique]
    exact harmless
  · intro condition os contained path member
    unfold serveCalls at member
    rw [parsed] at member
    split at member
    · cases member
    · rename_i response built
      split at member
      · rename_i status
        obtain ⟨ok, same⟩ := served_of_ofRequest built status
        split at member
        · cases member
        · rw [(FileCache.openPath_mem_build os _ _).mp member, same]
          obtain ⟨clean, harmless⟩ := condition ok
          exact ⟨_, Path.relativePath_isRelative _, cStr_served clean request,
            fun parent => harmless (visible.mp parent)⟩
      · cases member

/-- A component that is not the parent component, but begins with it and a NUL. -/
def hiddenParent : RequestText where
  method := .get
  uri := bytes "/..\x00.html"
  fields := [{ key := bytes "Accept", value := bytes "*/*", keyNonempty := by decide,
               keyNoColon := by decide, keyOneLine := by decide, valueNonempty := by decide,
               valueOneLine := by decide }]
  uriNoSpace := by decide
  uriOneLine := by decide

theorem hiddenParent_served : Served hiddenParent.request where
  status := rfl
  noParent := by decide
  typed := by decide
  typedAfterCut := by decide
  accept := ⟨bytes "*/*", by decide⟩

theorem parent_of_root_outside : ¬ InsideRoot (bytes "/srv/www") (bytes "/srv/www/..") := by
  rintro ⟨rest, relative, same, harmless⟩
  have parent : bytes "/srv/www/.." = Path.append (bytes "/srv/www") Path.dotdot := by decide
  rw [parent] at same
  have unique := Path.append_injective (by decide) relative same
  rw [← unique] at harmless
  exact harmless (by decide)

theorem opens_parent_behind_nul :
    ∃ os contained path, .openPath path ∈ serveCalls os contained (bytes "/srv/www")
        (bytes "GET /..\x00.html HTTP/1.1\r\nAccept:*/*\r\n\r\n") ∧
      ¬ InsideRoot (bytes "/srv/www") path := by
  have message : bytes "GET /..\x00.html HTTP/1.1\r\nAccept:*/*\r\n\r\n" =
      hiddenParent.render ++ [] := by decide
  have parsed := HttpRequest.parseResquest_render hiddenParent []
  have opened := openPath_served hiddenParent_served parsed emptyOs (bytes "/srv/www")
  have path : cStr (served hiddenParent.request (bytes "/srv/www")).uri = bytes "/srv/www/.." := by
    decide
  rw [path] at opened
  rw [message]
  exact ⟨emptyOs, fun _ => false, bytes "/srv/www/..", opened, parent_of_root_outside⟩

end CoroMultiplex.Server
