import CoroMultiplex.Http.Grammar
import CoroMultiplex.Http.Response

/-! From a request target to the path of a file.

The parent test, the index rule and the extension test all look at the target
with its query still attached; the extension is used after the query is cut off.
-/

set_option autoImplicit false

namespace CoroMultiplex.Http

open Foundations Foundations.Sequence

namespace HttpResponse

/-- The path a target resolves to below the web root. -/
def resolved (uri : Path) : Path := withoutArgs (indexed uri)

theorem withoutArgs_eq (uri : Path) : withoutArgs uri = uri.takeWhile (· != 63) := by
  unfold withoutArgs
  exact take_find_single 63 uri

theorem indexed_of_slash (front : Path) :
    indexed (front ++ [Path.slash]) = front ++ Path.slash :: bytes "index.html" := by
  have relative : Path.IsRelative (bytes "index.html") := by decide
  have noName : Path.filename (front ++ [Path.slash]) = [] := by
    simp [Path.filename]
  have ends : [Path.slash] <:+ front ++ [Path.slash] := List.suffix_append ..
  rw [indexed, if_pos ends, Path.append_relative relative, noName]
  simp

theorem substr_one (path : Path) :
    substr (Path.extension path) 1 =
      if Path.hasExtension path then .ok ((Path.extension path).drop 1)
      else .error .outOfRange := by
  unfold Path.hasExtension
  cases Path.extension path with
  | nil => rfl
  | cons head rest => simp [substr]

/-- The type of an unknown extension is in the table as well. -/
theorem mimeFullType_mem (extension : Bytes) :
    mimeFullType extension ∈ extensionMap.map Prod.snd := by
  unfold mimeFullType
  split
  · decide
  · next type found =>
    obtain ⟨before, after, split, _⟩ := List.lookup_eq_some_iff.mp found
    exact List.mem_map.mpr ⟨(extension, type), by rw [split]; simp, rfl⟩

theorem mimeFullType_head (extension : Bytes) :
    ∃ first rest, mimeFullType extension = first :: rest ∧ first ≠ 42 := by
  have table : ∀ type ∈ extensionMap.map Prod.snd, type ≠ [] ∧ type.head? ≠ some 42 := by decide
  obtain ⟨nonempty, head⟩ := table _ (mimeFullType_mem extension)
  generalize mimeFullType extension = type at nonempty head
  cases type with
  | nil => exact absurd rfl nonempty
  | cons first rest => exact ⟨first, rest, rfl, by simpa using head⟩

/-- No MIME type starts with an asterisk, so no header value opens both with one
and with the type itself: the Accept test never rejects. -/
theorem rejects_mimeFullType (accepted extension : Bytes) :
    rejects accepted (mimeFullType extension) = false := by
  obtain ⟨first, rest, type, notStar⟩ := mimeFullType_head extension
  -- Both found at the front would make the type begin with an asterisk.
  have exclusive : ¬ (find (bytes "*/*") accepted = some 0 ∧
      find (mimeFullType extension) accepted = some 0) := by
    rintro ⟨star, typed⟩
    have left := find_split star
    have right := find_split typed
    rw [type] at right
    rw [left] at right
    exact notStar (List.cons.inj right).1.symm
  simp only [rejects, Bool.and_eq_false_iff, beq_eq_false_iff_ne]
  by_cases star : find (bytes "*/*") accepted = some 0
  · exact Or.inr fun typed => exclusive ⟨star, typed⟩
  · exact Or.inl (Or.inl star)

/-- The requests that the constructor answers with OK. -/
structure Served (request : HttpRequest) : Prop where
  status : request.status = .ok
  noParent : Path.dotdot ∉ Path.components request.uri
  typed : Path.hasExtension (indexed request.uri) = true
  typedAfterCut : Path.hasExtension (resolved request.uri) = true
  accept : ∃ accepted, request.headers[bytes "Accept"]? = some accepted

def served (request : HttpRequest) (webRoot : Path) : HttpResponse :=
  let fullType := mimeFullType ((Path.extension (resolved request.uri)).drop 1)
  { version := request.version
    status := .ok
    method := request.method
    uri := Path.append webRoot (Path.relativePath (resolved request.uri))
    headers := ((∅ : HttpHeaders).insertIfNew (bytes "Content-Type") fullType).insertIfNew
      (bytes "Catch-Control") (bytes "no-cache") }

theorem ofRequest_of_served {request : HttpRequest} (ok : Served request) (webRoot : Path) :
    ofRequest request webRoot = .ok (served request webRoot) := by
  obtain ⟨accepted, accept⟩ := ok.accept
  have after := ok.typedAfterCut
  rw [resolved] at after
  simp only [ofRequest, ok.status, ok.noParent, ok.typed, substr_one, after, accept,
    rejects_mimeFullType, served, resolved, ne_eq, not_true_eq_false, if_true, if_false,
    Bool.true_eq_false, Bool.false_eq_true]

theorem ofRequest_of_rejected {request : HttpRequest} (rejected : request.status ≠ .ok)
    (webRoot : Path) : ofRequest request webRoot = .ok { status := request.status } := by
  simp [ofRequest, rejected]

/-- The response begun for an accepted request, at the given status and path. -/
def begun (request : HttpRequest) (status : HttpErrc) (uri : Path) : HttpResponse :=
  { version := request.version, status := status, method := request.method, uri := uri }

section

variable {request : HttpRequest} (accepted : request.status = .ok) (webRoot : Path)

include accepted

theorem ofRequest_of_parent (parent : Path.dotdot ∈ Path.components request.uri) :
    ofRequest request webRoot = .ok (begun request .notFound request.uri) := by
  simp [ofRequest, begun, accepted, parent]

variable (noParent : Path.dotdot ∉ Path.components request.uri)

include noParent

theorem ofRequest_of_untyped (untyped : Path.hasExtension (indexed request.uri) = false) :
    ofRequest request webRoot = .ok (begun request .notFound (indexed request.uri)) := by
  simp [ofRequest, begun, accepted, noParent, untyped]

variable (typed : Path.hasExtension (indexed request.uri) = true)

include typed

/-- Behind the tests on the whole target only its part before the query matters. -/
theorem ofRequest_of_typed :
    ofRequest request webRoot =
      if Path.hasExtension (resolved request.uri) = true then
        if request.headers[bytes "Accept"]? = none then
          .ok (begun request .badRequest (resolved request.uri))
        else .ok (served request webRoot)
      else .error .outOfRange := by
  by_cases after : Path.hasExtension (resolved request.uri) = true
  · rw [if_pos after]
    cases accept : request.headers[bytes "Accept"]? with
    | none =>
      rw [resolved] at after
      simp [ofRequest, begun, accepted, noParent, typed, substr_one, after, accept, resolved]
    | some value =>
      exact ofRequest_of_served ⟨accepted, noParent, typed, after, value, accept⟩ webRoot
  · rw [if_neg after]
    rw [resolved] at after
    simp [ofRequest, accepted, noParent, typed, substr_one, after]

end

theorem served_of_ofRequest {request : HttpRequest} {webRoot : Path} {response : HttpResponse}
    (built : ofRequest request webRoot = .ok response) (ok : response.status = .ok) :
    Served request ∧ response = served request webRoot := by
  by_cases accepted : request.status = .ok
  · by_cases parent : Path.dotdot ∈ Path.components request.uri
    · rw [ofRequest_of_parent accepted webRoot parent] at built
      cases built
      cases ok
    · cases typed : Path.hasExtension (indexed request.uri) with
      | false =>
        rw [ofRequest_of_untyped accepted webRoot parent typed] at built
        cases built
        cases ok
      | true =>
        rw [ofRequest_of_typed accepted webRoot parent typed] at built
        split at built
        · next after =>
          split at built
          · cases built
            cases ok
          · next accept =>
            obtain ⟨value, accept⟩ := Option.ne_none_iff_exists'.mp accept
            exact ⟨⟨accepted, parent, typed, after, value, accept⟩, (Except.ok.inj built).symm⟩
        · cases built
  · rw [ofRequest_of_rejected accepted] at built
    cases built
    exact absurd ok accepted

/-- On an accepted request the constructor returns exactly when it stops before
the extension is used, or the target keeps an extension without its query. -/
theorem ofRequest_returns_iff (request : HttpRequest) (webRoot : Path)
    (accepted : request.status = .ok) :
    (∃ response, ofRequest request webRoot = .ok response) ↔
      Path.dotdot ∈ Path.components request.uri ∨
      Path.hasExtension (indexed request.uri) = false ∨
      Path.hasExtension (withoutArgs (indexed request.uri)) = true := by
  by_cases parent : Path.dotdot ∈ Path.components request.uri
  · rw [ofRequest_of_parent accepted webRoot parent]
    simp [parent]
  · cases typed : Path.hasExtension (indexed request.uri) with
    | false =>
      rw [ofRequest_of_untyped accepted webRoot parent typed]
      simp
    | true =>
      rw [ofRequest_of_typed accepted webRoot parent typed, resolved]
      by_cases after : Path.hasExtension (withoutArgs (indexed request.uri)) = true
      · rw [if_pos after]
        split <;> simp [after]
      · simp [parent, after]

theorem ofRequest_returns_for_page :
    ∃ response, ofRequest { uri := bytes "/a.html?v=1" } (bytes "/srv") = .ok response :=
  (ofRequest_returns_iff { uri := bytes "/a.html?v=1" } (bytes "/srv") rfl).mpr
    (Or.inr (Or.inr (by decide)))

/-- A target whose only extension is that of its query. -/
def queryTarget : RequestText where
  method := .get
  uri := bytes "/a?b.html"
  fields := []
  uriNoSpace := by decide
  uriOneLine := by decide

theorem ofRequest_throws_on_query_extension :
    let request := (HttpRequest.parseResquest {} (bytes "GET /a?b.html HTTP/1.1\r\n\r\n")).1
    request.status = .ok ∧ ofRequest request (bytes "/srv") = .error .outOfRange := by
  have message : bytes "GET /a?b.html HTTP/1.1\r\n\r\n" = queryTarget.render ++ [] := by decide
  rw [message, HttpRequest.parseResquest_render]
  exact ⟨rfl, rfl⟩

end HttpResponse

end CoroMultiplex.Http
