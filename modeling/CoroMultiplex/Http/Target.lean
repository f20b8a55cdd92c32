import CoroMultiplex.Http.Resolution

/-! What of a request target chooses the resource.

The query is cut off behind the tests that refuse a target, so these see it. The
extension that is left after the cut keeps a parent component from appearing there.
-/

set_option autoImplicit false

namespace CoroMultiplex.Http

open Foundations Foundations.Sequence

namespace HttpResponse

theorem prefix_indexed (uri : Path) : uri <+: indexed uri := by
  unfold indexed
  split
  · next ends =>
    obtain ⟨front, rfl⟩ := ends
    have relative : Path.IsRelative (bytes "index.html") := by decide
    rw [Path.append_relative relative, List.append_assoc]
    exact List.prefix_append _ _
  · exact List.prefix_rfl

/-- The index name is no parent component. -/
theorem dotdot_names_indexed (uri : Path) :
    Path.dotdot ∈ Path.names (indexed uri) ↔ Path.dotdot ∈ Path.names uri := by
  by_cases ends : [Path.slash] <:+ uri
  · obtain ⟨front, rfl⟩ := ends
    have harmless : Path.dotdot ∉ Path.names (bytes "index.html") := by decide
    rw [indexed_of_slash, Path.names_append_slash, Path.names_append_slash, List.mem_append,
      List.mem_append]
    simp [harmless]
  · rw [indexed, if_neg ends]

theorem indexed_of_typed {uri : Path} (typed : Path.hasExtension uri = true) : indexed uri = uri := by
  have named := (Path.filename_of_hasExtension typed).1
  have ends : ¬ [Path.slash] <:+ uri := by
    rintro ⟨front, rfl⟩
    exact named (by rw [Path.filename_concat, if_pos rfl])
  rw [indexed, if_neg ends]

theorem resolved_of_query {path : Path} (plain : 63 ∉ path) (query : Bytes) :
    resolved (path ++ 63 :: query) = path := by
  obtain ⟨tail, same⟩ := prefix_indexed (path ++ 63 :: query)
  have kept : ∀ byte ∈ path, (byte != 63) = true := by
    intro byte member
    have other : byte ≠ 63 := fun mark => plain (mark ▸ member)
    simpa using other
  rw [resolved, withoutArgs_eq, ← same, List.append_assoc, List.takeWhile_append_of_pos kept]
  simp

theorem indexed_plain {path : Path} (plain : 63 ∉ path) : 63 ∉ indexed path := by
  by_cases ends : [Path.slash] <:+ path
  · obtain ⟨front, rfl⟩ := ends
    have foreign : 63 ∉ Path.slash :: bytes "index.html" := by decide
    have clean : 63 ∉ front := fun member => plain (List.mem_append_left _ member)
    rw [indexed_of_slash, List.mem_append, not_or]
    exact ⟨clean, foreign⟩
  · rwa [indexed, if_neg ends]

theorem resolved_of_plain {path : Path} (plain : 63 ∉ path) : resolved path = indexed path := by
  have kept := indexed_plain plain
  rw [resolved, withoutArgs_eq, List.takeWhile_eq_self_iff]
  intro byte member
  have other : byte ≠ 63 := fun mark => kept (mark ▸ member)
  simpa using other

/-- Two constructions that both return give the same status, uri and headers. -/
def SameResource (first second : Except Exception HttpResponse) : Prop :=
  ∀ one other, first = .ok one → second = .ok other →
    one.status = other.status ∧ one.uri = other.uri ∧ one.headers = other.headers

theorem SameResource.refl (outcome : Except Exception HttpResponse) :
    SameResource outcome outcome := by
  intro one other first second
  obtain rfl := Except.ok.inj (first.symm.trans second)
  exact ⟨rfl, rfl, rfl⟩

/-- Without a query the constructor returns, and a refusal names no question mark. -/
theorem ofRequest_of_plain {request : HttpRequest} (accepted : request.status = .ok)
    (plain : 63 ∉ request.uri) (webRoot : Path) :
    ∃ response, ofRequest request webRoot = .ok response ∧
      (response.status = .notFound → 63 ∉ response.uri) := by
  by_cases parent : Path.dotdot ∈ Path.components request.uri
  · exact ⟨_, ofRequest_of_parent accepted webRoot parent, fun _ => plain⟩
  · cases typed : Path.hasExtension (indexed request.uri) with
    | false =>
      exact ⟨_, ofRequest_of_untyped accepted webRoot parent typed, fun _ => indexed_plain plain⟩
    | true =>
      have after : Path.hasExtension (resolved request.uri) = true := by
        rwa [resolved_of_plain plain]
      rw [ofRequest_of_typed accepted webRoot parent typed, if_pos after]
      split
      · exact ⟨_, rfl, fun impossible => nomatch impossible⟩
      · exact ⟨_, rfl, fun impossible => nomatch impossible⟩

/-- A refusal that names the query is unlike any answer without it. -/
theorem refused_differs {request : HttpRequest} (accepted : request.status = .ok)
    (plain : 63 ∉ request.uri) (webRoot : Path) {other : HttpRequest} {uri : Path}
    (queried : 63 ∈ uri) :
    ¬ SameResource (ofRequest request webRoot) (.ok (begun other .notFound uri)) := by
  intro same
  obtain ⟨response, returned, named⟩ := ofRequest_of_plain accepted plain webRoot
  obtain ⟨status, sameUri, _⟩ := same response _ returned rfl
  have free := named status
  rw [sameUri] at free
  exact free queried

/-- A test that refuses the target with its query shows in the answer. -/
theorem tests_of_sameResource {request : HttpRequest} (accepted : request.status = .ok)
    {path query webRoot : Path} (plain : 63 ∉ path)
    (same : SameResource (ofRequest { request with uri := path } webRoot)
      (ofRequest { request with uri := path ++ 63 :: query } webRoot)) :
    Path.dotdot ∉ Path.components (path ++ 63 :: query) ∧
      Path.hasExtension (indexed (path ++ 63 :: query)) = true := by
  have queried : 63 ∈ path ++ 63 :: query := by simp
  by_cases parent : Path.dotdot ∈ Path.components (path ++ 63 :: query)
  · rw [@ofRequest_of_parent { request with uri := path ++ 63 :: query } accepted webRoot
      parent] at same
    exact absurd same (@refused_differs { request with uri := path } accepted plain webRoot
      _ _ queried)
  · refine ⟨parent, ?_⟩
    cases typed : Path.hasExtension (indexed (path ++ 63 :: query)) with
    | true => rfl
    | false =>
      rw [@ofRequest_of_untyped { request with uri := path ++ 63 :: query } accepted webRoot
        parent typed] at same
      exact absurd same (@refused_differs { request with uri := path } accepted plain webRoot
        _ _ ((prefix_indexed _).subset queried))

/-- Behind the tests the query is cut off, and the path alone passes them as well. -/
theorem sameResource_of_tests {request : HttpRequest} (accepted : request.status = .ok)
    {path query : Path} (webRoot : Path) (plain : 63 ∉ path)
    (noParent : Path.dotdot ∉ Path.components (path ++ 63 :: query))
    (typed : Path.hasExtension (indexed (path ++ 63 :: query)) = true) :
    SameResource (ofRequest { request with uri := path } webRoot)
      (ofRequest { request with uri := path ++ 63 :: query } webRoot) := by
  have second := @ofRequest_of_typed { request with uri := path ++ 63 :: query } accepted
    webRoot noParent typed
  have cut := resolved_of_query plain query
  simp only [cut] at second
  by_cases after : Path.hasExtension path = true
  · have whole := indexed_of_typed after
    have kept : resolved path = path := (resolved_of_plain plain).trans whole
    have harmless : Path.dotdot ∉ Path.components path := by
      rw [Path.dotdot_mem_components_iff] at noParent ⊢
      exact fun parent =>
        noParent (Path.dotdot_of_typed_beginning (List.prefix_append _ _) after parent)
    have first := @ofRequest_of_typed { request with uri := path } accepted webRoot harmless
      (by rw [whole]; exact after)
    have alike : served { request with uri := path } webRoot =
        served { request with uri := path ++ 63 :: query } webRoot := by
      simp only [served, cut, kept]
    simp only [kept, alike] at first
    rw [first, second]
    exact SameResource.refl _
  · rw [second, if_neg after]
    intro one other _ returned
    cases returned

/-- Adding a query to a target leaves status, uri and headers of the response alone if
and only if no test on the whole target refuses it: none of its components, the
query included, is the parent component, and it still has an extension. -/
theorem query_keeps_resource_iff (request : HttpRequest) (path query webRoot : Path)
    (plain : 63 ∉ path) :
    SameResource (ofRequest { request with uri := path } webRoot)
        (ofRequest { request with uri := path ++ 63 :: query } webRoot) ↔
      (request.status = .ok →
        Path.dotdot ∉ Path.components (path ++ 63 :: query) ∧
          Path.hasExtension (indexed (path ++ 63 :: query)) = true) := by
  by_cases accepted : request.status = .ok
  · constructor
    · exact fun same _ => tests_of_sameResource accepted plain same
    · intro tests
      obtain ⟨noParent, typed⟩ := tests accepted
      exact sameResource_of_tests accepted webRoot plain noParent typed
  · have refused : ∀ uri : Path, ofRequest { request with uri := uri } webRoot =
        .ok { status := request.status } :=
      fun uri => @ofRequest_of_rejected { request with uri := uri } accepted webRoot
    rw [refused, refused]
    exact ⟨fun _ ok => absurd ok accepted, fun _ => SameResource.refl _⟩

def acceptAll : HeaderField := .literal (bytes "Accept") (bytes "*/*") (by decide)

/-- A request for a page, with the given headers. -/
def pageWith (fields : List HeaderField) : RequestText where
  method := .get
  uri := bytes "/a.html"
  fields := fields
  uriNoSpace := by decide
  uriOneLine := by decide

def page : RequestText := pageWith [acceptAll]

theorem page_served : Served page.request where
  status := rfl
  noParent := by decide
  typed := by decide
  typedAfterCut := by decide
  accept := ⟨bytes "*/*", by decide⟩

theorem version_keeps_page :
    SameResource (ofRequest { page.request with uri := bytes "/a.html" } (bytes "/srv"))
      (ofRequest { page.request with uri := bytes "/a.html" ++ 63 :: bytes "v=1" }
        (bytes "/srv")) :=
  (query_keeps_resource_iff page.request (bytes "/a.html") (bytes "v=1") (bytes "/srv")
    (by decide)).mpr fun _ => ⟨by decide, by decide⟩

theorem query_parent_refuses_page :
    ¬ SameResource (ofRequest { page.request with uri := bytes "/a.html" } (bytes "/srv"))
      (ofRequest { page.request with uri := bytes "/a.html" ++ 63 :: bytes "x/../y" }
        (bytes "/srv")) := by
  intro same
  have served := ofRequest_of_served page_served (bytes "/srv")
  have refused := @ofRequest_of_parent
    { page.request with uri := bytes "/a.html" ++ 63 :: bytes "x/../y" } rfl (bytes "/srv")
    (by decide)
  obtain ⟨status, _⟩ := same _ _ served refused
  cases status

theorem resolved_beginning (uri : Path) : resolved uri <+: indexed uri := by
  rw [resolved, withoutArgs_eq]
  exact List.takeWhile_prefix _

theorem resolved_plain (uri : Path) : 63 ∉ resolved uri := by
  rw [resolved, withoutArgs_eq]
  intro mark
  have kept := List.mem_takeWhile_imp mark
  exact absurd rfl (bne_iff_ne.mp kept)

/-- What is left of a target that passed the tests names no parent directory: the cut
can lay one bare only as a last name, and a path that ends in it has no extension. -/
theorem resolved_noParent {request : HttpRequest} (ok : Served request) :
    Path.dotdot ∉ Path.names (resolved request.uri) := by
  intro parent
  have before := Path.dotdot_of_typed_beginning (resolved_beginning request.uri) ok.typedAfterCut parent
  rw [dotdot_names_indexed, ← Path.dotdot_mem_components_iff] at before
  exact ok.noParent before

theorem served_contentType (request : HttpRequest) (webRoot : Path) :
    (served request webRoot).headers[bytes "Content-Type"]? =
      some (mimeFullType ((Path.extension (resolved request.uri)).drop 1)) := by
  have distinct : bytes "Catch-Control" ≠ bytes "Content-Type" := by decide
  rw [served, Std.ExtTreeMap.getElem?_insertIfNew, Std.ExtTreeMap.getElem?_insertIfNew]
  simp [distinct]

theorem mimeFullType_eq (extension : Bytes) :
    mimeFullType extension =
      (extensionMap.lookup extension).getD (bytes "application/octet-stream") := by
  unfold mimeFullType
  cases extensionMap.lookup extension <;> rfl

/-- A response with status OK names a file below the web root, by a path without a
parent component and without a query, and types it by its extension. -/
theorem ok_names_typed_file {request : HttpRequest} {webRoot : Path} {response : HttpResponse}
    (built : ofRequest request webRoot = .ok response) (ok : response.status = .ok) :
    ∃ r, response.uri = Path.append webRoot r ∧ Path.IsRelative r ∧ r ≠ [] ∧
      Path.dotdot ∉ Path.components r ∧ 63 ∉ r ∧ Path.extension r ≠ [] ∧
      response.headers[bytes "Content-Type"]? = some
        ((extensionMap.lookup ((Path.extension r).drop 1)).getD
          (bytes "application/octet-stream")) := by
  obtain ⟨all, rfl⟩ := served_of_ofRequest built ok
  have typed : Path.extension (Path.relativePath (resolved request.uri)) ≠ [] := by
    rw [Path.extension_relativePath]
    simpa [Path.hasExtension] using all.typedAfterCut
  refine ⟨Path.relativePath (resolved request.uri), rfl, Path.relativePath_isRelative _, ?_, ?_, ?_,
    typed, ?_⟩
  · intro empty
    rw [empty] at typed
    exact typed rfl
  · rw [Path.dotdot_mem_components_iff, Path.names_relativePath]
    exact resolved_noParent all
  · exact fun mark => resolved_plain request.uri ((List.dropWhile_sublist _).subset mark)
  · rw [served_contentType, mimeFullType_eq, Path.extension_relativePath]

theorem page_names_typed_file :
    ∃ r, (served page.request (bytes "/srv")).uri = Path.append (bytes "/srv") r ∧
      Path.IsRelative r ∧ r ≠ [] ∧ Path.dotdot ∉ Path.components r ∧ 63 ∉ r ∧
      Path.extension r ≠ [] ∧
      (served page.request (bytes "/srv")).headers[bytes "Content-Type"]? = some
        ((extensionMap.lookup ((Path.extension r).drop 1)).getD
          (bytes "application/octet-stream")) :=
  ok_names_typed_file (ofRequest_of_served page_served (bytes "/srv")) rfl

end HttpResponse

end CoroMultiplex.Http
