import CoroMultiplex.Http.Target

/-! The Accept header and the type of the file.

The constructor searches the header value for three patterns and negates the
positions. A position is false only at the very start, so a pattern that is absent
counts as found.
-/

set_option autoImplicit false

namespace CoroMultiplex.Http

open Foundations Foundations.Sequence

namespace HttpResponse

/-- Some pattern that covers the type `t/s` occurs in the header value. -/
def Accepts (accepted t s : Bytes) : Prop :=
  bytes "*/*" <:+: accepted ∨ t ++ bytes "/*" <:+: accepted ∨ t ++ Path.slash :: s <:+: accepted

instance (accepted t s : Bytes) : Decidable (Accepts accepted t s) :=
  inferInstanceAs (Decidable (_ ∨ _ ∨ _))

theorem mimeWildcardType_of_parts {t : Bytes} (single : Path.slash ∉ t) (s : Bytes) :
    mimeWildcardType (t ++ Path.slash :: s) = t ++ bytes "/*" := by
  rw [mimeWildcardType, find_single Path.slash t s single]
  simp

/-- Every type the constructor resolves to has a slash, and the wildcard it searches for
keeps what is before the first one. -/
theorem mimeFullType_parts (extension : Bytes) :
    ∃ t s, mimeFullType extension = t ++ Path.slash :: s ∧ Path.slash ∉ t ∧
      mimeWildcardType (mimeFullType extension) = t ++ bytes "/*" := by
  have table : ∀ type ∈ extensionMap.map Prod.snd, Path.slash ∈ type := by decide
  have typed : Path.slash ∈ mimeFullType extension := table _ (mimeFullType_mem extension)
  obtain ⟨t, s, split, single⟩ := List.eq_append_cons_of_mem typed
  exact ⟨t, s, split, single, by rw [split, mimeWildcardType_of_parts single]⟩

/-- A request that reaches the Accept check with the header value `accepted`, for a file
of type `t/s`. -/
structure AcceptCheck (request : HttpRequest) (accepted t s : Bytes) : Prop
    extends Served request where
  value : request.headers[bytes "Accept"]? = some accepted
  type : mimeFullType ((Path.extension (resolved request.uri)).drop 1) = t ++ Path.slash :: s
  single : Path.slash ∉ t

/-- The construction refuses with NOT_FOUND exactly what the header does not accept, and
otherwise keeps OK. -/
def Negotiated (outcome : Except Exception HttpResponse) (accepted t s : Bytes) : Prop :=
  ∃ response, outcome = .ok response ∧
    (response.status = .notFound ↔ ¬ Accepts accepted t s) ∧
    (Accepts accepted t s → response.status = .ok)

/-- Of the requests that reach the Accept check, exactly those are negotiated whose
header accepts the type: the others keep OK as well. -/
theorem negotiated_iff_accepts {request : HttpRequest} {accepted t s : Bytes}
    (check : AcceptCheck request accepted t s) (webRoot : Path) :
    Negotiated (ofRequest request webRoot) accepted t s ↔ Accepts accepted t s := by
  have built := ofRequest_of_served check.toServed webRoot
  constructor
  · rintro ⟨response, returned, refused, _⟩
    obtain rfl := Except.ok.inj (built.symm.trans returned)
    by_contra unaccepted
    cases refused.mpr unaccepted
  · intro accepts
    refine ⟨served request webRoot, built, ⟨fun refused => ?_, fun unaccepted => ?_⟩, fun _ => rfl⟩
    · cases refused
    · exact absurd accepts unaccepted

theorem page_check : AcceptCheck page.request (bytes "*/*") (bytes "text") (bytes "html") where
  toServed := page_served
  value := by decide
  type := by decide
  single := by decide

theorem page_negotiated :
    Negotiated (ofRequest page.request (bytes "/srv")) (bytes "*/*") (bytes "text")
      (bytes "html") :=
  (negotiated_iff_accepts page_check (bytes "/srv")).mpr (by decide)

/-- The page asked for by a client that takes images only. -/
def imagesOnly : RequestText :=
  pageWith [.literal (bytes "Accept") (bytes "image/png") (by decide)]

theorem imagesOnly_check :
    AcceptCheck imagesOnly.request (bytes "image/png") (bytes "text") (bytes "html") where
  status := rfl
  noParent := by decide
  typed := by decide
  typedAfterCut := by decide
  accept := ⟨bytes "image/png", by decide⟩
  value := by decide
  type := by decide
  single := by decide

theorem page_served_to_imagesOnly :
    AcceptCheck imagesOnly.request (bytes "image/png") (bytes "text") (bytes "html") ∧
      ¬ Negotiated (ofRequest imagesOnly.request (bytes "/srv")) (bytes "image/png")
        (bytes "text") (bytes "html") := by
  refine ⟨imagesOnly_check, ?_⟩
  rintro ⟨response, returned, refused, _⟩
  have built := ofRequest_of_served imagesOnly_check.toServed (bytes "/srv")
  obtain rfl := Except.ok.inj (built.symm.trans returned)
  cases refused.mpr (by decide)

end HttpResponse

end CoroMultiplex.Http
