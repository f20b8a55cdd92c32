import CoroMultiplex.Http.Target
import CoroMultiplex.Server.Closing
import Mathlib.Data.List.Forall2
import Mathlib.Data.List.Nodup

/-! Messages that differ in the letter case of their header names.

The header map compares names byte by byte, and two names are ever looked up. Another
spelling of one of these is another header.
-/

set_option autoImplicit false

namespace CoroMultiplex.Server

open Foundations Http HttpResponse

/-- The same header, up to the case of its name. -/
def SameHeader (first second : HeaderField) : Prop :=
  first.key.map lower = second.key.map lower ∧ first.value = second.value

/-- Two texts that differ only in the case of their header names, none of which occurs
twice up to case. -/
structure Recased (first second : RequestText) : Prop where
  method : first.method = second.method
  uri : first.uri = second.uri
  fields : List.Forall₂ SameHeader first.fields second.fields
  distinct : (first.fields.map fun field => field.key.map lower).Nodup

/-- Some header has exactly this name. -/
def Named (name : Bytes) (text : RequestText) : Prop := ∃ field ∈ text.fields, field.key = name

theorem named_iff (name : Bytes) (text : RequestText) :
    Named name text ↔ text.request.headers[name]? ≠ none := by
  rw [RequestText.request, RequestText.headers_getElem?, Std.ExtTreeMap.getElem?_empty,
    Option.none_or, ne_eq, Option.map_eq_none_iff, List.find?_eq_none]
  simp [Named]

/-- Only one header of a name, up to case, has the value that is looked up. -/
theorem lookup_of_mem {fields : List HeaderField}
    (distinct : (fields.map fun field => field.key.map lower).Nodup) {field : HeaderField}
    (member : field ∈ fields) :
    (RequestText.headers fields ∅)[field.key]? = some field.value := by
  rw [RequestText.headers_getElem?, Std.ExtTreeMap.getElem?_empty, Option.none_or]
  induction fields with
  | nil => cases member
  | cons other fields ih =>
    rw [List.map_cons, List.nodup_cons] at distinct
    rw [List.find?_cons]
    by_cases here : other.key = field.key
    · rcases List.mem_cons.mp member with rfl | behind
      · simp
      · exact absurd (List.mem_map.mpr ⟨field, behind, by rw [here]⟩) distinct.1
    · rcases List.mem_cons.mp member with rfl | behind
      · exact absurd rfl here
      · simpa [here] using ih distinct.2 behind

namespace Recased

variable {first second : RequestText}

theorem symm (recased : Recased first second) : Recased second first where
  method := recased.method.symm
  uri := recased.uri.symm
  fields := (recased.fields.imp fun _ _ same => ⟨same.1.symm, same.2.symm⟩).flip
  distinct := by
    have names : List.Forall₂ (fun one other : HeaderField =>
        one.key.map lower = other.key.map lower) first.fields second.fields :=
      recased.fields.imp fun _ _ same => same.1
    rw [← List.forall₂_map_right_iff, ← List.forall₂_map_left_iff, List.forall₂_eq_eq_eq] at names
    rw [← names]
    exact recased.distinct

/-- Each header stands in the other text, in some spelling. -/
theorem partner (recased : Recased first second) {field : HeaderField}
    (member : field ∈ first.fields) : ∃ other ∈ second.fields, SameHeader field other := by
  have same := recased.fields
  generalize first.fields = ours at same member
  generalize second.fields = theirs at same
  induction same with
  | nil => cases member
  | cons alike _ ih =>
    rcases List.mem_cons.mp member with rfl | behind
    · exact ⟨_, List.mem_cons_self, alike⟩
    · obtain ⟨other, found, like⟩ := ih behind
      exact ⟨other, List.mem_cons_of_mem _ found, like⟩

end Recased

/-- The text has a Connection header, in some spelling, with the value the session
looks for. -/
def CloseValue (text : RequestText) : Prop :=
  ∃ field ∈ text.fields, field.key.map lower = (bytes "Connection").map lower ∧
    field.value = bytes "Close"

theorem closeSession_iff_named {text : RequestText}
    (distinct : (text.fields.map fun field => field.key.map lower).Nodup) :
    Session.closeSession text.request = true ↔
      CloseValue text ∧ Named (bytes "Connection") text := by
  rw [session_closes_iff]
  constructor
  · intro known
    have named := (named_iff (bytes "Connection") text).mpr (by simp [known])
    obtain ⟨field, member, spelled⟩ := named
    have value : text.request.headers[bytes "Connection"]? = some field.value :=
      spelled ▸ lookup_of_mem distinct member
    rw [known, Option.some.injEq] at value
    exact ⟨⟨field, member, by rw [spelled], value.symm⟩, field, member, spelled⟩
  · rintro ⟨⟨field, member, name, value⟩, other, found, spelled⟩
    have same : other = field :=
      List.inj_on_of_nodup_map distinct found member (by rw [spelled, name])
    have known := lookup_of_mem distinct found
    rw [spelled, same, value] at known
    exact known

theorem Recased.closeValue {first second : RequestText} (recased : Recased first second)
    (asked : CloseValue first) : CloseValue second := by
  obtain ⟨field, member, name, value⟩ := asked
  obtain ⟨other, found, sameName, sameValue⟩ := recased.partner member
  exact ⟨other, found, sameName.symm.trans name, sameValue.symm.trans value⟩

/-- What a client or the file cache can see of a constructed response. -/
def summary (response : HttpResponse) : HttpErrc × Path × HttpHeaders :=
  (response.status, response.uri, response.headers)

def SameAnswer (first second : Except Exception HttpResponse) : Prop :=
  first.map summary = second.map summary

/-- The target passes every test before the Accept check. -/
def TargetAccepted (uri : Path) : Prop :=
  Path.dotdot ∉ Path.components uri ∧ Path.hasExtension (indexed uri) = true ∧
    Path.hasExtension (resolved uri) = true

/-- For one target, all that the answer takes from the headers is whether there is an
Accept header at all. -/
theorem sameAnswer_iff {first second : RequestText} (uri : first.uri = second.uri)
    (webRoot : Path) :
    SameAnswer (ofRequest first.request webRoot) (ofRequest second.request webRoot) ↔
      (TargetAccepted first.uri →
        (Named (bytes "Accept") first ↔ Named (bytes "Accept") second)) := by
  have uris : second.request.uri = first.request.uri := uri.symm
  have ok : first.request.status = .ok := rfl
  have okOther : second.request.status = .ok := rfl
  by_cases parent : Path.dotdot ∈ Path.components first.request.uri
  · have refused : ¬ TargetAccepted first.uri := fun accepted => accepted.1 parent
    rw [ofRequest_of_parent ok webRoot parent, ofRequest_of_parent okOther webRoot (uris ▸ parent)]
    simp [SameAnswer, Except.map, summary, begun, uris, refused]
  · cases typed : Path.hasExtension (indexed first.request.uri) with
    | false =>
      have refused : ¬ TargetAccepted first.uri := fun accepted =>
        absurd accepted.2.1 (by rw [RequestText.request] at typed; simp [typed])
      rw [ofRequest_of_untyped ok webRoot parent typed,
        ofRequest_of_untyped okOther webRoot (uris ▸ parent) (uris ▸ typed)]
      simp [SameAnswer, Except.map, summary, begun, uris, refused]
    | true =>
      rw [ofRequest_of_typed ok webRoot parent typed,
        ofRequest_of_typed okOther webRoot (uris ▸ parent) (uris ▸ typed), uris, named_iff, named_iff]
      by_cases after : Path.hasExtension (resolved first.request.uri) = true
      · have accepted : TargetAccepted first.uri := ⟨parent, typed, after⟩
        simp only [if_pos after, accepted, forall_const]
        by_cases one : first.request.headers[bytes "Accept"]? = none
        · by_cases other : second.request.headers[bytes "Accept"]? = none
          · simp [SameAnswer, Except.map, summary, begun, one, other]
          · simp [SameAnswer, Except.map, summary, begun, served, one, other]
        · by_cases other : second.request.headers[bytes "Accept"]? = none
          · simp [SameAnswer, Except.map, summary, begun, served, one, other]
          · simp [SameAnswer, Except.map, summary, served, uris, one, other]
      · have refused : ¬ TargetAccepted first.uri := fun accepted => after accepted.2.2
        simp [SameAnswer, if_neg after, refused]

theorem sameClose_iff {first second : RequestText} (recased : Recased first second) :
    Session.closeSession first.request = Session.closeSession second.request ↔
      (CloseValue first →
        (Named (bytes "Connection") first ↔ Named (bytes "Connection") second)) := by
  rw [Bool.eq_iff_iff, closeSession_iff_named recased.distinct,
    closeSession_iff_named recased.symm.distinct]
  constructor
  · intro alike asked
    exact ⟨fun spelled => (alike.mp ⟨asked, spelled⟩).2,
      fun spelled => (alike.mpr ⟨recased.closeValue asked, spelled⟩).2⟩
  · intro spelled
    constructor
    · rintro ⟨asked, named⟩
      exact ⟨recased.closeValue asked, (spelled asked).mp named⟩
    · rintro ⟨asked, named⟩
      have before := recased.symm.closeValue asked
      exact ⟨before, (spelled before).mpr named⟩

/-- Names are matched byte by byte. Recasing header names leaves the response and the
decision to close alone if and only if `Accept` is spelled so in both messages or in
neither, where the target reaches the Accept check, and `Connection` is spelled so in both
or in neither, where its value is the one that closes. -/
theorem recased_alike_iff {first second : RequestText} (recased : Recased first second)
    (rest : Bytes) (webRoot : Path) :
    (SameAnswer
        (ofRequest (HttpRequest.parseResquest {} (first.render ++ rest)).1 webRoot)
        (ofRequest (HttpRequest.parseResquest {} (second.render ++ rest)).1 webRoot) ∧
      Session.closeSession (HttpRequest.parseResquest {} (first.render ++ rest)).1 =
        Session.closeSession (HttpRequest.parseResquest {} (second.render ++ rest)).1) ↔
      (TargetAccepted first.uri →
        (Named (bytes "Accept") first ↔ Named (bytes "Accept") second)) ∧
      (CloseValue first →
        (Named (bytes "Connection") first ↔ Named (bytes "Connection") second)) := by
  rw [HttpRequest.parseResquest_render, HttpRequest.parseResquest_render,
    sameAnswer_iff recased.uri, sameClose_iff recased]

/-- The page, asked for with a header name in lower case. -/
def lowerPage : RequestText :=
  pageWith [.literal (bytes "accept") (bytes "*/*") (by decide)]

def host : HeaderField := .literal (bytes "Host") (bytes "a") (by decide)
def upperHost : HeaderField := .literal (bytes "HOST") (bytes "a") (by decide)

theorem recased_pageWith {fields others : List HeaderField}
    (same : List.Forall₂ SameHeader fields others)
    (distinct : (fields.map fun field => field.key.map lower).Nodup) :
    Recased (pageWith fields) (pageWith others) where
  method := rfl
  uri := rfl
  fields := same
  distinct := distinct

theorem upperHost_recased :
    Recased (pageWith [host, acceptAll]) (pageWith [upperHost, acceptAll]) :=
  recased_pageWith (.cons ⟨by decide, rfl⟩ (.cons ⟨rfl, rfl⟩ .nil)) (by decide)

theorem named_pageWith {name : Bytes} {field : HeaderField} (other : field.key ≠ name)
    (fields : List HeaderField) :
    Named name (pageWith (field :: fields)) ↔ Named name (pageWith fields) := by
  simp [Named, pageWith, other]

theorem upperHost_alike :
    SameAnswer
        (ofRequest (HttpRequest.parseResquest {} ((pageWith [host, acceptAll]).render ++ [])).1
          (bytes "/srv"))
        (ofRequest (HttpRequest.parseResquest {} ((pageWith [upperHost, acceptAll]).render ++ [])).1
          (bytes "/srv")) ∧
      Session.closeSession
          (HttpRequest.parseResquest {} ((pageWith [host, acceptAll]).render ++ [])).1 =
        Session.closeSession
          (HttpRequest.parseResquest {} ((pageWith [upperHost, acceptAll]).render ++ [])).1 :=
  (recased_alike_iff upperHost_recased [] (bytes "/srv")).mpr
    ⟨fun _ => (named_pageWith (by decide) _).trans (named_pageWith (by decide) _).symm,
      fun _ => (named_pageWith (by decide) _).trans (named_pageWith (by decide) _).symm⟩

theorem lowerPage_recased : Recased page lowerPage :=
  recased_pageWith (.cons ⟨by decide, rfl⟩ .nil) (by decide)

theorem lowerPage_refused :
    Recased page lowerPage ∧
      ¬ SameAnswer (ofRequest (HttpRequest.parseResquest {} (page.render ++ [])).1 (bytes "/srv"))
        (ofRequest (HttpRequest.parseResquest {} (lowerPage.render ++ [])).1 (bytes "/srv")) := by
  refine ⟨lowerPage_recased, ?_⟩
  rw [HttpRequest.parseResquest_render, HttpRequest.parseResquest_render,
    sameAnswer_iff lowerPage_recased.uri]
  intro spelled
  have named : Named (bytes "Accept") page := ⟨_, List.mem_cons_self, rfl⟩
  obtain ⟨field, member, name⟩ := (spelled ⟨by decide, by decide, by decide⟩).mp named
  rw [List.mem_singleton.mp member] at name
  revert name
  decide

end CoroMultiplex.Server
