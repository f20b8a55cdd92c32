import CoroMultiplex.Http.Acceptance
import CoroMultiplex.Http.Response

/-! Headers written by the serializer and read by the parser.

The serializer separates a name from its value by a colon and a space, the parser
cuts at the colon alone. What is read back is the map with a space before each value.
-/

set_option autoImplicit false

namespace CoroMultiplex.Http

open Foundations Foundations.Sequence

/-- A name and a value that neither separator can be confused with. -/
structure PlainEntry (key value : Bytes) : Prop where
  keyNonempty : key ≠ []
  keyNoColon : colon ∉ key
  keyNoCr : 13 ∉ key
  keyNoLf : 10 ∉ key
  valueNonempty : value ≠ []
  valueNoCr : 13 ∉ value
  valueNoLf : 10 ∉ value
  valueStart : value.head? ≠ some space ∧ value.head? ≠ some tab
  valueEnd : value.getLast? ≠ some space ∧ value.getLast? ≠ some tab

def Plain (headers : HttpHeaders) : Prop :=
  ∀ key value, headers[key]? = some value → PlainEntry key value

theorem oneLine_of_noCr {line : Bytes} (noCr : 13 ∉ line) : ¬ crlf <:+: line :=
  fun inside => noCr (inside.subset (by decide))

/-- The field that the parser sees in the line of an entry. -/
def PlainEntry.field {key value : Bytes} (plain : PlainEntry key value) : HeaderField where
  key := key
  value := space :: value
  keyNonempty := plain.keyNonempty
  keyNoColon := plain.keyNoColon
  keyOneLine := oneLine_of_noCr plain.keyNoCr
  valueNonempty := List.cons_ne_nil _ _
  valueOneLine := oneLine_of_noCr (by simpa [space] using plain.valueNoCr)

theorem PlainEntry.line {key value : Bytes} (plain : PlainEntry key value) :
    HttpResponse.headerLine (key, value) = plain.field.line ++ crlf := by
  have separator : bytes ": " = [colon, space] := by decide
  simp [HttpResponse.headerLine, HeaderField.line, PlainEntry.field, separator]

theorem lines_of_entries (entries : List (Bytes × Bytes))
    (plain : ∀ entry ∈ entries, PlainEntry entry.1 entry.2) :
    ∃ fields : List HeaderField,
      (entries.map HttpResponse.headerLine).flatten = RequestText.headerLines fields ∧
      (fields.map fun field => (field.key, field.value)) =
        entries.map fun entry => (entry.1, space :: entry.2) := by
  induction entries with
  | nil => exact ⟨[], rfl, rfl⟩
  | cons entry entries ih =>
    obtain ⟨fields, lines, same⟩ := ih fun other member => plain other (by simp [member])
    have first := plain entry (by simp)
    refine ⟨first.field :: fields, ?_, ?_⟩
    · rw [List.map_cons, List.flatten_cons, lines, first.line]
      rfl
    · rw [List.map_cons, List.map_cons, same]
      rfl

/-- Searching the entries of a map for a key looks the key up. -/
theorem find?_toList (headers : HttpHeaders) (key : Bytes) :
    headers.toList.find? (·.1 = key) = headers[key]?.map fun value => (key, value) := by
  cases found : headers.toList.find? (·.1 = key) with
  | none =>
    cases known : headers[key]? with
    | none => rfl
    | some value =>
      have member := Std.ExtTreeMap.mem_toList_iff_getElem?_eq_some.mpr known
      have missed := List.find?_eq_none.mp found _ member
      simp at missed
  | some entry =>
    have member := List.mem_of_find?_eq_some found
    have same : entry.1 = key := by simpa using List.find?_some found
    subst same
    rw [Std.ExtTreeMap.mem_toList_iff_getElem?_eq_some.mp member]
    rfl

/-- Looking a key up among fields that are the entries with a space before each value. -/
theorem find?_fields {fields : List HeaderField} {entries : List (Bytes × Bytes)}
    (same : (fields.map fun field => (field.key, field.value)) =
      entries.map fun entry => (entry.1, space :: entry.2)) (key : Bytes) :
    (fields.find? (·.key = key)).map HeaderField.value =
      (entries.find? (·.1 = key)).map fun entry => space :: entry.2 := by
  have found := congrArg (fun pairs => (pairs.find? (·.1 = key)).map Prod.snd) same
  simpa [List.find?_map, Function.comp_def] using found

namespace HttpResponse

/-- What the serializer writes behind the status line. -/
def headerText (self : HttpResponse) : Bytes := self.serialize.drop self.statusLine.length

theorem headerText_of_ok {self : HttpResponse} (ok : self.status = .ok) :
    self.headerText = (self.headers.toList.map headerLine).flatten ++ crlf := by
  rw [headerText, serialize, ok]
  simp only
  rw [List.append_assoc, List.drop_left]

/-- The parser reads every line the serializer writes, and gives each value back with
a space before it. -/
theorem parseHeaders_headerText {self : HttpResponse} (ok : self.status = .ok)
    (plain : Plain self.headers) :
    ∃ read : HttpRequest, HttpRequest.parseHeaders {} self.headerText = (read, crlf, .ok ()) ∧
      ∀ key : Bytes, read.headers[key]? = self.headers[key]?.map (space :: ·) := by
  obtain ⟨fields, lines, same⟩ := lines_of_entries self.headers.toList
    fun entry member => plain _ _ (Std.ExtTreeMap.mem_toList_iff_getElem?_eq_some.mp member)
  have parsed := HttpRequest.parseHeaders_render {} fields []
  rw [List.append_nil, List.append_nil] at parsed
  rw [headerText_of_ok ok, lines]
  refine ⟨_, parsed, fun key => ?_⟩
  change (RequestText.headers fields ∅)[key]? = _
  rw [RequestText.headers_getElem?, find?_fields same, find?_toList]
  simp [Function.comp_def]

/-- The parser reads the serialized headers into an empty map, gives the same map
back, and leaves the blank line. -/
def HeadersSurvive (self : HttpResponse) : Prop :=
  ∃ read : HttpRequest, HttpRequest.parseHeaders {} self.headerText = (read, crlf, .ok ()) ∧
    read.headers = self.headers

/-- Headers survive encoding and decoding if and only if there are none. -/
theorem headersSurvive_iff_empty {self : HttpResponse} (ok : self.status = .ok)
    (plain : Plain self.headers) : self.HeadersSurvive ↔ self.headers = ∅ := by
  obtain ⟨read, parsed, lookup⟩ := parseHeaders_headerText ok plain
  constructor
  · rintro ⟨other, parsedOther, same⟩
    obtain rfl : read = other := congrArg Prod.fst (parsed.symm.trans parsedOther)
    apply Std.ExtTreeMap.ext_getElem?
    intro key
    have longer := lookup key
    rw [same] at longer
    cases known : self.headers[key]? with
    | none => simp
    | some value =>
      rw [known, Option.map_some, Option.some.injEq] at longer
      have lengths := congrArg List.length longer
      rw [List.length_cons] at lengths
      omega
  · intro empty
    refine ⟨read, parsed, ?_⟩
    apply Std.ExtTreeMap.ext_getElem?
    intro key
    rw [lookup key, empty]
    simp

theorem empty_headers_survive : ({} : HttpResponse).HeadersSurvive :=
  (@headersSurvive_iff_empty {} rfl (by simp [Plain])).mpr rfl

def typedResponse : HttpResponse where
  headers := (∅ : HttpHeaders).insertIfNew (bytes "Content-Type") (bytes "text/html")

theorem typedResponse_plain : Plain typedResponse.headers := by
  intro key value known
  rw [typedResponse, Std.ExtTreeMap.getElem?_insertIfNew] at known
  simp only [Std.ExtTreeMap.not_mem_empty, not_false_eq_true, and_true,
    Std.ExtTreeMap.getElem?_empty, Option.ite_none_right_eq_some, Option.some.injEq] at known
  obtain ⟨here, rfl⟩ := known
  obtain rfl := Std.LawfulEqOrd.eq_of_compare here
  constructor <;> decide

/-- A single header comes back with a longer value. -/
theorem contentType_lost :
    typedResponse.status = .ok ∧ Plain typedResponse.headers ∧ ¬ typedResponse.HeadersSurvive := by
  refine ⟨rfl, typedResponse_plain, ?_⟩
  rintro ⟨other, parsedOther, same⟩
  obtain ⟨read, parsed, lookup⟩ := parseHeaders_headerText rfl typedResponse_plain
  obtain rfl : read = other := congrArg Prod.fst (parsed.symm.trans parsedOther)
  have longer := lookup (bytes "Content-Type")
  rw [same] at longer
  revert longer
  decide

end HttpResponse

end CoroMultiplex.Http
