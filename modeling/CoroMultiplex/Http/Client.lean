import CoroMultiplex.Foundations.Wire
import CoroMultiplex.Http.Roundtrip

/-! What an HTTP client makes of the responses it reads.

The client knows the method it has asked for. It reads lines up to a blank one, and behind
it as many bytes as `Content-Length` announces, but none for HEAD.
-/

set_option autoImplicit false

namespace CoroMultiplex.Http

open Foundations Foundations.Sequence

namespace Client

def isDigit (byte : UInt8) : Bool := 48 ≤ byte && byte ≤ 57

/-- The number that a numeral denotes. -/
def number (text : Bytes) : Option Nat :=
  if text ≠ [] ∧ text.all isDigit then
    some (text.foldl (fun sofar byte => 10 * sofar + (byte.toNat - 48)) 0)
  else none

/-- What is before the first occurrence of a pattern, and what is behind it. -/
def cut (pattern text : Bytes) : Option (Bytes × Bytes) :=
  (find pattern text).map fun pos => (text.take pos, text.drop (pos + pattern.length))

/-- The lines up to a blank one, no more than a given number, and what is behind it. -/
def readLines : Nat → Bytes → Option (List Bytes × Bytes)
  | 0, _ => none
  | most + 1, stream =>
    match cut crlf stream with
    | none => none
    | some ([], rest) => some ([], rest)
    | some (line, rest) => (readLines most rest).map fun left => (line :: left.1, left.2)

def field (line : Bytes) : Option (Bytes × Bytes) :=
  (cut [colon] line).map fun parts => (parts.1, parts.2.dropWhile (· = space))

structure StatusLine where
  version : Bytes := bytes "HTTP/1.1"
  status : Nat
  reason : Bytes
  deriving DecidableEq

def statusLine (line : Bytes) : Option StatusLine :=
  match cut [space] line with
  | none => none
  | some (version, rest) =>
    match cut [space] rest with
    | none => none
    | some (code, reason) => (number code).map fun status => { version, status, reason }

structure Received extends StatusLine where
  fields : List (Bytes × Bytes)
  body : Bytes

def contentLength (fields : List (Bytes × Bytes)) : Option Nat :=
  (fields.find? (·.1 = bytes "Content-Length")).bind fun entry => number entry.2

/-- One response, and what is behind it. -/
def receive : Reader Method UInt8 Received := fun asked stream =>
  match readLines stream.length stream with
  | some (first :: lines, rest) =>
    match statusLine first, lines.mapM field with
    | some status, some fields =>
      match contentLength fields with
      | none => none
      | some length =>
        let expected := if asked = .head then 0 else length
        if rest.length < expected then none
        else some ({ status with fields, body := rest.take expected }, rest.drop expected)
    | _, _ => none
  | _ => none

/-- The byte of a digit has the code of its character. -/
theorem digit_code {char : Char} (digit : char.isDigit = true) :
    48 ≤ char.toNat ∧ char.toNat ≤ 57 ∧ (UInt8.ofNat char.toNat).toNat = char.toNat := by
  simp only [Char.isDigit, Bool.and_eq_true, decide_eq_true_eq] at digit
  obtain ⟨above, below⟩ := digit
  have low : 48 ≤ char.toNat := above
  have high : char.toNat ≤ 57 := below
  have small : char.toNat % 256 = char.toNat := Nat.mod_eq_of_lt (by omega)
  exact ⟨low, high, by rw [UInt8.toNat_ofNat', small]⟩

theorem digit_of_mem_decimal {value : Nat} {byte : UInt8} (member : byte ∈ decimal value) :
    isDigit byte = true := by
  obtain ⟨char, inside, rfl⟩ := List.mem_map.mp member
  obtain ⟨low, high, code⟩ := digit_code (Nat.isDigit_of_mem_toDigits (by decide) (by decide) inside)
  simp [isDigit, UInt8.le_iff_toNat_le, code, low, high]

theorem decimal_ne_nil (value : Nat) : decimal value ≠ [] := by
  rw [decimal, ne_eq, List.map_eq_nil_iff]
  exact Nat.toDigits_ne_nil

theorem number_decimal (value : Nat) : number (decimal value) = some value := by
  have digits : (decimal value).all isDigit = true :=
    List.all_eq_true.mpr fun byte member => digit_of_mem_decimal member
  rw [number, if_pos ⟨decimal_ne_nil value, digits⟩, Option.some.injEq]
  have read := @Nat.ofDigitChars_ten_toDigits value
  rw [Nat.ofDigitChars_eq_foldl] at read
  rw [decimal, List.foldl_map]
  refine Eq.trans (List.foldl_ext _ _ _ fun sofar char member => ?_) read
  have code := (digit_code (Nat.isDigit_of_mem_toDigits (by decide) (by decide) member)).2.2
  rw [code]
  rfl

theorem cut_crlf {line : Bytes} (oneLine : ¬ crlf <:+: line) (rest : Bytes) :
    cut crlf (line ++ crlf ++ rest) = some (line, rest) := by
  have width : line.length + crlf.length = (line ++ crlf).length := by simp
  rw [cut, find_crlf line rest oneLine, Option.map_some, width, List.drop_left, List.append_assoc,
    List.take_left]

theorem cut_byte {item : UInt8} {text : Bytes} (absent : item ∉ text) (rest : Bytes) :
    cut [item] (text ++ item :: rest) = some (text, rest) := by
  simp [cut, find_single item text rest absent]

theorem readLines_lines {lines : List Bytes} (plain : ∀ line ∈ lines, line ≠ [] ∧ ¬ crlf <:+: line)
    {most : Nat} (enough : lines.length < most) (rest : Bytes) :
    readLines most ((lines.map (· ++ crlf)).flatten ++ crlf ++ rest) = some (lines, rest) := by
  induction lines generalizing most with
  | nil =>
    obtain ⟨most, rfl⟩ := Nat.exists_eq_add_one_of_ne_zero (Nat.ne_zero_of_lt enough)
    have blank : cut crlf (crlf ++ rest) = some ([], rest) := by
      simpa using @cut_crlf [] (by decide) rest
    simp [readLines, blank]
  | cons line lines ih =>
    obtain ⟨most, rfl⟩ := Nat.exists_eq_add_one_of_ne_zero (Nat.ne_zero_of_lt enough)
    obtain ⟨nonempty, oneLine⟩ := plain line List.mem_cons_self
    obtain ⟨first, tail, rfl⟩ := List.exists_cons_of_ne_nil nonempty
    have later := @ih (fun other member => plain other (List.mem_cons_of_mem _ member)) most
      (by simpa using enough)
    have head := cut_crlf oneLine ((lines.map (· ++ crlf)).flatten ++ crlf ++ rest)
    simp only [List.append_assoc] at head later
    simp only [List.map_cons, List.flatten_cons, List.append_assoc, readLines, head, later,
      Option.map_some]

theorem field_line {key value : Bytes} (plain : PlainEntry key value) :
    field (key ++ bytes ": " ++ value) = some (key, value) := by
  have shape : key ++ bytes ": " ++ value = key ++ colon :: (space :: value) := by
    have separator : bytes ": " = [colon, space] := by decide
    simp [separator]
  rw [field, shape, cut_byte plain.keyNoColon]
  obtain ⟨first, rest, rfl⟩ := List.exists_cons_of_ne_nil plain.valueNonempty
  have start : first ≠ space := by simpa using plain.valueStart.1
  simp [start]

theorem not_mem_decimal {byte : UInt8} (other : isDigit byte = false) (value : Nat) :
    byte ∉ decimal value := by
  intro member
  rw [digit_of_mem_decimal member] at other
  cases other

def StatusLine.text (line : StatusLine) : Bytes :=
  line.version ++ bytes " " ++ decimal line.status ++ bytes " " ++ line.reason

structure StatusLine.Plain (line : StatusLine) : Prop where
  versionNoSpace : space ∉ line.version
  versionNoCr : 13 ∉ line.version
  reasonNoCr : 13 ∉ line.reason

theorem statusLine_text {line : StatusLine} (plain : line.Plain) : statusLine line.text = some line := by
  have shape : line.text = line.version ++ space :: (decimal line.status ++ space :: line.reason) := by
    have separator : bytes " " = [space] := by decide
    simp [StatusLine.text, separator]
  have digits := not_mem_decimal (by decide : isDigit space = false) line.status
  simp only [statusLine, shape, cut_byte plain.versionNoSpace, cut_byte digits, number_decimal,
    Option.map_some]

theorem StatusLine.Plain.line {line : StatusLine} (plain : line.Plain) :
    line.text ≠ [] ∧ ¬ crlf <:+: line.text := by
  have separator : bytes " " = [space] := by decide
  refine ⟨by simp [StatusLine.text, separator], oneLine_of_noCr ?_⟩
  have digits := not_mem_decimal (by decide : isDigit 13 = false) line.status
  simp only [StatusLine.text, separator, List.mem_append, List.mem_singleton, not_or]
  exact ⟨⟨⟨⟨plain.versionNoCr, by decide⟩, digits⟩, by decide⟩, plain.reasonNoCr⟩

def entryLine (entry : Bytes × Bytes) : Bytes := entry.1 ++ bytes ": " ++ entry.2

theorem entryLine_plain {entry : Bytes × Bytes} (plain : PlainEntry entry.1 entry.2) :
    entryLine entry ≠ [] ∧ ¬ crlf <:+: entryLine entry := by
  refine ⟨by simp [entryLine, plain.keyNonempty], oneLine_of_noCr ?_⟩
  simp only [entryLine, List.mem_append, not_or]
  exact ⟨⟨plain.keyNoCr, by decide⟩, plain.valueNoCr⟩

theorem fields_lines {fields : List (Bytes × Bytes)}
    (plain : ∀ entry ∈ fields, PlainEntry entry.1 entry.2) :
    (fields.map entryLine).mapM field = some fields := by
  induction fields with
  | nil => rfl
  | cons entry fields ih =>
    have first := field_line (plain entry List.mem_cons_self)
    have later := ih fun other member => plain other (List.mem_cons_of_mem _ member)
    rw [List.map_cons, List.mapM_cons, entryLine, first, later]
    rfl

theorem contentLength_of_find {fields : List (Bytes × Bytes)} {size : Nat}
    (announced : fields.find? (·.1 = bytes "Content-Length") =
      some (bytes "Content-Length", decimal size)) : contentLength fields = some size := by
  rw [contentLength, announced, Option.bind_some, number_decimal]

/-- The lines of a response are no more than its bytes. -/
theorem length_lines (lines : List Bytes) (rest : Bytes) :
    lines.length < ((lines.map (· ++ crlf)).flatten ++ crlf ++ rest).length := by
  induction lines with
  | nil => simp [crlf]
  | cons line lines ih =>
    have width : crlf.length = 2 := rfl
    simp only [List.map_cons, List.flatten_cons, List.length_cons, List.length_append] at ih ⊢
    omega

/-- A text of plain lines that announces its body is read to the end of the body. -/
theorem receive_text {asked : Method} {line : StatusLine} {fields : List (Bytes × Bytes)}
    {body : Bytes} {size : Nat} (plainLine : line.Plain)
    (plain : ∀ entry ∈ fields, PlainEntry entry.1 entry.2)
    (announced : fields.find? (·.1 = bytes "Content-Length") =
      some (bytes "Content-Length", decimal size))
    (length : body.length = if asked = .head then 0 else size) :
    receive.Delimits asked
      (line.text ++ crlf ++ (fields.map HttpResponse.headerLine).flatten ++ crlf ++ body)
      { line with fields, body } := by
  intro rest
  let lines := line.text :: fields.map entryLine
  have shape : line.text ++ crlf ++ (fields.map HttpResponse.headerLine).flatten ++ crlf ++ body ++ rest =
      (lines.map (· ++ crlf)).flatten ++ crlf ++ (body ++ rest) := by
    have same : fields.map HttpResponse.headerLine = (fields.map entryLine).map (· ++ crlf) := by
      rw [List.map_map]
      rfl
    simp [lines, same]
  have plainLines : ∀ line ∈ lines, line ≠ [] ∧ ¬ crlf <:+: line := by
    intro other member
    rcases List.mem_cons.mp member with rfl | member
    · exact plainLine.line
    · obtain ⟨entry, inside, rfl⟩ := List.mem_map.mp member
      exact entryLine_plain (plain entry inside)
  have read := readLines_lines plainLines (length_lines lines (body ++ rest)) (body ++ rest)
  rw [shape, receive]
  simp only [read, lines, statusLine_text plainLine, fields_lines plain,
    contentLength_of_find announced, ← length]
  simp

end Client

end CoroMultiplex.Http
