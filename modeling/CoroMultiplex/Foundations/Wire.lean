import Mathlib.Data.List.Basic

/-! Messages that end where they say, read one after the other from a stream.

What a reader knows beforehand, its context, may differ from message to message.
-/

set_option autoImplicit false

namespace CoroMultiplex.Foundations

variable {Context Symbol Value Message : Type}

abbrev Reader (Context Symbol Value : Type) := Context → List Symbol → Option (Value × List Symbol)

namespace Reader

/-- The text reads as the value, whatever is behind it. -/
def Delimits (read : Reader Context Symbol Value) (context : Context) (text : List Symbol)
    (value : Value) : Prop :=
  ∀ rest, read context (text ++ rest) = some (value, rest)

def readAll (read : Reader Context Symbol Value) :
    List Context → List Symbol → Option (List Value × List Symbol)
  | [], stream => some ([], stream)
  | context :: contexts, stream =>
    match read context stream with
    | none => none
    | some (value, rest) => (readAll read contexts rest).map fun left => (value :: left.1, left.2)

/-- Delimited messages are read back from their texts, and the stream is left behind them. -/
theorem readAll_delimited {read : Reader Context Symbol Value} {context : Message → Context}
    {text : Message → List Symbol} {value : Message → Value} {messages : List Message}
    (delimited : ∀ message ∈ messages, read.Delimits (context message) (text message) (value message))
    (rest : List Symbol) :
    read.readAll (messages.map context) (messages.flatMap text ++ rest) =
      some (messages.map value, rest) := by
  induction messages with
  | nil => rfl
  | cons message messages ih =>
    have first := delimited message List.mem_cons_self (messages.flatMap text ++ rest)
    have later := ih fun other member => delimited other (List.mem_cons_of_mem _ member)
    rw [List.map_cons, List.flatMap_cons, List.append_assoc, readAll, first]
    simp only [later, Option.map_some, List.map_cons]

end Reader

end CoroMultiplex.Foundations
