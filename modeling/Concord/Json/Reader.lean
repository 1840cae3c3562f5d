import Concord.Json.Token

namespace Concord

/-- An array or object that is still open, with what it holds so far, last first. An object waits
for the value of a name. -/
inductive JsonFrame where
  | array (items : List Json)
  | object (members : List (String × Json)) (name : String)

/-- How a value is read. A lenient reader only checks the brackets, commas and colons, and is used
to pass over values that nobody asked for. -/
structure JsonReading where
  /-- How many arrays and objects may be open at once; `none` sets no bound. -/
  nesting : Option Nat
  /-- Whether literals without a value are read as empty ones. -/
  lenient : Bool

namespace JsonReading

/-- At most 127 arrays and objects are open at once, and every literal has a value. -/
def strict : JsonReading := ⟨some 127, false⟩

/-- Everything that has the form of JSON. -/
def skipping : JsonReading := ⟨none, true⟩

/-- Whether one more array or object may be opened. -/
def mayOpen (reading : JsonReading) (stack : List JsonFrame) : Bool :=
  match reading.nesting with
  | some bound => stack.length < bound
  | none => true

/-- The value of a literal, or the one that a lenient reader puts in its place. -/
def accept? {α : Type} [Inhabited α] (reading : JsonReading) : Option α → Option α
  | some value => some value
  | none => if reading.lenient then some default else none

end JsonReading

namespace Json

instance : Inhabited JsonNumber := ⟨.natural 0⟩

mutual
/-- Reads a value and everything that the open arrays and objects still need. -/
def value? (reading : JsonReading) (stack : List JsonFrame) :
    List JsonToken → Option (Json × List JsonToken)
  | .null :: rest => resume? reading stack .null rest
  | .bool value :: rest => resume? reading stack (.bool value) rest
  | .number value :: rest =>
    match reading.accept? value with
    | some value => resume? reading stack (.number value) rest
    | none => none
  | .text value :: rest =>
    match reading.accept? value with
    | some value => resume? reading stack (.text value) rest
    | none => none
  | .openArray :: rest =>
    if reading.mayOpen stack then
      match rest with
      | .closeArray :: rest => resume? reading stack (.array []) rest
      | rest => value? reading (.array [] :: stack) rest
    else none
  | .openObject :: rest =>
    if reading.mayOpen stack then
      match rest with
      | .closeObject :: rest => resume? reading stack (.object []) rest
      | rest => name? reading stack [] rest
    else none
  | _ => none
/-- Goes on behind a finished value. -/
def resume? (reading : JsonReading) (stack : List JsonFrame) (value : Json)
    (tokens : List JsonToken) : Option (Json × List JsonToken) :=
  match stack, tokens with
  | [], tokens => some (value, tokens)
  | .array items :: stack, .comma :: rest =>
    value? reading (.array (value :: items) :: stack) rest
  | .array items :: stack, .closeArray :: rest =>
    resume? reading stack (.array (value :: items).reverse) rest
  | .object members name :: stack, .comma :: rest =>
    name? reading stack ((name, value) :: members) rest
  | .object members name :: stack, .closeObject :: rest =>
    resume? reading stack (.object ((name, value) :: members).reverse) rest
  | _ :: _, _ => none
/-- Reads the name of the next member of an object, and goes on with its value. -/
def name? (reading : JsonReading) (stack : List JsonFrame) (members : List (String × Json)) :
    List JsonToken → Option (Json × List JsonToken)
  | .text name :: .colon :: rest =>
    match reading.accept? name with
    | some name => value? reading (.object members name :: stack) rest
    | none => none
  | _ => none
end

/-- Reads one value, and gives the tokens behind it. -/
def read? (reading : JsonReading) (tokens : List JsonToken) : Option (Json × List JsonToken) :=
  value? reading [] tokens

/-- Reads a text that holds one value and nothing else, however deep. -/
def ofText? (text : String) : Option Json :=
  match read? ⟨none, false⟩ (JsonToken.scan text) with
  | some (value, []) => some value
  | _ => none

end Json

end Concord
