namespace Concord

/-- A JSON number: a natural number that fits 64 bits, or anything else, kept as it is spelled. -/
inductive JsonNumber where
  | natural (value : Nat)
  | spelled (text : String)
deriving DecidableEq

/-- A JSON value. Objects keep the order of their members and may repeat a name. -/
inductive Json where
  | null
  | bool (value : Bool)
  | number (value : JsonNumber)
  | text (value : String)
  | array (items : List Json)
  | object (members : List (String × Json))

namespace Json

instance : Inhabited Json := ⟨null⟩

/-- The JSON number of a natural number. -/
def natural (value : Nat) : Json :=
  number (.natural value)

/-- The first member of a name, if the value is an object that has one. -/
def member? (value : Json) (name : String) : Option Json :=
  match value with
  | object members => members.lookup name
  | _ => none

end Json

/-- Why a text is not a document of the expected form. -/
inductive TextFault where
  /-- The text is not JSON. -/
  | malformed
  /-- The text is JSON of another shape. -/
  | misshapen
deriving DecidableEq

end Concord
