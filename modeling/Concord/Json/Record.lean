import Concord.Json.Value

namespace Concord

/-- The fields of a record that are present. -/
abbrev Fields := List (String × Json)

namespace Fields

/-- The known members of an object, none of them repeated. The others are passed over. -/
def ofMembers? (known : List String) (members : List (String × Json)) : Option Fields :=
  let fields := members.filter fun member => known.contains member.1
  if (fields.map (·.1)).Nodup then some fields else none

/-- The fields of a record that must be written as an object. -/
def ofObject? (known : List String) : Json → Option Fields
  | .object members => ofMembers? known members
  | _ => none

/-- The fields of a record written as an object or as an array. An array may end early. -/
def ofRecord? (known : List String) : Json → Option Fields
  | .object members => ofMembers? known members
  | .array items => if items.length ≤ known.length then some (known.zip items) else none
  | _ => none

variable {α : Type}

/-- A field that must be present. -/
def required? (fields : Fields) (name : String) (read : Json → Option α) : Option α :=
  (fields.lookup name).bind read

/-- A field with a default. -/
def default? (fields : Fields) (name : String) (value : α) (read : Json → Option α) : Option α :=
  match fields.lookup name with
  | some json => read json
  | none => some value

/-- A field that may be absent or null. -/
def optional? (fields : Fields) (name : String) (read : Json → Option α) : Option (Option α) :=
  match fields.lookup name with
  | some .null => some none
  | some json => (read json).map some
  | none => some none

end Fields

namespace Json

def bool? : Json → Option Bool
  | bool value => some value
  | _ => none

def text? : Json → Option String
  | text value => some value
  | _ => none

/-- Reads every item of an array. -/
def list? {α : Type} (read : Json → Option α) : Json → Option (List α)
  | array items => items.mapM read
  | _ => none

mutual
/-- How many arrays and objects stand inside one another. -/
def height : Json → Nat
  | array items => heightItems items + 1
  | object members => heightMembers members + 1
  | _ => 0
/-- The height of the highest item. -/
def heightItems : List Json → Nat
  | [] => 0
  | item :: items => max item.height (heightItems items)
/-- The height of the highest member. -/
def heightMembers : List (String × Json) → Nat
  | [] => 0
  | (_, value) :: members => max value.height (heightMembers members)
end

end Json

end Concord
