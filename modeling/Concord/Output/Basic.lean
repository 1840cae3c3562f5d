import Concord.Declaration.Attributes

namespace Concord

/-- One of the three outputs: what each side declares, and what both share. -/
inductive Output where
  | first
  | common
  | second
deriving DecidableEq, Inhabited

namespace Output

/-- The outputs in the order in which they are produced. -/
def all : List Output := [first, common, second]

/-- The word for an output in messages. -/
def word : Output → String
  | first => "first"
  | common => "common"
  | second => "second"

end Output

/-- A value for each of the three outputs. -/
structure PerOutput (α : Type) where
  first : α
  common : α
  second : α
deriving DecidableEq, Inhabited

namespace PerOutput

variable {α β : Type}

/-- The same value for each output. -/
def replicate (value : α) : PerOutput α := ⟨value, value, value⟩

def get (values : PerOutput α) : Output → α
  | .first => values.first
  | .common => values.common
  | .second => values.second

def set (values : PerOutput α) (output : Output) (value : α) : PerOutput α :=
  match output with
  | .first => { values with first := value }
  | .common => { values with common := value }
  | .second => { values with second := value }

/-- The values in the order of the outputs. -/
def toList (values : PerOutput α) : List α :=
  [values.first, values.common, values.second]

end PerOutput

end Concord
