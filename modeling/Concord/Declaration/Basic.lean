import Concord.Declaration.Payload

namespace Concord

/-- The attributes of one declaration without its links, so that they can move between trees. -/
structure Data where
  name : SimpleName
  qualifiedName : QualifiedName
  visibility : Visibility
  modality : Modality
  expectation : Expectation
  payload : Payload ClassifierRef
deriving DecidableEq

namespace Data

instance : Inhabited Data := ⟨⟨default, default, default, default, default, .package⟩⟩

/-- Data with default attributes. -/
def ofPayload (name : SimpleName) (qualifiedName : QualifiedName)
    (payload : Payload ClassifierRef) : Data :=
  ⟨name, qualifiedName, .everyone, .final, .plain, payload⟩

def kind (data : Data) : Kind :=
  data.payload.kind

/-- Maps every reference of a declaration. -/
def mapRefs (f : ClassifierRef → ClassifierRef) (data : Data) : Data :=
  { data with payload := data.payload.mapRefs f }

end Data

/-- A declaration placed in a tree. The container is a link back to the parent and owns nothing. -/
structure Declaration where
  data : Data
  container : Option DeclId
  children : List DeclId
deriving DecidableEq, Inhabited

namespace Declaration

def name (declaration : Declaration) : SimpleName :=
  declaration.data.name

def qualifiedName (declaration : Declaration) : QualifiedName :=
  declaration.data.qualifiedName

def payload (declaration : Declaration) : Payload ClassifierRef :=
  declaration.data.payload

def kind (declaration : Declaration) : Kind :=
  declaration.data.kind

end Declaration

end Concord
