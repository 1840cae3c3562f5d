import Concord.Declaration.Basic

namespace Concord

/-- How a written type can fail to name exactly one thing. -/
inductive TypeFault where
  | namesNothing
  | namesTwice
deriving DecidableEq

def TypeFault.message : TypeFault → String
  | namesNothing => "type names neither a classifier nor a type parameter"
  | namesTwice => "type names both a classifier and a type parameter"

/-- An error of a declaration tree. -/
inductive TreeError where
  /-- The id belongs to no declaration of the tree. -/
  | unknownDeclaration (id : DeclId)
  /-- The container cannot own a child of this kind. -/
  | invalidContainer (child container : Kind)
  /-- A tree read from a document has only modules as roots. -/
  | rootNotModule (name : String) (found : Kind)
  /-- A declaration is listed by one container and points at another, or at none. -/
  | brokenContainerLink (name : QualifiedName) (listedUnder : DeclId) (container : Option DeclId)
  /-- A declaration is listed twice. -/
  | sharedChild (name : QualifiedName)
  /-- The name cannot be a segment of a qualified name. -/
  | invalidName (text : String)
  /-- A written type of the named declaration names nothing, or two things. -/
  | malformedType (owner : String) (fault : TypeFault)
deriving DecidableEq

namespace TreeError

/-- A text set between backticks. -/
def quoted (text : String) : String :=
  "`" ++ text ++ "`"

/-- A container as messages about broken links spell it. -/
def containerText : Option DeclId → String
  | some id => "Some(DeclId(" ++ toString id.index ++ "))"
  | none => "None"

/-- The message of an error. -/
def message : TreeError → String
  | unknownDeclaration id => "unknown declaration " ++ id.display
  | invalidContainer child container =>
    "a " ++ child.display ++ " cannot be declared inside a " ++ container.display
  | rootNotModule name found =>
    "tree root " ++ quoted name ++ " is a " ++ found.display ++ ", expected a module"
  | brokenContainerLink name listedUnder container =>
    quoted name.display ++ " is listed under " ++ listedUnder.display ++
      " but its container is " ++ containerText container
  | sharedChild name => quoted name.display ++ " is owned by more than one container"
  | invalidName text => "invalid declaration name " ++ quoted text
  | malformedType owner fault => "malformed type in " ++ quoted owner ++ ": " ++ fault.message

end TreeError

end Concord
