namespace Concord

/-- The name of one declaration inside its container. -/
structure SimpleName where
  text : String
deriving DecidableEq, Inhabited

/-- The full name of a declaration, its segments separated by dots. The root name is the empty text.
The operations read the text as a list of characters, so their laws are laws about lists. -/
structure QualifiedName where
  text : String
deriving DecidableEq, Inhabited

/-- The character between two segments of a qualified name. -/
def separator : Char := '.'

namespace SimpleName

def isEmpty (name : SimpleName) : Bool :=
  name.text.isEmpty

/-- A name can be a segment if it is not empty and holds no separator. -/
def isSegment (name : SimpleName) : Bool :=
  !name.isEmpty && !name.text.toList.contains separator

/-- The name marked as a simple name, for diagnostics. -/
def describe (name : SimpleName) : String :=
  "Name(" ++ name.text ++ ")"

end SimpleName

namespace QualifiedName

/-- The name of the root package. -/
def root : QualifiedName := ⟨""⟩

def isRoot (name : QualifiedName) : Bool :=
  name.text.isEmpty

/-- The texts between separators, empty ones included. There is always at least one. -/
def pieces : List Char → List (List Char)
  | [] => [[]]
  | c :: rest =>
    if c = separator then [] :: pieces rest
    else match pieces rest with
      | [] => [[c]]
      | piece :: others => (c :: piece) :: others

/-- The segments of a name are its non-empty pieces. The root has none. -/
def segments (name : QualifiedName) : List String :=
  ((pieces name.text.toList).filter (!·.isEmpty)).map String.ofList

/-- The text after the last separator, or the whole text if there is none. -/
def shortName (name : QualifiedName) : SimpleName :=
  ⟨String.ofList (name.text.toList.reverse.takeWhile (· ≠ separator)).reverse⟩

/-- The text before the last separator, or the root if there is none. The root has no parent. -/
def parent? (name : QualifiedName) : Option QualifiedName :=
  if name.isRoot then none
  else some ⟨String.ofList ((name.text.toList.reverse.dropWhile (· ≠ separator)).drop 1).reverse⟩

/-- The name of a declaration called `name` inside `container`. -/
def child (container : QualifiedName) (name : SimpleName) : QualifiedName :=
  if container.isRoot then ⟨name.text⟩
  else ⟨container.text ++ separator.toString ++ name.text⟩

/-- What is left of a list after a leading part, if it begins with that part. -/
def after? : List Char → List Char → Option (List Char)
  | [], rest => some rest
  | _ :: _, [] => none
  | c :: lead, d :: rest => if c = d then after? lead rest else none

/-- Whether a name lies in a namespace: the namespace is the name itself or ends at one of its
separators. Every name lies in the root namespace. -/
def startsWith (name : QualifiedName) (scope : String) : Bool :=
  scope.isEmpty ||
    match after? scope.toList name.text.toList with
    | none => false
    | some [] => true
    | some (c :: _) => c == separator

/-- How a name is shown in messages. -/
def display (name : QualifiedName) : String :=
  if name.isRoot then "<root>" else name.text

/-- The name marked as a qualified name, for diagnostics. -/
def describe (name : QualifiedName) : String :=
  "FqName(" ++ name.display ++ ")"

/-- Qualified names are ordered by the code points of their texts. -/
def order (a b : QualifiedName) : Ordering :=
  if a.text < b.text then .lt else if a.text = b.text then .eq else .gt

end QualifiedName

end Concord
