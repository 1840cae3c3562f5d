import Concord.Type.Basic

namespace Concord

/-- A finite set of values, each spelled by a keyword of its own. The first value is the default. -/
class Keyword (α : Type) where
  all : List α
  word : α → String

/-- The value that a keyword spells. -/
def Keyword.ofWord? {α : Type} [Keyword α] (word : String) : Option α :=
  (Keyword.all).find? (Keyword.word · == word)

/-- Who may use a declaration. -/
inductive Visibility where
  | everyone
  | inheritors
  | sameModule
  | owner
deriving DecidableEq, Inhabited

/-- Private declarations are never shared. -/
def Visibility.isPrivate (visibility : Visibility) : Bool :=
  visibility == .owner

/-- How a declaration may be overridden or extended. -/
inductive Modality where
  | final
  | extensible
  | abstract
  | sealed
deriving DecidableEq, Inhabited

/-- The role of a declaration in a library for several platforms. -/
inductive Expectation where
  | plain
  | expect
  | actual
deriving DecidableEq, Inhabited

/-- The kind of a class. -/
inductive ClassKind where
  | ordinary
  | interface
  | enumClass
  | enumEntry
  | object
  | annotationClass
deriving DecidableEq, Inhabited

/-- The kind of a declaration. Reports count the kinds in this order. -/
inductive Kind where
  | module
  | package
  | classType
  | function
  | property
  | typeAlias
  | value
deriving DecidableEq, Inhabited

namespace Kind

/-- The word for a kind in messages. -/
def display : Kind → String
  | module => "module"
  | package => "package"
  | classType => "class"
  | function => "function"
  | property => "property"
  | typeAlias => "type alias"
  | value => "value"

/-- Modules, packages and classifiers are entered in the registry of an output forest. -/
def isRegistered : Kind → Bool
  | module | package | classType | typeAlias => true
  | function | property | value => false

/-- Classes and type aliases can be named by types. -/
def isClassifier : Kind → Bool
  | classType | typeAlias => true
  | module | package | function | property | value => false

/-- Which containers may own which kinds. Modules are never owned. -/
def mayContain (container child : Kind) : Bool :=
  match child with
  | module => false
  | package => container == module
  | classType | typeAlias | function | property => container == package || container == classType
  | value => container == function

end Kind

instance : Keyword Variance where
  all := [.invariant, .contravariant, .covariant]
  word
    | .invariant => "invariant"
    | .contravariant => "in"
    | .covariant => "out"

instance : Keyword Visibility where
  all := [.everyone, .inheritors, .sameModule, .owner]
  word
    | .everyone => "public"
    | .inheritors => "protected"
    | .sameModule => "internal"
    | .owner => "private"

instance : Keyword Modality where
  all := [.final, .extensible, .abstract, .sealed]
  word
    | .final => "final"
    | .extensible => "open"
    | .abstract => "abstract"
    | .sealed => "sealed"

instance : Keyword Expectation where
  all := [.plain, .expect, .actual]
  word
    | .plain => "plain"
    | .expect => "expect"
    | .actual => "actual"

instance : Keyword ClassKind where
  all := [.ordinary, .interface, .enumClass, .enumEntry, .object, .annotationClass]
  word
    | .ordinary => "class"
    | .interface => "interface"
    | .enumClass => "enum_class"
    | .enumEntry => "enum_entry"
    | .object => "object"
    | .annotationClass => "annotation_class"

instance : Keyword Kind where
  all := [.module, .package, .classType, .function, .property, .typeAlias, .value]
  word
    | .module => "module"
    | .package => "package"
    | .classType => "class"
    | .function => "function"
    | .property => "property"
    | .typeAlias => "type_alias"
    | .value => "value"

end Concord
