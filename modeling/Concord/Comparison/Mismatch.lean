import Concord.Tree.Error

namespace Concord

/-- Constructs that have no shared form at all. -/
inductive Unshareable where
  /-- The right-hand side of a type alias is another alias. -/
  | aliasOfAlias
  /-- A type alias has type parameters, or arguments on its right-hand side. -/
  | parameterizedAlias
  /-- A type alias stands for an inline class. -/
  | inlineAliasTarget
deriving DecidableEq

/-- The two accessors of a property. -/
inductive AccessorRole where
  | getter
  | setter
deriving DecidableEq

/-- A rule that failed. -/
inductive Cause where
  | kinds (first second : Kind)
  | privacy
  | names
  | visibilities
  | classKinds
  | typeParameters
  /-- A nested class, the containing classes of which cannot be shared. -/
  | containers
  | suspends
  | returnTypes
  | receivers
  | parameterCounts
  | parameter (index : Nat)
  | types
  | varargs
  | constProperty
  | lateinitProperty
  | vars
  | accessors (role : AccessorRole)
  /-- The classes that two aliases stand for differ in kind, modality or visibility. -/
  | aliasedClasses
  | unsupported (construct : Unshareable)
  | concreteInterfaceMember
  /-- The name matches an exclusion pattern. -/
  | excluded
  | recursionLimit
deriving DecidableEq

/-- How a cause is shown in reports. -/
def Cause.message : Cause → String
  | kinds first second => "kind mismatch (" ++ first.display ++ " vs " ++ second.display ++ ")"
  | privacy => "private declaration"
  | names => "qualified names differ"
  | visibilities => "visibility differs"
  | classKinds => "class kind differs"
  | typeParameters => "type parameters differ"
  | containers => "containing classes differ"
  | suspends => "suspend modifier differs"
  | returnTypes => "return types differ"
  | receivers => "extension receivers differ"
  | parameterCounts => "parameter counts differ"
  | parameter index => "parameter #" ++ toString index ++ " differs"
  | types => "types differ"
  | varargs => "vararg modifier differs"
  | constProperty => "const property"
  | lateinitProperty => "lateinit property"
  | vars => "var/val differs"
  | accessors .getter => "getters differ"
  | accessors .setter => "setters differ"
  | aliasedClasses => "alias targets differ"
  | unsupported .aliasOfAlias => "unsupported: alias of alias"
  | unsupported .parameterizedAlias => "unsupported: parameterized alias"
  | unsupported .inlineAliasTarget => "unsupported: alias of inline class"
  | concreteInterfaceMember => "non-abstract interface member"
  | excluded => "excluded by name"
  | recursionLimit => "comparison recursion limit reached"

/-- The rules that failed, in the order in which they are checked and each only once. Without any it
is a match. -/
structure Mismatch where
  causes : List Cause
deriving DecidableEq, Inhabited

namespace Mismatch

/-- No rule failed. -/
def none : Mismatch := ⟨[]⟩

def ofCause (cause : Cause) : Mismatch := ⟨[cause]⟩

/-- Adds a cause, unless it is there already. -/
def push (mismatch : Mismatch) (cause : Cause) : Mismatch :=
  if mismatch.causes.contains cause then mismatch else ⟨mismatch.causes ++ [cause]⟩

/-- Adds a cause unless its rule holds. -/
def require (mismatch : Mismatch) (holds : Bool) (cause : Cause) : Mismatch :=
  if holds then mismatch else mismatch.push cause

/-- The mismatch of a list of causes, each taken once. -/
def ofCauses (causes : List Cause) : Mismatch :=
  causes.foldl push none

def isEmpty (mismatch : Mismatch) : Bool :=
  mismatch.causes.isEmpty

def contains (mismatch : Mismatch) (cause : Cause) : Bool :=
  mismatch.causes.contains cause

/-- The causes as a report lists them. -/
def message (mismatch : Mismatch) : String :=
  ", ".intercalate (mismatch.causes.map Cause.message)

end Mismatch

/-- A report of two declarations of one name that cannot be shared. -/
structure Rejection where
  qualifiedName : QualifiedName
  kind : Kind
  causes : List Cause
deriving DecidableEq

/-- The line of a report. -/
def Rejection.message (record : Rejection) : String :=
  record.kind.display ++ " " ++ TreeError.quoted record.qualifiedName.display ++ ": " ++
    Mismatch.message ⟨record.causes⟩

end Concord
