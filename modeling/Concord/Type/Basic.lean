import Concord.Name

namespace Concord

/-- The place of a declaration in its tree, counted from zero in the order of allocation. -/
structure DeclId where
  index : Nat
deriving DecidableEq, Inhabited

/-- How an id is shown in messages. -/
def DeclId.display (id : DeclId) : String :=
  "#" ++ toString id.index

/-- What a type names: a class or type alias, bound in one of three ways, or a type parameter. These
references are the only links from a type to declarations. -/
inductive ClassifierRef where
  /-- A class or type alias of the same tree. -/
  | resolved (id : DeclId)
  /-- A name that linking has not looked up yet. -/
  | symbolic (name : QualifiedName)
  /-- A classifier outside the tree. -/
  | external (name : QualifiedName)
  /-- A type parameter of an enclosing declaration. -/
  | typeParameter (name : SimpleName)
deriving DecidableEq

namespace ClassifierRef

instance : Inhabited ClassifierRef := ⟨external default⟩

def isResolved : ClassifierRef → Bool
  | resolved _ => true
  | _ => false

/-- The qualified name that a reference carries itself. -/
def inlineName? : ClassifierRef → Option QualifiedName
  | symbolic name | external name => some name
  | resolved _ | typeParameter _ => none

end ClassifierRef

/-- Declaration-site or use-site variance. -/
inductive Variance where
  | invariant
  | contravariant
  | covariant
deriving DecidableEq, Inhabited

mutual
/-- A type, or a range of types with distinct lower and upper bounds. -/
inductive Ty (ρ : Type) where
  | simple (type : SimpleType ρ)
  | flexible (lower upper : SimpleType ρ)
/-- A classifier applied to arguments. The abbreviation is the alias spelling of the type; the
classifier and arguments beside it are the expanded form. -/
structure SimpleType (ρ : Type) where
  classifier : ρ
  arguments : List (TypeArgument ρ)
  nullable : Bool
  definitelyNotNull : Bool
  abbreviation : Option (SimpleType ρ)
/-- An argument of a classifier: any type at all, or a type used at a variance. -/
inductive TypeArgument (ρ : Type) where
  | star
  | projection (variance : Variance) (type : Ty ρ)
end

instance {ρ : Type} [Inhabited ρ] : Inhabited (SimpleType ρ) := ⟨⟨default, [], false, false, none⟩⟩

instance {ρ : Type} [Inhabited ρ] : Inhabited (Ty ρ) := ⟨.simple default⟩

instance {ρ : Type} : Inhabited (TypeArgument ρ) := ⟨.star⟩

namespace SimpleType

/-- The reference that comparisons look at: the one of the abbreviation, if there is one. -/
def comparedRef {ρ : Type} (type : SimpleType ρ) : ρ :=
  match type.abbreviation with
  | some spelling => spelling.classifier
  | none => type.classifier

/-- The arguments that comparisons look at: those of the abbreviation, if there is one. -/
def comparedArguments {ρ : Type} (type : SimpleType ρ) : List (TypeArgument ρ) :=
  match type.abbreviation with
  | some spelling => spelling.arguments
  | none => type.arguments

end SimpleType

namespace Ty

/-- The same type marked nullable. Flexible types have no mark of their own. -/
def markNullable {ρ : Type} : Ty ρ → Ty ρ
  | simple type => simple { type with nullable := true }
  | flexible lower upper => flexible lower upper

/-- Attaches an alias spelling to a simple type. -/
def abbreviate {ρ : Type} (spelling : SimpleType ρ) : Ty ρ → Ty ρ
  | simple type => simple { type with abbreviation := some spelling }
  | flexible lower upper => flexible lower upper

end Ty

/-- A type parameter of a class, function, property or alias. -/
structure TypeParameter (ρ : Type) where
  name : SimpleName
  variance : Variance
  upperBounds : List (Ty ρ)
  isReified : Bool

end Concord
