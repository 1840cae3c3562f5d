import Concord.Declaration.Basic

namespace Concord

/-- What a written type names. A well-formed type fills exactly one of the two fields. -/
structure Spelling where
  classifier : Option QualifiedName
  typeParameter : Option SimpleName
deriving DecidableEq

namespace Source

/-- A written alias. The expanded type is left out when it equals the underlying one. -/
structure AliasInfo where
  underlying : Ty Spelling
  expanded : Option (Ty Spelling)
  typeParameters : List (TypeParameter Spelling)
deriving DecidableEq

/-- What a written declaration of each kind carries. -/
inductive Payload where
  | module (info : ModuleInfo)
  | package
  | classType (info : ClassInfo Spelling)
  | function (info : FunctionInfo Spelling)
  | property (info : PropertyInfo Spelling)
  | typeAlias (info : AliasInfo)
  | value (info : ValueInfo Spelling)
deriving DecidableEq

def Payload.kind : Payload → Kind
  | module _ => .module
  | package => .package
  | classType _ => .classType
  | function _ => .function
  | property _ => .property
  | typeAlias _ => .typeAlias
  | value _ => .value

end Source

/-- A written declaration with its members. The name of a package is its whole qualified name. Its
types name classifiers and type parameters as they are spelled, and nothing in it depends on a tree. -/
inductive Source where
  | mk (name : SimpleName) (visibility : Visibility) (modality : Modality)
    (expectation : Expectation) (payload : Source.Payload) (members : List Source)

namespace Source

def name : Source → SimpleName
  | mk name _ _ _ _ _ => name

def payload : Source → Payload
  | mk _ _ _ _ payload _ => payload

def kind (source : Source) : Kind :=
  source.payload.kind

end Source

end Concord
