import Concord.Type.Basic

namespace Concord

section MapM

variable {m : Type → Type} [Monad m] {ρ σ : Type} (f : ρ → m σ)

mutual
/-- Maps every reference of a type in the order of a walk. The order is the classifier, then the
arguments from left to right, then the abbreviation; of a flexible type the lower bound comes first. -/
def Ty.mapM : Ty ρ → m (Ty σ)
  | .simple type => do return .simple (← type.mapM)
  | .flexible lower upper => do
    let lower ← lower.mapM
    let upper ← upper.mapM
    return .flexible lower upper
/-- Maps every reference of a simple type in the order of a walk. -/
def SimpleType.mapM : SimpleType ρ → m (SimpleType σ)
  | { classifier, arguments, nullable, definitelyNotNull, abbreviation } => do
    let classifier ← f classifier
    let arguments ← mapArgumentsM arguments
    let abbreviation ← mapAbbreviationM abbreviation
    return { classifier, arguments, nullable, definitelyNotNull, abbreviation }
/-- Maps every reference of an argument list from left to right. -/
def mapArgumentsM : List (TypeArgument ρ) → m (List (TypeArgument σ))
  | [] => return []
  | .star :: rest => do return .star :: (← mapArgumentsM rest)
  | .projection variance type :: rest => do
    let type ← type.mapM
    return .projection variance type :: (← mapArgumentsM rest)
/-- Maps every reference of an abbreviation, if there is one. -/
def mapAbbreviationM : Option (SimpleType ρ) → m (Option (SimpleType σ))
  | none => return none
  | some spelling => do return some (← spelling.mapM)
end

end MapM

section Map

variable {ρ σ : Type} (f : ρ → σ)

/-- Maps every reference of a type. -/
def Ty.map (type : Ty ρ) : Ty σ :=
  (Ty.mapM (m := Id) f type).run

/-- Maps every reference of a simple type. -/
def SimpleType.map (type : SimpleType ρ) : SimpleType σ :=
  (SimpleType.mapM (m := Id) f type).run

end Map

section Collapse

variable {ρ : Type}

mutual
/-- Replaces each type by its alias spelling, here and in every argument. -/
def Ty.collapse : Ty ρ → Ty ρ
  | .simple type => .simple type.collapse
  | .flexible lower upper => .flexible lower.collapse upper.collapse
/-- Replaces a type by its innermost alias spelling. The marks stay those of the outermost type. -/
def SimpleType.collapse : SimpleType ρ → SimpleType ρ
  | { classifier, arguments, nullable, definitelyNotNull, abbreviation } =>
    match abbreviation with
    | none =>
      let arguments := collapseArguments arguments
      { classifier, arguments, nullable, definitelyNotNull, abbreviation := none }
    | some spelling => { spelling.collapse with nullable, definitelyNotNull }
/-- Replaces the type of every projection by its alias spelling. -/
def collapseArguments : List (TypeArgument ρ) → List (TypeArgument ρ)
  | [] => []
  | .star :: rest => .star :: collapseArguments rest
  | .projection variance type :: rest =>
    .projection variance type.collapse :: collapseArguments rest
end

end Collapse

end Concord
