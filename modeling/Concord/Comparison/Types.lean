import Concord.Comparison.Sides

namespace Concord

section

variable {m : Type → Type} [Monad m]

/-- Whether a test holds of the pairs of two lists, taken in order up to the first that fails. Items
without a partner are not tested. -/
def allPairsM {α β : Type} (test : α → β → m Bool) : List α → List β → m Bool
  | a :: as, b :: bs => do
    if ← test a b then allPairsM test as bs else return false
  | _, _ => return true

variable (sides : Sides) (ask : DeclId → DeclId → m Bool)

/-- Whether two references name the same thing. Type parameters do if they have one name.
Classifiers are compared by name if one of them is built in or both lie outside their trees; a
classifier that only one side declares equals none of the other. -/
def refsAgree (a b : ClassifierRef) : m Bool :=
  match a, b with
  | .typeParameter x, .typeParameter y => return x == y
  | .typeParameter _, _ | _, .typeParameter _ => return false
  | a, b =>
    let nameA := sides.first.nameOf? a
    let nameB := sides.second.nameOf? b
    let byName := nameA.isSome && nameA == nameB
    if nameA.any sides.options.isBuiltin || nameB.any sides.options.isBuiltin then return byName
    else match sides.first.resolve? a, sides.second.resolve? b with
      | some x, some y => ask x y
      | some _, none | none, some _ => return false
      | none, none => return byName

/-- Whether two simple types agree in all but their arguments, which are equally many. -/
def headsAgree (a b : SimpleType ClassifierRef) : m Bool :=
  if a.comparedArguments.length == b.comparedArguments.length && a.nullable == b.nullable &&
      a.definitelyNotNull == b.definitelyNotNull then
    refsAgree sides ask a.comparedRef b.comparedRef
  else return false

mutual
/-- Whether a type of the first tree equals one of the second. They are equal when they are written
alike and the classifiers they name can be shared, which is asked of `ask`, in any monad. So the
same rules serve a comparison that remembers its answers and a statement about all of its answers at
once. Questions are asked from left to right, and none is asked once the answer is settled. -/
def typesAgree : Ty ClassifierRef → Ty ClassifierRef → m Bool
  | .simple a, b => do
    if sides.same && Ty.simple a == b then return true
    match b with
    | .simple b => simpleTypesAgree a b
    | .flexible _ _ => return false
  | .flexible lower upper, b => do
    if sides.same && Ty.flexible lower upper == b then return true
    match b with
    | .simple _ => return false
    | .flexible lower' upper' =>
      if ← simpleTypesAgree lower lower' then simpleTypesAgree upper upper' else return false
/-- Whether a simple type of the first tree equals one of the second. Of a type with an alias
spelling, the spelling counts. -/
def simpleTypesAgree : SimpleType ClassifierRef → SimpleType ClassifierRef → m Bool
  | ⟨classifier, arguments, nullable, notNull, spelling⟩, b => do
    if ← headsAgree sides ask ⟨classifier, arguments, nullable, notNull, spelling⟩ b then
      match spelling with
      | some ⟨_, arguments, _, _, _⟩ => argumentsAgree arguments b.comparedArguments
      | none => argumentsAgree arguments b.comparedArguments
    else return false
/-- Whether the arguments of two types are pairwise equal. -/
def argumentsAgree : List (TypeArgument ClassifierRef) → List (TypeArgument ClassifierRef) → m Bool
  | .star :: as, .star :: bs => argumentsAgree as bs
  | .projection variance a :: as, .projection variance' b :: bs => do
    if variance == variance' then
      if ← typesAgree a b then argumentsAgree as bs else return false
    else return false
  | .star :: _, .projection _ _ :: _ | .projection _ _ :: _, .star :: _ => return false
  | [], _ | _, [] => return true
end

/-- Whether two types that may be absent are both absent or equal. -/
def optionalTypesAgree : Option (Ty ClassifierRef) → Option (Ty ClassifierRef) → m Bool
  | none, none => return true
  | some a, some b => typesAgree sides ask a b
  | none, some _ | some _, none => return false

/-- Whether two type parameters agree in variance and bounds. Their names do not count. -/
def typeParameterAgrees (a b : TypeParameter ClassifierRef) : m Bool :=
  if a.variance == b.variance && a.upperBounds.length == b.upperBounds.length then
    allPairsM (typesAgree sides ask) a.upperBounds b.upperBounds
  else return false

/-- Whether two lists of type parameters agree position by position. -/
def typeParametersAgree (a b : List (TypeParameter ClassifierRef)) : m Bool :=
  if a.length == b.length then allPairsM (typeParameterAgrees sides ask) a b else return false

/-- Whether two constructors agree in visibility and, position by position, in the types and vararg
marks of their parameters. -/
def constructorsAgree (a b : Constructor ClassifierRef) : m Bool :=
  if a.visibility == b.visibility && a.parameters.length == b.parameters.length then
    allPairsM (fun p q => do
      if p.isVararg == q.isVararg then typesAgree sides ask p.type q.type else return false)
      a.parameters b.parameters
  else return false

end

end Concord
