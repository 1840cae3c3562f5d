import Concord.Comparison.Types

namespace Concord

section

variable {m : Type → Type} [Monad m] {α β : Type}

/-- The list without the first item that passes a test, if one does. -/
def takePartner? (test : β → m Bool) : List β → m (Option (List β))
  | [] => return none
  | b :: bs => do
    if ← test b then return some bs
    return (← takePartner? test bs).map (b :: ·)

/-- The places, counted from `place`, of the items that find a partner. Each takes the first item of
the second list that equals it and is not taken. -/
def partneredFrom (equal : α → β → m Bool) : (place : Nat) → List α → List β → m (List Nat)
  | _, [], _ => return []
  | place, a :: as, bs => do
    match ← takePartner? (equal a) bs with
    | some bs => return place :: (← partneredFrom equal (place + 1) as bs)
    | none => partneredFrom equal (place + 1) as bs

variable (sides : Sides) (ask : DeclId → DeclId → m Bool)

/-- The places of the supertypes that two lists have in common. -/
def sharedSupertypes (a b : List (Ty ClassifierRef)) : m (List Nat) :=
  partneredFrom (typesAgree sides ask) 0 a b

/-- The places of the constructors that two lists have in common. -/
def sharedConstructors (a b : List (Constructor ClassifierRef)) : m (List Nat) :=
  partneredFrom (constructorsAgree sides ask) 0 a b

end

/-- The items of a list at the given places. -/
def keepAt {α : Type} (items : List α) (places : List Nat) : List α :=
  (items.zipIdx.filter fun item => places.contains item.2).map (·.1)

end Concord
