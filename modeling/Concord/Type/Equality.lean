import Concord.Type.Basic

namespace Concord

variable {ρ : Type} [DecidableEq ρ]

mutual
def Ty.decEq : (a b : Ty ρ) → Decidable (a = b)
  | .simple a, .simple b =>
    match a.decEq b with
    | isTrue h => isTrue (h ▸ rfl)
    | isFalse h => isFalse (by simpa using h)
  | .flexible a b, .flexible c d =>
    match a.decEq c, b.decEq d with
    | isTrue h, isTrue k => isTrue (h ▸ k ▸ rfl)
    | isFalse h, _ => isFalse (by simp [h])
    | _, isFalse h => isFalse (by simp [h])
  | .simple _, .flexible _ _ => isFalse nofun
  | .flexible _ _, .simple _ => isFalse nofun
def SimpleType.decEq : (a b : SimpleType ρ) → Decidable (a = b)
  | ⟨classifier, arguments, nullable, notNull, spelling⟩,
    ⟨classifier', arguments', nullable', notNull', spelling'⟩ =>
    if h : classifier = classifier' ∧ nullable = nullable' ∧ notNull = notNull' then
      match argumentsDecEq arguments arguments', abbreviationDecEq spelling spelling' with
      | isTrue i, isTrue j => isTrue (by simp [h, i, j])
      | isFalse i, _ => isFalse (by simp [i])
      | _, isFalse i => isFalse (by simp [i])
    else isFalse (by simp only [SimpleType.mk.injEq]; exact fun e => h ⟨e.1, e.2.2.1, e.2.2.2.1⟩)
def argumentsDecEq : (a b : List (TypeArgument ρ)) → Decidable (a = b)
  | [], [] => isTrue rfl
  | .star :: as, .star :: bs =>
    match argumentsDecEq as bs with
    | isTrue h => isTrue (h ▸ rfl)
    | isFalse h => isFalse (by simpa using h)
  | .projection v s :: as, .projection w t :: bs =>
    match decEq v w, s.decEq t, argumentsDecEq as bs with
    | isTrue h, isTrue i, isTrue j => isTrue (h ▸ i ▸ j ▸ rfl)
    | isFalse h, _, _ => isFalse (by simp [h])
    | _, isFalse h, _ => isFalse (by simp [h])
    | _, _, isFalse h => isFalse (by simp [h])
  | [], _ :: _ => isFalse nofun
  | _ :: _, [] => isFalse nofun
  | .star :: _, .projection _ _ :: _ => isFalse (by simp)
  | .projection _ _ :: _, .star :: _ => isFalse (by simp)
def abbreviationDecEq : (a b : Option (SimpleType ρ)) → Decidable (a = b)
  | none, none => isTrue rfl
  | some a, some b =>
    match a.decEq b with
    | isTrue h => isTrue (h ▸ rfl)
    | isFalse h => isFalse (by simpa using h)
  | none, some _ => isFalse nofun
  | some _, none => isFalse nofun
end

instance : DecidableEq (Ty ρ) := Ty.decEq

instance : DecidableEq (SimpleType ρ) := SimpleType.decEq

instance : DecidableEq (TypeArgument ρ)
  | .star, .star => isTrue rfl
  | .projection v s, .projection w t =>
    match decEq v w, s.decEq t with
    | isTrue h, isTrue i => isTrue (h ▸ i ▸ rfl)
    | isFalse h, _ => isFalse (by simp [h])
    | _, isFalse h => isFalse (by simp [h])
  | .star, .projection _ _ => isFalse nofun
  | .projection _ _, .star => isFalse nofun

deriving instance DecidableEq for TypeParameter

end Concord
