import Concord.Json.Reader
import Concord.Json.Record
import Concord.Proofs.Json.Scanning

namespace Concord

namespace Json

/-- No value begins with a closing bracket. -/
private theorem tokens_cons (value : Json) : ∃ token rest, value.tokens = token :: rest ∧
    token ≠ .closeArray ∧ token ≠ .closeObject := by
  cases value with
  | array items => cases items <;> exact ⟨.openArray, _, rfl, nofun, nofun⟩
  | object members => cases members <;> exact ⟨.openObject, _, rfl, nofun, nofun⟩
  | null => exact ⟨.null, _, rfl, nofun, nofun⟩
  | bool value => exact ⟨.bool value, _, rfl, nofun, nofun⟩
  | number value => exact ⟨.number value, _, rfl, nofun, nofun⟩
  | text value => exact ⟨.text value, _, rfl, nofun, nofun⟩

section Reads

variable {bound : Nat} {lenient : Bool} {stack : List JsonFrame} {tokens : List JsonToken}

private theorem mayOpen_iff : (JsonReading.mk (some bound) lenient).mayOpen stack = true ↔
    stack.length < bound :=
  decide_eq_true_iff

private theorem value?_openArray (hnext : tokens.head? ≠ some .closeArray) :
    value? ⟨some bound, lenient⟩ stack (.openArray :: tokens) =
      if stack.length < bound then value? ⟨some bound, lenient⟩ (.array [] :: stack) tokens
      else none := by
  rw [value?]
  · simp only [mayOpen_iff]
  · rintro rest rfl
    exact hnext rfl

private theorem value?_openObject (hnext : tokens.head? ≠ some .closeObject) :
    value? ⟨some bound, lenient⟩ stack (.openObject :: tokens) =
      if stack.length < bound then name? ⟨some bound, lenient⟩ stack [] tokens else none := by
  rw [value?]
  · simp only [mayOpen_iff]
  · rintro rest rfl
    exact hnext rfl

/-- Two bounds on parts are one on the whole. -/
private theorem ite_ite {α : Type} {p q r : Prop} [Decidable p] [Decidable q] [Decidable r]
    {result : Option α} (hboth : p ∧ q ↔ r) :
    (if p then if q then result else none else none) = if r then result else none := by
  by_cases hp : p <;> by_cases hq : q <;> simp [← hboth, hp, hq]

mutual
/-- The tokens of a value are read if it nests no deeper than there is room. -/
private theorem value?_tokens : ∀ (value : Json) (stack : List JsonFrame) (rest : List JsonToken),
    stack.length ≤ bound → value? ⟨some bound, lenient⟩ stack (value.tokens ++ rest) =
      if stack.length + value.height ≤ bound then resume? ⟨some bound, lenient⟩ stack value rest
      else none
  | .null, stack, rest, hroom => by
    rw [tokens, List.singleton_append, value?]
    exact (if_pos hroom).symm
  | .bool value, stack, rest, hroom => by
    rw [tokens, List.singleton_append, value?]
    exact (if_pos hroom).symm
  | .number value, stack, rest, hroom => by
    rw [tokens, List.singleton_append, value?]
    exact (if_pos hroom).symm
  | .text value, stack, rest, hroom => by
    rw [tokens, List.singleton_append, value?]
    exact (if_pos hroom).symm
  | .array [], stack, rest, hroom => by
    simp only [height, heightItems, tokens, List.cons_append, List.nil_append, value?, mayOpen_iff]
    rfl
  | .object [], stack, rest, hroom => by
    simp only [height, heightMembers, tokens, List.cons_append, List.nil_append, value?, mayOpen_iff]
    rfl
  | .array (item :: items), stack, rest, hroom => by
    obtain ⟨token, others, htokens, hopen, -⟩ := tokens_cons item
    rw [tokens, List.cons_append, List.append_assoc, value?_openArray (by simp [htokens, hopen]),
      height, heightItems]
    by_cases hopen : stack.length < bound
    · rw [if_pos hopen, value?_tokens item (.array [] :: stack) _ hopen,
        resume?_itemTokens items stack [] item rest hopen]
      refine ite_ite ?_
      rw [List.length_cons]
      omega
    · rw [if_neg hopen, if_neg (by omega)]
  | .object ((name, value) :: members), stack, rest, hroom => by
    rw [tokens, List.cons_append, value?_openObject (by simp), height, heightMembers]
    by_cases hopen : stack.length < bound
    · rw [if_pos hopen, List.cons_append, List.cons_append, List.append_assoc, name?]
      simp only [JsonReading.accept?]
      rw [value?_tokens value (.object [] name :: stack) _ hopen,
        resume?_memberTokens members stack [] name value rest hopen]
      refine ite_ite ?_
      rw [List.length_cons]
      omega
    · rw [if_neg hopen, if_neg (by omega)]
private theorem resume?_itemTokens : ∀ (items : List Json) (stack : List JsonFrame)
    (taken : List Json) (value : Json) (rest : List JsonToken), stack.length + 1 ≤ bound →
    resume? ⟨some bound, lenient⟩ (.array taken :: stack) value (itemTokens items ++ rest) =
      if stack.length + 1 + heightItems items ≤ bound then
        resume? ⟨some bound, lenient⟩ stack (.array (taken.reverse ++ value :: items)) rest
      else none
  | [], stack, taken, value, rest, hroom => by
    rw [heightItems, Nat.add_zero, if_pos hroom, itemTokens, List.singleton_append, resume?,
      List.reverse_cons]
  | item :: items, stack, taken, value, rest, hroom => by
    rw [itemTokens, List.cons_append, List.append_assoc, resume?,
      value?_tokens item (.array (value :: taken) :: stack) _ hroom,
      resume?_itemTokens items stack (value :: taken) item rest hroom, heightItems,
      List.reverse_cons, List.append_assoc, List.singleton_append]
    refine ite_ite ?_
    rw [List.length_cons]
    omega
private theorem resume?_memberTokens : ∀ (members : List (String × Json)) (stack : List JsonFrame)
    (taken : List (String × Json)) (name : String) (value : Json) (rest : List JsonToken),
    stack.length + 1 ≤ bound →
    resume? ⟨some bound, lenient⟩ (.object taken name :: stack) value
        (memberTokens members ++ rest) =
      if stack.length + 1 + heightMembers members ≤ bound then
        resume? ⟨some bound, lenient⟩ stack (.object (taken.reverse ++ (name, value) :: members)) rest
      else none
  | [], stack, taken, name, value, rest, hroom => by
    rw [heightMembers, Nat.add_zero, if_pos hroom, memberTokens, List.singleton_append, resume?,
      List.reverse_cons]
  | (next, item) :: members, stack, taken, name, value, rest, hroom => by
    rw [memberTokens, List.cons_append, List.cons_append, List.cons_append, List.append_assoc,
      resume?, name?]
    simp only [JsonReading.accept?]
    rw [value?_tokens item (.object ((name, value) :: taken) next :: stack) _ hroom,
      resume?_memberTokens members stack ((name, value) :: taken) next item rest hroom,
      heightMembers, List.reverse_cons, List.append_assoc, List.singleton_append]
    refine ite_ite ?_
    rw [List.length_cons]
    omega
end

/-- The tokens of a value are read exactly if the value nests no deeper than allowed. -/
theorem read?_tokens (value : Json) : read? ⟨some bound, lenient⟩ value.tokens =
    if value.height ≤ bound then some (value, []) else none := by
  have hread : value? ⟨some bound, lenient⟩ [] (value.tokens ++ []) = _ :=
    value?_tokens value [] [] (Nat.zero_le bound)
  rw [List.append_nil, List.length_nil, Nat.zero_add] at hread
  exact hread

end Reads

theorem heightItems_le {items : List Json} {bound : Nat} :
    heightItems items ≤ bound ↔ ∀ item ∈ items, item.height ≤ bound := by
  induction items with
  | nil => exact iff_of_true (Nat.zero_le _) nofun
  | cons item items ih => rw [heightItems, Nat.max_le, List.forall_mem_cons, ih]

theorem heightMembers_le {members : List (String × Json)} {bound : Nat} :
    heightMembers members ≤ bound ↔ ∀ member ∈ members, member.2.height ≤ bound := by
  induction members with
  | nil => exact iff_of_true (Nat.zero_le _) nofun
  | cons member members ih => rw [heightMembers, Nat.max_le, List.forall_mem_cons, ih]

/-- Every open array or object holds no more than there is room for. -/
private def Roomy (bound : Nat) : List JsonFrame → Prop
  | [] => True
  | .array items :: stack => stack.length + 1 + heightItems items ≤ bound ∧ Roomy bound stack
  | .object members _ :: stack =>
    stack.length + 1 + heightMembers members ≤ bound ∧ Roomy bound stack

section Heights

variable {bound : Nat} {lenient : Bool}

private theorem room_array {stack : List JsonFrame} {items : List Json} {value : Json}
    (hroom : stack.length + 1 + value.height ≤ bound)
    (hitems : stack.length + 1 + heightItems items ≤ bound) :
    stack.length + 1 + heightItems (value :: items) ≤ bound := by
  rw [heightItems]
  omega

private theorem room_object {stack : List JsonFrame} {members : List (String × Json)}
    {value : Json} (name : String) (hroom : stack.length + 1 + value.height ≤ bound)
    (hmembers : stack.length + 1 + heightMembers members ≤ bound) :
    stack.length + 1 + heightMembers ((name, value) :: members) ≤ bound := by
  rw [heightMembers]
  omega

private theorem heightItems_reverse (items : List Json) :
    heightItems items.reverse = heightItems items := by
  refine Nat.le_antisymm ?_ ?_ <;> refine heightItems_le.mpr fun item hitem => ?_
  · exact heightItems_le.mp (Nat.le_refl _) item (List.mem_reverse.mp hitem)
  · exact heightItems_le.mp (Nat.le_refl _) item (List.mem_reverse.mpr hitem)

private theorem heightMembers_reverse (members : List (String × Json)) :
    heightMembers members.reverse = heightMembers members := by
  refine Nat.le_antisymm ?_ ?_ <;> refine heightMembers_le.mpr fun member hmember => ?_
  · exact heightMembers_le.mp (Nat.le_refl _) member (List.mem_reverse.mp hmember)
  · exact heightMembers_le.mp (Nat.le_refl _) member (List.mem_reverse.mpr hmember)

mutual
private theorem height_of_value? : ∀ (tokens : List JsonToken) {stack : List JsonFrame} {value : Json}
    {left : List JsonToken}, value? ⟨some bound, lenient⟩ stack tokens = some (value, left) →
    stack.length ≤ bound → Roomy bound stack → value.height ≤ bound
  | [], _, _, _, hread, _, _ => by cases hread
  | .null :: rest, stack, value, left, hread, hroom, hroomy => by
    rw [value?] at hread
    exact height_of_resume? rest hread hroom hroomy
  | .bool _ :: rest, stack, value, left, hread, hroom, hroomy => by
    rw [value?] at hread
    exact height_of_resume? rest hread hroom hroomy
  | .number _ :: rest, stack, value, left, hread, hroom, hroomy => by
    rw [value?] at hread
    split at hread
    · exact height_of_resume? rest hread hroom hroomy
    · cases hread
  | .text _ :: rest, stack, value, left, hread, hroom, hroomy => by
    rw [value?] at hread
    split at hread
    · exact height_of_resume? rest hread hroom hroomy
    · cases hread
  | [.openArray], stack, value, left, hread, hroom, hroomy => by
    rw [value?_openArray (by simp)] at hread
    split at hread <;> cases hread
  | .openArray :: token :: rest, stack, value, left, hread, hroom, hroomy => by
    by_cases htoken : token = .closeArray
    · subst htoken
      simp only [value?, mayOpen_iff] at hread
      split at hread
      · next hopen => exact height_of_resume? rest hread hopen hroomy
      · cases hread
    · rw [value?_openArray (by simpa using htoken)] at hread
      split at hread
      · next hopen => exact height_of_value? (token :: rest) hread hopen ⟨hopen, hroomy⟩
      · cases hread
  | [.openObject], stack, value, left, hread, hroom, hroomy => by
    rw [value?_openObject (by simp)] at hread
    split at hread <;> cases hread
  | .openObject :: token :: rest, stack, value, left, hread, hroom, hroomy => by
    by_cases htoken : token = .closeObject
    · subst htoken
      simp only [value?, mayOpen_iff] at hread
      split at hread
      · next hopen => exact height_of_resume? rest hread hopen hroomy
      · cases hread
    · rw [value?_openObject (by simpa using htoken)] at hread
      split at hread
      · next hopen => exact height_of_name? (token :: rest) hread hopen hroomy
      · cases hread
  | .closeArray :: _, _, _, _, hread, _, _ => by cases hread
  | .closeObject :: _, _, _, _, hread, _, _ => by cases hread
  | .comma :: _, _, _, _, hread, _, _ => by cases hread
  | .colon :: _, _, _, _, hread, _, _ => by cases hread
  | .fault :: _, _, _, _, hread, _, _ => by cases hread
private theorem height_of_resume? : ∀ (tokens : List JsonToken) {stack : List JsonFrame}
    {value result : Json} {left : List JsonToken},
    resume? ⟨some bound, lenient⟩ stack value tokens = some (result, left) →
    stack.length + value.height ≤ bound → Roomy bound stack → result.height ≤ bound
  | tokens, [], value, result, left, hread, hroom, hroomy => by
    rw [resume?] at hread
    cases hread
    rwa [List.length_nil, Nat.zero_add] at hroom
  | [], frame :: stack, value, result, left, hread, hroom, hroomy => by
    cases frame <;> cases hread
  | token :: rest, .array items :: stack, value, result, left, hread, hroom, hroomy => by
    have hitems := room_array hroom hroomy.1
    cases token with
    | comma =>
      rw [resume?] at hread
      exact height_of_value? rest hread (Nat.le_of_add_right_le hitems) ⟨hitems, hroomy.2⟩
    | closeArray =>
      rw [resume?] at hread
      refine height_of_resume? rest hread ?_ hroomy.2
      rw [height, heightItems_reverse]
      omega
    | _ => cases hread
  | token :: rest, .object members name :: stack, value, result, left, hread, hroom, hroomy => by
    have hmembers := room_object name hroom hroomy.1
    cases token with
    | comma =>
      rw [resume?] at hread
      exact height_of_name? rest hread hmembers hroomy.2
    | closeObject =>
      rw [resume?] at hread
      refine height_of_resume? rest hread ?_ hroomy.2
      rw [height, heightMembers_reverse]
      omega
    | _ => cases hread
private theorem height_of_name? : ∀ (tokens : List JsonToken) {stack : List JsonFrame}
    {members : List (String × Json)} {value : Json} {left : List JsonToken},
    name? ⟨some bound, lenient⟩ stack members tokens = some (value, left) →
    stack.length + 1 + heightMembers members ≤ bound → Roomy bound stack → value.height ≤ bound
  | [], _, _, _, _, hread, _, _ => by cases hread
  | [token], _, _, _, _, hread, _, _ => by cases token <;> cases hread
  | token :: mark :: rest, stack, members, value, left, hread, hroom, hroomy => by
    cases token with
    | text name =>
      cases mark with
      | colon =>
        rw [name?] at hread
        split at hread
        · exact height_of_value? rest hread (Nat.le_of_add_right_le hroom) ⟨hroom, hroomy⟩
        · cases hread
      | _ => cases hread
    | _ => cases hread
end

/-- What is read nests no deeper than allowed. -/
theorem height_of_read? {tokens rest : List JsonToken} {value : Json}
    (hread : read? ⟨some bound, lenient⟩ tokens = some (value, rest)) : value.height ≤ bound :=
  height_of_value? tokens hread (Nat.zero_le bound) trivial

end Heights

end Json

end Concord
