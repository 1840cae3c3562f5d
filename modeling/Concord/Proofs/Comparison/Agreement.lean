import Concord.Proofs.Comparison.Rules
import Concord.Proofs.Type.Compared

namespace Concord

namespace Sides

variable (sides : Sides) (R : DeclId → DeclId → Prop)

/-- Two references that name the same thing when a relation says which declarations can be shared. -/
inductive RefsAgree : ClassifierRef → ClassifierRef → Prop
  | typeParameter (name : SimpleName) : RefsAgree (.typeParameter name) (.typeParameter name)
  | byName {x y : ClassifierRef} {name : QualifiedName} (hfirst : sides.first.nameOf? x = some name)
    (hsecond : sides.second.nameOf? y = some name)
    (hname : sides.options.isBuiltin name = true ∨
      sides.first.resolve? x = none ∧ sides.second.resolve? y = none) : RefsAgree x y
  | shared {x y : ClassifierRef} {a b : DeclId} (hfirst : sides.first.resolve? x = some a)
    (hsecond : sides.second.resolve? y = some b)
    (hdeclared : (sides.first.nameOf? x).any sides.options.isBuiltin = false ∧
      (sides.second.nameOf? y).any sides.options.isBuiltin = false)
    (hR : R a b) : RefsAgree x y

/-- Two references that agree, or that are one and the same in a single tree. -/
def RefsAlike (x y : ClassifierRef) : Prop :=
  sides.same = true ∧ x = y ∨ sides.RefsAgree R x y

open Classical in
/-- Two types that are found to be equal when a relation says which declarations can be shared. -/
def TypesAgree (a b : Ty ClassifierRef) : Prop :=
  typesAgree (m := Id) sides (fun x y => decide (R x y)) a b = true

open Classical in
/-- Two simple types that are found to be equal, without regard to whether they are the same. -/
def SimpleTypesAgree (a b : SimpleType ClassifierRef) : Prop :=
  simpleTypesAgree (m := Id) sides (fun x y => decide (R x y)) a b = true

/-- Two simple types that say the same but for their arguments, of which they have as many. -/
structure HeadsAgree (a b : SimpleType ClassifierRef) : Prop where
  lengths : a.comparedArguments.length = b.comparedArguments.length
  nullables : a.nullable = b.nullable
  notNulls : a.definitelyNotNull = b.definitelyNotNull
  refs : sides.RefsAgree R a.comparedRef b.comparedRef

open Classical in
/-- Arguments that are found to be pairwise equal. -/
def ArgumentsAgree (as bs : List (TypeArgument ClassifierRef)) : Prop :=
  argumentsAgree (m := Id) sides (fun x y => decide (R x y)) as bs = true

/-- Two type parameters of one variance whose bounds say the same. Their names do not count. -/
structure ParametersAgree (a b : TypeParameter ClassifierRef) : Prop where
  variance : a.variance = b.variance
  bounds : List.Forall₂ (sides.TypesAgree R) a.upperBounds b.upperBounds

/-- Two constructors of one visibility whose parameters say the same. -/
structure ConstructorsAgree (a b : Constructor ClassifierRef) : Prop where
  visibility : a.visibility = b.visibility
  parameters : List.Forall₂ (fun p q => p.isVararg = q.isVararg ∧ sides.TypesAgree R p.type q.type)
    a.parameters b.parameters

variable {sides R}

theorem RefsAgree.mono {S : DeclId → DeclId → Prop} (himp : ∀ a b, R a b → S a b)
    {x y : ClassifierRef} (hagree : sides.RefsAgree R x y) : sides.RefsAgree S x y := by
  cases hagree with
  | typeParameter name => exact .typeParameter name
  | byName hfirst hsecond hname => exact .byName hfirst hsecond hname
  | shared hfirst hsecond hdeclared hR => exact .shared hfirst hsecond hdeclared (himp _ _ hR)

theorem TypesAgree.mono {S : DeclId → DeclId → Prop} (himp : ∀ a b, R a b → S a b)
    {a b : Ty ClassifierRef} (hagree : sides.TypesAgree R a b) : sides.TypesAgree S a b := by
  classical
  obtain ⟨questions, hasks⟩ := typesAgree_isQuestions sides a b
  have hask (Q : DeclId → DeclId → Prop) :
      typesAgree (m := Id) sides (fun x y => decide (Q x y)) a b =
        questions.ask fun x y => decide (Q x y) := hasks _
  rw [TypesAgree, hask, questions.ask_relation] at hagree ⊢
  exact hagree.mono himp

/-- Between two trees, references are alike only when they agree. -/
theorem refsAlike_iff (hdistinct : sides.same = false) {x y : ClassifierRef} :
    sides.RefsAlike R x y ↔ sides.RefsAgree R x y := by
  rw [RefsAlike, hdistinct]
  exact or_iff_right fun h => Bool.false_ne_true h.1

end Sides

section

variable {sides : Sides} {R : DeclId → DeclId → Prop}

private theorem same_name_iff {x y : Option QualifiedName} :
    (x.isSome && x == y) = true ↔ ∃ name, x = some name ∧ y = some name := by
  rw [Bool.and_eq_true, Option.isSome_iff_exists, beq_iff_eq]
  constructor
  · rintro ⟨⟨name, hx⟩, hsame⟩
    exact ⟨name, hx, hsame ▸ hx⟩
  · rintro ⟨name, hx, hy⟩
    exact ⟨⟨name, hx⟩, hx.trans hy.symm⟩

section Relation

open Classical

/-- What is said of two references that are no type parameters. -/
private theorem refsAgree_named {x y : ClassifierRef} (hx : ∀ name, x ≠ .typeParameter name)
    (hy : ∀ name, y ≠ .typeParameter name) :
    refsAgree (m := Id) sides (fun a b => decide (R a b)) x y =
      let byName : Bool :=
        (sides.first.nameOf? x).isSome && sides.first.nameOf? x == sides.second.nameOf? y
      if (sides.first.nameOf? x).any sides.options.isBuiltin ||
          (sides.second.nameOf? y).any sides.options.isBuiltin then byName
      else match sides.first.resolve? x, sides.second.resolve? y with
        | some a, some b => decide (R a b)
        | some _, none | none, some _ => false
        | none, none => byName := by
  cases x with
  | typeParameter name => exact absurd rfl (hx name)
  | _ =>
    cases y with
    | typeParameter name => exact absurd rfl (hy name)
    | _ => rfl

private theorem agree_of_named {x y : ClassifierRef} (hx : ∀ name, x ≠ .typeParameter name)
    (hy : ∀ name, y ≠ .typeParameter name)
    (hyes : refsAgree (m := Id) sides (fun a b => decide (R a b)) x y = true) :
    sides.RefsAgree R x y := by
  rw [refsAgree_named hx hy] at hyes
  dsimp only at hyes
  by_cases hbuiltin : ((sides.first.nameOf? x).any sides.options.isBuiltin ||
      (sides.second.nameOf? y).any sides.options.isBuiltin) = true
  · rw [if_pos hbuiltin, same_name_iff] at hyes
    obtain ⟨name, hfirst, hsecond⟩ := hyes
    refine .byName hfirst hsecond (.inl ?_)
    simpa [hfirst, hsecond] using hbuiltin
  · rw [if_neg hbuiltin] at hyes
    have hdeclared : (sides.first.nameOf? x).any sides.options.isBuiltin = false ∧
        (sides.second.nameOf? y).any sides.options.isBuiltin = false := by
      simpa [Bool.or_eq_false_iff] using hbuiltin
    split at hyes
    · next hfirst hsecond => exact .shared hfirst hsecond hdeclared (of_decide_eq_true hyes)
    · cases hyes
    · cases hyes
    · next hfirst hsecond =>
      obtain ⟨name, hnameX, hnameY⟩ := same_name_iff.mp hyes
      exact .byName hnameX hnameY (.inr ⟨hfirst, hsecond⟩)

/-- Answered by a relation, two references agree exactly when they name the same thing. -/
theorem refsAgree_iff {x y : ClassifierRef} :
    refsAgree (m := Id) sides (fun a b => decide (R a b)) x y = true ↔ sides.RefsAgree R x y := by
  constructor
  · intro hyes
    cases x with
    | typeParameter name =>
      cases y with
      | typeParameter name' =>
        have hsame : name = name' := of_decide_eq_true hyes
        exact hsame ▸ .typeParameter name
      | _ => cases hyes
    | _ =>
      cases y with
      | typeParameter name => cases hyes
      | _ => exact agree_of_named nofun nofun hyes
  · intro hagree
    cases hagree with
    | typeParameter name => exact decide_eq_true rfl
    | @byName _ _ name hfirst hsecond hname =>
      have hx : ∀ parameter, x ≠ .typeParameter parameter := by
        rintro parameter rfl
        cases hfirst
      have hy : ∀ parameter, y ≠ .typeParameter parameter := by
        rintro parameter rfl
        cases hsecond
      rw [refsAgree_named hx hy, hfirst, hsecond]
      obtain hbuiltin | ⟨hnoneX, hnoneY⟩ := hname
      · simp [hbuiltin]
      · simp [hnoneX, hnoneY]
    | shared hfirst hsecond hdeclared hR =>
      have hx : ∀ parameter, x ≠ .typeParameter parameter := by
        rintro parameter rfl
        cases hfirst
      have hy : ∀ parameter, y ≠ .typeParameter parameter := by
        rintro parameter rfl
        cases hsecond
      rw [refsAgree_named hx hy, hdeclared.1, hdeclared.2, hfirst, hsecond]
      exact decide_eq_true hR

private theorem headsAgree_iff {a b : SimpleType ClassifierRef} :
    headsAgree (m := Id) sides (fun a b => decide (R a b)) a b = true ↔ sides.HeadsAgree R a b := by
  have hstructure : sides.HeadsAgree R a b ↔
      (a.comparedArguments.length = b.comparedArguments.length ∧ a.nullable = b.nullable ∧
        a.definitelyNotNull = b.definitelyNotNull) ∧
        sides.RefsAgree R a.comparedRef b.comparedRef :=
    ⟨fun h => ⟨⟨h.lengths, h.nullables, h.notNulls⟩, h.refs⟩,
      fun h => ⟨h.1.1, h.1.2.1, h.1.2.2, h.2⟩⟩
  rw [hstructure, headsAgree]
  split
  · next htest =>
    simp only [Bool.and_eq_true, beq_iff_eq, and_assoc] at htest
    rw [and_iff_right htest]
    exact refsAgree_iff
  · next htest =>
    simp only [Bool.and_eq_true, beq_iff_eq, and_assoc] at htest
    exact iff_of_false Bool.false_ne_true fun h => htest h.1

/-- Of two checks the second decides when the first says yes. -/
private theorem both_iff {check other : Id Bool} :
    (do if ← check then other else return false : Id Bool) = true ↔
      check = true ∧ other = true := by
  have hrun : (do if ← check then other else return false : Id Bool) =
      (if check.run then other else pure false : Id Bool) := rfl
  rw [hrun]
  cases hcheck : check.run with
  | false => exact iff_of_false nofun fun h => by cases hcheck.symm.trans h.1
  | true => exact (and_iff_right (show check = true from hcheck)).symm

/-- A check that a test guards says yes when the test does too. -/
private theorem guarded_iff {test : Bool} {check : Id Bool} :
    (if test then check else return false : Id Bool) = true ↔ test = true ∧ check = true := by
  cases test with
  | false => exact iff_of_false nofun fun h => nomatch h.1
  | true => exact (and_iff_right rfl).symm

/-- A check that says yes in a single tree when two items are the same says yes when it does
otherwise. -/
private theorem shortcut_iff {test : Bool} {check : Id Bool} :
    (if test then return true else check : Id Bool) = true ↔ test = true ∨ check = true := by
  cases test with
  | false => exact (or_iff_right Bool.false_ne_true).symm
  | true => exact iff_of_true rfl (.inl rfl)

namespace Sides

/-- A simple type equals itself in a single tree, and simple types that agree with it. -/
theorem typesAgree_simple {a : SimpleType ClassifierRef} {b : Ty ClassifierRef} :
    sides.TypesAgree R (.simple a) b ↔ sides.same = true ∧ b = .simple a ∨
      ∃ b', b = .simple b' ∧ sides.SimpleTypesAgree R a b' := by
  simp only [TypesAgree, typesAgree]
  refine shortcut_iff.trans (or_congr ?_ ?_)
  · rw [Bool.and_eq_true, beq_iff_eq]
    exact and_congr_right fun _ => eq_comm
  · cases b with
    | simple b =>
      refine ⟨fun h => ⟨b, rfl, h⟩, ?_⟩
      rintro ⟨_, ⟨⟩, h⟩
      exact h
    | flexible lower upper =>
      refine iff_of_false Bool.false_ne_true ?_
      rintro ⟨_, ⟨⟩, _⟩

/-- A flexible type equals itself in a single tree, and flexible types whose bounds agree with its. -/
theorem typesAgree_flexible {lower upper : SimpleType ClassifierRef} {b : Ty ClassifierRef} :
    sides.TypesAgree R (.flexible lower upper) b ↔ sides.same = true ∧ b = .flexible lower upper ∨
      ∃ lower' upper', b = .flexible lower' upper' ∧ sides.SimpleTypesAgree R lower lower' ∧
        sides.SimpleTypesAgree R upper upper' := by
  simp only [TypesAgree, typesAgree]
  refine shortcut_iff.trans (or_congr ?_ ?_)
  · rw [Bool.and_eq_true, beq_iff_eq]
    exact and_congr_right fun _ => eq_comm
  · cases b with
    | simple b =>
      refine iff_of_false Bool.false_ne_true ?_
      rintro ⟨_, _, ⟨⟩, _⟩
    | flexible lower' upper' =>
      refine both_iff.trans ⟨fun h => ⟨lower', upper', rfl, h.1, h.2⟩, ?_⟩
      rintro ⟨_, _, ⟨⟩, hlower, hupper⟩
      exact ⟨hlower, hupper⟩

theorem simpleTypesAgree_iff {a b : SimpleType ClassifierRef} : sides.SimpleTypesAgree R a b ↔
    sides.HeadsAgree R a b ∧ sides.ArgumentsAgree R a.comparedArguments b.comparedArguments := by
  obtain ⟨classifier, arguments, nullable, notNull, abbreviation⟩ := a
  rw [SimpleTypesAgree, simpleTypesAgree.eq_def, ← headsAgree_iff, ArgumentsAgree, ← both_iff]
  cases abbreviation with
  | none => rfl
  | some spelling =>
    cases spelling
    rfl

theorem argumentsAgree_nil {bs : List (TypeArgument ClassifierRef)} :
    sides.ArgumentsAgree R [] bs := by
  rw [ArgumentsAgree, argumentsAgree.eq_def]
  rfl

theorem argumentsAgree_star {as bs : List (TypeArgument ClassifierRef)} :
    sides.ArgumentsAgree R (.star :: as) (.star :: bs) ↔ sides.ArgumentsAgree R as bs := by
  rw [ArgumentsAgree, argumentsAgree.eq_def]
  rfl

theorem argumentsAgree_projection {variance variance' : Variance} {a b : Ty ClassifierRef}
    {as bs : List (TypeArgument ClassifierRef)} :
    sides.ArgumentsAgree R (.projection variance a :: as) (.projection variance' b :: bs) ↔
      variance = variance' ∧ sides.TypesAgree R a b ∧ sides.ArgumentsAgree R as bs := by
  rw [ArgumentsAgree, argumentsAgree.eq_def]
  refine guarded_iff.trans ?_
  rw [beq_iff_eq, both_iff]
  rfl

theorem not_argumentsAgree_star_projection {variance : Variance} {b : Ty ClassifierRef}
    {as bs : List (TypeArgument ClassifierRef)} :
    ¬sides.ArgumentsAgree R (.star :: as) (.projection variance b :: bs) := by
  rw [ArgumentsAgree, argumentsAgree.eq_def]
  exact Bool.false_ne_true

theorem not_argumentsAgree_projection_star {variance : Variance} {a : Ty ClassifierRef}
    {as bs : List (TypeArgument ClassifierRef)} :
    ¬sides.ArgumentsAgree R (.projection variance a :: as) (.star :: bs) := by
  rw [ArgumentsAgree, argumentsAgree.eq_def]
  exact Bool.false_ne_true

end Sides

theorem optionalTypesAgree_iff {a b : Option (Ty ClassifierRef)} :
    optionalTypesAgree (m := Id) sides (fun a b => decide (R a b)) a b = true ↔
      Option.Rel (sides.TypesAgree R) a b := by
  cases a with
  | none =>
    cases b with
    | none => exact iff_of_true rfl .none
    | some b => exact iff_of_false nofun nofun
  | some a =>
    cases b with
    | none => exact iff_of_false nofun nofun
    | some b =>
      show sides.TypesAgree R a b ↔ Option.Rel (sides.TypesAgree R) (some a) (some b)
      exact Option.rel_some_some.symm

/-- A test of all pairs says yes exactly when each pair passes. -/
private theorem allPairs_iff {α β : Type} {test : α → β → Id Bool} {S : α → β → Prop}
    (htest : ∀ a b, test a b = true ↔ S a b) {as : List α} {bs : List β}
    (hlength : as.length = bs.length) : allPairsM test as bs = true ↔ List.Forall₂ S as bs := by
  induction as generalizing bs with
  | nil =>
    cases bs with
    | nil => exact iff_of_true rfl .nil
    | cons b bs => cases hlength
  | cons a as ih =>
    cases bs with
    | nil => cases hlength
    | cons b bs =>
      rw [allPairsM, both_iff, htest, ih (Nat.succ.inj hlength), List.forall₂_cons]

/-- A test of all pairs of two lists that are to be equally long. -/
private theorem pairwise_iff {α β : Type} {test : α → β → Id Bool} {S : α → β → Prop}
    (htest : ∀ a b, test a b = true ↔ S a b) (as : List α) (bs : List β) :
    (if as.length == bs.length then allPairsM test as bs else return false : Id Bool) = true ↔
      List.Forall₂ S as bs := by
  rw [guarded_iff, beq_iff_eq]
  constructor
  · rintro ⟨hlength, hall⟩
    exact (allPairs_iff htest hlength).mp hall
  · intro hall
    exact ⟨hall.length_eq, (allPairs_iff htest hall.length_eq).mpr hall⟩

private theorem typeParameterAgrees_iff {a b : TypeParameter ClassifierRef} :
    typeParameterAgrees (m := Id) sides (fun a b => decide (R a b)) a b = true ↔
      sides.ParametersAgree R a b := by
  have htest (a b : Ty ClassifierRef) : typesAgree (m := Id) sides (fun a b => decide (R a b)) a b =
      true ↔ sides.TypesAgree R a b := Iff.rfl
  have hbounds := pairwise_iff htest a.upperBounds b.upperBounds
  rw [guarded_iff] at hbounds
  rw [typeParameterAgrees, guarded_iff, Bool.and_eq_true, and_assoc, hbounds, beq_iff_eq]
  exact ⟨fun h => ⟨h.1, h.2⟩, fun h => ⟨h.variance, h.bounds⟩⟩

theorem typeParametersAgree_iff {as bs : List (TypeParameter ClassifierRef)} :
    typeParametersAgree (m := Id) sides (fun a b => decide (R a b)) as bs = true ↔
      List.Forall₂ (sides.ParametersAgree R) as bs :=
  pairwise_iff (fun _ _ => typeParameterAgrees_iff) as bs

theorem constructorsAgree_iff {a b : Constructor ClassifierRef} :
    constructorsAgree (m := Id) sides (fun a b => decide (R a b)) a b = true ↔
      sides.ConstructorsAgree R a b := by
  have htest (p q : ConstructorParameter ClassifierRef) :
      (if p.isVararg == q.isVararg then
        typesAgree (m := Id) sides (fun a b => decide (R a b)) p.type q.type
      else return false : Id Bool) = true ↔
        p.isVararg = q.isVararg ∧ sides.TypesAgree R p.type q.type := by
    rw [guarded_iff, beq_iff_eq]
    rfl
  have hparameters := pairwise_iff htest a.parameters b.parameters
  rw [guarded_iff] at hparameters
  rw [constructorsAgree, guarded_iff, Bool.and_eq_true, and_assoc, hparameters, beq_iff_eq]
  exact ⟨fun h => ⟨h.1, h.2⟩, fun h => ⟨h.visibility, h.parameters⟩⟩

end Relation

end

end Concord
