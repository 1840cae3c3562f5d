import Concord.Proofs.Causes
import Concord.Proofs.Comparison.Across
import Concord.Proofs.Tree.Lookup

namespace Concord

/-- The class that is reached from a declaration by so many steps to the containing class. -/
def Tree.outward? (tree : Tree) : (steps : Nat) → DeclId → Option DeclId
  | 0, id => some id
  | steps + 1, id => (tree.enclosingClass? id).bind fun found => tree.outward? steps found.1

namespace Sides

variable (sides : Sides)

/-- Two classifiers that a comparison has found to match, after some others. -/
def FoundShareable (a b : DeclId) : Prop :=
  ∃ calls, ((sides.compareClassifiers a b).run (sides.sessionAfter calls)).1.isEmpty = true

/-- Two classifiers that every comparison finds to match, whatever was compared before, as long as
it hits no limit. -/
def AlwaysShareable (a b : DeclId) : Prop :=
  ∀ calls, let (verdict, after) := (sides.compareClassifiers a b).run (sides.sessionAfter calls)
    after.limitHits = (sides.sessionAfter calls).limitHits → verdict.isEmpty = true

/-- Two classifiers that are nested equally deep, if at all, in classes that always match. -/
def ClosedOutward (a b : DeclId) : Prop :=
  ∀ steps, Option.Rel sides.AlwaysShareable (sides.first.outward? steps a)
    (sides.second.outward? steps b)

variable {sides} {a b : DeclId}

theorem FoundShareable.shareable (hfound : sides.FoundShareable a b) : sides.Shareable a b := by
  obtain ⟨calls, hyes⟩ := hfound
  exact ((sides.verdicts_exact calls).2.2 a b).1 hyes

theorem Shareable.always (hshare : sides.Shareable a b) : sides.AlwaysShareable a b := by
  intro calls
  obtain ⟨-, -, hverdict⟩ := sides.verdicts_exact calls
  intro hlimit
  by_contra hno
  exact (hverdict a b).2 (Bool.eq_false_iff.mpr hno) hlimit hshare

/-- What stands directly around two classes that can be shared can be shared. -/
private theorem outward_one (hshare : sides.Shareable a b)
    (hclass : (sides.first.declaration a).kind = .classType) :
    Option.Rel sides.Shareable (sides.first.outward? 1 a) (sides.second.outward? 1 b) := by
  have hmatch := hshare.classifiersMatch
  obtain ⟨infoA, hA⟩ : ∃ info, (sides.first.declaration a).payload = .classType info :=
    Payload.ofKind hclass
  obtain ⟨infoB, hB⟩ : ∃ info, (sides.second.declaration b).payload = .classType info :=
    Payload.ofKind (hmatch.kinds.symm.trans hclass)
  cases (hmatch.classes hA hB).containers with
  | free hfirst hsecond =>
    simp only [Tree.outward?, hfirst, hsecond]
    exact .none
  | nested hfirst hsecond hnested =>
    simp only [Tree.outward?, hfirst, hsecond]
    exact .some hnested

/-- A class that contains something is a class. -/
private theorem kind_of_enclosing {tree : Tree} {id container : DeclId} {info : ClassInfo ClassifierRef}
    (hencloses : tree.enclosingClass? id = some (container, info)) :
    (tree.declaration container).kind = .classType :=
  congrArg Payload.kind (Tree.enclosingClass?_eq_some.mp hencloses).2

/-- If what stands directly around two declarations can be shared, so can all that stands around
that. The classes around them are reached over one step first and over all others then. -/
private theorem outward_succ (steps : Nat)
    (hone : Option.Rel sides.Shareable (sides.first.outward? 1 a) (sides.second.outward? 1 b)) :
    Option.Rel sides.Shareable (sides.first.outward? (steps + 1) a)
      (sides.second.outward? (steps + 1) b) := by
  induction steps generalizing a b with
  | zero => exact hone
  | succ steps ih =>
    simp only [Tree.outward?] at hone ⊢
    cases hfirst : sides.first.enclosingClass? a with
    | none =>
      cases hsecond : sides.second.enclosingClass? b with
      | none => exact .none
      | some foundB =>
        rw [hfirst, hsecond] at hone
        cases hone
    | some foundA =>
      cases hsecond : sides.second.enclosingClass? b with
      | none =>
        rw [hfirst, hsecond] at hone
        cases hone
      | some foundB =>
        rw [hfirst, hsecond] at hone
        exact ih (outward_one (Option.rel_some_some.mp hone) (kind_of_enclosing hfirst))

private theorem always_of_shareable {x y : Option DeclId} (hshare : Option.Rel sides.Shareable x y) :
    Option.Rel sides.AlwaysShareable x y := by
  cases hshare with
  | none => exact .none
  | some hshare => exact .some hshare.always

/-- Two classifiers are closed outward when they can be shared and are classes, or when what stands
directly around them can be shared too. -/
private theorem Shareable.closedOutward (hshare : sides.Shareable a b)
    (haround : (sides.first.declaration a).kind = .classType ∨
      Option.Rel sides.FoundShareable (sides.first.outward? 1 a) (sides.second.outward? 1 b)) :
    sides.ClosedOutward a b := by
  have hone : Option.Rel sides.Shareable (sides.first.outward? 1 a) (sides.second.outward? 1 b) := by
    obtain hclass | hfound := haround
    · exact outward_one hshare hclass
    · generalize sides.first.outward? 1 a = x, sides.second.outward? 1 b = y at hfound
      cases hfound with
      | none => exact .none
      | some hfound => exact .some hfound.shareable
  intro steps
  cases steps with
  | zero => exact .some hshare.always
  | succ steps => exact always_of_shareable (outward_succ steps hone)

/-- Types that are found to be equal are equal by shareability, with or without hit limits. -/
private theorem typesAgree_of_found (calls : List Call) {s t : Ty ClassifierRef}
    (hequal : ((typesAgree sides sides.shareable s t).run (sides.sessionAfter calls)).1 = true) :
    sides.TypesAgree sides.Shareable s t := by
  classical
  obtain ⟨hidle, hexact⟩ := sides.performAll_keeps_exact calls (.new sides.options .empty)
    ⟨rfl, nofun⟩
  obtain ⟨questions, hasks⟩ := typesAgree_isQuestions sides s t
  have hhold := (sides.shareable_answers.ask questions hexact).given
    (by rw [← hasks sides.shareable]; exact hequal)
  rw [hidle] at hhold
  have hgiven : sides.TypesAgree (sides.ShareableGiven []) s t := by
    rw [TypesAgree, show typesAgree (m := Id) sides _ s t = _ from hasks _]
    exact (questions.ask_relation _).mpr hhold
  exact hgiven.mono fun _ _ => sides.shareableGiven_nil.mp

/-- Whenever a comparison of two classes says yes, after any others and whichever limits were hit,
both are nested equally deep, and the classes that contain them always match, up to the outermost
ones. Two type aliases are closed outward like that as soon as the classes directly around them were
found to match, if there are any. So of equal types, references to declared classes lead to classes
that are closed outward, and references to aliases do when it is so around the aliases. -/
theorem containing_classes_match (sides : Sides) :
    (∀ a b, sides.FoundShareable a b →
      (sides.first.declaration a).kind = .classType ∨
        Option.Rel sides.FoundShareable (sides.first.outward? 1 a) (sides.second.outward? 1 b) →
      sides.ClosedOutward a b) ∧
    ∀ calls s t,
      ((typesAgree sides sides.shareable s t).run (sides.sessionAfter calls)).1 = true →
      List.Forall₂ (sides.RefsAlike fun a b => (sides.first.declaration a).kind = .classType ∨
        Option.Rel sides.FoundShareable (sides.first.outward? 1 a) (sides.second.outward? 1 b) →
        sides.ClosedOutward a b) s.compared.refs t.compared.refs := by
  refine ⟨fun a b hfound => hfound.shareable.closedOutward, fun calls s t hequal => ?_⟩
  refine (typesAgree_of_found calls hequal).refs.imp fun x y halike => ?_
  exact halike.imp_right (.mono fun a b => Shareable.closedOutward)

section Boxes

private def named (name : String) : Ty Spelling :=
  .simple ⟨⟨some ⟨name⟩, none⟩, [], false, false, none⟩

/-- A class in a class, with an alias in the inner one. -/
private def nesting (kind : ClassKind) : Source :=
  .mk ⟨"m"⟩ .everyone .final .plain (.module ⟨none⟩)
    [.mk ⟨"p"⟩ .everyone .final .plain .package
      [.mk ⟨"Box"⟩ .everyone .final .plain (.classType (.ofKind kind))
        [.mk ⟨"Lid"⟩ .everyone .final .plain (.classType (.ofKind .ordinary))
          [.mk ⟨"A"⟩ .everyone .final .plain (.typeAlias ⟨named "kotlin.Int", none, []⟩) []]]]]

private def nestingTree (kind : ClassKind) : Tree :=
  (Tree.ofSources [nesting kind]).toOption.getD .empty

private def nestingSides (first second : ClassKind) : Sides :=
  ofTrees (nestingTree first) (nestingTree second) ⟨["kotlin", "kotlinx"], [], false, 100, 1000000⟩

/-- Inner classes that match lead to outer classes that match, and so do the aliases in them. -/
theorem nested_in_matching_classes :
    let sides := nestingSides .ordinary .ordinary
    sides.FoundShareable ⟨3⟩ ⟨3⟩ ∧ sides.FoundShareable ⟨4⟩ ⟨4⟩ ∧
      sides.first.outward? 2 ⟨4⟩ = some ⟨2⟩ ∧ sides.ClosedOutward ⟨3⟩ ⟨3⟩ ∧
      sides.ClosedOutward ⟨4⟩ ⟨4⟩ := by
  intro sides
  have hlid : sides.FoundShareable ⟨3⟩ ⟨3⟩ := ⟨[], by decide +kernel⟩
  have halias : sides.FoundShareable ⟨4⟩ ⟨4⟩ := ⟨[], by decide +kernel⟩
  have hkind : (sides.first.declaration ⟨3⟩).kind = .classType := by decide +kernel
  have haround : sides.first.outward? 1 ⟨4⟩ = some ⟨3⟩ ∧ sides.second.outward? 1 ⟨4⟩ = some ⟨3⟩ := by
    decide +kernel
  refine ⟨hlid, halias, by decide +kernel, ?_, ?_⟩
  · exact (containing_classes_match sides).1 ⟨3⟩ ⟨3⟩ hlid (.inl hkind)
  · refine (containing_classes_match sides).1 ⟨4⟩ ⟨4⟩ halias (.inr ?_)
    rw [haround.1, haround.2]
    exact .some hlid

/-- The aliases of two boxes of different kinds match, in classes that do not. No limit is hit. -/
theorem aliases_in_other_classes :
    let sides := nestingSides .ordinary .object
    let aliases := (sides.compareClassifiers ⟨4⟩ ⟨4⟩).run (sides.sessionAfter [])
    let around := (sides.compareClassifiers ⟨3⟩ ⟨3⟩).run aliases.2
    Tree.ofSources [nesting .ordinary] = .ok sides.first ∧
      Tree.ofSources [nesting .object] = .ok sides.second ∧
      (sides.first.declaration ⟨4⟩).kind = .typeAlias ∧
      (sides.second.declaration ⟨4⟩).kind = .typeAlias ∧
      sides.first.outward? 1 ⟨4⟩ = some ⟨3⟩ ∧ sides.second.outward? 1 ⟨4⟩ = some ⟨3⟩ ∧
      aliases.1 = .none ∧ around.1 = ⟨[.containers]⟩ ∧ around.2.limitHits = 0 := by
  decide +kernel

end Boxes

end Sides

end Concord
