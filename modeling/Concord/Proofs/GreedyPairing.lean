import Concord.Proofs.Merge.Greedy
import Concord.Proofs.Merge.NotedPairs
import Concord.Proofs.Source.Reading

namespace Concord

open Session (Quiet)

namespace Sides

variable {sides : Sides}

section Across

variable (hconsistent : sides.Consistent)
include hconsistent

/-- Declarations that match across others match, as far as classifiers can be shared. All that makes
two declarations match is carried across others, down to the types in their signatures and to the
classifiers that these name. -/
private theorem matches_across {a b : DeclId} (hacross : Across (sides.Matches sides.Shareable) a b) :
    sides.Matches sides.Shareable a b := by
  have hmatches : sides.Matches (Across sides.Shareable) a b :=
    .across (shareable_steady hconsistent) hacross
  exact hmatches.mono fun _ _ => .across hconsistent

/-- Declarations that are found to match across others are found to match directly. In a single tree
a declaration may be one of the others, so there matches lead back and onward first. -/
private theorem isMatched_across {a b : DeclId}
    (hacross : Across (fun a b => (sides.oracle.compare sides a b).run.isMatched = true) a b) :
    (sides.oracle.compare sides a b).run.isMatched = true := by
  obtain ⟨a', b', hover, hback, hagain⟩ := hacross
  cases hsame : sides.same with
  | false =>
    simp only [isMatched_iff_matches, hsame, Bool.false_eq_true, false_and, false_or]
      at hover hback hagain ⊢
    exact matches_across hconsistent ⟨a', b', hover, hback, hagain⟩
  | true =>
    obtain ⟨tree, options, rfl⟩ := hconsistent.exists_ofTree hsame
    let sides := ofTree tree options
    have hself (x y : DeclId) (hshare : sides.Shareable x y) : sides.Shareable x x := by
      obtain ⟨-, hback, honward⟩ := shareable_steady hconsistent hsame
      exact honward x y x hshare (hback x y hshare)
    have htrans {x y z : DeclId} (hfirst : (sides.oracle.compare sides x y).run.isMatched = true)
        (hsecond : (sides.oracle.compare sides y z).run.isMatched = true) :
        (sides.oracle.compare sides x z).run.isMatched = true := by
      obtain ⟨-, rfl⟩ | hmatches := (isMatched_iff_matches x y).mp hfirst
      · exact hsecond
      obtain ⟨-, rfl⟩ | hmatches' := (isMatched_iff_matches y z).mp hsecond
      · exact hfirst
      refine (isMatched_iff_matches x z).mpr (.inr (matches_across hconsistent ?_))
      exact ⟨y, y, hmatches, hmatches'.self hself, hmatches'⟩
    have hback : (sides.oracle.compare sides b' a').run.isMatched = true :=
      (sides.isMatched_swap a' b').trans hback
    exact htrans (htrans hover hback) hagain

/-- Siblings that may join across others may join directly. -/
theorem joins_across {a b : DeclId} (hacross : Across (fun a b => sides.joins a b = true) a b) :
    sides.joins a b = true := by
  obtain ⟨a', b', hover, hback, hagain⟩ := hacross
  simp only [joins, isCandidate, Bool.and_eq_true, Bool.not_eq_true', beq_iff_eq] at hover hback hagain ⊢
  obtain ⟨⟨hopen, -, hname⟩, hmatched⟩ := hover
  obtain ⟨⟨-, -, hname'⟩, hmatched'⟩ := hback
  obtain ⟨⟨-, hopen', hname''⟩, hmatched''⟩ := hagain
  refine ⟨⟨hopen, hopen', eq_across hname hname' hname''⟩, ?_⟩
  exact isMatched_across hconsistent ⟨a', b', hmatched, hmatched', hmatched''⟩

end Across

variable (sides)

/-- Two lists of siblings: the roots, or what two declarations own. -/
inductive SiblingLists : List DeclId → List DeclId → Prop
  | roots : SiblingLists sides.first.roots sides.second.roots
  | under (a b : DeclId) : SiblingLists (sides.first.children a) (sides.second.children b)

/-- How many pairs of siblings a session makes one. -/
def pairedCount (as bs : List DeclId) (before : Session) : Nat :=
  (((sides.pairSiblings as bs).run before).1.1.flatMap Pairing.pairs).length

/-- A session that pairs two lists of siblings over an exact cache and hits no limit. -/
def PairsQuietly (as bs : List DeclId) (before : Session) : Prop :=
  Quiet sides before ((sides.pairSiblings as bs).run before).2

variable {sides}

/-- A quiet session makes one what are partners. -/
private theorem pairedCount_eq {as bs : List DeclId} {before : Session}
    (hquiet : sides.PairsQuietly as bs before) :
    sides.pairedCount as bs before = (partners sides.joins as bs).length := by
  have hpairs := sides.services_alike.pairSiblings sides as bs before
  rw [services_pairSiblings] at hpairs
  rw [pairedCount, (hpairs.2 hquiet).1, (oracle_pairSiblings as bs).pairs]

/-- Siblings may join when a session that compares them without hitting a limit finds them to match. -/
private theorem joins_iff {a b : DeclId} {before : Session}
    (hquiet : Quiet sides before ((sides.compare a b).run before).2) :
    sides.joins a b = true ↔ sides.first.isConcreteInterfaceMember a = false ∧
      sides.second.isConcreteInterfaceMember b = false ∧
      (sides.first.declaration a).name = (sides.second.declaration b).name ∧
      ((sides.compare a b).run before).1.isMatched = true := by
  have hcompare := (sides.services_alike.compare sides a b before).2 hquiet
  have hmatched : ((sides.compare a b).run before).1.isMatched =
      (sides.oracle.compare sides a b).run.isMatched := by
    exact hcompare.isMatched
  rw [hmatched]
  simp only [joins, isCandidate, Bool.and_eq_true, Bool.not_eq_true', beq_iff_eq, and_assoc]

/-- No sibling is listed twice. -/
private theorem SiblingLists.nodup {as bs : List DeclId} (hsiblings : sides.SiblingLists as bs)
    (hfirst : sides.first.Regular) (hsecond : sides.second.Regular) : as.Nodup ∧ bs.Nodup := by
  cases hsiblings with
  | roots => exact ⟨hfirst.rooted.distinct, hsecond.rooted.distinct⟩
  | under a b => exact ⟨hfirst.owned.distinct a, hsecond.owned.distinct b⟩

/-- A merge pairs as many siblings as can be. Two siblings may join when they have one name, neither
is a member of an interface that is not abstract, and comparing them without hitting a limit finds
them to match. However two lists of siblings are ordered, and whatever an exact cache holds, a
session that pairs them without hitting a limit makes as many pairs as the greatest matching has.
This holds of two trees, and of one tree with itself. -/
theorem greedy_pairing_is_maximum (sides : Sides) (hconsistent : sides.Consistent)
    {firsts seconds : List Source} (hfirst : Tree.ofSources firsts = .ok sides.first)
    (hsecond : Tree.ofSources seconds = .ok sides.second) {as bs : List DeclId}
    (hsiblings : sides.SiblingLists as bs) :
    (∀ a b before, Quiet sides before ((sides.compare a b).run before).2 →
      (sides.joins a b = true ↔ sides.first.isConcreteInterfaceMember a = false ∧
        sides.second.isConcreteInterfaceMember b = false ∧
        (sides.first.declaration a).name = (sides.second.declaration b).name ∧
        ((sides.compare a b).run before).1.isMatched = true)) ∧
    ∀ as' bs', as'.Perm as → bs'.Perm bs → ∀ before, sides.PairsQuietly as' bs' before →
      IsGreatest (matchingSizes sides.joins as bs) (sides.pairedCount as' bs' before) ∧
      ∀ before', sides.PairsQuietly as bs before' →
        sides.pairedCount as' bs' before = sides.pairedCount as bs before' := by
  obtain ⟨has, hbs⟩ := hsiblings.nodup (Tree.regular_of_ofSources hfirst)
    (Tree.regular_of_ofSources hsecond)
  have hacross (a b : DeclId) : Across (fun a b => sides.joins a b = true) a b →
      sides.joins a b = true := joins_across hconsistent
  refine ⟨fun a b before hquiet => joins_iff hquiet, fun as' bs' hperm hperm' before hquiet => ?_⟩
  have hcount : IsGreatest (matchingSizes sides.joins as bs) (sides.pairedCount as' bs' before) := by
    rw [pairedCount_eq hquiet, ← matchingSizes_perm sides.joins hperm hperm']
    exact partners_greatest hacross (hperm.nodup_iff.mpr has) (hperm'.nodup_iff.mpr hbs)
  refine ⟨hcount, fun before' hquiet' => hcount.unique ?_⟩
  rw [pairedCount_eq hquiet']
  exact partners_greatest hacross has hbs

section Variants

/-- A package with functions of one name, each with a parameter of another type. -/
private def variants (types : List String) : Source :=
  let named (name : String) : Ty Spelling := .simple ⟨⟨some ⟨name⟩, none⟩, [], false, false, none⟩
  .mk ⟨"m"⟩ .everyone .final .plain (.module ⟨none⟩)
    [.mk ⟨"p"⟩ .everyone .final .plain .package (types.map fun type =>
      .mk ⟨"f"⟩ .everyone .final .plain
        (.function ⟨named "kotlin.Unit", none, [], false, false, false, false⟩)
        [.mk ⟨"x"⟩ .everyone .final .plain (.value ⟨named type, false, false⟩) []])]

private def variantsTree (types : List String) : Tree :=
  (Tree.ofSources [variants types]).toOption.getD .empty

private def lenient : CompiledOptions :=
  ⟨["kotlin"], [], false, 100, 1000000⟩

/-- Of three functions with the types of two others, of which one type occurs twice, two find
partners, also from the last one backwards. -/
theorem doubled_variant_paired :
    let first := variantsTree ["kotlin.Int", "kotlin.String", "kotlin.Int"]
    let second := variantsTree ["kotlin.Int", "kotlin.String"]
    let sides := ofTrees first second lenient
    let as := sides.first.children ⟨1⟩
    let bs := sides.second.children ⟨1⟩
    as.length = 3 ∧ bs.length = 2 ∧
      sides.pairedCount as.reverse bs.reverse (.new lenient .empty) = 2 ∧
      IsGreatest (matchingSizes sides.joins as bs) 2 := by
  intro first second sides as bs
  have hfirst : Tree.ofSources [variants ["kotlin.Int", "kotlin.String", "kotlin.Int"]] =
      .ok sides.first := by decide +kernel
  have hsecond : Tree.ofSources [variants ["kotlin.Int", "kotlin.String"]] = .ok sides.second := by
    decide +kernel
  have hcount : sides.pairedCount as.reverse bs.reverse (.new lenient .empty) = 2 := by
    decide +kernel
  have hlimit : ((sides.pairSiblings as.reverse bs.reverse).run (.new lenient .empty)).2.limitHits =
      0 := by decide +kernel
  have hquiet : sides.PairsQuietly as.reverse bs.reverse (.new lenient .empty) :=
    Quiet.mk nofun rfl hlimit
  have hsiblings : sides.SiblingLists as bs := SiblingLists.under ⟨1⟩ ⟨1⟩
  have hconsistent : sides.Consistent := fun hsame => absurd hsame Bool.false_ne_true
  obtain ⟨hgreatest, -⟩ := (greedy_pairing_is_maximum sides hconsistent hfirst hsecond hsiblings).2
    as.reverse bs.reverse as.reverse_perm bs.reverse_perm _ hquiet
  rw [hcount] at hgreatest
  exact ⟨by decide +kernel, by decide +kernel, hcount, hgreatest⟩

end Variants

end Sides

end Concord
