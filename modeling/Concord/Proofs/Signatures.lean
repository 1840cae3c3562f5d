import Concord.Proofs.Comparison.OneTree
import Concord.Proofs.Merge.Itself
import Concord.Proofs.Merge.Restated

namespace Concord

open Origin (Behind ids walkAll)

namespace Sides

variable (sides : Sides)

/-- Two parameters of one type and one vararg mark. The types name akin classifiers, or are one type
of a single tree, and they are spelled alike, as comparisons read them. -/
def SameParameter (x y : DeclId) : Prop :=
  ∃ infoX infoY, (sides.first.declaration x).payload = .value infoX ∧
    (sides.second.declaration y).payload = .value infoY ∧
    sides.AlikeTypes infoX.type infoY.type ∧
    sides.first.typeSource infoX.type.compared = sides.second.typeSource infoY.type.compared ∧
    infoX.isVararg = infoY.isVararg

/-- The common node of two parameters: it has the type of the first one in its alias spelling, which
stands for the type of the second one, and the vararg mark of both. -/
def IsCommonParameter (x y : DeclId) (child : Origin) : Prop :=
  child.ids = (some x, some y) ∧ ∃ infoX infoY common,
    (sides.first.declaration x).payload = .value infoX ∧
    (sides.second.declaration y).payload = .value infoY ∧ child.common? = some common ∧
    common.payload = .value { infoX with type := sides.first.detachType infoX.type.collapse } ∧
    sides.StandsFor (sides.first.detachType infoX.type.collapse) infoY.type ∧
    infoX.isVararg = infoY.isVararg

/-- Whether two parameters of functions that were matched become one node: neither is private, or
they are one parameter of a single tree. -/
def keepsParameter (x y : DeclId) : Bool :=
  sides.same && x == y || sides.bothVisible x y

/-- What becomes of the parameters of two functions that were matched. Visible parameters become
common nodes, and of a pair with a private one each side keeps its own. In a single tree a function
keeps all of its parameters. -/
structure KeepsSignature (a b : DeclId) (children : List Origin) : Prop where
  function : (sides.second.declaration b).kind = .function
  parameters : List.Forall₂ sides.SameParameter (sides.first.children a) (sides.second.children b)
  nodes : children.map ids =
    pairByPlace sides.keepsParameter (sides.first.children a) (sides.second.children b)
  common : ∀ child ∈ children, ∀ x y, child.ids = (some x, some y) →
    sides.IsCommonParameter x y child
  whole : (sides.same = true ∨
      (∀ x ∈ sides.first.children a,
        (sides.first.declaration x).data.visibility.isPrivate = false) ∧
      ∀ y ∈ sides.second.children b,
        (sides.second.declaration y).data.visibility.isPrivate = false) →
    List.Forall₂ (fun pair child => sides.IsCommonParameter pair.1 pair.2 child)
      ((sides.first.children a).zip (sides.second.children b)) children

/-- All functions that a forest has matched keep what they can of their signatures. -/
def KeepsSignatures (roots : List MergedNode) : Prop :=
  ∃ origins, roots = Origin.nodes sides origins ∧ ∀ origin ∈ walkAll origins, ∀ a b,
    origin.ids = (some a, some b) → (sides.first.declaration a).kind = .function →
      sides.KeepsSignature a b origin.children

/-- Where all parameters join their partners, they stand in pairs. -/
private theorem pairByPlace_of_all {α β : Type} {joins : α → β → Bool} {as : List α} {bs : List β}
    (hjoins : List.Forall₂ (fun a b => joins a b = true) as bs) :
    pairByPlace joins as bs = (as.zip bs).map fun pair => (some pair.1, some pair.2) := by
  induction hjoins with
  | nil => rfl
  | cons hone _ ih =>
    rw [pairByPlace, if_pos hone, ih]
    rfl

/-- Only what stands at one place is paired by place. -/
private theorem mem_zip_of_pairByPlace {α β : Type} {joins : α → β → Bool} {as : List α}
    {bs : List β} {a : α} {b : β} (hpair : (some a, some b) ∈ pairByPlace joins as bs) :
    (a, b) ∈ as.zip bs := by
  induction as generalizing bs with
  | nil => cases bs <;> simp [pairByPlace] at hpair
  | cons first as ih =>
    cases bs with
    | nil => simp [pairByPlace] at hpair
    | cons second bs =>
      rw [pairByPlace] at hpair
      obtain hhead | htail := List.mem_append.mp hpair
      · split at hhead
        · cases List.mem_singleton.mp hhead
          exact List.mem_cons_self
        · simp at hhead
      · exact List.mem_cons_of_mem _ (ih htail)

variable {sides} {a b : DeclId}

/-- Values of a linked tree lend a linked type. -/
private theorem linked_value {tree : Tree} (hlinked : tree.Linked) {id : DeclId}
    {info : ValueInfo ClassifierRef} (hvalue : (tree.declaration id).payload = .value info) :
    info.type.Linked := by
  refine hlinked id info.type ?_
  rw [hvalue]
  exact List.mem_cons_self

section Linked

variable (hconsistent : sides.Consistent) (hlinked : sides.first.Linked ∧ sides.second.Linked)
include hconsistent hlinked

/-- Values of types that are alike, with one vararg mark, are the same parameter. -/
private theorem sameParameter_of_alike {x y : DeclId} {infoX infoY : ValueInfo ClassifierRef}
    (hX : (sides.first.declaration x).payload = .value infoX)
    (hY : (sides.second.declaration y).payload = .value infoY)
    (htypes : sides.AlikeTypes infoX.type infoY.type) (hvarargs : infoX.isVararg = infoY.isVararg) :
    sides.SameParameter x y :=
  ⟨infoX, infoY, hX, hY, htypes,
    htypes.spelled hconsistent (linked_value hlinked.1 hX) (linked_value hlinked.2 hY), hvarargs⟩

/-- What two parameters share is their common node. -/
private theorem SameParameter.isCommon {x y : DeclId} (hsame : sides.SameParameter x y)
    {child : Origin} {common : Data} (hids : child.ids = (some x, some y))
    (hcommon : child.common? = some common)
    (hpayload : common.payload = sides.sharedForm (sides.first.declaration x).payload) :
    sides.IsCommonParameter x y child := by
  obtain ⟨infoX, infoY, hX, hY, htypes, -, hvarargs⟩ := hsame
  refine ⟨hids, infoX, infoY, common, hX, hY, hcommon, ?_, ?_, hvarargs⟩
  · rw [hpayload, hX]
    rfl
  · exact htypes.standsFor hconsistent (linked_value hlinked.1 hX) (linked_value hlinked.2 hY)

/-- Functions with the same parameters keep what they can of their signatures, if their children are
their parameters in pairs. In a single tree only a function itself is meant. -/
private theorem keepsSignature_of_nodes {children : List Origin}
    (hfunction : (sides.second.declaration b).kind = .function)
    (hsame : List.Forall₂ sides.SameParameter (sides.first.children a) (sides.second.children b))
    (hnodes : children.map ids =
      pairByPlace sides.keepsParameter (sides.first.children a) (sides.second.children b))
    (hshared : ∀ child ∈ children, ∀ x y, child.ids = (some x, some y) → sides.SameParameter x y →
      ∃ common, child.common? = some common ∧
        common.payload = sides.sharedForm (sides.first.declaration x).payload)
    (hitself : sides.same = true → a = b) : sides.KeepsSignature a b children := by
  have hcommon (child : Origin) (hchild : child ∈ children) (x y : DeclId)
      (hids : child.ids = (some x, some y)) : sides.IsCommonParameter x y child := by
    have hpaired : (some x, some y) ∈ children.map ids := List.mem_map.mpr ⟨child, hchild, hids⟩
    rw [hnodes] at hpaired
    have hone := List.forall₂_zip hsame (mem_zip_of_pairByPlace hpaired)
    obtain ⟨common, hcommon, hpayload⟩ := hshared child hchild x y hids hone
    exact hone.isCommon hconsistent hlinked hids hcommon hpayload
  refine ⟨hfunction, hsame, hnodes, hcommon, fun hkept => ?_⟩
  have hjoins : List.Forall₂ (fun x y => sides.keepsParameter x y = true) (sides.first.children a)
      (sides.second.children b) := by
    obtain hone | ⟨hopenA, hopenB⟩ := hkept
    · rw [← hitself hone, ← hconsistent hone]
      exact List.forall₂_same.mpr fun x _ => by simp [keepsParameter, hone]
    · refine forall₂_imp_of_mem hsame fun x hx y hy _ => ?_
      simp [keepsParameter, bothVisible, hopenA x hx, hopenB y hy]
  have hpairs : ((sides.first.children a).zip (sides.second.children b)).map
      (fun pair => (some pair.1, some pair.2)) = children.map ids :=
    (pairByPlace_of_all hjoins).symm.trans hnodes.symm
  have hplaces := List.forall₂_map_left_iff.mp
    (List.forall₂_map_right_iff.mp (List.forall₂_eq_eq_eq.symm ▸ hpairs))
  exact forall₂_imp_of_mem hplaces fun pair _ child hchild hids =>
    hcommon child hchild pair.1 pair.2 hids.symm

end Linked

section TwoTrees

variable {first second : Tree} {options : CompiledOptions}

/-- What two values share that were matched is all that the first one declares. -/
private theorem shared_of_agreed {x y : DeclId} {child : Origin}
    (hids : child.ids = (some x, some y))
    (hsame : (ofTrees first second options).SameParameter x y)
    (hagreed : child.Agreed (ofTrees first second options) (Akin first second)) :
    ∃ common, child.common? = some common ∧
      common.payload = (ofTrees first second options).sharedForm (first.declaration x).payload := by
  obtain ⟨infoX, -, hX, -⟩ := hsame
  cases hagreed with
  | first a children => cases hids
  | second b children => cases hids
  | @shared a b common children hmatches hshared _ =>
    cases hids
    obtain ⟨payload, hextracts, hpayload⟩ := hshared
    cases hextracts with
    | whole _ _ => exact ⟨common, rfl, hpayload⟩
    | ofClasses hfirst _ _ _ _ _ => cases hX.symm.trans hfirst
    | ofAliases hfirst _ _ _ => cases (congrArg Payload.kind hX).symm.trans hfirst

private theorem keepsSignatures_of_behind (hlinked : first.Linked ∧ second.Linked)
    {pairs : List (Option DeclId × Option DeclId)} {roots : List MergedNode}
    (hbehind : Behind (ofTrees first second options)
      (Origin.Agreed (ofTrees first second options) (Akin first second)) pairs roots) :
    (ofTrees first second options).KeepsSignatures roots := by
  obtain ⟨origins, hroots, -, hagreed⟩ := hbehind
  refine ⟨origins, hroots, fun origin horigin a b hids hfunction => ?_⟩
  have hbelow (child : Origin) (hchild : child ∈ origin.children) :=
    hagreed child (Origin.walkAll_closed origins horigin hchild)
  cases hagreed origin horigin with
  | first a children => cases hids
  | second b children => cases hids
  | @shared a b common children hmatches _ hparameters =>
    cases hids
    refine keepsSignature_of_nodes (ofTrees_consistent _ _ _) hlinked
      (hmatches.kinds.symm.trans hfunction) ?_ (hparameters hfunction)
      (fun child hchild x y hids hsame => shared_of_agreed hids hsame (hbelow child hchild))
      (fun hsame => absurd hsame Bool.false_ne_true)
    refine (hmatches.parameters hfunction).imp fun x y hvalues => ?_
    obtain ⟨infoX, infoY, hX, hY, htypes, hvarargs⟩ := hvalues
    exact sameParameter_of_alike (ofTrees_consistent _ _ _) hlinked hX hY
      (.inr ⟨options, htypes⟩) hvarargs

end TwoTrees

section OneTree

variable {tree : Tree} {options : CompiledOptions}

/-- Where each stands with itself, the pairs are those of the first sides with themselves. -/
private theorem eq_doubled {pairs : List (Option DeclId × Option DeclId)}
    (hpairs : ∀ pair ∈ pairs, ∃ x, pair = (some x, some x)) :
    pairs = (pairs.filterMap (·.1)).map fun x => (some x, some x) := by
  induction pairs with
  | nil => rfl
  | cons pair pairs ih =>
    obtain ⟨⟨x, rfl⟩, hothers⟩ := List.forall_mem_cons.mp hpairs
    exact congrArg (_ :: ·) (ih hothers)

/-- Parameters that stand with themselves are paired by place. -/
private theorem nodes_of_doubled {children : List Origin} {parameters : List DeclId}
    (hdoubled : ∀ child ∈ children, ∃ x, child.ids = (some x, some x))
    (hfirsts : (children.map ids).filterMap (·.1) = parameters) :
    children.map ids = pairByPlace (ofTree tree options).keepsParameter parameters parameters := by
  have hkept (x : DeclId) : (ofTree tree options).keepsParameter x x = true := by
    simp [keepsParameter, ofTree]
  rw [eq_doubled (List.forall_mem_map.mpr hdoubled), hfirsts,
    pairByPlace_of_all (List.forall₂_same.mpr fun x _ => hkept x), List.zip, List.zipWith_self,
    List.map_map]
  rfl

/-- A function that stands with itself has no parameter that stays alone. -/
private theorem itself_of_parameter (howned : tree.Owned) {id : DeclId}
    (hshared : ¬tree.StaysAlone id) (hfunction : (tree.declaration id).kind = .function)
    {child : Origin} (hfirst : ∀ x, child.first? = some x → x ∈ tree.children id)
    (hsecond : ∀ x, child.second? = some x → x ∈ tree.children id)
    (hreflects : child.Reflects tree) :
    ∃ x, child.ids = (some x, some x) ∧ child.common? = some (tree.ownShare x) := by
  have hkept (x : DeclId) (hx : x ∈ tree.children id) : ¬tree.StaysAlone x := fun halone =>
    howned.not_concrete_of_function hfunction hx ((howned.staysAlone_child hshared hx).mp halone)
  cases hreflects with
  | @itself x _ _ => exact ⟨x, rfl, rfl⟩
  | @first x _ halone => exact absurd halone (hkept x (hfirst x rfl))
  | @second x _ halone => exact absurd halone (hkept x (hsecond x rfl))

/-- A function that is merged with itself keeps all of its parameters. -/
private theorem keepsSignatures_of_reflected (hlinked : tree.Linked) (hregular : tree.Regular)
    {forest : MergedForest} (hreflected : tree.ReflectedBy options forest) :
    (ofTree tree options).KeepsSignatures forest.roots := by
  obtain ⟨origins, hderives, hreflects⟩ := hreflected
  refine ⟨origins, hderives.nodes, fun origin horigin a b hids hfunction => ?_⟩
  have hderived := hderives.derived origin horigin
  cases hreflects origin horigin with
  | first _ => cases hids
  | second _ => cases hids
  | @itself id children hshared =>
    cases hids
    have hchildren (child : Origin) (hchild : child ∈ children) :
        ∃ x, child.ids = (some x, some x) ∧ child.common? = some (tree.ownShare x) := by
      have hmem := List.mem_map_of_mem (f := ids) hchild
      exact itself_of_parameter hregular.owned hshared hfunction
        (fun x hx => hderived.firsts (List.mem_filterMap.mpr ⟨child.ids, hmem, hx⟩))
        (fun x hx => hderived.seconds (List.mem_filterMap.mpr ⟨child.ids, hmem, hx⟩))
        (hreflects child (Origin.walkAll_closed origins horigin hchild))
    have hsame : List.Forall₂ (ofTree tree options).SameParameter (tree.children a)
        (tree.children a) := by
      refine List.forall₂_same.mpr fun x hx => ?_
      obtain ⟨info, hvalue⟩ : ∃ info, (tree.declaration x).payload = .value info :=
        Payload.ofKind (hregular.parametersAreValues a x hfunction hx)
      exact sameParameter_of_alike (fun _ => rfl) ⟨hlinked, hlinked⟩ hvalue hvalue (.inl ⟨rfl, rfl⟩)
        rfl
    have hnodes : children.map ids = pairByPlace (ofTree tree options).keepsParameter
        (tree.children a) (tree.children a) :=
      nodes_of_doubled (fun child hchild => (hchildren child hchild).imp fun _ h => h.1)
        (hderived.siblings trivial).firsts
    refine keepsSignature_of_nodes (fun _ => rfl) ⟨hlinked, hlinked⟩ hfunction hsame hnodes
      (fun child hchild x y hids hone => ?_) fun _ => rfl
    obtain ⟨z, hz, hcommon⟩ := hchildren child hchild
    cases hids.symm.trans hz
    obtain ⟨info, -, hvalue, -⟩ := hone
    have hother : (tree.declaration x).kind ≠ .typeAlias := by
      rw [show (tree.declaration x).kind = .value from congrArg Payload.kind hvalue]
      decide
    refine ⟨_, hcommon, ?_⟩
    rw [ownShare_payload options, Tree.lentPayload_of_other hother]
    rfl

end OneTree

/-- Two functions that a merge matches have the same parameters by type and vararg mark, one by one.
Those that are visible become common nodes, at their places. So the common function keeps its whole
signature if no parameter is private, or if the tree is merged with itself. This holds of trees read
from sources under any options and limits, whatever earlier comparisons have left in the cache, of
merges in one session, and of merges by workers in any order. -/
theorem matched_functions_keep_parameters {firsts seconds : List Source} (sides : Sides)
    (hconsistent : sides.Consistent) (hfirst : Tree.ofSources firsts = .ok sides.first)
    (hsecond : Tree.ofSources seconds = .ok sides.second) (cache : Cache)
    (hfilled : sides.same = false → cache.Filled sides.first sides.second) :
    (∀ result session, sides.merge cache = .ok (result, session) →
      sides.KeepsSignatures result.forest.roots) ∧
    ∀ after nodes rejections limitHits,
      Task.Schedule (cache, sides.mergeTask) (after, .done ⟨.ok (nodes, rejections), limitHits⟩) →
        sides.KeepsSignatures nodes := by
  have hlinked := And.intro (Tree.ofSources_linked hfirst) (Tree.ofSources_linked hsecond)
  have hregular := Tree.regular_of_ofSources hfirst
  have hbuilt := And.intro hregular.built (Tree.regular_of_ofSources hsecond).built
  cases hsame : sides.same with
  | true =>
    obtain ⟨tree, options, rfl⟩ := hconsistent.exists_ofTree hsame
    exact ⟨fun _ _ hmerge => keepsSignatures_of_reflected hlinked.1 hregular
        (Tree.reflected_of_merge hregular.mergeable hmerge),
      fun _ _ _ _ hschedule => keepsSignatures_of_reflected hlinked.1 hregular
        (Tree.reflected_of_schedule hregular.mergeable hschedule)⟩
  | false =>
    obtain ⟨first, second, options, rfl⟩ := exists_ofTrees hsame
    refine ⟨fun result session hmerge => ?_, fun after nodes rejections limitHits hschedule => ?_⟩
    · obtain ⟨pairs, hbehind⟩ := agreed_of_merge hbuilt hregular.mergeable (hfilled rfl) hmerge
      exact keepsSignatures_of_behind hlinked hbehind
    · obtain ⟨pairs, hbehind⟩ :=
        agreed_of_schedule hbuilt hregular.mergeable (hfilled rfl) hschedule
      exact keepsSignatures_of_behind hlinked hbehind

section Parameters

/-- A module with a function of one parameter. -/
private def taking (visibility : Visibility) : Source :=
  let named (name : String) : Ty Spelling := .simple ⟨⟨some ⟨name⟩, none⟩, [], false, false, none⟩
  .mk ⟨"m"⟩ .everyone .final .plain (.module ⟨none⟩)
    [.mk ⟨"p"⟩ .everyone .final .plain .package
      [.mk ⟨"f"⟩ .everyone .final .plain
        (.function ⟨named "kotlin.Unit", none, [], false, false, false, false⟩)
        [.mk ⟨"x"⟩ visibility .final .plain (.value ⟨named "kotlin.Int", true, false⟩) []]]]

private def takingTree (visibility : Visibility) : Tree :=
  (Tree.ofSources [taking visibility]).toOption.getD .empty

private theorem takingTree_read {visibility : Visibility}
    (hread : (Tree.ofSources [taking visibility]).toOption.isSome = true) :
    Tree.ofSources [taking visibility] = .ok (takingTree visibility) := by
  obtain ⟨tree, htree⟩ := Option.isSome_iff_exists.mp hread
  rw [takingTree, htree]
  exact Except.toOption_eq_some.mp htree

private def roomy : CompiledOptions :=
  ⟨["kotlin"], [], false, 100, 1000000⟩

/-- What a merge of two trees gives: of every node whether it is common and how many children it
has. -/
private def outline (first second : Tree) : Option (List (Bool × Nat)) :=
  ((ofTrees first second roomy).merge .empty).toOption.map fun merged =>
    merged.1.forest.nodes.map fun node => (node.isCommon, node.children.length)

/-- A function with a public parameter keeps it. -/
theorem public_parameter_kept :
    let tree := takingTree .everyone
    let sides := ofTrees tree tree roomy
    outline tree tree = some [(true, 1), (true, 1), (true, 1), (true, 0)] ∧
    ∃ result session, sides.merge .empty = .ok (result, session) ∧
      sides.KeepsSignatures result.forest.roots := by
  intro tree sides
  have hread : Tree.ofSources [taking .everyone] = .ok tree := takingTree_read (by decide +kernel)
  have houtline : outline tree tree = some [(true, 1), (true, 1), (true, 1), (true, 0)] := by
    decide +kernel
  obtain ⟨⟨result, session⟩, hmerge, -⟩ := Option.map_eq_some_iff.mp houtline
  have hmerge := Except.toOption_eq_some.mp hmerge
  refine ⟨houtline, result, session, hmerge, ?_⟩
  exact (matched_functions_keep_parameters sides (ofTrees_consistent _ _ _) hread hread .empty
    fun _ => .empty).1 result session hmerge

/-- A function with a private parameter is common, and has two nodes for it, of which none is
common. -/
theorem private_parameter_lost :
    let tree := takingTree .owner
    Tree.ofSources [taking .owner] = .ok tree ∧ (tree.children ⟨2⟩).length = 1 ∧
      outline tree tree = some [(true, 1), (true, 1), (true, 2), (false, 0), (false, 0)] :=
  ⟨takingTree_read (by decide +kernel), by decide +kernel, by decide +kernel⟩

end Parameters

end Sides

end Concord
