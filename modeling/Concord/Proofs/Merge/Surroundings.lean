import Concord.Proofs.Comparison.Across
import Concord.Proofs.Merge.Intersections
import Concord.Proofs.Merge.Restated
import Concord.Proofs.Output.Closed

namespace Concord

open Origin (walkAll)

namespace Sides

variable (sides : Sides)

/-- Two declarations whose containers match, and the containers of these, up to the roots. -/
inductive SurroundingsMatch : DeclId → DeclId → Prop
  | outermost {a b : DeclId} (hfirst : sides.first.container? a = none)
    (hsecond : sides.second.container? b = none) : SurroundingsMatch a b
  | inside {a b x y : DeclId} (hfirst : sides.first.container? a = some x)
    (hsecond : sides.second.container? b = some y) (hmatches : sides.Matches sides.Shareable x y)
    (houter : SurroundingsMatch x y) : SurroundingsMatch a b

/-- Two packages that are not private, in modules of one name that are not private either. -/
structure PackagesMeet (p q : DeclId) : Prop where
  visible : (sides.first.declaration p).data.visibility.isPrivate = false ∧
    (sides.second.declaration q).data.visibility.isPrivate = false
  modules : ∀ m n, sides.first.container? p = some m → sides.second.container? q = some n →
    (sides.first.declaration m).name = (sides.second.declaration n).name ∧
      (sides.first.declaration m).data.visibility.isPrivate = false ∧
      (sides.second.declaration n).data.visibility.isPrivate = false

/-- What comparisons take on trust: type aliases that can be shared are nested in classes that can
be shared, or in none; the packages of classifiers that can be shared meet; and no alias spelling of
the first side has an alias spelling itself. -/
structure Sheltered : Prop where
  aliases : ∀ a b, (sides.first.declaration a).kind = .typeAlias → sides.Shareable a b →
    sides.ContainersMatch sides.Shareable a b
  packages : ∀ a b p q, sides.Shareable a b → sides.first.container? a = some p →
    sides.second.container? b = some q → (sides.first.declaration p).kind = .package →
    sides.PackagesMeet p q
  spellings : ∀ id, ∀ type ∈ (sides.first.declaration id).payload.types, type.spelledOnce = true

variable {sides} {a b : DeclId} {declA declB : Declaration}

/-- What is registered is no member of an interface. -/
private theorem not_concrete_of_registered {tree : Tree} {id : DeclId}
    (hregistered : (tree.declaration id).kind.isRegistered = true) :
    tree.isConcreteInterfaceMember id = false := by
  refine Tree.not_concrete_of_kind (fun hfunction => ?_) fun hproperty => ?_
  · rw [hfunction] at hregistered
    cases hregistered
  · rw [hproperty] at hregistered
    cases hregistered

/-- Classifiers that can be shared match. -/
theorem Shareable.matches (hshare : sides.Shareable a b)
    (hclassifier : (sides.first.declaration a).kind.isClassifier = true) :
    sides.Matches sides.Shareable a b := by
  have hmatch := hshare.classifiersMatch
  have hregistered := Kind.isRegistered_of_isClassifier hclassifier
  refine ⟨hmatch.kinds, hmatch.visible, ⟨not_concrete_of_registered hregistered,
    not_concrete_of_registered (hmatch.kinds ▸ hregistered)⟩, ?_⟩
  cases hA : (sides.first.declaration a).payload with
  | classType info | typeAlias info =>
    simp only [KindMatches, hA]
    exact hshare
  | _ =>
    rw [show (sides.first.declaration a).kind = _ from congrArg Payload.kind hA] at hclassifier
    cases hclassifier

/-- Registered declarations that match have one qualified name, in one name space. -/
theorem Matches.clashes (htitledA : sides.first.Titled) (htitledB : sides.second.Titled)
    (hA : sides.first.get? a = some declA) (hB : sides.second.get? b = some declB)
    (hregistered : declA.kind.isRegistered = true) (hmatches : sides.Matches sides.Shareable a b) :
    declA.data.Clashes declB.data := by
  have hkinds := hmatches.kinds
  have hkind := hmatches.kind
  simp only [KindMatches, Tree.declaration_of_get? hA, Tree.declaration_of_get? hB] at hkinds hkind
  refine ⟨hregistered, Kind.shares_iff.mpr (.inl hkinds), ?_⟩
  show declA.qualifiedName = declB.qualifiedName
  have hshareable (hshare : sides.Shareable a b) : declA.qualifiedName = declB.qualifiedName := by
    have hnames := hshare.classifiersMatch.names
    rwa [Tree.declaration_of_get? hA, Tree.declaration_of_get? hB] at hnames
  cases hpayload : declA.payload with
  | module info =>
    have hmodule : declA.kind = .module := congrArg Payload.kind hpayload
    rw [hpayload] at hkind
    rw [htitledA.whole a declA hA (.inl hmodule),
      htitledB.whole b declB hB (.inl (hkinds.symm.trans hmodule)), hkind]
  | package =>
    rw [hpayload] at hkind
    exact hkind
  | classType info | typeAlias info =>
    rw [hpayload] at hkind
    exact hshareable hkind
  | _ =>
    rw [Declaration.kind, Data.kind, show declA.data.payload = _ from hpayload] at hregistered
    cases hregistered

private theorem owner_of_classifier {owner kind : Kind} (hmay : owner.mayContain kind = true)
    (hclassifier : kind.isClassifier = true) : owner = .package ∨ owner = .classType := by
  cases kind with
  | classType | typeAlias => simpa [Kind.mayContain] using hmay
  | _ => cases hclassifier

/-- A classifier belongs to a package, or to a class, which its name tells. -/
private theorem exists_owner_of_classifier {tree : Tree} {sources : List Source}
    (hread : Tree.ofSources sources = .ok tree) {id : DeclId} {declaration : Declaration}
    (hget : tree.get? id = some declaration) (hclassifier : declaration.kind.isClassifier = true) :
    ∃ container owner, tree.container? id = some container ∧ tree.get? container = some owner ∧
      declaration.qualifiedName.parent? = some owner.qualifiedName ∧
      (owner.kind = .package ∧ tree.enclosingClass? id = none ∨
        ∃ info, tree.enclosingClass? id = some (container, info)) := by
  have hregular := Tree.regular_of_ofSources hread
  obtain ⟨hsegment, container, owner, hcontainer, howner, hname⟩ :=
    (Tree.ofSources_titled hread).nested id declaration hget
      (fun hmodule => by rw [hmodule] at hclassifier; cases hclassifier)
      fun hpackage => by rw [hpackage] at hclassifier; cases hclassifier
  have hlink : tree.container? id = some container :=
    Tree.container?_eq_some.mpr ⟨declaration, hget, hcontainer⟩
  refine ⟨container, owner, hlink, howner, ?_, ?_⟩
  · rw [hname, QualifiedName.parent?_child _ hsegment]
  · obtain ⟨_, hsame, hmay⟩ := hregular.placed id declaration container hget hcontainer
    cases howner.symm.trans hsame
    obtain hpackage | hclass := owner_of_classifier hmay hclassifier
    · refine .inl ⟨hpackage, Option.eq_none_iff_forall_not_mem.mpr ?_⟩
      rintro ⟨around, info⟩ haround
      obtain ⟨hsame, hclass⟩ := Tree.enclosingClass?_eq_some.mp haround
      cases hlink.symm.trans hsame
      rw [Tree.declaration_of_get? howner] at hclass
      cases hpackage.symm.trans (congrArg Payload.kind hclass)
    · obtain ⟨info, hpayload⟩ : ∃ info, owner.payload = .classType info := Payload.ofKind hclass
      refine .inr ⟨info, Tree.enclosingClass?_eq_some.mpr ⟨hlink, ?_⟩⟩
      rw [Tree.declaration_of_get? howner, hpayload]

/-- A package belongs to a module, which belongs nowhere. -/
private theorem exists_module_of_package {tree : Tree} (hregular : tree.Regular) {id : DeclId}
    {declaration : Declaration} (hget : tree.get? id = some declaration)
    (hpackage : declaration.kind = .package) : ∃ container, tree.container? id = some container ∧
      (tree.declaration container).kind = .module ∧ tree.container? container = none := by
  cases hregular.reachable id declaration hget with
  | root hroot =>
    obtain ⟨_, hsame, hmodule, -⟩ := hregular.roots id hroot
    cases hget.symm.trans hsame
    cases hpackage.symm.trans hmodule
  | @child container _ _ hchild =>
    obtain ⟨owner, _, howner, hsame, hmay⟩ := hregular.child_placed hchild
    cases hget.symm.trans hsame
    rw [hpackage] at hmay
    have hmodule : owner.kind = .module := beq_iff_eq.mp hmay
    refine ⟨container, hregular.owned.listed _ _ hchild, ?_, ?_⟩
    · rw [Tree.declaration_of_get? howner, hmodule]
    · by_contra hcontainer
      obtain ⟨outer, houter⟩ := Option.ne_none_iff_exists'.mp hcontainer
      refine hregular.child_not_module (hregular.owned.contained _ _ houter) ?_
      rw [Tree.declaration_of_get? howner, hmodule]

/-- Packages of one name that meet match, and so do their surroundings. -/
private theorem PackagesMeet.surroundings {p q : DeclId} (hmeet : sides.PackagesMeet p q)
    (hregularA : sides.first.Regular) (hregularB : sides.second.Regular)
    (hA : sides.first.get? p = some declA) (hB : sides.second.get? q = some declB)
    (hpackageA : declA.kind = .package) (hpackageB : declB.kind = .package)
    (hnames : declA.qualifiedName = declB.qualifiedName) :
    sides.Matches sides.Shareable p q ∧ sides.SurroundingsMatch p q := by
  obtain ⟨m, hm, hmoduleA, hfreeA⟩ := exists_module_of_package hregularA hA hpackageA
  obtain ⟨n, hn, hmoduleB, hfreeB⟩ := exists_module_of_package hregularB hB hpackageB
  obtain ⟨hcalled, hvisible⟩ := hmeet.modules m n hm hn
  have hopen {tree : Tree} {id : DeclId} {kind : Kind} (hkind : (tree.declaration id).kind = kind)
      (hregistered : kind.isRegistered = true) : tree.isConcreteInterfaceMember id = false :=
    not_concrete_of_registered (hkind ▸ hregistered)
  rw [← Tree.declaration_of_get? hA] at hpackageA
  rw [← Tree.declaration_of_get? hB] at hpackageB
  constructor
  · refine ⟨hpackageA.trans hpackageB.symm, hmeet.visible, ⟨hopen hpackageA rfl, hopen hpackageB rfl⟩, ?_⟩
    have hpayload : (sides.first.declaration p).payload = .package := Payload.ofKind hpackageA
    simp only [KindMatches, hpayload]
    rw [Tree.declaration_of_get? hA, Tree.declaration_of_get? hB, hnames]
  · refine .inside hm hn ?_ (.outermost hfreeA hfreeB)
    refine ⟨hmoduleA.trans hmoduleB.symm, hvisible, ⟨hopen hmoduleA rfl, hopen hmoduleB rfl⟩, ?_⟩
    obtain ⟨info, hpayload⟩ : ∃ info, (sides.first.declaration m).payload = .module info :=
      Payload.ofKind hmoduleA
    simp only [KindMatches, hpayload]
    exact hcalled

/-- Classifiers that can be shared stand in classes that can be shared, if in any, where aliases do. -/
private theorem Sheltered.containersMatch (hsheltered : sides.Sheltered) (hshare : sides.Shareable a b)
    (hclassifier : (sides.first.declaration a).kind.isClassifier = true) :
    sides.ContainersMatch sides.Shareable a b := by
  have hmatch := hshare.classifiersMatch
  cases hkind : (sides.first.declaration a).kind with
  | classType =>
    obtain ⟨infoA, hA⟩ : ∃ info, (sides.first.declaration a).payload = .classType info :=
      Payload.ofKind hkind
    obtain ⟨infoB, hB⟩ : ∃ info, (sides.second.declaration b).payload = .classType info :=
      Payload.ofKind (hmatch.kinds.symm.trans hkind)
    exact (hmatch.classes hA hB).containers
  | typeAlias => exact hsheltered.aliases a b hkind hshare
  | _ =>
    rw [hkind] at hclassifier
    cases hclassifier

/-- What comparisons read of a declared type leads where it says. -/
private theorem leads_of_declared {tree : Tree} {sources : List Source}
    (hread : Tree.ofSources sources = .ok tree) {id : DeclId} {type : Ty ClassifierRef}
    (htype : type ∈ (tree.declaration id).payload.types) {reference : ClassifierRef}
    (href : reference ∈ type.compared.refs) : tree.Leads reference := by
  cases hget : tree.get? id with
  | none =>
    rw [Tree.declaration, hget] at htype
    cases htype
  | some declaration =>
    rw [Tree.declaration_of_get? hget] at htype
    exact Tree.ofSources_leads hread hget
      (List.mem_flatMap.mpr ⟨type, htype, type.refs_compared href⟩)

/-- A reference that agrees with one of the second side can be bound in the shared output when every
classifier that can be shared with one of the second side has a shared node. -/
private theorem covers_of_refsAgree {forest : MergedForest} {x y : ClassifierRef}
    (hleadsA : sides.first.Leads x) (hleadsB : sides.second.Leads y)
    (hshared : ∀ a b declaration other, sides.first.get? a = some declaration →
      sides.second.get? b = some other → declaration.kind.isClassifier = true →
      sides.Shareable a b → ∃ node ∈ forest.nodes, ∃ data,
        node.payloads.get .common = some data ∧ data.kind.isClassifier = true ∧
          data.qualifiedName = declaration.qualifiedName)
    (hagree : sides.RefsAgree sides.Shareable x y) :
    forest.Covers sides.options .common (sides.first.detachRef x) := by
  cases x with
  | symbolic name => exact hleadsA.elim
  | external name | typeParameter name => trivial
  | resolved a =>
    obtain ⟨declaration, hget, hclassifier⟩ := hleadsA
    rw [Tree.detachRef, hget]
    cases hagree with
    | byName hnameA _ hname =>
      rw [Tree.nameOf?, hget] at hnameA
      cases hnameA
      obtain hbuiltin | ⟨hnowhere, -⟩ := hname
      · exact .inl hbuiltin
      · rw [Tree.resolve?, hget] at hnowhere
        cases hnowhere
    | @shared _ _ a' b hresolveA hresolveB _ hshare =>
      rw [Tree.resolve?, hget] at hresolveA
      cases hresolveA
      cases y with
      | symbolic name => exact hleadsB.elim
      | external name | typeParameter name => cases hresolveB
      | resolved b' =>
        obtain ⟨other, hother, -⟩ := hleadsB
        rw [Tree.resolve?, hother] at hresolveB
        cases hresolveB
        exact .inr (hshared a b' declaration other hget hother hclassifier hshare)

section Trees

variable (hdistinct : sides.same = false) {firsts seconds : List Source}
  (hfirst : Tree.ofSources firsts = .ok sides.first)
  (hsecond : Tree.ofSources seconds = .ok sides.second)
include hfirst hsecond

/-- In sheltered sides the surroundings of classifiers that can be shared match. The induction goes
down from the root of the first side to the classifier. -/
theorem Sheltered.surroundings (hsheltered : sides.Sheltered)
    (hA : ∃ declaration, sides.first.get? a = some declaration)
    (hB : ∃ declaration, sides.second.get? b = some declaration)
    (hclassifier : (sides.first.declaration a).kind.isClassifier = true)
    (hshare : sides.Shareable a b) : sides.SurroundingsMatch a b := by
  have hregularA := Tree.regular_of_ofSources hfirst
  have hregularB := Tree.regular_of_ofSources hsecond
  have hreachable : sides.first.Reachable a := hA.elim (hregularA.reachable a)
  induction hreachable generalizing b with
  | @root a hroot =>
    obtain ⟨_, hgetA, hmodule, -⟩ := hregularA.roots a hroot
    rw [Tree.declaration_of_get? hgetA, hmodule] at hclassifier
    cases hclassifier
  | @child parent a _ hchild ih =>
    obtain ⟨declA, hgetA⟩ := hA
    obtain ⟨declB, hgetB⟩ := hB
    have hcontainers := hsheltered.containersMatch hshare hclassifier
    have hmatch := hshare.classifiersMatch
    have hkinds := hmatch.kinds
    have hnames := hmatch.names
    rw [Tree.declaration_of_get? hgetA] at hclassifier hkinds hnames
    rw [Tree.declaration_of_get? hgetB] at hkinds hnames
    obtain ⟨x, ownerA, hcontainerA, hX, hparentA, hplacedA⟩ :=
      exists_owner_of_classifier hfirst hgetA hclassifier
    obtain ⟨y, ownerB, hcontainerB, hY, hparentB, hplacedB⟩ :=
      exists_owner_of_classifier hsecond hgetB (hkinds ▸ hclassifier)
    cases (hregularA.owned.listed _ _ hchild).symm.trans hcontainerA
    rw [hnames, hparentB] at hparentA
    obtain ⟨hpackageA, hfreeA⟩ | ⟨infoA, haroundA⟩ := hplacedA
    · obtain ⟨hpackageB, -⟩ | ⟨infoB, haroundB⟩ := hplacedB
      · have hmeet := hsheltered.packages a b parent y hshare hcontainerA hcontainerB
          (by rw [Tree.declaration_of_get? hX, hpackageA])
        obtain ⟨hmatches, houter⟩ := hmeet.surroundings hregularA hregularB hX hY hpackageA hpackageB
          (Option.some.inj hparentA).symm
        exact .inside hcontainerA hcontainerB hmatches houter
      · have hnested := hcontainers.nested_alike
        rw [hfreeA, haroundB] at hnested
        cases hnested
    · obtain ⟨-, hfreeB⟩ | ⟨infoB, haroundB⟩ := hplacedB
      · have hnested := hcontainers.nested_alike
        rw [haroundA, hfreeB] at hnested
        cases hnested
      · have hshare' := hcontainers.around haroundA haroundB
        have hclass : (sides.first.declaration parent).kind = .classType :=
          congrArg Payload.kind (Tree.enclosingClass?_eq_some.mp haroundA).2
        have hclassifier' : (sides.first.declaration parent).kind.isClassifier = true := by
          rw [hclass]
          rfl
        exact .inside hcontainerA hcontainerB (hshare'.matches hclassifier')
          (ih ⟨ownerA, hX⟩ ⟨ownerB, hY⟩ hclassifier' hshare')

/-- Registered declarations that match may join. -/
private theorem joins_of_matches (hA : sides.first.get? a = some declA)
    (hB : sides.second.get? b = some declB) (hregistered : declA.kind.isRegistered = true)
    (hmatches : sides.Matches sides.Shareable a b) : sides.joins a b = true := by
  obtain ⟨-, -, hnames⟩ := hmatches.clashes (Tree.ofSources_titled hfirst)
    (Tree.ofSources_titled hsecond) hA hB hregistered
  have hkinds := hmatches.kinds
  rw [Tree.declaration_of_get? hA, Tree.declaration_of_get? hB] at hkinds
  have hcalled : declA.name = declB.name := by
    rw [Tree.name_of_ofSources hfirst hA, Tree.name_of_ofSources hsecond hB, hkinds]
    exact congrArg (QualifiedName.nameOf · declB.kind) hnames
  have hmatched := (isMatched_iff_matches a b).mpr (.inr hmatches)
  simp only [joins, isCandidate, Tree.declaration_of_get? hA, Tree.declaration_of_get? hB,
    hmatches.abstract.1, hmatches.abstract.2, hcalled, hmatched, Bool.not_false, beq_self_eq_true,
    Bool.and_self]

variable (huniqueA : sides.first.NamesUnique) (huniqueB : sides.second.NamesUnique)
include hdistinct huniqueA huniqueB

/-- Among siblings whose names are unique, registered declarations that match are partners. -/
private theorem mem_partners_of_matches {as bs : List DeclId}
    (has : ∀ a ∈ as, ∃ declaration, sides.first.get? a = some declaration)
    (hbs : ∀ b ∈ bs, ∃ declaration, sides.second.get? b = some declaration) (ha : a ∈ as) (hb : b ∈ bs)
    (hregistered : (sides.first.declaration a).kind.isRegistered = true)
    (hmatches : sides.Matches sides.Shareable a b) : (a, b) ∈ partners sides.joins as bs := by
  obtain ⟨declA, hA⟩ := has a ha
  obtain ⟨declB, hB⟩ := hbs b hb
  -- whatever one of the two may join clashes with the other
  have hclashes {x y : DeclId} {declX declY : Declaration} (hX : sides.first.get? x = some declX)
      (hY : sides.second.get? y = some declY) (hjoins : sides.joins x y = true)
      (heither : declX.kind.isRegistered = true ∨ declY.kind.isRegistered = true) :
      declX.data.Clashes declY.data := by
    have hmatches := matches_of_isMatched hdistinct (isMatched_of_joins hjoins)
    have hkinds := hmatches.kinds
    rw [Tree.declaration_of_get? hX, Tree.declaration_of_get? hY] at hkinds
    refine hmatches.clashes (Tree.ofSources_titled hfirst) (Tree.ofSources_titled hsecond) hX hY ?_
    exact heither.elim id fun hregistered => hkinds ▸ hregistered
  rw [Tree.declaration_of_get? hA] at hregistered
  have hjoins := joins_of_matches hfirst hsecond hA hB hregistered hmatches
  have hboth := hclashes hA hB hjoins (.inl hregistered)
  refine mem_partners_of_unique _ ha hb hjoins (fun a' ha' hjoins' => ?_) fun b' hb' hjoins' => ?_
  · obtain ⟨declA', hA'⟩ := has a' ha'
    have hother := hclashes hA' hB hjoins' (.inr hboth.symm.1)
    exact huniqueA a' a declA' declA hA' hA (hother.trans hboth.symm)
  · obtain ⟨declB', hB'⟩ := hbs b' hb'
    have hother := hclashes hA hB' hjoins' (.inl hregistered)
    exact huniqueB b' b declB' declB hB' hB (hother.symm.trans hboth)

/-- A registered declaration that matches another, in surroundings that match, is merged with it. -/
theorem SurroundingsMatch.matched (haround : sides.SurroundingsMatch a b)
    (hA : ∃ declaration, sides.first.get? a = some declaration)
    (hB : ∃ declaration, sides.second.get? b = some declaration)
    (hregistered : (sides.first.declaration a).kind.isRegistered = true)
    (hmatches : sides.Matches sides.Shareable a b) : sides.Matched (a, b) := by
  have hregularA := Tree.regular_of_ofSources hfirst
  have hregularB := Tree.regular_of_ofSources hsecond
  have hknownA (x child : DeclId) (hchild : child ∈ sides.first.children x) :
      ∃ declaration, sides.first.get? child = some declaration := by
    obtain ⟨_, declaration, -, hget, -⟩ := hregularA.child_placed hchild
    exact ⟨declaration, hget⟩
  have hknownB (y child : DeclId) (hchild : child ∈ sides.second.children y) :
      ∃ declaration, sides.second.get? child = some declaration := by
    obtain ⟨_, declaration, -, hget, -⟩ := hregularB.child_placed hchild
    exact ⟨declaration, hget⟩
  induction haround with
  | @outermost a b hfreeA hfreeB =>
    obtain ⟨declA, hgetA⟩ := hA
    obtain ⟨declB, hgetB⟩ := hB
    exact .root (mem_partners_of_matches hdistinct hfirst hsecond huniqueA huniqueB
      hregularA.rooted.known hregularB.rooted.known (hregularA.root_of_free hgetA hfreeA)
      (hregularB.root_of_free hgetB hfreeB) hregistered hmatches)
  | @inside a b x y hcontainerA hcontainerB hmatches' _ ih =>
    have hchildA := hregularA.owned.contained a x hcontainerA
    have hchildB := hregularB.owned.contained b y hcontainerB
    obtain ⟨ownerA, declA, hX, hgetA, hmay⟩ := hregularA.child_placed hchildA
    obtain ⟨ownerB, _, hY, -, -⟩ := hregularB.child_placed hchildB
    have howner : (sides.first.declaration x).kind.isRegistered = true := by
      rw [Tree.declaration_of_get? hgetA] at hregistered
      rw [Tree.declaration_of_get? hX]
      exact Kind.isRegistered_of_mayContain hmay hregistered
    refine .under (ih ⟨ownerA, hX⟩ ⟨ownerB, hY⟩ howner hmatches') ?_
    rw [pairsUnder, if_neg fun hfunction => by rw [hfunction] at howner; cases howner]
    exact mem_partners_of_matches hdistinct hfirst hsecond huniqueA huniqueB (hknownA x) (hknownB y)
      hchildA hchildB hregistered hmatches

/-- Classifiers that can be shared have a shared node, in sheltered sides. -/
private theorem Sheltered.exists_shared (hsheltered : sides.Sheltered) {origins : List Origin}
    {forest : MergedForest} (htraces : sides.TracesExactly origins forest)
    (hA : sides.first.get? a = some declA) (hB : sides.second.get? b = some declB)
    (hclassifier : declA.kind.isClassifier = true) (hshare : sides.Shareable a b) :
    ∃ origin ∈ walkAll origins, ∃ data, origin.common? = some data ∧
      data.kind.isClassifier = true ∧ data.qualifiedName = declA.qualifiedName := by
  rw [← Tree.declaration_of_get? hA] at hclassifier ⊢
  have hmatches := hshare.matches hclassifier
  have haround := hsheltered.surroundings hfirst hsecond ⟨_, hA⟩ ⟨_, hB⟩ hclassifier hshare
  have hmerged := haround.matched hdistinct hfirst hsecond huniqueA huniqueB ⟨_, hA⟩ ⟨_, hB⟩
    (Kind.isRegistered_of_isClassifier hclassifier) hmatches
  have hmatched : sides.matched a b = true := (isMatched_iff_matches a b).mpr (.inr hmatches)
  obtain ⟨origin, horigin, hids⟩ := Origin.mem_pairs.mp ((htraces.mem_pairs_iff _).mpr hmerged)
  refine ⟨origin, horigin, sides.shared a b, htraces.common?_of_ids horigin hids, ?_,
    shared_qualifiedName hmatched⟩
  rwa [shared_kind hdistinct hmatched, Kind.isClassifier_common]

/-- What a merge of sheltered sides shares can be written: each reference of the shared data agrees,
in the spelling that comparisons read, with one of the second side. -/
theorem Sheltered.closed (hsheltered : sides.Sheltered) {origins : List Origin}
    {forest : MergedForest} (htraces : sides.TracesExactly origins forest) :
    forest.Closed sides.options .common := by
  have hnodes := Origin.forest_nodes htraces.nodes
  have hshared (x y : DeclId) (declX declY : Declaration) (hX : sides.first.get? x = some declX)
      (hY : sides.second.get? y = some declY) (hclassifier : declX.kind.isClassifier = true)
      (hshare : sides.Shareable x y) : ∃ node ∈ forest.nodes, ∃ data,
        node.payloads.get .common = some data ∧ data.kind.isClassifier = true ∧
          data.qualifiedName = declX.qualifiedName := by
    obtain ⟨origin, horigin, data, hcommon, hnamed⟩ := hsheltered.exists_shared hdistinct hfirst hsecond
      huniqueA huniqueB htraces hX hY hclassifier hshare
    refine ⟨_, hnodes ▸ List.mem_map_of_mem horigin, data, ?_, hnamed⟩
    rw [Origin.node_payloads]
    exact hcommon
  intro node hnode data hdata reference href
  obtain ⟨origin, horigin, rfl⟩ := List.mem_map.mp (hnodes ▸ hnode)
  rw [Origin.node_payloads] at hdata
  cases htraces.exact origin horigin with
  | first _ | second _ => cases hdata
  | @shared a b _ hmatched _ =>
    cases hdata
    obtain ⟨payload, hextracts, hpayload⟩ := shared_extracts hdistinct hmatched
    rw [hpayload, sharedForm, Payload.refs_mapRefs] at href
    obtain ⟨bound, hbound, rfl⟩ := List.mem_map.mp href
    rw [Payload.refs, Payload.types_mapTypes, List.flatMap_map] at hbound
    obtain ⟨type, htype, hbound⟩ := List.mem_flatMap.mp hbound
    obtain ⟨target, htarget⟩ := Tree.declared_of_lent (hextracts.types_subset htype)
    have hrestates := hextracts.restates (fun _ _ hagree => hagree) (fun infoA infoB hA hB hshare =>
      restates_parameters (fun _ _ hagree => hagree)
        (hshare.classifiersMatch.classes hA hB).parameters) (matches_of_isMatched hdistinct hmatched)
    obtain ⟨other, hother, hagree⟩ := hrestates.exists_like htype
    obtain ⟨target', htarget'⟩ := Tree.declared_of_lent hother
    rw [← Ty.compared_eq_collapse type (hsheltered.spellings target type htarget)] at hbound
    obtain ⟨like, hlike, halike⟩ := exists_like_of_mem hagree.refs hbound
    refine covers_of_refsAgree ?_ ?_ hshared ((refsAlike_iff hdistinct).mp halike)
    · exact leads_of_declared hfirst htarget hbound
    · exact leads_of_declared hsecond htarget' hlike

end Trees

end Sides

end Concord
