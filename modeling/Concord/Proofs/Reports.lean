import Concord.Proofs.Logic.Tasks
import Concord.Proofs.Merge.Accounting
import Concord.Proofs.Merge.Partners
import Concord.Proofs.Merge.Reporting

namespace Concord

open Origin (ids walkAll)

/-- Whoever owns anything but parameters is a module, a package or a class. -/
theorem Kind.owner_cases {owner child : Kind} (hmay : owner.mayContain child = true)
    (hother : owner ≠ .function) : owner = .module ∨ owner = .package ∨ owner = .classType := by
  cases child <;> simp_all [Kind.mayContain]

namespace Sides

/-- The nodes of siblings that are paired, with the siblings of the second side: the topmost nodes,
and what stands below a common node other than a function's. -/
inductive Level (sides : Sides) (origins : List Origin) : List Origin → List DeclId → Prop
  | top : Level sides origins origins sides.second.roots
  | below {origin : Origin} {a b : DeclId} (horigin : origin ∈ walkAll origins)
    (hids : origin.ids = (some a, some b)) (hkind : (sides.first.declaration a).kind ≠ .function) :
    Level sides origins origin.children (sides.second.children b)

/-- What the report of a merge says of the nodes that come from these origins. -/
structure Report (sides : Sides) (origins : List Origin) (result : MergeResult) : Prop where
  nodes : result.forest.roots = Origin.nodes sides origins
  firsts : origins.filterMap Origin.first? = sides.first.roots
  seconds : (origins.filterMap Origin.second?).Perm sides.second.roots
  attached : ∀ origin ∈ walkAll origins, origin.Attached sides
  /-- Each record is about two declarations that were compared in vain, in the order of the merge. -/
  records : List.Forall₂ sides.Reports (sides.refused origins) result.rejections
  /-- Siblings that both stay alone are among these, if they can be compared at all. -/
  complete : ∀ siblings bs, sides.Level origins siblings bs → ∀ a b, (some a, none) ∈ siblings.map ids →
    (none, some b) ∈ siblings.map ids → sides.Comparable a b → (a, b) ∈ sides.refused origins
  /-- All of these are siblings, of which the first stays alone while the second was left. -/
  sound : ∀ a b, (a, b) ∈ sides.refused origins → sides.Comparable a b ∧
    ∃ siblings bs, sides.Level origins siblings bs ∧ b ∈ bs ∧ Untaken a b (siblings.map ids)
  /-- No declaration that has a partner is among them. -/
  unmatched : ∀ a b, (a, b) ∈ sides.refused origins → ∀ origin ∈ walkAll origins,
    origin.first? = some a → origin.second? = none
  /-- The siblings below a common node belong to a module, a package or a class, unless their owner may
  not own them. -/
  owners : ∀ origin ∈ walkAll origins, ∀ a b, origin.ids = (some a, some b) →
    (sides.first.declaration a).kind ≠ .function → ∀ below ∈ origin.children, ∀ child,
    below.first? = some child → child ∈ sides.first.children a ∧
      let kind := (sides.first.declaration a).kind
      ((kind = .module ∨ kind = .package ∨ kind = .classType) ∨
        kind.mayContain (sides.first.declaration child).kind = false)

variable {sides : Sides} {origins : List Origin}

private theorem mem_refusedBelow {origin : Origin} {pair : DeclId × DeclId} :
    pair ∈ sides.refusedBelow origin ↔ ∃ a b, origin.ids = (some a, some b) ∧
      (sides.first.declaration a).kind ≠ .function ∧
      pair ∈ sides.refusals (origin.children.map ids) (sides.second.children b) := by
  rw [refusedBelow, Origin.ids]
  cases origin.first? with
  | none => simp
  | some a =>
    cases origin.second? with
    | none => simp
    | some b =>
      by_cases hkind : (sides.first.declaration a).kind = .function
      · simp [hkind]
      · simp [hkind]

/-- What is compared in vain are siblings. -/
private theorem mem_refused {a b : DeclId} (hsecond : sides.second.Rooted) :
    (a, b) ∈ sides.refused origins ↔ sides.Comparable a b ∧
      ∃ siblings bs, sides.Level origins siblings bs ∧ b ∈ bs ∧ Untaken a b (siblings.map ids) := by
  rw [refused, List.mem_append, List.mem_flatMap]
  constructor
  · rintro (htop | ⟨origin, horigin, hbelow⟩)
    · obtain ⟨hcomparable, hb, huntaken⟩ := (mem_refusals hsecond.distinct).mp htop
      exact ⟨hcomparable, _, _, .top, hb, huntaken⟩
    · obtain ⟨x, y, hids, hkind, hpair⟩ := mem_refusedBelow.mp hbelow
      obtain ⟨hcomparable, hb, huntaken⟩ := (mem_refusals (hsecond.owned.distinct y)).mp hpair
      exact ⟨hcomparable, _, _, .below horigin hids hkind, hb, huntaken⟩
  · rintro ⟨hcomparable, siblings, bs, hlevel, hb, huntaken⟩
    cases hlevel with
    | top => exact .inl ((mem_refusals hsecond.distinct).mpr ⟨hcomparable, hb, huntaken⟩)
    | @below origin x y horigin hids hkind =>
      refine .inr ⟨origin, horigin, mem_refusedBelow.mpr ⟨x, y, hids, hkind, ?_⟩⟩
      exact (mem_refusals (hsecond.owned.distinct y)).mpr ⟨hcomparable, hb, huntaken⟩

/-- The origins of siblings are walked. -/
private theorem Level.walked {siblings : List Origin} {bs : List DeclId}
    (hlevel : sides.Level origins siblings bs) {origin : Origin} (horigin : origin ∈ siblings) :
    origin ∈ walkAll origins := by
  cases hlevel with
  | top => exact Origin.mem_walkAll.mpr ⟨origin, horigin, Origin.mem_walk_self origin⟩
  | below hparent => exact Origin.walkAll_closed origins hparent horigin

/-- Of two nodes that come from one declaration, the other sides are the same too. -/
private theorem same_target (target : Origin → Option DeclId) {source : Origin → Option DeclId}
    (hdistinct : ((walkAll origins).filterMap source).Nodup) {origin other : Origin}
    (horigin : origin ∈ walkAll origins) (hother : other ∈ walkAll origins) {id : DeclId}
    (hsource : source origin = some id) (hsource' : source other = some id) :
    target origin = target other :=
  (Origin.across_of_mem hdistinct horigin hsource).symm.trans
    (Origin.across_of_mem hdistinct hother hsource')

section Facts

variable (hattached : ∀ origin ∈ walkAll origins, origin.Attached sides)
include hattached

/-- Whoever is compared in vain has no partner. -/
private theorem alone_of_refused (hfirst : sides.first.Rooted) (hsecond : sides.second.Rooted)
    (hfirsts : origins.filterMap Origin.first? = sides.first.roots) {a b : DeclId}
    (hrefused : (a, b) ∈ sides.refused origins) {origin : Origin} (horigin : origin ∈ walkAll origins)
    (ha : origin.first? = some a) : origin.second? = none := by
  have hdistinct := Origin.walkAll_distinct hfirst (hfirsts ▸ .refl _)
    fun origin horigin => (hattached origin horigin).firsts
  obtain ⟨-, siblings, bs, hlevel, -, before, after, hsplit, -⟩ := (mem_refused hsecond).mp hrefused
  have hmem : (some a, none) ∈ siblings.map ids := hsplit ▸ List.mem_append_right _ List.mem_cons_self
  obtain ⟨alone, halone, hids⟩ := List.mem_map.mp hmem
  rw [Origin.ids, Prod.mk.injEq] at hids
  rw [same_target Origin.second? hdistinct horigin (hlevel.walked halone) ha hids.1, hids.2]

variable (hsecond : sides.second.Rooted)
  (hseconds : (origins.filterMap Origin.second?).Perm sides.second.roots)
include hsecond hseconds

/-- Siblings that both stay alone are compared in vain: nobody has taken the second. -/
private theorem refused_of_alone {siblings : List Origin} {bs : List DeclId} {a b : DeclId}
    (hlevel : sides.Level origins siblings bs) (ha : (some a, none) ∈ siblings.map ids)
    (hb : (none, some b) ∈ siblings.map ids) (hcomparable : sides.Comparable a b) :
    (a, b) ∈ sides.refused origins := by
  have hdistinct := Origin.walkAll_distinct hsecond hseconds.subperm
    fun origin horigin => (hattached origin horigin).seconds
  obtain ⟨alone, halone, hids⟩ := List.mem_map.mp hb
  rw [Origin.ids, Prod.mk.injEq] at hids
  have hlisted : b ∈ siblings.filterMap Origin.second? :=
    List.mem_filterMap.mpr ⟨alone, halone, hids.2⟩
  have hleft : b ∈ bs := by
    cases hlevel with
    | top => exact hseconds.subset hlisted
    | @below origin x y horigin howner _ =>
      have hheld := (hattached origin horigin).seconds.subset hlisted
      rwa [show origin.second? = some y from congrArg Prod.snd howner] at hheld
  obtain ⟨before, after, hsplit⟩ := List.append_of_mem ha
  refine (mem_refused hsecond).mpr ⟨hcomparable, siblings, bs, hlevel, hleft, before, after, hsplit,
    fun taker htaken => ?_⟩
  have hmem : (some taker, some b) ∈ siblings.map ids := hsplit ▸ List.mem_append_left _ htaken
  obtain ⟨shared, hshared, hids'⟩ := List.mem_map.mp hmem
  rw [Origin.ids, Prod.mk.injEq] at hids'
  have hsame := same_target Origin.first? hdistinct (hlevel.walked hshared) (hlevel.walked halone)
    hids'.2 hids.2
  rw [hids.1, hids'.1] at hsame
  cases hsame

end Facts

/-- The report of a merge of two forests says all this. -/
private theorem report_of_origins {result : MergeResult} (hfirst : sides.first.Rooted)
    (hsecond : sides.second.Rooted) (hnodes : result.forest.roots = Origin.nodes sides origins)
    (hfirsts : origins.filterMap Origin.first? = sides.first.roots)
    (hseconds : (origins.filterMap Origin.second?).Perm sides.second.roots)
    (hattached : ∀ origin ∈ walkAll origins, origin.Attached sides)
    (hrecords : List.Forall₂ sides.Reports (sides.refused origins) result.rejections) :
    sides.Report origins result where
  nodes := hnodes
  firsts := hfirsts
  seconds := hseconds
  attached := hattached
  records := hrecords
  complete siblings bs hlevel a b ha hb :=
    refused_of_alone hattached hsecond hseconds hlevel ha hb
  sound a b hrefused := (mem_refused hsecond).mp hrefused
  unmatched a b hrefused origin horigin :=
    alone_of_refused hattached hfirst hsecond hfirsts hrefused horigin
  owners origin horigin a b hids hkind below hbelow child hchild := by
    have howned := (hattached origin horigin).firsts.subset
      (List.mem_filterMap.mpr ⟨below, hbelow, hchild⟩)
    rw [show origin.first? = some a from congrArg Prod.fst hids, Option.elim_some] at howned
    refine ⟨howned, ?_⟩
    cases hmay : (sides.first.declaration a).kind.mayContain (sides.first.declaration child).kind with
    | false => exact .inr hmay
    | true => exact .inl (Kind.owner_cases hmay hkind)

/-- Two trees that are made by building steps and pass their check, with roots that belong nowhere,
are merged, in one session or by workers in whatever order they take their steps, and the report of
the merge is complete and sound. -/
theorem report_complete_and_sound (sides : Sides) (hconsistent : sides.Consistent)
    (hbuilt : sides.first.Built ∧ sides.second.Built)
    (hcheck : checkMergeable sides.first .first = .ok () ∧
      checkMergeable sides.second .second = .ok ())
    (hfree : (∀ root ∈ sides.first.roots, sides.first.container? root = none) ∧
      ∀ root ∈ sides.second.roots, sides.second.container? root = none) :
    (∀ cache, ∃ result session origins, sides.merge cache = .ok (result, session) ∧
      sides.Report origins result) ∧
    ∀ cache, Acc (fun after before => Task.Step before after) (cache, sides.mergeTask) ∧
      ∀ after task, Task.Schedule (cache, sides.mergeTask) (after, task) →
        (∃ next, Task.Step (after, task) next) ∨
        ∃ nodes rejections limitHits origins, task = .done ⟨.ok (nodes, rejections), limitHits⟩ ∧
          sides.Report origins ⟨⟨nodes⟩, rejections⟩ := by
  have hfirst := hbuilt.1.rooted hcheck.1 hfree.1
  have hsecond := hbuilt.2.rooted hcheck.2 hfree.2
  have hreport {result : MergeResult} (horigins : ∃ origins,
      result.forest.roots = Origin.nodes sides origins ∧
      origins.filterMap Origin.first? = sides.first.roots ∧
      (origins.filterMap Origin.second?).Perm sides.second.roots ∧
      (∀ origin ∈ walkAll origins, origin.Attached sides) ∧
      List.Forall₂ sides.Reports (sides.refused origins) result.rejections) :
      ∃ origins, sides.Report origins result := by
    obtain ⟨origins, hnodes, hfirsts, hseconds, hattached, hrecords⟩ := horigins
    exact ⟨origins, report_of_origins hfirst hsecond hnodes hfirsts hseconds hattached hrecords⟩
  refine ⟨fun cache => ?_, fun cache => ⟨Task.wellFounded_step.apply _, fun after task hschedule => ?_⟩⟩
  · have hgives := Services.merge_reports (sides.services_obeys (fun _ => True) True) hconsistent
      Session.verdict_runs hfirst hsecond hcheck
    obtain ⟨hends, hsucceeds⟩ := merge_of_gives hgives trivial
    obtain ⟨result, session, hmerge⟩ := hsucceeds trivial
    obtain ⟨origins, hreport⟩ := hreport (hends result session hmerge).2
    exact ⟨result, session, origins, hmerge, hreport⟩
  · obtain ⟨ended, rfl⟩ | hnext := Task.exists_step after task
    · have hgives := Services.merge_reports (sides.tasks_obeys (fun _ => True) True) hconsistent
        TaskM.verdict_runs hfirst hsecond hcheck
      obtain ⟨-, hends⟩ := mergeTask_of_gives hgives trivial hschedule
      obtain ⟨hends, hsucceeds⟩ := hends ended rfl
      obtain ⟨nodes, rejections, houtcome⟩ := hsucceeds trivial
      obtain ⟨origins, hreport⟩ := hreport (hends nodes rejections houtcome)
      exact .inr ⟨nodes, rejections, ended.limitHits, origins, by rw [← houtcome], hreport⟩
    · exact .inl hnext

section Overloads

private def returned (name : String) : Ty ClassifierRef :=
  .simple ⟨.external ⟨name⟩, [], false, false, none⟩

private def makerData (qualifiedName returns : String) : Data :=
  .ofPayload ⟨"f"⟩ ⟨qualifiedName⟩ (.function ⟨returned returns, none, [], false, false, false, false⟩)

private def ownerData : Data :=
  .ofPayload ⟨"C"⟩ ⟨"p.C"⟩
    (.property ⟨returned "kotlin.Unit", none, [], false, false, false, false, none, none⟩)

private def declarationsOf (children : List DeclId) (others : List Declaration) : Array Declaration :=
  #[⟨.ofPayload ⟨"m"⟩ ⟨"m"⟩ (.module ⟨none⟩), none, [⟨1⟩]⟩,
    ⟨.ofPayload ⟨"p"⟩ ⟨"p"⟩ .package, some ⟨0⟩, children⟩] ++ others.toArray

/-- A module with a package with a function. -/
private def makerTree (returns : String) : Tree :=
  ⟨declarationsOf [⟨2⟩] [⟨makerData "p.f" returns, some ⟨1⟩, []⟩], [⟨0⟩], []⟩

/-- A module with a package with a property that was a class when a function was put into it. -/
private def propertyTree (returns : String) : Tree :=
  ⟨declarationsOf [⟨2⟩] [⟨ownerData, some ⟨1⟩, [⟨3⟩]⟩, ⟨makerData "p.C.f" returns, some ⟨2⟩, []⟩],
    [⟨0⟩], []⟩

private theorem package_built : Tree.Built ⟨declarationsOf [] [], [⟨0⟩], []⟩ :=
  (Tree.Built.addRoot .empty (.ofPayload ⟨"m"⟩ ⟨"m"⟩ (.module ⟨none⟩))).insert
    (show Tree.insert _ ⟨0⟩ (.ofPayload ⟨"p"⟩ ⟨"p"⟩ .package) = _ from rfl)

private theorem makerTree_built (returns : String) : (makerTree returns).Built :=
  package_built.insert (show Tree.insert _ ⟨1⟩ (makerData "p.f" returns) = _ from rfl)

private theorem propertyTree_built (returns : String) : (propertyTree returns).Built := by
  have hproperty := package_built.insert (show Tree.insert _ ⟨1⟩ ownerData = _ from rfl)
  have hclass := hproperty.setData ⟨2⟩ { ownerData with payload := .classType (.ofKind .ordinary) }
  have hfunction := hclass.insert
    (show Tree.insert _ ⟨2⟩ (makerData "p.C.f" returns) = _ from rfl)
  exact hfunction.setData ⟨2⟩ ownerData

/-- Two functions of one name that return different types are reported. -/
theorem maker_reported :
    let sides := ofTrees (makerTree "kotlin.Int") (makerTree "kotlin.String") plainOptions
    ∃ result session origins, sides.merge .empty = .ok (result, session) ∧
      sides.Report origins result ∧ result.rejections = [⟨⟨"p.f"⟩, .function, [.returnTypes]⟩] := by
  intro sides
  have hreport := (report_complete_and_sound sides nofun ⟨makerTree_built _, makerTree_built _⟩
    ⟨checkMergeable_iff.mpr ⟨Tree.checkOwnership_iff.mp (by decide), by decide⟩,
      checkMergeable_iff.mpr ⟨Tree.checkOwnership_iff.mp (by decide), by decide⟩⟩
    ⟨by decide, by decide⟩).1 .empty
  obtain ⟨result, session, origins, hmerge, hreport⟩ := hreport
  have hrecords : (sides.merge .empty).toOption.map (·.1.rejections) =
      some [⟨⟨"p.f"⟩, .function, [.returnTypes]⟩] := by
    decide +kernel
  rw [hmerge] at hrecords
  exact ⟨result, session, origins, hmerge, hreport, Option.some.inj hrecords⟩

/-- What a property owns is reported as well, though neither a module nor a package nor a class owns
it. -/
theorem property_member_reported :
    let first := propertyTree "kotlin.Int"
    let second := propertyTree "kotlin.String"
    (first.Built ∧ second.Built) ∧
      (checkMergeable first .first = .ok () ∧ checkMergeable second .second = .ok ()) ∧
      ((∀ root ∈ first.roots, first.container? root = none) ∧
        ∀ root ∈ second.roots, second.container? root = none) ∧
      ∃ result session, (ofTrees first second plainOptions).merge .empty = .ok (result, session) ∧
        result.rejections = [⟨⟨"p.C.f"⟩, .function, [.returnTypes]⟩] ∧
        (∀ node ∈ result.forest.roots, node.qualifiedName? ≠ some ⟨"p.C.f"⟩) ∧
        ∀ node ∈ result.forest.nodes, node.isCommon = true →
          node.kind? ∈ [some .module, some .package, some .classType] →
          ∀ child ∈ node.children, child.qualifiedName? ≠ some ⟨"p.C.f"⟩ := by
  refine ⟨⟨propertyTree_built _, propertyTree_built _⟩, ⟨?_, ?_⟩, ⟨by decide, by decide⟩, _, _, rfl, rfl,
    by decide, by decide⟩
  · exact checkMergeable_iff.mpr ⟨Tree.checkOwnership_iff.mp (by decide), by decide⟩
  · exact checkMergeable_iff.mpr ⟨Tree.checkOwnership_iff.mp (by decide), by decide⟩

end Overloads

end Sides

end Concord
