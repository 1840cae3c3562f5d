import Concord.Proofs.Merge.Derivation

namespace Concord

open Origin (Behind Held ids walkAll)
open ProgramLogic (RunsWhile)

namespace Sides

variable (sides : Sides)

/-- Two declarations of one name, neither of which stays alone as a member of an interface. -/
structure Comparable (a b : DeclId) : Prop where
  first : sides.first.isConcreteInterfaceMember a = false
  second : sides.second.isConcreteInterfaceMember b = false
  names : (sides.first.declaration a).name = (sides.second.declaration b).name

/-- A record of two declarations that were compared in vain. -/
structure Reports (pair : DeclId × DeclId) (record : Rejection) : Prop where
  qualifiedName : record.qualifiedName = (sides.first.declaration pair.1).qualifiedName
  kind : record.kind = (sides.first.declaration pair.1).kind
  causes : record.causes ≠ []

/-- The siblings that are compared in vain, when siblings are paired like that. Of the second side
those are left that no earlier one of the first side has taken. -/
def refusals : List (Option DeclId × Option DeclId) → List DeclId → List (DeclId × DeclId)
  | [], _ => []
  | (some a, none) :: pairs, bs =>
    (if sides.first.isConcreteInterfaceMember a then []
      else (bs.filter (sides.isCandidate a)).map (a, ·)) ++ refusals pairs bs
  | (some _, some b) :: pairs, bs => refusals pairs (bs.erase b)
  | (none, _) :: pairs, bs => refusals pairs bs

/-- What is compared in vain directly below an origin. Parameters of functions are not reported. -/
def refusedBelow (origin : Origin) : List (DeclId × DeclId) :=
  match origin.first?, origin.second? with
  | some a, some b =>
    if (sides.first.declaration a).kind = .function then []
    else sides.refusals (origin.children.map ids) (sides.second.children b)
  | _, _ => []

/-- What a merge compares in vain, in its order. -/
def refused (origins : List Origin) : List (DeclId × DeclId) :=
  sides.refusals (origins.map ids) sides.second.roots ++ (walkAll origins).flatMap sides.refusedBelow

end Sides

/-- What stands below an origin is owned by the declarations that it comes from, which are of one
kind. -/
structure Origin.Attached (sides : Sides) (origin : Origin) : Prop where
  common : origin.common?.isSome = (origin.first?.isSome && origin.second?.isSome)
  kinds : ∀ a b, origin.first? = some a → origin.second? = some b →
    (sides.first.declaration a).kind = (sides.second.declaration b).kind
  firsts : Held first? sides.first origin
  seconds : Held second? sides.second origin

namespace Origin.Attached

variable {sides : Sides} {children : List Origin}

theorem of_ids {first second : Option DeclId} {common : Option Data}
    {pairs : List (Option DeclId × Option DeclId)} (hids : children.map ids = pairs)
    (hcommon : common.isSome = (first.isSome && second.isSome))
    (hkinds : ∀ a b, first = some a → second = some b →
      (sides.first.declaration a).kind = (sides.second.declaration b).kind)
    (hfirsts : (pairs.filterMap (·.1)).Subperm (first.elim [] sides.first.children))
    (hseconds : (pairs.filterMap (·.2)).Subperm (second.elim [] sides.second.children)) :
    (Origin.mk first second common children).Attached sides := by
  subst hids
  rw [List.filterMap_map] at hfirsts hseconds
  exact ⟨hcommon, hkinds, hfirsts, hseconds⟩

theorem first_alone {a : DeclId} (hids : children.map ids = (sides.first.children a).map (some ·, none)) :
    (Origin.mk (some a) none none children).Attached sides :=
  .of_ids hids rfl (fun _ _ _ => nofun) (List.Perm.of_eq (by simp)).subperm (by simp)

theorem second_alone {b : DeclId} (hids : children.map ids = (sides.second.children b).map (none, some ·)) :
    (Origin.mk none (some b) none children).Attached sides :=
  .of_ids hids rfl (fun _ _ => nofun) (by simp) (List.Perm.of_eq (by simp)).subperm

end Origin.Attached

/-- Of two siblings the first stays alone, and none before it has taken the second. -/
def Untaken (a b : DeclId) (pairs : List (Option DeclId × Option DeclId)) : Prop :=
  ∃ before after, pairs = before ++ (some a, none) :: after ∧ ∀ taker, (some taker, some b) ∉ before

private theorem untaken_cons {a b : DeclId} {pair : Option DeclId × Option DeclId}
    {pairs : List (Option DeclId × Option DeclId)} :
    Untaken a b (pair :: pairs) ↔
      pair = (some a, none) ∨ (∀ taker, pair ≠ (some taker, some b)) ∧ Untaken a b pairs := by
  constructor
  · rintro ⟨_ | ⟨head, before⟩, after, heq, hbefore⟩
    · exact .inl (List.cons.inj heq).1
    · obtain ⟨rfl, rfl⟩ := List.cons.inj heq
      refine .inr ⟨fun taker heq => hbefore taker (heq ▸ List.mem_cons_self), before, after, rfl, ?_⟩
      exact fun taker hmem => hbefore taker (List.mem_cons_of_mem _ hmem)
  · rintro (rfl | ⟨hhead, before, after, rfl, hbefore⟩)
    · exact ⟨[], pairs, rfl, nofun⟩
    · refine ⟨pair :: before, after, rfl, fun taker hmem => ?_⟩
      obtain heq | hmem := List.mem_cons.mp hmem
      · exact hhead taker heq.symm
      · exact hbefore taker hmem

namespace Sides

variable {sides : Sides} {a b : DeclId} {as bs : List DeclId}
  {pairs : List (Option DeclId × Option DeclId)}

private theorem comparable_iff : sides.Comparable a b ↔
    sides.first.isConcreteInterfaceMember a = false ∧ sides.isCandidate a b = true := by
  rw [isCandidate, Bool.and_eq_true, Bool.not_eq_true', beq_iff_eq]
  exact ⟨fun ⟨hfirst, hsecond, hnames⟩ => ⟨hfirst, hsecond, hnames⟩,
    fun ⟨hfirst, hsecond, hnames⟩ => ⟨hfirst, hsecond, hnames⟩⟩

/-- Two siblings are compared in vain when they can be compared at all, the first stays alone, and
the second is left when its turn comes. -/
theorem mem_refusals (hdistinct : bs.Nodup) : (a, b) ∈ sides.refusals pairs bs ↔
    sides.Comparable a b ∧ b ∈ bs ∧ Untaken a b pairs := by
  induction pairs generalizing bs with
  | nil => simp [refusals, Untaken]
  | cons pair pairs ih =>
    rw [untaken_cons]
    match pair with
    | (some a', none) =>
      rw [refusals, List.mem_append, ih hdistinct, comparable_iff]
      cases hconcrete : sides.first.isConcreteInterfaceMember a' <;> grind
    | (some taker, some b') =>
      rw [refusals, ih (hdistinct.erase b'), hdistinct.mem_erase_iff]
      grind
    | (none, second) =>
      rw [refusals, ih hdistinct]
      simp

/-- Declarations that are left of the second side are not compared any more. -/
theorem refusals_seconds (left bs : List DeclId) :
    sides.refusals (left.map (none, some ·)) bs = [] := by
  induction left generalizing bs with
  | nil => rfl
  | cons b left ih => exact ih _

/-- A failed comparison is reported. -/
theorem reports_rejection {mismatch : Mismatch} (hcause : mismatch.isEmpty = false) :
    sides.Reports (a, b) (sides.rejection a mismatch) :=
  ⟨rfl, rfl, fun hnone => by simp [Mismatch.isEmpty, show mismatch.causes = [] from hnone] at hcause⟩

/-- Two lists of siblings as they are paired, with the report of what was compared in vain. -/
structure Paired (sides : Sides) (as bs : List DeclId) (paired : List Pairing × List Rejection) :
    Prop where
  firsts : paired.1.filterMap Pairing.first? = as
  seconds : (paired.1.filterMap Pairing.second?).Perm bs
  fits : ∀ a b first common second, .partners a b first common second ∈ paired.1 →
    sides.Fits a b first second
  reports : List.Forall₂ sides.Reports
    (sides.refusals (paired.1.map fun p => (p.first?, p.second?)) bs) paired.2

/-- A pairing of declarations that can be reached, those of the first side on a line that leaves
enough levels. -/
structure Ready (sides : Sides) (levels : Nat) (pairing : Pairing) : Prop where
  first : ∀ a, pairing.first? = some a → ∃ above, sides.first.Line a above ∧
    sides.first.size ≤ above.length + levels
  second : ∀ b, pairing.second? = some b → sides.second.Reachable b
  fits : ∀ a b first common second, pairing = .partners a b first common second →
    sides.Fits a b first second

/-- The declaration of the first side in a ready pairing can be reached. -/
theorem Ready.reachable {levels : Nat} {pairing : Pairing} (hready : sides.Ready levels pairing)
    (ha : pairing.first? = some a) : sides.first.Reachable a := by
  obtain ⟨above, hline, -⟩ := hready.first a ha
  exact Tree.reachable_iff_line.mpr ⟨above, hline⟩

namespace Paired

variable {paired : List Pairing × List Rejection}

/-- One that stays alone comes first, with the report of what it was compared with. -/
theorem alone (hpaired : sides.Paired as bs paired) (a : DeclId) {failures : List Rejection}
    (hreports : List.Forall₂ sides.Reports (if sides.first.isConcreteInterfaceMember a then []
      else (bs.filter (sides.isCandidate a)).map (a, ·)) failures) :
    sides.Paired (a :: as) bs (.firstAlone a :: paired.1, failures ++ paired.2) where
  firsts := congrArg (a :: ·) hpaired.firsts
  seconds := hpaired.seconds
  fits b c first common second hmem :=
    hpaired.fits b c first common second (by simpa using hmem)
  reports := List.rel_append hreports hpaired.reports

/-- Two that are partners come first, and the second is not left for the others. -/
theorem partners {b : DeclId} {first second : Data} (common : Data)
    (hpaired : sides.Paired as (bs.erase b) paired) (hb : b ∈ bs) (hfits : sides.Fits a b first second) :
    sides.Paired (a :: as) bs (.partners a b first common second :: paired.1, paired.2) where
  firsts := congrArg (a :: ·) hpaired.firsts
  seconds := (hpaired.seconds.cons b).trans (List.perm_cons_erase hb).symm
  fits c d first' common' second' hmem := by
    obtain heq | hmem := List.mem_cons.mp hmem
    · cases heq
      exact hfits
    · exact hpaired.fits c d first' common' second' hmem
  reports := hpaired.reports

/-- What siblings are paired to is ready to be merged when they are. -/
theorem ready {levels : Nat} (hpaired : sides.Paired as bs paired)
    (has : ∀ a ∈ as, ∃ above, sides.first.Line a above ∧ sides.first.size ≤ above.length + levels)
    (hbs : ∀ b ∈ bs, sides.second.Reachable b) {pairing : Pairing} (hpairing : pairing ∈ paired.1) :
    sides.Ready levels pairing where
  first a ha := has a (hpaired.firsts ▸ List.mem_filterMap.mpr ⟨pairing, hpairing, ha⟩)
  second b hb := hbs b (hpaired.seconds.mem_iff.mp (List.mem_filterMap.mpr ⟨pairing, hpairing, hb⟩))
  fits a b first common second heq := hpaired.fits a b first common second (heq ▸ hpairing)

end Paired

end Sides

namespace Services

variable {n m : Type → Type} [Monad n] [LawfulMonad n] [Monad m] {services : Services n m}
  {sides : Sides} {inner : ProgramLogic n} {outer : ProgramLogic m} {total : Prop}

variable (hobeys : services.Obeys inner outer total) (hconsistent : sides.Consistent)
  (hverdict : ∀ a b, inner.Runs (services.verdict a b))

omit [Monad m] in
include hverdict in
private theorem intersect_runs (a b : DeclId) (common : Data) :
    inner.Runs (services.intersect sides a b common) := by
  have hshareable (x y : DeclId) : inner.Runs (services.shareable x y) :=
    .bind (hverdict x y) fun _ _ => .pure trivial
  simp only [intersect]
  split
  · refine .bind (RunsWhile.partneredFrom (fun s t =>
      RunsWhile.check hshareable (typesAgree_isQuestions sides s t)) 0 _ _) fun supertypes _ => ?_
    refine .bind (RunsWhile.partneredFrom (fun c d =>
      RunsWhile.check hshareable (constructorsAgree_isQuestions sides c d)) 0 _ _) fun constructors _ => ?_
    split
    · exact .pure trivial
    · exact .pure trivial
  · exact .pure trivial

section Pairing

/-- What the search for the partner of a declaration ends with. -/
def Sought (sides : Sides) (a : DeclId) (bs : List DeclId) :
    Except (List Mismatch) (Pairing × List DeclId) → Prop
  | .ok (pairing, left) => ∃ b first common second, pairing = .partners a b first common second ∧
    b ∈ bs ∧ left = bs.erase b ∧ sides.Fits a b first second
  | .error failures => List.Forall₂ (fun _ mismatch => Mismatch.isEmpty mismatch = false)
    (bs.filter (sides.isCandidate a)) failures

/-- A sibling that was passed over is left. -/
private theorem Sought.later {a b : DeclId} {bs left : List DeclId} {pairing : Pairing}
    (hsought : Sought sides a bs (.ok (pairing, left))) (hfresh : b ∉ bs) :
    Sought sides a (b :: bs) (.ok (pairing, b :: left)) := by
  obtain ⟨b', first, common, second, hpairing, hb', rfl, hfits⟩ := hsought
  have hne : b ≠ b' := fun heq => hfresh (heq ▸ hb')
  refine ⟨b', first, common, second, hpairing, List.mem_cons_of_mem _ hb', ?_, hfits⟩
  rw [List.erase_cons_tail (by simpa using hne)]

include hobeys hconsistent hverdict

private theorem compare_ends_any (a b : DeclId) :
    inner.Gives (services.compare sides a b) (Ended sides (fun _ _ => True) a b) :=
  compare_ends hobeys hconsistent (fun a b => (hverdict a b).mono fun _ _ _ => trivial) a b

/-- A declaration takes one of its siblings on the other side, or all comparisons with it fail. -/
private theorem findPartner_seeks {a : DeclId} {bs : List DeclId}
    (ha : ∃ declaration, sides.first.get? a = some declaration)
    (hbs : ∀ b ∈ bs, ∃ declaration, sides.second.get? b = some declaration) (hdistinct : bs.Nodup) :
    inner.Gives (services.findPartner sides a bs) (Sought sides a bs) := by
  induction bs with
  | nil => exact .pure .nil
  | cons b bs ih =>
    obtain ⟨hb, hbs⟩ := List.forall_mem_cons.mp hbs
    obtain ⟨hfresh, hdistinct⟩ := List.nodup_cons.mp hdistinct
    refine .ite (fun hcandidate => .bind (compare_ends_any hobeys hconsistent hverdict a b)
      fun outcome hended => ?_) fun hother => .bind (ih hbs hdistinct) fun found hsought => ?_
    · cases outcome with
      | matched first common second =>
        exact .pure ⟨b, first, common, second, rfl, List.mem_cons_self, by simp, hended.fits ha hb⟩
      | mismatched mismatch =>
        refine .bind (ih hbs hdistinct) fun found hsought => ?_
        cases found with
        | ok found => exact .pure (hsought.later hfresh)
        | error failures =>
          refine .pure (show Sought _ _ _ (.error _) from ?_)
          rw [Sought, List.filter_cons_of_pos hcandidate]
          exact .cons hended hsought
    · cases found with
      | ok found => exact .pure (hsought.later hfresh)
      | error failures =>
        refine .pure (show Sought _ _ _ (.error _) from ?_)
        rwa [Sought, List.filter_cons_of_neg hother]

/-- Siblings are paired, and every comparison that fails is reported. -/
private theorem pairSiblings_reports {as bs : List DeclId}
    (has : ∀ a ∈ as, ∃ declaration, sides.first.get? a = some declaration)
    (hbs : ∀ b ∈ bs, ∃ declaration, sides.second.get? b = some declaration) (hdistinct : bs.Nodup) :
    inner.Gives (services.pairSiblings sides as bs) (sides.Paired as bs) := by
  induction as generalizing bs with
  | nil =>
    refine .pure ⟨by simp [Pairing.first?], ?_, by simp, ?_⟩
    · simp [Pairing.second?, List.filterMap_map, Function.comp_def]
    · rw [List.map_map]
      exact Sides.refusals_seconds bs bs ▸ .nil
  | cons a as ih =>
    obtain ⟨ha, has⟩ := List.forall_mem_cons.mp has
    refine .ite (fun hconcrete => .bind (ih has hbs hdistinct) fun paired hpaired => .pure ?_)
      fun hopen => .bind (findPartner_seeks hobeys hconsistent hverdict ha hbs hdistinct)
        fun found hsought => ?_
    · have hnone : List.Forall₂ sides.Reports (if sides.first.isConcreteInterfaceMember a then []
          else (bs.filter (sides.isCandidate a)).map (a, ·)) [] := by
        rw [if_pos hconcrete]
        exact .nil
      exact hpaired.alone a hnone
    · cases found with
      | ok found =>
        obtain ⟨pairing, left⟩ := found
        obtain ⟨b, first, common, second, rfl, hb, rfl, hfits⟩ := hsought
        refine .bind (ih has (fun b hb => hbs b (List.mem_of_mem_erase hb)) (hdistinct.erase b))
          fun paired hpaired => .pure (hpaired.partners common hb hfits)
      | error failures =>
        refine .bind (ih has hbs hdistinct) fun paired hpaired => .pure (hpaired.alone a ?_)
        rw [if_neg hopen, List.forall₂_map_left_iff, List.forall₂_map_right_iff]
        exact hsought.imp fun _ _ => Sides.reports_rejection

end Pairing

/-- Nodes with records of what was compared in vain: they come from origins below which the sides
own what stands there, and the records follow the walk of the origins. -/
def Reported (sides : Sides) (pairs : List (Option DeclId × Option DeclId))
    (merged : List MergedNode × List Rejection) : Prop :=
  ∃ origins, merged.1 = Origin.nodes sides origins ∧ origins.map ids = pairs ∧
    (∀ origin ∈ walkAll origins, origin.Attached sides) ∧
    List.Forall₂ sides.Reports ((walkAll origins).flatMap sides.refusedBelow) merged.2

/-- Nodes of declarations below which nothing is reported. -/
abbrev Unreported (sides : Sides) (pairs : List (Option DeclId × Option DeclId))
    (merged : List MergedNode) : Prop :=
  Behind sides (fun origin => origin.Attached sides ∧ sides.refusedBelow origin = []) pairs merged

section Reported

variable {pairs others : List (Option DeclId × Option DeclId)}
  {merged rest : List MergedNode × List Rejection}

theorem Unreported.reported {nodes : List MergedNode} (hnodes : Unreported sides pairs nodes) :
    Reported sides pairs (nodes, []) := by
  obtain ⟨origins, hnodes, hids, hall⟩ := hnodes
  refine ⟨origins, hnodes, hids, fun origin horigin => (hall origin horigin).1, ?_⟩
  rw [List.flatMap_eq_nil_iff.mpr fun origin horigin => (hall origin horigin).2]
  exact .nil

theorem Reported.append (hpairs : Reported sides pairs merged) (hothers : Reported sides others rest) :
    Reported sides (pairs ++ others) (merged.1 ++ rest.1, merged.2 ++ rest.2) := by
  obtain ⟨origins, hnodes, rfl, hattached, hreports⟩ := hpairs
  obtain ⟨more, hmore, rfl, hattached', hreports'⟩ := hothers
  refine ⟨origins ++ more, ?_, List.map_append, ?_, ?_⟩
  · rw [hnodes, hmore]
    simp only [Origin.nodes_eq_map, List.map_append]
  · rw [Origin.walkAll_append]
    exact List.forall_mem_append.mpr ⟨hattached, hattached'⟩
  · rw [Origin.walkAll_append, List.flatMap_append]
    exact List.rel_append hreports hreports'

/-- A node of two declarations over nodes of what they own. -/
theorem Reported.shared {a b : DeclId} {first second : Data} (common : Data) {failures : List Rejection}
    (hbelow : Reported sides pairs merged) (hfits : sides.Fits a b first second)
    (hfirsts : (pairs.filterMap (·.1)).Subperm (sides.first.children a))
    (hseconds : (pairs.filterMap (·.2)).Subperm (sides.second.children b))
    (hfailures : List.Forall₂ sides.Reports
      (if (sides.first.declaration a).kind = .function then []
        else sides.refusals pairs (sides.second.children b)) failures) :
    Reported sides [(some a, some b)]
      ([.shared first common second merged.1], failures ++ merged.2) := by
  obtain ⟨children, hnodes, rfl, hattached, hreports⟩ := hbelow
  refine ⟨[.mk (some a) (some b) (some common) children], ?_, rfl, ?_, ?_⟩
  · simp only [Origin.nodes, Origin.node, Option.bind_some, hfits.first, hfits.second, hnodes]
    rfl
  · simp only [walkAll, Origin.walk, List.append_nil]
    refine List.forall_mem_cons.mpr ⟨.of_ids rfl rfl ?_ hfirsts hseconds, hattached⟩
    rintro _ _ ⟨⟩ ⟨⟩
    exact hfits.kinds
  · simp only [walkAll, Origin.walk, List.append_nil, List.flatMap_cons]
    exact List.rel_append hfailures hreports

/-- Nodes that are collected for a plan, with their records. -/
theorem reported_of_collected {plan : List Pairing} {collected : List MergedNode × List Rejection}
    (hcollected : Collected (fun pairing merged =>
      Reported sides [(pairing.first?, pairing.second?)] ([merged.1], merged.2)) plan collected) :
    Reported sides (plan.map fun p => (p.first?, p.second?)) collected := by
  induction hcollected with
  | nil => exact ⟨[], rfl, rfl, nofun, .nil⟩
  | cons hmerged _ ih => exact hmerged.append ih

end Reported

section Alone

private theorem first_unreported {a : DeclId} {node : MergedNode}
    (hrun : sides.first.single .first a = .ok node) : Unreported sides [(some a, none)] [node] :=
  .first_alone (fun _ _ _ _ => trivial) (fun _ _ _ hids => ⟨.first_alone hids, rfl⟩)
    (show (fun _ => True) a from trivial) hrun

private theorem second_unreported {b : DeclId} {node : MergedNode}
    (hrun : sides.second.single .second b = .ok node) : Unreported sides [(none, some b)] [node] :=
  .second_alone (fun _ _ _ _ => trivial) (fun _ _ _ hids => ⟨.second_alone hids, rfl⟩)
    (show (fun _ => True) b from trivial) hrun

/-- Below two declarations that are merged without what they own nothing is reported. -/
private theorem shared_unreported {a b : DeclId} {first second : Data} (common : Data)
    (hfits : sides.Fits a b first second) :
    Unreported sides [(some a, some b)] [.shared first common second []] := by
  refine Behind.single (some common) .nil ?_ fun children hids _ => ⟨.of_ids hids rfl ?_ ?_ ?_, ?_⟩
  · simp only [Option.bind_some, hfits.first, hfits.second]
  · rintro _ _ ⟨⟩ ⟨⟩
    exact hfits.kinds
  · exact List.nil_subperm
  · exact List.nil_subperm
  · simp only [Sides.refusedBelow, Origin.first?, Origin.second?, Origin.children, hids,
      Sides.refusals, ite_self]

omit [LawfulMonad n]
include hobeys

private theorem firstAlone_reports (hrooted : sides.first.Rooted) {a : DeclId}
    (ha : sides.first.Reachable a) :
    outer.Gives (services.attempt (sides.first.single .first a)) fun node =>
      Unreported sides [(some a, none)] [node] :=
  hobeys.attempt (fun _ => first_unreported) fun _ => Tree.single_succeeds hrooted .first ha

private theorem secondAlone_reports (hrooted : sides.second.Rooted) {b : DeclId}
    (hb : sides.second.Reachable b) :
    outer.Gives (services.attempt (sides.second.single .second b)) fun node =>
      Unreported sides [(none, some b)] [node] :=
  hobeys.attempt (fun _ => second_unreported) fun _ => Tree.single_succeeds hrooted .second hb

private theorem firstsAlone_reports (hrooted : sides.first.Rooted) {as : List DeclId}
    (has : ∀ a ∈ as, sides.first.Reachable a) :
    outer.Gives (services.attempt (as.mapM fun a => sides.first.single .first a)) fun nodes =>
      Unreported sides (as.map (some ·, none)) nodes :=
  hobeys.attempt (fun _ hrun => .mapM _ (fun _ _ _ => first_unreported) hrun) fun _ =>
    Except.succeeds_mapM.mpr fun a ha => Tree.single_succeeds hrooted .first (has a ha)

private theorem secondsAlone_reports (hrooted : sides.second.Rooted) {bs : List DeclId}
    (hbs : ∀ b ∈ bs, sides.second.Reachable b) :
    outer.Gives (services.attempt (bs.mapM fun b => sides.second.single .second b)) fun nodes =>
      Unreported sides (bs.map (none, some ·)) nodes :=
  hobeys.attempt (fun _ hrun => .mapM _ (fun _ _ _ => second_unreported) hrun) fun _ =>
    Except.succeeds_mapM.mpr fun b hb => Tree.single_succeeds hrooted .second (hbs b hb)

end Alone

variable (hfirst : sides.first.Rooted) (hsecond : sides.second.Rooted)
include hobeys hconsistent hverdict hfirst hsecond

/-- The parameters of two functions are not reported, whether they match or not. -/
private theorem mergeParameters_reports {as bs : List DeclId}
    (has : ∀ a ∈ as, sides.first.Reachable a) (hbs : ∀ b ∈ bs, sides.second.Reachable b) :
    outer.Gives (services.mergeParameters sides as bs) fun merged => ∃ pairs,
      pairs.filterMap (·.1) = as ∧ pairs.filterMap (·.2) = bs ∧ Unreported sides pairs merged := by
  induction as generalizing bs with
  | nil =>
    cases bs with
    | nil =>
      exact (firstsAlone_reports hobeys hfirst has).mono fun merged hmerged => ⟨[], rfl, rfl, hmerged⟩
    | cons b bs =>
      exact (secondsAlone_reports hobeys hsecond hbs).mono fun merged hmerged =>
        ⟨_, by simp, by simp, hmerged⟩
  | cons a as ih =>
    cases bs with
    | nil =>
      exact (firstsAlone_reports hobeys hfirst has).mono fun merged hmerged =>
        ⟨_, by simp, by simp, hmerged⟩
    | cons b bs =>
      obtain ⟨ha, has⟩ := List.forall_mem_cons.mp has
      obtain ⟨hb, hbs⟩ := List.forall_mem_cons.mp hbs
      have hnext {pairs : List (Option DeclId × Option DeclId)} {nodes : List MergedNode}
          (hpairsA : pairs.filterMap (·.1) = [a]) (hpairsB : pairs.filterMap (·.2) = [b])
          (hnodes : Unreported sides pairs nodes) :
          outer.Gives (do return nodes ++ (← services.mergeParameters sides as bs)) fun merged =>
            ∃ pairs, pairs.filterMap (·.1) = a :: as ∧ pairs.filterMap (·.2) = b :: bs ∧
              Unreported sides pairs merged := by
        refine .bind (ih has hbs) fun rest hrest => .pure ?_
        obtain ⟨others, hothersA, hothersB, hothers⟩ := hrest
        refine ⟨pairs ++ others, ?_, ?_, hnodes.append hothers⟩
        · rw [List.filterMap_append, hpairsA, hothersA, List.singleton_append]
        · rw [List.filterMap_append, hpairsB, hothersB, List.singleton_append]
      refine .bind (hobeys.lift (compare_ends_any hobeys hconsistent hverdict a b))
        fun outcome hended => ?_
      cases outcome with
      | matched first common second =>
        obtain ⟨_, hlineA⟩ := Tree.reachable_iff_line.mp ha
        obtain ⟨_, hlineB⟩ := Tree.reachable_iff_line.mp hb
        have hfits := hended.fits (hfirst.line_known hlineA) (hsecond.line_known hlineB)
        have hnode : outer.Gives (pure [_]) fun nodes => Unreported sides [(some a, some b)] nodes :=
          .pure (shared_unreported common hfits)
        exact .bind (hobeys.note a b) fun _ _ => .bind hnode fun _ => hnext rfl rfl
      | mismatched mismatch =>
        refine .bind (firstAlone_reports hobeys hfirst ha) fun nodeA hA => ?_
        refine .bind (secondAlone_reports hobeys hsecond hb) fun nodeB hB => ?_
        have hnodes : outer.Gives (pure [nodeA, nodeB]) fun nodes =>
            Unreported sides ([(some a, none)] ++ [(none, some b)]) nodes := .pure (hA.append hB)
        exact .bind hnodes fun _ => hnext rfl rfl

/-- What a pairing gives stands for what it pairs, with its report. -/
private theorem mergePaired_reports (levels : Nat) {pairing : Pairing}
    (hready : sides.Ready levels pairing) :
    outer.Gives (services.mergePaired sides levels pairing) fun merged =>
      Reported sides [(pairing.first?, pairing.second?)] ([merged.1], merged.2) := by
  induction levels generalizing pairing with
  | zero =>
    cases pairing with
    | firstAlone a =>
      exact .bind (firstAlone_reports hobeys hfirst (hready.reachable rfl)) fun node hnode =>
        .pure hnode.reported
    | secondAlone b =>
      exact .bind (secondAlone_reports hobeys hsecond (hready.second b rfl)) fun node hnode =>
        .pure hnode.reported
    | partners a b first common second =>
      obtain ⟨above, hline, henough⟩ := hready.first a rfl
      have hshort := hfirst.line_length hline
      omega
  | succ levels ih =>
    cases pairing with
    | firstAlone a =>
      exact .bind (firstAlone_reports hobeys hfirst (hready.reachable rfl)) fun node hnode =>
        .pure hnode.reported
    | secondAlone b =>
      exact .bind (secondAlone_reports hobeys hsecond (hready.second b rfl)) fun node hnode =>
        .pure hnode.reported
    | partners a b first common second =>
      have hfits := hready.fits a b first common second rfl
      have hreachA (child : DeclId) (hchild : child ∈ sides.first.children a) :
          sides.first.Reachable child := .child (hready.reachable rfl) hchild
      have hreachB (child : DeclId) (hchild : child ∈ sides.second.children b) :
          sides.second.Reachable child := .child (hready.second b rfl) hchild
      refine .bind (hobeys.note a b) fun _ _ => ?_
      refine .bind (hobeys.lift (intersect_runs hverdict a b common)) fun left _ => ?_
      split
      · next hfunction =>
        refine .bind (mergeParameters_reports hobeys hconsistent hverdict hfirst hsecond hreachA hreachB)
          fun merged hmerged => .pure ?_
        obtain ⟨pairs, hpairsA, hpairsB, hunreported⟩ := hmerged
        refine hunreported.reported.shared left hfits (hpairsA ▸ .refl _) (hpairsB ▸ .refl _)
          (show List.Forall₂ sides.Reports _ [] from ?_)
        rw [if_pos hfunction]
        exact .nil
      · next hother =>
        refine .bind (hobeys.lift (pairSiblings_reports hobeys hconsistent hverdict
          (fun child => known_of_owned hfirst.owned) (fun child => known_of_owned hsecond.owned)
          (hsecond.owned.distinct b))) fun paired hpaired => ?_
        have hlineA (child : DeclId) (hchild : child ∈ sides.first.children a) :
            ∃ above, sides.first.Line child above ∧ sides.first.size ≤ above.length + levels := by
          obtain ⟨above, hline, henough⟩ := hready.first a rfl
          exact ⟨_, .child hline hchild, by simp only [List.length_cons]; omega⟩
        have hbelow (below : Pairing) (hmem : below ∈ paired.1) :=
          ih (hpaired.ready hlineA hreachB hmem)
        refine .bind (.ite (fun _ => hobeys.apart hbelow) fun _ => collect_gives hbelow)
          fun collected hcollected => .pure ?_
        refine (reported_of_collected hcollected).shared left hfits ?_ ?_ ?_
        · rw [List.filterMap_map]
          exact hpaired.firsts ▸ .refl _
        · rw [List.filterMap_map]
          exact hpaired.seconds.subperm
        · rw [if_neg hother]
          exact hpaired.reports

/-- Two trees that are forests below their roots are merged, and the report of the merge follows the
walk of its origins. -/
theorem merge_reports (hcheck : checkMergeable sides.first .first = .ok () ∧
      checkMergeable sides.second .second = .ok ()) :
    outer.Gives (services.merge sides) fun result => ∃ origins,
      result.forest.roots = Origin.nodes sides origins ∧
      origins.filterMap Origin.first? = sides.first.roots ∧
      (origins.filterMap Origin.second?).Perm sides.second.roots ∧
      (∀ origin ∈ walkAll origins, origin.Attached sides) ∧
      List.Forall₂ sides.Reports (sides.refused origins) result.rejections := by
  refine .bind (hobeys.attempt (fun _ _ => trivial) fun _ => ⟨(), hcheck.1⟩) fun _ _ => ?_
  refine .bind (hobeys.attempt (fun _ _ => trivial) fun _ => ⟨(), hcheck.2⟩) fun _ _ => ?_
  refine .bind (hobeys.lift (pairSiblings_reports hobeys hconsistent hverdict hfirst.known hsecond.known
    hsecond.distinct)) fun paired hpaired => ?_
  have hbelow (below : Pairing) (hmem : below ∈ paired.1) :=
    mergePaired_reports hobeys hconsistent hverdict hfirst hsecond sides.first.size
      (hpaired.ready (fun root hroot => ⟨[], .root hroot, Nat.le_add_left _ _⟩)
        (fun root => .root) hmem)
  refine .bind (collect_gives hbelow) fun collected hcollected => .pure ?_
  obtain ⟨origins, hnodes, hids, hattached, hreports⟩ := reported_of_collected hcollected
  have hfirsts := congrArg (List.filterMap Prod.fst) hids
  have hseconds := congrArg (List.filterMap Prod.snd) hids
  rw [List.filterMap_map, List.filterMap_map] at hfirsts hseconds
  refine ⟨origins, hnodes, hfirsts.trans hpaired.firsts, ?_, hattached, ?_⟩
  · exact (List.Perm.of_eq hseconds).trans hpaired.seconds
  · rw [Sides.refused, hids]
    exact List.rel_append hpaired.reports hreports

end Services

end Concord
