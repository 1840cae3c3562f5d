import Concord.Proofs.Logic.Tasks
import Concord.Proofs.Merge.Behind
import Concord.Proofs.Merge.Comparing

namespace Concord

open Origin (Behind Derived)
open ProgramLogic (Gives)

namespace Sides

variable (sides : Sides)

/-- What is known of two declarations and of the data that they share. -/
structure Settled (akin : DeclId → DeclId → Prop) (a b : DeclId) (common : Data) : Prop where
  shared : common.SharedOf sides.first a
  passes : sides.same = false → sides.Passes akin a b

/-- Where a forest comes from: its nodes have origins that follow both trees from their roots. -/
structure Derives (good : DeclId → DeclId → Data → Prop) (whole : Prop) (origins : List Origin)
    (forest : MergedForest) : Prop where
  nodes : forest.roots = Origin.nodes sides origins
  firsts : (origins.map Origin.ids).filterMap (·.1) ⊆ sides.first.roots
  seconds : (origins.map Origin.ids).filterMap (·.2) ⊆ sides.second.roots
  roots : whole → Siblings False sides.first.roots sides.second.roots
    (origins.map Origin.ids)
  derived : ∀ origin ∈ Origin.walkAll origins, origin.Derived sides good whole

variable {sides} in
/-- Of a merge of the whole trees the forest traces back to them. -/
theorem Derives.traces {akin : DeclId → DeclId → Prop} {whole : Prop} {origins : List Origin}
    {forest : MergedForest} (hderives : sides.Derives (sides.Settled akin) whole origins forest)
    (hwhole : whole) :
    sides.Traces (fun a _ common => common.SharedOf sides.first a) origins forest where
  nodes := hderives.nodes
  roots := hderives.roots hwhole
  sound origin horigin :=
    let hsound := (hderives.derived origin horigin).sound hwhole
    { hsound with good := fun a b common ha hb hcommon =>
        (hsound.good a b common ha hb hcommon).shared }

/-- A pairing that can be merged: its partners fit, and if the whole trees are merged, its
declarations can be reached, with enough levels left below that of the first side. -/
structure Apt (akin : DeclId → DeclId → Prop) (whole : Prop) (levels : Nat) (pairing : Pairing) :
    Prop where
  fits : ∀ a b first common second, pairing = .partners a b first common second →
    sides.Fits a b first second ∧ sides.Settled akin a b common
  first : whole → ∀ a, pairing.first? = some a → ∃ above, sides.first.Line a above ∧
    sides.first.size ≤ above.length + levels
  second : whole → ∀ b, pairing.second? = some b → sides.second.Reachable b

variable {sides} in
theorem Apt.reachable {akin : DeclId → DeclId → Prop} {whole : Prop} {levels : Nat}
    {pairing : Pairing} (hapt : sides.Apt akin whole levels pairing) (hwhole : whole) {a : DeclId}
    (ha : pairing.first? = some a) : sides.first.Reachable a := by
  obtain ⟨above, hline, -⟩ := hapt.first hwhole a ha
  exact Tree.reachable_iff_line.mpr ⟨above, hline⟩

variable {sides} in
/-- The pairings of a plan are apt when its siblings are. -/
theorem Apt.of_plan {akin : DeclId → DeclId → Prop} {whole : Prop} {levels : Nat}
    {as bs : List DeclId} {plan : List Pairing}
    (hplan : sides.Plans (sides.Settled akin) as bs plan)
    (has : whole → ∀ a ∈ as, ∃ above, sides.first.Line a above ∧
      sides.first.size ≤ above.length + levels)
    (hbs : whole → ∀ b ∈ bs, sides.second.Reachable b) {pairing : Pairing}
    (hpairing : pairing ∈ plan) : sides.Apt akin whole levels pairing where
  fits a b first common second heq :=
    ⟨hplan.fits a b first common second (heq ▸ hpairing),
      hplan.good a b first common second (heq ▸ hpairing)⟩
  first h a ha := has h a (hplan.firsts ▸ List.mem_filterMap.mpr ⟨pairing, hpairing, ha⟩)
  second h b hb :=
    hbs h b (hplan.seconds.mem_iff.mp (List.mem_filterMap.mpr ⟨pairing, hpairing, hb⟩))

end Sides

namespace Services

/-- Two declarations of the trees that match fit, with what the match says that they declare. -/
theorem Match.fits {sides : Sides} {akin : DeclId → DeclId → Prop} {a b : DeclId}
    {first common second : Data} (hmatch : Match sides akin a b first common second)
    (ha : ∃ declaration, sides.first.get? a = some declaration)
    (hb : ∃ declaration, sides.second.get? b = some declaration) : sides.Fits a b first second where
  first := by rw [hmatch.first, Tree.detached?_of_known ha]
  second := by rw [hmatch.second, Tree.detached?_of_known hb]
  kinds := hmatch.kinds

/-- What the search for the partner of a declaration ends with. -/
def Found (sides : Sides) (akin : DeclId → DeclId → Prop) (a : DeclId) (bs : List DeclId) :
    Except (List Mismatch) (Pairing × List DeclId) → Prop
  | .ok (pairing, left) => ∃ b first common second, pairing = .partners a b first common second ∧
    (b :: left).Perm bs ∧ left.Sublist bs ∧ sides.Fits a b first second ∧
    sides.Settled akin a b common
  | .error _ => True

/-- A declaration that was passed over is left. -/
private theorem Found.later {sides : Sides} {akin : DeclId → DeclId → Prop} {a b : DeclId}
    {bs left : List DeclId} {pairing : Pairing} (hfound : Found sides akin a bs (.ok (pairing, left))) :
    Found sides akin a (b :: bs) (.ok (pairing, b :: left)) := by
  obtain ⟨b', first, common, second, rfl, hperm, hleft, hgood⟩ := hfound
  refine ⟨b', first, common, second, rfl, ?_, hleft.cons_cons b, hgood⟩
  exact (List.Perm.swap b b' left).trans (hperm.cons b)

variable {n m : Type → Type} [Monad n] [LawfulMonad n] [Monad m] {services : Services n m}
  {sides : Sides} {inner : ProgramLogic n} {outer : ProgramLogic m} {total whole : Prop}
  {akin : DeclId → DeclId → Prop}

variable (hobeys : services.Obeys inner outer total) (hconsistent : sides.Consistent)
  (hverdict : ∀ a b, inner.Gives (services.verdict a b) fun verdict =>
    verdict.isEmpty = true → akin a b)
  (hwhole : whole → sides.first.Mergeable ∧ sides.second.Mergeable) (htotal : total → whole)

section Pairing

include hobeys hconsistent hverdict

/-- A declaration finds a partner that matches it among the siblings on the other side, or none. -/
private theorem findPartner_gives {a : DeclId} {bs : List DeclId}
    (ha : ∃ declaration, sides.first.get? a = some declaration)
    (hbs : ∀ b ∈ bs, ∃ declaration, sides.second.get? b = some declaration) :
    inner.Gives (services.findPartner sides a bs) (Found sides akin a bs) := by
  induction bs with
  | nil => exact .pure trivial
  | cons b bs ih =>
    obtain ⟨hb, hbs⟩ := List.forall_mem_cons.mp hbs
    refine .ite (fun _ => .bind (compare_gives hobeys hconsistent hverdict a b)
      fun outcome hmatched => ?_) fun _ => .bind (ih hbs) fun found hfound => ?_
    · cases outcome with
      | matched first common second =>
        have hmatch := hmatched _ _ _ rfl
        exact .pure ⟨b, first, common, second, rfl, .refl _, List.sublist_cons_self b bs,
          hmatch.fits ha hb, hmatch.shared, hmatch.passes⟩
      | mismatched mismatch =>
        refine .bind (ih hbs) fun found hfound => ?_
        cases found with
        | ok found => exact .pure (Found.later hfound)
        | error failures => exact .pure trivial
    · cases found with
      | ok found => exact .pure (Found.later hfound)
      | error failures => exact .pure trivial

/-- Siblings are paired by a plan, in which partners match. -/
theorem pairSiblings_gives {as bs : List DeclId}
    (has : ∀ a ∈ as, ∃ declaration, sides.first.get? a = some declaration)
    (hbs : ∀ b ∈ bs, ∃ declaration, sides.second.get? b = some declaration) :
    inner.Gives (services.pairSiblings sides as bs) fun paired =>
      sides.Plans (sides.Settled akin) as bs paired.1 := by
  induction as generalizing bs with
  | nil =>
    refine .pure ⟨⟨[], bs, rfl, rfl, List.Sublist.refl bs, .refl bs⟩, ?_, ?_⟩
    · simp
    · simp
  | cons a as ih =>
    obtain ⟨ha, has⟩ := List.forall_mem_cons.mp has
    refine .ite (fun _ => .bind (ih has hbs) fun paired hplan => .pure ?_) fun _ =>
      .bind (findPartner_gives hobeys hconsistent hverdict ha hbs) fun found hfound => ?_
    · refine hplan.prepend rfl (.refl bs) (.refl bs) ?_ ?_
      · rintro _ _ _ _ _ ⟨⟩
      · rintro _ _ _ _ _ ⟨⟩
    · cases found with
      | ok found =>
        obtain ⟨pairing, left⟩ := found
        obtain ⟨b, first, common, second, rfl, hperm, hleft, hfits, hgood⟩ := hfound
        refine .bind (ih has fun b hb => hbs b (hleft.subset hb)) fun paired hplan => .pure ?_
        refine hplan.prepend rfl hleft hperm ?_ ?_
        · rintro _ _ _ _ _ ⟨⟩
          exact hfits
        · rintro _ _ _ _ _ ⟨⟩
          exact hgood
      | error failures =>
        refine .bind (ih has hbs) fun paired hplan => .pure ?_
        refine hplan.prepend rfl (.refl bs) (.refl bs) ?_ ?_
        · rintro _ _ _ _ _ ⟨⟩
        · rintro _ _ _ _ _ ⟨⟩

end Pairing

variable (akin) in
/-- Nodes of the merge of two trees, with what they come from. -/
abbrev Stand (sides : Sides) (whole : Prop) (pairs : List (Option DeclId × Option DeclId))
    (merged : List MergedNode) : Prop :=
  Behind sides (Derived sides (sides.Settled akin) whole) pairs merged

/-- Nodes that are collected for a plan stand for what it pairs. -/
private theorem stand_of_collected {plan : List Pairing} {collected : List MergedNode × List Rejection}
    (hcollected : Collected (fun pairing merged =>
      Stand akin sides whole [(pairing.first?, pairing.second?)] [merged.1]) plan collected) :
    Stand akin sides whole (plan.map fun p => (p.first?, p.second?)) collected.1 := by
  induction hcollected with
  | nil => exact .nil
  | cons hmerged _ ih => exact hmerged.append ih

/-- What a declaration of an owned tree lists is known. -/
theorem known_of_owned {tree : Tree} (howned : tree.Owned) {id child : DeclId}
    (hchild : child ∈ tree.children id) : ∃ declaration, tree.get? child = some declaration := by
  obtain ⟨declaration, hget, -⟩ := Tree.container?_eq_some.mp (howned.listed id child hchild)
  exact ⟨declaration, hget⟩

section Alone

include hobeys hwhole htotal
omit [LawfulMonad n]

variable (akin) in
private theorem firstAlone_gives {a : DeclId} (ha : whole → sides.first.Reachable a) :
    outer.Gives (services.attempt (sides.first.single .first a)) fun node =>
      Stand akin sides whole [(some a, none)] [node] :=
  hobeys.attempt (fun _ hrun => Origin.single_first_behind hrun) fun h =>
    Tree.single_succeeds (hwhole (htotal h)).1.rooted .first (ha (htotal h))

variable (akin) in
private theorem secondAlone_gives {b : DeclId} (hb : whole → sides.second.Reachable b) :
    outer.Gives (services.attempt (sides.second.single .second b)) fun node =>
      Stand akin sides whole [(none, some b)] [node] :=
  hobeys.attempt (fun _ hrun => Origin.single_second_behind hrun) fun h =>
    Tree.single_succeeds (hwhole (htotal h)).2.rooted .second (hb (htotal h))

private theorem firstsAlone_gives {as : List DeclId}
    (has : whole → ∀ a ∈ as, sides.first.Reachable a) :
    outer.Gives (services.attempt (as.mapM fun a => sides.first.single .first a)) fun merged =>
      Stand akin sides whole (as.map (some ·, none)) merged :=
  hobeys.attempt (fun _ hrun => .mapM (some ·, none)
    (fun _ _ _ hnode => Origin.single_first_behind hnode) hrun) fun h =>
    Except.succeeds_mapM.mpr fun a ha =>
      Tree.single_succeeds (hwhole (htotal h)).1.rooted .first (has (htotal h) a ha)

private theorem secondsAlone_gives {bs : List DeclId}
    (hbs : whole → ∀ b ∈ bs, sides.second.Reachable b) :
    outer.Gives (services.attempt (bs.mapM fun b => sides.second.single .second b)) fun merged =>
      Stand akin sides whole (bs.map (none, some ·)) merged :=
  hobeys.attempt (fun _ hrun => .mapM (none, some ·)
    (fun _ _ _ hnode => Origin.single_second_behind hnode) hrun) fun h =>
    Except.succeeds_mapM.mpr fun b hb =>
      Tree.single_succeeds (hwhole (htotal h)).2.rooted .second (hbs (htotal h) b hb)

end Alone

include hobeys hconsistent hverdict hwhole htotal

/-- The parameters of two functions keep their order on both sides. -/
private theorem mergeParameters_gives {as bs : List DeclId}
    (has : ∀ a ∈ as, (∃ declaration, sides.first.get? a = some declaration) ∧
      (whole → sides.first.Reachable a ∧ sides.first.children a = []))
    (hbs : ∀ b ∈ bs, (∃ declaration, sides.second.get? b = some declaration) ∧
      (whole → sides.second.Reachable b ∧ sides.second.children b = [])) :
    outer.Gives (services.mergeParameters sides as bs) fun merged =>
      ∃ pairs, pairs.filterMap (·.1) = as ∧ pairs.filterMap (·.2) = bs ∧
        Stand akin sides whole pairs merged := by
  induction as generalizing bs with
  | nil =>
    cases bs with
    | nil =>
      have hnone : ∀ a ∈ ([] : List DeclId), sides.first.Reachable a := nofun
      exact (firstsAlone_gives hobeys hwhole htotal fun _ => hnone).mono
        fun merged hmerged => ⟨[], rfl, rfl, hmerged⟩
    | cons b bs =>
      refine (secondsAlone_gives hobeys hwhole htotal fun h b hb => ((hbs b hb).2 h).1).mono
        fun merged hmerged => ⟨_, ?_, ?_, hmerged⟩
      · simp
      · simp
  | cons a as ih =>
    cases bs with
    | nil =>
      refine (firstsAlone_gives hobeys hwhole htotal fun h a ha => ((has a ha).2 h).1).mono
        fun merged hmerged => ⟨_, ?_, ?_, hmerged⟩
      · simp
      · simp
    | cons b bs =>
      obtain ⟨⟨hknownA, hbareA⟩, has⟩ := List.forall_mem_cons.mp has
      obtain ⟨⟨hknownB, hbareB⟩, hbs⟩ := List.forall_mem_cons.mp hbs
      have hrest (pairs : List (Option DeclId × Option DeclId)) (merged : List MergedNode)
          (hpairsA : pairs.filterMap (·.1) = [a]) (hpairsB : pairs.filterMap (·.2) = [b])
          (hmerged : Stand akin sides whole pairs merged) :
          outer.Gives (do return merged ++ (← services.mergeParameters sides as bs)) fun all =>
            ∃ pairs, pairs.filterMap (·.1) = a :: as ∧ pairs.filterMap (·.2) = b :: bs ∧
              Stand akin sides whole pairs all := by
        refine .bind (ih has hbs) fun rest hrest => .pure ?_
        obtain ⟨others, hothersA, hothersB, hothers⟩ := hrest
        refine ⟨pairs ++ others, ?_, ?_, hmerged.append hothers⟩
        · rw [List.filterMap_append, hpairsA, hothersA, List.singleton_append]
        · rw [List.filterMap_append, hpairsB, hothersB, List.singleton_append]
      refine .bind (hobeys.lift (compare_gives hobeys hconsistent hverdict a b))
        fun outcome hmatched => ?_
      cases outcome with
      | matched first common second =>
        have hmatch := hmatched _ _ _ rfl
        have hnode : outer.Gives (pure [MergedNode.shared first common second []]) fun merged =>
            merged = [.shared first common second []] := .pure rfl
        refine .bind (hobeys.note a b) fun _ _ => .bind hnode ?_
        rintro _ rfl
        refine hrest [(some a, some b)] _ rfl rfl ?_
        refine Origin.shared_behind (hmatch.fits hknownA hknownB) ⟨hmatch.shared, hmatch.passes⟩ .nil
          (List.nil_subset _) (List.nil_subset _) fun h => ?_
        rw [(hbareA h).2, (hbareB h).2]
        exact .firstsAlone []
      | mismatched mismatch =>
        refine .bind (firstAlone_gives akin hobeys hwhole htotal fun h => (hbareA h).1)
          fun nodeA hA => ?_
        refine .bind (secondAlone_gives akin hobeys hwhole htotal fun h => (hbareB h).1)
          fun nodeB hB => ?_
        have hnodes : outer.Gives (pure [nodeA, nodeB]) fun merged => merged = [nodeA, nodeB] :=
          .pure rfl
        refine .bind hnodes ?_
        rintro _ rfl
        exact hrest _ _ rfl rfl (Behind.append hA hB)

/-- A pairing gives one node, which comes from what it pairs. -/
private theorem mergePaired_gives (hownedA : sides.first.Owned) (hownedB : sides.second.Owned)
    (levels : Nat) {pairing : Pairing} (hapt : sides.Apt akin whole levels pairing) :
    outer.Gives (services.mergePaired sides levels pairing) fun merged =>
      Stand akin sides whole [(pairing.first?, pairing.second?)] [merged.1] := by
  induction levels generalizing pairing with
  | zero =>
    cases pairing with
    | firstAlone a =>
      exact .bind (firstAlone_gives akin hobeys hwhole htotal fun h => hapt.reachable h rfl)
        fun node hnode => .pure hnode
    | secondAlone b =>
      exact .bind (secondAlone_gives akin hobeys hwhole htotal fun h => hapt.second h b rfl)
        fun node hnode => .pure hnode
    | partners a b first common second =>
      obtain ⟨hfits, hsettled⟩ := hapt.fits a b first common second rfl
      refine .bind (hobeys.note a b) fun _ _ => .pure ?_
      refine Origin.shared_behind hfits hsettled .nil (List.nil_subset _) (List.nil_subset _)
        fun h => ?_
      obtain ⟨above, hline, henough⟩ := hapt.first h a rfl
      have hshort := (hwhole h).1.rooted.line_length hline
      omega
  | succ levels ih =>
    cases pairing with
    | firstAlone a =>
      exact .bind (firstAlone_gives akin hobeys hwhole htotal fun h => hapt.reachable h rfl)
        fun node hnode => .pure hnode
    | secondAlone b =>
      exact .bind (secondAlone_gives akin hobeys hwhole htotal fun h => hapt.second h b rfl)
        fun node hnode => .pure hnode
    | partners a b first common second =>
      obtain ⟨hfits, hsettled⟩ := hapt.fits a b first common second rfl
      have hknownA (child : DeclId) (hchild : child ∈ sides.first.children a) :=
        known_of_owned hownedA hchild
      have hknownB (child : DeclId) (hchild : child ∈ sides.second.children b) :=
        known_of_owned hownedB hchild
      have hlineA (h : whole) : ∃ above, sides.first.Line a above ∧
          sides.first.size ≤ above.length + (levels + 1) := hapt.first h a rfl
      have hlineB (h : whole) : sides.second.Reachable b := hapt.second h b rfl
      refine .bind (hobeys.note a b) fun _ _ => ?_
      refine .bind (hobeys.lift (intersect_gives hverdict a b hsettled.shared)) fun left hleft => ?_
      have hgood : sides.Settled akin a b left := ⟨hleft, hsettled.passes⟩
      split
      · next hfunction =>
        refine .bind (mergeParameters_gives hobeys hconsistent hverdict hwhole htotal
          (fun child hchild => ⟨hknownA child hchild, fun h => ⟨.child (hapt.reachable h rfl) hchild, ?_⟩⟩)
          fun child hchild => ⟨hknownB child hchild, fun h => ⟨.child (hlineB h) hchild, ?_⟩⟩)
          fun merged hmerged => .pure ?_
        · exact (hwhole h).1.children_parameter hfunction hchild
        · exact (hwhole h).2.children_parameter (hfits.kinds ▸ hfunction) hchild
        · obtain ⟨pairs, hpairsA, hpairsB, hstand⟩ := hmerged
          refine Origin.shared_behind hfits hgood hstand (hpairsA ▸ List.Subset.refl _)
            (hpairsB ▸ List.Subset.refl _) fun _ => ?_
          exact .of_parameters hfunction hpairsA hpairsB
      · next hother =>
        refine .bind (hobeys.lift (pairSiblings_gives hobeys hconsistent hverdict hknownA hknownB))
          fun paired hplan => ?_
        obtain ⟨plan, failures⟩ := paired
        have hchildA (h : whole) (child : DeclId) (hchild : child ∈ sides.first.children a) :
            ∃ above, sides.first.Line child above ∧ sides.first.size ≤ above.length + levels := by
          obtain ⟨above, hline, henough⟩ := hapt.first h a rfl
          exact ⟨_, .child hline hchild, by simp only [List.length_cons]; omega⟩
        have hbelow (below : Pairing) (hmem : below ∈ plan) :=
          ih (.of_plan hplan hchildA (fun h child => .child (hapt.second h b rfl)) hmem)
        have hsiblings : Siblings False _ _ _ := .of_plan hplan id
        refine .bind (.ite (fun _ => hobeys.apart hbelow) fun _ => collect_gives hbelow)
          fun collected hcollected => .pure ?_
        refine Origin.shared_behind hfits hgood (stand_of_collected hcollected)
          (hsiblings.firsts ▸ List.Subset.refl _) hsiblings.seconds.subset fun _ => ?_
        exact .of_plan hplan hother

/-- Whatever the trees are, a merge that succeeds gives a forest with origins that follow them, and
the partners of a shared node match. Of trees that can be merged as a whole nothing gets lost, and
in a total logic they are merged. -/
theorem merge_gives (hrootsA : ∀ root ∈ sides.first.roots, ∃ found, sides.first.get? root = some found)
    (hrootsB : ∀ root ∈ sides.second.roots, ∃ found, sides.second.get? root = some found)
    (hcheck : total → checkMergeable sides.first .first = .ok () ∧
      checkMergeable sides.second .second = .ok ()) :
    outer.Gives (services.merge sides) fun result =>
      ∃ origins, sides.Derives (sides.Settled akin) whole origins result.forest := by
  refine .bind (hobeys.attempt (fun _ h => h) fun h => ⟨(), (hcheck h).1⟩) fun _ hcheckA => ?_
  refine .bind (hobeys.attempt (fun _ h => h) fun h => ⟨(), (hcheck h).2⟩) fun _ hcheckB => ?_
  obtain ⟨hownedA, -⟩ := checkMergeable_iff.mp hcheckA
  obtain ⟨hownedB, -⟩ := checkMergeable_iff.mp hcheckB
  refine .bind (hobeys.lift (pairSiblings_gives hobeys hconsistent hverdict hrootsA hrootsB))
    fun paired hplan => ?_
  obtain ⟨plan, failures⟩ := paired
  have hbelow (below : Pairing) (hmem : below ∈ plan) :=
    mergePaired_gives hobeys hconsistent hverdict hwhole htotal hownedA hownedB sides.first.size
      (.of_plan hplan (fun _ root hroot => ⟨[], .root hroot, Nat.le_add_left _ _⟩)
        (fun _ root => .root) hmem)
  have hsiblings : Siblings False _ _ _ := .of_plan hplan id
  refine .bind (collect_gives hbelow) fun collected hcollected => .pure ?_
  obtain ⟨origins, hnodes, hids, hderived⟩ := stand_of_collected hcollected
  exact ⟨origins, hnodes, hids ▸ hsiblings.firsts ▸ List.Subset.refl _,
    hids ▸ hsiblings.seconds.subset, fun _ => hids ▸ hsiblings, hderived⟩

end Services

namespace Sides

/-- Two trees that can be merged as a whole. -/
structure Mergeable (sides : Sides) : Prop where
  consistent : sides.Consistent
  first : sides.first.Mergeable
  second : sides.second.Mergeable
  checkFirst : checkMergeable sides.first .first = .ok ()
  checkSecond : checkMergeable sides.second .second = .ok ()

variable {sides : Sides}

/-- Trees whose links and index fit together can be merged as a whole. -/
theorem mergeable_of_regular (hconsistent : sides.Consistent) (hfirst : sides.first.Regular)
    (hsecond : sides.second.Regular) : sides.Mergeable :=
  ⟨hconsistent, hfirst.mergeable, hsecond.mergeable, hfirst.checkMergeable .first,
    hsecond.checkMergeable .second⟩

namespace Mergeable

variable (hmergeable : sides.Mergeable)
include hmergeable

/-- Whatever does the services of a merge, two trees that can be merged are merged as a whole. -/
private theorem merge_whole {n m : Type → Type} [Monad n] [LawfulMonad n] [Monad m]
    {services : Services n m} {inner : ProgramLogic n} {outer : ProgramLogic m}
    (hobeys : services.Obeys inner outer True)
    (hverdict : ∀ a b, inner.Runs (services.verdict a b)) :
    outer.Gives (services.merge sides) fun result => ∃ origins,
      sides.Derives (sides.Settled fun _ _ => True) True origins result.forest :=
  Services.merge_gives hobeys hmergeable.consistent
    (fun a b => (hverdict a b).mono fun _ _ _ => trivial)
    (fun _ => ⟨hmergeable.first, hmergeable.second⟩) id
    (fun _ hroot => hmergeable.first.rooted.line_known (.root hroot))
    (fun _ hroot => hmergeable.second.rooted.line_known (.root hroot))
    fun _ => ⟨hmergeable.checkFirst, hmergeable.checkSecond⟩

private theorem session_whole (cache : Cache) :
    (∀ result session, sides.merge cache = .ok (result, session) → ∃ origins,
      sides.Derives (sides.Settled fun _ _ => True) True origins result.forest) ∧
      ∃ result session, sides.merge cache = .ok (result, session) := by
  have hwhole := hmergeable.merge_whole (sides.services_obeys (fun _ => True) True) Session.verdict_runs
  have hinv : (fun _ => True) cache := trivial
  obtain ⟨hgives, hends⟩ := merge_of_gives hwhole hinv
  exact ⟨fun result session hmerge => (hgives result session hmerge).2, hends trivial⟩

private theorem workers_whole {cache after : Cache} {ended : TaskResult}
    (hschedule : Task.Schedule (cache, sides.mergeTask) (after, .done ended)) :
    (∀ nodes rejections, ended.outcome = .ok (nodes, rejections) → ∃ origins,
      sides.Derives (sides.Settled fun _ _ => True) True origins ⟨nodes⟩) ∧
      ∃ nodes rejections, ended.outcome = .ok (nodes, rejections) := by
  have hwhole := hmergeable.merge_whole (sides.tasks_obeys (fun _ => True) True) TaskM.verdict_runs
  obtain ⟨-, hends⟩ := mergeTask_of_gives hwhole trivial hschedule
  obtain ⟨hgives, houtcome⟩ := hends ended rfl
  exact ⟨hgives, houtcome trivial⟩

/-- Such trees are merged, in one session as by workers in any order. -/
theorem merge_succeeds (cache : Cache) : sides.MergeSucceeds cache where
  session := (hmergeable.session_whole cache).2
  ends := Task.wellFounded_step.apply _
  workers after task hschedule := by
    obtain ⟨⟨outcome, limitHits⟩, rfl⟩ | hnext := Task.exists_step after task
    · obtain ⟨-, nodes, rejections, rfl⟩ := hmergeable.workers_whole hschedule
      exact .inr ⟨nodes, rejections, limitHits, rfl⟩
    · exact .inl hnext

/-- The forest that a merge of them gives traces back to the trees. -/
theorem traces {cache after : Cache} {result : MergeResult} {limitHits : Nat}
    (hmerges : sides.MergesTo cache result after limitHits) : ∃ origins,
      sides.Traces (fun a _ common => common.SharedOf sides.first a) origins result.forest := by
  obtain ⟨origins, hderives⟩ : ∃ origins,
      sides.Derives (sides.Settled fun _ _ => True) True origins result.forest := by
    cases hmerges with
    | session hmerge => exact (hmergeable.session_whole cache).1 _ _ hmerge
    | workers hschedule => exact (hmergeable.workers_whole hschedule).1 _ _ rfl
  exact ⟨origins, hderives.traces trivial⟩

end Mergeable

end Sides

end Concord
