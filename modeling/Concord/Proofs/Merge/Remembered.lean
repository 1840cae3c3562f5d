import Concord.Proofs.Comparison.Filled
import Concord.Proofs.Merge.Derivation
import Concord.Proofs.Merge.Extracts
import Concord.Proofs.Merge.Pairs

namespace Concord

open Memory (akin)
open Origin (Behind ids)
open ProgramLogic (Learns Repeats)

/-- Whether neither of two declarations is private. The parameters of two functions were judged when
the functions were compared. They are compared once more when the functions are merged, and only
this second comparison asks whether they are private. -/
def Sides.bothVisible (sides : Sides) (a b : DeclId) : Bool :=
  !(sides.first.declaration a).data.visibility.isPrivate &&
    !(sides.second.declaration b).data.visibility.isPrivate

namespace Sides

variable {sides : Sides} {R : DeclId → DeclId → Prop} {a b : DeclId}

theorem AreValues.kinds (hvalues : sides.AreValues R a b) :
    (sides.first.declaration a).kind = .value ∧ (sides.second.declaration b).kind = .value := by
  obtain ⟨infoA, infoB, hA, hB, -⟩ := hvalues
  exact ⟨congrArg Payload.kind hA, congrArg Payload.kind hB⟩

/-- Values are no members of interfaces. -/
private theorem abstract_of_value {tree : Tree} {id : DeclId}
    (hkind : (tree.declaration id).kind = .value) : tree.isConcreteInterfaceMember id = false :=
  Tree.not_concrete_of_kind (hkind ▸ nofun) (hkind ▸ nofun)

/-- Values that agree match if both are visible. -/
theorem AreValues.matches (hvalues : sides.AreValues R a b)
    (hvisible : sides.bothVisible a b = true) : sides.Matches R a b := by
  obtain ⟨hkindA, hkindB⟩ := hvalues.kinds
  obtain ⟨infoA, infoB, hA, hB, hagree⟩ := hvalues
  refine ⟨hkindA.trans hkindB.symm, ?_, ⟨abstract_of_value hkindA, abstract_of_value hkindB⟩, ?_⟩
  · simpa [bothVisible] using hvisible
  · simp only [KindMatches, hA, hB]
    exact hagree

/-- Two functions that match have as many parameters, which agree one by one. -/
theorem Matches.parameters (hmatches : sides.Matches R a b)
    (hfunction : (sides.first.declaration a).kind = .function) :
    List.Forall₂ (sides.AreValues R) (sides.first.children a) (sides.second.children b) := by
  obtain ⟨infoA, hA⟩ : ∃ infoA, (sides.first.declaration a).payload = .function infoA :=
    Payload.ofKind hfunction
  obtain ⟨infoB, hB⟩ : ∃ infoB, (sides.second.declaration b).payload = .function infoB :=
    Payload.ofKind (hmatches.kinds.symm.trans hfunction)
  have hkind := hmatches.kind
  simp only [KindMatches, hA, hB] at hkind
  exact hkind.parameters

end Sides

namespace Services

variable {n m : Type → Type} [Monad n] [LawfulMonad n] [Monad m] {services : Services n m}
  {sides : Sides} {inner : ProgramLogic n} {outer : ProgramLogic m}

section Values

variable (hfollows : services.Follows inner outer)
include hfollows

omit [LawfulMonad n] in
private theorem shareable_repeats {known : Cache} {a b : DeclId} (hyes : known.SaysYes a b) :
    inner.Repeats known (services.shareable a b) true :=
  .bind (hfollows.repeats hyes) (.pure true)

variable {a b : DeclId} {known : Cache} (hvalues : sides.AreValues known.SaysYes a b)
include hvalues

/-- Values that are known to agree fail no rule if both are visible. -/
private theorem failuresOf_repeats (hvisible : sides.bothVisible a b = true) :
    inner.Repeats known (services.failuresOf sides a b) .none := by
  have hmatches := hvalues.matches hvisible
  obtain ⟨infoA, infoB, hA, hB, htypes, hvarargs⟩ := hvalues
  have hkinds : ((sides.first.declaration a).data.kind != (sides.second.declaration b).data.kind) =
      false := bne_eq_false_iff_eq.mpr hmatches.kinds
  have hA : (sides.first.declaration a).data.payload = .value infoA := hA
  have hB : (sides.second.declaration b).data.payload = .value infoB := hB
  have hchecked := Repeats.check (fun _ _ => shareable_repeats hfollows)
    (typesAgree_isQuestions sides infoA.type infoB.type) htypes
  simp only [failuresOf, valueFailures, hkinds, hmatches.visible, hmatches.abstract, hA, hB,
    hvarargs, beq_self_eq_true]
  exact .bind hchecked (.pure _)

/-- Values that are known to agree match exactly if both are visible. -/
theorem compare_values (hdistinct : sides.same = false) :
    inner.Learns known (services.compare sides a b) fun outcome cache =>
      outcome.isMatched = sides.bothVisible a b ∧ ∀ first common second,
        outcome = .matched first common second →
          sides.Compared cache.SaysYes a b first common second := by
  cases hvisible : sides.bothVisible a b with
  | false =>
    refine (compare_learns hfollows hdistinct a b known).mono fun outcome cache _ hmatched => ?_
    refine ⟨?_, hmatched⟩
    cases outcome with
    | matched first common second =>
      obtain ⟨hopenA, hopenB⟩ := (hmatched _ _ _ rfl).agree.visible
      rw [Sides.bothVisible, hopenA, hopenB] at hvisible
      cases hvisible
    | mismatched mismatch => rfl
  | true =>
    have hrepeats := hfollows.rewatched (failuresOf_repeats hfollows hvalues hvisible)
    have hmatches := hvalues.matches hvisible
    refine .ite (fun hsame => ?_) fun _ => .bind hrepeats.learns ?_
    · rw [hdistinct] at hsame
      cases hsame
    · rintro _ cache hgrown rfl
      refine (matchedPayloads_learns hfollows (hmatches.mono (.stays hgrown))).mono ?_
      rintro _ cache' - ⟨first, common, second, rfl, hcompared⟩
      refine ⟨rfl, ?_⟩
      rintro _ _ _ ⟨⟩
      exact hcompared

end Values

end Services

/-- What is known of an origin when a relation says which classifiers match: two declarations that
became one match, and below two functions their parameters are paired by their places. -/
inductive Origin.Agreed (sides : Sides) (R : DeclId → DeclId → Prop) : Origin → Prop
  | first (a : DeclId) (children : List Origin) : Agreed sides R (.mk (some a) none none children)
  | second (b : DeclId) (children : List Origin) : Agreed sides R (.mk none (some b) none children)
  | shared {a b : DeclId} {common : Data} {children : List Origin} (hmatches : sides.Matches R a b)
    (hshared : sides.SharedFrom R a b common)
    (hparameters : (sides.first.declaration a).kind = .function → children.map ids =
      pairByPlace sides.bothVisible (sides.first.children a) (sides.second.children b)) :
    Agreed sides R (.mk (some a) (some b) (some common) children)

theorem Origin.Agreed.mono {sides : Sides} {R S : DeclId → DeclId → Prop}
    (himp : ∀ a b, R a b → S a b) {origin : Origin} (horigin : origin.Agreed sides R) :
    origin.Agreed sides S := by
  cases horigin with
  | first a children => exact .first a children
  | second b children => exact .second b children
  | shared hmatches hshared hparameters =>
    exact .shared (hmatches.mono himp) (hshared.mono himp) hparameters

/-- Nodes of a merge, where the cache says yes to all that made them. -/
abbrev Cache.Remembers (cache : Cache) (sides : Sides)
    (pairs : List (Option DeclId × Option DeclId)) (merged : List MergedNode) : Prop :=
  Behind sides (Origin.Agreed sides cache.SaysYes) pairs merged

namespace Services

variable {sides : Sides}

theorem remembers_mono {known cache : Cache} (hgrown : known.Grown cache)
    {pairs : List (Option DeclId × Option DeclId)} {merged : List MergedNode}
    (hmerged : known.Remembers sides pairs merged) :
    cache.Remembers sides pairs merged :=
  hmerged.mono fun _ => .mono (.stays hgrown)

private theorem node_stays (pairing : Pairing) (merged : Merged) {known cache : Cache}
    (hgrown : known.Grown cache)
    (hmerged : known.Remembers sides [(pairing.first?, pairing.second?)] [merged.1]) :
    cache.Remembers sides [(pairing.first?, pairing.second?)] [merged.1] :=
  remembers_mono hgrown hmerged

private theorem first_remembered {a : DeclId} {node : MergedNode} (cache : Cache)
    (hrun : sides.first.single .first a = .ok node) :
    cache.Remembers sides [(some a, none)] [node] :=
  .first_alone (fun _ _ _ _ => trivial) (fun _ _ _ _ => .first _ _)
    (show (fun _ => True) a from trivial) hrun

private theorem second_remembered {b : DeclId} {node : MergedNode} (cache : Cache)
    (hrun : sides.second.single .second b = .ok node) :
    cache.Remembers sides [(none, some b)] [node] :=
  .second_alone (fun _ _ _ _ => trivial) (fun _ _ _ _ => .second _ _)
    (show (fun _ => True) b from trivial) hrun

private theorem shared_remembered {cache : Cache} {a b : DeclId} {first common second left : Data}
    {pairs : List (Option DeclId × Option DeclId)} {merged : List MergedNode}
    (ha : ∃ declaration, sides.first.get? a = some declaration)
    (hb : ∃ declaration, sides.second.get? b = some declaration)
    (hcompared : sides.Compared cache.SaysYes a b first common second)
    (hleft : sides.SharedFrom cache.SaysYes a b left)
    (hbelow : cache.Remembers sides pairs merged)
    (hpairs : (sides.first.declaration a).kind = .function →
      pairs = pairByPlace sides.bothVisible (sides.first.children a) (sides.second.children b)) :
    cache.Remembers sides [(some a, some b)] [.shared first left second merged] := by
  refine hbelow.single (some left) ?_ fun children hids _ =>
    .shared hcompared.agree hleft fun hfunction => hids.trans (hpairs hfunction)
  rw [Option.bind_some, Option.bind_some, Tree.detached?_of_known ha, Tree.detached?_of_known hb,
    hcompared.first, hcompared.second]

/-- Nodes that are collected for a plan stand for what it pairs. -/
private theorem remembers_collected {plan : List Pairing} {cache : Cache}
    {collected : List MergedNode × List Rejection}
    (hcollected : Collected (fun pairing merged =>
      cache.Remembers sides [(pairing.first?, pairing.second?)] [merged.1]) plan collected) :
    cache.Remembers sides (plan.map fun p => (p.first?, p.second?)) collected.1 := by
  induction hcollected with
  | nil => exact .nil
  | cons hmerged _ ih => exact hmerged.append ih

/-- A pairing of siblings, of which partners were compared and match. -/
inductive Partnered (sides : Sides) (cache : Cache) (as bs : List DeclId) : Pairing → Prop
  | partners {a b : DeclId} {first common second : Data} (ha : a ∈ as) (hb : b ∈ bs)
    (hcompared : sides.Compared cache.SaysYes a b first common second) :
    Partnered sides cache as bs (.partners a b first common second)
  | firstAlone {a : DeclId} (ha : a ∈ as) : Partnered sides cache as bs (.firstAlone a)
  | secondAlone {b : DeclId} (hb : b ∈ bs) : Partnered sides cache as bs (.secondAlone b)

private theorem Partnered.mono {known cache : Cache} (hgrown : known.Grown cache)
    {as bs as' bs' : List DeclId} (has : as ⊆ as') (hbs : bs ⊆ bs') {pairing : Pairing}
    (hpairing : Partnered sides known as bs pairing) : Partnered sides cache as' bs' pairing := by
  cases hpairing with
  | partners ha hb hcompared =>
    exact .partners (has ha) (hbs hb) (hcompared.mono (.stays hgrown))
  | firstAlone ha => exact .firstAlone (has ha)
  | secondAlone hb => exact .secondAlone (hbs hb)

variable {n m : Type → Type} [Monad n] [LawfulMonad n] [Monad m] {services : Services n m}
  {inner : ProgramLogic n} {outer : ProgramLogic m}
  (hfollows : services.Follows inner outer) (hdistinct : sides.same = false)
include hfollows hdistinct

section Pairing

/-- A declaration finds its partner among the siblings on the other side. -/
private theorem findPartner_learns (a : DeclId) (bs : List DeclId) (known : Cache) :
    inner.Learns known (services.findPartner sides a bs) fun found cache => ∀ pairing left,
      found = .ok (pairing, left) → Partnered sides cache [a] bs pairing ∧ left ⊆ bs := by
  have hlater {b : DeclId} {bs : List DeclId} {known cache : Cache} (hgrown : known.Grown cache)
      {found : Except (List Mismatch) (Pairing × List DeclId)} {pairing : Pairing}
      {left : List DeclId}
      (hfound : ∀ pairing left, found = .ok (pairing, left) →
        Partnered sides known [a] bs pairing ∧ left ⊆ bs)
      (heq : found = .ok (pairing, left)) :
      Partnered sides cache [a] (b :: bs) pairing ∧ b :: left ⊆ b :: bs := by
    obtain ⟨hpairing, hleft⟩ := hfound pairing left heq
    refine ⟨hpairing.mono hgrown (List.Subset.refl _) (List.subset_cons_self b bs), ?_⟩
    exact List.cons_subset_cons b hleft
  induction bs generalizing known with
  | nil => exact .pure fun _ _ _ _ heq => by cases heq
  | cons b bs ih =>
    refine .ite (fun _ => .bind (compare_learns hfollows hdistinct a b known)
      fun outcome cache _ hmatched => ?_) fun _ => .bind (ih known) fun found cache _ hfound => ?_
    · cases outcome with
      | matched first common second =>
        refine .pure fun cache' hgrown => ?_
        rintro _ _ ⟨⟩
        refine ⟨.partners List.mem_cons_self List.mem_cons_self ?_, List.subset_cons_self b bs⟩
        exact (hmatched first common second rfl).mono (.stays hgrown)
      | mismatched mismatch =>
        refine .bind (ih cache) fun found cache' _ hfound => ?_
        cases found with
        | error failures => exact .pure fun _ _ _ _ heq => by cases heq
        | ok found =>
          refine .pure fun cache'' hgrown => ?_
          rintro _ _ ⟨⟩
          exact hlater hgrown hfound rfl
    · cases found with
      | error failures => exact .pure fun _ _ _ _ heq => by cases heq
      | ok found =>
        refine .pure fun cache'' hgrown => ?_
        rintro _ _ ⟨⟩
        exact hlater hgrown hfound rfl

/-- Siblings are paired with partners that match. -/
private theorem pairSiblings_learns (as bs : List DeclId) (known : Cache) :
    inner.Learns known (services.pairSiblings sides as bs) fun paired cache =>
      ∀ pairing ∈ paired.1, Partnered sides cache as bs pairing := by
  induction as generalizing bs known with
  | nil =>
    refine .pure fun cache _ pairing hpairing => ?_
    obtain ⟨b, hb, rfl⟩ := List.mem_map.mp hpairing
    exact .secondAlone hb
  | cons a as ih =>
    have hrest {known cache : Cache} (hgrown : known.Grown cache) {left : List DeclId}
        (hleft : left ⊆ bs) {plan : List Pairing} {pairing : Pairing}
        (hplan : ∀ pairing ∈ plan, Partnered sides known as left pairing)
        (hpairing : Partnered sides cache (a :: as) bs pairing) :
        ∀ other ∈ pairing :: plan, Partnered sides cache (a :: as) bs other :=
      List.forall_mem_cons.mpr ⟨hpairing, fun other hother =>
        (hplan other hother).mono hgrown (List.subset_cons_self a as) hleft⟩
    refine .ite (fun _ => .bind (ih bs known) fun paired cache _ hplan => .pure fun _ hgrown => ?_)
      fun _ => .bind (findPartner_learns hfollows hdistinct a bs known) fun found cache _ hfound => ?_
    · exact hrest hgrown (List.Subset.refl bs) hplan (.firstAlone List.mem_cons_self)
    · cases found with
      | ok found =>
        obtain ⟨pairing, left⟩ := found
        obtain ⟨hpairing, hleft⟩ := hfound pairing left rfl
        refine .bind (ih left cache) fun paired cache' hgrown hplan => .pure fun _ hgrown' => ?_
        refine hrest hgrown' hleft hplan (hpairing.mono (hgrown.trans hgrown') ?_ (List.Subset.refl bs))
        exact List.cons_subset_cons a (List.nil_subset as)
      | error failures =>
        refine .bind (ih bs cache) fun paired cache' _ hplan => .pure fun _ hgrown => ?_
        exact hrest hgrown (List.Subset.refl bs) hplan (.firstAlone List.mem_cons_self)

end Pairing

/-- The parameters of two functions that match stand as they are paired by their places. -/
private theorem mergeParameters_learns {as bs : List DeclId} {known : Cache}
    (hvalues : List.Forall₂ (sides.AreValues known.SaysYes) as bs)
    (has : ∀ a ∈ as, ∃ declaration, sides.first.get? a = some declaration)
    (hbs : ∀ b ∈ bs, ∃ declaration, sides.second.get? b = some declaration) :
    outer.Learns known (services.mergeParameters sides as bs) fun merged cache =>
      cache.Remembers sides (pairByPlace sides.bothVisible as bs) merged := by
  induction as generalizing bs known with
  | nil =>
    cases hvalues
    refine hfollows.attempt fun merged hrun cache _ => ?_
    cases hrun
    exact .nil
  | cons a as ih =>
    cases hvalues with
    | @cons _ b _ bs hone hothers =>
    obtain ⟨ha, has⟩ := List.forall_mem_cons.mp has
    obtain ⟨hb, hbs⟩ := List.forall_mem_cons.mp hbs
    have hrest {pairs : List (Option DeclId × Option DeclId)} {merged : List MergedNode}
        {cache : Cache} (hgrown : known.Grown cache)
        (hpairs : pairs = if sides.bothVisible a b then [(some a, some b)] else
          [(some a, none), (none, some b)])
        (hmerged : cache.Remembers sides pairs merged) :
        outer.Learns cache (do return merged ++ (← services.mergeParameters sides as bs))
          fun all cache =>
            cache.Remembers sides (pairByPlace sides.bothVisible (a :: as) (b :: bs)) all := by
      refine .bind (ih (hothers.imp fun _ _ h => h.mono (.stays hgrown)) has hbs)
        fun rest cache' hgrown' hrest => .pure fun cache'' hgrown'' => ?_
      rw [pairByPlace, ← hpairs]
      refine .append ?_ (remembers_mono hgrown'' hrest)
      exact remembers_mono (hgrown'.trans hgrown'') hmerged
    refine .bind (hfollows.lift (compare_values hfollows hone hdistinct))
      fun outcome cache hgrown houtcome => ?_
    obtain ⟨hvisible, hmatched⟩ := houtcome
    cases outcome with
    | matched first common second =>
      have hcompared := hmatched first common second rfl
      have hvalue := hone.kinds.1
      have hshared : sides.SharedFrom cache.SaysYes a b common := by
        cases hcompared.shared with
        | classes hclass _ => cases hvalue.symm.trans hclass
        | others _ hshared => exact hshared
      have hstand : cache.Remembers sides [(some a, some b)]
          [.shared first common second []] :=
        shared_remembered ha hb hcompared hshared .nil fun hfunction => by
          cases hvalue.symm.trans hfunction
      have hnode (known : Cache) : outer.Learns known (pure [MergedNode.shared first common second []])
          fun merged _ => merged = [.shared first common second []] := .pure fun _ _ => rfl
      refine .bind (hfollows.note cache a b) fun _ cache₁ hgrown₁ _ => .bind (hnode cache₁) ?_
      rintro _ cache₂ hgrown₂ rfl
      refine hrest (hgrown.trans (hgrown₁.trans hgrown₂)) ?_
        (remembers_mono (hgrown₁.trans hgrown₂) hstand)
      rw [← hvisible]
      rfl
    | mismatched mismatch =>
      refine .bind (hfollows.attempt fun nodeA hrunA cache _ => first_remembered cache hrunA)
        fun nodeA cache₁ hgrown₁ hA => ?_
      refine .bind (hfollows.attempt fun nodeB hrunB cache _ => second_remembered cache hrunB)
        fun nodeB cache₂ hgrown₂ hB => ?_
      have hnodes : outer.Learns cache₂ (pure [nodeA, nodeB]) fun merged _ =>
          merged = [nodeA, nodeB] := .pure fun _ _ => rfl
      refine .bind hnodes ?_
      rintro _ cache₃ hgrown₃ rfl
      refine hrest (hgrown.trans (hgrown₁.trans (hgrown₂.trans hgrown₃))) ?_
        (.append (remembers_mono (hgrown₂.trans hgrown₃) hA) (remembers_mono hgrown₃ hB))
      rw [← hvisible]
      rfl

variable (hfirst : sides.first.Mergeable)
include hfirst

/-- A pairing gives one node, of which it is remembered where it comes from. -/
private theorem mergePaired_learns (hownedB : sides.second.Owned)
    (levels : Nat) {as bs : List DeclId} {pairing : Pairing} {known : Cache}
    (hpairing : Partnered sides known as bs pairing)
    (has : ∀ a ∈ as, ∃ above, sides.first.Line a above ∧
      sides.first.size ≤ above.length + levels)
    (hbs : ∀ b ∈ bs, ∃ declaration, sides.second.get? b = some declaration) :
    outer.Learns known (services.mergePaired sides levels pairing) fun merged cache =>
      cache.Remembers sides [(pairing.first?, pairing.second?)] [merged.1] := by
  have hfirstAlone (a : DeclId) (known : Cache) : outer.Learns known
      (do return ((← services.attempt (sides.first.single .first a)), ([] : List Rejection)))
      fun merged cache => cache.Remembers sides [(some a, none)] [merged.1] :=
    .bind (hfollows.attempt fun node hrun cache _ => first_remembered cache hrun)
      fun node cache _ hnode => .pure fun _ hgrown => remembers_mono hgrown hnode
  have hsecondAlone (b : DeclId) (known : Cache) : outer.Learns known
      (do return ((← services.attempt (sides.second.single .second b)), ([] : List Rejection)))
      fun merged cache => cache.Remembers sides [(none, some b)] [merged.1] :=
    .bind (hfollows.attempt fun node hrun cache _ => second_remembered cache hrun)
      fun node cache _ hnode => .pure fun _ hgrown => remembers_mono hgrown hnode
  induction levels generalizing as bs pairing known with
  | zero =>
    cases hpairing with
    | firstAlone ha => exact hfirstAlone _ known
    | secondAlone hb => exact hsecondAlone _ known
    | partners ha hb hcompared =>
      obtain ⟨above, hline, henough⟩ := has _ ha
      have hshort := hfirst.rooted.line_length hline
      omega
  | succ levels ih =>
    cases hpairing with
    | firstAlone ha => exact hfirstAlone _ known
    | secondAlone hb => exact hsecondAlone _ known
    | @partners a b first common second ha hb hcompared =>
      obtain ⟨above, hline, henough⟩ := has a ha
      have hknownA := hfirst.rooted.line_known hline
      have hknownB := hbs b hb
      refine .bind (hfollows.note known a b) fun _ cache₁ hgrown₁ _ => ?_
      have hcompared₁ : sides.Compared cache₁.SaysYes a b first common second :=
        hcompared.mono (.stays hgrown₁)
      refine .bind (hfollows.lift (intersect_learns hfollows hcompared₁))
        fun left cache₂ hgrown₂ hleft => ?_
      have hcompared₂ : sides.Compared cache₂.SaysYes a b first common second :=
        hcompared₁.mono (.stays hgrown₂)
      have hbelowB (child : DeclId) (hchild : child ∈ sides.second.children b) :=
        known_of_owned hownedB hchild
      split
      · next hfunction =>
        refine .bind (mergeParameters_learns hfollows hdistinct
          (hcompared₂.agree.parameters hfunction)
          (fun child hchild => hfirst.rooted.line_known (.child hline hchild)) hbelowB)
          fun merged cache₃ hgrown₃ hmerged => .pure fun cache₄ hgrown₄ => ?_
        have hgrown := hgrown₃.trans hgrown₄
        exact shared_remembered hknownA hknownB (hcompared₂.mono (.stays hgrown))
          (hleft.mono (.stays hgrown)) (remembers_mono hgrown₄ hmerged) fun _ => rfl
      · next hother =>
        refine .bind (hfollows.lift (pairSiblings_learns hfollows hdistinct _ _ cache₂))
          fun paired cache₃ hgrown₃ hplan => ?_
        obtain ⟨plan, failures⟩ := paired
        have hbelow (below : Pairing) (hmem : below ∈ plan) :=
          ih (hplan below hmem) (fun child hchild => ⟨_, .child hline hchild, by
            simp only [List.length_cons]; omega⟩) hbelowB
        refine .bind (.ite (fun _ => hfollows.apart node_stays hbelow) fun _ =>
          collect_learns node_stays hbelow) fun collected cache₄ hgrown₄ hcollected =>
          .pure fun cache₅ hgrown₅ => ?_
        have hgrown := hgrown₃.trans (hgrown₄.trans hgrown₅)
        exact shared_remembered hknownA hknownB (hcompared₂.mono (.stays hgrown))
          (hleft.mono (.stays hgrown)) (remembers_mono hgrown₅ (remembers_collected hcollected))
          fun hfunction => absurd hfunction hother

/-- Of all nodes of a merge it is remembered at its end where they come from. -/
theorem merge_learns (hrootsB : ∀ root ∈ sides.second.roots, ∃ found,
    sides.second.get? root = some found) (known : Cache) :
    outer.Learns known (services.merge sides) fun result cache =>
      ∃ pairs, cache.Remembers sides pairs result.forest.roots := by
  refine .bind (hfollows.attempt fun _ h _ _ => h) fun _ cache₁ _ _ => ?_
  refine .bind (hfollows.attempt fun _ h _ _ => h) fun _ cache₂ _ hcheckB => ?_
  obtain ⟨hownedB, -⟩ := checkMergeable_iff.mp hcheckB
  refine .bind (hfollows.lift (pairSiblings_learns hfollows hdistinct _ _ cache₂))
    fun paired cache₃ _ hplan => ?_
  obtain ⟨plan, failures⟩ := paired
  have hbelow (below : Pairing) (hmem : below ∈ plan) :=
    mergePaired_learns hfollows hdistinct hfirst hownedB sides.first.size (hplan below hmem)
      (fun root hroot => ⟨[], .root hroot, Nat.le_add_left _ _⟩) hrootsB
  refine .bind (collect_learns node_stays hbelow)
    fun collected cache₄ _ hcollected => .pure fun cache₅ hgrown₅ => ?_
  exact ⟨_, remembers_mono hgrown₅ (remembers_collected hcollected)⟩

end Services

namespace Sides

variable {first second : Tree} {options : CompiledOptions}

/-- What a cache says yes to is akin if every yes in it vouches for its pair. -/
theorem akin_of_saysYes {cache : Cache} (hcache : cache.Vouches (akin first second)) (a b : DeclId)
    (hyes : cache.SaysYes a b) : Akin first second a b := by
  obtain ⟨verdict, hfind, hempty⟩ := hyes
  exact hcache _ (Cache.mem_entries_of_find? hfind) hempty

variable (hbuilt : first.Built ∧ second.Built) (hmergeable : first.Mergeable) {cache : Cache}
  (hcache : cache.Filled first second)
include hbuilt hmergeable hcache

/-- What a merge of two distinct trees in one session shares agrees as akin classifiers let it. -/
theorem agreed_of_merge {result : MergeResult} {session : Session}
    (hmerge : (ofTrees first second options).merge cache = .ok (result, session)) :
    ∃ pairs, Behind (ofTrees first second options)
      (Origin.Agreed (ofTrees first second options) (Akin first second)) pairs
      result.forest.roots := by
  let sides := ofTrees first second options
  have hlearns : MergeM.stepLogic.Learns cache (sides.services.merge sides) _ :=
    Services.merge_learns sides.services_follows rfl hmergeable hbuilt.2.roots_known cache
  obtain ⟨pairs, hremembers⟩ := merge_learned hlearns hmerge
  have hgives := Services.merge_gives
    (sides.services_obeys (Cache.Vouches (akin first second)) False)
    (ofTrees_consistent first second options) (Session.verdict_gives options) False.elim id
    hbuilt.1.roots_known hbuilt.2.roots_known False.elim
  obtain ⟨hvouches, -⟩ := (merge_of_gives hgives hcache.vouches).1 result session hmerge
  exact ⟨pairs, hremembers.mono fun _ => .mono (akin_of_saysYes hvouches)⟩

/-- What workers share of two distinct trees agrees as akin classifiers let it. -/
theorem agreed_of_schedule {after : Cache} {nodes : List MergedNode} {rejections : List Rejection}
    {limitHits : Nat} (hschedule : Task.Schedule (cache, (ofTrees first second options).mergeTask)
      (after, .done ⟨.ok (nodes, rejections), limitHits⟩)) :
    ∃ pairs, Behind (ofTrees first second options)
      (Origin.Agreed (ofTrees first second options) (Akin first second)) pairs nodes := by
  let sides := ofTrees first second options
  have hlearns : TaskM.knowing.Learns cache (sides.tasks.merge sides) _ :=
    Services.merge_learns sides.tasks_follows rfl hmergeable hbuilt.2.roots_known cache
  have hstays (result : MergeResult) {known cache : Cache} (hgrown : known.Grown cache)
      (hknown : ∃ pairs, known.Remembers sides pairs result.forest.roots) :
      ∃ pairs, cache.Remembers sides pairs result.forest.roots := by
    obtain ⟨pairs, hknown⟩ := hknown
    exact ⟨pairs, Services.remembers_mono hgrown hknown⟩
  obtain ⟨pairs, hremembers⟩ := mergeTask_learned hstays hlearns hschedule
  have hgives := Services.merge_gives
    (sides.tasks_obeys (Cache.Vouches (akin first second)) False)
    (ofTrees_consistent first second options) (TaskM.verdict_gives options False) False.elim id
    hbuilt.1.roots_known hbuilt.2.roots_known False.elim
  obtain ⟨hvouches, -⟩ := mergeTask_of_gives hgives hcache.vouches hschedule
  exact ⟨pairs, hremembers.mono fun _ => .mono (akin_of_saysYes hvouches)⟩

end Sides

end Concord
