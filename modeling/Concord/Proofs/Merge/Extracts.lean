import Concord.Proofs.Comparison.Matches
import Concord.Proofs.Logic.Knowing
import Concord.Proofs.Merge.Shared

namespace Concord

open ProgramLogic (Learns)

/-- What is kept of a list at some places was there. -/
theorem mem_keepAt {α : Type} {items : List α} {places : List Nat} {item : α}
    (hitem : item ∈ keepAt items places) : ∃ place ∈ places, items[place]? = some item := by
  obtain ⟨⟨item, place⟩, hmem, rfl⟩ := List.mem_map.mp hitem
  obtain ⟨hmem, hkept⟩ := List.mem_filter.mp hmem
  exact ⟨place, List.contains_iff_mem.mp hkept, List.mk_mem_zipIdx_iff_getElem?.mp hmem⟩

namespace ProgramLogic

variable {n : Type → Type} [Monad n] {logic : ProgramLogic n} {α β : Type}

section Partners

variable {fact : Cache → α → β → Prop}
  (hstays : ∀ {known cache : Cache}, known.Grown cache → ∀ a b, fact known a b → fact cache a b)
include hstays

/-- A partner that is taken passes the test. -/
theorem Learns.takePartner? {a : α} {test : β → n Bool}
    (htest : ∀ known b, logic.Learns known (test b) fun yes cache => yes = true → fact cache a b)
    (items : List β) (known : Cache) :
    logic.Learns known (Concord.takePartner? test items) fun taken cache => ∀ left,
      taken = some left → (∃ b ∈ items, fact cache a b) ∧ left ⊆ items := by
  induction items generalizing known with
  | nil => exact .pure fun _ _ => nofun
  | cons b items ih =>
    refine .bind (htest known b) fun yes cache _ hyes => .ite (fun htrue => ?_) fun _ => ?_
    · refine .pure fun cache' hgrown => ?_
      rintro _ ⟨⟩
      have hfact := hstays hgrown a b (hyes htrue)
      exact ⟨⟨b, List.mem_cons_self, hfact⟩, List.subset_cons_self b items⟩
    · refine .bind (ih cache) fun taken cache' _ htaken => .pure fun cache'' hgrown => ?_
      intro left hleft
      obtain ⟨rest, rfl, rfl⟩ := Option.map_eq_some_iff.mp hleft
      obtain ⟨⟨other, hother, hfact⟩, hrest⟩ := htaken rest rfl
      exact ⟨⟨other, List.mem_cons_of_mem b hother, hstays hgrown a other hfact⟩,
        List.cons_subset_cons b hrest⟩

/-- The items at the places that are found have a partner each. -/
theorem Learns.partneredFrom {equal : α → β → n Bool}
    (hequal : ∀ known a b,
      logic.Learns known (equal a b) fun yes cache => yes = true → fact cache a b)
    (place : Nat) (as : List α) (bs : List β) (known : Cache) :
    logic.Learns known (Concord.partneredFrom equal place as bs) fun places cache =>
      ∀ found ∈ places, ∃ i a, found = place + i ∧ as[i]? = some a ∧ ∃ b ∈ bs, fact cache a b := by
  induction as generalizing place bs known with
  | nil => exact .pure fun _ _ => nofun
  | cons a as ih =>
    refine .bind (takePartner? hstays (hequal · a) bs known) fun taken cache _ htaken => ?_
    have hlater {bs' : List β} (hsubset : bs' ⊆ bs) {cache' : Cache} {found : Nat} :
        (∃ i a, found = place + 1 + i ∧ as[i]? = some a ∧ ∃ b ∈ bs', fact cache' a b) →
        ∃ i x, found = place + i ∧ (a :: as)[i]? = some x ∧ ∃ b ∈ bs, fact cache' x b := by
      rintro ⟨i, x, rfl, hx, b, hb, hfact⟩
      exact ⟨i + 1, x, by omega, hx, b, hsubset hb, hfact⟩
    cases taken with
    | none =>
      refine (ih (place + 1) bs cache).mono fun places cache' _ hplaces found hfound => ?_
      exact hlater (List.Subset.refl bs) (hplaces found hfound)
    | some left =>
      obtain ⟨⟨b, hb, hfact⟩, hleft⟩ := htaken left rfl
      refine .bind (ih (place + 1) left cache) fun places cache' hgrown hplaces => ?_
      refine .pure fun cache'' hgrown' => List.forall_mem_cons.mpr ⟨?_, fun found hfound => ?_⟩
      · exact ⟨0, a, rfl, rfl, b, hb, hstays (hgrown.trans hgrown') a b hfact⟩
      · obtain ⟨i, x, heq, hx, b', hb', hfact'⟩ := hlater hleft (hplaces found hfound)
        exact ⟨i, x, heq, hx, b', hb', hstays hgrown' x b' hfact'⟩

/-- What is kept at the places that are found has partners. -/
theorem Learns.kept {equal : α → β → n Bool}
    (hequal : ∀ known a b,
      logic.Learns known (equal a b) fun yes cache => yes = true → fact cache a b)
    (as : List α) (bs : List β) (known : Cache) :
    logic.Learns known (Concord.partneredFrom equal 0 as bs) fun places cache =>
      ∀ a ∈ keepAt as places, ∃ b ∈ bs, fact cache a b := by
  refine (partneredFrom hstays hequal 0 as bs known).mono fun places cache _ hplaces a ha => ?_
  obtain ⟨place, hplace, ha⟩ := mem_keepAt ha
  obtain ⟨i, x, rfl, hx, hpartner⟩ := hplaces place hplace
  rw [Nat.zero_add, hx] at ha
  exact Option.some.inj ha ▸ hpartner

end Partners

end ProgramLogic

namespace Sides

variable (sides : Sides) (R : DeclId → DeclId → Prop)

/-- What a declaration lends to the data that it shares with one of the second side. Either it
matches that as a whole, or they are classes or aliases of which only those supertypes and
constructors are kept that agree with one of the second side. -/
inductive Extracts (a b : DeclId) : Payload ClassifierRef → Prop
  | whole (hclass : (sides.first.declaration a).kind ≠ .classType)
    (halias : (sides.first.declaration a).kind ≠ .typeAlias) :
    Extracts a b (sides.first.declaration a).payload
  | ofClasses {infoA infoB : ClassInfo ClassifierRef}
    (hfirst : (sides.first.declaration a).payload = .classType infoA)
    (hsecond : (sides.second.declaration b).payload = .classType infoB)
    (supertypes constructors : List Nat)
    (hsupertypes : ∀ type ∈ keepAt infoA.supertypes supertypes, ∃ other ∈ infoB.supertypes,
      sides.TypesAgree R type other)
    (hconstructors : ∀ constructor ∈ keepAt infoA.constructors constructors,
      ∃ other ∈ infoB.constructors, sides.ConstructorsAgree R constructor other) :
    Extracts a b (.classType (infoA.keep supertypes constructors))
  | ofAliases (hfirst : (sides.first.declaration a).kind = .typeAlias)
    (hsecond : (sides.second.declaration b).kind = .typeAlias) (supertypes : List Nat)
    (hsupertypes : ∀ type ∈ keepAt (sides.first.aliasedClassOf a).supertypes supertypes,
      ∃ other ∈ (sides.second.aliasedClassOf b).supertypes, sides.TypesAgree R type other) :
    Extracts a b (.classType { ClassInfo.ofKind (sides.first.aliasedClassOf a).classKind with
      supertypes := keepAt (sides.first.aliasedClassOf a).supertypes supertypes })

variable {sides R} in
/-- What is lent of an alias is a class, and anything else is lent as what it is. -/
theorem Extracts.kind {a b : DeclId} {payload : Payload ClassifierRef}
    (hextracts : sides.Extracts R a b payload) :
    payload.kind = (sides.first.declaration a).kind.common := by
  cases hextracts with
  | whole _ halias =>
    show (sides.first.declaration a).kind = _
    cases hkind : (sides.first.declaration a).kind with
    | typeAlias => exact absurd hkind halias
    | _ => rfl
  | ofClasses hfirst _ _ _ _ _ =>
    rw [show (sides.first.declaration a).kind = .classType from congrArg Payload.kind hfirst]
    rfl
  | ofAliases hfirst _ _ _ =>
    rw [hfirst]
    rfl

/-- A payload of the first side as shared data has it, with its types in their alias spelling and
without links into the tree. -/
def sharedForm (payload : Payload ClassifierRef) : Payload ClassifierRef :=
  (payload.mapTypes Ty.collapse).mapRefs sides.first.detachRef

/-- Data that two declarations share. -/
def SharedFrom (a b : DeclId) (common : Data) : Prop :=
  ∃ payload, sides.Extracts R a b payload ∧ common.payload = sides.sharedForm payload

/-- The data that two declarations share by their comparison. That of two classes still has all that
the first one declares. -/
inductive SharedSoFar (a b : DeclId) (common : Data) : Prop
  | classes (hclass : (sides.first.declaration a).kind = .classType)
    (hpayload : common.payload = sides.sharedForm (sides.first.declaration a).payload)
  | others (hclass : (sides.first.declaration a).kind ≠ .classType)
    (hshared : sides.SharedFrom R a b common)

/-- What is known of two declarations that were compared and match. -/
structure Compared (a b : DeclId) (first common second : Data) : Prop where
  first : first = (sides.first.declaration a).data.mapRefs sides.first.detachRef
  second : second = (sides.second.declaration b).data.mapRefs sides.second.detachRef
  agree : sides.Matches R a b
  shared : sides.SharedSoFar R a b common

variable {sides R}

theorem ConstructorsAgree.mono {S : DeclId → DeclId → Prop} (himp : ∀ a b, R a b → S a b)
    {a b : Constructor ClassifierRef} (hagree : sides.ConstructorsAgree R a b) :
    sides.ConstructorsAgree S a b :=
  ⟨hagree.visibility, hagree.parameters.imp fun _ _ h => ⟨h.1, h.2.mono himp⟩⟩

theorem Extracts.mono {S : DeclId → DeclId → Prop} (himp : ∀ a b, R a b → S a b) {a b : DeclId}
    {payload : Payload ClassifierRef} (hextracts : sides.Extracts R a b payload) :
    sides.Extracts S a b payload := by
  cases hextracts with
  | whole hclass halias => exact .whole hclass halias
  | ofClasses hfirst hsecond supertypes constructors hsupertypes hconstructors =>
    refine .ofClasses hfirst hsecond supertypes constructors (fun type htype => ?_)
      fun constructor hconstructor => ?_
    · obtain ⟨other, hother, hagree⟩ := hsupertypes type htype
      exact ⟨other, hother, hagree.mono himp⟩
    · obtain ⟨other, hother, hagree⟩ := hconstructors constructor hconstructor
      exact ⟨other, hother, hagree.mono himp⟩
  | ofAliases hfirst hsecond supertypes hsupertypes =>
    refine .ofAliases hfirst hsecond supertypes fun type htype => ?_
    obtain ⟨other, hother, hagree⟩ := hsupertypes type htype
    exact ⟨other, hother, hagree.mono himp⟩

theorem SharedFrom.mono {S : DeclId → DeclId → Prop} (himp : ∀ a b, R a b → S a b) {a b : DeclId}
    {common : Data} (hshared : sides.SharedFrom R a b common) : sides.SharedFrom S a b common := by
  obtain ⟨payload, hextracts, hpayload⟩ := hshared
  exact ⟨payload, hextracts.mono himp, hpayload⟩

theorem SharedSoFar.mono {S : DeclId → DeclId → Prop} (himp : ∀ a b, R a b → S a b) {a b : DeclId}
    {common : Data} (hshared : sides.SharedSoFar R a b common) : sides.SharedSoFar S a b common := by
  cases hshared with
  | classes hclass hpayload => exact .classes hclass hpayload
  | others hclass hshared => exact .others hclass (hshared.mono himp)

theorem Compared.mono {S : DeclId → DeclId → Prop} (himp : ∀ a b, R a b → S a b) {a b : DeclId}
    {first common second : Data} (hcompared : sides.Compared R a b first common second) :
    sides.Compared S a b first common second :=
  { hcompared with
    agree := hcompared.agree.mono himp
    shared := hcompared.shared.mono himp }

/-- Of the shared data of two classes only what both have is kept. -/
theorem sharedForm_keep (info : ClassInfo ClassifierRef) (supertypes constructors : List Nat) :
    sides.sharedForm (.classType (info.keep supertypes constructors)) =
      .classType (((info.mapTypes Ty.collapse).mapTypes sides.first.detachType).keep supertypes
        constructors) := by
  rw [sharedForm, Payload.mapTypes_classType, Payload.mapRefs, Payload.mapTypes_classType,
    ClassInfo.mapTypes_keep, ClassInfo.mapTypes_keep]
  rfl

/-- The shared form of the class that two aliases share. -/
theorem sharedForm_ofKind (kind : ClassKind) (supertypes : List (Ty ClassifierRef)) :
    (Payload.classType { ClassInfo.ofKind kind with
      supertypes := supertypes.map sides.first.detachType }).mapTypes Ty.collapse =
      sides.sharedForm (.classType { ClassInfo.ofKind kind with supertypes }) := by
  have hdetached : Payload.classType { ClassInfo.ofKind kind with
        supertypes := supertypes.map sides.first.detachType } =
      (Payload.classType { ClassInfo.ofKind kind with supertypes }).mapRefs
        sides.first.detachRef := by
    simp only [Payload.mapRefs, Payload.mapTypes_classType, ClassInfo.mapTypes_eq]
    rfl
  rw [hdetached, Payload.mapTypes_collapse_mapRefs, sharedForm]

end Sides

namespace Services

variable {n m : Type → Type} [Monad n] [LawfulMonad n] [Monad m] {services : Services n m}
  {sides : Sides} {inner : ProgramLogic n} {outer : ProgramLogic m}
  (hfollows : services.Follows inner outer)
include hfollows

private theorem supertypes_learns (as bs : List (Ty ClassifierRef)) (known : Cache) :
    inner.Learns known (sharedSupertypes sides services.shareable as bs) fun places cache =>
      ∀ type ∈ keepAt as places, ∃ other ∈ bs, sides.TypesAgree cache.SaysYes type other := by
  refine Learns.kept (fun hgrown _ _ h => h.mono (.stays hgrown)) (fun known a b => ?_) as bs
    known
  have hshareable := shareable_decides Cache.SaysYes.stays hfollows.verdict
  have hdecides := typesAgree_decides sides Cache.SaysYes.stays hshareable a b known
  exact hdecides.mono fun _ _ _ => And.left

private theorem constructors_learns (as bs : List (Constructor ClassifierRef)) (known : Cache) :
    inner.Learns known (sharedConstructors sides services.shareable as bs) fun places cache =>
      ∀ constructor ∈ keepAt as places, ∃ other ∈ bs,
        sides.ConstructorsAgree cache.SaysYes constructor other := by
  refine Learns.kept (fun hgrown _ _ h => h.mono (.stays hgrown)) (fun known a b => ?_) as bs
    known
  have hshareable := shareable_decides Cache.SaysYes.stays hfollows.verdict
  have hdecides := constructorsAgree_decides sides Cache.SaysYes.stays hshareable a b known
  exact hdecides.mono fun _ _ _ => And.left

/-- Two declarations that match give what each side declares and what both share. -/
theorem matchedPayloads_learns {a b : DeclId} {known : Cache}
    (hmatches : sides.Matches known.SaysYes a b) :
    inner.Learns known (matchedPayloads sides services.shareable a b) fun outcome cache =>
      ∃ first common second, outcome = .matched first common second ∧
        sides.Compared cache.SaysYes a b first common second := by
  generalize hfirst : (sides.first.declaration a).data.mapRefs sides.first.detachRef = first
  generalize hsecond : (sides.second.declaration b).data.mapRefs sides.second.detachRef = second
  have hkindA : first.kind = (sides.first.declaration a).kind :=
    hfirst ▸ Data.kind_mapRefs _ _
  have hkindB : second.kind = (sides.second.declaration b).kind :=
    hsecond ▸ Data.kind_mapRefs _ _
  have hform (payload : Payload ClassifierRef) :
      (payload.mapRefs sides.first.detachRef).mapTypes Ty.collapse = sides.sharedForm payload :=
    payload.mapTypes_collapse_mapRefs _
  have finish {step : n Data} (hstep : inner.Learns known step fun common cache =>
      known.Grown cache ∧ sides.SharedSoFar cache.SaysYes a b
        { common with payload := common.payload.mapTypes Ty.collapse }) :
      inner.Learns known (do
        let common ← step
        return Comparison.matched first
          { common with payload := common.payload.mapTypes Ty.collapse } second)
        fun outcome cache => ∃ first common second, outcome = .matched first common second ∧
          sides.Compared cache.SaysYes a b first common second := by
    refine .bind hstep fun common cache _ hcommon => .pure fun cache' hgrown => ?_
    obtain ⟨hknown, hshared⟩ := hcommon
    refine ⟨_, _, _, rfl, hfirst.symm, hsecond.symm, ?_, hshared.mono (.stays hgrown)⟩
    exact hmatches.mono (.stays (hknown.trans hgrown))
  simp only [matchedPayloads, hfirst, hsecond]
  split
  · next infoA infoB hpayloadA hpayloadB =>
    have halias : (sides.first.declaration a).kind = .typeAlias := by
      rw [← hkindA, Data.kind, hpayloadA]
      rfl
    have halias' : (sides.second.declaration b).kind = .typeAlias := by
      rw [← hkindB, Data.kind, hpayloadB]
      rfl
    let targetA := sides.first.aliasedClassOf a
    refine finish (.bind (supertypes_learns hfollows _ _ known)
      fun places cache hgrown hplaces => .pure fun cache' hgrown' => ?_)
    refine ⟨hgrown.trans hgrown', .others (by rw [halias]; decide) ?_⟩
    refine ⟨_, .ofAliases halias halias' places fun type htype => ?_, ?_⟩
    · obtain ⟨other, hother, hagree⟩ := hplaces type htype
      exact ⟨other, hother, hagree.mono (.stays hgrown')⟩
    · exact sides.sharedForm_ofKind targetA.classKind (keepAt targetA.supertypes places)
  · next hother =>
    have halias : (sides.first.declaration a).kind ≠ .typeAlias := by
      intro halias
      obtain ⟨infoA, hpayloadA⟩ := Payload.ofKind (hkindA.trans halias)
      obtain ⟨infoB, hpayloadB⟩ :=
        Payload.ofKind (hkindB.trans (hmatches.kinds.symm.trans halias))
      exact hother infoA infoB hpayloadA hpayloadB
    have hpayload : first.payload.mapTypes Ty.collapse =
        sides.sharedForm (sides.first.declaration a).payload := by
      rw [← hfirst, ← hform]
      rfl
    refine finish (.pure fun cache hgrown => ⟨hgrown, ?_⟩)
    by_cases hclass : (sides.first.declaration a).kind = .classType
    · exact .classes hclass hpayload
    · exact .others hclass ⟨_, .whole hclass halias, hpayload⟩

/-- Two declarations that are compared and match say the same, as far as the cache knows then. -/
theorem compare_learns (hdistinct : sides.same = false) (a b : DeclId) (known : Cache) :
    inner.Learns known (services.compare sides a b) fun outcome cache => ∀ first common second,
      outcome = .matched first common second →
        sides.Compared cache.SaysYes a b first common second := by
  have hfailures := failuresOf_decides sides Cache.SaysYes.stays hfollows.verdict a b known
  refine .ite (fun hsame => ?_) fun _ => ?_
  · rw [hdistinct] at hsame
    cases hsame
  · refine .bind (hfollows.watched hfailures) fun outcome cache _ hdecides => ?_
    refine .ite (fun hempty => ?_) fun _ => .pure fun _ _ _ _ _ hmatched => by cases hmatched
    rw [Mismatch.isEmpty_require, Bool.and_eq_true] at hempty
    refine (matchedPayloads_learns hfollows (hdecides.1 hempty.1)).mono ?_
    rintro _ cache' - ⟨first, common, second, rfl, hcompared⟩ _ _ _ ⟨⟩
    exact hcompared

/-- Of the data that two declarations share, what is left has its like on both sides. -/
theorem intersect_learns {a b : DeclId} {first common second : Data} {known : Cache}
    (hcompared : sides.Compared known.SaysYes a b first common second) :
    inner.Learns known (services.intersect sides a b common) fun left cache =>
      sides.SharedFrom cache.SaysYes a b left := by
  simp only [intersect]
  split
  · next infoA infoB hpayloadA hpayloadB =>
    have hclass : common.payload = sides.sharedForm (.classType infoA) := by
      rw [← hpayloadA]
      cases hcompared.shared with
      | classes hclass hpayload => exact hpayload
      | others hclass hshared => exact absurd (congrArg Payload.kind hpayloadA) hclass
    refine .bind (supertypes_learns hfollows _ _ known)
      fun supertypes cache hgrown hsupertypes => ?_
    refine .bind (constructors_learns hfollows _ _ cache)
      fun constructors cache' hgrown' hconstructors => ?_
    rw [hclass]
    refine .pure fun cache'' hgrown'' => ⟨_, .ofClasses hpayloadA hpayloadB supertypes constructors
      (fun type htype => ?_) fun constructor hconstructor => ?_, ?_⟩
    · obtain ⟨other, hother, hagree⟩ := hsupertypes type htype
      exact ⟨other, hother, hagree.mono (.stays (hgrown'.trans hgrown''))⟩
    · obtain ⟨other, hother, hagree⟩ := hconstructors constructor hconstructor
      exact ⟨other, hother, hagree.mono (.stays hgrown'')⟩
    · rw [Sides.sharedForm_keep]
      rfl
  · next hother =>
    refine .pure fun cache hgrown => ?_
    cases hcompared.shared with
    | classes hclass hpayload =>
      obtain ⟨infoA, hpayloadA⟩ := Payload.ofKind hclass
      obtain ⟨infoB, hpayloadB⟩ := Payload.ofKind (hcompared.agree.kinds.symm.trans hclass)
      exact absurd hpayloadB (hother infoA infoB hpayloadA)
    | others hclass hshared => exact hshared.mono (.stays hgrown)

end Services

end Concord
