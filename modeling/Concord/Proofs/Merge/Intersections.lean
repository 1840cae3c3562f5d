import Mathlib.Data.List.Basic
import Concord.Proofs.Comparison.Agreement
import Concord.Proofs.Declaration.Restating
import Concord.Proofs.Merge.Exact
import Concord.Proofs.Merge.Extracts

namespace Concord

open Session (Quiet)

/-- Places of a list that make up what it has in common with another. They stand in order, each
belongs to a place of its own of the other list, with an item that equals the one it has, and
nothing that is left of one list equals what is left of the other. -/
structure IsIntersection {α β : Type} (equal : α → β → Prop) (as : List α) (bs : List β)
    (places : List Nat) : Prop where
  increasing : places.Pairwise (· < ·)
  assigned : ∃ others : List Nat, others.Nodup ∧
    List.Forall₂ (fun i j => ∃ a b, as[i]? = some a ∧ bs[j]? = some b ∧ equal a b) places others ∧
    ∀ i j a b, as[i]? = some a → bs[j]? = some b → i ∉ places → j ∉ others → ¬equal a b

section Places

variable {α β : Type} (equal : α → β → Bool)

private theorem run_takePartner? (test : β → Bool) (items : List β) :
    (takePartner? (m := Id) test items).run =
      (items.find? test).map fun _ => items.eraseP test := by
  induction items with
  | nil => rfl
  | cons item items ih =>
    show (if test item then some items else ((takePartner? (m := Id) test items).run).map (item :: ·)) = _
    cases htest : test item with
    | true => simp [htest]
    | false =>
      rw [ih, List.find?_cons_of_neg (by simp [htest]), List.eraseP_cons_of_neg (by simp [htest])]
      cases items.find? test <;> simp

/-- The places that are found are those of the items that have partners. -/
private theorem run_partneredFrom (place : Nat) (as : List α) (bs : List (β × Nat)) :
    (partneredFrom (m := Id) equal place as (bs.map Prod.fst)).run =
      (partners (fun x y => equal x.1 y.1) (as.zipIdx place) bs).map (·.1.2) := by
  induction as generalizing place bs with
  | nil => rfl
  | cons a as ih =>
    have htaken : (takePartner? (m := Id) (equal a) (bs.map Prod.fst)).run =
        (bs.find? fun y => equal a y.1).map fun _ => (bs.eraseP fun y => equal a y.1).map Prod.fst := by
      rw [run_takePartner?, List.find?_map, List.eraseP_map, Option.map_map]
      rfl
    rw [List.zipIdx_cons, partners, partneredFrom, Id.run_bind, htaken]
    cases bs.find? fun y => equal a y.1 with
    | none => exact ih (place + 1) bs
    | some b => exact congrArg (place :: ·) (ih (place + 1) _)

/-- The places of the items that find a partner, by the partners of the items at their places. -/
private theorem places_eq (as : List α) (bs : List β) :
    (partneredFrom (m := Id) equal 0 as bs).run =
      (partners (fun x y => equal x.1 y.1) as.zipIdx bs.zipIdx).map (·.1.2) := by
  rw [← run_partneredFrom, List.zipIdx_map_fst]

/-- The places of the items that have partners stand in order. -/
private theorem places_increasing (joins : α × Nat → β × Nat → Bool) (as : List α)
    (bs : List (β × Nat)) : ((partners joins as.zipIdx bs).map (·.1.2)).Pairwise (· < ·) := by
  have hplaces := (partners_sublist joins as.zipIdx bs).map Prod.snd
  rw [List.map_map, List.zipIdx_map_snd] at hplaces
  exact .sublist hplaces List.pairwise_lt_range'

/-- Taking the first partner that is left finds what two lists have in common. -/
theorem isIntersection_places (as : List α) (bs : List β) :
    IsIntersection (fun a b => equal a b = true) as bs
      (partneredFrom (m := Id) equal 0 as bs).run := by
  let joins (x : α × Nat) (y : β × Nat) : Bool := equal x.1 y.1
  let pairs := partners joins as.zipIdx bs.zipIdx
  rw [places_eq]
  refine ⟨places_increasing joins as bs.zipIdx, pairs.map (·.2.2), ?_, ?_,
    fun i j a b ha hb hi hj hequal => ?_⟩
  · have hswap := (partners_swap joins as.zipIdx bs.zipIdx).map (·.1.2)
    rw [List.map_map] at hswap
    exact hswap.nodup_iff.mpr ((places_increasing (fun y x => joins x y) bs as.zipIdx).imp Nat.ne_of_lt)
  · rw [List.forall₂_map_left_iff, List.forall₂_map_right_iff, List.forall₂_same]
    intro pair hpair
    obtain ⟨hfirst, hsecond, hjoins⟩ := mem_partners joins hpair
    exact ⟨_, _, List.mem_zipIdx_iff_getElem?.mp hfirst, List.mem_zipIdx_iff_getElem?.mp hsecond, hjoins⟩
  · obtain hmem | hmem := partners_maximal joins (List.mk_mem_zipIdx_iff_getElem?.mpr ha)
      (List.mk_mem_zipIdx_iff_getElem?.mpr hb) hequal
    · obtain ⟨pair, hpair, heq⟩ := List.mem_map.mp hmem
      exact hi (List.mem_map.mpr ⟨pair, hpair, congrArg Prod.snd heq⟩)
    · obtain ⟨pair, hpair, heq⟩ := List.mem_map.mp hmem
      exact hj (List.mem_map.mpr ⟨pair, hpair, congrArg Prod.snd heq⟩)

/-- As many places are found when the lists are exchanged. -/
theorem length_places_swap (as : List α) (bs : List β) :
    (partneredFrom (m := Id) (fun b a => equal a b) 0 bs as).run.length =
      (partneredFrom (m := Id) equal 0 as bs).run.length := by
  have hswap := (partners_swap (fun (x : α × Nat) (y : β × Nat) => equal x.1 y.1) as.zipIdx
    bs.zipIdx).length_eq
  rw [List.length_map] at hswap
  rw [places_eq, places_eq, List.length_map, List.length_map, hswap]

end Places

/-- What is kept of a list at these places has its equal in the other list. -/
theorem IsIntersection.exists_equal {α β : Type} {equal : α → β → Prop} {as : List α} {bs : List β}
    {places : List Nat} (hplaces : IsIntersection equal as bs places) {a : α}
    (ha : a ∈ keepAt as places) : ∃ b ∈ bs, equal a b := by
  obtain ⟨place, hplace, ha⟩ := mem_keepAt ha
  obtain ⟨others, -, hpairs, -⟩ := hplaces.assigned
  obtain ⟨other, -, a', b, ha', hb, hequal⟩ := exists_like_of_mem hpairs hplace
  cases ha.symm.trans ha'
  exact ⟨b, List.mem_of_getElem? hb, hequal⟩

/-- The items of a list at places that stand in order. -/
theorem keepAt_eq_filterMap {α : Type} (items : List α) {places : List Nat}
    (hplaces : places.Pairwise (· < ·)) : keepAt items places = places.filterMap (items[·]?) := by
  have hfrom (items : List α) (place : Nat) (places : List Nat) (hplaces : places.Pairwise (· < ·))
      (hle : ∀ i ∈ places, place ≤ i) :
      ((items.zipIdx place).filter fun item => places.contains item.2).map (·.1) =
        places.filterMap fun i => items[i - place]? := by
    induction items generalizing place places with
    | nil => simp
    | cons item items ih =>
      have hlater (left : List Nat) (hlt : ∀ i ∈ left, place < i) :
          (left.filterMap fun i => (item :: items)[i - place]?) =
            left.filterMap fun i => items[i - (place + 1)]? := by
        refine List.filterMap_congr fun i hi => ?_
        have hlt := hlt i hi
        rw [show i - place = i - (place + 1) + 1 by omega, List.getElem?_cons_succ]
      cases places with
      | nil => simp
      | cons first left =>
        obtain ⟨hfirst, hleft⟩ := List.pairwise_cons.mp hplaces
        rw [List.zipIdx_cons]
        obtain rfl | hlt := Nat.eq_or_lt_of_le (hle first List.mem_cons_self)
        · have hrest : (items.zipIdx (place + 1)).filter (fun item => (place :: left).contains item.2) =
              (items.zipIdx (place + 1)).filter fun item => left.contains item.2 := by
            refine List.filter_congr fun pair hpair => ?_
            have hle := (List.mem_zipIdx hpair).1
            simp [show pair.2 ≠ place by omega]
          rw [List.filter_cons_of_pos (by simp), List.map_cons, hrest, ih _ _ hleft hfirst,
            List.filterMap_cons_some (b := item) (by simp), hlater left hfirst]
        · have hall : ∀ i ∈ first :: left, place < i :=
            List.forall_mem_cons.mpr ⟨hlt, fun i hi => Nat.lt_trans hlt (hfirst i hi)⟩
          have hout : place ∉ first :: left := fun hmem => Nat.lt_irrefl _ (hall place hmem)
          rw [List.filter_cons_of_neg (by simpa using hout), ih _ _ hplaces hall, hlater _ hall]
  simpa [keepAt] using hfrom items 0 places hplaces fun i _ => Nat.zero_le i

namespace Sides

variable (sides : Sides)

/-- A step that ends like this whenever it starts with nothing under way over an exact cache and
hits no limit. -/
def EndsQuietly {α : Type} (step : StateM Session α) (post : α → Prop) : Prop :=
  ∀ before, Quiet sides before (step.run before).2 → post (step.run before).1

/-- The places of the supertypes that two lists have in common, when it is known which classifiers
can be shared. -/
noncomputable def commonSupertypes (as bs : List (Ty ClassifierRef)) : List Nat :=
  (sharedSupertypes sides sides.oracle.shareable as bs).run

/-- The places of the constructors that two lists have in common, when it is known which classifiers
can be shared. -/
noncomputable def commonConstructors (as bs : List (Constructor ClassifierRef)) : List Nat :=
  (sharedConstructors sides sides.oracle.shareable as bs).run

/-- What two lists have in common: `find` finds these places in every session that hits no limit,
and as many when the sides are exchanged. -/
structure Intersects {α : Type} (equal : α → α → Prop)
    (find : (sides : Sides) → List α → List α → StateM Session (List Nat)) (as bs : List α)
    (places : List Nat) : Prop where
  found : sides.EndsQuietly (find sides as bs) (· = places)
  intersection : IsIntersection equal as bs places
  exchanged : sides.swap.EndsQuietly (find sides.swap bs as) fun others =>
    others.length = places.length

/-- The shared data of two classes is that of the first, with the supertypes and constructors that
it has in common with the second. That of two aliases is a class with the supertypes that the
classes they stand for have in common. -/
structure KeepsCommon (a b : DeclId) (common : Data) : Prop where
  classes : ∀ infoA infoB, (sides.first.declaration a).payload = .classType infoA →
    (sides.second.declaration b).payload = .classType infoB →
    common.payload = sides.sharedForm (.classType { infoA with
      supertypes :=
        (sides.commonSupertypes infoA.supertypes infoB.supertypes).filterMap (infoA.supertypes[·]?)
      constructors := (sides.commonConstructors infoA.constructors infoB.constructors).filterMap
        (infoA.constructors[·]?) })
  aliases : (sides.first.declaration a).kind = .typeAlias →
    (sides.second.declaration b).kind = .typeAlias →
    let target := sides.first.aliasedClassOf a
    let target' := sides.second.aliasedClassOf b
    common.payload = sides.sharedForm (.classType { ClassInfo.ofKind target.classKind with
      supertypes :=
        (sides.commonSupertypes target.supertypes target'.supertypes).filterMap
          (target.supertypes[·]?) })

variable {sides}

open Classical in
private theorem oracle_shareable_eq :
    sides.oracle.shareable = fun x y => pure (decide (sides.Shareable x y)) := by
  funext x y
  exact Bool.eq_iff_iff.mpr ((sides.oracle_verdict_isEmpty x y).trans decide_eq_true_iff.symm)

private theorem oracle_types_iff {a b : Ty ClassifierRef} :
    (typesAgree (m := Id) sides sides.oracle.shareable a b).run = true ↔
      sides.TypesAgree sides.Shareable a b := by
  rw [oracle_shareable_eq]
  exact Iff.rfl

private theorem oracle_constructors_iff {a b : Constructor ClassifierRef} :
    (constructorsAgree (m := Id) sides sides.oracle.shareable a b).run = true ↔
      sides.ConstructorsAgree sides.Shareable a b := by
  rw [oracle_shareable_eq]
  exact constructorsAgree_iff

variable (sides)

/-- A session that hits no limit finds two types to be equal exactly when they are. -/
theorem types_end_quietly (a b : Ty ClassifierRef) :
    sides.EndsQuietly (typesAgree sides sides.shareable a b) fun yes =>
      yes = true ↔ sides.TypesAgree sides.Shareable a b := by
  intro before hquiet
  have htold := (sides.comparing.types sides sides.services_alike.shareable a b before).2 hquiet
  exact Eq.congr_left htold |>.trans oracle_types_iff

/-- A session that hits no limit finds two constructors to be equal exactly when they are. -/
theorem constructors_end_quietly (a b : Constructor ClassifierRef) :
    sides.EndsQuietly (constructorsAgree sides sides.shareable a b) fun yes =>
      yes = true ↔ sides.ConstructorsAgree sides.Shareable a b := by
  intro before hquiet
  have htold := (sides.comparing.check sides.services_alike.shareable
    (constructorsAgree_isQuestions sides a b) before).2 hquiet
  exact Eq.congr_left htold |>.trans oracle_constructors_iff

/-- What two lists have in common by a check of their items that asks which classifiers can be
shared and that is the same when the sides are exchanged. -/
private theorem intersects_of_check {α : Type} (check : Sides → α → α → Check)
    (hquestions : ∀ sides a b, IsQuestions (check sides a b)) {equal : α → α → Prop}
    (hequal : ∀ a b, (check sides a b (m := Id) sides.oracle.shareable).run = true ↔ equal a b)
    (hswap : ∀ a b, check sides.swap b a (m := Id) sides.swap.oracle.shareable =
      check sides a b (m := Id) sides.oracle.shareable) (as bs : List α) :
    sides.Intersects equal
      (fun sides => partneredFrom (fun a b => check sides a b sides.shareable) 0) as bs
      (partneredFrom (m := Id) (fun a b => check sides a b sides.oracle.shareable) 0 as bs).run := by
  have hfound (sides : Sides) (as bs : List α) : sides.EndsQuietly
      (partneredFrom (fun a b => check sides a b sides.shareable) 0 as bs)
      (· = (partneredFrom (m := Id) (fun a b => check sides a b sides.oracle.shareable) 0 as bs).run) :=
    fun before hquiet => (sides.comparing.partneredFrom (fun a b =>
      sides.comparing.check sides.services_alike.shareable (hquestions sides a b)) 0 as bs before).2
      hquiet
  refine ⟨hfound sides as bs, ?_, fun before hquiet => ?_⟩
  · have hplaces := isIntersection_places
      (fun a b => (check sides a b (m := Id) sides.oracle.shareable).run) as bs
    simp only [hequal] at hplaces
    exact hplaces
  · rw [hfound sides.swap bs as before hquiet]
    simp only [hswap]
    exact length_places_swap (fun a b => (check sides a b (m := Id) sides.oracle.shareable).run) as bs

/-- What two lists of supertypes have in common. -/
theorem supertypes_intersect (as bs : List (Ty ClassifierRef)) :
    sides.Intersects (sides.TypesAgree sides.Shareable)
      (fun sides => sharedSupertypes sides sides.shareable) as bs (sides.commonSupertypes as bs) :=
  sides.intersects_of_check (fun sides a b _ _ ask => typesAgree sides ask a b)
    typesAgree_isQuestions (fun _ _ => oracle_types_iff)
    (fun a b => sides.oracle_shareable_swap ▸ typesAgree_swap sides sides.oracle.shareable a b) as bs

/-- What two lists of constructors have in common. -/
theorem constructors_intersect (as bs : List (Constructor ClassifierRef)) :
    sides.Intersects (sides.ConstructorsAgree sides.Shareable)
      (fun sides => sharedConstructors sides sides.shareable) as bs
      (sides.commonConstructors as bs) :=
  sides.intersects_of_check (fun sides a b _ _ ask => constructorsAgree sides ask a b)
    constructorsAgree_isQuestions (fun _ _ => oracle_constructors_iff)
    (fun a b => sides.oracle_shareable_swap ▸ constructorsAgree_swap sides sides.oracle.shareable a b)
    as bs

variable {sides}

/-- Two declarations that match share what the oracle's comparison leaves of their common data. -/
private theorem exists_compared {a b : DeclId} (hmatched : sides.matched a b = true) :
    ∃ first common second,
      (matchedPayloads (m := Id) sides sides.oracle.shareable a b).run = .matched first common second ∧
      sides.shared a b = (sides.oracle.intersect sides a b common).run := by
  cases hrun : (sides.oracle.compare sides a b).run with
  | matched first common second =>
    exact ⟨first, common, second, payloads_of_compare hrun, shared_of_compare hrun⟩
  | mismatched mismatch =>
    rw [matched, hrun] at hmatched
    cases hmatched

/-- Two classes share the data of the first, with what they have in common. -/
private theorem shared_classes {a b : DeclId} {infoA infoB : ClassInfo ClassifierRef}
    (hfirst : (sides.first.declaration a).payload = .classType infoA)
    (hsecond : (sides.second.declaration b).payload = .classType infoB)
    (hmatched : sides.matched a b = true) :
    (sides.shared a b).payload = sides.sharedForm (.classType (infoA.keep
      (sides.commonSupertypes infoA.supertypes infoB.supertypes)
      (sides.commonConstructors infoA.constructors infoB.constructors))) := by
  obtain ⟨first, common, second, hpayloads, hshared⟩ := exists_compared hmatched
  have hdata : ((sides.first.declaration a).data.mapRefs sides.first.detachRef).payload =
      (Payload.classType infoA).mapRefs sides.first.detachRef :=
    congrArg (Payload.mapRefs sides.first.detachRef) hfirst
  have hclass : common.payload = sides.sharedForm (.classType infoA) := by
    rw [sharedForm, ← Payload.mapTypes_collapse_mapRefs, ← hdata]
    simp only [matchedPayloads, hdata] at hpayloads
    cases hpayloads
    rfl
  rw [hshared, Services.intersect, hfirst, hsecond, sharedForm_keep]
  simp only [hclass]
  rfl

/-- Two aliases share a class with what the classes they stand for have in common. -/
private theorem shared_aliases {a b : DeclId}
    (hfirst : (sides.first.declaration a).kind = .typeAlias)
    (hsecond : (sides.second.declaration b).kind = .typeAlias)
    (hmatched : sides.matched a b = true) :
    let target := sides.first.aliasedClassOf a
    let target' := sides.second.aliasedClassOf b
    (sides.shared a b).payload = sides.sharedForm (.classType { ClassInfo.ofKind target.classKind with
      supertypes :=
        keepAt target.supertypes (sides.commonSupertypes target.supertypes target'.supertypes) }) := by
  obtain ⟨first, common, second, hpayloads, hshared⟩ := exists_compared hmatched
  obtain ⟨infoA, hinfoA⟩ := Payload.ofKind hfirst
  obtain ⟨infoB, hinfoB⟩ := Payload.ofKind hsecond
  have hdata : ((sides.first.declaration a).data.mapRefs sides.first.detachRef).payload =
      (Payload.typeAlias infoA).mapRefs sides.first.detachRef :=
    congrArg (Payload.mapRefs sides.first.detachRef) hinfoA
  have hdata' : ((sides.second.declaration b).data.mapRefs sides.second.detachRef).payload =
      (Payload.typeAlias infoB).mapRefs sides.second.detachRef :=
    congrArg (Payload.mapRefs sides.second.detachRef) hinfoB
  have hkept : (sides.oracle.intersect sides a b common).run = common := by
    rw [Services.intersect, show (sides.first.declaration a).payload = _ from hinfoA]
    rfl
  intro target target'
  rw [hshared, hkept, ← sides.sharedForm_ofKind]
  simp only [matchedPayloads, hdata, hdata', Payload.mapRefs, Payload.mapTypes_typeAlias] at hpayloads
  cases hpayloads
  rfl

/-- Two declarations that are neither classes nor aliases share all that the first one declares. -/
private theorem shared_others {a b : DeclId} (hclass : (sides.first.declaration a).kind ≠ .classType)
    (halias : (sides.first.declaration a).kind ≠ .typeAlias) (hmatched : sides.matched a b = true) :
    (sides.shared a b).payload = sides.sharedForm (sides.first.declaration a).payload := by
  obtain ⟨first, common, second, hpayloads, hshared⟩ := exists_compared hmatched
  have hkept : (sides.oracle.intersect sides a b common).run = common := by
    rw [Services.intersect]
    split
    · next infoA _ hA _ => exact absurd (congrArg Payload.kind hA) hclass
    · rfl
  rw [hshared, hkept]
  simp only [matchedPayloads] at hpayloads
  split at hpayloads
  · next infoA _ hA _ =>
    have hkind := (sides.first.declaration a).payload.kind_mapRefs sides.first.detachRef
    exact absurd (hkind.symm.trans (congrArg Payload.kind hA)) halias
  · cases hpayloads
    exact Payload.mapTypes_collapse_mapRefs _ _

/-- What two declarations share when they match keeps what they have in common. -/
theorem shared_keepsCommon {a b : DeclId} (hmatched : sides.matched a b = true) :
    sides.KeepsCommon a b (sides.shared a b) where
  classes infoA infoB hfirst hsecond := by
    rw [shared_classes hfirst hsecond hmatched, ClassInfo.keep,
      keepAt_eq_filterMap _ (sides.supertypes_intersect _ _).intersection.increasing,
      keepAt_eq_filterMap _ (sides.constructors_intersect _ _).intersection.increasing]
  aliases hfirst hsecond := by
    have hshared := shared_aliases hfirst hsecond hmatched
    simp only [keepAt_eq_filterMap _ (sides.supertypes_intersect _ _).intersection.increasing] at hshared
    exact hshared

/-- Two declarations of distinct trees that match share what the first one lends. -/
theorem shared_extracts {a b : DeclId} (hdistinct : sides.same = false)
    (hmatched : sides.matched a b = true) :
    sides.SharedFrom sides.Shareable a b (sides.shared a b) := by
  have hkinds := kinds_of_isMatched hdistinct hmatched
  by_cases hclass : (sides.first.declaration a).kind = .classType
  · obtain ⟨infoA, hA⟩ := Payload.ofKind hclass
    obtain ⟨infoB, hB⟩ := Payload.ofKind (hkinds.symm.trans hclass)
    exact ⟨_, .ofClasses hA hB _ _ (fun _ => (sides.supertypes_intersect _ _).intersection.exists_equal)
      fun _ => (sides.constructors_intersect _ _).intersection.exists_equal,
      shared_classes hA hB hmatched⟩
  by_cases halias : (sides.first.declaration a).kind = .typeAlias
  · have halias' := hkinds.symm.trans halias
    exact ⟨_, .ofAliases halias halias' _ fun _ =>
      (sides.supertypes_intersect _ _).intersection.exists_equal, shared_aliases halias halias' hmatched⟩
  · exact ⟨_, .whole hclass halias, shared_others hclass halias hmatched⟩

/-- What two declarations share bears the name of the first. -/
theorem shared_qualifiedName {a b : DeclId} (hmatched : sides.matched a b = true) :
    (sides.shared a b).qualifiedName = (sides.first.declaration a).qualifiedName := by
  obtain ⟨first, common, second, hpayloads, hshared⟩ := exists_compared hmatched
  have hkept : (sides.oracle.intersect sides a b common).run.qualifiedName = common.qualifiedName := by
    simp only [Services.intersect]
    split
    · cases common.payload <;> rfl
    · rfl
  rw [hshared, hkept]
  simp only [matchedPayloads] at hpayloads
  split at hpayloads <;> cases hpayloads <;> rfl

/-- What two declarations share is of the kind of the first, but that a class is shared of an alias. -/
theorem shared_kind {a b : DeclId} (hdistinct : sides.same = false)
    (hmatched : sides.matched a b = true) :
    (sides.shared a b).kind = (sides.first.declaration a).kind.common := by
  obtain ⟨payload, hextracts, hpayload⟩ := shared_extracts hdistinct hmatched
  rw [Data.kind, hpayload, sharedForm, Payload.kind_mapRefs, Payload.kind_mapTypes, hextracts.kind]

end Sides

end Concord
