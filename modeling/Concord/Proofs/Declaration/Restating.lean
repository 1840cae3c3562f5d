import Mathlib.Data.List.Forall2
import Concord.Proofs.Declaration.References

namespace Concord

variable {ρ σ τ : Type}

section

variable (S : Ty ρ → Ty σ → Prop)

/-- Type parameters of one variance, with bounds of which each says the same as its like. -/
structure TypeParameter.Restates (parameter : TypeParameter ρ) (other : TypeParameter σ) : Prop where
  variance : parameter.variance = other.variance
  bounds : List.Forall₂ S parameter.upperBounds other.upperBounds

/-- Constructors of one visibility, with parameters of which each says the same as its like. -/
structure Constructor.Restates (constructor : Constructor ρ) (other : Constructor σ) : Prop where
  visibility : constructor.visibility = other.visibility
  parameters : List.Forall₂ (fun p q => p.isVararg = q.isVararg ∧ S p.type q.type)
    constructor.parameters other.parameters

/-- A payload each type of which has its like in another payload. -/
inductive Payload.Restates : Payload ρ → Payload σ → Prop
  | modules (info other : ModuleInfo) : Restates (.module info) (.module other)
  | packages : Restates .package .package
  | classes {info : ClassInfo ρ} {other : ClassInfo σ}
    (hparameters : List.Forall₂ (TypeParameter.Restates S) info.typeParameters other.typeParameters)
    (hsupertypes : ∀ type ∈ info.supertypes, ∃ like ∈ other.supertypes, S type like)
    (hconstructors : ∀ constructor ∈ info.constructors,
      ∃ like ∈ other.constructors, constructor.Restates S like) :
    Restates (.classType info) (.classType other)
  | functions {info : FunctionInfo ρ} {other : FunctionInfo σ}
    (hparameters : List.Forall₂ (TypeParameter.Restates S) info.typeParameters other.typeParameters)
    (hreceiver : Option.Rel S info.receiver other.receiver)
    (hreturn : S info.returnType other.returnType) : Restates (.function info) (.function other)
  | properties {info : PropertyInfo ρ} {other : PropertyInfo σ}
    (hparameters : List.Forall₂ (TypeParameter.Restates S) info.typeParameters other.typeParameters)
    (hreceiver : Option.Rel S info.receiver other.receiver) (htype : S info.type other.type) :
    Restates (.property info) (.property other)
  | values {info : ValueInfo ρ} {other : ValueInfo σ} (htype : S info.type other.type)
    (hvararg : info.isVararg = other.isVararg) : Restates (.value info) (.value other)

end

private theorem restates_same_parameters (parameters : List (TypeParameter ρ)) :
    List.Forall₂ (TypeParameter.Restates Eq) parameters parameters :=
  List.forall₂_same.mpr fun _ _ => ⟨rfl, List.forall₂_same.mpr fun _ _ => rfl⟩

private theorem restates_same_receiver (receiver : Option (Ty ρ)) : Option.Rel Eq receiver receiver := by
  cases receiver with
  | none => exact .none
  | some type => exact .some rfl

/-- A payload says what it says itself. -/
theorem Payload.restates_self {payload : Payload ρ} (hother : payload.kind ≠ .typeAlias) :
    payload.Restates Eq payload := by
  cases payload with
  | module info => exact .modules info info
  | package => exact .packages
  | classType info =>
    refine .classes (restates_same_parameters _) (fun type htype => ⟨type, htype, rfl⟩)
      fun constructor hconstructor => ⟨constructor, hconstructor, rfl, ?_⟩
    exact List.forall₂_same.mpr fun _ _ => ⟨rfl, rfl⟩
  | function info => exact .functions (restates_same_parameters _) (restates_same_receiver _) rfl
  | property info => exact .properties (restates_same_parameters _) (restates_same_receiver _) rfl
  | value info => exact .values rfl rfl
  | typeAlias info => exact absurd rfl hother

/-- In lists that run in parallel each item of the one has its like in the other. -/
theorem exists_like_of_mem {α β : Type} {R : α → β → Prop} {as : List α} {bs : List β}
    (hrelated : List.Forall₂ R as bs) {a : α} (ha : a ∈ as) : ∃ b ∈ bs, R a b := by
  induction hrelated with
  | nil => cases ha
  | cons hone _ ih =>
    obtain rfl | ha := List.mem_cons.mp ha
    · exact ⟨_, List.mem_cons_self, hone⟩
    · obtain ⟨b, hb, hR⟩ := ih ha
      exact ⟨b, List.mem_cons_of_mem _ hb, hR⟩

/-- Lists that run in parallel are related otherwise when their items are. -/
theorem forall₂_imp_of_mem {α β : Type} {R R' : α → β → Prop} {as : List α} {bs : List β}
    (hrelated : List.Forall₂ R as bs) (himp : ∀ a ∈ as, ∀ b ∈ bs, R a b → R' a b) :
    List.Forall₂ R' as bs := by
  induction hrelated with
  | nil => exact .nil
  | cons hone _ ih =>
    refine .cons (himp _ List.mem_cons_self _ List.mem_cons_self hone) (ih fun a ha b hb => ?_)
    exact himp a (List.mem_cons_of_mem _ ha) b (List.mem_cons_of_mem _ hb)

section Map

variable {S : Ty ρ → Ty σ → Prop} {S' : Ty τ → Ty σ → Prop} {f : Ty ρ → Ty τ}

private theorem restates_parameters {ps : List (TypeParameter ρ)} {qs : List (TypeParameter σ)}
    (hrestates : List.Forall₂ (TypeParameter.Restates S) ps qs)
    (himp : ∀ type ∈ ps.flatMap (·.upperBounds), ∀ like ∈ qs.flatMap (·.upperBounds),
      S type like → S' (f type) like) :
    List.Forall₂ (TypeParameter.Restates S') (ps.map (·.mapTypes f)) qs := by
  refine List.forall₂_map_left_iff.mpr (forall₂_imp_of_mem hrestates fun p hp q hq hone => ?_)
  rw [TypeParameter.mapTypes_eq]
  refine ⟨hone.variance, List.forall₂_map_left_iff.mpr ?_⟩
  refine forall₂_imp_of_mem hone.bounds fun type htype like hlike => ?_
  exact himp type (List.mem_flatMap.mpr ⟨p, hp, htype⟩) like (List.mem_flatMap.mpr ⟨q, hq, hlike⟩)

private theorem restates_receiver {a : Option (Ty ρ)} {b : Option (Ty σ)} (hrestates : Option.Rel S a b)
    (himp : ∀ type ∈ a.toList, ∀ like ∈ b.toList, S type like → S' (f type) like) :
    Option.Rel S' (a.map f) b := by
  cases hrestates with
  | none => exact .none
  | some hone => exact .some (himp _ List.mem_cons_self _ List.mem_cons_self hone)

private theorem restates_constructor {c : Constructor ρ} {d : Constructor σ}
    (hrestates : c.Restates S d)
    (himp : ∀ type ∈ c.types, ∀ like ∈ d.types, S type like → S' (f type) like) :
    (c.mapTypes f).Restates S' d := by
  refine ⟨hrestates.visibility, List.forall₂_map_left_iff.mpr ?_⟩
  refine forall₂_imp_of_mem hrestates.parameters ?_
  rintro p hp q hq ⟨hvararg, hone⟩
  exact ⟨hvararg, himp p.type (List.mem_map_of_mem hp) q.type (List.mem_map_of_mem hq) hone⟩

/-- What is said again is still said when each of its types is put in another form. -/
theorem Payload.Restates.mapTypes {payload : Payload ρ} {other : Payload σ}
    (hrestates : payload.Restates S other)
    (himp : ∀ type ∈ payload.types, ∀ like ∈ other.types, S type like → S' (f type) like) :
    (payload.mapTypes f).Restates S' other := by
  cases hrestates with
  | modules info other => exact .modules info other
  | packages => exact .packages
  | @classes info other hparameters hsupertypes hconstructors =>
    have hin {type : Ty ρ} {like : Ty σ} (htype : type ∈ info.types) (hlike : like ∈ other.types) :=
      himp type htype like hlike
    simp only [ClassInfo.types, List.mem_append] at hin
    rw [mapTypes_classType, ClassInfo.mapTypes_eq]
    refine .classes (restates_parameters hparameters fun _ htype _ hlike => hin (.inl htype)
      (.inl hlike)) (List.forall_mem_map.mpr fun type htype => ?_)
      (List.forall_mem_map.mpr fun constructor hconstructor => ?_)
    · obtain ⟨like, hlike, hone⟩ := hsupertypes type htype
      exact ⟨like, hlike, hin (.inr (.inl htype)) (.inr (.inl hlike)) hone⟩
    · obtain ⟨like, hlike, hone⟩ := hconstructors constructor hconstructor
      refine ⟨like, hlike, restates_constructor hone fun _ htype _ htype' => ?_⟩
      exact hin (.inr (.inr (List.mem_flatMap.mpr ⟨constructor, hconstructor, htype⟩)))
        (.inr (.inr (List.mem_flatMap.mpr ⟨like, hlike, htype'⟩)))
  | @functions info other hparameters hreceiver hreturn =>
    have hin {type : Ty ρ} {like : Ty σ} (htype : type ∈ info.types) (hlike : like ∈ other.types) :=
      himp type htype like hlike
    simp only [FunctionInfo.types, List.mem_append, List.mem_singleton] at hin
    rw [mapTypes_function, FunctionInfo.mapTypes_eq]
    refine .functions (restates_parameters hparameters fun _ htype _ hlike => hin (.inl htype)
      (.inl hlike)) (restates_receiver hreceiver fun _ htype _ hlike => ?_) ?_
    · exact hin (.inr (.inl htype)) (.inr (.inl hlike))
    · exact hin (.inr (.inr rfl)) (.inr (.inr rfl)) hreturn
  | @properties info other hparameters hreceiver htype =>
    have hin {type : Ty ρ} {like : Ty σ} (htype : type ∈ info.types) (hlike : like ∈ other.types) :=
      himp type htype like hlike
    simp only [PropertyInfo.types, List.mem_append, List.mem_singleton] at hin
    rw [mapTypes_property, PropertyInfo.mapTypes_eq]
    refine .properties (restates_parameters hparameters fun _ htype _ hlike => hin (.inl htype)
      (.inl hlike)) (restates_receiver hreceiver fun _ htype _ hlike => ?_) ?_
    · exact hin (.inr (.inl htype)) (.inr (.inl hlike))
    · exact hin (.inr (.inr rfl)) (.inr (.inr rfl)) htype
  | values htype hvararg =>
    rw [mapTypes_value, ValueInfo.mapTypes_eq]
    exact .values (himp _ List.mem_cons_self _ List.mem_cons_self htype) hvararg

end Map

section Likes

variable {S : Ty ρ → Ty σ → Prop}

private theorem exists_like_of_bound {ps : List (TypeParameter ρ)} {qs : List (TypeParameter σ)}
    (hrestates : List.Forall₂ (TypeParameter.Restates S) ps qs) {type : Ty ρ}
    (htype : type ∈ ps.flatMap (·.upperBounds)) :
    ∃ like ∈ qs.flatMap (·.upperBounds), S type like := by
  obtain ⟨parameter, hparameter, htype⟩ := List.mem_flatMap.mp htype
  obtain ⟨other, hother, hone⟩ := exists_like_of_mem hrestates hparameter
  obtain ⟨like, hlike, hS⟩ := exists_like_of_mem hone.bounds htype
  exact ⟨like, List.mem_flatMap.mpr ⟨other, hother, hlike⟩, hS⟩

private theorem exists_like_of_receiver {a : Option (Ty ρ)} {b : Option (Ty σ)}
    (hrestates : Option.Rel S a b) {type : Ty ρ} (htype : type ∈ a.toList) :
    ∃ like ∈ b.toList, S type like := by
  cases hrestates with
  | none => cases htype
  | some hone =>
    obtain rfl := List.mem_singleton.mp htype
    exact ⟨_, List.mem_cons_self, hone⟩

/-- Each type of a payload that says again what another one says has its like in the other. -/
theorem Payload.Restates.exists_like {payload : Payload ρ} {other : Payload σ}
    (hrestates : payload.Restates S other) {type : Ty ρ} (htype : type ∈ payload.types) :
    ∃ like ∈ other.types, S type like := by
  have hparts {xs ys zs : List (Ty ρ)} {xs' ys' zs' : List (Ty σ)}
      (hxs : ∀ type ∈ xs, ∃ like ∈ xs', S type like) (hys : ∀ type ∈ ys, ∃ like ∈ ys', S type like)
      (hzs : ∀ type ∈ zs, ∃ like ∈ zs', S type like) :
      ∀ type ∈ xs ++ (ys ++ zs), ∃ like ∈ xs' ++ (ys' ++ zs'), S type like := by
    intro type htype
    obtain htype | htype := List.mem_append.mp htype
    · obtain ⟨like, hlike, hS⟩ := hxs type htype
      exact ⟨like, List.mem_append_left _ hlike, hS⟩
    obtain htype | htype := List.mem_append.mp htype
    · obtain ⟨like, hlike, hS⟩ := hys type htype
      exact ⟨like, List.mem_append_right _ (List.mem_append_left _ hlike), hS⟩
    · obtain ⟨like, hlike, hS⟩ := hzs type htype
      exact ⟨like, List.mem_append_right _ (List.mem_append_right _ hlike), hS⟩
  have hsingle {s : Ty ρ} {t : Ty σ} (hS : S s t) : ∀ type ∈ [s], ∃ like ∈ [t], S type like := by
    simpa using hS
  cases hrestates with
  | modules | packages => cases htype
  | classes hparameters hsupertypes hconstructors =>
    refine hparts (fun _ => exists_like_of_bound hparameters) hsupertypes (fun type htype => ?_) type
      htype
    obtain ⟨constructor, hconstructor, htype⟩ := List.mem_flatMap.mp htype
    obtain ⟨like, hlike, hone⟩ := hconstructors constructor hconstructor
    obtain ⟨parameter, hparameter, rfl⟩ := List.mem_map.mp htype
    obtain ⟨other, hother, -, hS⟩ := exists_like_of_mem hone.parameters hparameter
    exact ⟨other.type, List.mem_flatMap.mpr ⟨like, hlike, List.mem_map_of_mem hother⟩, hS⟩
  | functions hparameters hreceiver hreturn =>
    exact hparts (fun _ => exists_like_of_bound hparameters)
      (fun _ => exists_like_of_receiver hreceiver) (hsingle hreturn) type htype
  | properties hparameters hreceiver hone =>
    exact hparts (fun _ => exists_like_of_bound hparameters)
      (fun _ => exists_like_of_receiver hreceiver) (hsingle hone) type htype
  | values hone _ => exact hsingle hone type htype

end Likes

end Concord
