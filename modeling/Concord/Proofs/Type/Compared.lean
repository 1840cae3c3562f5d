import Mathlib.Data.List.Forall2
import Concord.Proofs.Type.References

namespace Concord

variable {ρ σ τ : Type}

mutual
/-- A type as comparisons read it. -/
def Ty.compared : Ty ρ → Ty ρ
  | .simple type => .simple type.compared
  | .flexible lower upper => .flexible lower.compared upper.compared
/-- A simple type as comparisons read it: by its alias spelling, with its own marks. -/
def SimpleType.compared : SimpleType ρ → SimpleType ρ
  | ⟨classifier, arguments, nullable, notNull, none⟩ =>
    ⟨classifier, comparedForms arguments, nullable, notNull, none⟩
  | ⟨_, _, nullable, notNull, some ⟨classifier, arguments, _, _, _⟩⟩ =>
    ⟨classifier, comparedForms arguments, nullable, notNull, none⟩
/-- Arguments as comparisons read them. -/
def comparedForms : List (TypeArgument ρ) → List (TypeArgument ρ)
  | [] => []
  | .star :: rest => .star :: comparedForms rest
  | .projection variance type :: rest => .projection variance type.compared :: comparedForms rest
end

theorem SimpleType.compared_eq (type : SimpleType ρ) : type.compared =
    ⟨type.comparedRef, comparedForms type.comparedArguments, type.nullable,
      type.definitelyNotNull, none⟩ := by
  obtain ⟨classifier, arguments, nullable, notNull, abbreviation⟩ := type
  cases abbreviation with
  | none => rfl
  | some spelling =>
    cases spelling
    rfl

theorem length_comparedForms (arguments : List (TypeArgument ρ)) :
    (comparedForms arguments).length = arguments.length := by
  induction arguments with
  | nil => rfl
  | cons argument rest ih =>
    cases argument with
    | star => rw [comparedForms, List.length_cons, List.length_cons, ih]
    | projection variance type => rw [comparedForms, List.length_cons, List.length_cons, ih]

section Once

mutual
/-- Whether no alias spelling that comparisons read has an alias spelling itself. -/
def Ty.spelledOnce : Ty ρ → Bool
  | .simple type => type.spelledOnce
  | .flexible lower upper => lower.spelledOnce && upper.spelledOnce
/-- Whether no alias spelling that comparisons read has an alias spelling itself. -/
def SimpleType.spelledOnce : SimpleType ρ → Bool
  | ⟨_, arguments, _, _, none⟩ => allSpelledOnce arguments
  | ⟨_, _, _, _, some ⟨_, arguments, _, _, abbreviation⟩⟩ =>
    abbreviation.isNone && allSpelledOnce arguments
/-- Whether no alias spelling that comparisons read has an alias spelling itself. -/
def allSpelledOnce : List (TypeArgument ρ) → Bool
  | [] => true
  | .star :: rest => allSpelledOnce rest
  | .projection _ type :: rest => type.spelledOnce && allSpelledOnce rest
end

mutual
/-- Where alias spellings have no alias spellings, comparisons read what collapsing gives. -/
theorem Ty.compared_eq_collapse : ∀ type : Ty ρ, type.spelledOnce = true →
    type.compared = type.collapse
  | .simple type, honce => by
    rw [Ty.spelledOnce] at honce
    rw [Ty.compared, Ty.collapse, SimpleType.compared_eq_collapse type honce]
  | .flexible lower upper, honce => by
    rw [Ty.spelledOnce, Bool.and_eq_true] at honce
    rw [Ty.compared, Ty.collapse, SimpleType.compared_eq_collapse lower honce.1,
      SimpleType.compared_eq_collapse upper honce.2]
theorem SimpleType.compared_eq_collapse : ∀ type : SimpleType ρ, type.spelledOnce = true →
    type.compared = type.collapse
  | ⟨classifier, arguments, nullable, notNull, none⟩, honce => by
    rw [SimpleType.spelledOnce] at honce
    rw [SimpleType.compared, SimpleType.collapse, comparedForms_eq_collapse arguments honce]
  | ⟨_, _, nullable, notNull, some ⟨classifier, arguments, _, _, none⟩⟩, honce => by
    rw [SimpleType.spelledOnce, Option.isNone_none, Bool.true_and] at honce
    rw [SimpleType.compared, SimpleType.collapse, SimpleType.collapse,
      comparedForms_eq_collapse arguments honce]
  | ⟨_, _, _, _, some ⟨_, _, _, _, some _⟩⟩, honce => by
    rw [SimpleType.spelledOnce] at honce
    cases honce
theorem comparedForms_eq_collapse : ∀ arguments : List (TypeArgument ρ),
    allSpelledOnce arguments = true → comparedForms arguments = collapseArguments arguments
  | [], _ => rfl
  | .star :: rest, honce => by
    rw [allSpelledOnce] at honce
    rw [comparedForms, collapseArguments, comparedForms_eq_collapse rest honce]
  | .projection variance type :: rest, honce => by
    rw [allSpelledOnce, Bool.and_eq_true] at honce
    rw [comparedForms, collapseArguments, Ty.compared_eq_collapse type honce.1,
      comparedForms_eq_collapse rest honce.2]
end

end Once

mutual
/-- What comparisons read names nothing new. -/
theorem Ty.refs_compared : ∀ type : Ty ρ, type.compared.refs ⊆ type.refs
  | .simple type => by
    rw [Ty.compared, Ty.refs, Ty.refs]
    exact SimpleType.refs_compared type
  | .flexible lower upper => by
    rw [Ty.compared, Ty.refs, Ty.refs]
    exact List.append_subset.mpr
      ⟨List.subset_append_of_subset_left _ (SimpleType.refs_compared lower),
        List.subset_append_of_subset_right _ (SimpleType.refs_compared upper)⟩
theorem SimpleType.refs_compared : ∀ type : SimpleType ρ, type.compared.refs ⊆ type.refs
  | ⟨classifier, arguments, nullable, notNull, none⟩ => by
    rw [SimpleType.compared, SimpleType.refs, SimpleType.refs, abbreviationRefs, List.append_nil,
      List.append_nil]
    exact List.cons_subset_cons classifier (argumentRefs_compared arguments)
  | ⟨_, _, nullable, notNull, some ⟨classifier, arguments, _, _, abbreviation⟩⟩ => by
    rw [SimpleType.compared, SimpleType.refs, SimpleType.refs, abbreviationRefs, List.append_nil,
      abbreviationRefs, SimpleType.refs]
    refine List.subset_cons_of_subset _ (List.subset_append_of_subset_right _ ?_)
    refine List.cons_subset_cons classifier ?_
    exact List.subset_append_of_subset_left _ (argumentRefs_compared arguments)
theorem argumentRefs_compared : ∀ arguments : List (TypeArgument ρ),
    argumentRefs (comparedForms arguments) ⊆ argumentRefs arguments
  | [] => List.Subset.refl _
  | .star :: rest => by
    rw [comparedForms, argumentRefs, argumentRefs]
    exact argumentRefs_compared rest
  | .projection variance type :: rest => by
    rw [comparedForms, argumentRefs, argumentRefs]
    exact List.append_subset.mpr
      ⟨List.subset_append_of_subset_left _ (Ty.refs_compared type),
        List.subset_append_of_subset_right _ (argumentRefs_compared rest)⟩
end

/-- A type without what it names. -/
def Ty.shape (type : Ty ρ) : Ty Unit :=
  type.map fun _ => ()

/-- A simple type without what it names. -/
def SimpleType.shape (type : SimpleType ρ) : SimpleType Unit :=
  type.map fun _ => ()

/-- Arguments without what they name. -/
def argumentShapes (arguments : List (TypeArgument ρ)) : List (TypeArgument Unit) :=
  mapArguments (fun _ => ()) arguments

/-- An abbreviation without what it names. -/
def abbreviationShape (spelling : Option (SimpleType ρ)) : Option (SimpleType Unit) :=
  mapAbbreviation (fun _ => ()) spelling

theorem length_argumentShapes (arguments : List (TypeArgument ρ)) :
    (argumentShapes arguments).length = arguments.length := by
  induction arguments with
  | nil => rfl
  | cons argument rest ih =>
    rw [argumentShapes] at ih ⊢
    cases argument with
    | star => rw [mapArguments_star, List.length_cons, List.length_cons, ih]
    | projection variance type => rw [mapArguments_projection, List.length_cons, List.length_cons, ih]

theorem Ty.length_refs_of_shape {a : Ty ρ} {b : Ty σ} (hshape : a.shape = b.shape) :
    a.refs.length = b.refs.length := by
  have hrefs := congrArg (fun type => type.refs.length) hshape
  simpa only [Ty.shape, Ty.refs_map, List.length_map] using hrefs

theorem SimpleType.length_refs_of_shape {a : SimpleType ρ} {b : SimpleType σ}
    (hshape : a.shape = b.shape) : a.refs.length = b.refs.length := by
  have hrefs := congrArg (fun type => type.refs.length) hshape
  simpa only [SimpleType.shape, SimpleType.refs_map, List.length_map] using hrefs

theorem length_argumentRefs_of_shape {as : List (TypeArgument ρ)} {bs : List (TypeArgument σ)}
    (hshape : argumentShapes as = argumentShapes bs) :
    (argumentRefs as).length = (argumentRefs bs).length := by
  have hrefs := congrArg (fun arguments => (argumentRefs arguments).length) hshape
  simpa only [argumentShapes, argumentRefs_map, List.length_map] using hrefs

/-- Lists that are made of two parts each are related when their parts are. -/
theorem forall₂_append_iff {R : ρ → σ → Prop} {as as' : List ρ} {bs bs' : List σ}
    (hlength : as.length = bs.length) :
    List.Forall₂ R (as ++ as') (bs ++ bs') ↔ List.Forall₂ R as bs ∧ List.Forall₂ R as' bs' := by
  induction as generalizing bs with
  | nil =>
    cases bs with
    | nil => simp
    | cons b bs => cases hlength
  | cons a as ih =>
    cases bs with
    | nil => cases hlength
    | cons b bs =>
      rw [List.cons_append, List.cons_append, List.forall₂_cons, List.forall₂_cons,
        ih (Nat.succ.inj hlength), and_assoc]

section Map

variable {f : ρ → τ} {g : σ → τ}

mutual
/-- Types of one shape that name the same are the same. -/
theorem Ty.map_eq_map : ∀ (a : Ty ρ) (b : Ty σ), a.shape = b.shape →
    List.Forall₂ (fun x y => f x = g y) a.refs b.refs → a.map f = b.map g
  | .simple a, .simple b, hshape, hrefs => by
    rw [Ty.map_simple, Ty.map_simple, SimpleType.map_eq_map a b (Ty.simple.inj hshape) hrefs]
  | .flexible a a', .flexible b b', hshape, hrefs => by
    obtain ⟨hlower, hupper⟩ := Ty.flexible.inj hshape
    obtain ⟨hfirst, hsecond⟩ :=
      (forall₂_append_iff (SimpleType.length_refs_of_shape hlower)).mp hrefs
    rw [Ty.map_flexible, Ty.map_flexible, SimpleType.map_eq_map a b hlower hfirst,
      SimpleType.map_eq_map a' b' hupper hsecond]
  | .simple _, .flexible _ _, hshape, _ => by cases hshape
  | .flexible _ _, .simple _, hshape, _ => by cases hshape
theorem SimpleType.map_eq_map : ∀ (a : SimpleType ρ) (b : SimpleType σ), a.shape = b.shape →
    List.Forall₂ (fun x y => f x = g y) a.refs b.refs → a.map f = b.map g
  | ⟨x, as, nullable, notNull, spelling⟩, ⟨y, bs, nullable', notNull', spelling'⟩, hshape,
      hrefs => by
    obtain ⟨-, harguments, hnullable, hnotNull, hspelling⟩ := SimpleType.mk.inj hshape
    obtain ⟨hxy, hrest⟩ := List.forall₂_cons.mp hrefs
    obtain ⟨hfirst, hsecond⟩ :=
      (forall₂_append_iff (length_argumentRefs_of_shape harguments)).mp hrest
    have hnullable : nullable = nullable' := hnullable
    have hnotNull : notNull = notNull' := hnotNull
    rw [SimpleType.map_mk, SimpleType.map_mk, hxy, hnullable, hnotNull,
      mapArguments_eq_map as bs harguments hfirst,
      mapAbbreviation_eq_map spelling spelling' hspelling hsecond]
theorem mapArguments_eq_map : ∀ (as : List (TypeArgument ρ)) (bs : List (TypeArgument σ)),
    argumentShapes as = argumentShapes bs →
    List.Forall₂ (fun x y => f x = g y) (argumentRefs as) (argumentRefs bs) →
    mapArguments f as = mapArguments g bs
  | [], [], _, _ => rfl
  | .star :: as, .star :: bs, hshape, hrefs => by
    rw [mapArguments_star, mapArguments_star,
      mapArguments_eq_map as bs (List.cons.inj hshape).2 hrefs]
  | .projection variance a :: as, .projection variance' b :: bs, hshape, hrefs => by
    obtain ⟨hhead, htail⟩ := List.cons.inj hshape
    obtain ⟨hvariance, htype⟩ := TypeArgument.projection.inj hhead
    obtain ⟨hfirst, hsecond⟩ := (forall₂_append_iff (Ty.length_refs_of_shape htype)).mp hrefs
    rw [mapArguments_projection, mapArguments_projection, hvariance,
      Ty.map_eq_map a b htype hfirst, mapArguments_eq_map as bs htail hsecond]
  | [], .star :: _, hshape, _ => by cases hshape
  | [], .projection _ _ :: _, hshape, _ => by cases hshape
  | .star :: _, [], hshape, _ => by cases hshape
  | .projection _ _ :: _, [], hshape, _ => by cases hshape
  | .star :: _, .projection _ _ :: _, hshape, _ => by cases hshape
  | .projection _ _ :: _, .star :: _, hshape, _ => by cases hshape
theorem mapAbbreviation_eq_map : ∀ (s : Option (SimpleType ρ)) (t : Option (SimpleType σ)),
    abbreviationShape s = abbreviationShape t →
    List.Forall₂ (fun x y => f x = g y) (abbreviationRefs s) (abbreviationRefs t) →
    mapAbbreviation f s = mapAbbreviation g t
  | none, none, _, _ => rfl
  | some s, some t, hshape, hrefs => by
    rw [mapAbbreviation_some, mapAbbreviation_some,
      SimpleType.map_eq_map s t (Option.some.inj hshape) hrefs]
  | none, some _, hshape, _ => by cases hshape
  | some _, none, hshape, _ => by cases hshape
end

end Map

end Concord
