import Concord.Proofs.Declaration.Payload
import Concord.Proofs.Merge.Services

namespace Concord

/-- What a declaration shares with itself. -/
def Tree.ownShare (tree : Tree) (id : DeclId) : Data :=
  let data := (tree.declaration id).data.mapRefs tree.detachRef
  let shared := match data.payload with
    | .typeAlias _ =>
      let target := tree.aliasedClassOf id
      let supertypes := target.supertypes.map tree.detachType
      { Data.ofPayload data.name data.qualifiedName
          (.classType { ClassInfo.ofKind target.classKind with supertypes }) with
        visibility := data.visibility
        modality := target.modality }
    | _ => data
  { shared with payload := shared.payload.mapTypes Ty.collapse }

/-- All places of a list keep all of it. -/
theorem keepAt_all {α : Type} (items : List α) {count : Nat} (hcount : count = items.length) :
    keepAt items (List.range' 0 count) = items := by
  subst hcount
  have hall : items.zipIdx.filter (fun item => (List.range' 0 items.length).contains item.2) =
      items.zipIdx := by
    refine List.filter_eq_self.mpr fun item hitem => ?_
    obtain ⟨hlt, -⟩ := List.mem_zipIdx' hitem
    simpa using hlt
  rw [keepAt, hall, List.zipIdx_map_fst]

section

variable {m : Type → Type} [Monad m] [LawfulMonad m] {α : Type}

theorem allPairsM_self {test : α → α → m Bool} (htest : ∀ a, test a a = pure true) (items : List α) :
    allPairsM test items items = pure true := by
  induction items with
  | nil => rfl
  | cons item items ih => simp only [allPairsM, htest, pure_bind, if_true, ih]

/-- Every item finds its own copy, since the ones before it have found theirs. -/
theorem partneredFrom_self {equal : α → α → m Bool} (hequal : ∀ a, equal a a = pure true)
    (place : Nat) (items : List α) :
    partneredFrom equal place items items = pure (List.range' place items.length) := by
  induction items generalizing place with
  | nil => rfl
  | cons item items ih =>
    simp only [partneredFrom, takePartner?, hequal, pure_bind, if_true, ih, List.length_cons,
      List.range'_succ]

variable (tree : Tree) (options : CompiledOptions) (ask : DeclId → DeclId → m Bool)

omit [LawfulMonad m] in
/-- A type equals itself, even if it names classifiers that could not be shared. -/
theorem typesAgree_self (type : Ty ClassifierRef) :
    typesAgree (.ofTree tree options) ask type type = pure true := by
  cases type with
  | simple type => simp [typesAgree, Sides.ofTree]
  | flexible lower upper => simp [typesAgree, Sides.ofTree]

theorem constructorsAgree_self (constructor : Constructor ClassifierRef) :
    constructorsAgree (.ofTree tree options) ask constructor constructor = pure true := by
  simp only [constructorsAgree, beq_self_eq_true, Bool.and_self, if_true]
  exact allPairsM_self (fun parameter => by simp [typesAgree_self]) _

/-- An alias shares the class that it stands for with all of its supertypes. -/
private theorem sharedOfAliases_self (id : DeclId) (data : Data) :
    let target := tree.aliasedClassOf id
    let supertypes := target.supertypes.map tree.detachType
    sharedOfAliases (.ofTree tree options) ask id id data =
      pure { Data.ofPayload data.name data.qualifiedName
          (.classType { ClassInfo.ofKind target.classKind with supertypes }) with
        visibility := data.visibility
        modality := target.modality } := by
  intro target supertypes
  have hplaces : sharedSupertypes (.ofTree tree options) ask target.supertypes target.supertypes =
      pure (List.range' 0 target.supertypes.length) :=
    partneredFrom_self (typesAgree_self tree options ask) 0 target.supertypes
  rw [sharedOfAliases]
  show sharedSupertypes _ ask target.supertypes target.supertypes >>= _ = _
  rw [hplaces, pure_bind]
  show pure { Data.ofPayload data.name data.qualifiedName (.classType
    { ClassInfo.ofKind target.classKind with
      supertypes := (keepAt target.supertypes _).map tree.detachType }) with
    visibility := data.visibility
    modality := target.modality } = _
  rw [keepAt_all _ rfl]

theorem matchedPayloads_self (id : DeclId) :
    let data := (tree.declaration id).data.mapRefs tree.detachRef
    matchedPayloads (.ofTree tree options) ask id id =
      pure (.matched data (tree.ownShare id) data) := by
  intro data
  have haliases := sharedOfAliases_self tree options ask id data
  simp only [Sides.ofTree] at haliases ⊢
  cases hpayload : data.payload with
  | typeAlias info => simp only [matchedPayloads, Tree.ownShare, hpayload, haliases, pure_bind, data]
  | _ => simp only [matchedPayloads, Tree.ownShare, hpayload, pure_bind, data]

end

namespace Services

variable {n m : Type → Type} [Monad n] [LawfulMonad n] (services : Services n m) (tree : Tree)
  (options : CompiledOptions)

theorem compare_self (id : DeclId) :
    let data := (tree.declaration id).data.mapRefs tree.detachRef
    services.compare (.ofTree tree options) id id = pure (.matched data (tree.ownShare id) data) := by
  have hsame : ((Sides.ofTree tree options).same && id == id) = true := by simp [Sides.ofTree]
  rw [compare, if_pos hsame]
  exact matchedPayloads_self tree options services.shareable id

/-- A class keeps all of its supertypes and constructors. -/
theorem intersect_self (id : DeclId) :
    services.intersect (.ofTree tree options) id id (tree.ownShare id) = pure (tree.ownShare id) := by
  cases hpayload : (tree.declaration id).payload with
  | classType info =>
    let written := (info.mapTypes tree.detachType).mapTypes Ty.collapse
    have hdata : ((tree.declaration id).data.mapRefs tree.detachRef).payload =
        .classType (info.mapTypes tree.detachType) := by
      have hinner : (tree.declaration id).data.payload = .classType info := hpayload
      rw [Data.mapRefs, hinner]
      rfl
    have hshare : (tree.ownShare id).payload = .classType written := by
      simp only [Tree.ownShare, hdata]
      rfl
    have hsupertypes : info.supertypes.length = written.supertypes.length := by
      simp [written, ClassInfo.mapTypes_eq]
    have hconstructors : info.constructors.length = written.constructors.length := by
      simp [written, ClassInfo.mapTypes_eq]
    have hkept : ({ tree.ownShare id with
        payload := .classType { written with
          supertypes := keepAt written.supertypes (List.range' 0 info.supertypes.length)
          constructors := keepAt written.constructors (List.range' 0 info.constructors.length) } } :
        Data) = tree.ownShare id := by
      rw [keepAt_all _ hsupertypes, keepAt_all _ hconstructors, ← hshare]
    have hplaces := partneredFrom_self (typesAgree_self tree options services.shareable) 0
      info.supertypes
    have hplaces' := partneredFrom_self (constructorsAgree_self tree options services.shareable) 0
      info.constructors
    simp only [Sides.ofTree] at hplaces hplaces' ⊢
    simp only [intersect, sharedSupertypes, sharedConstructors, hpayload, hplaces, hplaces',
      pure_bind, hshare, hkept]
  | _ => simp only [intersect, Sides.ofTree, hpayload]

end Services

end Concord
