import Concord.Comparison.Sides
import Concord.Tree.Build
import Concord.Tree.Link

namespace Concord

theorem Payload.class?_eq_some {ρ : Type} {payload : Payload ρ} {info : ClassInfo ρ} :
    payload.class? = some info ↔ payload = .classType info := by
  cases payload <;> simp [class?]

namespace Tree

variable {tree : Tree} {id : DeclId}

theorem fetch_eq_ok {declaration : Declaration} :
    tree.fetch id = .ok declaration ↔ tree.get? id = some declaration := by
  rw [fetch]
  cases tree.get? id with
  | none => simp
  | some found => simp

@[simp] theorem size_modify (id : DeclId) (f : Declaration → Declaration) :
    (tree.modify id f).size = tree.size := by
  simp [modify, size]

@[simp] theorem roots_modify (id : DeclId) (f : Declaration → Declaration) :
    (tree.modify id f).roots = tree.roots :=
  rfl

@[simp] theorem size_alloc (data : Data) (container : Option DeclId) :
    (tree.alloc data container).2.size = tree.size + 1 := by
  simp [alloc, size]

@[simp] theorem roots_alloc (data : Data) (container : Option DeclId) :
    (tree.alloc data container).2.roots = tree.roots :=
  rfl

theorem get?_eq_none : tree.get? id = none ↔ tree.size ≤ id.index :=
  Array.getElem?_eq_none_iff

theorem lt_size_of_get? {declaration : Declaration} (hget : tree.get? id = some declaration) :
    id.index < tree.size :=
  (Array.getElem?_eq_some_iff.mp hget).1

theorem get?_alloc (data : Data) (container : Option DeclId) :
    (tree.alloc data container).2.get? id =
      if id = ⟨tree.size⟩ then some ⟨data, container, []⟩ else tree.get? id := by
  obtain ⟨index⟩ := id
  simp only [alloc, get?, size, Array.getElem?_push, DeclId.mk.injEq]

theorem get?_addRoot (data : Data) :
    (tree.addRoot data).2.get? id =
      if id = ⟨tree.size⟩ then some ⟨data, none, []⟩ else tree.get? id :=
  get?_alloc data none

theorem get?_modify (f : Declaration → Declaration) {other : DeclId} :
    (tree.modify id f).get? other =
      if other = id then (tree.get? other).map f else tree.get? other := by
  obtain ⟨index⟩ := id
  obtain ⟨index'⟩ := other
  simp only [modify, get?, Array.getElem?_modify, DeclId.mk.injEq, eq_comm (a := index)]

theorem get?_link :
    tree.link.get? id = (tree.get? id).map fun declaration =>
      { declaration with data := declaration.data.mapRefs tree.linkRef } := by
  simp only [link, get?, Array.getElem?_map]

theorem get?_link_of_get? {declaration : Declaration} (hget : tree.get? id = some declaration) :
    tree.link.get? id =
      some { declaration with data := declaration.data.mapRefs tree.linkRef } := by
  rw [get?_link, hget, Option.map_some]

theorem children_of_get? {declaration : Declaration} (hget : tree.get? id = some declaration) :
    tree.children id = declaration.children := by
  rw [children, hget]

theorem children_eq_getD : tree.children id = ((tree.get? id).map (·.children)).getD [] := by
  rw [children]
  cases tree.get? id <;> rfl

theorem children_link : tree.link.children id = tree.children id := by
  simp only [children_eq_getD, get?_link, Option.map_map, Function.comp_def]

theorem container?_link : tree.link.container? id = tree.container? id := by
  simp only [container?, get?_link, Option.bind_map, Function.comp_def]

theorem classifier?_alloc (data : Data) (container : Option DeclId) (name : QualifiedName) :
    (tree.alloc data container).2.classifier? name =
      (tree.classifier? name).or
        (if data.kind.isClassifier ∧ data.qualifiedName = name then some ⟨tree.size⟩ else none) := by
  show List.lookup name (tree.indexed data) = _
  rw [indexed]
  by_cases hname : data.qualifiedName = name
  · subst hname
    cases hindex : tree.classifier? data.qualifiedName with
    | none =>
      cases data.kind.isClassifier with
      | true => simp
      | false => exact hindex
    | some id =>
      rw [Option.isNone_some, Bool.and_false]
      exact hindex
  · have hne : (name == data.qualifiedName) = false := beq_eq_false_iff_ne.mpr (Ne.symm hname)
    simp only [hname, and_false, if_false, Option.or_none]
    split
    · rw [List.lookup_cons, hne]
      rfl
    · rfl

theorem declaration_of_get? {declaration : Declaration} (hget : tree.get? id = some declaration) :
    tree.declaration id = declaration := by
  rw [Tree.declaration, hget, Option.getD_some]

/-- The class around a declaration is its container. -/
theorem enclosingClass?_eq_some {around : DeclId} {info : ClassInfo ClassifierRef} :
    tree.enclosingClass? id = some (around, info) ↔
      tree.container? id = some around ∧ (tree.declaration around).payload = .classType info := by
  rw [enclosingClass?, declaration]
  cases tree.container? id with
  | none => simp
  | some container =>
    rw [Option.bind_eq_bind, Option.bind_some]
    constructor
    · intro haround
      obtain ⟨found, hget, haround⟩ := Option.bind_eq_some_iff.mp haround
      obtain ⟨info', hclass, haround⟩ := Option.bind_eq_some_iff.mp haround
      cases haround
      exact ⟨rfl, by rwa [hget, Option.getD_some, ← Payload.class?_eq_some]⟩
    · rintro ⟨hsame, hclass⟩
      cases hsame
      cases hget : tree.get? around with
      | none =>
        rw [hget] at hclass
        cases hclass
      | some found =>
        rw [hget, Option.getD_some, ← Payload.class?_eq_some] at hclass
        simp [hclass]

/-- What stays alone for being a member that is not abstract is a member of a class. -/
theorem exists_class_of_concrete (hconcrete : tree.isConcreteInterfaceMember id = true) :
    ∃ container info, tree.container? id = some container ∧
      (tree.declaration container).payload = .classType info := by
  rw [isConcreteInterfaceMember] at hconcrete
  cases hclass : tree.enclosingClass? id with
  | some around => exact ⟨around.1, around.2, enclosingClass?_eq_some.mp hclass⟩
  | none =>
    rw [hclass] at hconcrete
    split at hconcrete
    · cases hconcrete
    · rw [Bool.and_false] at hconcrete
      cases hconcrete

/-- Only functions and properties are members that may not be abstract. -/
theorem not_concrete_of_kind (hfunction : (tree.declaration id).kind ≠ .function)
    (hproperty : (tree.declaration id).kind ≠ .property) :
    tree.isConcreteInterfaceMember id = false := by
  rw [isConcreteInterfaceMember]
  cases hget : tree.get? id with
  | none => rfl
  | some declaration =>
    rw [declaration_of_get? hget] at hfunction hproperty
    simp [hfunction, hproperty]

/-- The detached data of a declaration of the tree. -/
theorem detached?_of_known (hknown : ∃ declaration, tree.get? id = some declaration) :
    tree.detached? id = some ((tree.declaration id).data.mapRefs tree.detachRef) := by
  obtain ⟨declaration, hget⟩ := hknown
  rw [declaration_of_get? hget, detached?, hget, Option.map_some]

end Tree

end Concord
