import Concord.Proofs.Output.Placing

namespace Concord

@[simp] theorem Kind.shares_self (kind : Kind) : kind.shares kind = true := by
  cases kind <;> rfl

theorem Kind.shares_comm (kind other : Kind) : kind.shares other = other.shares kind := by
  cases kind <;> cases other <;> rfl

theorem Kind.shares_iff {kind other : Kind} : kind.shares other = true ↔
    kind = other ∨ kind.isClassifier = true ∧ other.isClassifier = true := by
  rw [shares, Bool.or_eq_true, Bool.and_eq_true, beq_iff_eq]

theorem Kind.shares_trans {kind other third : Kind} (hfirst : kind.shares other = true)
    (hsecond : other.shares third = true) : kind.shares third = true := by
  rw [shares_iff] at hfirst hsecond ⊢
  obtain rfl | ⟨hkind, hother⟩ := hfirst
  · exact hsecond
  · obtain rfl | ⟨-, hthird⟩ := hsecond
    · exact .inr ⟨hkind, hother⟩
    · exact .inr ⟨hkind, hthird⟩

theorem Kind.isRegistered_of_isClassifier {kind : Kind} (hclassifier : kind.isClassifier = true) :
    kind.isRegistered = true := by
  cases kind <;> first | rfl | cases hclassifier

theorem Kind.isRegistered_of_shares {kind other : Kind} (hshares : kind.shares other = true)
    (hregistered : other.isRegistered = true) : kind.isRegistered = true := by
  obtain rfl | ⟨hkind, -⟩ := shares_iff.mp hshares
  · exact hregistered
  · exact isRegistered_of_isClassifier hkind

/-- What stands below something that is not registered is not registered. -/
theorem Kind.isRegistered_of_mayContain {owner kind : Kind} (hmay : owner.mayContain kind = true)
    (hregistered : kind.isRegistered = true) : owner.isRegistered = true := by
  cases kind with
  | value => cases hregistered
  | function => cases hregistered
  | property => cases hregistered
  | module => cases hmay
  | package =>
    cases owner with
    | module => rfl
    | _ => cases hmay
  | classType =>
    cases owner with
    | package | classType => rfl
    | _ => cases hmay
  | typeAlias =>
    cases owner with
    | package | classType => rfl
    | _ => cases hmay

/-- Two registered declarations of one name space have the same name. -/
def Data.Clashes (data other : Data) : Prop :=
  data.kind.isRegistered = true ∧ data.kind.shares other.kind = true ∧
    data.qualifiedName = other.qualifiedName

namespace MergedNode

/-- Whether the declarations of a node are registered. -/
def isRegistered (node : MergedNode) : Bool :=
  node.kind?.any (·.isRegistered)

theorem exists_primary? {node : MergedNode} {output : Output} {data : Data}
    (hdata : node.payloads.get output = some data) : ∃ primary, node.primary? = some primary := by
  obtain ⟨⟨first, common, second⟩, children⟩ := node
  cases first with
  | some primary => exact ⟨primary, rfl⟩
  | none =>
    cases second with
    | some primary => exact ⟨primary, rfl⟩
    | none =>
      cases common with
      | some primary => exact ⟨primary, rfl⟩
      | none => cases output <;> cases hdata

theorem primary?_get {node : MergedNode} {primary : Data} (hprimary : node.primary? = some primary) :
    ∃ output, node.payloads.get output = some primary := by
  obtain ⟨⟨first, common, second⟩, children⟩ := node
  cases first with
  | some data => exact ⟨.first, hprimary⟩
  | none =>
    cases second with
    | some data => exact ⟨.second, hprimary⟩
    | none => exact ⟨.common, hprimary⟩

theorem isRegistered_of_primary? {node : MergedNode} {primary : Data}
    (hprimary : node.primary? = some primary) :
    node.isRegistered = primary.kind.isRegistered := by
  rw [isRegistered, kind?, hprimary]
  rfl

theorem exists_registered {node : MergedNode} (hnode : node.isRegistered = true) :
    ∃ output data, node.payloads.get output = some data ∧ data.kind.isRegistered = true := by
  cases hprimary : node.primary? with
  | none =>
    rw [isRegistered, kind?, hprimary] at hnode
    cases hnode
  | some primary =>
    obtain ⟨output, hget⟩ := primary?_get hprimary
    exact ⟨output, primary, hget, isRegistered_of_primary? hprimary ▸ hnode⟩

/-- Nodes, with all nodes below them, whose data stands in each output below data that may own it.
Of a node either all data is registered or none is. -/
structure Nested (nodes : List MergedNode) : Prop where
  owned : ∀ node ∈ nodes, ∀ child ∈ node.children, ∀ output data,
    child.payloads.get output = some data →
    ∃ owner, node.payloads.get output = some owner ∧ owner.kind.mayContain data.kind = true
  registered : ∀ node ∈ nodes, ∀ output data, node.payloads.get output = some data →
    data.kind.isRegistered = node.isRegistered

/-- Nodes, with all nodes below them, that fit into the outputs. -/
structure Orderly (nodes : List MergedNode) : Prop extends Nested nodes where
  distinct : ∀ output,
    (nodes.filterMap (·.payloads.get output)).Pairwise fun data other => ¬data.Clashes other

variable {node : MergedNode} {nodes others : List MergedNode}

theorem Nested.append_left (hnested : Nested (nodes ++ others)) : Nested nodes where
  owned node hnode := hnested.owned node (List.mem_append_left _ hnode)
  registered node hnode := hnested.registered node (List.mem_append_left _ hnode)

theorem Nested.append_right (hnested : Nested (nodes ++ others)) : Nested others where
  owned node hnode := hnested.owned node (List.mem_append_right _ hnode)
  registered node hnode := hnested.registered node (List.mem_append_right _ hnode)

theorem Nested.tail (hnested : Nested (node :: nodes)) : Nested nodes :=
  (show Nested ([node] ++ nodes) from hnested).append_right

theorem Nested.of_mem {top : MergedNode} (hnested : Nested (walkAll nodes)) (htop : top ∈ nodes) :
    Nested top.walk := by
  induction nodes with
  | nil => cases htop
  | cons node nodes ih =>
    rw [walkAll] at hnested
    obtain rfl | htop := List.mem_cons.mp htop
    · exact hnested.append_left
    · exact ih hnested.append_right htop

theorem Orderly.append_left (horderly : Orderly (nodes ++ others)) : Orderly nodes where
  toNested := horderly.toNested.append_left
  distinct output := by
    have hdistinct := horderly.distinct output
    rw [List.filterMap_append] at hdistinct
    exact (List.pairwise_append.mp hdistinct).1

theorem Orderly.append_right (horderly : Orderly (nodes ++ others)) : Orderly others where
  toNested := horderly.toNested.append_right
  distinct output := by
    have hdistinct := horderly.distinct output
    rw [List.filterMap_append] at hdistinct
    exact (List.pairwise_append.mp hdistinct).2.1

theorem Orderly.tail (horderly : Orderly (node :: nodes)) : Orderly nodes :=
  (show Orderly ([node] ++ nodes) from horderly).append_right

/-- What comes first does not clash with what comes later. -/
theorem Orderly.apart (horderly : Orderly (nodes ++ others)) {earlier later : MergedNode}
    (hearlier : earlier ∈ nodes) (hlater : later ∈ others) {output : Output} {data other : Data}
    (hdata : earlier.payloads.get output = some data)
    (hother : later.payloads.get output = some other) : ¬data.Clashes other := by
  have hdistinct := horderly.distinct output
  rw [List.filterMap_append] at hdistinct
  exact (List.pairwise_append.mp hdistinct).2.2 data (List.mem_filterMap.mpr ⟨_, hearlier, hdata⟩)
    other (List.mem_filterMap.mpr ⟨_, hlater, hother⟩)

/-- The data of a node is registered with the node. -/
theorem Nested.child_registered (hnested : Nested nodes) (hnode : node ∈ nodes)
    {child : MergedNode} (hchild : child ∈ node.children) {output : Output} {data : Data}
    (hdata : child.payloads.get output = some data) (hregistered : data.kind.isRegistered = true) :
    ∃ owner, node.payloads.get output = some owner ∧ owner.kind.isRegistered = true ∧
      owner.kind.mayContain data.kind = true := by
  obtain ⟨owner, howner, hmay⟩ := hnested.owned node hnode child hchild output data hdata
  exact ⟨owner, howner, Kind.isRegistered_of_mayContain hmay hregistered, hmay⟩

mutual
/-- Nothing is registered below a node of which nothing is. -/
theorem Nested.unregistered : ∀ node : MergedNode, Nested node.walk →
    (∀ output data, node.payloads.get output = some data → data.kind.isRegistered = false) →
    ∀ below ∈ node.walk, ∀ output data, below.payloads.get output = some data →
    data.kind.isRegistered = false
  | ⟨payloads, children⟩, hnested, hnode, below, hbelow => by
    rw [walk] at hnested hbelow
    obtain rfl | hbelow := List.mem_cons.mp hbelow
    · exact hnode
    · refine Nested.allUnregistered children hnested.tail ?_ below hbelow
      intro child hchild output data hdata
      refine Bool.eq_false_iff.mpr fun hregistered => ?_
      obtain ⟨owner, howner, hregistered, -⟩ :=
        hnested.child_registered List.mem_cons_self hchild hdata hregistered
      rw [hnode output owner howner] at hregistered
      cases hregistered
private theorem Nested.allUnregistered : ∀ nodes : List MergedNode, Nested (walkAll nodes) →
    (∀ node ∈ nodes, ∀ output data, node.payloads.get output = some data →
      data.kind.isRegistered = false) →
    ∀ below ∈ walkAll nodes, ∀ output data, below.payloads.get output = some data →
    data.kind.isRegistered = false
  | [], _, _, below, hbelow => by
    rw [walkAll] at hbelow
    cases hbelow
  | node :: nodes, hnested, hnodes, below, hbelow => by
    rw [walkAll] at hnested hbelow
    obtain ⟨hnode, hnodes⟩ := List.forall_mem_cons.mp hnodes
    obtain hbelow | hbelow := List.mem_append.mp hbelow
    · exact Nested.unregistered node hnested.append_left hnode below hbelow
    · exact Nested.allUnregistered nodes hnested.append_right hnodes below hbelow
end

end MergedNode

end Concord
