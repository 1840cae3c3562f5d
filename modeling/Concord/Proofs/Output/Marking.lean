import Concord.Output.Filling
import Concord.Proofs.Output.Registry
import Concord.Proofs.Tree.Mirroring

namespace Concord

namespace PerOutput

/-- Applies a function to the value of each output. -/
def map {α β : Type} (f : α → β) (values : PerOutput α) : PerOutput β :=
  ⟨f values.first, f values.common, f values.second⟩

theorem ext_get {α : Type} {values others : PerOutput α}
    (hsame : ∀ output, values.get output = others.get output) : values = others := by
  obtain ⟨first, common, second⟩ := values
  exact congr (congr (congrArg mk (hsame .first)) (hsame .common)) (hsame .second)

theorem get_map {α β : Type} (f : α → β) (values : PerOutput α) (output : Output) :
    (values.map f).get output = f (values.get output) := by
  cases output <;> rfl

end PerOutput

/-- The declaration without its role in an output. -/
def Declaration.unmarked (declaration : Declaration) : Declaration :=
  { declaration with data := declaration.data.unmarked }

namespace MergedNode

mutual
/-- The node without the roles of its declarations. -/
def unmarked : MergedNode → MergedNode
  | ⟨payloads, children⟩ => ⟨payloads.map (·.map Data.unmarked), unmarkedAll children⟩
/-- Some nodes without the roles of their declarations. -/
def unmarkedAll : List MergedNode → List MergedNode
  | [] => []
  | node :: nodes => unmarked node :: unmarkedAll nodes
end

theorem kind?_unmarked (payloads : PerOutput (Option Data)) (children : List MergedNode) :
    (mk payloads children).kind? = (mk (payloads.map (·.map Data.unmarked)) children).kind? := by
  obtain ⟨_ | _, _ | _, _ | _⟩ := payloads <;> rfl

/-- Payloads that are alike but for the roles. -/
theorem payload_cases {payloads others : PerOutput (Option Data)}
    (hsame : others.map (·.map Data.unmarked) = payloads.map (·.map Data.unmarked))
    (output : Output) : (payloads.get output = none ∧ others.get output = none) ∨
      ∃ data other, payloads.get output = some data ∧ others.get output = some other ∧
        other.unmarked = data.unmarked := by
  have hoption := congrArg (PerOutput.get · output) hsame
  simp only [PerOutput.get_map] at hoption
  cases hdata : payloads.get output with
  | none =>
    rw [hdata, Option.map_none, Option.map_eq_none_iff] at hoption
    exact .inl ⟨rfl, hoption⟩
  | some data =>
    rw [hdata, Option.map_some] at hoption
    obtain ⟨other, hother, hdata⟩ := Option.map_eq_some_iff.mp hoption
    exact .inr ⟨data, other, rfl, hother, hdata⟩

end MergedNode

namespace Tree

/-- Two trees that differ in nothing but the roles of declarations that are pending. -/
structure AlikeBut (pending : DeclId → Prop) (tree other : Tree) : Prop where
  roots : other.roots = tree.roots
  classifiers : other.classifiers = tree.classifiers
  unmarked : ∀ id, (other.get? id).map Declaration.unmarked = (tree.get? id).map Declaration.unmarked
  same : ∀ id, ¬pending id → other.get? id = tree.get? id

namespace AlikeBut

variable {pending : DeclId → Prop} {tree other : Tree}

theorem refl (tree : Tree) : tree.AlikeBut pending tree :=
  ⟨rfl, rfl, fun _ => rfl, fun _ _ => rfl⟩

variable (halike : tree.AlikeBut pending other)
include halike

theorem mono {waiting : DeclId → Prop} (hmono : ∀ id, pending id → waiting id) :
    tree.AlikeBut waiting other :=
  ⟨halike.roots, halike.classifiers, halike.unmarked, fun id hid => halike.same id (mt (hmono id) hid)⟩

theorem size_eq : other.size = tree.size := by
  have hnone (id : DeclId) : other.get? id = none ↔ tree.get? id = none := by
    rw [← Option.map_eq_none_iff (f := Declaration.unmarked), halike.unmarked,
      Option.map_eq_none_iff]
  refine Nat.le_antisymm ?_ ?_
  · exact get?_eq_none.mp ((hnone ⟨tree.size⟩).mpr (get?_eq_none.mpr (Nat.le_refl _)))
  · exact get?_eq_none.mp ((hnone ⟨other.size⟩).mp (get?_eq_none.mpr (Nat.le_refl _)))

/-- Two declarations at one place differ in nothing but their roles. -/
theorem get?_cases (id : DeclId) : (tree.get? id = none ∧ other.get? id = none) ∨
    ∃ declaration expectation, tree.get? id = some declaration ∧
      other.get? id = some { declaration with data := { declaration.data with expectation } } := by
  have hdata := halike.unmarked id
  cases hget : tree.get? id with
  | none =>
    rw [hget, Option.map_none, Option.map_eq_none_iff] at hdata
    exact .inl ⟨rfl, hdata⟩
  | some declaration =>
    rw [hget, Option.map_some] at hdata
    obtain ⟨found, hfound, hsame⟩ := Option.map_eq_some_iff.mp hdata
    obtain ⟨data, container, children⟩ := found
    obtain ⟨hdata, hcontainer, hchildren⟩ := Declaration.mk.inj hsame
    refine .inr ⟨declaration, data.expectation, rfl, hfound.trans ?_⟩
    rw [← Data.unmarked_eq_iff.mp hdata, ← hcontainer, ← hchildren]

/-- Trees in which nothing is pending are the same. -/
theorem eq (hnone : ∀ id declaration, tree.get? id = some declaration → ¬pending id) : other = tree := by
  have hget (id : DeclId) : other.get? id = tree.get? id := by
    obtain ⟨hnone, hnone'⟩ | ⟨declaration, -, hget, -⟩ := halike.get?_cases id
    · rw [hnone, hnone']
    · exact halike.same id (hnone id declaration hget)
  have hdeclarations : other.declarations = tree.declarations :=
    Array.ext_getElem? fun index => hget ⟨index⟩
  have hroots := halike.roots
  have hclassifiers := halike.classifiers
  cases other
  cases tree
  simp only at hdeclarations hroots hclassifiers
  rw [hdeclarations, hroots, hclassifiers]

theorem classifier?_eq (name : QualifiedName) : other.classifier? name = tree.classifier? name :=
  congrArg (List.lookup name) halike.classifiers

/-- Allocating the same declarations but for their roles. -/
theorem alloc {data data' : Data} (hdata : data'.unmarked = data.unmarked)
    (hsame : ¬pending ⟨tree.size⟩ → data' = data) (container : Option DeclId) :
    (tree.alloc data container).2.AlikeBut pending (other.alloc data' container).2 := by
  have hsize := halike.size_eq
  refine ⟨halike.roots, ?_, fun id => ?_, fun id hid => ?_⟩
  · show other.indexed data' = tree.indexed data
    have hattributes := Data.unmarked_eq_iff.mp hdata
    rw [hattributes]
    simp only [indexed, halike.classifier?_eq, halike.classifiers, hsize]
    rfl
  · rw [get?_alloc, get?_alloc, hsize]
    split
    · simp only [Option.map_some, Declaration.unmarked, hdata]
    · exact halike.unmarked id
  · rw [get?_alloc, get?_alloc, hsize]
    split
    · next hnew => rw [hsame (hnew ▸ hid)]
    · exact halike.same id hid

/-- Adding the same roots but for their roles. -/
theorem addRoot {data data' : Data} (hdata : data'.unmarked = data.unmarked)
    (hsame : ¬pending ⟨tree.size⟩ → data' = data) :
    (tree.addRoot data).2.AlikeBut pending (other.addRoot data').2 := by
  have hallocated := halike.alloc hdata hsame none
  refine { hallocated with roots := ?_ }
  show other.roots ++ [⟨other.size⟩] = tree.roots ++ [⟨tree.size⟩]
  rw [halike.roots, halike.size_eq]

/-- Changing the links of a declaration. -/
theorem modify {f : Declaration → Declaration}
    (hf : ∀ declaration expectation, (f { declaration with
      data := { declaration.data with expectation } }).unmarked = (f declaration).unmarked)
    (target : DeclId) : (tree.modify target f).AlikeBut pending (other.modify target f) := by
  refine ⟨halike.roots, halike.classifiers, fun id => ?_, fun id hid => ?_⟩
  · rw [get?_modify, get?_modify]
    split
    · obtain ⟨hnone, hnone'⟩ | ⟨declaration, expectation, hget, hget'⟩ := halike.get?_cases id
      · rw [hnone, hnone']
      · simp only [hget, hget', Option.map_some, hf]
    · exact halike.unmarked id
  · rw [get?_modify, get?_modify, halike.same id hid]

/-- Replacing the data of a declaration, which is no longer pending. -/
theorem setData (data : Data) (target : DeclId) :
    (tree.setData target data).AlikeBut (fun id => pending id ∧ id ≠ target)
      (other.setData target data) := by
  refine ⟨halike.roots, halike.classifiers, ?_, fun id hid => ?_⟩
  · exact (halike.modify (fun _ _ => rfl) target).unmarked
  · rw [Tree.setData, Tree.setData, get?_modify, get?_modify]
    by_cases htarget : id = target
    · rw [if_pos htarget, if_pos htarget]
      obtain ⟨hnone, hnone'⟩ | ⟨declaration, expectation, hget, hget'⟩ := halike.get?_cases id
      · rw [hnone, hnone']
      · rw [hget, hget', Option.map_some, Option.map_some]
    · rw [if_neg htarget, if_neg htarget]
      exact halike.same id fun hpending => hid ⟨hpending, htarget⟩

theorem children_eq (id : DeclId) : other.children id = tree.children id := by
  rw [children_eq_getD, children_eq_getD]
  obtain ⟨hnone, hnone'⟩ | ⟨declaration, expectation, hget, hget'⟩ := halike.get?_cases id
  · rw [hnone, hnone']
  · rw [hget, hget']
    rfl

theorem fetch (id : DeclId) : Except.Alike (fun declaration found =>
      ∃ expectation, found = { declaration with data := { declaration.data with expectation } })
    (tree.fetch id) (other.fetch id) := by
  rw [Tree.fetch, Tree.fetch]
  obtain ⟨hnone, hnone'⟩ | ⟨declaration, expectation, hget, hget'⟩ := halike.get?_cases id
  · rw [hnone, hnone']
    exact .error _
  · rw [hget, hget']
    exact .ok ⟨expectation, rfl⟩

theorem insert (container : DeclId) (data : Data) :
    Except.Alike (fun grown grown' => grown'.1 = grown.1 ∧ grown.2.AlikeBut pending grown'.2)
      (tree.insert container data) (other.insert container data) := by
  rw [Tree.insert, Tree.insert]
  refine (halike.fetch container).bind ?_
  rintro declaration _ ⟨expectation, rfl⟩
  refine .after (checkContainer data.kind declaration.kind) fun _ => .ok ⟨?_, ?_⟩
  · exact congrArg DeclId.mk halike.size_eq
  · have hallocated : (tree.alloc data (some container)).2.AlikeBut pending
        (other.alloc data (some container)).2 := halike.alloc rfl (fun _ => rfl) _
    have hgrown := hallocated.modify
      (f := fun owner => { owner with children := owner.children ++ [⟨tree.size⟩] })
      (fun _ _ => rfl) container
    simp only [halike.size_eq]
    exact hgrown

theorem attach (parent child : DeclId) :
    Except.Alike (AlikeBut pending) (tree.attach parent child) (other.attach parent child) := by
  rw [Tree.attach, Tree.attach]
  refine (halike.fetch parent).bind ?_
  rintro container _ ⟨expectation, rfl⟩
  refine (halike.fetch child).bind ?_
  rintro declaration _ ⟨expectation', rfl⟩
  refine .after (checkContainer declaration.kind container.kind) fun _ => ?_
  have hlinked := halike.modify (f := ({ · with container := some parent })) (fun _ _ => rfl) child
  have hchildren := hlinked.children_eq parent
  have hgrown := hlinked.modify
    (f := fun owner => { owner with children := owner.children ++ [child] }) (fun _ _ => rfl) parent
  refine .ite (.error _) ?_
  dsimp only
  rw [hchildren]
  exact .ite (.error _) (.ok hgrown)

end AlikeBut

end Tree

namespace Placement

/-- Two placements that differ in nothing but the roles of the placeholders. -/
structure Alike (placement other : Placement) : Prop where
  registry : other.registry = placement.registry
  trees : ∀ output, (placement.trees.get output).AlikeBut (fun _ => True) (other.trees.get output)

variable {placement other : Placement}

theorem register_unmarked (registry : Registry) {data data' : Data}
    (hdata : data'.unmarked = data.unmarked) (output : Output) (id : DeclId) :
    registry.register data' output id = registry.register data output id := by
  rw [Data.unmarked_eq_iff.mp hdata]
  rfl

theorem placeholder_unmarked {data data' : Data} (hdata : data'.unmarked = data.unmarked) :
    data'.placeholder.unmarked = data.placeholder.unmarked := by
  obtain ⟨expectation, rfl⟩ : ∃ expectation, data' = { data with expectation } :=
    ⟨_, Data.unmarked_eq_iff.mp hdata⟩
  obtain ⟨_, _, _, _, _, payload⟩ := data
  cases payload <;> rfl

private theorem Alike.set (halike : placement.Alike other) {registry : Registry} {output : Output}
    {grown grown' : Tree} (hgrown : grown.AlikeBut (fun _ => True) grown') :
    Alike ⟨registry, placement.trees.set output grown⟩ ⟨registry, other.trees.set output grown'⟩ := by
  refine ⟨rfl, fun output' => ?_⟩
  rw [PerOutput.get_set, PerOutput.get_set]
  split
  · exact hgrown
  · exact halike.trees output'

private theorem Alike.alloc (halike : placement.Alike other) (output : Output)
    (container : Option DeclId) {data data' : Data} (hdata : data'.unmarked = data.unmarked) :
    Except.Alike (fun found found' => found'.1 = found.1 ∧ found.2.Alike found'.2)
      (placement.alloc output container data) (other.alloc output container data') := by
  have hkind : data'.kind = data.kind := Data.kind_eq_of_unmarked hdata
  have hname : data'.qualifiedName = data.qualifiedName := by
    rw [Data.unmarked_eq_iff.mp hdata]
  have htree := halike.trees output
  have hplaceholder := placeholder_unmarked hdata
  have hid : (⟨(other.trees.get output).size⟩ : DeclId) = ⟨(placement.trees.get output).size⟩ :=
    congrArg DeclId.mk htree.size_eq
  have hregister {grown grown' : DeclId × Tree} (hid : grown'.1 = grown.1)
      (hgrown : grown.2.AlikeBut (fun _ => True) grown'.2) :
      Except.Alike (fun found found' => found'.1 = found.1 ∧ found.2.Alike found'.2)
        (do
          let registry ← placement.registry.register data output grown.1
          return (grown.1, (⟨registry, placement.trees.set output grown.2⟩ : Placement)))
        (do
          let registry ← other.registry.register data' output grown'.1
          return (grown'.1, (⟨registry, other.trees.set output grown'.2⟩ : Placement))) := by
    rw [register_unmarked other.registry hdata, halike.registry, hid]
    exact .after _ fun registry => .ok ⟨rfl, halike.set hgrown⟩
  by_cases hmodule : data.kind = .module
  · simp only [Placement.alloc, hkind, if_pos hmodule, pure_bind]
    exact hregister hid (htree.addRoot hplaceholder fun hfree => absurd trivial hfree)
  · cases container with
    | none =>
      simp only [Placement.alloc, hkind, hname, if_neg hmodule]
      exact .error _
    | some owner =>
      simp only [Placement.alloc, hkind, if_neg hmodule, pure_bind]
      exact hregister hid
        (htree.alloc hplaceholder (fun hfree => absurd trivial hfree) (some owner))

/-- What is seen of the outputs while a node is placed. -/
private def AlikeSoFar (state state' : Placement × Places) : Prop :=
  state.1.Alike state'.1 ∧ state'.2 = state.2

private theorem allocIn_alike {payloads others : PerOutput (Option Data)}
    (hsame : others.map (·.map Data.unmarked) = payloads.map (·.map Data.unmarked))
    (containers : Places) {state state' : Placement × Places} (output : Output)
    (hstate : AlikeSoFar state state') :
    Except.Alike AlikeSoFar (allocIn payloads containers state output)
      (allocIn others containers state' output) := by
  obtain ⟨before, places⟩ := state
  obtain ⟨before', places'⟩ := state'
  obtain ⟨halike, rfl⟩ : before.Alike before' ∧ places' = places := hstate
  obtain ⟨hnone, hnone'⟩ | ⟨data, data', hget, hget', hdata⟩ :=
    MergedNode.payload_cases hsame output
  · simp only [allocIn, hnone, hnone']
    exact .ok ⟨halike, rfl⟩
  · simp only [allocIn, hget, hget']
    refine (halike.alloc output (containers.get output) hdata).bind ?_
    rintro ⟨id, after⟩ ⟨_, after'⟩ ⟨rfl, hafter⟩
    exact .ok ⟨hafter, rfl⟩

mutual
private theorem visit_alike : ∀ (node node' : MergedNode), node'.unmarked = node.unmarked →
    ∀ {before before' : Placement} (containers : Places), before.Alike before' →
    Except.Alike Placement.Alike (before.visit containers node) (before'.visit containers node')
  | ⟨payloads, children⟩, ⟨others, children'⟩, hsame, before, before', containers, halike => by
    obtain ⟨hpayloads, hchildren⟩ := MergedNode.mk.inj hsame
    have hkind : (MergedNode.mk others []).kind? = (MergedNode.mk payloads []).kind? := by
      rw [MergedNode.kind?_unmarked, hpayloads, ← MergedNode.kind?_unmarked]
    rw [visit, visit, hkind]
    split
    · have hstart : AlikeSoFar (before, .replicate none) (before', .replicate none) := ⟨halike, rfl⟩
      refine (Except.Alike.foldlM (fun _ _ => allocIn_alike hpayloads containers) Output.all
        hstart).bind ?_
      rintro ⟨middle, places⟩ ⟨middle', places'⟩ ⟨hmiddle, hplaces⟩
      obtain rfl : places' = places := hplaces
      exact visitAll_alike children children' hchildren places' hmiddle
    · exact .ok halike
private theorem visitAll_alike : ∀ (nodes nodes' : List MergedNode),
    MergedNode.unmarkedAll nodes' = MergedNode.unmarkedAll nodes →
    ∀ {before before' : Placement} (containers : Places), before.Alike before' →
    Except.Alike Placement.Alike (before.visitAll containers nodes)
      (before'.visitAll containers nodes')
  | [], [], _, before, before', containers, halike => .ok halike
  | [], _ :: _, hsame, _, _, _, _ => by cases hsame
  | _ :: _, [], hsame, _, _, _, _ => by cases hsame
  | node :: nodes, node' :: nodes', hsame, before, before', containers, halike => by
    obtain ⟨hnode, hnodes⟩ := List.cons.inj hsame
    rw [visitAll, visitAll]
    exact (visit_alike node node' hnode containers halike).bind fun _ _ hmiddle =>
      visitAll_alike nodes nodes' hnodes containers hmiddle
end

/-- Forests that differ in nothing but the roles of their declarations are placed alike. -/
theorem ofForest_alike {forest other : MergedForest}
    (hsame : MergedNode.unmarkedAll other.roots = MergedNode.unmarkedAll forest.roots) :
    Except.Alike Placement.Alike (ofForest forest) (ofForest other) :=
  visitAll_alike _ _ hsame _ ⟨rfl, fun _ => .refl _⟩

end Placement

namespace Filling

variable {base : OutputTrees}

/-- A placeholder that is not filled yet. -/
def Pending (base : OutputTrees) (filling : Filling) (output : Output) (id : DeclId) : Prop :=
  id.index < (base.get output).size ∧ (output, id) ∉ filling.filled

/-- Two fillings that differ in nothing but the roles of the placeholders that are not filled yet. -/
structure Alike (base : OutputTrees) (filling other : Filling) : Prop where
  filled : other.filled = filling.filled
  trees : ∀ output,
    (filling.trees.get output).AlikeBut (filling.Pending base output) (other.trees.get output)

variable {filling other : Filling} (halike : filling.Alike base other)
include halike

private theorem Alike.insert (output : Output) (container : Option DeclId) (data : Data) :
    Except.Alike (fun found found' => found'.1 = found.1 ∧ found.2.Alike base found'.2)
      (filling.insert output container data) (other.insert output container data) := by
  cases container with
  | none => exact .error _
  | some owner =>
    refine (((halike.trees output).insert owner data).mapError (RunError.model .filling)).bind ?_
    rintro ⟨id, grown⟩ ⟨_, grown'⟩ ⟨rfl, hgrown⟩
    refine .ok ⟨rfl, halike.filled, fun output' => ?_⟩
    show ((filling.trees.set output grown).get output').AlikeBut (filling.Pending base output')
      ((other.trees.set output grown').get output')
    rw [PerOutput.get_set, PerOutput.get_set]
    split
    · next heq => exact heq ▸ hgrown
    · exact halike.trees output'

private theorem Alike.fill (binding : Binding) (output : Output) (container : Option DeclId)
    (data : Data) :
    Except.Alike (fun found found' => found'.1 = found.1 ∧ found.2.Alike base found'.2)
      (filling.fill binding output container data) (other.fill binding output container data) := by
  have htree := halike.trees output
  have hfinish (id : DeclId) {grown grown' : Tree}
      (hgrown : grown.AlikeBut (fun found => filling.Pending base output found ∧ found ≠ id) grown') :
      Alike base ⟨filling.trees.set output grown, (output, id) :: filling.filled⟩
        ⟨other.trees.set output grown', (output, id) :: filling.filled⟩ := by
    refine ⟨rfl, fun output' => ?_⟩
    show ((filling.trees.set output grown).get output').AlikeBut _
      ((other.trees.set output grown').get output')
    rw [PerOutput.get_set, PerOutput.get_set]
    by_cases hsame : output' = output
    · subst hsame
      rw [if_pos rfl, if_pos rfl]
      refine hgrown.mono fun found ⟨⟨hlt, hnot⟩, hne⟩ => ⟨hlt, ?_⟩
      simpa [hne] using hnot
    · rw [if_neg hsame, if_neg hsame]
      refine (halike.trees output').mono fun found ⟨hlt, hnot⟩ => ⟨hlt, ?_⟩
      simpa [hsame] using hnot
  rw [Filling.fill, Filling.fill]
  cases binding.registry.find? data.kind data.qualifiedName output with
  | none => exact .error _
  | some id =>
    dsimp only
    rw [halike.filled]
    refine .ite (.error _) (((htree.fetch id).mapError (RunError.model .filling)).bind ?_)
    rintro placeholder _ ⟨expectation, rfl⟩
    refine .ite (.error _) ?_
    have hset := htree.setData data id
    cases container with
    | none => exact .ok ⟨rfl, hfinish id hset⟩
    | some owner =>
      refine ((hset.attach owner id).mapError (RunError.model .filling)).bind ?_
      exact fun grown grown' hgrown => .ok ⟨rfl, hfinish id hgrown⟩

private theorem Alike.place (binding : Binding) (output : Output) (container : Option DeclId)
    (data : Data) :
    Except.Alike (fun found found' => found'.1 = found.1 ∧ found.2.Alike base found'.2)
      (filling.place binding output container data) (other.place binding output container data) := by
  rw [Filling.place, Filling.place]
  split
  · exact halike.fill binding output container data
  · exact halike.insert output container data

/-- What is seen of the outputs while a node is put into them. -/
private def AlikeSoFar (base : OutputTrees) (state state' : Filling × Places) : Prop :=
  state.1.Alike base state'.1 ∧ state'.2 = state.2

omit halike

/-- Data that is bound is the same but for its role. -/
private theorem data_alike (binding : Binding) (output : Output) {data data' : Data}
    (hdata : data'.unmarked = data.unmarked) :
    Except.Alike (fun bound bound' => bound'.unmarked = bound.unmarked) (binding.data output data)
      (binding.data output data') := by
  obtain ⟨expectation, rfl⟩ : ∃ expectation, data' = { data with expectation } :=
    ⟨_, Data.unmarked_eq_iff.mp hdata⟩
  exact .after (data.payload.mapRefsM (binding.ref data.qualifiedName output)) fun payload => .ok rfl

private theorem placeIn_alike (binding : Binding) {payloads others : PerOutput (Option Data)}
    (hsame : others.map (·.map Data.unmarked) = payloads.map (·.map Data.unmarked))
    (containers : Places) {state state' : Filling × Places} (output : Output)
    (hstate : AlikeSoFar base state state') :
    Except.Alike (AlikeSoFar base) (placeIn binding payloads containers state output)
      (placeIn binding others containers state' output) := by
  obtain ⟨before, places⟩ := state
  obtain ⟨before', places'⟩ := state'
  obtain ⟨halike, rfl⟩ : before.Alike base before' ∧ places' = places := hstate
  obtain ⟨hnone, hnone'⟩ | ⟨data, data', hget, hget', hdata⟩ :=
    MergedNode.payload_cases hsame output
  · simp only [placeIn, hnone, hnone']
    exact .ok ⟨halike, rfl⟩
  · have hcommon : others.common.isSome = payloads.common.isSome := by
      obtain ⟨hnone, hnone'⟩ | ⟨_, _, hsome, hsome', -⟩ := MergedNode.payload_cases hsame .common
      · exact (congrArg Option.isSome hnone').trans (congrArg Option.isSome hnone).symm
      · exact (congrArg Option.isSome hsome').trans (congrArg Option.isSome hsome).symm
    simp only [placeIn, hget, hget', hcommon]
    refine (data_alike binding output hdata).bind fun bound bound' hbound => ?_
    have hmarked (expectation : Expectation) :
        { bound' with expectation } = { bound with expectation } := by
      rw [Data.unmarked_eq_iff.mp hbound]
    rw [Data.kind_eq_of_unmarked hbound, hmarked]
    refine (halike.place binding output (containers.get output) _).bind ?_
    rintro ⟨id, after⟩ ⟨_, after'⟩ ⟨rfl, hafter⟩
    exact .ok ⟨hafter, rfl⟩

mutual
private theorem visit_alike (binding : Binding) : ∀ (node node' : MergedNode),
    node'.unmarked = node.unmarked →
    ∀ {before before' : Filling} (containers : Places), before.Alike base before' →
    Except.Alike (Filling.Alike base) (before.visit binding containers node)
      (before'.visit binding containers node')
  | ⟨payloads, children⟩, ⟨others, children'⟩, hsame, before, before', containers, halike => by
    obtain ⟨hpayloads, hchildren⟩ := MergedNode.mk.inj hsame
    have hstart : AlikeSoFar base (before, .replicate none) (before', .replicate none) :=
      ⟨halike, rfl⟩
    rw [visit, visit]
    refine (Except.Alike.foldlM (fun _ _ => placeIn_alike binding hpayloads containers) Output.all
      hstart).bind ?_
    rintro ⟨middle, places⟩ ⟨middle', places'⟩ ⟨hmiddle, hplaces⟩
    obtain rfl : places' = places := hplaces
    exact visitAll_alike binding children children' hchildren places' hmiddle
private theorem visitAll_alike (binding : Binding) : ∀ (nodes nodes' : List MergedNode),
    MergedNode.unmarkedAll nodes' = MergedNode.unmarkedAll nodes →
    ∀ {before before' : Filling} (containers : Places), before.Alike base before' →
    Except.Alike (Filling.Alike base) (before.visitAll binding containers nodes)
      (before'.visitAll binding containers nodes')
  | [], [], _, before, before', containers, halike => .ok halike
  | [], _ :: _, hsame, _, _, _, _ => by cases hsame
  | _ :: _, [], hsame, _, _, _, _ => by cases hsame
  | node :: nodes, node' :: nodes', hsame, before, before', containers, halike => by
    obtain ⟨hnode, hnodes⟩ := List.cons.inj hsame
    rw [visitAll, visitAll]
    exact (visit_alike binding node node' hnode containers halike).bind fun _ _ hmiddle =>
      visitAll_alike binding nodes nodes' hnodes containers hmiddle
end

/-- A filling after which no placeholder is left. -/
def Finished (base : OutputTrees) (filling : Filling) : Prop :=
  ∀ output id, ¬filling.Pending base output id

end Filling

/-- Forests that differ in nothing but the roles of their declarations have the same outputs, if the
placeholders of one of them are all filled. Placing copies the roles into the placeholders, but
filling replaces them by those of the output. -/
theorem Placement.fill_alike {forest other : MergedForest}
    (hsame : MergedNode.unmarkedAll other.roots = MergedNode.unmarkedAll forest.roots)
    {placement : Placement} (hplacement : ofForest forest = .ok placement)
    {options : CompiledOptions} {filling : Filling}
    (hfilling : Filling.visitAll ⟨placement.trees, []⟩ ⟨placement.registry, options⟩
      (.replicate none) forest.roots = .ok filling)
    (hfinished : filling.Finished placement.trees) :
    ∃ placement', ofForest other = .ok placement' ∧
      placement'.fill options other = .ok filling.trees := by
  obtain ⟨placement', hplacement', halike⟩ := (ofForest_alike hsame).exists_ok hplacement
  have hstart : Filling.Alike placement.trees ⟨placement.trees, []⟩ ⟨placement'.trees, []⟩ := by
    refine ⟨rfl, fun output => { halike.trees output with same := fun id hid => ?_ }⟩
    have hnone : (placement.trees.get output).get? id = none :=
      Tree.get?_eq_none.mpr (Nat.le_of_not_lt fun hlt => hid ⟨hlt, List.not_mem_nil⟩)
    obtain ⟨-, hnone'⟩ | ⟨declaration, -, hget, -⟩ := (halike.trees output).get?_cases id
    · exact hnone'.trans hnone.symm
    · cases hnone.symm.trans hget
  obtain ⟨filling', hfilling', hfilled⟩ := (Filling.visitAll_alike ⟨placement.registry, options⟩
    forest.roots other.roots hsame (.replicate none) hstart).exists_ok hfilling
  rw [← halike.registry] at hfilling'
  refine ⟨placement', hplacement', Except.bind_eq_ok.mpr ⟨filling', hfilling', congrArg _ ?_⟩⟩
  exact PerOutput.ext_get fun output =>
    (hfilled.trees output).eq fun id _ _ => hfinished output id

end Concord
