import Concord.Proofs.Output.Allotment

namespace Concord

/-- Entering fails where the name is taken. -/
theorem Registry.register_error {registry : Registry} {data : Data} {output : Output} {id : DeclId}
    {error : RunError} (hregistered : data.kind.isRegistered = true)
    (herror : registry.register data output id = .error error) :
    error = .duplicateEntry data.qualifiedName data.kind output .placing ∧
      ∃ other, registry.find? data.kind data.qualifiedName output = some other := by
  obtain ⟨names, hnames⟩ := registry.exists_names? hregistered
  rw [register, hnames] at herror
  rw [find?_eq, hnames]
  cases hfound : (names.get data.qualifiedName).get output with
  | none => simp [hfound, pure, Except.pure] at herror
  | some other =>
    simp [hfound, throw, throwThe, MonadExceptOf.throw, bind, Except.bind] at herror
    exact ⟨herror.symm, other, hfound⟩

namespace Placement

variable {placement before middle after : Placement} {error : RunError}

private theorem alloc_error {output : Output} {container : Option DeclId} {data : Data}
    (hregistered : data.kind.isRegistered = true)
    (hcontainer : data.kind = .module ∨ container.isSome = true)
    (herror : before.alloc output container data = .error error) :
    error = .duplicateEntry data.qualifiedName data.kind output .placing ∧
      ∃ id, before.registry.find? data.kind data.qualifiedName output = some id := by
  by_cases hmodule : data.kind = .module
  · simp only [alloc, if_pos hmodule, pure_bind] at herror
    obtain herror | ⟨_, -, herror⟩ := Except.bind_eq_error.mp herror
    · exact Registry.register_error hregistered herror
    · cases herror
  · obtain ⟨owner, rfl⟩ := Option.isSome_iff_exists.mp (hcontainer.resolve_left hmodule)
    simp only [alloc, if_neg hmodule, pure_bind] at herror
    obtain herror | ⟨_, -, herror⟩ := Except.bind_eq_error.mp herror
    · exact Registry.register_error hregistered herror
    · cases herror

/-- The name of a declaration among some nodes is taken, be it before them or by one of them, and
the error says so. -/
def Repeats (before : Placement) (nodes : List MergedNode) (error : RunError) : Prop :=
  ∃ done node rest output data, nodes = done ++ node :: rest ∧
    node.payloads.get output = some data ∧ data.kind.isRegistered = true ∧
    error = .duplicateEntry data.qualifiedName data.kind output .placing ∧
    ((∃ id, before.registry.find? data.kind data.qualifiedName output = some id) ∨
      Names done data.kind data.qualifiedName output)

namespace Repeats

variable {nodes others : List MergedNode}

theorem append_left (hrepeats : Repeats before nodes error) :
    Repeats before (nodes ++ others) error := by
  obtain ⟨done, node, rest, output, data, rfl, hfails⟩ := hrepeats
  exact ⟨done, node, rest ++ others, output, data, by rw [List.append_assoc, List.cons_append], hfails⟩

theorem append_right (henters : Enters nodes before middle) (hrepeats : Repeats middle others error) :
    Repeats before (nodes ++ others) error := by
  obtain ⟨done, node, rest, output, data, rfl, hdata, hregistered, herror, htaken⟩ := hrepeats
  refine ⟨nodes ++ done, node, rest, output, data, (List.append_assoc ..).symm, hdata, hregistered,
    herror, ?_⟩
  obtain ⟨id, hfind⟩ | ⟨other, hother, hnames⟩ := htaken
  · obtain hbefore | ⟨other, hother, hnames⟩ := henters _ _ _ _ hfind
    · exact .inl ⟨id, hbefore⟩
    · exact .inr ⟨other, List.mem_append_left _ hother, hnames⟩
  · exact .inr ⟨other, List.mem_append_right _ hother, hnames⟩

end Repeats

private theorem allocIn_error {payloads : PerOutput (Option Data)} {containers : Places}
    (hready : ∀ output data, payloads.get output = some data → data.kind.isRegistered = true ∧
      (data.kind = .module ∨ (containers.get output).isSome = true))
    (herror : Output.all.foldlM (allocIn payloads containers) (before, .replicate none) =
      .error error) (children : List MergedNode) :
    Repeats before [.mk payloads children] error := by
  obtain ⟨⟨middle, noted⟩, output, hseen, hstep⟩ : ∃ middle output,
      seen middle output = seen _ output ∧ allocIn payloads containers middle output = .error error :=
    Output.foldlM_all_error allocIn_other herror
  cases hpayload : payloads.get output with
  | none =>
    simp only [allocIn, hpayload] at hstep
    cases hstep
  | some data =>
    simp only [allocIn, hpayload] at hstep
    obtain hstep | ⟨_, -, hstep⟩ := Except.bind_eq_error.mp hstep
    · obtain ⟨hregistered, hcontainer⟩ := hready output data hpayload
      obtain ⟨rfl, id, hfind⟩ := alloc_error hregistered hcontainer hstep
      obtain ⟨-, hrest⟩ := Prod.mk.inj hseen
      have hsame := congrFun (congrFun (Prod.mk.inj hrest).1 data.kind) data.qualifiedName
      exact ⟨[], _, [], output, data, rfl, hpayload, hregistered, rfl, .inl ⟨id, hsame ▸ hfind⟩⟩
    · cases hstep

/-- The registered data of a node can get its placeholder: it is that of modules, or its container
has one. -/
def Housed (containers : Places) (node : MergedNode) : Prop :=
  ∀ output data, node.payloads.get output = some data → data.kind.isRegistered = true →
    data.kind = .module ∨ (containers.get output).isSome = true

private theorem allocIn_allocated {payloads : PerOutput (Option Data)} {containers places : Places}
    (hrun : Output.all.foldlM (allocIn payloads containers) (before, .replicate none) =
      .ok (after, places)) {output : Output} {data : Data} (hdata : payloads.get output = some data) :
    before.registry.find? data.kind data.qualifiedName output = none ∧
      ∃ id, places.get output = some id ∧
        after.registry.find? data.kind data.qualifiedName output = some id := by
  obtain ⟨⟨middle, noted⟩, ⟨done, placed⟩, hmiddle, hstep, hafter⟩ :=
    Output.foldlM_all output allocIn_other hrun
  simp only [allocIn, hdata] at hstep
  obtain ⟨⟨id, allocated⟩, halloc, heq⟩ := Except.bind_eq_ok.mp hstep
  cases heq
  obtain ⟨-, hregister, -⟩ := alloc_eq_ok halloc
  obtain ⟨-, hfree, -⟩ := Registry.register_eq_ok.mp hregister
  obtain ⟨-, hbefore⟩ := Prod.mk.inj hmiddle
  obtain ⟨-, hdone⟩ := Prod.mk.inj hafter
  obtain ⟨hfind, hplace⟩ := Prod.mk.inj hdone
  refine ⟨?_, id, hplace.trans (PerOutput.get_set_self _ _ _), ?_⟩
  · exact (congrFun (congrFun (Prod.mk.inj hbefore).1 data.kind) data.qualifiedName).symm.trans hfree
  · refine (congrFun (congrFun hfind data.kind) data.qualifiedName).trans ?_
    show allocated.registry.find? data.kind data.qualifiedName output = some id
    rw [Registry.find?_register hregister, if_pos ⟨rfl, rfl, Kind.shares_self _⟩]

/-- Below a node with placeholders, everything can get its placeholder. -/
private theorem Housed.below {payloads : PerOutput (Option Data)} {children : List MergedNode}
    {containers places : Places} (hnested : MergedNode.Nested (.mk payloads children :: nodes))
    (hrun : Output.all.foldlM (allocIn payloads containers) (before, .replicate none) =
      .ok (after, places)) (child : MergedNode) (hchild : child ∈ children) : Housed places child := by
  intro output data hdata hregistered
  obtain ⟨owner, howner, -⟩ := hnested.child_registered List.mem_cons_self hchild hdata hregistered
  obtain ⟨-, id, hid, -⟩ := allocIn_allocated hrun howner
  exact .inr (Option.isSome_iff_exists.mpr ⟨id, hid⟩)

mutual
private theorem visit_error : ∀ (node : MergedNode) {before : Placement} {containers : Places},
    MergedNode.Nested node.walk → Housed containers node →
    before.visit containers node = .error error → Repeats before node.walk error
  | ⟨payloads, children⟩, before, containers, hnested, hhoused, herror => by
    rw [MergedNode.walk] at hnested ⊢
    rw [visit] at herror
    split at herror
    · next hregistered =>
      have hself (output : Output) (data : Data) (hdata : payloads.get output = some data) :
          data.kind.isRegistered = true :=
        (hnested.registered _ List.mem_cons_self output data hdata).trans hregistered
      rw [← List.singleton_append]
      obtain herror | ⟨⟨middle, places⟩, hmiddle, herror⟩ := Except.bind_eq_error.mp herror
      · have hready (output : Output) (data : Data) (hdata : payloads.get output = some data) :=
          And.intro (hself output data hdata) (hhoused output data hdata (hself output data hdata))
        exact (allocIn_error hready herror children).append_left
      · exact (visitAll_error children hnested.tail (Housed.below hnested hmiddle) herror).append_right
          (allocIn_enters hmiddle children)
    · cases herror
/-- Placing fails only at a name that is taken. -/
private theorem visitAll_error : ∀ (nodes : List MergedNode) {before : Placement}
    {containers : Places}, MergedNode.Nested (MergedNode.walkAll nodes) →
    (∀ node ∈ nodes, Housed containers node) → before.visitAll containers nodes = .error error →
    Repeats before (MergedNode.walkAll nodes) error
  | [], _, _, _, _, herror => by cases herror
  | node :: nodes, before, containers, hnested, hhoused, herror => by
    rw [MergedNode.walkAll] at hnested ⊢
    rw [visitAll] at herror
    obtain ⟨hhouse, hhoused⟩ := List.forall_mem_cons.mp hhoused
    obtain herror | ⟨middle, hmiddle, herror⟩ := Except.bind_eq_error.mp herror
    · exact (visit_error node hnested.append_left hhouse herror).append_left
    · exact (visitAll_error nodes hnested.append_right hhoused herror).append_right
        (visit_enters hmiddle)
end

/-- The names of the nodes were free, no two of them clash, and all of them are entered. -/
structure Enrols (nodes : List MergedNode) (before after : Placement) : Prop where
  free : before.Free nodes
  distinct : ∀ output,
    (nodes.filterMap (·.payloads.get output)).Pairwise fun data other => ¬data.Clashes other
  entered : ∀ node ∈ nodes, ∀ output data, node.payloads.get output = some data →
    data.kind.isRegistered = true →
    ∃ id, after.registry.find? data.kind data.qualifiedName output = some id

namespace Enrols

variable {node : MergedNode} {nodes others : List MergedNode}

theorem nil : Enrols [] before before :=
  ⟨nofun, fun _ => .nil, nofun⟩

/-- What is not registered is not entered. -/
theorem unregistered (hnodes : ∀ node ∈ nodes, ∀ output data, node.payloads.get output = some data →
    data.kind.isRegistered = false) : Enrols nodes before before := by
  have hnothing {node : MergedNode} (hnode : node ∈ nodes) {output : Output} {data : Data}
      (hdata : node.payloads.get output = some data) : data.kind.isRegistered ≠ true :=
    Bool.eq_false_iff.mp (hnodes node hnode output data hdata)
  refine ⟨fun node hnode output data hdata h => absurd h (hnothing hnode hdata), fun output => ?_,
    fun node hnode output data hdata h => absurd h (hnothing hnode hdata)⟩
  refine List.pairwise_of_forall_mem_list fun data hdata other _ hclashes => ?_
  obtain ⟨node, hnode, hdata⟩ := List.mem_filterMap.mp hdata
  exact hnothing hnode hdata hclashes.1

theorem append (hfirst : Enrols nodes before middle) (hsecond : Enrols others middle after)
    (hbefore : before.Keeps middle) (hafter : middle.Keeps after) :
    Enrols (nodes ++ others) before after where
  free := by
    refine List.forall_mem_append.mpr ⟨hfirst.free, fun node hnode output data hdata h => ?_⟩
    refine Option.eq_none_iff_forall_ne_some.mpr fun id hfind => ?_
    have hfree := hsecond.free node hnode output data hdata h
    rw [hbefore.entered _ _ _ _ hfind] at hfree
    cases hfree
  distinct output := by
    rw [List.filterMap_append]
    refine List.pairwise_append.mpr ⟨hfirst.distinct output, hsecond.distinct output, ?_⟩
    rintro data hdata other hother ⟨hregistered, hshares, hname⟩
    obtain ⟨node, hnode, hdata⟩ := List.mem_filterMap.mp hdata
    obtain ⟨later, hlater, hother⟩ := List.mem_filterMap.mp hother
    obtain ⟨id, hfind⟩ := hfirst.entered node hnode output data hdata hregistered
    have hshares' : other.kind.shares data.kind = true := Kind.shares_comm _ _ ▸ hshares
    have hfree := hsecond.free later hlater output other hother
      (Kind.isRegistered_of_shares hshares' hregistered)
    rw [← Registry.find?_of_shares hshares, ← hname, hfind] at hfree
    cases hfree
  entered := by
    refine List.forall_mem_append.mpr ⟨fun node hnode output data hdata h => ?_, hsecond.entered⟩
    obtain ⟨id, hfind⟩ := hfirst.entered node hnode output data hdata h
    exact ⟨id, hafter.entered _ _ _ _ hfind⟩

end Enrols

private theorem allocIn_enrols {payloads : PerOutput (Option Data)} {containers places : Places}
    (hrun : Output.all.foldlM (allocIn payloads containers) (before, .replicate none) =
      .ok (after, places)) (children : List MergedNode) :
    Enrols [.mk payloads children] before after := by
  refine ⟨?_, fun output => ?_, ?_⟩
  · refine List.forall_mem_singleton.mpr fun output data hdata _ => ?_
    exact (allocIn_allocated hrun hdata).1
  · cases hpayload : payloads.get output with
    | none => simp [hpayload]
    | some data => simp [hpayload]
  · refine List.forall_mem_singleton.mpr fun output data hdata _ => ?_
    obtain ⟨-, id, -, hfind⟩ := allocIn_allocated hrun hdata
    exact ⟨id, hfind⟩

mutual
private theorem visit_enrols : ∀ (node : MergedNode) {before after : Placement} {containers : Places},
    MergedNode.Nested node.walk → before.visit containers node = .ok after →
    Enrols node.walk before after
  | ⟨payloads, children⟩, before, after, containers, hnested, hrun => by
    rw [visit] at hrun
    split at hrun
    · obtain ⟨⟨middle, places⟩, hmiddle, hrun⟩ := Except.bind_eq_ok.mp hrun
      rw [MergedNode.walk] at hnested ⊢
      rw [← List.singleton_append]
      exact (allocIn_enrols hmiddle children).append (visitAll_enrols children hnested.tail hrun)
        (allocIn_keeps hmiddle) (visitAll_keeps hrun)
    · next hskipped =>
      cases hrun
      refine .unregistered (hnested.unregistered _ fun output data hdata => ?_)
      rw [hnested.registered _ (MergedNode.mem_walk_self _) output data hdata]
      exact Bool.eq_false_iff.mpr hskipped
/-- Where placing succeeds, every registered declaration got a name of its own. -/
private theorem visitAll_enrols : ∀ (nodes : List MergedNode) {before after : Placement}
    {containers : Places}, MergedNode.Nested (MergedNode.walkAll nodes) →
    before.visitAll containers nodes = .ok after →
    Enrols (MergedNode.walkAll nodes) before after
  | [], before, after, containers, _, hrun => by
    cases hrun
    exact .nil
  | node :: nodes, before, after, containers, hnested, hrun => by
    rw [MergedNode.walkAll] at hnested ⊢
    rw [visitAll] at hrun
    obtain ⟨middle, hmiddle, hrun⟩ := Except.bind_eq_ok.mp hrun
    exact (visit_enrols node hnested.append_left hmiddle).append
      (visitAll_enrols nodes hnested.append_right hrun) (visit_keeps hmiddle) (visitAll_keeps hrun)
end

variable {forest : MergedForest}
  (hnested : MergedNode.Nested forest.nodes)
  (hroots : ∀ root ∈ forest.roots, ∀ output data, root.payloads.get output = some data →
    data.kind = .module)
include hnested hroots

/-- The placeholders of a forest can be allocated exactly when no two registered declarations of an
output clash. -/
theorem ofForest_succeeds_iff :
    (ofForest forest).Succeeds ↔ MergedNode.Orderly forest.nodes := by
  constructor
  · rintro ⟨placement, hplacement⟩
    exact ⟨hnested, (visitAll_enrols forest.roots hnested hplacement).distinct⟩
  · intro horderly
    obtain ⟨placement, hplacement, -⟩ := ofForest_succeeds horderly hroots
    exact ⟨placement, hplacement⟩

/-- Placing fails at a declaration that clashes with an earlier one, and reports its name. -/
theorem ofForest_error (herror : ofForest forest = .error error) :
    ∃ done node rest output data other, forest.nodes = done ++ node :: rest ∧
      node.payloads.get output = some data ∧
      error = .duplicateEntry data.qualifiedName data.kind output .placing ∧
      (∃ earlier ∈ done, earlier.payloads.get output = some other) ∧ other.Clashes data := by
  obtain ⟨done, node, rest, output, data, hnodes, hdata, hregistered, herror, htaken⟩ :=
    visitAll_error forest.roots hnested
      (fun root hroot output data hdata _ => .inl (hroots root hroot output data hdata)) herror
  obtain ⟨id, hfind⟩ | ⟨earlier, hearlier, other, hother, hshares, hname⟩ := htaken
  · rw [empty, Registry.find?_empty] at hfind
    cases hfind
  · rw [Kind.shares_comm] at hshares
    exact ⟨done, node, rest, output, data, other, hnodes, hdata, herror,
      ⟨earlier, hearlier, hother⟩, Kind.isRegistered_of_shares hshares hregistered, hshares,
      hname.symm⟩

end Placement

end Concord
