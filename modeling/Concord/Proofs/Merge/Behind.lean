import Concord.Proofs.Merge.Mergeable
import Concord.Proofs.Merge.Sound
import Concord.Proofs.Steps

namespace Concord

namespace Origin

/-- Nodes that come from the given declarations, by origins that all have a property. -/
def Behind (sides : Sides) (P : Origin → Prop) (pairs : List (Option DeclId × Option DeclId))
    (merged : List MergedNode) : Prop :=
  ∃ origins, merged = nodes sides origins ∧ origins.map ids = pairs ∧
    ∀ origin ∈ walkAll origins, P origin

namespace Behind

variable {sides : Sides} {P : Origin → Prop} {pairs others : List (Option DeclId × Option DeclId)}
  {merged rest : List MergedNode}

theorem nil : Behind sides P [] [] :=
  ⟨[], rfl, rfl, nofun⟩

theorem mono {P' : Origin → Prop} (hbehind : Behind sides P pairs merged)
    (himp : ∀ origin, P origin → P' origin) : Behind sides P' pairs merged := by
  obtain ⟨origins, hnodes, hids, hP⟩ := hbehind
  exact ⟨origins, hnodes, hids, fun origin horigin => himp origin (hP origin horigin)⟩

theorem append (hpairs : Behind sides P pairs merged) (hothers : Behind sides P others rest) :
    Behind sides P (pairs ++ others) (merged ++ rest) := by
  obtain ⟨origins, rfl, rfl, hP⟩ := hpairs
  obtain ⟨more, rfl, rfl, hP'⟩ := hothers
  refine ⟨origins ++ more, ?_, by rw [List.map_append], ?_⟩
  · simp only [nodes_eq_map, List.map_append]
  · rw [walkAll_append]
    exact List.forall_mem_append.mpr ⟨hP, hP'⟩

/-- A node over others. -/
theorem single (common : Option Data) {first second : Option DeclId}
    {payloads : PerOutput (Option Data)} (hbelow : Behind sides P pairs merged)
    (hpayloads : payloads =
      ⟨first.bind sides.first.detached?, common, second.bind sides.second.detached?⟩)
    (hP : ∀ children : List Origin, children.map ids = pairs → (∀ below ∈ walkAll children, P below) →
      P (mk first second common children)) :
    Behind sides P [(first, second)] [⟨payloads, merged⟩] := by
  obtain ⟨children, rfl, hids, hchildren⟩ := hbelow
  refine ⟨[mk first second common children], ?_, rfl, ?_⟩
  · rw [hpayloads, nodes, node, nodes]
  · simp only [walkAll, walk, List.append_nil]
    exact List.forall_mem_cons.mpr ⟨hP children hids hchildren, hchildren⟩

/-- Nodes are collected in the order of what they come from. -/
theorem mapM {step : DeclId → Except RunError MergedNode}
    (alone : DeclId → Option DeclId × Option DeclId) {ids : List DeclId}
    (hstep : ∀ id ∈ ids, ∀ node, step id = .ok node → Behind sides P [alone id] [node])
    {merged : List MergedNode} (hrun : ids.mapM step = .ok merged) :
    Behind sides P (ids.map alone) merged := by
  induction ids generalizing merged with
  | nil =>
    cases hrun
    exact .nil
  | cons id ids ih =>
    obtain ⟨hid, hids⟩ := List.forall_mem_cons.mp hstep
    rw [List.mapM_cons] at hrun
    obtain ⟨node, hnode, hrun⟩ := Except.bind_eq_ok.mp hrun
    obtain ⟨others, hothers, hrun⟩ := Except.bind_eq_ok.mp hrun
    cases hrun
    exact append (hid node hnode) (ih hids hothers)

/-- A declaration of one side and everything below it, where something is known of all of these. -/
theorem singleWithin {tree : Tree} {output : Output} {known : DeclId → Prop}
    (hbelow : ∀ id, known id → ∀ child ∈ tree.children id, known child)
    (alone : DeclId → Option DeclId × Option DeclId)
    (hsingle : ∀ id data merged, known id → tree.detached? id = some data →
      Behind sides P ((tree.children id).map alone) merged →
      Behind sides P [alone id] [.single output data merged])
    (levels : Nat) {id : DeclId} (hid : known id) {node : MergedNode}
    (hrun : tree.singleWithin output levels id = .ok node) : Behind sides P [alone id] [node] := by
  induction levels generalizing id node with
  | zero => cases hrun
  | succ levels ih =>
    rw [Tree.singleWithin] at hrun
    cases hdata : tree.detached? id with
    | none =>
      rw [hdata] at hrun
      cases hrun
    | some data =>
      simp only [hdata] at hrun
      obtain ⟨merged, hmerged, hrun⟩ := Except.bind_eq_ok.mp hrun
      cases hrun
      exact hsingle id data merged hid hdata
        (mapM alone (fun child hchild node hnode => ih (hbelow id hid child hchild) hnode) hmerged)

/-- A declaration of the first side that stays alone, with everything below it. -/
theorem first_alone {known : DeclId → Prop}
    (hbelow : ∀ id, known id → ∀ child ∈ sides.first.children id, known child)
    (hP : ∀ id children, known id → children.map ids = (sides.first.children id).map (some ·, none) →
      P (mk (some id) none none children)) {a : DeclId} (ha : known a) {node : MergedNode}
    (hrun : sides.first.single .first a = .ok node) : Behind sides P [(some a, none)] [node] := by
  refine singleWithin hbelow (some ·, none) (fun id data merged hid hdata hmerged => ?_) _ ha hrun
  refine hmerged.single none ?_ fun children hids _ => hP id children hid hids
  simp only [Option.bind_some, hdata]
  rfl

/-- A declaration of the second side that stays alone, with everything below it. -/
theorem second_alone {known : DeclId → Prop}
    (hbelow : ∀ id, known id → ∀ child ∈ sides.second.children id, known child)
    (hP : ∀ id children, known id → children.map ids = (sides.second.children id).map (none, some ·) →
      P (mk none (some id) none children)) {b : DeclId} (hb : known b) {node : MergedNode}
    (hrun : sides.second.single .second b = .ok node) : Behind sides P [(none, some b)] [node] := by
  refine singleWithin hbelow (none, some ·) (fun id data merged hid hdata hmerged => ?_) _ hb hrun
  refine hmerged.single none ?_ fun children hids _ => hP id children hid hids
  simp only [Option.bind_some, hdata]
  rfl

end Behind

/-- What an origin of a merge is like that succeeded: it stands for what its sides declare, and
those below it stand for some of what these own. If the whole of both trees is known to be merged,
nothing of it is missing. -/
structure Derived (sides : Sides) (good : DeclId → DeclId → Data → Prop) (whole : Prop)
    (origin : Origin) : Prop where
  source : origin.first?.isSome ∨ origin.second?.isSome
  common : origin.common?.isSome = (origin.first?.isSome && origin.second?.isSome)
  kinds : ∀ a b, origin.first? = some a → origin.second? = some b →
    (sides.first.declaration a).kind = (sides.second.declaration b).kind
  good : ∀ a b common, origin.first? = some a → origin.second? = some b →
    origin.common? = some common → good a b common
  firsts : (origin.children.map ids).filterMap (·.1) ⊆ origin.first?.elim [] sides.first.children
  seconds : (origin.children.map ids).filterMap (·.2) ⊆
    origin.second?.elim [] sides.second.children
  siblings : whole → Siblings (origin.IsFunction sides)
    (origin.first?.elim [] sides.first.children) (origin.second?.elim [] sides.second.children)
    (origin.children.map ids)

variable {sides : Sides} {good : DeclId → DeclId → Data → Prop} {whole : Prop}

/-- In a merge of the whole trees origins are sound. -/
theorem Derived.sound {origin : Origin} (hderived : origin.Derived sides good whole)
    (hwhole : whole) : origin.Sound sides good where
  source := hderived.source
  common := hderived.common
  kinds := hderived.kinds
  siblings := hderived.siblings hwhole
  good := hderived.good

namespace Derived

/-- The origin of a declaration of the first side that stays alone. -/
theorem first_alone {a : DeclId} {children : List Origin}
    (hids : children.map ids = (sides.first.children a).map (some ·, none)) :
    (Origin.mk (some a) none none children).Derived sides good whole := by
  refine ⟨.inl rfl, rfl, ?_, ?_, ?_, ?_, ?_⟩
  · intro _ _ _ hb
    cases hb
  · intro _ _ _ _ hb
    cases hb
  all_goals rw [show (Origin.mk _ _ _ children).children.map ids = _ from hids]
  · simp [first?]
  · simp [second?]
  · exact fun _ => .firstsAlone _

/-- The origin of a declaration of the second side that stays alone. -/
theorem second_alone {b : DeclId} {children : List Origin}
    (hids : children.map ids = (sides.second.children b).map (none, some ·)) :
    (Origin.mk none (some b) none children).Derived sides good whole := by
  refine ⟨.inr rfl, rfl, ?_, ?_, ?_, ?_, ?_⟩
  · intro _ _ ha
    cases ha
  · intro _ _ _ ha
    cases ha
  all_goals rw [show (Origin.mk _ _ _ children).children.map ids = _ from hids]
  · simp [first?]
  · simp [second?]
  · exact fun _ => .secondsAlone _

/-- The origin of two declarations that fit, over those of their children. -/
theorem shared {a b : DeclId} {first common second : Data} {children : List Origin}
    {pairs : List (Option DeclId × Option DeclId)} (hids : children.map ids = pairs)
    (hfits : sides.Fits a b first second) (hgood : good a b common)
    (hfirsts : pairs.filterMap (·.1) ⊆ sides.first.children a)
    (hseconds : pairs.filterMap (·.2) ⊆ sides.second.children b)
    (hsiblings : whole → Siblings
      ((sides.first.declaration a).kind = .function) (sides.first.children a)
      (sides.second.children b) pairs) :
    (Origin.mk (some a) (some b) (some common) children).Derived sides good whole := by
  refine ⟨.inl rfl, rfl, ?_, ?_, ?_, ?_, ?_⟩
  · rintro _ _ ⟨⟩ ⟨⟩
    exact hfits.kinds
  · rintro _ _ _ ⟨⟩ ⟨⟩ ⟨⟩
    exact hgood
  all_goals
    rw [show (Origin.mk (some a) (some b) (some common) children).children.map ids = pairs from hids]
  · exact hfirsts
  · exact hseconds
  · have hfunction : (Origin.mk (some a) (some b) (some common) children).IsFunction sides ↔
        (sides.first.declaration a).kind = .function := by
      simp [IsFunction, first?, second?, hfits.kinds]
    rw [hfunction]
    exact hsiblings

end Derived

theorem single_first_behind {a : DeclId} {node : MergedNode}
    (hrun : sides.first.single .first a = .ok node) :
    Behind sides (Derived sides good whole) [(some a, none)] [node] :=
  .first_alone (fun _ _ _ _ => trivial) (fun _ _ _ hids => .first_alone hids)
    (show (fun _ => True) a from trivial) hrun

theorem single_second_behind {b : DeclId} {node : MergedNode}
    (hrun : sides.second.single .second b = .ok node) :
    Behind sides (Derived sides good whole) [(none, some b)] [node] :=
  .second_alone (fun _ _ _ _ => trivial) (fun _ _ _ hids => .second_alone hids)
    (show (fun _ => True) b from trivial) hrun

/-- A node of two declarations over nodes of their children. -/
theorem shared_behind {a b : DeclId} {first common second : Data}
    {pairs : List (Option DeclId × Option DeclId)} {merged : List MergedNode}
    (hfits : sides.Fits a b first second) (hgood : good a b common)
    (hbelow : Behind sides (Derived sides good whole) pairs merged)
    (hfirsts : pairs.filterMap (·.1) ⊆ sides.first.children a)
    (hseconds : pairs.filterMap (·.2) ⊆ sides.second.children b)
    (hsiblings : whole → Siblings
      ((sides.first.declaration a).kind = .function) (sides.first.children a)
      (sides.second.children b) pairs) :
    Behind sides (Derived sides good whole) [(some a, some b)]
      [.shared first common second merged] := by
  refine hbelow.single (some common) ?_ fun children hids _ =>
    .shared hids hfits hgood hfirsts hseconds hsiblings
  simp only [Option.bind_some, hfits.first, hfits.second]

end Origin

/-- A declaration of a rooted tree that can be reached is written with everything below it. -/
theorem Tree.single_succeeds {tree : Tree} (hrooted : tree.Rooted) (output : Output) {id : DeclId}
    (hid : tree.Reachable id) : ∃ node, tree.single output id = .ok node := by
  have hwithin (levels : Nat) : ∀ id above, tree.Line id above →
      tree.size ≤ above.length + levels → (tree.singleWithin output levels id).Succeeds := by
    induction levels with
    | zero =>
      intro id above hline henough
      have hshort := hrooted.line_length hline
      omega
    | succ levels ih =>
      intro id above hline henough
      simp only [Tree.singleWithin, Tree.detached?_of_known (hrooted.line_known hline)]
      refine Except.succeeds_map.mpr (Except.succeeds_mapM.mpr fun child hchild => ?_)
      exact ih child _ (.child hline hchild) (by simp only [List.length_cons]; omega)
  obtain ⟨above, hline⟩ := Tree.reachable_iff_line.mp hid
  exact hwithin tree.size id above hline (Nat.le_add_left _ _)

end Concord
