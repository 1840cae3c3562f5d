import Concord.Merge.Trees
import Concord.Proofs.Tree.Descent
import Mathlib.Data.List.Perm.Subperm

namespace Concord

/-- The declarations that a merged node and the nodes below it come from, and the shared data. -/
inductive Origin where
  | mk (first second : Option DeclId) (common : Option Data) (children : List Origin)

namespace Origin

def first? : Origin → Option DeclId
  | mk first _ _ _ => first

def second? : Origin → Option DeclId
  | mk _ second _ _ => second

def common? : Origin → Option Data
  | mk _ _ common _ => common

def children : Origin → List Origin
  | mk _ _ _ children => children

/-- The declarations of the two sides that a node comes from. -/
def ids (origin : Origin) : Option DeclId × Option DeclId :=
  (origin.first?, origin.second?)

mutual
/-- An origin and those below it, every one before its children. -/
def walk : Origin → List Origin
  | mk first second common children => mk first second common children :: walkAll children
/-- Some origins and those below them, in order. -/
def walkAll : List Origin → List Origin
  | [] => []
  | origin :: origins => walk origin ++ walkAll origins
end

/-- The two declarations that a node comes from, if it comes from one of each side. -/
def pair? : Origin → Option Pair
  | mk (some a) (some b) _ _ => some (a, b)
  | mk _ _ _ _ => none

/-- The pairs of declarations that nodes come from, in the order of the nodes. -/
def pairs (origins : List Origin) : List Pair :=
  (walkAll origins).filterMap pair?

theorem pair?_eq_some {origin : Origin} {pair : Pair} :
    origin.pair? = some pair ↔ origin.ids = (some pair.1, some pair.2) := by
  obtain ⟨_ | a, _ | b, common, children⟩ := origin <;>
    simp [pair?, ids, first?, second?, Prod.ext_iff]

theorem mem_pairs {origins : List Origin} {pair : Pair} : pair ∈ pairs origins ↔
    ∃ origin ∈ walkAll origins, origin.ids = (some pair.1, some pair.2) := by
  simp only [pairs, List.mem_filterMap, pair?_eq_some]

mutual
/-- The merged node of an origin: what the sides declare, without links into the trees. -/
def node (sides : Sides) : Origin → MergedNode
  | mk first second common children =>
    ⟨⟨first.bind sides.first.detached?, common, second.bind sides.second.detached?⟩,
      nodes sides children⟩
/-- The merged nodes of some origins. -/
def nodes (sides : Sides) : List Origin → List MergedNode
  | [] => []
  | origin :: origins => node sides origin :: nodes sides origins
end

theorem node_payloads (sides : Sides) (origin : Origin) :
    (origin.node sides).payloads = ⟨origin.first?.bind sides.first.detached?, origin.common?,
      origin.second?.bind sides.second.detached?⟩ := by
  cases origin
  rfl

theorem nodes_eq_map (sides : Sides) (origins : List Origin) :
    nodes sides origins = origins.map (node sides) := by
  induction origins with
  | nil => rfl
  | cons origin origins ih => simp only [nodes, ih, List.map_cons]

theorem node_children (sides : Sides) (origin : Origin) :
    (origin.node sides).children = origin.children.map (node sides) := by
  cases origin
  exact nodes_eq_map ..

mutual
private theorem walk_node (sides : Sides) : ∀ origin : Origin,
    (origin.node sides).walk = (walk origin).map (node sides)
  | mk first second common children => by
    rw [node, MergedNode.walk, walkAll_nodes sides children, walk, List.map_cons, node]
/-- The nodes of a forest are those of the walked origins, one by one. -/
theorem walkAll_nodes (sides : Sides) : ∀ origins : List Origin,
    MergedNode.walkAll (nodes sides origins) = (walkAll origins).map (node sides)
  | [] => rfl
  | origin :: origins => by
    rw [nodes, MergedNode.walkAll, walk_node sides origin, walkAll_nodes sides origins, walkAll,
      List.map_append]
end

/-- The nodes of a forest are those of its origins. -/
theorem forest_nodes {sides : Sides} {origins : List Origin} {forest : MergedForest}
    (hroots : forest.roots = nodes sides origins) :
    forest.nodes = (walkAll origins).map (node sides) := by
  rw [MergedForest.nodes, hroots, walkAll_nodes]

theorem walkAll_append (origins others : List Origin) :
    walkAll (origins ++ others) = walkAll origins ++ walkAll others := by
  induction origins with
  | nil => rfl
  | cons origin origins ih => simp only [walkAll, List.cons_append, ih, List.append_assoc]

theorem mem_walkAll {origin : Origin} {origins : List Origin} :
    origin ∈ walkAll origins ↔ ∃ top ∈ origins, origin ∈ walk top := by
  induction origins with
  | nil => simp [walkAll]
  | cons top origins ih => simp [walkAll, ih]

theorem mem_walk {origin top : Origin} :
    origin ∈ walk top ↔ origin = top ∨ origin ∈ walkAll top.children := by
  cases top
  simp only [walk, List.mem_cons, children]

theorem mem_walk_self (origin : Origin) : origin ∈ walk origin :=
  mem_walk.mpr (.inl rfl)

mutual
private theorem walk_closed {origin below : Origin} : ∀ top, origin ∈ walk top →
    below ∈ origin.children → below ∈ walk top
  | mk first second common children, horigin, hbelow => by
    rw [walk] at horigin ⊢
    obtain rfl | horigin := List.mem_cons.mp horigin
    · exact List.mem_cons_of_mem _ (mem_walkAll.mpr ⟨below, hbelow, mem_walk_self below⟩)
    · exact List.mem_cons_of_mem _ (walkAll_closed children horigin hbelow)
/-- The origins below a walked one are walked too. -/
theorem walkAll_closed {origin below : Origin} : ∀ origins, origin ∈ walkAll origins →
    below ∈ origin.children → below ∈ walkAll origins
  | [], horigin, _ => by simp [walkAll] at horigin
  | top :: origins, horigin, hbelow => by
    rw [walkAll] at horigin ⊢
    obtain horigin | horigin := List.mem_append.mp horigin
    · exact List.mem_append_left _ (walk_closed top horigin hbelow)
    · exact List.mem_append_right _ (walkAll_closed origins horigin hbelow)
end

mutual
/-- A property that goes from an origin to those below it holds of all that are walked from it. -/
theorem walk_all (P : Origin → Prop) : ∀ top : Origin,
    (∀ origin ∈ walk top, P origin → ∀ below ∈ origin.children, P below) →
    P top → ∀ origin ∈ walk top, P origin
  | mk first second common children, hdown, htop, origin, horigin => by
    rw [walk] at hdown horigin
    obtain ⟨hself, hbelow⟩ := List.forall_mem_cons.mp hdown
    obtain rfl | horigin := List.mem_cons.mp horigin
    · exact htop
    · exact walkAll_all P children hbelow (hself htop) origin horigin
private theorem walkAll_all (P : Origin → Prop) : ∀ origins : List Origin,
    (∀ origin ∈ walkAll origins, P origin → ∀ below ∈ origin.children, P below) →
    (∀ top ∈ origins, P top) → ∀ origin ∈ walkAll origins, P origin
  | [], _, _, _, horigin => by simp [walkAll] at horigin
  | top :: origins, hdown, htops, origin, horigin => by
    rw [walkAll] at hdown horigin
    obtain ⟨hone, hothers⟩ := List.forall_mem_append.mp hdown
    obtain ⟨htop, htops⟩ := List.forall_mem_cons.mp htops
    obtain horigin | horigin := List.mem_append.mp horigin
    · exact walk_all P top hone htop origin horigin
    · exact walkAll_all P origins hothers htops origin horigin
end

/-- What is walked from a walked origin is walked. -/
theorem walkAll_trans {origins : List Origin} {top : Origin} (htop : top ∈ walkAll origins) :
    ∀ origin ∈ walk top, origin ∈ walkAll origins :=
  walk_all _ top (fun _ _ horigin _ hbelow => walkAll_closed origins horigin hbelow) htop

mutual
private theorem walk_parent {origin : Origin} : ∀ top, origin ∈ walk top →
    origin = top ∨ ∃ parent ∈ walk top, origin ∈ parent.children
  | mk first second common children, horigin => by
    rw [walk] at horigin ⊢
    obtain rfl | horigin := List.mem_cons.mp horigin
    · exact .inl rfl
    · obtain htop | ⟨parent, hparent, hchild⟩ := walkAll_parent children horigin
      · exact .inr ⟨_, List.mem_cons_self, htop⟩
      · exact .inr ⟨parent, List.mem_cons_of_mem _ hparent, hchild⟩
/-- What is walked is a topmost origin or stands below one that is walked. -/
theorem walkAll_parent {origin : Origin} : ∀ origins, origin ∈ walkAll origins →
    origin ∈ origins ∨ ∃ parent ∈ walkAll origins, origin ∈ parent.children
  | [], horigin => by simp [walkAll] at horigin
  | top :: origins, horigin => by
    rw [walkAll] at horigin ⊢
    obtain horigin | horigin := List.mem_append.mp horigin
    · obtain rfl | ⟨parent, hparent, hchild⟩ := walk_parent top horigin
      · exact .inl List.mem_cons_self
      · exact .inr ⟨parent, List.mem_append_left _ hparent, hchild⟩
    · obtain htop | ⟨parent, hparent, hchild⟩ := walkAll_parent origins horigin
      · exact .inl (List.mem_cons_of_mem _ htop)
      · exact .inr ⟨parent, List.mem_append_right _ hparent, hchild⟩
end

section Side

variable (pick : Origin → Option DeclId) (tree : Tree)

/-- The origins directly below an origin are, on one side, the children of its declaration there. -/
def Links (origin : Origin) : Prop :=
  (origin.children.filterMap pick).Perm ((pick origin).elim [] tree.children)

/-- The origins directly below an origin are, on one side, some of the children of its declaration
there. -/
def Held (origin : Origin) : Prop :=
  (origin.children.filterMap pick).Subperm ((pick origin).elim [] tree.children)

variable {pick tree}

private theorem nodup_of_subperm {some all : List DeclId} (hsome : some.Subperm all)
    (hdistinct : all.Nodup) : some.Nodup := by
  obtain ⟨reordered, hperm, hsublist⟩ := hsome
  exact hperm.nodup_iff.mp (hsublist.nodup hdistinct)

/-- The declarations of a walk hang below the topmost ones. -/
private structure Hangs (pick : Origin → Option DeclId) (tree : Tree) (above : List DeclId)
    (tops : List DeclId) (walked : List Origin) : Prop where
  nodup : (walked.filterMap pick).Nodup
  below : ∀ id ∈ walked.filterMap pick, ∃ top ∈ tops, ∃ line,
    tree.Line id line ∧ top :: above <:+ id :: line

mutual
private theorem walk_hangs (hrooted : tree.Rooted) : ∀ (origin : Origin) (above : List DeclId),
    (∀ below ∈ walk origin, Held pick tree below) →
    (∀ id ∈ pick origin, tree.Line id above) →
    Hangs pick tree above (pick origin).toList (walk origin)
  | mk first second common children, above, hlinks, hline => by
    rw [walk] at hlinks ⊢
    obtain ⟨hself, hbelow⟩ := List.forall_mem_cons.mp hlinks
    cases hpick : pick (mk first second common children) with
    | none =>
      have hnone : children.filterMap pick = [] := by
        simpa [Held, hpick, Origin.children] using hself
      obtain ⟨hnodup, hhangs⟩ := walkAll_hangs hrooted children [] hbelow
        (by simp [hnone]) (by simp [hnone])
      refine ⟨by simpa [hpick] using hnodup, fun id hid => ?_⟩
      obtain ⟨top, htop, -⟩ := hhangs id (by simpa [hpick] using hid)
      simp [hnone] at htop
    | some id =>
      have hheld : (children.filterMap pick).Subperm (tree.children id) := by
        simpa [Held, hpick, Origin.children] using hself
      have hid : tree.Line id above := hline id hpick
      obtain ⟨hnodup, hhangs⟩ := walkAll_hangs hrooted children (id :: above) hbelow
        (fun child hchild => .child hid (hheld.subset hchild))
        (nodup_of_subperm hheld (hrooted.owned.distinct id))
      refine ⟨?_, ?_⟩
      · simp only [List.filterMap_cons, hpick]
        refine List.nodup_cons.mpr ⟨fun hmem => ?_, hnodup⟩
        obtain ⟨top, -, line, hother, hsuffix⟩ := hhangs id hmem
        have hlength := hsuffix.length_le
        rw [hrooted.line_unique hother hid] at hlength
        simp only [List.length_cons] at hlength
        omega
      · simp only [List.filterMap_cons, hpick]
        intro below hmem
        obtain rfl | hmem := List.mem_cons.mp hmem
        · exact ⟨below, by simp, above, hid, List.suffix_rfl⟩
        · obtain ⟨top, -, line, hbelow, hsuffix⟩ := hhangs below hmem
          exact ⟨id, by simp, line, hbelow, (List.suffix_cons top _).trans hsuffix⟩
private theorem walkAll_hangs (hrooted : tree.Rooted) : ∀ (origins : List Origin)
    (above : List DeclId),
    (∀ below ∈ walkAll origins, Held pick tree below) →
    (∀ id ∈ origins.filterMap pick, tree.Line id above) →
    (origins.filterMap pick).Nodup →
    Hangs pick tree above (origins.filterMap pick) (walkAll origins)
  | [], above, _, _, _ => ⟨by simp [walkAll], by simp [walkAll]⟩
  | origin :: origins, above, hlinks, hline, hdistinct => by
    have hsplit : (origin :: origins).filterMap pick =
        (pick origin).toList ++ origins.filterMap pick := by
      cases hpick : pick origin with
      | none => simp [hpick]
      | some id => simp [hpick]
    rw [hsplit] at hline hdistinct ⊢
    rw [walkAll] at hlinks ⊢
    obtain ⟨hfirst, hrest⟩ := List.forall_mem_append.mp hlinks
    obtain ⟨hlineFirst, hlineRest⟩ := List.forall_mem_append.mp hline
    obtain ⟨-, hdistinctRest, hapart⟩ := List.nodup_append.mp hdistinct
    have hhead := walk_hangs hrooted origin above hfirst
      (fun id hid => hlineFirst id (by simpa using hid))
    have htail := walkAll_hangs hrooted origins above hrest hlineRest hdistinctRest
    refine ⟨?_, ?_⟩
    · rw [List.filterMap_append]
      refine List.nodup_append.mpr ⟨hhead.nodup, htail.nodup, fun id hid other hother heq => ?_⟩
      subst heq
      obtain ⟨top, htop, line, hone, hsuffix⟩ := hhead.below id hid
      obtain ⟨top', htop', line', htwo, hsuffix'⟩ := htail.below id hother
      rw [hrooted.line_unique htwo hone] at hsuffix'
      have hsame := List.suffix_of_suffix_length_le hsuffix hsuffix' (by simp)
      have heq := hsame.eq_of_length (by simp)
      exact hapart top htop top' htop' (List.cons.inj heq).1
    · rw [List.filterMap_append]
      intro id hid
      obtain hid | hid := List.mem_append.mp hid
      · obtain ⟨top, htop, hbelow⟩ := hhead.below id hid
        exact ⟨top, List.mem_append_left _ htop, hbelow⟩
      · obtain ⟨top, htop, hbelow⟩ := htail.below id hid
        exact ⟨top, List.mem_append_right _ htop, hbelow⟩
end

/-- Origins that follow the child lists of a tree from its roots, perhaps not all of them, come from
no declaration twice. -/
theorem walkAll_distinct (hrooted : tree.Rooted) {origins : List Origin}
    (hroots : (origins.filterMap pick).Subperm tree.roots)
    (hheld : ∀ origin ∈ walkAll origins, Held pick tree origin) :
    ((walkAll origins).filterMap pick).Nodup :=
  (walkAll_hangs hrooted origins [] hheld (fun _ hid => .root (hroots.subset hid))
    (nodup_of_subperm hroots hrooted.distinct)).nodup

/-- Origins that follow the child lists of a tree from its roots come from every declaration that
can be reached, and from none of them twice. -/
theorem walkAll_accounts (hrooted : tree.Rooted) {origins : List Origin}
    (hroots : (origins.filterMap pick).Perm tree.roots)
    (hlinks : ∀ origin ∈ walkAll origins, Links pick tree origin) :
    ((walkAll origins).filterMap pick).Nodup ∧
      ∀ id, id ∈ (walkAll origins).filterMap pick ↔ tree.Reachable id := by
  obtain ⟨hnodup, hhangs⟩ := walkAll_hangs hrooted origins []
    (fun origin horigin => (hlinks origin horigin).subperm)
    (fun id hid => .root (hroots.mem_iff.mp hid)) (hroots.nodup_iff.mpr hrooted.distinct)
  refine ⟨hnodup, fun id => ⟨fun hid => ?_, fun hreachable => ?_⟩⟩
  · obtain ⟨-, -, line, hline, -⟩ := hhangs id hid
    exact Tree.reachable_iff_line.mpr ⟨line, hline⟩
  · induction hreachable with
    | root hroot =>
      obtain ⟨origin, horigin, hpick⟩ := List.mem_filterMap.mp (hroots.mem_iff.mpr hroot)
      exact List.mem_filterMap.mpr
        ⟨origin, mem_walkAll.mpr ⟨origin, horigin, mem_walk_self origin⟩, hpick⟩
    | child _ hchild ih =>
      obtain ⟨origin, horigin, hpick⟩ := List.mem_filterMap.mp ih
      have hperm := hlinks origin horigin
      rw [Links, hpick] at hperm
      obtain ⟨below, hbelow, hpick⟩ := List.mem_filterMap.mp (hperm.mem_iff.mpr hchild)
      exact List.mem_filterMap.mpr ⟨below, walkAll_closed origins horigin hbelow, hpick⟩

end Side

end Origin

end Concord
