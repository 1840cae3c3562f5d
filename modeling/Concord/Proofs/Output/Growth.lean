import Concord.Output.Filling
import Concord.Proofs.Output.Placing
import Concord.Proofs.Tree.Regular

namespace Concord

/-- The data of a declaration and its children. -/
def Tree.content? (tree : Tree) (id : DeclId) : Option (Data × List DeclId) :=
  (tree.get? id).map fun declaration => (declaration.data, declaration.children)

/-- What is seen of one output while it is filled: its tree, and which placeholders are filled. -/
structure Part where
  tree : Tree
  filled : DeclId → Prop

def Filling.part (filling : Filling) (output : Output) : Part :=
  ⟨filling.trees.get output, fun id => (output, id) ∈ filling.filled⟩

namespace Part

/-- A declaration that is inserted, or whose placeholder is filled. The placeholders are the first
declarations. -/
def Settled (placeholders : Nat) (part : Part) (id : DeclId) : Prop :=
  id.index < part.tree.size ∧ (id.index < placeholders → part.filled id)

/-- Placeholders that are not filled list nothing, and nothing lists them. -/
structure Steady (placeholders : Nat) (part : Part) : Prop where
  size : placeholders ≤ part.tree.size
  bare : ∀ id data children, part.tree.content? id = some (data, children) →
    ¬part.Settled placeholders id → children = []
  listed : ∀ id data children, part.tree.content? id = some (data, children) →
    ∀ child ∈ children, part.Settled placeholders child

/-- From one state of an output to a later one, `places` were put in. Those among them that are
listed in the container are `tops`. -/
structure Grows (placeholders : Nat) (container : Option DeclId) (tops places : List DeclId)
    (before after : Part) : Prop where
  content : ∀ id, before.Settled placeholders id → after.tree.content? id =
    (before.tree.content? id).map fun content =>
      (content.1, content.2 ++ if container = some id then tops else [])
  settled : ∀ id, before.Settled placeholders id → after.Settled placeholders id
  fresh : ∀ id ∈ places, ¬before.Settled placeholders id ∧ after.Settled placeholders id
  only : ∀ id, after.Settled placeholders id → before.Settled placeholders id ∨ id ∈ places
  untouched : ∀ id, ¬after.Settled placeholders id → after.tree.get? id = before.tree.get? id
  distinct : places.Nodup
  steady : after.Steady placeholders
  roots : after.tree.roots = before.tree.roots
  named : ∀ id declaration, before.tree.get? id = some declaration →
    ∃ declaration', after.tree.get? id = some declaration' ∧
      declaration'.qualifiedName = declaration.qualifiedName

variable {placeholders : Nat} {container : Option DeclId} {tops others places more : List DeclId}
  {before middle after : Part}

namespace Grows

theorem refl (hsteady : before.Steady placeholders) :
    Grows placeholders container [] [] before before where
  content id _ := by
    simp only [ite_self, List.append_nil]
    cases before.tree.content? id <;> rfl
  settled _ h := h
  fresh := nofun
  only _ h := .inl h
  untouched _ _ := rfl
  distinct := .nil
  steady := hsteady
  roots := rfl
  named id declaration hget := ⟨declaration, hget, rfl⟩

/-- What is listed in a container besides the container leaves its children alone. -/
theorem content_of_ne (hgrows : Grows placeholders container tops places before after)
    {id : DeclId} (hsettled : before.Settled placeholders id) (hne : container ≠ some id) :
    after.tree.content? id = before.tree.content? id := by
  rw [hgrows.content id hsettled]
  simp only [hne, if_false, List.append_nil]
  cases before.tree.content? id <;> rfl

private theorem named_trans (hfirst : Grows placeholders container tops places before middle)
    {owner : Option DeclId} (hsecond : Grows placeholders owner others more middle after)
    {id : DeclId} {declaration : Declaration} (hget : before.tree.get? id = some declaration) :
    ∃ declaration', after.tree.get? id = some declaration' ∧
      declaration'.qualifiedName = declaration.qualifiedName := by
  obtain ⟨declaration', hget', hname⟩ := hfirst.named id declaration hget
  obtain ⟨declaration'', hget'', hname'⟩ := hsecond.named id declaration' hget'
  exact ⟨declaration'', hget'', hname'.trans hname⟩

private theorem distinct_trans (hfirst : Grows placeholders container tops places before middle)
    {owner : Option DeclId} (hsecond : Grows placeholders owner others more middle after) :
    (places ++ more).Nodup := by
  refine List.nodup_append.mpr ⟨hfirst.distinct, hsecond.distinct, fun id hid other hother => ?_⟩
  rintro rfl
  exact (hsecond.fresh id hother).1 (hfirst.fresh id hid).2

private theorem only_trans (hfirst : Grows placeholders container tops places before middle)
    {owner : Option DeclId} (hsecond : Grows placeholders owner others more middle after)
    (id : DeclId) (hsettled : after.Settled placeholders id) :
    before.Settled placeholders id ∨ id ∈ places ++ more := by
  obtain hmiddle | hmore := hsecond.only id hsettled
  · exact (hfirst.only id hmiddle).imp_right (List.mem_append_left _)
  · exact .inr (List.mem_append_right _ hmore)

private theorem untouched_trans (hfirst : Grows placeholders container tops places before middle)
    {owner : Option DeclId} (hsecond : Grows placeholders owner others more middle after)
    (id : DeclId) (hpending : ¬after.Settled placeholders id) :
    after.tree.get? id = before.tree.get? id := by
  rw [hsecond.untouched id hpending,
    hfirst.untouched id fun hmiddle => hpending (hsecond.settled id hmiddle)]

private theorem fresh_trans (hfirst : Grows placeholders container tops places before middle)
    {owner : Option DeclId} (hsecond : Grows placeholders owner others more middle after) :
    ∀ id ∈ places ++ more, ¬before.Settled placeholders id ∧ after.Settled placeholders id := by
  intro id hid
  obtain hid | hid := List.mem_append.mp hid
  · obtain ⟨hbefore, hmiddle⟩ := hfirst.fresh id hid
    exact ⟨hbefore, hsecond.settled id hmiddle⟩
  · obtain ⟨hmiddle, hafter⟩ := hsecond.fresh id hid
    exact ⟨fun hbefore => hmiddle (hfirst.settled id hbefore), hafter⟩

/-- Putting in some declarations after others of the same container. -/
theorem append (hfirst : Grows placeholders container tops places before middle)
    (hsecond : Grows placeholders container others more middle after) :
    Grows placeholders container (tops ++ others) (places ++ more) before after where
  content id hsettled := by
    rw [hsecond.content id (hfirst.settled id hsettled), hfirst.content id hsettled,
      Option.map_map]
    congr 1
    funext content
    by_cases hcontainer : container = some id
    · simp [hcontainer]
    · simp [hcontainer]
  settled id hsettled := hsecond.settled id (hfirst.settled id hsettled)
  fresh := hfirst.fresh_trans hsecond
  only := hfirst.only_trans hsecond
  untouched := hfirst.untouched_trans hsecond
  distinct := hfirst.distinct_trans hsecond
  steady := hsecond.steady
  roots := hsecond.roots.trans hfirst.roots
  named _ _ := hfirst.named_trans hsecond

/-- Putting in a declaration and then what stands below it. -/
theorem below {id : DeclId} (hfirst : Grows placeholders container [id] [id] before middle)
    (hsecond : Grows placeholders (some id) others more middle after) :
    Grows placeholders container [id] (id :: more) before after where
  content other hsettled := by
    have hne : some id ≠ some other := by
      rintro ⟨⟩
      exact (hfirst.fresh id List.mem_cons_self).1 hsettled
    rw [hsecond.content_of_ne (hfirst.settled other hsettled) hne, hfirst.content other hsettled]
  settled other hsettled := hsecond.settled other (hfirst.settled other hsettled)
  fresh := hfirst.fresh_trans hsecond
  only := hfirst.only_trans hsecond
  untouched := hfirst.untouched_trans hsecond
  distinct := hfirst.distinct_trans hsecond
  steady := hsecond.steady
  roots := hsecond.roots.trans hfirst.roots
  named _ _ := hfirst.named_trans hsecond

end Grows

end Part

namespace Tree

variable {tree grown : Tree} {id : DeclId} {data : Data}

theorem content?_of_get? {declaration : Declaration} (hget : tree.get? id = some declaration) :
    tree.content? id = some (declaration.data, declaration.children) := by
  rw [content?, hget, Option.map_some]

theorem content?_insert {container : DeclId}
    (hinsert : tree.insert container data = .ok (id, grown)) (other : DeclId) :
    grown.content? other = if other = id then some (data, [])
      else (tree.content? other).map fun content =>
        (content.1, content.2 ++ if some container = some other then [id] else []) := by
  rw [content?, get?_insert hinsert]
  split
  · rfl
  · simp only [content?, Option.map_map, Function.comp_def, Option.some.injEq, eq_comm]

theorem content?_setData (other : DeclId) :
    (tree.setData id data).content? other = (tree.content? other).map fun content =>
      (if other = id then data else content.1, content.2) := by
  rw [setData, content?, get?_modify, content?]
  split <;> cases tree.get? other <;> rfl

theorem content?_attach {parent child : DeclId}
    (hattach : tree.attach parent child = .ok grown) (other : DeclId) :
    grown.content? other = (tree.content? other).map fun content =>
      (content.1, content.2 ++ if some parent = some other then [child] else []) := by
  obtain ⟨_, _, -, -, -, rfl⟩ := attach_eq_ok hattach
  rw [content?, get?_modify, get?_modify, content?]
  by_cases hparent : other = parent
  · by_cases hchild : other = child
    · rw [if_pos hparent, if_pos hchild, hparent]
      simp only [Option.map_map, Function.comp_def, if_true]
    · rw [if_pos hparent, if_neg hchild, hparent]
      simp only [Option.map_map, Function.comp_def, if_true]
  · have hne : some parent ≠ some other := fun heq => hparent (Option.some.inj heq).symm
    by_cases hchild : other = child
    · rw [if_neg hparent, if_pos hchild]
      simp only [Option.map_map, Function.comp_def, hne, if_false, List.append_nil]
    · rw [if_neg hparent, if_neg hchild]
      simp only [Option.map_map, Function.comp_def, hne, if_false, List.append_nil]

theorem get?_attach {parent child other : DeclId} (hattach : tree.attach parent child = .ok grown)
    (hchild : other ≠ child) (hparent : other ≠ parent) : grown.get? other = tree.get? other := by
  obtain ⟨_, _, -, -, -, rfl⟩ := attach_eq_ok hattach
  rw [get?_modify, if_neg hparent, get?_modify, if_neg hchild]

/-- A change that leaves containers alone. -/
theorem container?_modify {f : Declaration → Declaration}
    (hf : ∀ declaration, (f declaration).container = declaration.container) (other : DeclId) :
    (tree.modify id f).container? other = tree.container? other := by
  rw [container?, get?_modify, container?]
  split
  · rw [Option.bind_map, show (·.container) ∘ f = (·.container) from funext hf]
  · rfl

theorem container?_insert {container : DeclId}
    (hinsert : tree.insert container data = .ok (id, grown)) (other : DeclId) :
    grown.container? other = if other = id then some container else tree.container? other := by
  rw [container?, get?_insert hinsert, container?]
  split
  · rfl
  · rw [Option.bind_map]
    rfl

theorem container?_attach {parent child : DeclId}
    (hattach : tree.attach parent child = .ok grown) (other : DeclId) :
    grown.container? other = if other = child then some parent else tree.container? other := by
  obtain ⟨_, declaration, -, hchild, -, rfl⟩ := attach_eq_ok hattach
  refine (container?_modify ?_ other).trans ?_
  · exact fun _ => rfl
  rw [container?, get?_modify, container?]
  split
  · next heq => rw [heq, hchild, Option.map_some, Option.bind_some]
  · rfl

theorem size_attach {parent child : DeclId} (hattach : tree.attach parent child = .ok grown) :
    grown.size = tree.size := by
  obtain ⟨_, _, -, -, -, rfl⟩ := attach_eq_ok hattach
  rw [size_modify, size_modify]

theorem roots_attach {parent child : DeclId} (hattach : tree.attach parent child = .ok grown) :
    grown.roots = tree.roots := by
  obtain ⟨_, _, -, -, -, rfl⟩ := attach_eq_ok hattach
  rfl

theorem content?_eq_some {content : Data × List DeclId} :
    tree.content? id = some content ↔ ∃ declaration, tree.get? id = some declaration ∧
      declaration.data = content.1 ∧ declaration.children = content.2 := by
  obtain ⟨data, children⟩ := content
  simp only [content?, Option.map_eq_some_iff, Prod.mk.injEq]

end Tree

namespace Part

/-- Putting in one declaration, which nothing lists but its container. -/
private theorem Grows.single {placeholders : Nat} {container : Option DeclId}
    {before after : Part} {id : DeclId} {data : Data} (hsteady : before.Steady placeholders)
    (hcontainer : ∀ owner, container = some owner → before.Settled placeholders owner)
    (hnew : ¬before.Settled placeholders id) (hset : after.Settled placeholders id)
    (hothers : ∀ other, other ≠ id →
      (before.Settled placeholders other ↔ after.Settled placeholders other))
    (hid : after.tree.content? id = some (data, []))
    (hcontent : ∀ other, other ≠ id → after.tree.content? other =
      (before.tree.content? other).map fun content =>
        (content.1, content.2 ++ if container = some other then [id] else []))
    (huntouched : ∀ other, other ≠ id → container ≠ some other →
      after.tree.get? other = before.tree.get? other)
    (hname : ∀ declaration, before.tree.get? id = some declaration →
      data.qualifiedName = declaration.qualifiedName)
    (hsize : before.tree.size ≤ after.tree.size) (hroots : after.tree.roots = before.tree.roots) :
    Grows placeholders container [id] [id] before after := by
  have hne {other : DeclId} (hsettled : before.Settled placeholders other) : other ≠ id :=
    fun heq => hnew (heq ▸ hsettled)
  have hsettled (other : DeclId) (h : before.Settled placeholders other) :
      after.Settled placeholders other := (hothers other (hne h)).mp h
  refine ⟨fun other hsettled => hcontent other (hne hsettled), hsettled, fun other hother => ?_,
    fun other hafter => ?_, fun other hpending => huntouched other ?_ ?_,
    by simp, ⟨Nat.le_trans hsteady.size hsize, ?_, ?_⟩, hroots,
    fun other declaration hget => ?_⟩
  · rw [List.mem_singleton.mp hother]
    exact ⟨hnew, hset⟩
  · by_cases hother : other = id
    · exact .inr (List.mem_singleton.mpr hother)
    · exact .inl ((hothers other hother).mpr hafter)
  · rintro rfl
    exact hpending hset
  · exact fun heq => hpending (hsettled other (hcontainer other heq))
  · intro other data' children hlisted hunsettled
    have hother : other ≠ id := by
      rintro rfl
      exact hunsettled hset
    have hbefore : ¬before.Settled placeholders other := fun hsettled =>
      hunsettled ((hothers other hother).mp hsettled)
    have hfree : container ≠ some other := fun heq => hbefore (hcontainer other heq)
    rw [hcontent other hother] at hlisted
    obtain ⟨⟨data'', children'⟩, hbare, heq⟩ := Option.map_eq_some_iff.mp hlisted
    have hchildren := hsteady.bare other data'' children' hbare hbefore
    simp only [hfree, if_false, List.append_nil, Prod.mk.injEq] at heq
    rw [← heq.2, hchildren]
  · intro other data' children hlisted child hchild
    by_cases hother : other = id
    · rw [hother, hid] at hlisted
      cases hlisted
      cases hchild
    · rw [hcontent other hother] at hlisted
      obtain ⟨⟨data'', children'⟩, hbefore, heq⟩ := Option.map_eq_some_iff.mp hlisted
      obtain ⟨-, rfl⟩ := Prod.mk.inj heq
      obtain hchild | hchild := List.mem_append.mp hchild
      · exact hsettled child (hsteady.listed other data'' children' hbefore child hchild)
      · split at hchild
        · rw [List.mem_singleton.mp hchild]
          exact hset
        · cases hchild
  · by_cases hother : other = id
    · subst hother
      obtain ⟨declaration', hget', hdata, -⟩ := Tree.content?_eq_some.mp hid
      refine ⟨declaration', hget', ?_⟩
      rw [Declaration.qualifiedName, hdata, hname declaration hget]
    · have hkept := hcontent other hother
      rw [Tree.content?_of_get? hget, Option.map_some] at hkept
      obtain ⟨declaration', hget', hdata, -⟩ := Tree.content?_eq_some.mp hkept
      exact ⟨declaration', hget', congrArg Data.qualifiedName hdata⟩

end Part

namespace Filling

variable {filling after : Filling} {binding : Binding} {output : Output} {container : Option DeclId}
  {data : Data} {id : DeclId}

theorem insert_eq_ok (hinsert : filling.insert output container data = .ok (id, after)) :
    ∃ owner grown, container = some owner ∧
      (filling.trees.get output).insert owner data = .ok (id, grown) ∧
      after = { filling with trees := filling.trees.set output grown } := by
  cases container with
  | none => cases hinsert
  | some owner =>
    obtain ⟨⟨id, grown⟩, hgrown, heq⟩ := Except.bind_eq_ok.mp hinsert
    cases heq
    exact ⟨owner, grown, rfl, Except.mapError_eq_ok.mp hgrown, rfl⟩

theorem fill_eq_ok (hfill : filling.fill binding output container data = .ok (id, after)) :
    binding.registry.find? data.kind data.qualifiedName output = some id ∧
      (output, id) ∉ filling.filled ∧
      ∃ placeholder grown, (filling.trees.get output).get? id = some placeholder ∧
        placeholder.kind = data.kind ∧ placeholder.qualifiedName = data.qualifiedName ∧
        after = ⟨filling.trees.set output grown, (output, id) :: filling.filled⟩ ∧
        (container = none ∧ grown = (filling.trees.get output).setData id data ∨
          ∃ owner, container = some owner ∧
            ((filling.trees.get output).setData id data).attach owner id = .ok grown) := by
  rw [fill] at hfill
  cases hfind : binding.registry.find? data.kind data.qualifiedName output with
  | none =>
    rw [hfind] at hfill
    cases hfill
  | some found =>
    simp only [hfind] at hfill
    obtain ⟨hfilled, hfill⟩ := Except.refusal_eq_ok.mp hfill
    obtain ⟨placeholder, hplaceholder, hfill⟩ := Except.bind_eq_ok.mp hfill
    obtain ⟨hfits, hfill⟩ := Except.refusal_eq_ok.mp hfill
    rw [Except.mapError_eq_ok, Tree.fetch_eq_ok] at hplaceholder
    simp only [Bool.or_eq_true, bne_iff_ne, ne_eq, not_or, Decidable.not_not] at hfits
    cases container with
    | none =>
      simp only [pure_bind] at hfill
      cases hfill
      refine ⟨rfl, by simpa using hfilled, placeholder, _, hplaceholder, hfits.1, hfits.2, rfl, ?_⟩
      exact .inl ⟨rfl, rfl⟩
    | some owner =>
      obtain ⟨grown, hattach, hfill⟩ := Except.bind_eq_ok.mp hfill
      cases hfill
      refine ⟨rfl, by simpa using hfilled, placeholder, grown, hplaceholder, hfits.1, hfits.2, rfl,
        ?_⟩
      exact .inr ⟨owner, rfl, Except.mapError_eq_ok.mp hattach⟩

theorem place_other (hplace : filling.place binding output container data = .ok (id, after))
    {other : Output} (hne : other ≠ output) : after.part other = filling.part other := by
  rw [place] at hplace
  split at hplace
  · obtain ⟨-, -, placeholder, grown, -, -, -, rfl, -⟩ := fill_eq_ok hplace
    simp only [part, PerOutput.get_set_ne _ _ hne, List.mem_cons, Prod.mk.injEq, hne, false_and,
      false_or]
  · obtain ⟨owner, grown, -, -, rfl⟩ := insert_eq_ok hplace
    simp only [part, PerOutput.get_set_ne _ _ hne]

/-- What is registered is put into its placeholder. -/
theorem place_find? (hplace : filling.place binding output container data = .ok (id, after))
    (hkind : data.kind.isRegistered = true) :
    binding.registry.find? data.kind data.qualifiedName output = some id := by
  rw [place, if_pos hkind] at hplace
  exact (fill_eq_ok hplace).1

/-- The tree whose placeholder is given data and listed by its container, if it has one, keeps all
else. -/
private theorem content?_filled {tree grown : Tree}
    (hgrown : container = none ∧ grown = tree.setData id data ∨
      ∃ owner, container = some owner ∧ (tree.setData id data).attach owner id = .ok grown) :
    grown.size = tree.size ∧ grown.roots = tree.roots ∧
      (∀ other, grown.content? other = (tree.content? other).map fun content =>
        (if other = id then data else content.1,
          content.2 ++ if container = some other then [id] else [])) ∧
      ∀ other, other ≠ id → container ≠ some other → grown.get? other = tree.get? other := by
  obtain ⟨rfl, rfl⟩ | ⟨owner, rfl, hattach⟩ := hgrown
  · refine ⟨Tree.size_modify _ _, Tree.roots_modify _ _, fun other => ?_, fun other hother _ => ?_⟩
    · rw [Tree.content?_setData]
      simp
    · rw [Tree.setData, Tree.get?_modify, if_neg hother]
  · refine ⟨(Tree.size_attach hattach).trans (Tree.size_modify _ _),
      (Tree.roots_attach hattach).trans (Tree.roots_modify _ _), fun other => ?_,
      fun other hother howner => ?_⟩
    · rw [Tree.content?_attach hattach, Tree.content?_setData, Option.map_map]
      rfl
    · rw [Tree.get?_attach hattach hother fun heq => howner (congrArg some heq.symm), Tree.setData,
        Tree.get?_modify, if_neg hother]

section Grows

variable {placeholders : Nat} (hsteady : (filling.part output).Steady placeholders)
  (hcontainer : ∀ owner, container = some owner → (filling.part output).Settled placeholders owner)
include hsteady hcontainer

/-- A placeholder is filled once, without children. -/
private theorem fill_grows (hregistry : ∀ kind name id,
      binding.registry.find? kind name output = some id → id.index < placeholders)
    (hfill : filling.fill binding output container data = .ok (id, after)) :
    Part.Grows placeholders container [id] [id] (filling.part output) (after.part output) ∧
      (after.part output).tree.content? id = some (data, []) := by
  obtain ⟨hfind, hfresh, placeholder, grown, hget, -, hname, rfl, hgrown⟩ := fill_eq_ok hfill
  have hnew : ¬(filling.part output).Settled placeholders id := fun hsettled =>
    hfresh (hsettled.2 (hregistry _ _ _ hfind))
  have hbare : placeholder.children = [] :=
    hsteady.bare id _ _ (Tree.content?_of_get? hget) hnew
  obtain ⟨hsize, hroots, hcontent, hsame⟩ := content?_filled hgrown
  have hid : grown.content? id = some (data, []) := by
    have hfree : container ≠ some id := fun heq => hnew (hcontainer id heq)
    rw [hcontent, Tree.content?_of_get? hget, Option.map_some, hbare]
    simp [hfree]
  have hpart : part ⟨filling.trees.set output grown, (output, id) :: filling.filled⟩ output =
      ⟨grown, fun other => other = id ∨ (output, other) ∈ filling.filled⟩ := by
    simp only [part, PerOutput.get_set_self, List.mem_cons, Prod.mk.injEq, true_and]
  rw [hpart]
  refine ⟨.single hsteady hcontainer hnew ⟨?_, fun _ => .inl rfl⟩ (fun other hne => ?_) hid
    (fun other hne => ?_) hsame (fun declaration hdeclaration => ?_) (Nat.le_of_eq hsize.symm)
    hroots, hid⟩
  · rw [hsize]
    exact Tree.lt_size_of_get? hget
  · simp only [Part.Settled, part, hsize, hne, false_or]
  · simp only [hcontent other, hne, if_false]
    rfl
  · rw [part, hget] at hdeclaration
    cases hdeclaration
    exact hname.symm

/-- A declaration that is inserted comes after all others, without children. -/
private theorem insert_grows (hdone : filling.insert output container data = .ok (id, after)) :
    Part.Grows placeholders container [id] [id] (filling.part output) (after.part output) ∧
      (after.part output).tree.content? id = some (data, []) := by
  obtain ⟨owner, grown, rfl, hinsert, rfl⟩ := insert_eq_ok hdone
  have hpart : part ⟨filling.trees.set output grown, filling.filled⟩ output =
      ⟨grown, fun other => (output, other) ∈ filling.filled⟩ := by
    simp only [part, PerOutput.get_set_self]
  have hid := Tree.id_of_insert hinsert
  have hsize := Tree.size_insert hinsert
  have hplaceholders : placeholders ≤ (filling.trees.get output).size := hsteady.size
  have hnone : (filling.trees.get output).get? id = none :=
    Tree.get?_eq_none.mpr (Nat.le_of_eq (by rw [hid]))
  have hcontent : grown.content? id = some (data, []) := by
    rw [Tree.content?_insert hinsert, if_pos rfl]
  rw [hpart]
  refine ⟨.single hsteady hcontainer ?_ ?_ (fun other hne => ?_) hcontent (fun other hne => ?_)
    (fun other hne howner => ?_) (fun declaration hget => ?_) ?_ (Tree.roots_insert hinsert),
    hcontent⟩
  · rintro ⟨hlt, -⟩
    rw [hid] at hlt
    exact Nat.lt_irrefl _ hlt
  · rw [hid]
    refine ⟨?_, fun hlt => absurd hlt (Nat.not_lt.mpr hplaceholders)⟩
    show (filling.trees.get output).size < grown.size
    omega
  · have hindex : other.index ≠ (filling.trees.get output).size := fun heq => hne (by
      rw [hid, ← heq])
    simp only [Part.Settled, part, hsize]
    constructor
    · rintro ⟨hlt, hfilled⟩
      exact ⟨by omega, hfilled⟩
    · rintro ⟨hlt, hfilled⟩
      exact ⟨by omega, hfilled⟩
  · rw [Tree.content?_insert hinsert, if_neg hne]
    rfl
  · have hother : other ≠ owner := fun heq => howner (congrArg some heq.symm)
    simp only [part, Tree.get?_insert hinsert, if_neg hne, if_neg hother, List.append_nil,
      Option.map_id']
  · rw [part, hnone] at hget
    cases hget
  · show (filling.trees.get output).size ≤ grown.size
    omega

/-- A declaration is put into an output without children, and only its container lists it. -/
theorem place_grows (hregistry : ∀ kind name id,
      binding.registry.find? kind name output = some id → id.index < placeholders)
    (hplace : filling.place binding output container data = .ok (id, after)) :
    Part.Grows placeholders container [id] [id] (filling.part output) (after.part output) ∧
      (after.part output).tree.content? id = some (data, []) := by
  rw [place] at hplace
  split at hplace
  · exact fill_grows hsteady hcontainer hregistry hplace
  · exact insert_grows hsteady hcontainer hplace

end Grows

/-- What is seen of one output while a node is put into the outputs. -/
def seen (state : Filling × Places) (output : Output) : Part × Option DeclId :=
  (state.1.part output, state.2.get output)

theorem placeIn_other {payloads : PerOutput (Option Data)} {containers : Places}
    {before after : Filling × Places} {output other : Output}
    (hrun : placeIn binding payloads containers before other = .ok after) (hne : other ≠ output) :
    seen after output = seen before output := by
  obtain ⟨filling, places⟩ := before
  cases hpayload : payloads.get other with
  | none =>
    simp only [placeIn, hpayload] at hrun
    cases hrun
    rfl
  | some payload =>
    simp only [placeIn, hpayload] at hrun
    obtain ⟨bound, -, hrun⟩ := Except.bind_eq_ok.mp hrun
    obtain ⟨⟨id, done⟩, hplace, heq⟩ := Except.bind_eq_ok.mp hrun
    cases heq
    exact Prod.ext (place_other hplace (Ne.symm hne)) (PerOutput.get_set_ne _ _ (Ne.symm hne))

end Filling

namespace Placement

variable {placement : Placement} {output : Output}

theorem Bare.index_lt (hbare : placement.Bare output) {kind : Kind} {name : QualifiedName}
    {id : DeclId} (hfind : placement.registry.find? kind name output = some id) :
    id.index < (placement.trees.get output).size := by
  obtain ⟨declaration, hget, -⟩ := hbare.named kind name id hfind
  exact Tree.lt_size_of_get? hget

/-- Before anything is filled, nothing is listed. -/
theorem Bare.steady (hbare : placement.Bare output) :
    ((⟨placement.trees, []⟩ : Filling).part output).Steady (placement.trees.get output).size := by
  have hchildless (id : DeclId) (data : Data) (children : List DeclId)
      (hcontent : (placement.trees.get output).content? id = some (data, children)) :
      children = [] := by
    obtain ⟨declaration, hget, -, rfl⟩ := Tree.content?_eq_some.mp hcontent
    rw [← Tree.children_of_get? hget, hbare.childless]
  refine ⟨Nat.le_refl _, fun id data children hcontent _ => hchildless id data children hcontent,
    fun id data children hcontent child hchild => ?_⟩
  rw [hchildless id data children hcontent] at hchild
  cases hchild

end Placement

end Concord
