import Concord.Proofs.Declaration.Payload
import Concord.Proofs.Tree.Built
import Concord.Proofs.Tree.Ownership
import Concord.Tree.Editing

namespace Concord

namespace Tree

/-- The kind and the qualified name of a declaration. -/
def signature? (tree : Tree) (id : DeclId) : Option (Kind × QualifiedName) :=
  (tree.get? id).map fun declaration => (declaration.kind, declaration.qualifiedName)

variable {tree grown : Tree}

section Allocation

variable (data : Data) (container : Option DeclId) (id : DeclId)

theorem children_fresh : tree.children ⟨tree.size⟩ = [] := by
  have hnone : tree.get? ⟨tree.size⟩ = none := get?_eq_none.mpr (Nat.le_refl _)
  rw [children, hnone]

theorem children_alloc : (tree.alloc data container).2.children id = tree.children id := by
  rw [children_eq_getD, get?_alloc]
  by_cases hid : id = ⟨tree.size⟩
  · rw [if_pos hid, hid, children_fresh]
    rfl
  · rw [if_neg hid, children_eq_getD]

theorem container?_alloc : (tree.alloc data container).2.container? id =
    if id = ⟨tree.size⟩ then container else tree.container? id := by
  rw [container?, get?_alloc, container?]
  split
  · rfl
  · rfl

theorem signature?_alloc : (tree.alloc data container).2.signature? id =
    if id = ⟨tree.size⟩ then some (data.kind, data.qualifiedName) else tree.signature? id := by
  rw [signature?, get?_alloc, signature?]
  split
  · rfl
  · rfl

end Allocation

section Pointing

variable (child parent id : DeclId)

theorem children_pointAt : (tree.pointAt child parent).children id = tree.children id := by
  rw [children_eq_getD, children_eq_getD, pointAt, get?_modify]
  split
  · rw [Option.map_map]
    rfl
  · rfl

theorem container?_pointAt : (tree.pointAt child parent).container? id =
    if id = child ∧ (tree.get? child).isSome then some parent else tree.container? id := by
  rw [container?, container?, pointAt, get?_modify]
  by_cases hid : id = child
  · subst hid
    cases hget : tree.get? id with
    | none => simp
    | some declaration => simp
  · simp [hid]

theorem signature?_pointAt : (tree.pointAt child parent).signature? id = tree.signature? id := by
  rw [signature?, signature?, pointAt, get?_modify]
  split
  · rw [Option.map_map]
    rfl
  · rfl

theorem isSome_get?_pointAt :
    ((tree.pointAt child parent).get? id).isSome = (tree.get? id).isSome := by
  rw [pointAt, get?_modify]
  split
  · rw [Option.isSome_map]
  · rfl

/-- A declaration that points at a container already is pointed at it without a change. -/
theorem pointAt_eq_self (hcontainer : tree.container? child = some parent) :
    tree.pointAt child parent = tree := by
  obtain ⟨declaration, hget, hsome⟩ := container?_eq_some.mp hcontainer
  have hsame : ({ declaration with container := some parent } : Declaration) = declaration := by
    rw [← hsome]
  have hdeclarations : tree.declarations.modify child.index
      ({ · with container := some parent }) = tree.declarations := by
    refine Array.ext_getElem? fun index => ?_
    rw [Array.getElem?_modify]
    split
    · next hindex =>
      rw [← hindex]
      have hget : tree.declarations[child.index]? = some declaration := hget
      rw [hget, Option.map_some, hsame]
    · rfl
  rw [pointAt, modify, hdeclarations]

end Pointing

section Listing

variable (parent child id : DeclId)

theorem children_enlist : (tree.enlist parent child).children id =
    tree.children id ++ if id = parent ∧ (tree.get? parent).isSome then [child] else [] := by
  rw [children_eq_getD, children_eq_getD, enlist, get?_modify]
  by_cases hid : id = parent
  · subst hid
    cases hget : tree.get? id with
    | none => simp
    | some declaration => simp
  · simp [hid]

theorem container?_enlist : (tree.enlist parent child).container? id = tree.container? id := by
  rw [container?, container?, enlist, get?_modify]
  split
  · rw [Option.bind_map]
    rfl
  · rfl

theorem signature?_enlist : (tree.enlist parent child).signature? id = tree.signature? id := by
  rw [signature?, signature?, enlist, get?_modify]
  split
  · rw [Option.map_map]
    rfl
  · rfl

end Listing

theorem signature?_link (id : DeclId) : tree.link.signature? id = tree.signature? id := by
  rw [signature?, signature?, get?_link, Option.map_map]
  congr 1
  funext declaration
  rw [Function.comp_apply, Declaration.kind, Data.kind_mapRefs]
  rfl

/-- A declaration is inserted under the name that its container gives it. -/
theorem declare_eq_ok {container : DeclId} {name : SimpleName} {payload : Payload ClassifierRef}
    {result : DeclId × Tree} (hdeclare : tree.declare container name payload = .ok result) :
    name.isSegment = true ∧ ∃ qualifiedName,
      tree.insert container (Data.ofPayload name qualifiedName payload) = .ok result := by
  rw [declare] at hdeclare
  by_cases hname : name.isSegment = true
  · rw [if_pos hname] at hdeclare
    obtain ⟨qualifiedName, -, hinsert⟩ := Except.bind_eq_ok.mp hdeclare
    exact ⟨hname, qualifiedName, hinsert⟩
  · rw [if_neg hname] at hdeclare
    cases hdeclare

/-- What can be attached is free or points at the parent, which does not list it yet. -/
theorem attach_allowed {parent child : DeclId} (hattach : tree.attach parent child = .ok grown) :
    (∀ owner, tree.container? child = some owner → owner = parent) ∧
      child ∉ tree.children parent := by
  obtain ⟨container, -, hattach⟩ := Except.bind_eq_ok.mp hattach
  obtain ⟨declaration, hdeclaration, hattach⟩ := Except.bind_eq_ok.mp hattach
  obtain ⟨-, -, hattach⟩ := Except.bind_eq_ok.mp hattach
  dsimp only at hattach
  obtain ⟨hforeign, hattach⟩ := Except.refusal_eq_ok.mp hattach
  obtain ⟨hmember, -⟩ := Except.refusal_eq_ok.mp hattach
  have hget : tree.get? child = some declaration := fetch_eq_ok.mp hdeclaration
  constructor
  · intro owner howner
    rw [container?, hget, Option.bind_some] at howner
    simpa [howner] using hforeign
  · rw [List.contains_iff_mem] at hmember
    have hunlisted : child ∉ (tree.pointAt child parent).children parent := hmember
    rwa [children_pointAt] at hunlisted

end Tree

namespace Editing

variable {tree : Tree} {α β γ : Type}

/-- The outcome of a step that leaves the tree as it was when it fails. `view` reads the answer and
the new tree off what the step on whole trees gives. -/
def settled (tree : Tree) (view : γ → α × Tree) : Except TreeError γ → Except TreeError α × Tree
  | .ok result => (.ok (view result).1, (view result).2)
  | .error error => (.error error, tree)

theorem outcome_bind (step : Editing α) (next : α → Editing β) :
    (step >>= next).outcome tree =
      match step.outcome tree with
      | (.ok result, after) => (next result).outcome after
      | (.error error, after) => (.error error, after) := by
  have hrun : (step >>= next).outcome tree =
      ((ExceptT.bindCont next (step.outcome tree).1).run (step.outcome tree).2).run := rfl
  rw [hrun]
  obtain ⟨answer, after⟩ := step.outcome tree
  cases answer with
  | ok result => rfl
  | error error => rfl

section Sequence

variable {view : γ → β × Tree}

theorem outcome_check_bind {check : Except TreeError α} {next : α → Editing β}
    {plain : α → Except TreeError γ}
    (hnext : ∀ result, check = .ok result →
      (next result).outcome tree = settled tree view (plain result)) :
    (liftM check >>= next).outcome tree = settled tree view (check >>= plain) := by
  cases check with
  | error error => rfl
  | ok result => exact hnext result rfl

theorem outcome_fetch_bind {id : DeclId} {next : Declaration → Editing β}
    {plain : Declaration → Except TreeError γ}
    (hnext : ∀ declaration, tree.get? id = some declaration →
      (next declaration).outcome tree = settled tree view (plain declaration)) :
    (fetch id >>= next).outcome tree = settled tree view (tree.fetch id >>= plain) := by
  have hfetched (declaration : Declaration) (hfetch : tree.fetch id = .ok declaration) :=
    hnext declaration (Tree.fetch_eq_ok.mp hfetch)
  exact outcome_check_bind hfetched

end Sequence

/-- Inserting in place does what inserting does. -/
theorem outcome_insert (container : DeclId) (data : Data) :
    (insert container data).outcome tree = settled tree id (tree.insert container data) := by
  refine outcome_fetch_bind fun owner _ => ?_
  exact outcome_check_bind fun _ _ => rfl

theorem outcome_declare (container : DeclId) (name : SimpleName)
    (payload : Payload ClassifierRef) :
    (declare container name payload).outcome tree =
      settled tree id (tree.declare container name payload) := by
  rw [declare, Tree.declare]
  by_cases hname : name.isSegment = true
  · rw [if_pos hname, if_pos hname, Tree.nameIn, bind_assoc]
    refine outcome_fetch_bind fun owner _ => ?_
    rw [pure_bind]
    exact outcome_insert _ _
  · rw [if_neg hname, if_neg hname]
    rfl

/-- Attaching in place does what attaching does. The last check comes after a write, but it stops
only at a listed child, which points at its container already. -/
theorem outcome_attach {parent child : DeclId}
    (hlisted : child ∈ tree.children parent → tree.container? child = some parent) :
    (attach parent child).outcome tree =
      settled tree ((), ·) (tree.attach parent child) := by
  refine outcome_fetch_bind fun owner _ => outcome_fetch_bind fun declaration hchild => ?_
  refine outcome_check_bind fun _ _ => ?_
  by_cases hforeign : declaration.container.any (· != parent) = true
  · simp only [hforeign]
    rfl
  · simp only [hforeign]
    have hchildren : (tree.pointAt child parent).children parent = tree.children parent :=
      Tree.children_pointAt child parent parent
    show outcome (if ((tree.pointAt child parent).children parent).contains child then _ else _)
        (tree.pointAt child parent) =
      settled tree ((), ·)
        (if ((tree.pointAt child parent).children parent).contains child then _ else _)
    by_cases hmember : child ∈ tree.children parent
    · have hstop : ((tree.pointAt child parent).children parent).contains child = true := by
        rw [hchildren]
        exact List.contains_iff_mem.mpr hmember
      rw [if_pos hstop, if_pos hstop, Tree.pointAt_eq_self child parent (hlisted hmember)]
      rfl
    · have hgo : ¬((tree.pointAt child parent).children parent).contains child = true := by
        rw [hchildren]
        exact fun hcontains => hmember (List.contains_iff_mem.mp hcontains)
      rw [if_neg hgo, if_neg hgo]
      rfl

end Editing

namespace Edit

/-- Placeholders, each with the container that it was allocated with, after an edit: an allocation
with a container adds one, an attachment removes its child. -/
def placeholders (edit : Edit) (answer : Except TreeError (Option DeclId))
    (before : List (DeclId × DeclId)) : List (DeclId × DeclId) :=
  match edit, answer with
  | alloc _ (some container), .ok (some id) => (id, container) :: before
  | attach _ child, .ok _ => before.filter (·.1 != child)
  | _, _ => before

/-- All that an edit can do to a tree in which listed children point back at their containers. -/
inductive Effect (tree : Tree) : Edit → Except TreeError (Option DeclId) → Tree → Prop
  | refused (edit : Edit) (error : TreeError) : Effect tree edit (.error error) tree
  | alloc (data : Data) (container : Option DeclId) :
      Effect tree (.alloc data container) (.ok (some ⟨tree.size⟩)) (tree.alloc data container).2
  | root {edit : Edit} (hkeeps : ∀ answer before, edit.placeholders answer before = before)
      (data : Data) : Effect tree edit (.ok (some ⟨tree.size⟩)) (tree.addRoot data).2
  | insert {edit : Edit} (hkeeps : ∀ answer before, edit.placeholders answer before = before)
      {container : DeclId} {owner : Declaration} {data : Data}
      (howner : tree.get? container = some owner)
      (hmay : owner.kind.mayContain data.kind = true) :
      Effect tree edit (.ok (some ⟨tree.size⟩))
        ((tree.alloc data (some container)).2.enlist container ⟨tree.size⟩)
  | attach {parent child : DeclId} {owner declaration : Declaration}
      (howner : tree.get? parent = some owner) (hchild : tree.get? child = some declaration)
      (hmay : owner.kind.mayContain declaration.kind = true)
      (hfree : ∀ other, tree.container? child = some other → other = parent)
      (hfresh : child ∉ tree.children parent) :
      Effect tree (.attach parent child) (.ok none)
        ((tree.pointAt child parent).enlist parent child)
  | link : Effect tree .link (.ok none) tree.link

variable {tree : Tree}

/-- An edit that inserts a declaration, once its checks have passed. -/
theorem effect_of_settled {step : Editing DeclId} {edit : Edit}
    {plain : Except TreeError (DeclId × Tree)}
    (hkeeps : ∀ answer before, edit.placeholders answer before = before)
    (hperform : edit.perform = do return some (← step))
    (hstep : step.outcome tree = Editing.settled tree id plain)
    (hplain : ∀ result, plain = .ok result →
      ∃ container data, tree.insert container data = .ok result) :
    Effect tree edit (edit.run tree).1 (edit.run tree).2 := by
  rw [run, hperform, Editing.outcome_bind, hstep]
  cases hresult : plain with
  | error error => exact .refused edit error
  | ok result =>
    obtain ⟨id, grown⟩ := result
    obtain ⟨container, data, hinsert⟩ := hplain (id, grown) hresult
    obtain ⟨owner, howner, hmay, rfl, rfl⟩ := Tree.insert_eq_ok hinsert
    exact .insert hkeeps howner hmay

/-- Every edit has one of the effects, whatever the ids that it is given: it is refused and changes
nothing, or it passes its checks and does what it says. In the tree before, listed children point
back at the containers that list them. -/
theorem effect_run (hlisted : ∀ parent, ∀ child ∈ tree.children parent,
    tree.container? child = some parent) (edit : Edit) :
    Effect tree edit (edit.run tree).1 (edit.run tree).2 := by
  have hinsert {edit : Edit} {container : DeclId} {data : Data}
      (hkeeps : ∀ answer before, edit.placeholders answer before = before)
      (hperform : edit.perform = do return some (← Editing.insert container data)) :
      Effect tree edit (edit.run tree).1 (edit.run tree).2 :=
    effect_of_settled hkeeps hperform (Editing.outcome_insert container data)
      fun _ hplain => ⟨container, data, hplain⟩
  have hdeclare {edit : Edit} {container : DeclId} {name : SimpleName}
      {payload : Payload ClassifierRef}
      (hkeeps : ∀ answer before, edit.placeholders answer before = before)
      (hperform : edit.perform = do return some (← Editing.declare container name payload)) :
      Effect tree edit (edit.run tree).1 (edit.run tree).2 := by
    refine effect_of_settled hkeeps hperform (Editing.outcome_declare container name payload)
      fun result hplain => ?_
    obtain ⟨-, _, hinsert⟩ := Tree.declare_eq_ok hplain
    exact ⟨container, _, hinsert⟩
  cases edit with
  | alloc data container => exact .alloc data container
  | addRoot data => exact .root (fun _ _ => rfl) data
  | attach parent child =>
    rw [run, perform, Editing.outcome_bind, Editing.outcome_attach (hlisted parent child)]
    cases hattach : tree.attach parent child with
    | error error => exact .refused _ error
    | ok grown =>
      obtain ⟨owner, declaration, howner, hchild, hmay, rfl⟩ := Tree.attach_eq_ok hattach
      obtain ⟨hfree, hfresh⟩ := Tree.attach_allowed hattach
      exact .attach howner hchild hmay hfree hfresh
  | insert container data => exact hinsert (fun _ _ => rfl) rfl
  | declare container name payload => exact hdeclare (fun _ _ => rfl) rfl
  | addModule name => exact .root (fun _ _ => rfl) _
  | addPackage module name => exact hinsert (fun _ _ => rfl) rfl
  | addClass container name info => exact hdeclare (fun _ _ => rfl) rfl
  | addFunction container name info => exact hdeclare (fun _ _ => rfl) rfl
  | addValue function name info => exact hdeclare (fun _ _ => rfl) rfl
  | addProperty container name info => exact hdeclare (fun _ _ => rfl) rfl
  | addTypeAlias container name info => exact hdeclare (fun _ _ => rfl) rfl
  | link => exact .link

end Edit

end Concord
