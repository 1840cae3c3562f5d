import Mathlib.Data.List.Forall2
import Mathlib.Data.List.Nodup
import Mathlib.Data.List.Zip
import Concord.Proofs.Source.Writable

namespace Concord

/-- Lists that go along with the same list go along with each other. -/
private theorem forall₂_shared {α β γ : Type} {P : α → γ → Prop} {Q : β → γ → Prop} {as : List α}
    {bs : List β} {cs : List γ} (hfirst : List.Forall₂ P as cs) (hsecond : List.Forall₂ Q bs cs) :
    List.Forall₂ (fun a b => ∃ c, P a c ∧ Q b c) as bs := by
  induction hfirst generalizing bs with
  | nil =>
    cases hsecond
    exact .nil
  | cons hhead _ ih =>
    cases hsecond with
    | cons hother hrest => exact .cons ⟨_, hhead, hother⟩ (ih hrest)

private theorem exists_mem_zip {α β : Type} {as : List α} {bs : List β}
    (hlength : as.length = bs.length) {a : α} (ha : a ∈ as) : ∃ b, (a, b) ∈ as.zip bs := by
  rw [← List.map_fst_zip (Nat.le_of_eq hlength)] at ha
  obtain ⟨⟨_, b⟩, hpair, rfl⟩ := List.mem_map.mp ha
  exact ⟨b, hpair⟩

private theorem mem_zip_unique {α β : Type} {as : List α} {bs : List β} (hdistinct : as.Nodup)
    {a : α} {b c : β} (hb : (a, b) ∈ as.zip bs) (hc : (a, c) ∈ as.zip bs) : b = c := by
  obtain ⟨i, hi, hb⟩ := List.mem_iff_getElem.mp hb
  obtain ⟨j, hj, hc⟩ := List.mem_iff_getElem.mp hc
  rw [List.getElem_zip, Prod.mk.injEq] at hb hc
  have hij : i = j := (List.Nodup.getElem_inj_iff hdistinct).mp (hb.1.trans hc.1.symm)
  subst hij
  exact hb.2.symm.trans hc.2

namespace Tree

variable {tree again : Tree}

/-- A declaration is written as a source, with everything that it owns. -/
def Describes (tree : Tree) (id : DeclId) (source : Source) : Prop :=
  ∃ above depth, tree.Line id above ∧ above.length + depth = tree.size ∧
    tree.sourceWithin depth id = some source

section Rooted

variable (hrooted : tree.Rooted)
include hrooted

private theorem describes_of_line {id : DeclId} {above : List DeclId} {depth : Nat}
    (hline : tree.Line id above) (hdepth : above.length + depth = tree.size) :
    ∃ source, tree.sourceWithin depth id = some source := by
  have hlength := hrooted.line_length hline
  obtain ⟨declaration, hget⟩ := hrooted.line_known hline
  obtain ⟨levels, rfl⟩ : ∃ levels, depth = levels + 1 := Nat.exists_eq_add_one.mpr (by omega)
  exact ⟨_, sourceWithin_of_get? hget levels⟩

/-- No declaration on a line is left out when it is written, for there are levels enough. -/
private theorem describesAll {ids above : List DeclId} {depth : Nat}
    (hlines : ∀ id ∈ ids, tree.Line id above) (hdepth : above.length + depth = tree.size) :
    List.Forall₂ tree.Describes ids (ids.filterMap (tree.sourceWithin depth)) := by
  induction ids with
  | nil => exact .nil
  | cons id ids ih =>
    have hline := hlines id List.mem_cons_self
    obtain ⟨source, hsource⟩ := describes_of_line hrooted hline hdepth
    rw [List.filterMap_cons, hsource]
    refine .cons ⟨above, depth, hline, hdepth, hsource⟩ (ih fun other hother => ?_)
    exact hlines other (List.mem_cons_of_mem _ hother)

/-- The roots are written as the sources of the tree. -/
private theorem roots_described : List.Forall₂ tree.Describes tree.roots tree.toSources :=
  describesAll hrooted (fun _ hroot => .root hroot) (Nat.zero_add _)

/-- A source has the attributes of what it describes, and its members describe the children. -/
theorem Describes.cases {id : DeclId} {source : Source} (hdescribes : tree.Describes id source) :
    ∃ declaration members, tree.get? id = some declaration ∧
      source = .mk declaration.data.name declaration.data.visibility declaration.data.modality
        declaration.data.expectation (tree.payloadSource declaration.data.payload) members ∧
      List.Forall₂ tree.Describes declaration.children members := by
  obtain ⟨above, depth, hline, hdepth, hsource⟩ := hdescribes
  obtain ⟨declaration, hget⟩ := hrooted.line_known hline
  have hlength := hrooted.line_length hline
  obtain ⟨levels, rfl⟩ : ∃ levels, depth = levels + 1 := Nat.exists_eq_add_one.mpr (by omega)
  rw [sourceWithin_of_get? hget] at hsource
  refine ⟨declaration, _, hget, (Option.some.inj hsource).symm, ?_⟩
  have hchildren := children_of_get? hget
  have hlines (child : DeclId) (hchild : child ∈ declaration.children) :
      tree.Line child (id :: above) :=
    .child hline (hchildren ▸ hchild)
  refine describesAll hrooted hlines ?_
  rw [List.length_cons]
  omega

end Rooted

/-- Declarations of two trees that stand at the same place below the roots. -/
inductive Paired (tree again : Tree) : DeclId → DeclId → Prop
  | root {id other : DeclId} (hpair : (id, other) ∈ tree.roots.zip again.roots) :
      Paired tree again id other
  | child {parent around id other : DeclId} (hparent : Paired tree again parent around)
      (hpair : (id, other) ∈ (tree.children parent).zip (again.children around)) :
      Paired tree again id other

namespace Paired

variable {id other : DeclId}

theorem swap (hpaired : tree.Paired again id other) : again.Paired tree other id := by
  induction hpaired with
  | root hpair =>
    refine .root ?_
    rw [← List.zip_swap]
    exact List.mem_map_of_mem hpair
  | child _ hpair ih =>
    refine .child ih ?_
    rw [← List.zip_swap]
    exact List.mem_map_of_mem hpair

/-- A declaration is paired with one other only. -/
theorem unique (hrooted : tree.Rooted) (hpaired : tree.Paired again id other) {third : DeclId}
    (hthird : tree.Paired again id third) : other = third := by
  -- a root has no container and a child one only, so both pairs were reached in the same way
  induction hpaired generalizing third with
  | root hpair =>
    have hfree := hrooted.free _ (List.of_mem_zip hpair).1
    cases hthird with
    | root hother => exact mem_zip_unique hrooted.distinct hpair hother
    | child _ hother =>
      rw [hrooted.owned.listed _ _ (List.of_mem_zip hother).1] at hfree
      cases hfree
  | child _ hpair ih =>
    have hcontainer := hrooted.owned.listed _ _ (List.of_mem_zip hpair).1
    cases hthird with
    | root hother =>
      rw [hrooted.free _ (List.of_mem_zip hother).1] at hcontainer
      cases hcontainer
    | child hparent hother =>
      rw [hrooted.owned.listed _ _ (List.of_mem_zip hother).1] at hcontainer
      obtain rfl := Option.some.inj hcontainer
      rw [← ih hparent] at hother
      exact mem_zip_unique (hrooted.owned.distinct _) hpair hother

section Alike

variable (htree : tree.Rooted) (hagain : again.Rooted) (hsame : again.toSources = tree.toSources)
include htree hagain hsame

theorem roots_length : tree.roots.length = again.roots.length := by
  rw [(roots_described htree).length_eq, (roots_described hagain).length_eq, hsame]

/-- Paired declarations are written as the same source. -/
theorem described (hpaired : tree.Paired again id other) :
    ∃ source, tree.Describes id source ∧ again.Describes other source := by
  induction hpaired with
  | root hpair =>
    have hroots := roots_described hagain
    rw [hsame] at hroots
    exact List.forall₂_zip (forall₂_shared (roots_described htree) hroots) hpair
  | child _ hpair ih =>
    obtain ⟨source, hfirst, hsecond⟩ := ih
    obtain ⟨declaration, members, hget, rfl, hmembers⟩ := hfirst.cases htree
    obtain ⟨declaration', members', hget', heq, hmembers'⟩ := hsecond.cases hagain
    rw [children_of_get? hget, children_of_get? hget'] at hpair
    obtain ⟨-, -, -, -, -, rfl⟩ := Source.mk.inj heq
    exact List.forall₂_zip (forall₂_shared hmembers hmembers') hpair

theorem children_length (hpaired : tree.Paired again id other) :
    (tree.children id).length = (again.children other).length := by
  obtain ⟨source, hfirst, hsecond⟩ := hpaired.described htree hagain hsame
  obtain ⟨declaration, members, hget, rfl, hmembers⟩ := hfirst.cases htree
  obtain ⟨declaration', members', hget', heq, hmembers'⟩ := hsecond.cases hagain
  obtain ⟨-, -, -, -, -, rfl⟩ := Source.mk.inj heq
  rw [children_of_get? hget, children_of_get? hget', hmembers.length_eq, hmembers'.length_eq]

end Alike

end Paired

/-- What can be reached in one of the trees is paired with something in the other. -/
theorem Reachable.exists_paired {id : DeclId} (hreachable : tree.Reachable id)
    (htree : tree.Rooted) (hagain : again.Rooted) (hsame : again.toSources = tree.toSources) :
    ∃ other, tree.Paired again id other := by
  induction hreachable with
  | root hroot =>
    obtain ⟨other, hpair⟩ := exists_mem_zip (Paired.roots_length htree hagain hsame) hroot
    exact ⟨other, .root hpair⟩
  | child _ hchild ih =>
    obtain ⟨around, hparent⟩ := ih
    obtain ⟨other, hpair⟩ := exists_mem_zip (hparent.children_length htree hagain hsame) hchild
    exact ⟨other, .child hparent hpair⟩

namespace Paired

variable {id other : DeclId} (hpaired : tree.Paired again id other)

include hpaired in
/-- Both of two paired declarations are there. -/
theorem known (htree : tree.Rooted) (hagain : again.Rooted)
    (hsame : again.toSources = tree.toSources) : ∃ declaration declaration',
      tree.get? id = some declaration ∧ again.get? other = some declaration' := by
  obtain ⟨source, hfirst, hsecond⟩ := hpaired.described htree hagain hsame
  obtain ⟨declaration, -, hget, -⟩ := hfirst.cases htree
  obtain ⟨declaration', -, hget', -⟩ := hsecond.cases hagain
  exact ⟨declaration, declaration', hget, hget'⟩

variable (htree : tree.Writable) (hagain : again.Writable)
  (hsame : again.toSources = tree.toSources) {declaration declaration' : Declaration}
  (hget : tree.get? id = some declaration) (hget' : again.get? other = some declaration')
include hpaired htree hagain hsame hget hget'

private theorem attributes_eq : declaration'.name = declaration.name ∧
    declaration'.data.visibility = declaration.data.visibility ∧
    declaration'.data.modality = declaration.data.modality ∧
    declaration'.data.expectation = declaration.data.expectation ∧
    again.payloadSource declaration'.payload = tree.payloadSource declaration.payload := by
  obtain ⟨source, hfirst, hsecond⟩ := hpaired.described htree.rooted hagain.rooted hsame
  obtain ⟨found, members, hfound, rfl, -⟩ := hfirst.cases htree.rooted
  obtain ⟨found', members', hfound', heq, -⟩ := hsecond.cases hagain.rooted
  cases hget.symm.trans hfound
  cases hget'.symm.trans hfound'
  obtain ⟨hname, hvisibility, hmodality, hexpectation, hpayload, -⟩ := Source.mk.inj heq
  exact ⟨hname.symm, hvisibility.symm, hmodality.symm, hexpectation.symm, hpayload.symm⟩

/-- Paired declarations are of one kind. -/
theorem kind_eq : declaration'.kind = declaration.kind := by
  obtain ⟨-, -, -, -, hpayload⟩ := hpaired.attributes_eq htree hagain hsame hget hget'
  have hkind := congrArg Source.Payload.kind hpayload
  rwa [kind_payloadSource, kind_payloadSource] at hkind

/-- The payloads of paired declarations are spelled alike. -/
theorem payload_spelled :
    declaration'.payload.mapRefs again.spell = declaration.payload.mapRefs tree.spell := by
  obtain ⟨-, -, -, -, hpayload⟩ := hpaired.attributes_eq htree hagain hsame hget hget'
  rw [hagain.payloadSource_eq hget', htree.payloadSource_eq hget] at hpayload
  have hspelled := congrArg Source.Payload.explicit hpayload
  rwa [Source.explicit_write, Source.explicit_write] at hspelled

private theorem qualifiedName_of_whole
    (hwhole : declaration.kind = .module ∨ declaration.kind = .package) :
    declaration'.qualifiedName = declaration.qualifiedName := by
  obtain ⟨hname, -⟩ := hpaired.attributes_eq htree hagain hsame hget hget'
  have hkind := hpaired.kind_eq htree hagain hsame hget hget'
  rw [htree.titled.whole id declaration hget hwhole,
    hagain.titled.whole other declaration' hget' (by rwa [hkind]), hname]

/-- Paired declarations bear the same qualified name, since their containers do. -/
theorem qualifiedName_eq : declaration'.qualifiedName = declaration.qualifiedName := by
  have hpair := hpaired
  induction hpaired generalizing declaration declaration' with
  | root hroot =>
    obtain ⟨found, hfound, hmodule⟩ := htree.modules _ (List.of_mem_zip hroot).1
    cases hget.symm.trans hfound
    exact hpair.qualifiedName_of_whole htree hagain hsame hget hget' (.inl hmodule)
  | child hparent hchild ih =>
    by_cases hwhole : declaration.kind = .module ∨ declaration.kind = .package
    · exact hpair.qualifiedName_of_whole htree hagain hsame hget hget' hwhole
    · obtain ⟨hname, -⟩ := hpair.attributes_eq htree hagain hsame hget hget'
      have hkind := hpair.kind_eq htree hagain hsame hget hget'
      obtain ⟨hmodule, hpackage⟩ := not_or.mp hwhole
      -- each of the two extends the name of its container, and these are paired
      obtain ⟨-, container, owner, hcontainer, howner, hqualified⟩ :=
        htree.titled.nested _ declaration hget hmodule hpackage
      obtain ⟨-, container', owner', hcontainer', howner', hqualified'⟩ :=
        hagain.titled.nested _ declaration' hget' (by rwa [hkind]) (by rwa [hkind])
      have hlisted := htree.rooted.owned.listed _ _ (List.of_mem_zip hchild).1
      have hlisted' := hagain.rooted.owned.listed _ _ (List.of_mem_zip hchild).2
      rw [container?, hget, Option.bind_some, hcontainer] at hlisted
      rw [container?, hget', Option.bind_some, hcontainer'] at hlisted'
      cases hlisted
      cases hlisted'
      rw [hqualified, hqualified', hname, ih howner howner' hparent]

/-- Paired declarations have the same data but for the references. -/
theorem data_eq {f : ClassifierRef → ClassifierRef}
    (hpayload : declaration'.payload = declaration.payload.mapRefs f) :
    declaration'.data = declaration.data.mapRefs f := by
  obtain ⟨hname, hvisibility, hmodality, hexpectation, -⟩ :=
    hpaired.attributes_eq htree hagain hsame hget hget'
  have hqualified := hpaired.qualifiedName_eq htree hagain hsame hget hget'
  obtain ⟨⟨name, qualifiedName, visibility, modality, expectation, payload⟩, container, children⟩ :=
    declaration
  obtain ⟨⟨name', qualifiedName', visibility', modality', expectation', payload'⟩, container',
    children'⟩ := declaration'
  cases hname
  cases hvisibility
  cases hmodality
  cases hexpectation
  cases hqualified
  cases hpayload
  rfl

end Paired

end Tree

end Concord
