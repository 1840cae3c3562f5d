import Concord.Proofs.Output.Produced
import Concord.Proofs.Output.Writable
import Concord.Proofs.Source.Renumbering

namespace Concord

open Origin (walkAll)

/-- What is written for a tree can be read, and differs from the tree in its ids only. -/
def Tree.Reloads (tree : Tree) : Prop :=
  ∃ again place, Tree.ofSources tree.toSources = .ok again ∧ again.toSources = tree.toSources ∧
    again.Renumbers tree place

theorem Tree.Writable.reloads {tree : Tree} (hwritable : tree.Writable) (hfinds : tree.FindsAll) :
    tree.Reloads := by
  obtain ⟨again, hread, hsame⟩ := hwritable.reads_back
  obtain ⟨place, hrenumbers⟩ :=
    hwritable.renumbers (Tree.writable_of_ofSources hread) hfinds hsame
  exact ⟨again, place, hread, hsame, hrenumbers⟩

namespace Sides

/-- A seat holds the node of an origin, and what stands at its places spells what the declarations
of the origin lend to the outputs. -/
structure Restates (sides : Sides) (trees : OutputTrees) (origin : Origin) (seat : Seat) : Prop where
  node : seat.node = origin.node sides
  spelled : ∀ output id, seat.places.get output = some id → ∃ source declaration lent,
    origin.source? output = some source ∧ (trees.get output).get? id = some declaration ∧
      sides.Lends output source lent ∧
      declaration.payload.mapRefs (trees.get output).spell = lent.mapRefs (sides.source output).spell

variable {sides : Sides} {forest : MergedForest} {outcome : Outcome}

section Traces

variable {origins : List Origin} {trees : OutputTrees}
  {seats : List Seat}

private theorem Traces.restates
    (htraces : sides.Traces (fun a _ common => common.SharedOf sides.first a) origins forest)
    {firsts seconds : List Source} (hfirst : Tree.ofSources firsts = .ok sides.first)
    (hsecond : Tree.ofSources seconds = .ok sides.second) (hseated : forest.Seated trees seats)
    (hwritable : ∀ output, (trees.get output).Writable) :
    List.Forall₂ (sides.Restates trees) (walkAll origins) seats := by
  have hregularA := Tree.regular_of_ofSources hfirst
  have hregularB := Tree.regular_of_ofSources hsecond
  have hnodes : (walkAll origins).map (Origin.node sides) = seats.map Seat.node := by
    rw [hseated.nodes, Origin.forest_nodes htraces.nodes]
  have hpaired : List.Forall₂ (fun origin seat => origin.node sides = seat.node) (walkAll origins)
      seats := by
    have hsame : List.Forall₂ (· = ·) ((walkAll origins).map (Origin.node sides))
        (seats.map Seat.node) := by
      rw [List.forall₂_eq_eq_eq]
      exact hnodes
    exact List.forall₂_map_right_iff.mp (List.forall₂_map_left_iff.mp hsame)
  refine List.forall₂_iff_zip.mpr ⟨hpaired.length_eq, fun {origin seat} hpair => ?_⟩
  have hnode := List.forall₂_zip hpaired hpair
  obtain ⟨horigin, hseat⟩ := List.of_mem_zip hpair
  refine ⟨hnode.symm, fun output id hid => ?_⟩
  have hplaced := hseated.placed seat hseat output
  rw [hid, Option.isSome_some, eq_comm, Option.isSome_iff_exists] at hplaced
  obtain ⟨data, hdata⟩ := hplaced
  obtain ⟨declaration, hget, heq⟩ := hseated.data seat hseat output data id hdata hid
  rw [← hnode] at hdata
  obtain ⟨source, -, hsource, -⟩ := htraces.standsFor hregularA hregularB horigin hdata
  obtain ⟨-, lent, hlends, hpayload⟩ := htraces.lent horigin hsource hdata
  have hwalked : origin.node sides ∈ forest.nodes := by
    rw [hnode, ← hseated.nodes]
    exact List.mem_map_of_mem hseat
  have hbound : (sides.source output).Bound :=
    of_both (Tree.ofSources_bound hfirst) (Tree.ofSources_bound hsecond) output
  have hunresolved (reference : ClassifierRef) (href : reference ∈ data.payload.refs)
      (target : DeclId) : reference ≠ .resolved target := by
    rintro rfl
    obtain ⟨_, _, _, _, hlocal⟩ | ⟨_, houtside⟩ | ⟨_, hparameter⟩ :=
      hbound.mentions (htraces.mentions hregularA hregularB hwalked hdata href)
    · cases hlocal
    · cases houtside
    · cases hparameter
  -- detached, linked in the output and spelled: each step keeps the names
  have hlinked : declaration.payload = data.payload.mapRefs (trees.get output).linkRef := by
    rw [Declaration.payload, heq]
    rfl
  refine ⟨source, declaration, lent, hsource, hget, hlends, ?_⟩
  calc
    declaration.payload.mapRefs (trees.get output).spell =
        data.payload.mapRefs ((trees.get output).spell ∘ (trees.get output).linkRef) := by
      rw [hlinked, Payload.mapRefs_mapRefs]
    _ = data.payload.mapRefs (sides.source output).spell :=
      Payload.mapRefs_congr fun reference href =>
        Tree.spell_linkRef_of_unresolved (hwritable output).named (sides.source output)
          (hunresolved reference href)
    _ = lent.mapRefs ((sides.source output).spell ∘ (sides.source output).detachRef) := by
      rw [hpayload, Payload.mapRefs_mapRefs]
    _ = lent.mapRefs (sides.source output).spell :=
      Payload.mapRefs_congr fun reference _ => Tree.spell_detachRef _ reference

end Traces

/-- The outputs of a run are linked, and can be loaded again. What stands at the places of a node
spells what the declarations of its origin lend to the outputs, so no reference changes its name.
Every reference of an output leads to a class or type alias of the same output, or out of it by a
name that none of them bears, or is a type parameter. What is written for an output is read as a
tree with the same sources, in which the same references lead to the same declarations. -/
theorem outputs_reload (sides : Sides) (hconsistent : sides.Consistent) {firsts seconds : List Source}
    (hfirst : Tree.ofSources firsts = .ok sides.first)
    (hsecond : Tree.ofSources seconds = .ok sides.second) {forest : MergedForest} {outcome : Outcome}
    (hproduces : sides.Produces forest outcome) :
    (∃ origins seats, forest.roots = Origin.nodes sides origins ∧ sides.Accounts origins ∧
      forest.Seated outcome.trees seats ∧
      List.Forall₂ (sides.Restates outcome.trees) (walkAll origins) seats) ∧
    ∀ output,
      (∀ id declaration, (outcome.trees.get output).get? id = some declaration →
        ∀ reference ∈ declaration.payload.refs, (outcome.trees.get output).Leads reference) ∧
      (outcome.trees.get output).Reloads := by
  have hregularA := Tree.regular_of_ofSources hfirst
  have hregularB := Tree.regular_of_ofSources hsecond
  obtain ⟨origins, htraces⟩ :=
    hproduces.merges.traces (mergeable_of_regular hconsistent hregularA hregularB)
  obtain ⟨placement, hplacement, hfill⟩ := hproduces.written
  obtain ⟨seats, hseated⟩ := hproduces.seated
  have hnested := htraces.nested hregularA hregularB
  have htitled := htraces.titled hregularA hregularB (Tree.ofSources_titled hfirst)
    (Tree.ofSources_titled hsecond)
  have hsealed := htraces.sealed hfirst hsecond
  have hwritten (output : Output) : (outcome.trees.get output).Writable ∧
      (outcome.trees.get output).FindsAll ∧
      ∀ id declaration, (outcome.trees.get output).get? id = some declaration →
        ∀ reference ∈ declaration.payload.refs, (outcome.trees.get output).Leads reference := by
    obtain ⟨standings, hnodes, hholds⟩ := Placement.fill_holds hplacement hfill output
    rw [MergedForest.nodes, ← hnodes] at hnested htitled hsealed
    exact ⟨hholds.writable hnested htitled hsealed, hholds.findsAll,
      fun id declaration hget reference href => hholds.leads hsealed hget href⟩
  refine ⟨⟨origins, seats, htraces.nodes, ?_, hseated, ?_⟩, fun output => ?_⟩
  · exact htraces.accounts hregularA.rooted hregularB.rooted
  · exact htraces.restates hfirst hsecond hseated fun output => (hwritten output).1
  · obtain ⟨hwritable, hfinds, hleads⟩ := hwritten output
    exact ⟨hleads, hwritable.reloads hfinds⟩

/-- A function that returns a class of a package that is built in, and other packages. -/
private def lighting (packages : List Source) : Source :=
  let lamp : Ty Spelling := .simple ⟨⟨some ⟨"kotlin.Lamp"⟩, none⟩, [], false, false, none⟩
  .mk ⟨"m"⟩ .everyone .final .plain (.module ⟨none⟩)
    (.mk ⟨"p"⟩ .everyone .final .plain .package
      [.mk ⟨"light"⟩ .everyone .final .plain
        (.function ⟨lamp, none, [], false, false, false, false⟩) []] :: packages)

private def lamps : Source :=
  .mk ⟨"kotlin"⟩ .everyone .final .plain .package
    [.mk ⟨"Lamp"⟩ .everyone .final .plain (.classType (.ofKind .ordinary)) []]

private def lampSides : Sides :=
  let read (packages : List Source) := (Tree.ofSources [lighting packages]).toOption.getD .empty
  ofTrees (read [lamps]) (read []) ⟨["kotlin"], [], false, 100, 1000000⟩

/-- Where one side only declares the class that a shared function returns, the function leads to it
in the output of that side, and out of the common output. -/
theorem lighting_reloads : ∃ forest outcome, lampSides.Produces forest outcome ∧
    (outcome.trees.first.get? ⟨4⟩).map (·.payload.refs) = some [.resolved ⟨3⟩] ∧
    (outcome.trees.common.get? ⟨2⟩).map (·.payload.refs) = some [.external ⟨"kotlin.Lamp"⟩] ∧
    ∀ output, (∀ id declaration, (outcome.trees.get output).get? id = some declaration →
        ∀ reference ∈ declaration.payload.refs, (outcome.trees.get output).Leads reference) ∧
      (outcome.trees.get output).Reloads := by
  have hread : Tree.ofSources [lighting [lamps]] = .ok lampSides.first ∧
      Tree.ofSources [lighting []] = .ok lampSides.second := by
    decide +kernel
  have hrefs : lampSides.run.toOption.map (fun outcome =>
      ((outcome.trees.first.get? ⟨4⟩).map (·.payload.refs),
        (outcome.trees.common.get? ⟨2⟩).map (·.payload.refs))) =
      some (some [.resolved ⟨3⟩], some [.external ⟨"kotlin.Lamp"⟩]) := by
    decide +kernel
  obtain ⟨outcome, hrun, hrefs⟩ := Option.map_eq_some_iff.mp hrefs
  obtain ⟨forest, hproduces⟩ := produces_of_run (Except.toOption_eq_some.mp hrun)
  obtain ⟨hfirst, hcommon⟩ := Prod.mk.inj hrefs
  obtain ⟨-, hlinked⟩ := outputs_reload lampSides Bool.noConfusion hread.1 hread.2 hproduces
  exact ⟨forest, outcome, hproduces, hfirst, hcommon, hlinked⟩

end Sides

end Concord
