import Concord.Proofs.Merge.Origin
import Concord.Proofs.Merge.Plan

namespace Concord

/-- The siblings of the second side that have no partner come last, in their order. -/
def Reordered (bs : List DeclId) (ids : List (Option DeclId × Option DeclId)) : Prop :=
  ∃ (paired : List (Option DeclId × Option DeclId)) (left : List DeclId),
    ids = paired ++ left.map (none, some ·) ∧ (∀ pair ∈ paired, pair.1.isSome) ∧
    left.Sublist bs

/-- How the siblings of both sides stand below one node. The order is fixed if they are parameters. -/
structure Siblings (parameters : Prop) (as bs : List DeclId)
    (ids : List (Option DeclId × Option DeclId)) : Prop where
  firsts : ids.filterMap (·.1) = as
  seconds : (ids.filterMap (·.2)).Perm bs
  fixed : parameters → ids.filterMap (·.2) = bs
  ordered : ¬parameters → Reordered bs ids

namespace Siblings

variable {parameters : Prop}

theorem firstsAlone (as : List DeclId) :
    Siblings parameters as [] (as.map (some ·, none)) where
  firsts := by simp [List.filterMap_map]
  seconds := by simp [List.filterMap_map]
  fixed _ := by simp [List.filterMap_map]
  ordered _ := ⟨as.map (some ·, none), [], by simp, by simp, .refl []⟩

theorem secondsAlone (bs : List DeclId) :
    Siblings parameters [] bs (bs.map (none, some ·)) where
  firsts := by simp [List.filterMap_map]
  seconds := by simp [List.filterMap_map]
  fixed _ := by simp [List.filterMap_map]
  ordered _ := ⟨[], bs, by simp, by simp, .refl bs⟩

/-- The parameters of two functions, in their order on both sides. -/
theorem of_parameters {as bs : List DeclId} {pairs : List (Option DeclId × Option DeclId)}
    (hparameters : parameters) (hfirsts : pairs.filterMap (·.1) = as)
    (hseconds : pairs.filterMap (·.2) = bs) : Siblings parameters as bs pairs where
  firsts := hfirsts
  seconds := .of_eq hseconds
  fixed _ := hseconds
  ordered hfree := absurd hparameters hfree

/-- The siblings of a plan. -/
theorem of_plan {sides : Sides} {good : DeclId → DeclId → Data → Prop} {as bs : List DeclId}
    {plan : List Pairing} (hplan : sides.Plans good as bs plan)
    (hfree : ¬parameters) :
    Siblings parameters as bs (plan.map fun p => (p.first?, p.second?)) where
  firsts := by simpa [List.filterMap_map, Function.comp_def] using hplan.firsts
  seconds := by simpa [List.filterMap_map, Function.comp_def] using hplan.seconds
  fixed h := absurd h hfree
  ordered _ := by
    obtain ⟨paired, left, rfl, hfirsts, hleft, -⟩ := hplan.parts
    refine ⟨paired.map fun p => (p.first?, p.second?), left, ?_, ?_, hleft⟩
    · simp [Pairing.first?, Pairing.second?, Function.comp_def]
    · intro pair hpair
      obtain ⟨pairing, hpairing, rfl⟩ := List.mem_map.mp hpair
      have hmem : pairing.first? ∈ as.map some := hfirsts ▸ List.mem_map_of_mem hpairing
      obtain ⟨a, -, ha⟩ := List.mem_map.mp hmem
      simp [← ha]

end Siblings

namespace Origin

/-- Whether a node comes from a function. -/
def IsFunction (sides : Sides) (origin : Origin) : Prop :=
  (∃ a, origin.first? = some a ∧ (sides.first.declaration a).kind = .function) ∨
    ∃ b, origin.second? = some b ∧ (sides.second.declaration b).kind = .function

/-- A node stands for what its sides declare, and the nodes below it for what they own. -/
structure Sound (sides : Sides) (good : DeclId → DeclId → Data → Prop) (origin : Origin) : Prop where
  source : origin.first?.isSome ∨ origin.second?.isSome
  common : origin.common?.isSome = (origin.first?.isSome && origin.second?.isSome)
  kinds : ∀ a b, origin.first? = some a → origin.second? = some b →
    (sides.first.declaration a).kind = (sides.second.declaration b).kind
  siblings : Siblings (origin.IsFunction sides)
    (origin.first?.elim [] sides.first.children) (origin.second?.elim [] sides.second.children)
    (origin.children.map ids)
  good : ∀ a b common, origin.first? = some a → origin.second? = some b →
    origin.common? = some common → good a b common

end Origin

/-- What stands in a forest for two trees: its nodes come from origins, the topmost of which are the
roots of the trees, and each of which is sound. -/
structure Sides.Traces (sides : Sides) (good : DeclId → DeclId → Data → Prop)
    (origins : List Origin) (forest : MergedForest) : Prop where
  nodes : forest.roots = Origin.nodes sides origins
  roots : Siblings False sides.first.roots sides.second.roots (origins.map Origin.ids)
  sound : ∀ origin ∈ Origin.walkAll origins, origin.Sound sides good

end Concord
