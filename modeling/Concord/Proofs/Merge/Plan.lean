import Concord.Proofs.Merge.Runs
import Concord.Proofs.Tree.Lookup

namespace Concord

namespace Sides

/-- Two declarations of one kind with what their sides declare. -/
structure Fits (sides : Sides) (a b : DeclId) (first second : Data) : Prop where
  first : sides.first.detached? a = some first
  second : sides.second.detached? b = some second
  kinds : (sides.first.declaration a).kind = (sides.second.declaration b).kind

/-- A plan for two lists of siblings. Every sibling of either side is in it once: those of the first
side in their order, then those of the second side that found no partner. -/
structure Plans (sides : Sides) (good : DeclId → DeclId → Data → Prop) (as bs : List DeclId)
    (plan : List Pairing) : Prop where
  parts : ∃ paired left, plan = paired ++ left.map .secondAlone ∧
    paired.map Pairing.first? = as.map some ∧ left.Sublist bs ∧
    (paired.filterMap Pairing.second? ++ left).Perm bs
  fits : ∀ a b first common second, .partners a b first common second ∈ plan →
    sides.Fits a b first second
  good : ∀ a b first common second, .partners a b first common second ∈ plan → good a b common

variable {sides : Sides} {good : DeclId → DeclId → Data → Prop} {as bs rest : List DeclId}
  {plan : List Pairing}

theorem Plans.firsts (hplan : sides.Plans good as bs plan) :
    plan.filterMap Pairing.first? = as := by
  obtain ⟨paired, left, rfl, hfirsts, -, -⟩ := hplan.parts
  have hleft : (left.map Pairing.secondAlone).filterMap Pairing.first? = [] := by
    simp [Pairing.first?]
  have hpaired := congrArg (List.filterMap id) hfirsts
  simp only [List.filterMap_map, Function.id_comp, List.filterMap_some] at hpaired
  rw [List.filterMap_append, hpaired, hleft, List.append_nil]

theorem Plans.seconds (hplan : sides.Plans good as bs plan) :
    (plan.filterMap Pairing.second?).Perm bs := by
  obtain ⟨paired, left, rfl, -, -, hperm⟩ := hplan.parts
  have hleft : (left.map Pairing.secondAlone).filterMap Pairing.second? = left := by
    simp [Pairing.second?, Function.comp_def]
  rwa [List.filterMap_append, hleft]

theorem Plans.prepend {a : DeclId} {pairing : Pairing}
    (hplan : sides.Plans good as rest plan) (hfirst : pairing.first? = some a)
    (hsublist : rest.Sublist bs)
    (hperm : (pairing.second?.toList ++ rest).Perm bs)
    (hfits : ∀ a b first common second, pairing = .partners a b first common second →
      sides.Fits a b first second)
    (hgood : ∀ a b first common second, pairing = .partners a b first common second →
      good a b common) :
    sides.Plans good (a :: as) bs (pairing :: plan) where
  parts := by
    obtain ⟨paired, left, rfl, hfirsts, hleft, hseconds⟩ := hplan.parts
    refine ⟨pairing :: paired, left, rfl, ?_, hleft.trans hsublist, ?_⟩
    · simp only [List.map_cons, hfirst, hfirsts]
    · refine List.Perm.trans ?_ hperm
      cases hsecond : pairing.second? with
      | none => simpa [hsecond] using hseconds
      | some b => simpa [hsecond] using hseconds.cons b
  fits a b first common second hmem := by
    obtain heq | hmem := List.mem_cons.mp hmem
    · exact hfits a b first common second heq.symm
    · exact hplan.fits a b first common second hmem
  good a b first common second hmem := by
    obtain heq | hmem := List.mem_cons.mp hmem
    · exact hgood a b first common second heq.symm
    · exact hplan.good a b first common second hmem

end Sides

end Concord
