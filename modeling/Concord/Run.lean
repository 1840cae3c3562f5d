import Concord.Merge.Trees
import Concord.Output.Filling
import Concord.Statistics

namespace Concord

/-- What a run produces. -/
structure Outcome where
  trees : OutputTrees
  rejections : List Rejection
  statistics : Statistics

/-- Reads the patterns of the options. -/
def compileOptions (options : Options) : Except RunError CompiledOptions :=
  options.compile.mapError .invalidPattern

/-- Writes the outputs of two trees that were merged, with what a cache counted on the way. -/
def Sides.write (sides : Sides) (merged : MergeResult) (cache : CacheCounts) :
    Except RunError Outcome := do
  let placement ← Placement.ofForest merged.forest
  let trees ← placement.fill sides.options merged.forest
  return ⟨trees, merged.rejections, .ofForest merged.forest merged.rejections.length cache⟩

/-- Merges two trees and fills the outputs. -/
def Sides.run (sides : Sides) : Except RunError Outcome := do
  let (merged, session) ← sides.merge .empty
  sides.write merged session.cache.counts

/-- Finds what two trees share. -/
def run (first second : Tree) (options : Options) : Except RunError Outcome := do
  (Sides.ofTrees first second (← compileOptions options)).run

end Concord
