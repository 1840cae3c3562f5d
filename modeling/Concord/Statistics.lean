import Concord.Comparison.Cache
import Concord.Json.Value
import Concord.Merge.Forest

namespace Concord

/-- Which of the three counts a node belongs to. -/
def MergedNode.countedAs (node : MergedNode) : Output :=
  if node.isCommon then .common else if node.payloads.first.isSome then .first else .second

/-- The counts of a run. -/
structure Statistics where
  /-- The kinds of the shared nodes, and of those of one side only. -/
  kinds : PerOutput (List Kind)
  mismatches : Nat
  cache : CacheCounts

namespace Statistics

/-- The kinds of the nodes that belong to a count. -/
def kindsOf (forest : MergedForest) (output : Output) : List Kind :=
  (forest.nodes.filter fun node => node.countedAs = output).filterMap (·.kind?)

/-- The statistics of a merged forest. -/
def ofForest (forest : MergedForest) (mismatches : Nat) (cache : CacheCounts) : Statistics :=
  ⟨⟨kindsOf forest .first, kindsOf forest .common, kindsOf forest .second⟩, mismatches, cache⟩

/-- How many nodes of a kind belong to a count. -/
def count (statistics : Statistics) (output : Output) (kind : Kind) : Nat :=
  (statistics.kinds.get output).count kind

/-- How many nodes belong to a count. -/
def total (statistics : Statistics) (output : Output) : Nat :=
  (statistics.kinds.get output).length

/-- The counts by kind, without those that are zero. -/
def countsJson (statistics : Statistics) (output : Output) : Json :=
  .object ((Keyword.all.filter fun kind => statistics.count output kind != 0).map fun kind =>
    (Keyword.word kind, .natural (statistics.count output kind)))

/-- The statistics as a JSON value. -/
def toJson (statistics : Statistics) : Json :=
  .object [("common", statistics.countsJson .common), ("first_only", statistics.countsJson .first),
    ("second_only", statistics.countsJson .second), ("mismatches", .natural statistics.mismatches),
    ("cache", .object [("entries", .natural statistics.cache.entries),
      ("hits", .natural statistics.cache.hits), ("misses", .natural statistics.cache.misses)])]

/-- A text filled up with blanks on the right. -/
def padRight (width : Nat) (text : String) : String :=
  text ++ String.ofList (List.replicate (width - text.length) ' ')

/-- A text filled up with blanks on the left. -/
def padLeft (width : Nat) (text : String) : String :=
  String.ofList (List.replicate (width - text.length) ' ') ++ text

/-- A row of the table: a title on the left, three columns on the right. -/
def row (title common first second : String) : String :=
  padRight 12 title ++ " " ++ padLeft 8 common ++ " " ++ padLeft 11 first ++ " " ++
    padLeft 12 second

/-- A row of counts. -/
def countRow (title : String) (counts : Output → Nat) : String :=
  row title (toString (counts .common)) (toString (counts .first)) (toString (counts .second))

/-- The lines of the table: a row for each kind that occurs, the totals, and what was compared. -/
def lines (statistics : Statistics) : List String :=
  let kinds := Keyword.all.filter fun kind =>
    statistics.count .common kind + statistics.count .first kind +
      statistics.count .second kind != 0
  [row "kind" "common" "first-only" "second-only"] ++
    kinds.map (fun kind => countRow kind.display fun output => statistics.count output kind) ++
    [countRow "total" statistics.total,
      "mismatched pairs: " ++ toString statistics.mismatches ++ ", cached classifier pairs: " ++
        toString statistics.cache.entries ++ " (" ++ toString statistics.cache.hits ++ " hits)"]

end Statistics

end Concord
