import Concord.Json.Value
import Concord.Json.Printer
import Concord.Json.Reader
import Concord.Source.Decode
import Concord.Source.Encode
import Concord.Source.Tree

namespace Concord

/-- Why no tree can be read from a text. -/
inductive DocumentError where
  | text (fault : TextFault)
  | tree (error : TreeError)
deriving DecidableEq

namespace Document

/-- The sources that a text describes. The whole value is read before its shape is looked at, and
only then the text behind it. -/
def sources (text : String) : Except TextFault (List Source) := do
  let some (json, rest) := Json.read? .strict (JsonToken.scan text) | throw .malformed
  let some sources := Source.listOfJson? json | throw .misshapen
  unless rest.isEmpty do throw .malformed
  return sources

/-- The linked tree that a text describes. -/
def tree (text : String) : Except DocumentError Tree := do
  let sources ← (sources text).mapError .text
  (Tree.ofSources sources).mapError .tree

/-- The JSON value of a list of sources. -/
def ofSources (sources : List Source) : Json :=
  .array (Source.membersJson sources)

/-- The text of a tree: a list with one module per root. -/
def ofTree (tree : Tree) : String :=
  (ofSources tree.toSources).prettyText

end Document

end Concord
