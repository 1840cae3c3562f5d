import Concord.Declaration.Basic
import Concord.Output.Basic

namespace Concord

/-- A declaration of one side, or one of each side that match, with the data that each output has of
it and its children. -/
structure MergedNode where
  payloads : PerOutput (Option Data)
  children : List MergedNode

namespace MergedNode

instance : Inhabited MergedNode := ⟨⟨default, []⟩⟩

/-- A declaration of one output only. -/
def single (output : Output) (data : Data) (children : List MergedNode) : MergedNode :=
  ⟨(PerOutput.replicate none).set output (some data), children⟩

/-- A declaration that both sides share. -/
def shared (first common second : Data) (children : List MergedNode) : MergedNode :=
  ⟨⟨some first, some common, some second⟩, children⟩

def payload? (node : MergedNode) (output : Output) : Option Data :=
  node.payloads.get output

def isCommon (node : MergedNode) : Bool :=
  node.payloads.common.isSome

/-- The data of the first side, else of the second, else the shared data. -/
def primary? (node : MergedNode) : Option Data :=
  node.payloads.first <|> node.payloads.second <|> node.payloads.common

/-- The kind of what the sides declare. What two aliases share is a class. -/
def kind? (node : MergedNode) : Option Kind :=
  node.primary?.map (·.kind)

def qualifiedName? (node : MergedNode) : Option QualifiedName :=
  node.primary?.map (·.qualifiedName)

mutual
/-- A node and its descendants, every node before its children. -/
def walk : MergedNode → List MergedNode
  | ⟨payloads, children⟩ => ⟨payloads, children⟩ :: walkAll children
/-- Some nodes and their descendants, in order. -/
def walkAll : List MergedNode → List MergedNode
  | [] => []
  | node :: nodes => walk node ++ walkAll nodes
end

end MergedNode

/-- The merged declarations of two trees. -/
structure MergedForest where
  roots : List MergedNode

namespace MergedForest

/-- All nodes, every node before its children. -/
def nodes (forest : MergedForest) : List MergedNode :=
  MergedNode.walkAll forest.roots

def nodeCount (forest : MergedForest) : Nat :=
  forest.nodes.length

end MergedForest

end Concord
