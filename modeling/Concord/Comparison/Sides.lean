import Concord.Options.Basic
import Concord.Tree.Link

namespace Concord

/-- The trees under comparison and the options. The flag says that both are one and the same tree,
so that equal ids mean the same declaration. -/
structure Sides where
  first : Tree
  second : Tree
  same : Bool
  options : CompiledOptions

namespace Sides

/-- One tree compared with itself. -/
def ofTree (tree : Tree) (options : CompiledOptions) : Sides :=
  ⟨tree, tree, true, options⟩

/-- Two trees. -/
def ofTrees (first second : Tree) (options : CompiledOptions) : Sides :=
  ⟨first, second, false, options⟩

end Sides

/-- The declaration with an id. An id that is not in the tree reads as an empty package. -/
def Tree.declaration (tree : Tree) (id : DeclId) : Declaration :=
  (tree.get? id).getD default

end Concord
