import Concord.Tree.Build
import Concord.Tree.Link

namespace Concord

/-- A step on a tree that is changed in place. What it has written stays when it fails. -/
abbrev Editing := ExceptT TreeError (StateM Tree)

namespace Tree

/-- Points a declaration at a container. -/
def pointAt (tree : Tree) (child parent : DeclId) : Tree :=
  tree.modify child ({ · with container := some parent })

/-- Lists a declaration as the last child of a container. -/
def enlist (tree : Tree) (parent child : DeclId) : Tree :=
  tree.modify parent fun container =>
    { container with children := container.children ++ [child] }

end Tree

namespace Editing

/-- The answer of a step, and the tree that it leaves behind. -/
def outcome {α : Type} (step : Editing α) (tree : Tree) : Except TreeError α × Tree :=
  (step.run.run tree).run

def fetch (id : DeclId) : Editing Declaration := do
  (← get).fetch id

def alloc (data : Data) (container : Option DeclId) : Editing DeclId :=
  modifyGet (·.alloc data container)

def addRoot (data : Data) : Editing DeclId :=
  modifyGet (·.addRoot data)

/-- The child points at its container before the last check, which comes upon a child that is listed
already. -/
def attach (parent child : DeclId) : Editing Unit := do
  let container ← fetch parent
  let declaration ← fetch child
  Tree.checkContainer declaration.kind container.kind
  if declaration.container.any (· != parent) then
    throw (.sharedChild declaration.qualifiedName)
  modify (·.pointAt child parent)
  if ((← get).children parent).contains child then
    throw (.sharedChild declaration.qualifiedName)
  modify (·.enlist parent child)

def insert (container : DeclId) (data : Data) : Editing DeclId := do
  Tree.checkContainer data.kind (← fetch container).kind
  let id ← alloc data (some container)
  modify (·.enlist container id)
  return id

def declare (container : DeclId) (name : SimpleName) (payload : Payload ClassifierRef) :
    Editing DeclId := do
  unless name.isSegment do throw (.invalidName name.text)
  let owner ← fetch container
  insert container (Data.ofPayload name (owner.qualifiedName.child name) payload)

def addModule (name : String) : Editing DeclId :=
  addRoot (Data.ofPayload ⟨name⟩ ⟨name⟩ (.module ⟨none⟩))

def addPackage (module : DeclId) (name : String) : Editing DeclId :=
  insert module (Data.ofPayload ⟨name⟩ ⟨name⟩ .package)

end Editing

/-- A step that builds a tree. -/
inductive Edit where
  | alloc (data : Data) (container : Option DeclId)
  | addRoot (data : Data)
  | attach (parent child : DeclId)
  | insert (container : DeclId) (data : Data)
  | declare (container : DeclId) (name : SimpleName) (payload : Payload ClassifierRef)
  | addModule (name : String)
  | addPackage (module : DeclId) (name : String)
  | addClass (container : DeclId) (name : SimpleName) (info : ClassInfo ClassifierRef)
  | addFunction (container : DeclId) (name : SimpleName) (info : FunctionInfo ClassifierRef)
  | addValue (function : DeclId) (name : SimpleName) (info : ValueInfo ClassifierRef)
  | addProperty (container : DeclId) (name : SimpleName) (info : PropertyInfo ClassifierRef)
  | addTypeAlias (container : DeclId) (name : SimpleName) (info : AliasInfo ClassifierRef)
  | link

namespace Edit

/-- What an edit does. An edit that allocates a declaration answers with its id. -/
def perform : Edit → Editing (Option DeclId)
  | alloc data container => return some (← Editing.alloc data container)
  | addRoot data => return some (← Editing.addRoot data)
  | attach parent child => do
    Editing.attach parent child
    return none
  | insert container data => return some (← Editing.insert container data)
  | declare container name payload => return some (← Editing.declare container name payload)
  | addModule name => return some (← Editing.addModule name)
  | addPackage module name => return some (← Editing.addPackage module name)
  | addClass container name info => return some (← Editing.declare container name (.classType info))
  | addFunction container name info =>
    return some (← Editing.declare container name (.function info))
  | addValue function name info => return some (← Editing.declare function name (.value info))
  | addProperty container name info =>
    return some (← Editing.declare container name (.property info))
  | addTypeAlias container name info =>
    return some (← Editing.declare container name (.typeAlias info))
  | link => do
    modify Tree.link
    return none

/-- The answer of an edit, and the tree that it leaves behind. -/
def run (edit : Edit) (tree : Tree) : Except TreeError (Option DeclId) × Tree :=
  edit.perform.outcome tree

/-- The tree after a session, in which every edit goes on from what the one before left behind. An
edit that fails reports its error, and the session goes on with whatever the edit had written by
then. -/
def runAll (edits : List Edit) (tree : Tree) : Tree :=
  edits.foldl (fun tree edit => (edit.run tree).2) tree

end Edit

end Concord
