import Concord.Options.Basic
import Concord.Output.Placement

namespace Concord

/-- The registry and options of a run. -/
structure Binding where
  registry : Registry
  options : CompiledOptions

namespace Binding

/-- Binds a reference in an output. References that are still bound elsewhere do not fit. A name
without a placeholder in the output must be built in. -/
def ref (binding : Binding) (owner : QualifiedName) (output : Output) :
    ClassifierRef → Except RunError ClassifierRef
  | .symbolic name =>
    match binding.registry.classifier? name output with
    | some id => .ok (.resolved id)
    | none =>
      if binding.options.isBuiltin name then .ok (.external name)
      else .error (.missingClassifier name output .filling)
  | .resolved _ => .error (.conflictingPayload owner output .filling)
  | reference => .ok reference

/-- Binds every reference of a declaration in an output. -/
def data (binding : Binding) (output : Output) (data : Data) : Except RunError Data := do
  return { data with payload := ← data.payload.mapRefsM (binding.ref data.qualifiedName output) }

end Binding

/-- The role of a declaration in an output: a shared one is expected, and the declarations behind it
are actual. Modules, packages and values are always plain. -/
def expectationOf (isCommon : Bool) (output : Output) (kind : Kind) : Expectation :=
  match kind with
  | .module | .package | .value => .plain
  | .classType | .typeAlias | .function | .property =>
    match output with
    | .common => .expect
    | .first | .second => if isCommon then .actual else .plain

/-- The error for a declaration without a placeholder. -/
def unplaced (data : Data) (output : Output) : RunError :=
  if data.kind.isClassifier then .missingClassifier data.qualifiedName output .filling
  else .missingContainer data.qualifiedName data.kind output .filling

/-- The trees of the outputs, and the placeholders that are filled. -/
structure Filling where
  trees : OutputTrees
  filled : List (Output × DeclId)

namespace Filling

/-- Inserts a declaration anew. -/
def insert (filling : Filling) (output : Output) (container : Option DeclId) (data : Data) :
    Except RunError (DeclId × Filling) := do
  let some container := container
    | throw (.missingContainer data.qualifiedName data.kind output .filling)
  let (id, tree) ←
    ((filling.trees.get output).insert container data).mapError (.model .filling)
  return (id, { filling with trees := filling.trees.set output tree })

/-- Fills a placeholder and lists it in its container. -/
def fill (filling : Filling) (binding : Binding) (output : Output) (container : Option DeclId)
    (data : Data) : Except RunError (DeclId × Filling) := do
  let some id := binding.registry.find? data.kind data.qualifiedName output
    | throw (unplaced data output)
  if filling.filled.contains (output, id) then
    throw (.filledTwice data.qualifiedName output .filling)
  let tree := filling.trees.get output
  let placeholder ← (tree.fetch id).mapError (.model .filling)
  if placeholder.kind != data.kind || placeholder.qualifiedName != data.qualifiedName then
    throw (.conflictingPayload data.qualifiedName output .filling)
  let tree := tree.setData id data
  let tree ← match container with
    | some container => (tree.attach container id).mapError (.model .filling)
    | none => pure tree
  return (id, ⟨filling.trees.set output tree, (output, id) :: filling.filled⟩)

/-- Puts a declaration into an output. A registered kind fills its placeholder and is listed in its
container, anything else is inserted anew. -/
def place (filling : Filling) (binding : Binding) (output : Output) (container : Option DeclId)
    (data : Data) : Except RunError (DeclId × Filling) :=
  if data.kind.isRegistered then filling.fill binding output container data
  else filling.insert output container data

/-- Puts what a node has in one output into it, and notes its place. -/
def placeIn (binding : Binding) (payloads : PerOutput (Option Data)) (containers : Places)
    (state : Filling × Places) (output : Output) : Except RunError (Filling × Places) := do
  let (filling, places) := state
  match payloads.get output with
  | none => return (filling, places)
  | some payload =>
    let bound ← binding.data output payload
    let data :=
      { bound with expectation := expectationOf payloads.common.isSome output bound.kind }
    let (id, filling) ← filling.place binding output (containers.get output) data
    return (filling, places.set output (some id))

mutual
/-- Puts a node and everything below it into the outputs. -/
def visit (filling : Filling) (binding : Binding) (containers : Places) :
    MergedNode → Except RunError Filling
  | ⟨payloads, children⟩ => do
    let (filling, places) ←
      Output.all.foldlM (placeIn binding payloads containers) (filling, .replicate none)
    visitAll filling binding places children
/-- Puts some nodes and everything below them into the outputs, in order. -/
def visitAll (filling : Filling) (binding : Binding) (containers : Places) :
    List MergedNode → Except RunError Filling
  | [] => return filling
  | node :: nodes => do
    visitAll (← visit filling binding containers node) binding containers nodes
end

end Filling

/-- Fills placeholders from a merged forest. -/
def Placement.fill (placement : Placement) (options : CompiledOptions) (forest : MergedForest) :
    Except RunError OutputTrees := do
  let filling ← Filling.visitAll ⟨placement.trees, []⟩ ⟨placement.registry, options⟩
    (.replicate none) forest.roots
  return filling.trees

end Concord
