import Concord.Name
import Concord.Pattern.Reader

namespace Concord

/-- The options of a run as they are written. -/
structure Options where
  /-- Classifiers in these namespaces are compared by name alone. -/
  builtinNamespaces : List String
  /-- Functions whose whole name matches one of these are never shared. -/
  excludedFunctions : List String
  /-- Whether the children of each shared module are merged independently of one another. -/
  parallel : Bool
  maxComparisonDepth : Nat
  maxComparisonIterations : Nat
deriving DecidableEq

namespace Options

/-- The options of a run for which nothing is configured. The excluded functions are the bridges
that are generated for each platform. -/
def default : Options where
  builtinNamespaces := ["kotlin", "kotlinx"]
  excludedFunctions := ["(objc)?[Kk]niBridge\\d+"]
  parallel := false
  maxComparisonDepth := 100
  maxComparisonIterations := 1000000

instance : Inhabited Options := ⟨default⟩

end Options

/-- Options whose patterns have been read. -/
structure CompiledOptions where
  builtinNamespaces : List String
  excludedFunctions : List Pattern
  parallel : Bool
  maxComparisonDepth : Nat
  maxComparisonIterations : Nat
deriving DecidableEq

namespace CompiledOptions

/-- Whether a name lies in one of the built-in namespaces. -/
def isBuiltin (options : CompiledOptions) (name : QualifiedName) : Bool :=
  options.builtinNamespaces.any name.startsWith

/-- Whether a function of this name is never shared. -/
def isExcluded (options : CompiledOptions) (name : SimpleName) : Bool :=
  options.excludedFunctions.any (·.isMatch name.text)

end CompiledOptions

/-- Reads a list of patterns. The error is the first text that is no pattern. -/
def readPatterns : List String → Except String (List Pattern)
  | [] => .ok []
  | text :: rest =>
    match Pattern.readWhole? text with
    | none => .error text
    | some pattern => (readPatterns rest).map (pattern :: ·)

/-- Reads the patterns of the options. The error is the first text that is no pattern. -/
def Options.compile (options : Options) : Except String CompiledOptions := do
  let excludedFunctions ← readPatterns options.excludedFunctions
  return {
    builtinNamespaces := options.builtinNamespaces
    excludedFunctions
    parallel := options.parallel
    maxComparisonDepth := options.maxComparisonDepth
    maxComparisonIterations := options.maxComparisonIterations }

end Concord
