import Concord.Output.Basic
import Concord.Tree.Error

namespace Concord

/-- The part of a run in which an error arose. -/
inductive Phase where
  | merging
  | placing
  | filling
deriving DecidableEq

/-- The word for a phase in messages. -/
def Phase.word : Phase → String
  | merging => "merge"
  | placing => "skeleton"
  | filling => "materialize"

/-- An error that stops a run. It reports options or trees that cannot be used, or payloads that do
not fit together, and never a mismatch between two declarations. -/
inductive RunError where
  /-- An exclusion pattern that is no pattern. -/
  | invalidPattern (pattern : String)
  /-- An input tree whose ownership is broken, or with a root that is no module. -/
  | invalidInput (side : Output) (cause : TreeError)
  | model (phase : Phase) (cause : TreeError)
  /-- A classifier that no output tree declares. -/
  | missingClassifier (name : QualifiedName) (output : Output) (phase : Phase)
  /-- A declaration whose container the output does not have. -/
  | missingContainer (name : QualifiedName) (kind : Kind) (output : Output) (phase : Phase)
  /-- Two declarations of one output under one name. -/
  | duplicateEntry (name : QualifiedName) (kind : Kind) (output : Output) (phase : Phase)
  /-- A payload that does not fit its place, or that still refers into another tree. -/
  | conflictingPayload (name : QualifiedName) (output : Output) (phase : Phase)
  /-- A place that is filled twice. -/
  | filledTwice (name : QualifiedName) (output : Output) (phase : Phase)
deriving DecidableEq

namespace RunError

open TreeError (quoted)

/-- The message of an error. -/
def message : RunError → String
  | invalidPattern pattern => "invalid exclusion pattern " ++ quoted pattern
  | invalidInput side _ => "invalid " ++ side.word ++ " input tree"
  | model phase _ => "model error during " ++ phase.word
  | missingClassifier name output phase =>
    phase.word ++ ": no " ++ output.word ++ " classifier registered for " ++ quoted name.display
  | missingContainer name kind output phase =>
    phase.word ++ ": no " ++ output.word ++ " container for " ++ kind.display ++ " " ++
      quoted name.display
  | duplicateEntry name kind output phase =>
    phase.word ++ ": duplicate " ++ output.word ++ " " ++ kind.display ++ " " ++
      quoted name.display
  | conflictingPayload name output phase =>
    phase.word ++ ": conflicting " ++ output.word ++ " payload for " ++ quoted name.display
  | filledTwice name output phase =>
    phase.word ++ ": " ++ output.word ++ " " ++ quoted name.display ++ " materialized twice"

/-- The phase in which an error arose, if it arose in one. -/
def phase? : RunError → Option Phase
  | invalidPattern _ | invalidInput _ _ => none
  | model phase _ | missingClassifier _ _ phase | missingContainer _ _ _ phase
  | duplicateEntry _ _ _ phase | conflictingPayload _ _ phase | filledTwice _ _ phase =>
    some phase

/-- The error of a tree that lies behind an error. -/
def cause? : RunError → Option TreeError
  | invalidInput _ cause | model _ cause => some cause
  | _ => none

end RunError

end Concord
