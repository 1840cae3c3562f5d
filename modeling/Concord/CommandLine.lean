import Concord.Options.Reader
import Concord.Run
import Concord.Source.Document

namespace Concord

/-- What is asked for. -/
inductive Command where
  /-- Write the three outputs and print the statistics, as a table or as JSON. -/
  | write (json : Bool)
  /-- Print a line for every comparison that failed. -/
  | diff
deriving DecidableEq

/-- A named file: its text, or nothing if it cannot be read. -/
structure FileText where
  path : String
  text : Option String

/-- A command with its files. -/
structure Invocation where
  command : Command
  first : FileText
  second : FileText
  config : Option FileText
  parallel : Bool

/-- What a command prints, and the files it writes. -/
structure Reply where
  printed : List String
  files : List (String × String)

namespace Invocation

/-- The options of a configuration file. -/
def readOptions : Option FileText → Except String Options
  | none => .ok .default
  | some file =>
    match file.text with
    | none => .error ("failed to read config " ++ file.path)
    | some text => (Options.ofText text).mapError fun _ => "invalid config " ++ file.path

/-- The tree of a file. -/
def readTree (file : FileText) : Except String Tree :=
  match file.text with
  | none => .error ("failed to read " ++ file.path)
  | some text => (Document.tree text).mapError fun _ => "failed to load " ++ file.path

/-- Runs the comparison that a command asks for. -/
def outcome (invocation : Invocation) : Except String Outcome := do
  let options ← readOptions invocation.config
  let first ← readTree invocation.first
  let second ← readTree invocation.second
  let options := { options with parallel := options.parallel || invocation.parallel }
  (run first second options).mapError fun _ => "commonization failed"

/-- The names of the output files with their texts. -/
def outputFiles (trees : OutputTrees) : List (String × String) :=
  [("first.json", Document.ofTree trees.first), ("common.json", Document.ofTree trees.common),
    ("second.json", Document.ofTree trees.second)]

/-- What a command answers, or the message of the first problem. The configuration is looked at
first, then the first tree, then the second. -/
def reply (invocation : Invocation) : Except String Reply := do
  let outcome ← invocation.outcome
  match invocation.command with
  | .write true =>
    return ⟨[outcome.statistics.toJson.prettyText], outputFiles outcome.trees⟩
  | .write false => return ⟨outcome.statistics.lines, outputFiles outcome.trees⟩
  | .diff => return ⟨outcome.rejections.map Rejection.message, []⟩

end Invocation

/-- The text that prints a list of lines. -/
def Reply.stdout (reply : Reply) : String :=
  String.join (reply.printed.map (· ++ "\n"))

/-- The line that reports a problem. -/
def errorLine (message : String) : String :=
  "Error: " ++ message

end Concord
