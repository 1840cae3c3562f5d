import Concord.CommandLine

namespace Concord

/-- The arguments of the program. -/
structure Arguments where
  first : Option String
  second : Option String
  config : Option String
  out : Option String
  parallel : Bool
  json : Bool

namespace Arguments

/-- No argument yet. -/
def none : Arguments := ⟨.none, .none, .none, .none, false, false⟩

/-- Reads the arguments behind the command. -/
def read? (arguments : Arguments) : List String → Option Arguments
  | [] => some arguments
  | "--first" :: path :: rest => read? { arguments with first := some path } rest
  | "--second" :: path :: rest => read? { arguments with second := some path } rest
  | "--config" :: path :: rest => read? { arguments with config := some path } rest
  | "--out" :: path :: rest => read? { arguments with out := some path } rest
  | "--parallel" :: rest => read? { arguments with parallel := true } rest
  | "--json" :: rest => read? { arguments with json := true } rest
  | _ => Option.none

end Arguments

/-- The text of a file, or nothing if it cannot be read. -/
def readFile (path : String) : IO FileText := do
  try return ⟨path, some (← IO.FS.readFile path)⟩
  catch _ => return ⟨path, none⟩

/-- Writes the output files into a directory, which is created if it is missing. -/
def writeFiles (directory : String) (files : List (String × String)) : IO Unit := do
  IO.FS.createDirAll directory
  for (name, text) in files do
    IO.FS.writeFile (directory ++ "/" ++ name) text

/-- Answers a command. -/
def answerCommand (command : Command) (arguments : Arguments) : IO UInt32 := do
  let some first := arguments.first | return 2
  let some second := arguments.second | return 2
  let config ← match arguments.config with
    | some path => pure (some (← readFile path))
    | none => pure none
  let invocation : Invocation :=
    ⟨command, ← readFile first, ← readFile second, config, arguments.parallel⟩
  match invocation.reply, arguments.out with
  | .error message, _ =>
    IO.eprintln (errorLine message)
    return 1
  | .ok reply, some directory =>
    writeFiles directory reply.files
    IO.print reply.stdout
    return 0
  | .ok reply, none =>
    IO.print reply.stdout
    return 0

end Concord

/-- Reads the command and its arguments, and answers it. -/
def main (arguments : List String) : IO UInt32 := do
  match arguments with
  | "commonize" :: rest =>
    match Concord.Arguments.none.read? rest with
    | some found =>
      if found.out.isNone then return 2
      Concord.answerCommand (.write found.json) found
    | none => return 2
  | "diff" :: rest =>
    match Concord.Arguments.none.read? rest with
    | some found => Concord.answerCommand .diff found
    | none => return 2
  | _ => return 2
