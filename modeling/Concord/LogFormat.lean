namespace Concord

/-- How log lines are written. -/
inductive LogFormat where
  | text
  | tree
  | json
deriving DecidableEq

/-- The format that a word chooses, whatever the case of its ASCII letters. Any word that names no
format chooses plain text. -/
def LogFormat.ofWord (word : String) : LogFormat :=
  match String.ofList (word.toList.map Char.toLower) with
  | "tree" => .tree
  | "json" => .json
  | _ => .text

end Concord
