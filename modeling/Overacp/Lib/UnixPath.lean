import Mathlib.Data.List.Basic

/-!
# Paths

A path as its components, which leave out what does not matter: repeated slashes, a slash at the end, and a dot
that is not at the front. Two paths with the same components are equal, and the name of a file and its extension are
read off the last one.
-/

namespace UnixPath

inductive Component where
  | rootDir
  | curDir
  | parentDir
  | normal (name : String)
  deriving DecidableEq, Repr

def components (path : String) : List Component :=
  let parts := path.toList.splitOn '/'
  let first := if path.toList.head? = some '/' then [.rootDir] else if parts.head? = some ['.'] then [.curDir] else []
  first ++ parts.filterMap fun part =>
    if part = [] ∨ part = ['.'] then none
    else if part = ['.', '.'] then some .parentDir
    else some (.normal (String.ofList part))

/-- The last component, if it is a name. -/
def fileName (path : String) : Option String :=
  match (components path).getLast? with
  | some (.normal name) => some name
  | _ => none

/-- What follows the last dot of the name, unless the name begins with that dot. -/
def extension (path : String) : Option String :=
  (fileName path).bind fun name =>
    match name.toList.reverse.dropWhile (· ≠ '.') with
    | _ :: _ :: _ => some (String.ofList (name.toList.reverse.takeWhile (· ≠ '.')).reverse)
    | _ => none

example : extension "/etc//overacp/./agents.v2.toml/" = some "toml" ∧ extension "/etc/.toml" = none ∧
    extension "/etc/overacp/.." = none := by
  decide +kernel

end UnixPath
