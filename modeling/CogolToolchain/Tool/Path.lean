/-!
# Paths

A path is a text whose components are separated by slashes. Empty components and single dots mean
nothing, and two dots lead to the directory above.
-/

namespace CogolToolchain
namespace Path

/-- The components of a path, empty ones and single dots included. -/
def components (path : String) : List String := path.splitOn "/"

/-- The components that mean something. -/
def steps (path : String) : List String :=
  (components path).filter fun name => name != "" && name != "."

def isAbsolute (path : String) : Bool := path.toList.head? == some '/'

/-- A file name without its extension: what is before the last dot, unless that is nothing. -/
def stemOf (name : String) : String :=
  match name.toList.reverse.dropWhile (· != '.') with
  | [] | ['.'] => name
  | _ :: stem => String.ofList stem.reverse

/-- The file name of a path without its extension; `none` if the path does not end in a name. -/
def stem? (path : String) : Option String :=
  match (steps path).getLast? with
  | none | some ".." => none
  | some name => some (stemOf name)

end Path
end CogolToolchain
