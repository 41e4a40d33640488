import CogolToolchain.Tool.Host
import CogolToolchain.Tool.Path

/-!
# File trees

The files of a system, kept as a value. Paths start at a working directory somewhere in the tree, or
at the root if they begin with a slash.
-/

namespace CogolToolchain

/-- The directories and files of a tree, by the names on the way to them from the root, and the
working directory. The root itself is always there. -/
structure FileTree where
  home : List String := []
  dirs : List (List String) := []
  files : List (List String × ByteArray) := []

namespace FileTree

def way (place : List String) : List (List String) :=
  (List.range (place.length + 1)).map fun n => place.take n

def start (home : List String) (path : String) : List String :=
  if Path.isAbsolute path then [] else home

/-- A tree with the working directory `home`, the directories and files of these paths, and the
directories on the way to them. -/
def ofPaths (home : List String) (dirs : List String) (files : List (String × ByteArray)) :
    FileTree :=
  let place (path : String) := start home path ++ Path.steps path
  let places := home :: dirs.map place ++ files.map fun file => (place file.1).dropLast
  { home := home
    dirs := places.flatMap way
    files := files.map fun (path, content) => (place path, content) }

inductive Node where
  | dir
  | file (content : ByteArray)
  | missing

def node (t : FileTree) (place : List String) : Node :=
  if place.isEmpty || t.dirs.contains place then .dir
  else
    match t.files.lookup place with
    | some content => .file content
    | none => .missing

def maxNameLength : Nat := 255

/-- A path has to be shorter than this many bytes. -/
def pathLengthBound : Nat := 4096

/-- Follows components from the directory `place`. The directory above the root is the root. -/
def walk (t : FileTree) (place : List String) : List String → Except FileError (List String)
  | [] => .ok place
  | name :: rest =>
    if name = "" ∨ name = "." then t.walk place rest
    else if name = ".." then t.walk place.dropLast rest
    else if maxNameLength < name.utf8ByteSize then .error .nameTooLong
    else
      let next := place ++ [name]
      match t.node next, rest with
      | .dir, _ => t.walk next rest
      | .file _, [] => .ok next
      | .file _, _ :: _ => .error .notDirectory
      | .missing, _ => .error .notFound

def find (t : FileTree) (path : String) : Except FileError (List String) :=
  if path = "" then .error .notFound
  else if pathLengthBound ≤ path.utf8ByteSize then .error .nameTooLong
  else t.walk (start t.home path) (Path.components path)

def read (t : FileTree) (path : String) : Except FileError String := do
  match t.node (← t.find path) with
  | .file content =>
    match String.fromUTF8? content with
    | some text => .ok text
    | none => .error .notText
  | .dir => .error .isDirectory
  | .missing => .error .notFound

def put (t : FileTree) (place : List String) (content : ByteArray) : FileTree :=
  { t with files := (place, content) :: t.files.filter fun file => file.1 != place }

/-- Writes the file `name` in the directory that is reached from `place` by the components `dir`. -/
def writeIn (t : FileTree) (place dir : List String) (name text : String) :
    Except FileError FileTree := do
  let target := (← t.walk place (dir ++ ["."])) ++ [name]
  if maxNameLength < name.utf8ByteSize then .error .nameTooLong
  else
    match t.node target with
    | .dir => .error .isDirectory
    | .file _ | .missing => .ok (t.put target text.toUTF8)

/-- Writes a file, which is made if it is not there. A path that ends in a slash or in dots names a
directory. -/
def write (t : FileTree) (path text : String) : Except FileError FileTree :=
  if path = "" then .error .notFound
  else if pathLengthBound ≤ path.utf8ByteSize then .error .nameTooLong
  else
    let place := start t.home path
    let names := (Path.components path).filter (· != "")
    match names.getLast? with
    | none => .error .isDirectory
    | some name =>
      if name = "." ∨ name = ".." then do
        let _ ← t.walk place (names ++ ["."])
        .error .isDirectory
      else if path.toList.getLast? = some '/' then do
        let _ ← t.walk place (names.dropLast ++ ["."])
        .error .isDirectory
      else t.writeIn place names.dropLast name text

def belowHome? (t : FileTree) (place : List String) : Option (List String) :=
  if place.take t.home.length = t.home then some (place.drop t.home.length) else none

/-- The files below the working directory that differ from those of the tree `before`, or are not
there, with their text. -/
def changesSince (t before : FileTree) : List (String × String) :=
  let changed := t.files.filter fun (place, content) =>
    match before.files.lookup place with
    | some old => old.toList != content.toList
    | none => true
  changed.filterMap fun (place, content) =>
    (t.belowHome? place).map fun names =>
      ("/".intercalate names, (String.fromUTF8? content).getD "")

def host : Host (StateM FileTree) where
  read path := return (← get).read path
  write path text := do
    match (← get).write path text with
    | .ok t => do
      set t
      return .ok ()
    | .error e => return .error e

end FileTree
end CogolToolchain
