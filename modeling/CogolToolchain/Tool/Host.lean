/-!
# Hosts

What the tools need of the system they run on: to read and to write text files. A tool is written
once for every host, so that it can be run on real files and on a file tree that is kept as a value.
-/

namespace CogolToolchain

inductive FileError where
  /-- The system refuses, with a reason and the number of that reason. -/
  | system (reason : String) (code : Nat)
  | notText
  deriving DecidableEq, Repr

namespace FileError

def notFound : FileError := .system "No such file or directory" 2
def notDirectory : FileError := .system "Not a directory" 20
def isDirectory : FileError := .system "Is a directory" 21
def nameTooLong : FileError := .system "File name too long" 36

def message : FileError → String
  | .system reason code => reason ++ " (os error " ++ toString code ++ ")"
  | .notText => "stream did not contain valid UTF-8"

end FileError

structure Host (m : Type → Type) where
  read : (path : String) → m (Except FileError String)
  write : (path text : String) → m (Except FileError Unit)

structure Console where
  stdout : String := ""
  stderr : String := ""
  deriving DecidableEq, Repr

/-- A tool at work: it prints, uses the files of its host, and may exit early with a code. -/
abbrev ToolM (m : Type → Type) := ExceptT Nat (StateT Console m)

namespace ToolM

variable {m : Type → Type} [Monad m]

def print (line : String) : ToolM m Unit :=
  modify fun c => { c with stdout := c.stdout ++ line ++ "\n" }

def printError (line : String) : ToolM m Unit :=
  modify fun c => { c with stderr := c.stderr ++ line ++ "\n" }

def exit {α : Type} (code : Nat) : ToolM m α := throw code

def fail {α : Type} (message : String) : ToolM m α := do
  printError ("Error: " ++ message)
  exit 1

/-- What a tool has printed, and the code with which it exits. -/
def outcome (tool : ToolM m Unit) : m (Nat × Console) := do
  let (result, console) ← (ExceptT.run tool).run {}
  return (match result with | .ok _ => 0 | .error code => code, console)

end ToolM
end CogolToolchain
