import CogolToolchain.Tool.Compiler
import CogolToolchain.Tool.Runner

/-!
# The command line

Two commands share one executable. The first argument says which of them is meant: `cogolc` compiles
a source file, and `qftasm-run` runs a listing.
-/

namespace CogolToolchain

/-- The error that the system gives, in the words of the tools. -/
def FileError.ofSystem (e : IO.Error) : FileError :=
  match e with
  | .noFileOrDirectory .. => .notFound
  | .inappropriateType _ code _ => if code = 20 then .notDirectory else .isDirectory
  | .permissionDenied _ code _ => .system "Permission denied" code.toNat
  | .otherError code details => .system details code.toNat
  | e => .system (toString e) 5

def realHost : Host IO where
  read path := do
    try
      let bytes ← IO.FS.readBinFile path
      match String.fromUTF8? bytes with
      | some text => return .ok text
      | none => return .error .notText
    catch e => return .error (.ofSystem e)
  write path text := do
    try
      IO.FS.writeFile path text
      return .ok ()
    catch e => return .error (.ofSystem e)

def command? (name : String) : Option (List String → ToolM IO Unit) :=
  match name with
  | "cogolc" => some (CompilerTool.run realHost name)
  | "qftasm-run" => some (RunnerTool.run realHost name)
  | _ => none

end CogolToolchain

open CogolToolchain in
def main (args : List String) : IO UInt32 := do
  match args with
  | name :: rest =>
    match command? name with
    | some tool => do
      let (code, console) ← (tool rest).outcome
      (← IO.getStdout).putStr console.stdout
      (← IO.getStderr).putStr console.stderr
      return code.toUInt32
    | none => do
      (← IO.getStderr).putStr "usage: (cogolc | qftasm-run) [options] <file>\n"
      return 1
  | [] => do
    (← IO.getStderr).putStr "usage: (cogolc | qftasm-run) [options] <file>\n"
    return 1
