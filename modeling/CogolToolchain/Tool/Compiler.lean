import CogolToolchain.Compile.Program
import CogolToolchain.Machine.Basic
import CogolToolchain.Settings.File
import CogolToolchain.Tool.Host
import CogolToolchain.Tool.Path

/-!
# The compiler as a command

Compiles a source file to a listing and a memory map, and runs the result if asked to.
-/

namespace CogolToolchain
namespace CompilerTool

structure Options where
  input : String := ""
  output : String := ""
  map : String := ""
  config : String := ""
  noOptimize : Bool := false
  annotate : Bool := false
  verbose : Bool := false
  runSteps : Option Nat := none

variable {m : Type → Type} [Monad m]

def printUsage (program : String) : ToolM m Unit := do
  ToolM.print ("Usage: " ++ program ++ " [options] <input.cogol>")
  ToolM.print ""
  ToolM.print "Options:"
  ToolM.print "  -o, --output <file>    Listing filename (default: input.qftasm)"
  ToolM.print "  -m, --map <file>       Memory map filename (default: input.map)"
  ToolM.print "  --config <file>        TOML compiler configuration"
  ToolM.print "  --no-optimize          Skip the peephole pass"
  ToolM.print "  --annotate             Print instruction labels in the listing"
  ToolM.print "  --run <steps>          Run the result in the simulator, printing display writes"
  ToolM.print "  -v, --verbose          Verbose output"
  ToolM.print "  -h, --help             Show this help message"
  ToolM.print ""
  ToolM.print "Examples:"
  ToolM.print ("  " ++ program ++
    " tetris.cogol                 # Writes tetris.qftasm and tetris.map")
  ToolM.print ("  " ++ program ++ " --run 100000 demo.cogol      # Compile, then simulate")

def exitWithUsage {α : Type} (program : String) (code : Nat) : ToolM m α := do
  printUsage program
  ToolM.exit code

/-- Reads the arguments one by one; `o` has the options so far. -/
def parse (program : String) (o : Options) : List String → ToolM m Options
  | [] => return o
  | arg :: rest =>
    match arg, rest with
    | "-o", value :: rest | "--output", value :: rest =>
      parse program { o with output := value } rest
    | "-o", [] | "--output", [] => ToolM.fail "-o requires a filename"
    | "-m", value :: rest | "--map", value :: rest => parse program { o with map := value } rest
    | "-m", [] | "--map", [] => ToolM.fail "-m requires a filename"
    | "--config", value :: rest => parse program { o with config := value } rest
    | "--config", [] => ToolM.fail "--config requires a filename"
    | "--run", value :: rest =>
      match Numeral.size? value with
      | some steps => parse program { o with runSteps := some steps } rest
      | none => ToolM.fail ("invalid step limit '" ++ value ++ "'")
    | "--run", [] => ToolM.fail "--run requires a step limit"
    | "--no-optimize", rest => parse program { o with noOptimize := true } rest
    | "--annotate", rest => parse program { o with annotate := true } rest
    | "-v", rest | "--verbose", rest => parse program { o with verbose := true } rest
    | "-h", _ | "--help", _ => exitWithUsage program 0
    | arg, rest =>
      if arg.toList.head? = some '-' then do
        ToolM.printError ("Error: Unknown option '" ++ arg ++ "'")
        exitWithUsage program 1
      else if o.input.isEmpty then parse program { o with input := arg } rest
      else ToolM.fail "Multiple input files specified"

def settings (host : Host m) (o : Options) : ToolM m Settings := do
  let base : Settings ←
    if o.config.isEmpty then pure {}
    else
      match ← liftM (host.read o.config) with
      | .error e =>
        ToolM.fail (Failure.file ("Failed to read '" ++ o.config ++ "': " ++ e.message)).message
      | .ok text =>
        match Settings.read text with
        | .error failure => ToolM.fail failure.message
        | .ok s => pure s
  return { base with
    optimize := base.optimize && !o.noOptimize
    annotateListing := base.annotateListing || o.annotate }

def writeFile (host : Host m) (path text : String) : ToolM m Unit := do
  match ← liftM (host.write path text) with
  | .ok _ => return ()
  | .error e => do
    ToolM.printError ("Error writing '" ++ path ++ "': " ++ e.message)
    ToolM.exit 1

def runProgram (code : Code) (limit : Nat) : ToolM m Unit := do
  match Machine.load code with
  | .error failure => ToolM.fail failure.message
  | .ok machine => do
    let machine := machine.run limit
    machine.display.toList.forM fun w => ToolM.print ("display: " ++ toString w.toNat)
    if machine.isHalted then return ()
    else ToolM.print ("(stopped after " ++ toString machine.steps ++ " steps)")

def run (host : Host m) (program : String) (args : List String) : ToolM m Unit := do
  if args.isEmpty then exitWithUsage program 1
  let o ← parse program {} args
  if o.input.isEmpty then
    ToolM.printError "Error: No input file specified"
    exitWithUsage program 1
  let settings ← settings host o
  let some stem := Path.stem? o.input | ToolM.fail "Invalid input filename"
  let output := if o.output.isEmpty then stem ++ ".qftasm" else o.output
  let map := if o.map.isEmpty then stem ++ ".map" else o.map
  if o.verbose then
    ToolM.print ("Compiling " ++ o.input ++ " -> " ++ output ++ " (map: " ++ map ++ ")")
  match ← liftM (host.read o.input) with
  | .error e => do
    ToolM.printError ("Error reading '" ++ o.input ++ "': " ++ e.message)
    ToolM.exit 1
  | .ok source => do
    let compiled := compile settings source
    compiled.diagnostics.forM fun d => ToolM.printError d.text
    writeFile host output compiled.listing
    writeFile host map compiled.memoryMapText
    if o.verbose then
      ToolM.print ("Wrote " ++ toString compiled.code.length ++ " instructions to " ++ output ++
        " (" ++ toString compiled.memoryMap.size ++ " memory cells)")
    if let some limit := o.runSteps then runProgram compiled.code limit
    if compiled.hasErrors then ToolM.exit 1

end CompilerTool
end CogolToolchain
