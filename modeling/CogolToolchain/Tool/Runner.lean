import CogolToolchain.Code.Listing
import CogolToolchain.Machine.Noise
import CogolToolchain.Tool.Host

/-!
# The machine as a command

Runs a listing on the machine and prints what it shows.
-/

namespace CogolToolchain
namespace RunnerTool

def defaultSteps : Nat := 1000000

structure Options where
  input : String := ""
  steps : Nat := defaultSteps
  seed : Option Nat := none
  dump : List Nat := []

variable {m : Type → Type} [Monad m]

def printUsage (program : String) : ToolM m Unit := do
  ToolM.print ("Usage: " ++ program ++ " [options] <program.qftasm>")
  ToolM.print ""
  ToolM.print "Options:"
  ToolM.print ("  --steps <n>     Step limit (default: " ++ toString defaultSteps ++ ")")
  ToolM.print "  --seed <n>      Start from random memory with this seed"
  ToolM.print "  --dump <addr>   Print a memory cell after the run (repeatable)"
  ToolM.print "  -h, --help      Show this help message"

def exitWithUsage {α : Type} (program : String) (code : Nat) : ToolM m α := do
  printUsage program
  ToolM.exit code

def number (flag : String) (value? : Option String) : ToolM m Nat :=
  match value?.bind Numeral.size? with
  | some n => return n
  | none => ToolM.fail (flag ++ " requires a number")

/-- Reads the arguments one by one; `o` has the options so far. The last input file counts. -/
def parse (program : String) (o : Options) : List String → ToolM m Options
  | [] => return o
  | ["--steps"] => do return { o with steps := ← number "--steps" none }
  | "--steps" :: value :: rest => do
    parse program { o with steps := ← number "--steps" value } rest
  | ["--seed"] => do return { o with seed := some (← number "--seed" none) }
  | "--seed" :: value :: rest => do
    parse program { o with seed := some (← number "--seed" value) } rest
  | ["--dump"] => do return { o with dump := o.dump ++ [← number "--dump" none] }
  | "--dump" :: value :: rest => do
    parse program { o with dump := o.dump ++ [← number "--dump" value] } rest
  | arg :: rest =>
    if arg = "-h" ∨ arg = "--help" then exitWithUsage program 0
    else if arg.toList.head? = some '-' then do
      ToolM.printError ("Error: Unknown option '" ++ arg ++ "'")
      exitWithUsage program 1
    else parse program { o with input := arg } rest

def runMachine (o : Options) (machine : Machine) : ToolM m Unit := do
  let machine := match o.seed with
    | some seed => machine.randomize seed
    | none => machine
  let machine := machine.run o.steps
  machine.display.toList.forM fun w => ToolM.print ("display: " ++ toString w.toNat)
  o.dump.forM fun a =>
    ToolM.print ("[" ++ toString a ++ "] = " ++ toString (machine.readSigned a))
  if machine.isHalted then ToolM.print ("halted after " ++ toString machine.steps ++ " steps")
  else do
    ToolM.print ("step limit of " ++ toString o.steps ++ " reached")
    ToolM.exit 2

def run (host : Host m) (program : String) (args : List String) : ToolM m Unit := do
  let o ← parse program {} args
  if o.input.isEmpty then exitWithUsage program 1
  match ← liftM (host.read o.input) with
  | .error e => do
    ToolM.printError ("Error reading '" ++ o.input ++ "': " ++ e.message)
    ToolM.exit 1
  | .ok text =>
    match (Listing.read text).bind Machine.load with
    | .error failure => ToolM.fail failure.message
    | .ok machine => runMachine o machine

end RunnerTool
end CogolToolchain
