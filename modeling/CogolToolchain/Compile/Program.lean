import CogolToolchain.Code.Listing
import CogolToolchain.Code.Peephole
import CogolToolchain.Compile.Resolution
import CogolToolchain.Compile.Statement
import CogolToolchain.Source.Lexer

/-!
# Programs

Compilation as a whole: from source text to a program for the machine, with the maps of its memory
and the diagnostics. Faults in the source never stop a compilation.
-/

namespace CogolToolchain

structure Program where
  code : Code
  /-- The names of the global cells, by address. -/
  memoryMap : Array String
  /-- The names of the cells of each subroutine's frame, by offset. -/
  frameMaps : List (String × Array String)
  diagnostics : List Diagnostic
  annotate : Bool

namespace Program

def hasErrors (p : Program) : Bool := p.diagnostics.any Diagnostic.isError

def errors (p : Program) : List Diagnostic := p.diagnostics.filter Diagnostic.isError

def warnings (p : Program) : List Diagnostic := p.diagnostics.filter fun d => !d.isError

def addressOf? (p : Program) (name : String) : Option Nat := p.memoryMap.toList.idxOf? name

def listing (p : Program) : String := Listing.render p.annotate p.code

def mapText (map : Array String) : String :=
  String.join (map.toList.zipIdx.map fun (name, a) => toString a ++ ": " ++ name ++ "\n")

/-- The text of the memory map, followed by one section for each subroutine. -/
def memoryMapText (p : Program) : String :=
  mapText p.memoryMap ++
    String.join (p.frameMaps.map fun (name, map) => "\n" ++ name ++ " map:\n" ++ mapText map)

end Program

namespace Session

def preloadCallStack : Instruction :=
  (Instruction.copy (.named .constant callStackName 1) callStackPointer).tagged .preloadCallStack

def reportOpenBlocks : Build Unit := do
  (← get).blocks.forM fun b => Build.work (Work.report (.unclosedBlock b.block.name))

def insertCall (call : CallSite) : Build Unit := do
  let code ← Build.work (Call.compile (← get).scope call)
  modify fun s =>
    { s with program := s.program.take call.position ++ code ++ s.program.drop call.position }

/-- Compiles the calls that wait, the latest first, so that the places of the others stay valid. -/
def compileCalls : Build Unit := do
  let calls := (← get).calls
  modify fun s => { s with calls := [] }
  calls.forM insertCall

/-- Gives the call stack its place after all other variables. -/
def declareCallStack : Build Unit := modify fun s =>
  { s with bench := { s.bench with
      globals := s.bench.globals.declareArray callStackName s.settings.callStackSize 0 } }

def compileTokens (tokens : List Token) : Build Unit := do
  Build.work (modify fun b => { b with tokens })
  Build.emit [preloadCallStack]
  Statement.compileAll tokens.length
  reportOpenBlocks
  compileCalls
  declareCallStack

def addDiagnostics (diagnostics : List Diagnostic) : Build Unit :=
  Build.work (modify fun b => { b with diagnostics := b.diagnostics ++ diagnostics })

def compileSource (source : String) : Build Unit := do
  let (tokens, diagnostics) := Lexer.tokenize source
  addDiagnostics diagnostics
  compileTokens tokens

def joined (s : Session) : Code := s.preamble ++ s.program

def resolver (s : Session) : Resolver :=
  { globals := s.bench.globals, scope := s.scope, labels := Resolver.labelsOf s.joined }

/-- Ends the session. The program starts with an instruction that does nothing, so that a jump with
the value `v` lands on the instruction that was resolved to `v`. -/
def finish (s : Session) : Program :=
  let resolver := s.resolver
  let resolved := resolver.code s.joined
  let code :=
    if s.settings.optimize then Peephole.optimize resolved (resolver.landings s.joined)
    else resolved
  { code := .nop :: code
    memoryMap := s.bench.globals.cells
    frameMaps := s.scope.subroutines.map fun (name, frame) => (name, frame.table.cells)
    diagnostics := s.bench.diagnostics ++ (resolver.problems s.joined).map (·.diagnostic "")
    annotate := s.settings.annotateListing }

end Session

def compile (settings : Settings) (source : String) : Program :=
  ((Session.compileSource source).run (.new settings)).2.finish

end CogolToolchain
