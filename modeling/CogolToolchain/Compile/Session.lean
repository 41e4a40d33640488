import CogolToolchain.Compile.Call
import CogolToolchain.Settings.Basic

/-!
# Sessions

A session compiles the statements of a program one after the other. Besides the workbench it holds
the program so far, the code that sets up initialized variables, the open blocks, the subroutines,
and the calls that wait.
-/

namespace CogolToolchain

structure OpenBlock where
  block : Block
  /-- The code that closing the block adds. -/
  trailer : Code := []

structure Session where
  settings : Settings
  bench : Workbench
  scope : Scope := {}
  /-- The code that sets up initialized variables, which comes before the program. -/
  preamble : Code := []
  program : Code := []
  /-- The open blocks, the innermost first. -/
  blocks : List OpenBlock := []
  /-- The calls that wait to be compiled, the latest first. -/
  calls : List CallSite := []

abbrev Build := StateM Session

namespace Session

/-- The session at its start: the program counter, the display and the scratch cells are there. -/
def new (settings : Settings) : Session :=
  let table := (({} : SymbolTable).declareWord programCounterName).declareWord displayName
  let numbers := List.range settings.initialScratchCells
  { settings
    bench :=
      { globals := numbers.foldl (fun t n => t.declareWord (scratchName n)) table
        scratch := ⟨numbers.map fun n => { address := table.nextFree + n, busy := false }⟩ } }

end Session

namespace Build

def work {α : Type} (w : Work α) : Build α := fun s =>
  let (a, bench) := w.run s.bench
  (a, { s with bench })

def attempt {α : Type} (w : Attempt α) : Build (Option α) := work w.run

def emit (code : Code) : Build Unit := modify fun s => { s with program := s.program ++ code }

def openBlock (block : Block) (trailer : Code := []) : Build Unit :=
  modify fun s => { s with blocks := { block := block, trailer } :: s.blocks }

/-- Puts a label on what ends the program: a call that waits there, or else the last instruction. -/
def tagLast (label : Label) : Build Unit := modify fun s =>
  match s.calls with
  | call :: calls =>
    if call.position = s.program.length then
      { s with calls := { call with tags := call.tags ++ [label] } :: calls }
    else { s with program := Code.tagLast [label] s.program }
  | [] => { s with program := Code.tagLast [label] s.program }

/-- Reads the suffix of a block through its opening brace. -/
def blockSuffix : Build String := work do
  let b ← get
  let (words, rest) := b.tokens.span (· != "\x7b")
  set { b with tokens := Tokens.rest rest }
  return String.join (words.map ("_" ++ ·))

end Build
end CogolToolchain
