import CogolToolchain.Code.Operand
import CogolToolchain.Layout.ScratchPool
import CogolToolchain.Source.Diagnostic
import CogolToolchain.Source.Token

/-!
# The workbench

What a statement may touch while its code is worked out: the tokens it consumes, the cells it takes,
the numbers it uses up and the diagnostics it reports. The program, the open blocks and the
subroutines are not on the workbench, so working out code leaves them alone.
-/

namespace CogolToolchain

/-- What a statement may touch while its code is worked out. -/
structure Workbench where
  tokens : List Token := []
  globals : SymbolTable := {}
  scratch : ScratchPool := {}
  /-- The number that the next block, call or multiplication gets. -/
  nextId : Nat := 0
  diagnostics : List Diagnostic := []

abbrev Work := StateM Workbench

/-- Work that may give up, after it has reported why. What it consumed and took stays so. -/
abbrev Attempt := OptionT Work

namespace Work

def peek : Work Token := return Tokens.peek (← get).tokens

def pop : Work Token := do
  let token ← peek
  modify fun b => { b with tokens := Tokens.rest b.tokens }
  return token

/-- Consumes the next token if it is `expected`, and says whether it was. -/
def eat (expected : Token) : Work Bool := do
  match Tokens.eat? expected (← get).tokens with
  | some rest => do
    modify fun b => { b with tokens := rest }
    return true
  | none => return false

def reportAt (context : String) (p : Problem) : Work Unit :=
  modify fun b => { b with diagnostics := b.diagnostics ++ [p.diagnostic context] }

def report (p : Problem) : Work Unit := reportAt "" p

/-- Reports a problem; the tokens through the first of `stops` are consumed as its context. -/
def reportThrough (stops : List Token) (p : Problem) : Work Unit := do
  let (removed, left) := Tokens.splitThrough stops (← get).tokens
  modify fun b => { b with tokens := left }
  reportAt (Tokens.joined removed) p

/-- Reports a problem; the rest of the statement is consumed as its context. -/
def reportStatement (p : Problem) : Work Unit := reportThrough [";"] p

def takeId : Work Nat := modifyGet fun b => (b.nextId, { b with nextId := b.nextId + 1 })

/-- Takes a scratch cell; the pool grows if all of its cells are in use. -/
def allocScratch : Work Nat := do
  let b ← get
  match b.scratch.acquire? with
  | some (address, scratch) => do
    set { b with scratch }
    return address
  | none => do
    let address := b.globals.nextFree
    set { b with
      globals := b.globals.declareWord b.scratch.nextName
      scratch := b.scratch.add address true }
    return address

def releaseCell (address : Nat) : Work Unit :=
  modify fun b => { b with scratch := b.scratch.release address }

def releaseCells (addresses : List Nat) : Work Unit :=
  modify fun b => { b with scratch := addresses.foldl ScratchPool.release b.scratch }

def release (a : Backed) : Work Unit := releaseCells a.cells

/-- The first scratch cell that holds `a`, to be overwritten, or else one that is free. -/
def reuseScratch (a : Backed) : Work Nat :=
  match a.cells with
  | address :: _ => return address
  | [] => allocScratch

/-- The first scratch cell that holds `a`, unless `keep` needs it, or else one that is free. -/
def reuseScratchExcept (a keep : Backed) : Work Nat :=
  match a.cells with
  | address :: _ => if keep.cells.contains address then allocScratch else return address
  | [] => allocScratch

end Work

namespace Attempt

def failStatement {α : Type} (p : Problem) : Attempt α := do
  Work.reportStatement p
  failure

/-- Gives up because of a problem, with no further token consumed. -/
def failHere {α : Type} (p : Problem) : Attempt α := do
  Work.report p
  failure

def expect (expected : Token) : Attempt Unit := do
  if ← Work.eat expected then return ()
  else failStatement (.expected expected (← Work.peek))

end Attempt
end CogolToolchain
