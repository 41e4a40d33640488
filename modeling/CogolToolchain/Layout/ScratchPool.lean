import CogolToolchain.Layout.SymbolTable

/-!
# Scratch cells

Scratch cells hold what a statement computes on the way. They are taken from a pool, the first free
one first, and given back during the statement; between statements all of them are free.
-/

namespace CogolToolchain

structure ScratchCell where
  address : Nat
  busy : Bool
  deriving DecidableEq, Repr

/-- The scratch cells, in the order in which they were added. -/
structure ScratchPool where
  cells : List ScratchCell := []
  deriving DecidableEq, Repr

namespace ScratchPool

def size (p : ScratchPool) : Nat := p.cells.length

def nextName (p : ScratchPool) : String := scratchName p.size

def add (p : ScratchPool) (address : Nat) (busy : Bool) : ScratchPool :=
  ⟨p.cells ++ [{ address := address, busy }]⟩

def takeFree : List ScratchCell → Option (Nat × List ScratchCell)
  | [] => none
  | cell :: cells =>
    if cell.busy then (takeFree cells).map fun (a, cells) => (a, cell :: cells)
    else some (cell.address, { cell with busy := true } :: cells)

def acquire? (p : ScratchPool) : Option (Nat × ScratchPool) :=
  (takeFree p.cells).map fun (a, cells) => (a, ⟨cells⟩)

def free (address : Nat) : List ScratchCell → List ScratchCell
  | [] => []
  | cell :: cells =>
    if cell.address = address then { cell with busy := false } :: cells
    else cell :: free address cells

/-- Gives a cell back. An address that is not in the pool is ignored. -/
def release (p : ScratchPool) (address : Nat) : ScratchPool := ⟨free address p.cells⟩

def releaseAll (p : ScratchPool) : ScratchPool :=
  ⟨p.cells.map fun cell => { cell with busy := false }⟩

def busyCount (p : ScratchPool) : Nat := p.cells.countP (·.busy)

end ScratchPool
end CogolToolchain
