/-!
# Settings of the compiler
-/

namespace CogolToolchain

structure Settings where
  /-- Scratch cells that are set aside at the start, right after the display. -/
  initialScratchCells : Nat := 1
  /-- Cells of the call stack that the memory map names. -/
  callStackSize : Nat := 0
  optimize : Bool := true
  annotateListing : Bool := false
  deriving DecidableEq, Repr

end CogolToolchain
