import CogolToolchain.Code.Instruction
import CogolToolchain.Layout.SymbolTable

/-!
# Frames of subroutines

Every call of a subroutine gets a frame on the call stack. The frame starts with two cells of
bookkeeping, the place to return to and the frame that was active before, and goes on with the
parameters. While a subroutine runs, the global variable that has its name points to its frame.

A parameter may have initial values, which a call stores unless it passes an argument. The code that
stores them uses the call stack pointer as a pointer to the cell it writes; it is set to the end of
the frame afterwards.
-/

namespace CogolToolchain

/-- A slot of a frame: a parameter, and the code that initializes it. -/
structure Slot where
  name : String
  init : Code

structure Frame where
  name : String
  block : Block
  table : SymbolTable := {}
  slots : List Slot := []
  epilogue : Code := []

def callStackPointer : Operand := .named .constant callStackName

/-- The cell that the call stack pointer points to, as a destination. -/
def callStackTarget : Operand := .named .address callStackName

namespace Frame

/-- The slot that holds the place to return to. -/
def returnSlot : String := "return"

/-- The slot that holds the frame that was active before. -/
def previousSlot : String := "previous_call"

def size (f : Frame) : Nat := f.table.nextFree

def base (f : Frame) : Operand := .named .address f.name

/-- The number of parameters that a call can pass. -/
def paramCount (f : Frame) : Nat := f.slots.length - 2

def isArray (f : Frame) (param : String) : Bool := f.table.type? param == some .array

/-- Points the call stack pointer at the cell `offset` of the active frame. -/
def pointCallAt (f : Frame) (offset : Nat) : Instruction :=
  { opcode := .add, lhs := f.base, rhs := .constant (Numeral.wrap32 offset),
    dest := callStackPointer }

def store (f : Frame) (offset : Nat) (value : Int) : Code :=
  [f.pointCallAt offset, .copy (.constant value) callStackTarget]

def declareWord (f : Frame) (name : String) : Frame :=
  { f with table := f.table.declareWord name, slots := f.slots ++ [{ name, init := [] }] }

def declareDefault (f : Frame) (name : String) (value : Int) : Frame :=
  { f with
    table := f.table.declareWord name
    slots := f.slots ++ [{ name, init := f.store f.size value }] }

/-- Adds an array whose first elements have initial values. Its own cell points to the elements. -/
def declareArray (f : Frame) (name : String) (size : Nat) (values : List Int) : Frame :=
  let elements := values.zipIdx.flatMap fun (value, i) => f.store (f.size + 1 + i) value
  let pointer : Instruction :=
    { opcode := .add, lhs := callStackPointer.read, rhs := .constant 1, dest := callStackTarget }
  { f with
    table := f.table.declareArray name size values.length
    slots := f.slots ++ [{ name, init := elements ++ [f.pointCallAt f.size, pointer] }] }

def new (name : String) (block : Block) : Frame :=
  let empty : Frame := { name := name, block }
  (empty.declareWord returnSlot).declareWord previousSlot

end Frame
end CogolToolchain
