import CogolToolchain.Code.Label
import CogolToolchain.Text.Numeral

/-!
# Operands

An operand is a value under an addressing mode. The value is a number, or a symbol that stands for
one until the program is laid out: a variable, which stands for its address or its offset in a
frame, or a label, which stands for the index of an instruction.

Reading an operand follows as many pointers as its mode has levels. As a destination, an operand is
one level lower: a constant destination is the address that is written.
-/

namespace CogolToolchain

/-- How many pointers are followed to read an operand: none to three. -/
inductive Mode where
  | constant
  | address
  | deref
  | doubleDeref
  deriving DecidableEq, Repr

namespace Mode

def level : Mode → Nat
  | constant => 0
  | address => 1
  | deref => 2
  | doubleDeref => 3

def ofLevel? : Int → Option Mode
  | 0 => some constant
  | 1 => some address
  | 2 => some deref
  | 3 => some doubleDeref
  | _ => none

/-- The mode `delta` levels further up. -/
def shifted? (m : Mode) (delta : Int) : Option Mode := ofLevel? (m.level + delta)

/-- The mode that follows one pointer more, as far as there is one. -/
def raised : Mode → Mode
  | constant => address
  | address => deref
  | deref => doubleDeref
  | doubleDeref => doubleDeref

def letter : Mode → String
  | constant => ""
  | address => "A"
  | deref => "B"
  | doubleDeref => "C"

@[simp] theorem ofLevel?_level (m : Mode) : ofLevel? m.level = some m := by cases m <;> rfl

end Mode

inductive Symbol where
  /-- The address of a global variable. -/
  | cell (name : String)
  /-- The offset of a variable in the frame of a subroutine. -/
  | slot (owner name : String)
  /-- The index of the instruction that carries a label. -/
  | label (label : Label)
  deriving DecidableEq, Repr

def Symbol.text : Symbol → String
  | .cell name => name
  | .slot owner name => owner ++ "." ++ name
  | .label l => l.text

structure SymbolRef where
  symbol : Symbol
  offset : Int := 0
  deriving DecidableEq, Repr

/-- The text of a reference, such as `(f.x+1)`. -/
def SymbolRef.text (r : SymbolRef) : String :=
  let offset :=
    if 0 < r.offset then "+" ++ toString r.offset
    else if r.offset < 0 then toString r.offset
    else ""
  "(" ++ r.symbol.text ++ offset ++ ")"

/-- The value of an operand: a number, or a reference that the layout of the program settles. -/
inductive Value where
  | known (n : Int)
  | symbolic (r : SymbolRef)
  deriving DecidableEq, Repr

def Value.number? : Value → Option Int
  | .known n => some n
  | .symbolic _ => none

def Value.text : Value → String
  | .known n => toString n
  | .symbolic r => r.text

structure Operand where
  mode : Mode
  value : Value
  deriving DecidableEq, Repr

namespace Operand

/-- The number `n` itself. As a destination, the cell at address `n`. -/
def constant (n : Int) : Operand := ⟨.constant, .known n⟩

/-- The content of the cell at `address`. Addresses are kept as signed 32-bit numbers. -/
def cell (address : Nat) : Operand := ⟨.address, .known (Numeral.wrap32 address)⟩

def cellDest (address : Nat) : Operand := ⟨.constant, .known (Numeral.wrap32 address)⟩

/-- The content of the cell whose address the cell at `address` holds. -/
def through (address : Nat) : Operand := ⟨.deref, .known (Numeral.wrap32 address)⟩

/-- The global variable `name`, or the cell `offset` further on. -/
def named (mode : Mode) (name : String) (offset : Int := 0) : Operand :=
  ⟨mode, .symbolic { symbol := .cell name, offset }⟩

def slot (owner name : String) : Operand :=
  ⟨.constant, .symbolic { symbol := .slot owner name }⟩

/-- The index of the instruction `offset` after the one that carries `l`. -/
def label (l : Label) (offset : Int) : Operand :=
  ⟨.constant, .symbolic { symbol := .label l, offset }⟩

/-- The destination that makes an instruction a jump: the program counter. -/
def programCounter : Operand := constant 0

def constant? (a : Operand) : Option Int :=
  match a.mode with
  | .constant => a.value.number?
  | _ => none

def isZero (a : Operand) : Bool := a.constant? == some 0

/-- The operand that reads what a destination writes. -/
def read (a : Operand) : Operand := { a with mode := a.mode.raised }

def text (a : Operand) : String := a.mode.letter ++ a.value.text

end Operand

/-- An operand together with the scratch cells that hold what it is read through. The cells stay in
use for as long as the operand is needed. -/
structure Backed extends Operand where
  cells : List Nat := []
  deriving DecidableEq, Repr

namespace Backed

def ofOperand (a : Operand) : Backed := { toOperand := a }

def constant (n : Int) : Backed := ofOperand (.constant n)

def cell (address : Nat) : Backed := ofOperand (.cell address)

def scratch (address : Nat) : Backed := { toOperand := .cellDest address, cells := [address] }

def through (address : Nat) : Backed := { toOperand := .through address, cells := [address] }

def scratchCell (address : Nat) : Backed := { toOperand := .cell address, cells := [address] }

def withMode (a : Backed) (mode : Mode) : Backed := { a with mode }

def read (a : Backed) : Backed := { a with toOperand := a.toOperand.read }

end Backed
end CogolToolchain
