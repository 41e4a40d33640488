/-!
# Symbol tables

A symbol table gives out consecutive cells, from 0 on, and remembers the name of each. Globals have
one table, and every subroutine has one for the cells of its frame. A name may be declared more than
once; it then means the cell it was given last. An array takes a cell for itself, which points to
its elements, and one for each element; the elements have names such as `a[2]`.
-/

namespace CogolToolchain

/-- What is known about the content of a variable. -/
inductive VarType where
  | scalar
  | array
  /-- A pointer to a frame of the subroutine `sub`. -/
  | pointer (sub : String)
  deriving DecidableEq, Repr

structure SymbolTable where
  /-- The name of each cell, in the order of the addresses. -/
  cells : Array String := #[]
  /-- The types of variables; the first entry of a name counts. -/
  types : List (String × VarType) := []

namespace SymbolTable

def nextFree (t : SymbolTable) : Nat := t.cells.size

/-- The highest address below `bound` whose cell is called `name`. -/
def searchBelow (t : SymbolTable) (name : String) : (bound : Nat) → Option Nat
  | 0 => none
  | a + 1 => if t.cells[a]? == some name then some a else t.searchBelow name a

def address? (t : SymbolTable) (name : String) : Option Nat := t.searchBelow name t.nextFree

def contains (t : SymbolTable) (name : String) : Bool := (t.address? name).isSome

/-- The type of a variable. The elements of an array have none. -/
def type? (t : SymbolTable) (name : String) : Option VarType := t.types.lookup name

/-- Gives a variable another type. A name without a type stays without one. -/
def setType (t : SymbolTable) (name : String) (type : VarType) : SymbolTable :=
  if (t.type? name).isSome then { t with types := (name, type) :: t.types } else t

def elementName (array : String) (i : Nat) : String := array ++ "[" ++ toString i ++ "]"

def declareWord (t : SymbolTable) (name : String) : SymbolTable :=
  { cells := t.cells.push name, types := (name, .scalar) :: t.types }

/-- Declares an array of `size` elements, or as many as have an initial value if those are more. Its
own cell is at `nextFree`. -/
def declareArray (t : SymbolTable) (name : String) (size initialized : Nat) : SymbolTable :=
  let elements := (List.range (max size initialized)).map (elementName name)
  { cells := (t.cells.push name).appendList elements, types := (name, .array) :: t.types }

/-- The declared names, in the order in which they were first declared, and what they mean. -/
def names (t : SymbolTable) : List (String × Option Nat) :=
  t.cells.toList.eraseDups.map fun name => (name, t.address? name)

end SymbolTable

def programCounterName : String := "pc"

def displayName : String := "display"

/-- The name of the cell that points to the top of the call stack. -/
def callStackName : String := "call"

def scratchName (n : Nat) : String := "scratch" ++ toString n

/-- Whether a program may not use the name: the program counter, the top of the call stack, and
everything that looks like a scratch cell. -/
def isReserved (name : String) : Bool :=
  name == programCounterName || name == callStackName ||
    let cs := name.toList
    cs.take 7 == "scratch".toList && !(cs.drop 7).isEmpty && (cs.drop 7).all Char.isDigit

end CogolToolchain
