import CogolToolchain.Compile.Reference
import CogolToolchain.Proofs.Machine.Run

/-!
What a reference means.

A reference is a word from which a chain of pointers starts, and a number of pointers to follow. The
chain starts at the numeral itself, or at the address of the variable, field or element, and is
followed once more for every `$` and once less for every `\`. A destination is one pointer shorter:
it means the cell that is written.
-/

namespace CogolToolchain

structure Layout where
  type : Home → String → VarType
  /-- The address of a global variable, or the offset of a parameter in its frame. -/
  offset : Home → String → Nat
  /-- The cell that points to the active frame of a subroutine. -/
  frame : String → Word
  /-- The offset of a field in the frames of a subroutine. -/
  slot : String → String → Word

namespace Layout

def origin (L : Layout) (m : Memory) : Home → Word
  | .global => 0
  | .frame owner => m.read (L.frame owner)

/-- The cells that are read to find where the variables of a home start. -/
def originReads (L : Layout) : Home → List Word
  | .global => []
  | .frame owner => [L.frame owner]

def cell (L : Layout) (m : Memory) (h : Head) : Word :=
  L.origin m h.home + UInt16.ofNat (L.offset h.home h.name)

def fieldOwner (L : Layout) (h : Head) : String :=
  match L.type h.home h.name with
  | .pointer sub => sub
  | _ => h.name

end Layout

def Role.drop : Role → Int
  | .source => 0
  | .destination => 1

namespace Reference

/-- How many pointers are followed to read the reference. -/
def depth : Reference → Int
  | numeral shift _ _ => shift
  | plain h | field h _ | element h _ => h.shift + 1

def level (role : Role) (r : Reference) : Int := r.depth - role.drop

/-- The word from which the chain of pointers starts. -/
def start (L : Layout) (m : Memory) : Reference → Word
  | numeral _ _ value => UInt16.ofInt value
  | plain h => L.cell m h
  | field h name => m.read (L.cell m h) + L.slot (L.fieldOwner h) name
  | element h index =>
    (if L.type h.home h.name = .array then L.cell m h + 1 else m.read (L.cell m h)) +
      m.follow index.depth.toNat (index.start L m)

/-- The cells that are read to find where the chain of pointers starts. -/
def startReads (L : Layout) (m : Memory) : Reference → List Word
  | numeral .. => []
  | plain h => L.originReads h.home
  | field h _ => L.originReads h.home ++ [L.cell m h]
  | element h index =>
    index.startReads L m ++ m.trail index.depth.toNat (index.start L m) ++ L.originReads h.home ++
      if L.type h.home h.name = .array then [] else [L.cell m h]

/-- What the reference means: the word of a source, or the cell of a destination. -/
def meaning (L : Layout) (m : Memory) (role : Role) (r : Reference) : Word :=
  m.follow (r.level role).toNat (r.start L m)

def reads (L : Layout) (m : Memory) (role : Role) (r : Reference) : List Word :=
  r.startReads L m ++ m.trail (r.level role).toNat (r.start L m)

/-- Whether no more pointers are taken away than there are. -/
def isGrounded (role : Role) : Reference → Bool
  | element h index => decide (0 ≤ (element h index).level role) && isGrounded .source index
  | r => decide (0 ≤ r.level role)

def constant? (L : Layout) : Reference → Option Int
  | numeral shift _ value => if shift = 0 then some value else none
  | plain h =>
    if h.home = .global ∧ h.shift = -1 then some (Numeral.wrap32 (L.offset h.home h.name)) else none
  | field .. => none
  | element h index =>
    if h.home = .global ∧ h.shift = -1 ∧ L.type h.home h.name = .array then
      (index.constant? L).map fun i => Numeral.wrap32 (L.offset h.home h.name + 1 + i)
    else none

end Reference
end CogolToolchain
