import CogolToolchain.Layout.Frame

/-!
# Scopes

The subroutines declared so far, and those whose bodies a statement stands in. A name in a statement
means a parameter of the innermost such subroutine that has one of that name, or else a global
variable.
-/

namespace CogolToolchain

inductive Home where
  | global
  | frame (owner : String)
  deriving DecidableEq, Repr

structure Scope where
  /-- The declared subroutines, in the order in which their names were first declared. -/
  subroutines : List (String × Frame) := []
  /-- The subroutines around the statement, the innermost first. -/
  enclosing : List String := []

namespace Scope

def frame? (s : Scope) (name : String) : Option Frame := s.subroutines.lookup name

/-- Puts the value of a key in place of the one it had, or at the end. -/
def insertAssoc (key : String) (value : Frame) : List (String × Frame) → List (String × Frame)
  | [] => [(key, value)]
  | (k, v) :: rest =>
    if k == key then (key, value) :: rest else (k, v) :: insertAssoc key value rest

def insert (s : Scope) (name : String) (frame : Frame) : Scope :=
  { s with subroutines := insertAssoc name frame s.subroutines }

def modifyFrame (s : Scope) (name : String) (f : Frame → Frame) : Scope :=
  match s.frame? name with
  | some frame => s.insert name (f frame)
  | none => s

def hasParam (s : Scope) (name sub : String) : Bool :=
  (s.frame? sub).any fun frame => frame.slots.any fun slot => slot.name == name

/-- The innermost subroutine around the statement that has a parameter `name`. -/
def owner? (s : Scope) (name : String) : Option String := s.enclosing.find? (s.hasParam name)

/-- Where the variable `name` is kept; `none` if there is none. -/
def home? (s : Scope) (globals : SymbolTable) (name : String) : Option Home :=
  match s.owner? name with
  | some owner => some (.frame owner)
  | none => if globals.contains name then some .global else none

def table (s : Scope) (globals : SymbolTable) : Home → SymbolTable
  | .global => globals
  | .frame owner => ((s.frame? owner).map Frame.table).getD {}

def offset (s : Scope) (globals : SymbolTable) (home : Home) (name : String) : Nat :=
  ((s.table globals home).address? name).getD 0

def type (s : Scope) (globals : SymbolTable) (home : Home) (name : String) : VarType :=
  ((s.table globals home).type? name).getD .scalar

end Scope
end CogolToolchain
