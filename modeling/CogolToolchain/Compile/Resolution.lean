import CogolToolchain.Compile.Scope
import CogolToolchain.Source.Diagnostic

/-!
# Resolution

Once the program is complete, every symbol stands for a number: a label for the index of the
instruction that carries it, a global variable for its address, and a parameter for its offset in
the frame. Symbols that mean nothing are reported and become zero. The places that a label reference
leads to are the landing places of the program.
-/

namespace CogolToolchain

structure Resolver where
  globals : SymbolTable
  scope : Scope
  /-- The labels and the instructions that carry them, the last one first. -/
  labels : List (Label × Nat)

namespace Resolver

def labelsOf (code : Code) : List (Label × Nat) :=
  (code.zipIdx.flatMap fun (i, index) => i.tags.map fun tag => (tag, index)).reverse

/-- What a symbol stands for. A label that several instructions carry stands for the last of
them. -/
def base? (r : Resolver) : Symbol → Option Nat
  | .cell name => r.globals.address? name
  | .slot owner name => (r.scope.frame? owner).bind fun frame => frame.table.address? name
  | .label l => r.labels.lookup l

/-- The number that a reference stands for. It fits in 32 bits as long as there are fewer than
`2^31` instructions and cells. -/
def number? (r : Resolver) (ref : SymbolRef) : Option Int :=
  (r.base? ref.symbol).map fun base => base + ref.offset

/-- The operand with its value known; a symbol that means nothing becomes zero. -/
def operand (r : Resolver) (a : Operand) : Operand :=
  match a.value with
  | .known _ => a
  | .symbolic ref => { a with value := .known ((r.number? ref).getD 0) }

def landing? (r : Resolver) (a : Operand) : Option Nat :=
  match a.value with
  | .symbolic ref@{ symbol := .label _, .. } =>
    match r.number? ref with
    | some (.ofNat n) => some n
    | _ => none
  | _ => none

def problem? (r : Resolver) (a : Operand) : Option Problem :=
  match a.value with
  | .known _ => none
  | .symbolic ref =>
    match r.number? ref, ref.symbol with
    | some _, _ => none
    | none, .slot owner _ =>
      if (r.scope.frame? owner).isSome then some (.undefinedName a.text)
      else some (.notSubroutine owner a.text)
    | none, _ => some (.undefinedName a.text)

def code (r : Resolver) (code : Code) : Code := code.map (Instruction.mapOperands r.operand)

def landings (r : Resolver) (code : Code) : List Nat :=
  code.flatMap fun i => i.operands.filterMap r.landing?

def problems (r : Resolver) (code : Code) : List Problem :=
  code.flatMap fun i => i.operands.filterMap r.problem?

end Resolver
end CogolToolchain
