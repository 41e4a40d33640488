import CogolToolchain.Code.Operand

/-!
# Instructions

Every instruction has the shape `OP a b c;`: the operation is applied to what `a` and `b` read, and
the result goes to the destination `c`. Writing cell 0, the program counter, is a jump.
-/

namespace CogolToolchain

inductive Opcode where
  /-- Move the second operand if the first is not zero. -/
  | mnz
  /-- Move the second operand if the first is negative. -/
  | mlz
  | add
  | sub
  | and
  | or
  | xor
  /-- The first operand and not the second. -/
  | ant
  | sl
  | srl
  | sra
  deriving DecidableEq, Repr

namespace Opcode

def all : List Opcode := [mnz, mlz, add, sub, and, or, xor, ant, sl, srl, sra]

def mnemonic : Opcode → String
  | mnz => "MNZ"
  | mlz => "MLZ"
  | add => "ADD"
  | sub => "SUB"
  | and => "AND"
  | or => "OR"
  | xor => "XOR"
  | ant => "ANT"
  | sl => "SL"
  | srl => "SRL"
  | sra => "SRA"

def ofMnemonic? (name : String) : Option Opcode := all.find? fun op => op.mnemonic == name

def isCommutative : Opcode → Bool
  | add | and | or | xor => true
  | _ => false

end Opcode

/-- An instruction and the labels it carries. -/
structure Instruction where
  opcode : Opcode
  lhs : Operand
  rhs : Operand
  dest : Operand
  tags : List Label := []
  deriving DecidableEq, Repr

abbrev Code := List Instruction

namespace Instruction

/-- `MLZ 0 0 0`, which does nothing. -/
def nop : Instruction :=
  { opcode := .mlz, lhs := .constant 0, rhs := .constant 0, dest := .constant 0 }

def copy (source dest : Operand) : Instruction :=
  { opcode := .mlz, lhs := .constant (-1), rhs := source, dest }

def jump (target : Operand) : Instruction := copy target .programCounter

def tagged (i : Instruction) (label : Label) : Instruction := { i with tags := i.tags ++ [label] }

def untagged (i : Instruction) : Instruction := { i with tags := [] }

def operands (i : Instruction) : List Operand := [i.lhs, i.rhs, i.dest]

def mapOperands (f : Operand → Operand) (i : Instruction) : Instruction :=
  { i with lhs := f i.lhs, rhs := f i.rhs, dest := f i.dest }

def isNop (i : Instruction) : Bool :=
  i.opcode == .mlz && i.lhs.isZero && i.rhs.isZero && i.dest.isZero

def writesProgramCounter (i : Instruction) : Bool := !i.isNop && i.dest.isZero

/-- The target of a jump `MLZ -1 n 0` to a known place. -/
def jumpTarget? (i : Instruction) : Option Int :=
  if i.opcode == .mlz && i.lhs.constant? == some (-1) && i.dest.isZero then i.rhs.constant?
  else none

/-- The text of an instruction, followed by its labels if `annotate` asks for them. -/
def render (annotate : Bool) (i : Instruction) : String :=
  let body := i.opcode.mnemonic ++ " " ++ i.lhs.text ++ " " ++ i.rhs.text ++ " " ++
    i.dest.text ++ ";"
  if annotate then i.tags.foldl (fun line tag => line ++ " " ++ tag.text) body else body

def text (i : Instruction) : String := i.render false

end Instruction

def Code.tagLast (labels : List Label) : Code → Code
  | [] => []
  | [i] => [{ i with tags := i.tags ++ labels }]
  | i :: j :: rest => i :: tagLast labels (j :: rest)

end CogolToolchain
