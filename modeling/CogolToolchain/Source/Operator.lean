import CogolToolchain.Code.Instruction

/-!
# Operators of the source language

The tokens that stand for an operation of the machine, and the comparisons.
-/

namespace CogolToolchain

/-- The operation of a binary operator. Multiplication is none of them; it is a loop. -/
def Opcode.ofOperator? : String → Option Opcode
  | "+" | "--" => some .add
  | "-" | "+-" => some .sub
  | "&" => some .and
  | "|" => some .or
  | "^" => some .xor
  | "&!" => some .ant
  | "<<" => some .sl
  | ">>>" => some .srl
  | ">>" => some .sra
  | _ => none

inductive Comparison where
  | lt
  | le
  | gt
  | ge
  | eq
  | ne
  deriving DecidableEq, Repr

namespace Comparison

def all : List Comparison := [lt, le, gt, ge, eq, ne]

def ofToken? : String → Option Comparison
  | "<" => some lt
  | "<=" => some le
  | ">" => some gt
  | ">=" => some ge
  | "==" => some eq
  | "!=" => some ne
  | _ => none

def name : Comparison → String
  | lt => "Lt"
  | le => "Le"
  | gt => "Gt"
  | ge => "Ge"
  | eq => "Eq"
  | ne => "Ne"

/-- The comparison that holds exactly when this one does not. -/
def negated : Comparison → Comparison
  | lt => ge
  | le => gt
  | gt => le
  | ge => lt
  | eq => ne
  | ne => eq

def holds (op : Comparison) (a b : Int) : Bool :=
  match op with
  | lt => a < b
  | le => a ≤ b
  | gt => b < a
  | ge => b ≤ a
  | eq => a == b
  | ne => a != b

end Comparison
end CogolToolchain
