import CogolToolchain.Code.Instruction

/-!
# The peephole pass

The pass works on code whose operands are all known and keeps the number of instructions and the
place of each, so that jump targets stay valid. Every instruction is first brought into a simpler
equivalent form. Then a jump to `n` whose delay slot does nothing becomes a jump to `n + 1` with a
copy of instruction `n` in its delay slot.
-/

namespace CogolToolchain
namespace Peephole

/-- The value by which operands of one mode are ordered; a symbolic one comes first. -/
def rank (a : Operand) : Int := a.value.number?.getD (-2147483648)

/-- The order in which the operands of a commutative operation do not stand: the operand of higher
mode, then of higher value, comes first. -/
def ranksBelow (a b : Operand) : Bool :=
  a.mode.level < b.mode.level || (a.mode == b.mode && rank a < rank b)

/-- Subtracting a constant is adding its negative. -/
def addNegative (i : Instruction) : Instruction :=
  match i.opcode, i.rhs.constant? with
  | .sub, some n => { i with opcode := .add, rhs := .constant (Numeral.wrap32 (-n)) }
  | _, _ => i

def sortOperands (i : Instruction) : Instruction :=
  if i.opcode.isCommutative && ranksBelow i.lhs i.rhs then { i with lhs := i.rhs, rhs := i.lhs }
  else i

/-- A conditional move whose condition is constant always moves, or does nothing. -/
def decideMove (i : Instruction) : Instruction :=
  let always := { i with opcode := .mlz, lhs := .constant (-1) }
  let never := { Instruction.nop with tags := i.tags }
  match i.opcode, i.lhs.constant? with
  | .mlz, some test => if test < 0 then always else never
  | .mnz, some test => if test = 0 then never else always
  | _, _ => i

def simplify (i : Instruction) : Instruction := decideMove (sortOperands (addNegative i))

/-- The jump and its delay slot after one instruction of the target is moved into the slot; `none`
if the slot is in use or the target is not an instruction of the program. -/
def threadJump (jump slot : Instruction) (program : Array Instruction) :
    Option (Instruction × Instruction) :=
  if slot.isNop then
    match jump.jumpTarget? with
    | some (.ofNat target) =>
      match program[target]? with
      | some landing =>
        some ({ jump with rhs := .constant (target + 1) }, { landing with tags := slot.tags })
      | none => none
    | _ => none
  else none

structure Threading where
  code : Array Instruction
  landings : List Nat

namespace Threading

def inDelaySlot (t : Threading) (i : Nat) : Bool :=
  match i with
  | 0 => false
  | j + 1 => t.code[j]?.any Instruction.writesProgramCounter

/-- Threads the jump at `i`, unless its delay slot is itself a place that a jump leads to, or the
jump stands in a delay slot and so never reaches its own. -/
def step (t : Threading) (i : Nat) : Threading :=
  if t.landings.contains (i + 1) || t.inDelaySlot i then t
  else
    match t.code[i]?, t.code[i + 1]? with
    | some jump, some slot =>
      match threadJump jump slot t.code with
      | some (jump', slot') =>
        { code := (t.code.setIfInBounds i jump').setIfInBounds (i + 1) slot'
          landings := (jump'.jumpTarget?.map Int.toNat).toList ++ t.landings }
      | none => t
    | _, _ => t

end Threading

/-- The whole pass. Jumps are threaded from the first to the last. -/
def optimize (code : Code) (landings : List Nat) : Code :=
  let start : Threading := { code := (code.map simplify).toArray, landings }
  ((List.range (code.length - 1)).foldl Threading.step start).code.toList

end Peephole
end CogolToolchain
