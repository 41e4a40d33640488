import CogolToolchain.Code.Instruction
import CogolToolchain.Failure
import CogolToolchain.Machine.Memory

/-!
# The machine

The machine runs a program of instructions on its memory, with wrapping 16-bit arithmetic. Cell 0 is
the program counter: before an instruction runs, it holds the index of that instruction, and an
instruction that writes `v` to it makes execution go on at `v + 1` after exactly one more
instruction, the delay slot. Cell 1 is the display, and what is written to it is recorded. The
machine halts when it runs past the end of the program.
-/

namespace CogolToolchain

structure WordOperand where
  mode : Mode
  value : Word
  deriving DecidableEq

structure WordInstruction where
  opcode : Opcode
  lhs : WordOperand
  rhs : WordOperand
  dest : WordOperand
  deriving DecidableEq

/-- The operand cut to 16 bits; `none` if it is symbolic. -/
def Operand.toWord? (a : Operand) : Option WordOperand :=
  a.value.number?.map fun n => ⟨a.mode, UInt16.ofInt n⟩

/-- The operand that keeps an instruction from being loaded: the first symbolic one. -/
def Operand.load (index : Nat) (a : Operand) : Except Failure WordOperand :=
  match a.toWord? with
  | some w => .ok w
  | none => .error (.unresolvedOperand a.text index)

def Instruction.load (index : Nat) (i : Instruction) : Except Failure WordInstruction := do
  let lhs ← i.lhs.load index
  let rhs ← i.rhs.load index
  let dest ← i.dest.load index
  return { opcode := i.opcode, lhs, rhs, dest }

namespace Word

def isNegative (w : Word) : Bool := 0x8000 ≤ w

def shiftRightSigned (w : Word) (n : Nat) : Word := ⟨w.toBitVec.sshiftRight n⟩

end Word

/-- What an operation writes for the operands `a` and `b`; `none` if it writes nothing. Shifts use
the low four bits of `b`. -/
def Opcode.apply (op : Opcode) (a b : Word) : Option Word :=
  match op with
  | .mnz => if a = 0 then none else some b
  | .mlz => if Word.isNegative a then some b else none
  | .add => some (a + b)
  | .sub => some (a - b)
  | .and => some (a &&& b)
  | .or => some (a ||| b)
  | .xor => some (a ^^^ b)
  | .ant => some (a &&& ~~~b)
  | .sl => some (a <<< (b &&& 15))
  | .srl => some (a >>> (b &&& 15))
  | .sra => some (Word.shiftRightSigned a (b &&& 15).toNat)

/-- The word that an operand stands for. For a destination it is the address that is written. -/
def Memory.eval (m : Memory) (a : WordOperand) : Word := m.follow a.mode.level a.value

structure Machine where
  memory : Memory
  program : Array WordInstruction
  /-- The index of the instruction to run next. -/
  next : Nat
  /-- Where execution goes on after the instruction to run next, if a jump was just taken. -/
  pending : Option Nat
  steps : Nat
  display : Array Word

namespace Machine

def start (program : Array WordInstruction) : Machine :=
  { memory := .zero, program, next := 0, pending := none, steps := 0, display := #[] }

def loadFrom (index : Nat) : Code → Except Failure (List WordInstruction)
  | [] => .ok []
  | i :: rest => do
    let head ← i.load index
    let tail ← loadFrom (index + 1) rest
    return head :: tail

/-- Loads a program. The first operand that is still symbolic is a failure. -/
def load (code : Code) : Except Failure Machine :=
  (loadFrom 0 code).map fun program => start program.toArray

def isHalted (m : Machine) : Bool := m.program.size ≤ m.next

/-- What one instruction does: the memory and the display after it, and where a jump leads. -/
def execute (i : WordInstruction) (memory : Memory) (display : Array Word) :
    Memory × Array Word × Option Nat :=
  let a := memory.eval i.lhs
  let b := memory.eval i.rhs
  let target := memory.eval i.dest
  match i.opcode.apply a b with
  | none => (memory, display, none)
  | some w =>
    (memory.write target w,
      if target = 1 then display.push w else display,
      if target = 0 then some (w.toNat + 1) else none)

/-- Runs one instruction. A machine that has halted stays as it is. -/
def step (m : Machine) : Machine :=
  match m.program[m.next]? with
  | none => m
  | some i =>
    let ⟨memory, program, next, pending, steps, display⟩ := m
    let (memory, display, jump) := execute i (memory.write 0 (UInt16.ofNat next)) display
    { memory, program, next := pending.getD (next + 1), pending := jump, steps := steps + 1,
      display }

def run : Nat → Machine → Machine
  | 0, m => m
  | limit + 1, m => if m.isHalted then m else run limit m.step

/-- The content of the cell at an address, which is taken modulo 65536. -/
def read (m : Machine) (address : Nat) : Word := m.memory.read (UInt16.ofNat address)

def readSigned (m : Machine) (address : Nat) : Int := (m.read address).toInt16.toInt

def write (m : Machine) (address : Nat) (w : Word) : Machine :=
  { m with memory := m.memory.write (UInt16.ofNat address) w }

end Machine
end CogolToolchain
