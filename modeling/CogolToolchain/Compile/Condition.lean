import CogolToolchain.Compile.Reference

/-!
# Conditions

A condition is lowered to one operand that is negative, or one that is not zero, exactly when the
condition holds. A conditional move on that operand then carries it out; on the program counter, it
is a branch.
-/

namespace CogolToolchain

inductive Branch where
  | always
  | never
  /-- Holds when the operand is negative. -/
  | ifNegative (test : Backed)
  /-- Holds when the operand is not zero. -/
  | ifNonZero (test : Backed)
  deriving DecidableEq, Repr

def Branch.move? (branch : Branch) (source dest : Operand) : Option Instruction :=
  match branch with
  | .always => some (.copy source dest)
  | .never => none
  | .ifNegative test => some { opcode := .mlz, lhs := test.toOperand, rhs := source, dest }
  | .ifNonZero test => some { opcode := .mnz, lhs := test.toOperand, rhs := source, dest }

def Branch.jump? (branch : Branch) (target : Operand) : Option Instruction :=
  branch.move? target .programCounter

/-- The comparisons that are left once operands have been exchanged and constants adjusted. -/
inductive Test where
  | less (a b : Backed)
  | lessEq (a b : Backed)
  | equal (a b : Backed)
  | differ (a b : Backed)

namespace Test

/-- The constant of an operand, changed by `delta`, as long as it stays a 32-bit number. -/
def adjusted? (a : Backed) (delta : Int) : Option Backed :=
  a.constant?.bind fun n => (Numeral.checked32 (n + delta)).map Backed.constant

/-- The test of `a op b`. A bound that is included is moved by one if it is constant. -/
def of (a : Backed) (op : Comparison) (b : Backed) : Test :=
  match op with
  | .lt => .less a b
  | .le =>
    match adjusted? b 1, adjusted? a (-1) with
    | some b, _ => .less a b
    | none, some a => .less a b
    | none, none => .lessEq a b
  | .gt => .less b a
  | .ge =>
    match adjusted? b (-1), adjusted? a 1 with
    | some b, _ => .less b a
    | none, some a => .less b a
    | none, none => .lessEq b a
  | .eq => .equal a b
  | .ne => .differ a b

/-- Computes `a - b` in a scratch cell; the cells of the operands may be used for it. -/
def difference (a b : Backed) : Work (Backed × Code) := do
  Work.release a
  Work.release b
  let temp ← Work.allocScratch
  return (.scratchCell temp,
    [{ opcode := .sub, lhs := a.toOperand, rhs := b.toOperand, dest := .cellDest temp }])

/-- An operand that is zero exactly when the words of `a` and `b` are equal. -/
def distance (a b : Backed) : Work (Backed × Code) :=
  if b.isZero then return (a, [])
  else if a.isZero then return (b, [])
  else difference a b

def lower : Test → Work (Branch × Code)
  | less a b =>
    if b.isZero then return (.ifNegative a, [])
    else do
      let (test, code) ← difference a b
      return (.ifNegative test, code)
  | lessEq a b => do
    Work.release b
    let temp ← Work.allocScratch
    return (.ifNegative (.cell temp),
      [{ opcode := .add, lhs := b.toOperand, rhs := .constant 1, dest := .cellDest temp },
       { opcode := .sub, lhs := a.toOperand, rhs := .cell temp, dest := .cellDest temp }])
  | differ a b => do
    let (x, code) ← distance a b
    return (.ifNonZero x, code)
  | equal a b => do
    -- `(x - 1) & ~x` is negative only for zero
    let (x, code) ← distance a b
    let temp ← Work.allocScratch
    return (.ifNegative (.cell temp), code ++
      [{ opcode := .add, lhs := x.toOperand, rhs := .constant (-1), dest := .cellDest temp },
       { opcode := .ant, lhs := .cell temp, rhs := x.toOperand, dest := .cellDest temp }])

end Test

structure Condition where
  a : Backed
  op : Comparison
  b : Backed

namespace Condition

/-- Lowers a condition. One between constants is decided at once, with a warning. -/
def lower (c : Condition) : Work (Branch × Code) :=
  match c.a.constant?, c.b.constant? with
  | some x, some y => do
    Work.report (.constantCondition x c.op y)
    return (if c.op.holds x y then .always else .never, [])
  | _, _ => (Test.of c.a c.op c.b).lower

def readOperator (token : Token) : Attempt Comparison :=
  match Comparison.ofToken? token with
  | some op => return op
  | none => Attempt.failStatement (.comparison token)

/-- Reads `( a op b )`, or `( a )`, which asks whether `a` is not zero. -/
def read (scope : Scope) : Attempt (Condition × Code) := do
  Attempt.expect "("
  let (a, before) ← reference scope .source
  let next ← Work.pop
  if next = ")" then return ({ a, op := .ne, b := .constant 0 }, before)
  else do
    let op ← readOperator next
    let (b, code) ← reference scope .source
    checkBounds .source a.toOperand
    checkBounds .source b.toOperand
    Attempt.expect ")"
    return ({ a := a, op, b }, before ++ code)

end Condition
end CogolToolchain
