import CogolToolchain.Compile.Condition

/-!
# Assignments

The statements `dst = a;`, `dst = a op b;`, `dst = - b;`, `dst op= b;`, `dst++;`, `dst--;` and the
conditional `dst = a if x cmp y;`. The code of an assignment is complete or not there at all.
-/

namespace CogolToolchain
namespace Assignment

def compound? (token : Token) : Option Token :=
  match token.toList.reverse with
  | '=' :: c :: cs => some (String.ofList (c :: cs).reverse)
  | _ => none

/-- Stores the product of two operands: adds `rhs` as many times as `lhs` says, with the sign of
`lhs` taken care of by adding `-rhs` for a negative one. The cells that hold the destination are
kept. -/
def multiply (lhs rhs dest : Backed) : Work Code := do
  let done := Label.multiplyEnd (← Work.takeId)
  let counter ← Work.reuseScratchExcept lhs dest
  let addend ← Work.reuseScratchExcept rhs dest
  return [
    { opcode := .sub, lhs := .constant 0, rhs := lhs.toOperand, dest := .cellDest counter },
    { opcode := .add, lhs := .constant 0, rhs := rhs.toOperand, dest := .cellDest addend },
    -- a positive `lhs` is counted up from `-lhs` to zero
    { opcode := .mlz, lhs := .cell counter, rhs := .label done (-1), dest := .programCounter },
    .copy (.constant 0) dest.toOperand,
    -- any other is counted up from `lhs`, and `-rhs` is added each time
    { opcode := .sub, lhs := .constant 0, rhs := .cell counter, dest := .cellDest counter },
    .jump (.label done (-1)),
    { opcode := .sub, lhs := .constant 0, rhs := .cell addend, dest := .cellDest addend },
    { opcode := .add, lhs := dest.read.toOperand, rhs := .cell addend, dest := dest.toOperand },
    { opcode := .mlz, lhs := .cell counter, rhs := .label done (-2), dest := .programCounter },
    { opcode := .add, lhs := .cell counter, rhs := .constant 1, dest := .cellDest counter,
      tags := [done] }]

/-- The rest of `dst = src if a cmp b;`, from `a` on. -/
def conditional (scope : Scope) (source dest : Backed) : Attempt Code := do
  let (a, before) ← reference scope .source
  let op ← Condition.readOperator (← Work.pop)
  let (b, after) ← reference scope .source
  Attempt.expect ";"
  let (branch, test) ← Condition.lower { a := a, op, b }
  return before ++ after ++ test ++ (branch.move? source.toOperand dest.toOperand).toList

/-- The rest of `dst = lhs op rhs;`, from `rhs` on. -/
def binary (scope : Scope) (lhs : Backed) (op : Token) (dest : Backed) : Attempt Code := do
  let (rhs, code) ← reference scope .source
  checkBounds .source rhs.toOperand
  Attempt.expect ";"
  if op = "*" then return code ++ (← multiply lhs rhs dest)
  else
    match Opcode.ofOperator? op with
    | some opcode =>
      return code ++
        [{ opcode, lhs := lhs.toOperand, rhs := rhs.toOperand, dest := dest.toOperand }]
    | none => Attempt.failHere (.binaryOperator op)

def operation (scope : Scope) (lhs : Backed) (op : Token) (dest : Backed) : Attempt Code := do
  checkBounds .source lhs.toOperand
  if op = ";" then return [.copy lhs.toOperand dest.toOperand]
  else if op = "if" then conditional scope lhs dest
  else binary scope lhs op dest

/-- The first operand after `=`. It is zero if a minus sign stands in its place. -/
def firstOperand (scope : Scope) : Attempt (Backed × Code) := do
  if (← Work.peek) = "-" then return (.constant 0, []) else reference scope .source

def lower (scope : Scope) : Attempt Code := do
  let (dest, address) ← reference scope .destination
  checkBounds .destination dest.toOperand
  let eq ← Work.pop
  if eq = "=" then do
    let (lhs, before) ← firstOperand scope
    let op ← Work.pop
    return address ++ before ++ (← operation scope lhs op dest)
  else if eq = "++" ∨ eq = "--" then do
    Attempt.expect ";"
    let amount := if eq = "++" then 1 else -1
    return address ++
      [{ opcode := .add, lhs := dest.read.toOperand, rhs := .constant amount,
         dest := dest.toOperand }]
  else
    match compound? eq with
    -- the destination keeps the cells that hold its address
    | some op => return address ++ (← operation scope (.ofOperand dest.read.toOperand) op dest)
    | none => Attempt.failStatement (.assignmentOperator eq)

end Assignment
end CogolToolchain
