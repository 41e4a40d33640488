import CogolToolchain.Compile.Scope
import CogolToolchain.Compile.Workbench

/-!
# References

A reference is a numeral, a variable, a field `p.x` of the frame that `p` points to, or an element
`a[i]`, where the index is again a reference. Every `$` in front of it dereferences it once more,
and every `\` once less.

A reference is read from the tokens first and then lowered to one operand, together with the address
arithmetic that has to run before the operand can be used. The closing bracket of an index is
consumed when the index has been lowered.
-/

namespace CogolToolchain

inductive Role where
  | source
  | destination
  deriving DecidableEq, Repr

/-- A variable in a reference, and how many times more than usual it is dereferenced. -/
structure Head where
  shift : Int
  name : Token
  home : Home
  deriving DecidableEq, Repr

inductive Reference where
  | numeral (shift : Int) (text : Token) (value : Int)
  | plain (head : Head)
  | field (head : Head) (field : String)
  | element (head : Head) (index : Reference)
  deriving DecidableEq, Repr

namespace Reference

/-- Reads the name of a field, which may itself have fields and elements: `a`, `a.b`, `a[i]`. -/
def readField : List Token → String × List Token
  | [] => ("", [])
  | t :: "." :: ts =>
    let (name, rest) := readField ts
    (t ++ "." ++ name, rest)
  | t :: "[" :: ts =>
    let (name, rest) := readField ts
    match rest with
    | "]" :: rest => (t ++ "[" ++ name ++ "]", rest)
    | rest => (t ++ "[" ++ name, rest)
  | t :: ts => (t, ts)

/-- Reads a reference up to the closing bracket of its innermost index. `home?` tells where a
variable is kept, and `shift` counts the marks read so far. -/
def read (home? : Token → Option Home) (shift : Int) :
    List Token → Except Problem Reference × List Token
  | [] =>
    match home? "" with
    | some home => (.ok (.plain { shift, name := "", home }), [])
    | none => (.error (.undeclaredVariable ""), [])
  | t :: ts =>
    if t = "$" then read home? (shift + 1) ts
    else if t = "\\" then read home? (shift - 1) ts
    else if isReserved t then (.error (.reservedReference t), ts)
    else
      match Numeral.signed? t with
      | some value => (.ok (.numeral shift t value), ts)
      | none =>
        match home? t with
        | none => (.error (.undeclaredVariable t), ts)
        | some home =>
          let head : Head := { shift, name := t, home }
          match ts with
          | "[" :: inner =>
            let (index, rest) := read home? 0 inner
            (index.map (.element head), rest)
          | "." :: inner =>
            let (name, rest) := readField inner
            (.ok (.field head name), rest)
          | _ => (.ok (.plain head), ts)

def frameBase (owner : String) : Operand := .named .address owner

/-- Brings an operand to the level that the marks and the use of a reference ask for. -/
def applyShift (role : Role) (shift : Int) (a : Backed) : Attempt Backed :=
  let level := match role with
    | .source => a.mode.level + shift
    | .destination => a.mode.level + shift - 1
  let highest : Int := match role with
    | .source => 3
    | .destination => 2
  match Mode.ofLevel? level with
  | some mode =>
    if level ≤ highest then return a.withMode mode else Attempt.failHere (.invalidMode level a.text)
  | none => Attempt.failHere (.invalidMode level a.text)

def headType (scope : Scope) (head : Head) : Work VarType :=
  return scope.type (← get).globals head.home head.name

def headOffset (scope : Scope) (head : Head) : Work Nat :=
  return scope.offset (← get).globals head.home head.name

/-- Computes the address of the cell `offset` of a frame in a scratch cell. -/
def frameAddress (owner : String) (offset : Nat) : Work (Nat × Code) := do
  let temp ← Work.allocScratch
  return (temp, [{ opcode := .add, lhs := frameBase owner, rhs := .constant (Numeral.wrap32 offset),
                   dest := .cellDest temp }])

def lowerPlain (scope : Scope) (head : Head) : Work (Backed × Code) := do
  if (← headType scope head) = .array then Work.report (.arrayAsValue head.name)
  let offset ← headOffset scope head
  match head.home with
  | .global => return (.cell offset, [])
  | .frame owner => do
    let (temp, code) ← frameAddress owner offset
    return (.through temp, code)

/-- The subroutine in whose frame the fields of a variable are looked up. -/
def fieldOwner (scope : Scope) (head : Head) : Work String := do
  match ← headType scope head with
  | .pointer sub => return sub
  | .scalar => return head.name
  | .array => do
    Work.report (.fieldOfArray head.name)
    return head.name

def lowerField (scope : Scope) (head : Head) (field : String) : Work (Backed × Code) := do
  let owner ← fieldOwner scope head
  let offset ← headOffset scope head
  match head.home with
  | .global => do
    let temp ← Work.allocScratch
    return (.through temp,
      [{ opcode := .add, lhs := .cell offset, rhs := .slot owner field, dest := .cellDest temp }])
  | .frame sub => do
    let (temp, code) ← frameAddress sub offset
    return (.through temp, code ++
      [{ opcode := .add, lhs := .through temp, rhs := .slot owner field, dest := .cellDest temp }])

/-- Lowers an element of an array, or a cell relative to where a variable points. -/
def lowerElement (scope : Scope) (head : Head) (index : Backed) : Work (Backed × Code) := do
  let isArray := (← headType scope head) == .array
  let offset ← headOffset scope head
  match head.home, isArray, index.constant? with
  | .global, true, some i =>
    return (.ofOperand ⟨.address, .known (Numeral.wrap32 (offset + 1 + i))⟩, [])
  | .global, true, none => do
    let temp ← Work.reuseScratch index
    return (.through temp,
      [{ opcode := .add, lhs := .constant (Numeral.wrap32 (offset + 1)), rhs := index.toOperand,
         dest := .cellDest temp }])
  | .global, false, _ => do
    let temp ← Work.reuseScratch index
    return (.through temp,
      [{ opcode := .add, lhs := .cell offset, rhs := index.toOperand, dest := .cellDest temp }])
  | .frame owner, true, some i => do
    let temp ← Work.allocScratch
    return (.through temp,
      [{ opcode := .add, lhs := frameBase owner, rhs := .constant (Numeral.wrap32 (offset + 1 + i)),
         dest := .cellDest temp }])
  | .frame owner, true, none => do
    -- the index is read before its cell is overwritten
    let temp ← Work.reuseScratch index
    return (.through temp,
      [{ opcode := .add, lhs := frameBase owner, rhs := index.toOperand, dest := .cellDest temp },
       { opcode := .add, lhs := .cell temp, rhs := .constant (Numeral.wrap32 (offset + 1)),
         dest := .cellDest temp }])
  | .frame owner, false, _ => do
    let (temp, code) ← frameAddress owner offset
    return (.through temp, code ++
      [{ opcode := .add, lhs := .through temp, rhs := index.toOperand, dest := .cellDest temp }])

def closeIndex (name : Token) : Attempt Unit := do
  if ← Work.eat "]" then return ()
  else Attempt.failStatement (.unclosedIndex name (← Work.peek))

/-- Lowers a reference to an operand and the code that has to run before it. -/
def lower (scope : Scope) (role : Role) : Reference → Attempt (Backed × Code)
  | numeral shift text value =>
    if role = .destination ∧ shift = 0 then Attempt.failStatement (.assignedNumber text)
    else do return (← applyShift role shift (.constant value), [])
  | plain head => do
    let (a, code) ← lowerPlain scope head
    return (← applyShift role head.shift a, code)
  | field head name => do
    let (a, code) ← lowerField scope head name
    return (← applyShift role head.shift a, code)
  | element head index => do
    let (i, before) ← lower scope .source index
    let (a, code) ← lowerElement scope head i
    -- the cells of the index that the element does not need any more
    Work.releaseCells (i.cells.filter fun address => !a.cells.contains address)
    closeIndex head.name
    return (← applyShift role head.shift a, before ++ code)

end Reference

def reference (scope : Scope) (role : Role) : Attempt (Backed × Code) := do
  let b ← get
  let (result, rest) := Reference.read (scope.home? b.globals) 0 b.tokens
  set { b with tokens := rest }
  match result with
  | .ok r => r.lower scope role
  | .error p => Attempt.failStatement p

/-- Warns if the known value of an operand does not fit in a machine word. -/
def checkBounds (role : Role) (a : Operand) : Work Unit :=
  match a.value.number? with
  | none => return ()
  | some n =>
    if a.mode = .constant ∧ role = .source then
      if -32768 ≤ n ∧ n ≤ 65535 then return () else Work.report (.wideConstant n)
    else
      if 0 ≤ n ∧ n ≤ 65535 then return () else Work.report (.outsideAddress n)

end CogolToolchain
