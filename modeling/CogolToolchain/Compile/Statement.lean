import CogolToolchain.Compile.Assignment
import CogolToolchain.Compile.Declarator
import CogolToolchain.Compile.Session

/-!
# Statements

What each kind of statement adds to a session. A jump runs one more instruction, its delay slot,
before it lands, so every jump is followed by an instruction that may run on both paths; mostly that
instruction does nothing.
-/

namespace CogolToolchain
namespace Statement

open Build

/-! ### Declarations -/

/-- The code that gives a cell an initial value other than zero. -/
def initialCode (address : Nat) (value : Int) : Code :=
  if value = 0 then [] else [.copy (.constant value) (.cellDest address)]

def declareGlobal (name : Token) (declarator : Declarator) : Build Unit := modify fun s =>
  let globals := s.bench.globals
  let base := globals.nextFree
  match declarator with
  | .word => { s with bench := { s.bench with globals := globals.declareWord name } }
  | .wordWithDefault value =>
    { s with
      bench := { s.bench with globals := globals.declareWord name }
      preamble := s.preamble ++ initialCode base value }
  | .array size values =>
    let elements := values.zipIdx.flatMap fun (value, i) => initialCode (base + 1 + i) value
    { s with
      bench := { s.bench with globals := globals.declareArray name size values.length }
      preamble := s.preamble ++ elements ++
        [.copy (.constant (Numeral.wrap32 (base + 1))) (.cellDest base)] }

def declaration : Build Unit := do
  discard (work Work.pop)
  let name ← work Work.pop
  let s ← get
  if isReserved name then work (Work.reportStatement (.reservedDeclaration name))
  else if s.bench.globals.contains name then work (Work.reportStatement (.redeclared name))
  else
    match ← attempt (Declarator.read s.scope name [";"]) with
    | some declarator => declareGlobal name declarator
    | none => return ()

/-! ### Assignments -/

def assignment : Build Unit := do
  match ← attempt (Assignment.lower (← get).scope) with
  | some code => emit code
  | none => return ()

/-! ### Blocks -/

/-- A conditional jump and a delay slot that does nothing; nothing at all if the jump is never
taken. -/
def branchTo (branch : Branch) (target : Operand) : Code :=
  match branch.jump? target with
  | some jump => [jump, .nop]
  | none => []

/-- The instruction for the delay slot of the jump to the condition of a loop, and the code at the
bottom of the loop. The jump leads to the second instruction of the condition, and the first one
runs in the delay slot; a condition of one instruction leaves the slot empty. -/
def loopBottom (block : Block) (condition : Code) (back : Instruction) : Instruction × Code :=
  match condition with
  | [] => (.nop, [back.tagged (.finish block), .nop])
  | [first] => (first, [first, back.tagged (.finish block), .nop])
  | first :: second :: rest =>
    (first, first :: second.tagged (.finish block) :: (rest ++ [back, .nop]))

/-- Opens a `while` block. The condition is tested at the bottom, where the loop is also entered. -/
def openWhile (block : Block) (condition : Condition) (code : Code) : Build Unit := do
  let (branch, test) ← work condition.lower
  let back := (branch.jump? (.label (.begin block) 2)).getD .nop
  let (slot, bottom) := loopBottom block (code ++ test) back
  emit [(Instruction.jump (.label (.finish block) 0)).tagged (.begin block), slot]
  openBlock block bottom

def openIf (block : Block) (condition : Condition) (code : Code) : Build Unit := do
  let (skip, test) ← work ({ condition with op := condition.op.negated }.lower)
  emit (code ++ test ++ branchTo skip (.label (.finish block) 1))
  openBlock block

/-- `if (...) {` and `while (...) {`. A block whose condition is wrong is opened all the same, so
that its closing brace finds it. -/
def blockStart : Build Unit := do
  let keyword ← work Work.pop
  let kind := if keyword = "while" then BlockKind.whileLoop else .ifThen
  let id ← work Work.takeId
  let condition? ← attempt (Condition.read (← get).scope)
  let block : Block := { kind, id, suffix := ← blockSuffix }
  match condition? with
  | none => openBlock block
  | some (condition, code) =>
    if keyword = "while" then openWhile block condition code else openIf block condition code

/-- `do {`. The body starts after what ends the program now. -/
def doStart : Build Unit := do
  discard (work Work.pop)
  let id ← work Work.takeId
  let block : Block := { kind := .doWhile, id, suffix := ← blockSuffix }
  tagLast (.begin block)
  openBlock block

def doCondition (scope : Scope) : Attempt (Condition × Code) := do
  if ← Work.eat "while" then
    let result ← Condition.read scope
    Attempt.expect ";"
    return result
  else Attempt.failStatement (.missingWhile (← Work.peek))

def closeDo (block : Block) : Build Unit := do
  match ← attempt (doCondition (← get).scope) with
  | none => return ()
  | some (condition, code) => do
    let (branch, test) ← work condition.lower
    emit (code ++ test ++ branchTo branch (.label (.begin block) 1))

/-- Opens the `else` block after an `if` block, if there is one. The `if` block jumps over it. -/
def openElse : Build Unit := do
  if ← work (Work.eat "else") then
    let id ← work Work.takeId
    let block : Block := { kind := .elseThen, id, suffix := ← blockSuffix }
    emit [(Instruction.jump (.label (.finish block) 1)).tagged (.begin block), .nop]
    openBlock block

def afterBrace (block : Block) : Build Unit :=
  match block.kind with
  | .ifThen => openElse
  | .doWhile => closeDo block
  | .sub => modify fun s => { s with scope.enclosing := s.scope.enclosing.tail }
  | .elseThen | .whileLoop => pure ()

/-- The closing brace of a block. The end of a `while` block is marked in its trailer. -/
def blockEnd : Build Unit := do
  discard (work Work.pop)
  match (← get).blocks with
  | [] => work (Work.report .strayBrace)
  | ⟨block, trailer⟩ :: blocks => do
    modify fun s => { s with blocks }
    emit trailer
    afterBrace block
    if block.kind ≠ .whileLoop then tagLast (.finish block)

/-! ### Subroutines -/

/-- The code that ends a subroutine: it gives the frame back to the call stack, returns, and makes
the frame before it the active one in the delay slot of the return. -/
def epilogue (name : String) : Work Code := do
  let temp ← Work.allocScratch
  Work.releaseCell temp
  let base := Operand.named .address name
  return [
    .copy base callStackPointer,
    { opcode := .add, lhs := .constant 1, rhs := base, dest := .cellDest temp },
    .jump (.named .deref name),
    .copy (.through temp) (.named .constant name)]

def declareParam (sub name : Token) (declarator : Declarator) : Build Unit := modify fun s =>
  { s with scope := s.scope.modifyFrame sub fun frame =>
      match declarator with
      | .word => frame.declareWord name
      | .wordWithDefault value => frame.declareDefault name value
      | .array size values => frame.declareArray name size values }

def param (sub : Token) : Build Unit := do
  let name ← work Work.pop
  let scope := (← get).scope
  let stops := [",", ")"]
  if (scope.frame? sub).any fun frame => frame.table.contains name then
    work (Work.reportThrough stops (.redeclaredParameter name sub))
  else if isReserved name then work (Work.reportThrough stops (.reservedParameter name sub))
  else
    match ← attempt (Declarator.read scope name stops) with
    | some declarator => declareParam sub name declarator
    | none => return ()

/-- Reads the parameters of the subroutine `sub` up to the opening brace. A round consumes a token,
so the number of tokens bounds the rounds. -/
def params (sub : Token) : (rounds : Nat) → Build Unit
  | 0 => return ()
  | rounds + 1 => do
    let tokens := (← get).bench.tokens
    if tokens.isEmpty ∨ Tokens.peek tokens = "\x7b" then return ()
    else do
      param sub
      params sub rounds

def declareFramePointer (name : Token) : Build Unit := do
  let s ← get
  if isReserved name then work (Work.report (.reservedSubroutine name))
  else if (s.scope.frame? name).isSome then work (Work.report (.redeclaredSubroutine name))
  else if s.bench.globals.contains name then work (Work.report (.subroutineIsVariable name))
  else work (modify fun b => { b with globals := b.globals.declareWord name })

/-- `sub name(params) {`. Where the declaration is reached, the body is jumped over. -/
def subroutine : Build Unit := do
  discard (work Work.pop)
  let name ← work Work.pop
  declareFramePointer name
  let block : Block := { kind := .sub, id := ← work Work.takeId, suffix := "_" ++ name }
  modify fun s =>
    let scope := s.scope.insert name (.new name block)
    { s with scope := { scope with enclosing := name :: scope.enclosing } }
  if (← attempt (Attempt.expect "(")).isSome then
    discard (work (Work.eat ")"))
    params name (← get).bench.tokens.length
  discard (work (Work.eat "\x7b"))
  emit [.jump (.label (.finish block) 1), Instruction.nop.tagged (.begin block)]
  let code ← work (epilogue name)
  modify fun s => { s with scope := s.scope.modifyFrame name fun f => { f with epilogue := code } }
  openBlock block code

def returnStatement : Build Unit := do
  discard (work Work.pop)
  let scope := (← get).scope
  match scope.enclosing with
  | [] => work (Work.reportStatement .returnOutside)
  | name :: _ =>
    if ← work (Work.eat ";") then
      emit (((scope.frame? name).map Frame.epilogue).getD [])
    else work (Work.reportStatement .returnValue)

/-! ### Calls -/

/-- Notes that the destination of a call points to a frame of the subroutine. -/
def setPointerType (call : CallSite) : Build Unit :=
  match call.returnsPointer, call.pointerName?, call.subroutineName? with
  | true, some pointer, some sub => modify fun s =>
    match s.scope.owner? pointer with
    | some owner =>
      { s with scope := s.scope.modifyFrame owner fun frame =>
          { frame with table := frame.table.setType pointer (.pointer sub) } }
    | none =>
      { s with bench := { s.bench with
          globals := s.bench.globals.setType pointer (.pointer sub) } }
  | _, _, _ => return ()

/-- A call waits until all subroutines are known. -/
def queueCall : Build Unit := do
  let s ← get
  let (tokens, rest) := Tokens.splitStatement s.bench.tokens
  work (modify fun b => { b with tokens := rest })
  let call : CallSite :=
    { position := s.program.length, tokens, enclosing := s.scope.enclosing }
  setPointerType call
  modify fun s => { s with calls := call :: s.calls }

/-! ### All statements -/

def compile : Build Unit := do
  work (modify fun b => { b with scratch := b.scratch.releaseAll })
  match ← work Work.peek with
  | ";" => discard (work Work.pop)
  | "call" => queueCall
  | "my" => declaration
  | "if" | "while" => blockStart
  | "do" => doStart
  | "\x7d" => blockEnd
  | "sub" => subroutine
  | "return" => returnStatement
  | _ => assignment

/-- Compiles statements until no token is left. A statement consumes a token, so the number of
tokens bounds the rounds. -/
def compileAll : (rounds : Nat) → Build Unit
  | 0 => return ()
  | rounds + 1 => do
    if (← get).bench.tokens.isEmpty then return ()
    else do
      compile
      compileAll rounds

end Statement

end CogolToolchain
