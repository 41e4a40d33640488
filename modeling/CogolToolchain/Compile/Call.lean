import CogolToolchain.Compile.Reference

/-!
# Calls

A call is compiled only when all subroutines are known, so it waits until the rest of the program is
done. Its code goes where the statement stands.

A call makes a frame at the top of the call stack. The frame that was active before is saved in it,
the arguments are stored, the frame becomes the active one, the parameters without an argument are
initialized, and control goes to the subroutine. The address of the frame is kept in the destination
of a call `call p = f();`, and in a scratch cell otherwise. After the return, the call stack pointer
points to the finished frame, from which a call `call x = f().field;` takes its result.
-/

namespace CogolToolchain

structure CallSite where
  /-- How many instructions of the program come before the call. -/
  position : Nat
  tokens : List Token
  /-- The subroutines around the statement, the innermost first. -/
  enclosing : List String
  /-- The labels of the last instruction of the call. -/
  tags : List Label := []

namespace CallSite

/-- Whether the statement goes on with a field after its last closing parenthesis. -/
def takesField (c : CallSite) : Bool :=
  c.tokens.reverse.find? (fun t => t == ")" || t == ".") == some "."

/-- Whether the destination gets the address of the frame, and not a field of it. -/
def returnsPointer (c : CallSite) : Bool := !c.takesField

def assignIndex? (c : CallSite) : Option Nat :=
  (c.tokens.takeWhile (· != "(")).findIdx? fun t => t.toList.getLast? == some '='

def pointerName? (c : CallSite) : Option Token := do
  let _ ← c.assignIndex?
  c.tokens[1]?

def subroutineName? (c : CallSite) : Option Token :=
  match c.assignIndex? with
  | some i => c.tokens[i + 1]?
  | none => c.tokens[1]?

end CallSite

namespace Call

def stackTop : Operand := callStackPointer.read

/-- Lowers one argument, which goes into the slot `param` of the frame that `pointer` points to. -/
def argument (scope : Scope) (frame : Frame) (pointer : Backed) (param : String) :
    Attempt Code := do
  let (source, code) ← reference scope .source
  checkBounds .source source.toOperand
  let temp ← Work.allocScratch
  Work.releaseCell temp
  Work.release source
  return code ++
    [{ opcode := .add, lhs := pointer.read.toOperand, rhs := .slot frame.name param,
       dest := .cellDest temp },
     .copy source.toOperand (.cell temp)]

def parameter (frame : Frame) (slot : Nat) : Attempt String :=
  match frame.slots[slot]? with
  | none => Attempt.failStatement (.tooManyArguments frame.name frame.paramCount)
  | some param =>
    if frame.isArray param.name then
      Attempt.failStatement (.arrayArgument param.name frame.name)
    else return param.name

/-- Lowers the arguments from the one for `slot` on, through the closing parenthesis. A comma moves
on to the next slot. Gives the slots that got an argument and the code. A round consumes a token or
is the last, so the number of tokens bounds the rounds. -/
def arguments (scope : Scope) (frame : Frame) (pointer : Backed) :
    (rounds slot : Nat) → Attempt (List Nat × Code)
  | 0, _ => failure
  | rounds + 1, slot => do
    let next ← Work.peek
    if next = ")" then do
      discard Work.pop
      return ([], [])
    else if next = "," then do
      discard Work.pop
      arguments scope frame pointer rounds (slot + 1)
    else if next = "" ∨ next = ";" then Attempt.failStatement (.unterminatedArguments frame.name)
    else do
      let param ← parameter frame slot
      let code ← argument scope frame pointer param
      let (supplied, rest) ← arguments scope frame pointer rounds slot
      return (slot :: supplied, code ++ rest)

def resultOpcode? (assign : Token) : Option Opcode :=
  match assign.toList.reverse with
  | '=' :: cs => Opcode.ofOperator? (String.ofList cs.reverse)
  | _ => Opcode.ofOperator? assign

/-- Stores the value of a field in the destination. An operator that does not exist is reported. -/
def storeResult (assign : Token) (value dest : Backed) : Work Code :=
  if assign = "=" then return [.copy value.toOperand dest.toOperand]
  else
    match resultOpcode? assign with
    | some opcode =>
      return [{ opcode, lhs := dest.read.toOperand, rhs := value.toOperand,
                dest := dest.toOperand }]
    | none => do
      Work.report (.resultOperator assign)
      return []

/-- Lowers what follows `f(...).`: the field of the finished frame goes to the destination, whose
address is computed anew, since the subroutine may have used the scratch cells. -/
def fieldResult (frame : Frame) (dest? : Option (Backed × Code × Token)) : Attempt Code := do
  let b ← get
  let (field, rest) := Reference.readField b.tokens
  set { b with tokens := rest }
  match dest? with
  | none => Attempt.failStatement (.unstoredField field frame.name)
  | some (dest, address, assign) => do
    let temp ← Work.allocScratch
    let store ← storeResult assign (.through temp) dest
    if ← Work.eat ";" then pure () else Work.reportStatement (.afterCall frame.name)
    return address ++
      [{ opcode := .add, lhs := stackTop, rhs := .slot frame.name field, dest := .cellDest temp }]
      ++ store

def destination (scope : Scope) (call : CallSite) : Attempt (Option (Backed × Code × Token)) :=
  match call.pointerName? with
  | none => return none
  | some _ => do
    let (dest, code) ← reference scope .destination
    let assign ← Work.pop
    return some (dest, code, assign)

def callee (scope : Scope) : Attempt Frame := do
  let name ← Work.pop
  match scope.frame? name with
  | some frame => return frame
  | none => Attempt.failStatement (.undeclaredSubroutine name)

/-- Where the address of the new frame is kept, and the code that computes that place. -/
def framePointer (call : CallSite) (dest? : Option (Backed × Code × Token)) :
    Work (Backed × Code) := do
  match dest?, call.returnsPointer with
  | some (dest, code, _), true => return (dest, code)
  | _, _ => return (.scratch (← Work.allocScratch), [])

/-- Makes the new frame at the top of the call stack and saves the active frame in it. -/
def makeFrame (frame : Frame) (pointer : Backed) : Work Code := do
  let temp ← Work.allocScratch
  Work.releaseCell temp
  return [
    { opcode := .add, lhs := stackTop, rhs := .constant 1, dest := .cellDest temp },
    .copy frame.base (.cell temp),
    .copy stackTop pointer.toOperand]

/-- Makes the new frame the active one, initializes the parameters without an argument, and goes to
the subroutine. The delay slot moves the call stack pointer behind the frame. -/
def enter (frame : Frame) (pointer : Backed) (supplied : List Nat) : Work Code := do
  let back := Label.callReturn (← Work.takeId) frame.name
  Work.release pointer
  let inits := frame.slots.zipIdx.flatMap fun (slot, i) =>
    if supplied.contains i then [] else slot.init
  return [
      .copy pointer.read.toOperand (.named .constant frame.name),
      .copy (.label back 1) frame.base]
    ++ inits ++ [
      .jump (.label (.begin frame.block) 1),
      { opcode := .add, lhs := .constant (Numeral.wrap32 frame.size), rhs := frame.base,
        dest := callStackPointer, tags := [back] }]

def lower (scope : Scope) (call : CallSite) : Attempt Code := do
  discard Work.pop
  let dest? ← destination scope call
  let frame ← callee scope
  let (pointer, address) ← framePointer call dest?
  let make ← makeFrame frame pointer
  Attempt.expect "("
  let rounds := (← get).tokens.length + 1
  let (supplied, args) ← arguments scope frame pointer rounds 2
  let entry ← enter frame pointer supplied
  let code := address ++ make ++ args ++ entry
  if (← Work.pop) = "." then return code ++ (← fieldResult frame dest?) else return code

/-- The code of a call that waited. The workbench gets its tokens back afterwards. A call that is
rejected does nothing, but there is always an instruction to carry the labels. -/
def compile (scope : Scope) (call : CallSite) : Work Code := do
  let tokens := (← get).tokens
  modify fun b => { b with tokens := call.tokens, scratch := b.scratch.releaseAll }
  let code? ← (lower { scope with enclosing := call.enclosing } call).run
  modify fun b => { b with tokens }
  let code := match code?.getD [] with
    | [] => [Instruction.nop]
    | code => code
  return Code.tagLast call.tags code

end Call
end CogolToolchain
