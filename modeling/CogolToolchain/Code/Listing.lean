import CogolToolchain.Code.Instruction
import CogolToolchain.Failure
import CogolToolchain.Text.Blank

/-!
# Listings

A listing has one line `index. OP a b c;` for each instruction. Reading a listing back ignores the
index, everything after the first semicolon of a line, and blank lines, so the labels of an
annotated listing are read as nothing.
-/

namespace CogolToolchain
namespace Listing

def render (annotate : Bool) (code : Code) : String :=
  "\n".intercalate (code.zipIdx.map fun (i, index) => toString index ++ ". " ++ i.render annotate)

inductive Fault where
  | missingIndex (line : String)
  | missingEnd (line : String)
  | wrongShape (body : String)
  | unknownOpcode (name : String)
  | invalidOperand (text : String)
  deriving DecidableEq, Repr

def Fault.message : Fault → String
  | .missingIndex line => "missing instruction index in '" ++ line ++ "'"
  | .missingEnd line => "missing ';' in '" ++ line ++ "'"
  | .wrongShape body => "expected an opcode and three operands in '" ++ body ++ "'"
  | .unknownOpcode name => "unknown opcode '" ++ name ++ "'"
  | .invalidOperand text => "invalid operand '" ++ text ++ "'"

def splitMode : List Char → Mode × List Char
  | 'A' :: digits => (.address, digits)
  | 'B' :: digits => (.deref, digits)
  | 'C' :: digits => (.doubleDeref, digits)
  | digits => (.constant, digits)

def readOperand (field : List Char) : Except Fault Operand :=
  let (mode, digits) := splitMode field
  match Numeral.signed? (String.ofList digits) with
  | some n => .ok ⟨mode, .known n⟩
  | none => .error (.invalidOperand (String.ofList field))

def readOpcode (field : List Char) : Except Fault Opcode :=
  match Opcode.ofMnemonic? (String.ofList field) with
  | some opcode => .ok opcode
  | none => .error (.unknownOpcode (String.ofList field))

/-- Reads what stands between the index and the semicolon of a line. -/
def readBody (body : List Char) : Except Fault Instruction :=
  match Text.words body with
  | [name, a, b, c] => do
    let opcode ← readOpcode name
    let lhs ← readOperand a
    let rhs ← readOperand b
    let dest ← readOperand c
    return { opcode := opcode, lhs, rhs, dest }
  | _ => .error (.wrongShape (String.ofList (Text.trim body)))

/-- Reads a line that is not blank and has no blanks at its ends. -/
def readLine (line : List Char) : Except Fault Instruction :=
  match Text.cutAt? '.' line with
  | none => .error (.missingIndex (String.ofList line))
  | some (_, rest) =>
    match Text.cutAt? ';' rest with
    | none => .error (.missingEnd (String.ofList line))
    | some (body, _) => readBody body

/-- Reads the lines of a listing, the first of which has the number `number`. -/
def readLines (number : Nat) : List (List Char) → Except Failure Code
  | [] => .ok []
  | line :: rest =>
    let line := Text.trim line
    if line.isEmpty then readLines (number + 1) rest
    else
      match readLine line with
      | .error fault => .error (.listing fault.message number)
      | .ok i => (readLines (number + 1) rest).map (i :: ·)

def read (text : String) : Except Failure Code := readLines 1 (Text.lines text.toList)

end Listing
end CogolToolchain
