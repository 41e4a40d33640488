import CogolToolchain.Source.Operator

/-!
# Diagnostics

What the compiler reports about a source program. A problem is found at some place of the source;
the diagnostic that reports it has a kind, which decides how severe it is, a message, and the text
around the place as its context.
-/

namespace CogolToolchain

inductive Severity where
  | warning
  | error
  deriving DecidableEq, Repr

def Severity.text : Severity → String
  | .warning => "warning"
  | .error => "error"

inductive DiagnosticKind where
  | redeclaration
  | reservedName
  | undeclaredVariable
  | typeMismatch
  | unsupportedOperator
  | undeclaredSubroutine
  | nonConstantInitializer
  | outOfRange
  | unresolvedSymbol
  | forbiddenCharacter
  | unexpectedToken
  | invalidMode
  | invalidReturn
  | constantCondition
  | unsupportedArgument
  deriving DecidableEq, Repr

namespace DiagnosticKind

def all : List DiagnosticKind :=
  [redeclaration, reservedName, undeclaredVariable, typeMismatch, unsupportedOperator,
    undeclaredSubroutine, nonConstantInitializer, outOfRange, unresolvedSymbol, forbiddenCharacter,
    unexpectedToken, invalidMode, invalidReturn, constantCondition, unsupportedArgument]

def name : DiagnosticKind → String
  | redeclaration => "Redeclaration"
  | reservedName => "ReservedName"
  | undeclaredVariable => "UndeclaredVariable"
  | typeMismatch => "TypeMismatch"
  | unsupportedOperator => "UnsupportedOperator"
  | undeclaredSubroutine => "UndeclaredSubroutine"
  | nonConstantInitializer => "NonConstantInitializer"
  | outOfRange => "OutOfRange"
  | unresolvedSymbol => "UnresolvedSymbol"
  | forbiddenCharacter => "ForbiddenCharacter"
  | unexpectedToken => "UnexpectedToken"
  | invalidMode => "InvalidMode"
  | invalidReturn => "InvalidReturn"
  | constantCondition => "ConstantCondition"
  | unsupportedArgument => "UnsupportedArgument"

def ofName? (text : String) : Option DiagnosticKind := all.find? fun kind => kind.name == text

/-- A program with warnings still means what it says; one with errors may not. -/
def severity : DiagnosticKind → Severity
  | typeMismatch | outOfRange | constantCondition => .warning
  | _ => .error

end DiagnosticKind

structure Diagnostic where
  kind : DiagnosticKind
  message : String
  context : String := ""
  deriving DecidableEq, Repr

namespace Diagnostic

def severity (d : Diagnostic) : Severity := d.kind.severity

def isError (d : Diagnostic) : Bool := d.severity == .error

/-- The text of a diagnostic. An empty context is left out. -/
def text (d : Diagnostic) : String :=
  let place := if d.context.isEmpty then "" else " (at: " ++ d.context ++ ")"
  d.severity.text ++ ": " ++ d.message ++ place

end Diagnostic

/-- What can be wrong with a source program. -/
inductive Problem where
  | forbiddenCharacter (c : Char)
  | expected (wanted found : String)
  -- references
  | reservedReference (name : String)
  | assignedNumber (numeral : String)
  | undeclaredVariable (name : String)
  | invalidMode (level : Int) (operand : String)
  | arrayAsValue (name : String)
  | fieldOfArray (name : String)
  | unclosedIndex (name found : String)
  | wideConstant (value : Int)
  | outsideAddress (value : Int)
  -- declarations
  | reservedDeclaration (name : String)
  | redeclared (name : String)
  | initialValue (name : String)
  | arraySize (name found : String)
  | unclosedSize (name : String)
  | arrayInitializer (name : String)
  | declarator (found name : String)
  | initialElement (index : Nat) (name : String)
  | afterInitializer (name : String)
  | initializer (found name : String)
  -- assignments and conditions
  | assignmentOperator (found : String)
  | binaryOperator (found : String)
  | comparison (found : String)
  | constantCondition (a : Int) (op : Comparison) (b : Int)
  -- blocks
  | strayBrace
  | missingWhile (found : String)
  | unclosedBlock (name : String)
  -- subroutines and calls
  | reservedSubroutine (name : String)
  | redeclaredSubroutine (name : String)
  | subroutineIsVariable (name : String)
  | reservedParameter (name sub : String)
  | redeclaredParameter (name sub : String)
  | returnOutside
  | returnValue
  | undeclaredSubroutine (name : String)
  | unterminatedArguments (sub : String)
  | tooManyArguments (sub : String) (count : Nat)
  | arrayArgument (param sub : String)
  | unstoredField (field sub : String)
  | resultOperator (assign : String)
  | afterCall (sub : String)
  -- layout
  | notSubroutine (owner operand : String)
  | undefinedName (operand : String)
  deriving DecidableEq, Repr

namespace Problem

def kind : Problem → DiagnosticKind
  | forbiddenCharacter _ => .forbiddenCharacter
  | expected .. => .unexpectedToken
  | reservedReference _ => .reservedName
  | assignedNumber _ => .unexpectedToken
  | undeclaredVariable _ => .undeclaredVariable
  | invalidMode .. => .invalidMode
  | arrayAsValue _ => .typeMismatch
  | fieldOfArray _ => .typeMismatch
  | unclosedIndex .. => .unexpectedToken
  | wideConstant _ => .outOfRange
  | outsideAddress _ => .outOfRange
  | reservedDeclaration _ => .reservedName
  | redeclared _ => .redeclaration
  | initialValue _ => .nonConstantInitializer
  | arraySize .. => .unexpectedToken
  | unclosedSize _ => .unexpectedToken
  | arrayInitializer _ => .unexpectedToken
  | declarator .. => .unexpectedToken
  | initialElement .. => .nonConstantInitializer
  | afterInitializer _ => .unexpectedToken
  | initializer .. => .unexpectedToken
  | assignmentOperator _ => .unsupportedOperator
  | binaryOperator _ => .unsupportedOperator
  | comparison _ => .unsupportedOperator
  | constantCondition .. => .constantCondition
  | strayBrace => .unexpectedToken
  | missingWhile _ => .unexpectedToken
  | unclosedBlock _ => .unexpectedToken
  | reservedSubroutine _ => .reservedName
  | redeclaredSubroutine _ => .redeclaration
  | subroutineIsVariable _ => .redeclaration
  | reservedParameter .. => .reservedName
  | redeclaredParameter .. => .redeclaration
  | returnOutside => .invalidReturn
  | returnValue => .invalidReturn
  | undeclaredSubroutine _ => .undeclaredSubroutine
  | unterminatedArguments _ => .unexpectedToken
  | tooManyArguments .. => .unsupportedArgument
  | arrayArgument .. => .unsupportedArgument
  | unstoredField .. => .unexpectedToken
  | resultOperator _ => .unsupportedOperator
  | afterCall _ => .unexpectedToken
  | notSubroutine .. => .unresolvedSymbol
  | undefinedName _ => .unresolvedSymbol

def quote (text : String) : String := "'" ++ text ++ "'"

def message : Problem → String
  | forbiddenCharacter c => "forbidden character " ++ quote (String.singleton c)
  | expected wanted found => "expected " ++ quote wanted ++ " but found " ++ quote found
  | reservedReference name => "reserved address " ++ quote name
  | assignedNumber numeral => "cannot assign to the number " ++ numeral
  | undeclaredVariable name => "undeclared variable " ++ quote name
  | invalidMode level operand =>
    "invalid addressing mode " ++ toString level ++ " for operand " ++ operand
  | arrayAsValue name =>
    "array " ++ quote name ++ " used as a plain value (reads its base pointer)"
  | fieldOfArray name => "field access on array " ++ quote name
  | unclosedIndex name found =>
    "expected ']' after index of " ++ quote name ++ " but found " ++ quote found
  | wideConstant value => "constant " ++ toString value ++ " does not fit in 16 bits"
  | outsideAddress value => "address " ++ toString value ++ " is outside memory"
  | reservedDeclaration name => "cannot declare reserved name " ++ quote name
  | redeclared name => quote name ++ " is already declared"
  | initialValue name => "initial value of " ++ quote name ++ " must be a single constant"
  | arraySize name found =>
    "array size of " ++ quote name ++ " must be a number, found " ++ quote found
  | unclosedSize name => "expected ']' in declaration of " ++ quote name
  | arrayInitializer name => "invalid initializer for array " ++ quote name
  | declarator found name => "unexpected " ++ quote found ++ " in declaration of " ++ quote name
  | initialElement index name =>
    "element " ++ toString index ++ " of " ++ quote name ++ " is not a constant"
  | afterInitializer name => "unexpected tokens after initializer of " ++ quote name
  | initializer found name => "unexpected " ++ quote found ++ " in initializer of " ++ quote name
  | assignmentOperator found => quote found ++ " is not an assignment operator"
  | binaryOperator found => "unsupported operator " ++ quote found
  | comparison found => quote found ++ " is not a comparison"
  | constantCondition a op b =>
    "condition " ++ toString a ++ " " ++ op.name ++ " " ++ toString b ++ " is always "
      ++ toString (op.holds a b)
  | strayBrace => "'\x7d' without an open block"
  | missingWhile found => "expected 'while' after do block, found " ++ quote found
  | unclosedBlock name => "block " ++ name ++ " is never closed"
  | reservedSubroutine name => "cannot name a subroutine " ++ quote name
  | redeclaredSubroutine name => "subroutine " ++ quote name ++ " is already declared"
  | subroutineIsVariable name => quote name ++ " is already declared as a variable"
  | reservedParameter name sub => "cannot declare parameter " ++ quote name ++ " of " ++ quote sub
  | redeclaredParameter name sub => "cannot declare parameter " ++ quote name ++ " of " ++ quote sub
  | returnOutside => "return outside a subroutine"
  | returnValue => "return does not take a value; assign to a field instead"
  | undeclaredSubroutine name => "undeclared subroutine " ++ quote name
  | unterminatedArguments sub => "unterminated argument list in call to " ++ quote sub
  | tooManyArguments sub count =>
    "too many arguments for " ++ quote sub ++ " (takes " ++ toString count ++ ")"
  | arrayArgument param sub =>
    "array parameter " ++ quote param ++ " of " ++ quote sub ++ " cannot be passed"
  | unstoredField field sub =>
    "field " ++ quote field ++ " of " ++ quote sub ++ " is read but not stored"
  | resultOperator assign => "unsupported operator " ++ quote assign ++ " on call result"
  | afterCall sub => "expected ';' after call to " ++ quote sub
  | notSubroutine owner operand =>
    quote owner ++ " is not a subroutine, so " ++ operand ++ " has no meaning"
  | undefinedName operand => "undefined name " ++ operand

def diagnostic (p : Problem) (context : String) : Diagnostic :=
  { kind := p.kind, message := p.message, context }

end Problem
end CogolToolchain
