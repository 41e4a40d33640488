import CogolToolchain.Compile.Reference

/-!
# Declarators

What follows the name in a declaration of a variable or of a parameter: nothing, an initial value,
or the size of an array with the initial values of its first elements. Initial values are constants.
-/

namespace CogolToolchain

inductive Declarator where
  | word
  | wordWithDefault (value : Int)
  | array (size : Nat) (values : List Int)
  deriving DecidableEq, Repr

namespace Declarator

/-- The value of the next element of an initializer of `name`, which has `index` elements before it.
An element that is no constant counts as zero. -/
def readElement (scope : Scope) (name : Token) (index : Nat) : Attempt Int := do
  let (a, _) ← reference scope .source
  match a.constant? with
  | some value => return value
  | none => do
    Work.report (.initialElement index name)
    return 0

/-- Reads the elements of an initializer through the token that ends the declaration. `values` has
the elements so far, the last one first. A round consumes a comma or is the last, so the number of
tokens bounds the rounds. -/
def readElements (scope : Scope) (name : Token) (stops : List Token) :
    (rounds : Nat) → (values : List Int) → Work (List Int)
  | 0, values => return values.reverse
  | rounds + 1, values => do
    match ← (readElement scope name values.length).run with
    | none => return values.reverse
    | some value => do
      let values := value :: values
      let next ← Work.pop
      if next = "," then readElements scope name stops rounds values
      else do
        if next = "\x7d" then
          if stops.contains (← Work.peek) then discard Work.pop
          else Work.reportThrough stops (.afterInitializer name)
        else Work.reportThrough stops (.initializer next name)
        return values.reverse

/-- Reads the size of an array; what is no size counts as zero. -/
def readSize (name : Token) : Work Nat := do
  let text ← Work.pop
  match Numeral.size? text with
  | some size => return size
  | none => do
    Work.report (.arraySize name text)
    return 0

def readArray (scope : Scope) (name : Token) (stops : List Token) (size : Nat) :
    Work Declarator := do
  if ← Work.eat "]" then
    let next ← Work.pop
    if stops.contains next then return .array size []
    else if next = "=" then
      if ← Work.eat "\x7b" then
        let rounds := (← get).tokens.length + 1
        return .array size (← readElements scope name stops rounds [])
      else do
        Work.reportThrough stops (.arrayInitializer name)
        return .array size []
    else do
      Work.reportThrough stops (.arrayInitializer name)
      return .array size []
  else do
    Work.reportThrough stops (.unclosedSize name)
    return .array size []

/-- Reads an initial value. One that is no constant is reported, and there is none then. -/
def readDefault (scope : Scope) (name : Token) (stops : List Token) : Attempt Declarator := do
  let (a, _) ← reference scope .source
  let next ← Work.peek
  match a.constant?, stops.contains next with
  | some value, true => do
    discard Work.pop
    return .wordWithDefault value
  | _, _ => do
    Work.reportThrough stops (.initialValue name)
    return .word

/-- Reads what follows the declared name, through one of `stops`. -/
def read (scope : Scope) (name : Token) (stops : List Token) : Attempt Declarator := do
  let next ← Work.pop
  if stops.contains next then return .word
  else if next = "=" then readDefault scope name stops
  else if next = "[" then do
    let size ← readSize name
    readArray scope name stops size
  else do
    Work.reportThrough stops (.declarator next name)
    failure

end Declarator
end CogolToolchain
