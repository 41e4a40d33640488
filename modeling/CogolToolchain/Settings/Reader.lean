import CogolToolchain.Settings.Quoted

/-!
# Reading TOML documents

A document has one entry, header or comment on a line. A reader takes what it reads off the front of
a text; it fails on a document that is not well formed, and says no more.
-/

namespace CogolToolchain
namespace Document

/-- Reads from the front of a text. -/
abbrev Reader := StateT (List Char) Option

namespace Reader

def ahead : Reader (List Char) := get

def skipWhile (p : Char → Bool) : Reader Unit := modify fun cs => cs.dropWhile p

def skipSpaces : Reader Unit := skipWhile Quoted.isSpace

def char (c : Char) : Reader Unit := do
  match ← ahead with
  | d :: rest => if c == d then set rest else failure
  | [] => failure

def split {α : Type} (f : List Char → Option (α × List Char)) : Reader α := do
  let (a, rest) ← f (← ahead)
  set rest
  return a

/-- Reads the end of a line, or nothing at the end of the text. -/
def lineBreak : Reader Unit := do
  match ← ahead with
  | [] => return ()
  | '\n' :: rest => set rest
  | '\r' :: '\n' :: rest => set rest
  | _ => failure

/-- Skips a comment. A character that no comment may hold is left for the next reader to fail on. -/
def skipComment : Reader Unit := do
  match ← ahead with
  | '#' :: _ => skipWhile Quoted.isPlain
  | _ => return ()

/-- Reads what may follow on the line of a header or an entry. -/
def endLine : Reader Unit := do
  skipSpaces
  skipComment
  lineBreak

def skipLines : (limit : Nat) → Reader Unit
  | 0 => return ()
  | limit + 1 => do
    skipSpaces
    skipComment
    match ← ahead with
    | '\n' :: _ | '\r' :: '\n' :: _ => do
      lineBreak
      skipLines limit
    | _ => return ()

def skipBlank : Reader Unit := do skipLines ((← ahead).length + 1)

/-! ### Keys -/

def isKeyChar (c : Char) : Bool := c.isAlphanum || c == '-' || c == '_'

def keyPart : Reader String := do
  match ← ahead with
  | '"' :: _ | '\'' :: _ => return String.ofList (← split Quoted.line?)
  | cs =>
    let (name, rest) := cs.span isKeyChar
    if name.isEmpty then failure
    else do
      set rest
      return String.ofList name

def keyRest : (limit : Nat) → Reader (List String)
  | 0 => failure
  | limit + 1 => do
    skipSpaces
    match ← ahead with
    | '.' :: rest => do
      set rest
      skipSpaces
      let part ← keyPart
      return part :: (← keyRest limit)
    | _ => return []

/-- Reads a key of fewer than 80 parts. -/
def key : Reader (List String) := do
  skipSpaces
  let part ← keyPart
  return part :: (← keyRest 79)

def splitKey (parts : List String) : Option (List String × String) :=
  parts.getLast?.map fun name => (parts.dropLast, name)

/-! ### Values -/

/-- Reads a word, or a date and a time with a space between them. -/
def scalar : Reader Value := do
  let (word, rest) := (← ahead).span Scalar.isWordChar
  match Scalar.isDate word, rest with
  | true, ' ' :: c :: cs => do
    if c.isDigit then
      let (time, rest) := (c :: cs).span Scalar.isWordChar
      if Scalar.isZonedTime time then
        set rest
        return .other
      else failure
    else
      set rest
      return .other
  | _, _ => do
    set rest
    Scalar.value? word

def arrayValues (value : Reader Value) : (limit : Nat) → Reader Unit
  | 0 => failure
  | limit + 1 => do
    skipBlank
    match ← ahead with
    | ']' :: rest => set rest
    | _ => do
      discard value
      skipBlank
      match ← ahead with
      | ']' :: rest => set rest
      | ',' :: rest => do
        set rest
        arrayValues value limit
      | _ => failure

def entry (value : Reader Value) : Reader (List String × String × Value) := do
  let (path, name) ← splitKey (← key)
  char '='
  skipSpaces
  return (path, name, ← value)

def inlineEntries (value : Reader Value) (t : Table) : (limit : Nat) → Reader Unit
  | 0 => failure
  | limit + 1 => do
    let (path, name, v) ← entry value
    let t ← t.insert path name v
    skipSpaces
    match ← ahead with
    | '\x7d' :: rest => set rest
    | ',' :: rest => do
      set rest
      inlineEntries value t limit
    | _ => failure

def inlineTable (value : Reader Value) : Reader Unit := do
  skipSpaces
  match ← ahead with
  | '\x7d' :: rest => set rest
  | cs => inlineEntries value .empty cs.length

/-- Reads a value; `nested` reads the values in an array or in a table in braces, if those may stand
here. -/
def valueWith (nested : Option (Reader Value)) : Reader Value := do
  match ← ahead, nested with
  | '"' :: _, _ | '\'' :: _, _ => do
    discard (split Quoted.string?)
    return .other
  | '[' :: rest, some nested => do
    set rest
    arrayValues nested (rest.length + 1)
    return .other
  | '\x7b' :: rest, some nested => do
    set rest
    inlineTable nested
    return .other
  | '[' :: _, none | '\x7b' :: _, none => failure
  | _, _ => scalar

/-- Reads a value. Arrays and tables in braces nest at most `depth` deep. -/
def value : (depth : Nat) → Reader Value
  | 0 => valueWith none
  | depth + 1 => valueWith (some (value depth))

/-! ### Documents -/

def maxDepth : Nat := 79

def header (d : Partial) : Reader Partial := do
  match ← ahead with
  | '[' :: rest => do
    set rest
    let (above, name) ← splitKey (← key)
    char ']'
    char ']'
    d.openArray above name
  | _ => do
    let (above, name) ← splitKey (← key)
    char ']'
    d.openTable above name

def line (d : Partial) : Reader Partial := do
  match ← ahead with
  | '#' :: _ | '\n' :: _ | '\r' :: _ => return d
  | '[' :: rest => do
    set rest
    header d
  | _ => do
    let (path, name, v) ← entry (value maxDepth)
    d.insert path name v

def lines (d : Partial) : (limit : Nat) → Reader Partial
  | 0 => failure
  | limit + 1 => do
    skipSpaces
    match ← ahead with
    | [] => return d
    | _ => do
      let d ← line d
      endLine
      lines d limit

end Reader

/-- Reads a document. A byte order mark at its start is ignored. -/
def read? (text : String) : Option Table := do
  let cs := match text.toList with
    | '\ufeff' :: cs => cs
    | cs => cs
  let (d, _) ← (Reader.lines {} (cs.length + 1)).run cs
  d.close

end Document
end CogolToolchain
