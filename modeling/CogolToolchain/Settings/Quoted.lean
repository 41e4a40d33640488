import CogolToolchain.Settings.Scalar

/-!
# TOML strings

A string stands in double quotes, with escapes, or in single quotes, without. Tripled quotes allow
line breaks, and up to two quotes before the closing ones belong to the text; a line break right
after the opening quotes does not. A backslash at the end of a line drops the blanks up to the next
text.
-/

namespace CogolToolchain
namespace Document
namespace Quoted

/-- The characters that strings and comments may hold: all but control characters other than
tabs. -/
def isPlain (c : Char) : Bool := c == '\t' || (' ' ≤ c && c != '\x7f')

def isSpace (c : Char) : Bool := c == ' ' || c == '\t'

def codePoint? (digits : List Char) : Option Char :=
  if digits.all Scalar.isHexDigit then
    let n := Scalar.valueOf 16 digits
    if n.isValidChar then some (Char.ofNat n) else none
  else none

/-- The character that a letter after a backslash stands for. -/
def escape? : Char → Option Char
  | 'b' => some '\x08'
  | 't' => some '\t'
  | 'n' => some '\n'
  | 'f' => some '\x0c'
  | 'r' => some '\r'
  | '"' => some '"'
  | '\\' => some '\\'
  | _ => none

abbrev Split := List Char × List Char

def consChar (c : Char) (s : Split) : Split := (c :: s.1, s.2)

def basic? : List Char → Option Split
  | [] => none
  | '"' :: rest => some ([], rest)
  | '\\' :: 'u' :: a :: b :: c :: d :: rest => do
    return consChar (← codePoint? [a, b, c, d]) (← basic? rest)
  | '\\' :: 'U' :: a :: b :: c :: d :: e :: f :: g :: h :: rest => do
    return consChar (← codePoint? [a, b, c, d, e, f, g, h]) (← basic? rest)
  | '\\' :: c :: rest => do return consChar (← escape? c) (← basic? rest)
  | c :: rest => if isPlain c && c != '\\' then (basic? rest).map (consChar c) else none

def literal? : List Char → Option Split
  | [] => none
  | '\'' :: rest => some ([], rest)
  | c :: rest => if isPlain c then (literal? rest).map (consChar c) else none

def atLineBreak : List Char → Bool
  | '\n' :: _ | '\r' :: '\n' :: _ => true
  | _ => false

/-- The text up to three closing double quotes. With `skip`, blanks and line breaks are dropped
first. -/
def multiBasic? (skip : Bool) : List Char → Option Split
  | [] => none
  | '"' :: '"' :: '"' :: '"' :: '"' :: rest => some (['"', '"'], rest)
  | '"' :: '"' :: '"' :: '"' :: rest => some (['"'], rest)
  | '"' :: '"' :: '"' :: rest => some ([], rest)
  | '\r' :: '\n' :: rest =>
    if skip then multiBasic? true rest else (multiBasic? false rest).map (consChar '\n')
  | '\n' :: rest =>
    if skip then multiBasic? true rest else (multiBasic? false rest).map (consChar '\n')
  | '\\' :: 'u' :: a :: b :: c :: d :: rest => do
    return consChar (← codePoint? [a, b, c, d]) (← multiBasic? false rest)
  | '\\' :: 'U' :: a :: b :: c :: d :: e :: f :: g :: h :: rest => do
    return consChar (← codePoint? [a, b, c, d, e, f, g, h]) (← multiBasic? false rest)
  | '\\' :: c :: rest =>
    if atLineBreak ((c :: rest).dropWhile isSpace) then multiBasic? true (c :: rest)
    else do return consChar (← escape? c) (← multiBasic? false rest)
  | c :: rest =>
    if skip && isSpace c then multiBasic? true rest
    else if isPlain c && c != '\\' then (multiBasic? false rest).map (consChar c)
    else none

def multiLiteral? : List Char → Option Split
  | [] => none
  | '\'' :: '\'' :: '\'' :: '\'' :: '\'' :: rest => some (['\'', '\''], rest)
  | '\'' :: '\'' :: '\'' :: '\'' :: rest => some (['\''], rest)
  | '\'' :: '\'' :: '\'' :: rest => some ([], rest)
  | '\r' :: '\n' :: rest => (multiLiteral? rest).map (consChar '\n')
  | '\n' :: rest => (multiLiteral? rest).map (consChar '\n')
  | c :: rest => if isPlain c then (multiLiteral? rest).map (consChar c) else none

def dropLineBreak : List Char → List Char
  | '\n' :: rest | '\r' :: '\n' :: rest => rest
  | cs => cs

def line? : List Char → Option Split
  | '"' :: rest => basic? rest
  | '\'' :: rest => literal? rest
  | _ => none

def string? : List Char → Option Split
  | '"' :: '"' :: '"' :: rest => multiBasic? false (dropLineBreak rest)
  | '\'' :: '\'' :: '\'' :: rest => multiLiteral? (dropLineBreak rest)
  | cs => line? cs

end Quoted
end Document
end CogolToolchain
