import CogolToolchain.Source.Diagnostic
import CogolToolchain.Source.Token
import CogolToolchain.Text.Blank
import CogolToolchain.Text.Lowercase

/-!
# The lexer

Cuts source text into tokens. Letter case does not matter. Blanks separate tokens; a `#` starts a
comment, which runs to the end of the line; text between double quotes, or from a double quote to
the end of the line, is one token. A mark such as a comma is a token by itself. Operator characters
that follow one another are one token, also across blanks, and a minus joins only another minus or a
plus. A minus in front of a digit belongs to the numeral where no binary minus can stand.

The text is read in one pass, a character at a time.
-/

namespace CogolToolchain
namespace Lexer

def isMark (c : Char) : Bool := ",.:;\x7b\x7d()[]$\\".toList.contains c

/-- Operator characters that join the operator before them. -/
def isJoining (c : Char) : Bool := "<>&|!=+^*".toList.contains c

def isOperator (c : Char) : Bool := c == '-' || isJoining c

/-- Characters that stand nowhere but in comments and quotes. -/
def isForbidden (c : Char) : Bool := "~\x60@%/'".toList.contains c

inductive Place where
  | code
  | comment
  | quote (text : String)
  deriving DecidableEq, Repr

structure State where
  place : Place := .code
  /-- The finished tokens, the last one first. -/
  tokens : List Token := []
  word : String := ""
  line : Nat := 1
  diagnostics : List Diagnostic := []

namespace State

def push (s : State) (t : Token) : State := { s with tokens := t :: s.tokens }

def flush (s : State) : State :=
  if s.word.isEmpty then s else { s.push s.word with word := "" }

/-- Adds an operator character to the last token if that ends in a character that `joins` accepts;
otherwise the character starts a token. -/
def pushOperator (s : State) (joins : Char → Bool) (c : Char) : State :=
  match s.tokens with
  | last :: earlier =>
    if last.toList.getLast?.any joins then { s with tokens := last.push c :: earlier }
    else s.push (String.singleton c)
  | [] => s.push (String.singleton c)

/-- Whether a token before a minus makes the minus a sign. -/
def precedesSign (t : Token) : Bool :=
  ["(", "[", ",", ";", "\x7b", "\x7d"].contains t || t.toList.getLast?.any isOperator

def withoutSign? (s : State) : Option (List Token) :=
  match s.tokens with
  | ["-"] => some []
  | "-" :: before :: earlier => if precedesSign before then some (before :: earlier) else none
  | _ => none

/-- Adds a character to the word in progress. A numeral takes the minus sign before it. -/
def pushWord (s : State) (c : Char) : State :=
  if c.isDigit && s.word.isEmpty then
    match s.withoutSign? with
    | some tokens => { s with tokens, word := "-".push c }
    | none => { s with word := s.word.push c }
  else { s with word := s.word.push c }

def readCode (s : State) (c : Char) : State :=
  if c == '#' then { s.flush with place := .comment }
  else if c == '"' then { s.flush with place := .quote "" }
  else if c == '-' then s.flush.pushOperator (fun d => d == '-' || d == '+') c
  else if Text.isBlank c then s.flush
  else if isMark c then s.flush.push (String.singleton c)
  else if isJoining c then s.flush.pushOperator isOperator c
  else if isForbidden c then
    let d := (Problem.forbiddenCharacter c).diagnostic ("line " ++ toString s.line)
    { s with diagnostics := s.diagnostics ++ [d] }
  else s.pushWord c

def read (s : State) (c : Char) : State :=
  match s.place with
  | .code => s.readCode c
  | .comment => if c == '\n' then { s with place := .code } else s
  | .quote text =>
    if c == '"' || c == '\n' then { s.push text with place := .code }
    else { s with place := .quote (text.push c) }

def step (s : State) (c : Char) : State :=
  let s := s.read c
  if c == '\n' then { s with line := s.line + 1 } else s

def finish (s : State) : State :=
  match s.place with
  | .quote text => s.push text
  | _ => s.flush

end State

/-- The tokens of a text whose letter case is already dealt with, and what is wrong with it. -/
def scan (cs : List Char) : List Token × List Diagnostic :=
  let s := (cs.foldl State.step {}).finish
  (s.tokens.reverse, s.diagnostics)

def tokenize (source : String) : List Token × List Diagnostic := scan (Text.lowercase source)

end Lexer
end CogolToolchain
