/-!
# Tokens

A token is a piece of text. The tokens of a program are consumed from the front; beyond the last of
them there are empty tokens without end, so that a statement can be read without asking at every
step whether the program is over.
-/

namespace CogolToolchain

abbrev Token := String

namespace Tokens

def peekNth (n : Nat) (ts : List Token) : Token := ts[n]?.getD ""

/-- The tokens through the first of `stops`, or all of them, and what is left after that. -/
def splitThrough (stops : List Token) : List Token → List Token × List Token
  | [] => ([], [])
  | t :: ts =>
    if stops.contains t then ([t], ts)
    else
      let (removed, left) := splitThrough stops ts
      (t :: removed, left)

/-- The tokens of a statement, the semicolon that ends it included, and what is left after it. -/
def splitStatement (ts : List Token) : List Token × List Token := splitThrough [";"] ts

def peek : List Token → Token
  | [] => ""
  | t :: _ => t

def rest : List Token → List Token
  | [] => []
  | _ :: ts => ts

/-- What is left after the next token, if that is `expected`. -/
def eat? (expected : Token) (ts : List Token) : Option (List Token) :=
  if peek ts == expected then some (rest ts) else none

def joined (ts : List Token) : String := " ".intercalate ts

theorem splitThrough_append (stops ts : List Token) :
    (splitThrough stops ts).1 ++ (splitThrough stops ts).2 = ts := by
  induction ts with
  | nil => rfl
  | cons t ts ih =>
    simp only [splitThrough]
    split
    · rfl
    · simpa using ih

end Tokens
end CogolToolchain
