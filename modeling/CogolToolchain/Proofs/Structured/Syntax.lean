import CogolToolchain.Proofs.Grammar.Declarator
import CogolToolchain.Source.Operator

/-!
Structured programs as they are written: declarations, assignments, and the blocks `if`, `else`,
`while` and `do`, nested in any way. There are no subroutines. `Body.tokens` writes a program out.
-/

namespace CogolToolchain

def Comparison.token : Comparison → Token
  | lt => "<"
  | le => "<="
  | gt => ">"
  | ge => ">="
  | eq => "=="
  | ne => "!="

@[simp] lemma Comparison.ofToken?_token (op : Comparison) : ofToken? op.token = some op := by
  cases op <;> rfl

namespace Structured

open Grammar

/-- A condition: `(a op b)`, or `(a)`, which asks whether `a` is not zero. -/
inductive Guard where
  | nonzero (a : Ref)
  | compare (a : Ref) (op : Comparison) (b : Ref)
  deriving DecidableEq, Repr

namespace Guard

def tokens : Guard → List Token
  | nonzero a => "(" :: a.tokens ++ [")"]
  | compare a op b => "(" :: a.tokens ++ op.token :: b.tokens ++ [")"]

def IsValid : Guard → Prop
  | nonzero a => a.IsValid
  | compare a _ b => a.IsValid ∧ b.IsValid

instance : (g : Guard) → Decidable g.IsValid
  | nonzero a => inferInstanceAs (Decidable a.IsValid)
  | compare a _ b => inferInstanceAs (Decidable (a.IsValid ∧ b.IsValid))

end Guard

inductive Operator where
  | product
  /-- A token that stands for an operation of the machine. -/
  | single (token : Token) (opcode : Opcode)
  deriving DecidableEq, Repr

namespace Operator

def token : Operator → Token
  | product => "*"
  | single token _ => token

def IsValid : Operator → Prop
  | product => True
  | single token opcode => Opcode.ofOperator? token = some opcode

instance : (op : Operator) → Decidable op.IsValid
  | product => isTrue trivial
  | single token opcode => inferInstanceAs (Decidable (Opcode.ofOperator? token = some opcode))

end Operator

inductive Assign where
  | copy (dest a : Ref)
  | choose (dest a x : Ref) (op : Comparison) (y : Ref)
  | combine (dest a : Ref) (op : Operator) (b : Ref)
  | negate (dest b : Ref)
  | update (dest : Ref) (op : Operator) (b : Ref)
  | increment (dest : Ref)
  | decrement (dest : Ref)
  deriving DecidableEq, Repr

namespace Assign

def tail : Assign → List Token
  | copy _ a => "=" :: a.tokens ++ [";"]
  | choose _ a x op y => "=" :: a.tokens ++ "if" :: x.tokens ++ op.token :: y.tokens ++ [";"]
  | combine _ a op b => "=" :: a.tokens ++ op.token :: b.tokens ++ [";"]
  | negate _ b => "=" :: "-" :: b.tokens ++ [";"]
  | update _ op b => (op.token ++ "=") :: b.tokens ++ [";"]
  | increment _ => ["++", ";"]
  | decrement _ => ["--", ";"]

def dest : Assign → Ref
  | copy dest _ | choose dest _ _ _ _ | combine dest _ _ _ | negate dest _ | update dest _ _
  | increment dest | decrement dest => dest

def tokens (s : Assign) : List Token := s.dest.tokens ++ s.tail

def keywords : List Token := [";", "call", "my", "if", "while", "do", "\x7d", "sub", "return"]

/-- The first operand does not start with a minus, which would be an operator there. -/
def IsFirst (a : Ref) : Prop := a.IsValid ∧ Tokens.peek a.tokens ≠ "-"

instance (a : Ref) : Decidable (IsFirst a) := inferInstanceAs (Decidable (_ ∧ _))

def HasTail : Assign → Prop
  | copy _ a => IsFirst a
  | choose _ a x _ y => IsFirst a ∧ x.IsValid ∧ y.IsValid
  | combine _ a op b => IsFirst a ∧ op.IsValid ∧ b.IsValid
  | negate _ b => b.IsValid
  | update _ op b => op.IsValid ∧ b.IsValid
  | increment _ | decrement _ => True

instance : (s : Assign) → Decidable s.HasTail
  | copy _ a => inferInstanceAs (Decidable (IsFirst a))
  | choose _ a x _ y => inferInstanceAs (Decidable (IsFirst a ∧ x.IsValid ∧ y.IsValid))
  | combine _ a op b => inferInstanceAs (Decidable (IsFirst a ∧ op.IsValid ∧ b.IsValid))
  | negate _ b => inferInstanceAs (Decidable b.IsValid)
  | update _ op b => inferInstanceAs (Decidable (op.IsValid ∧ b.IsValid))
  | increment _ | decrement _ => isTrue trivial

def IsValid (s : Assign) : Prop :=
  s.dest.IsValid ∧ Tokens.peek s.dest.tokens ∉ keywords ∧ s.HasTail

instance (s : Assign) : Decidable s.IsValid := inferInstanceAs (Decidable (_ ∧ _ ∧ _))

end Assign

def declTokens (d : Decl) : List Token := "my" :: d.name :: d.form ++ [";"]

/-- A sequence of statements. The words between a condition and its brace name a block. -/
inductive Body where
  | done
  | empty (rest : Body)
  | declare (d : Decl) (rest : Body)
  | assign (a : Assign) (rest : Body)
  | ifThen (guard : Guard) (suffix : List Token) (yes rest : Body)
  | ifElse (guard : Guard) (suffix : List Token) (yes : Body) (suffix' : List Token)
      (no rest : Body)
  | whileLoop (guard : Guard) (suffix : List Token) (body rest : Body)
  | doWhile (suffix : List Token) (body : Body) (guard : Guard) (rest : Body)
  deriving DecidableEq, Repr

def opening (suffix : List Token) : List Token := suffix ++ ["\x7b"]

namespace Body

def tokens : Body → List Token
  | done => []
  | empty rest => ";" :: rest.tokens
  | declare d rest => declTokens d ++ rest.tokens
  | assign a rest => a.tokens ++ rest.tokens
  | ifThen guard suffix yes rest =>
    "if" :: guard.tokens ++ opening suffix ++ yes.tokens ++ "\x7d" :: rest.tokens
  | ifElse guard suffix yes suffix' no rest =>
    "if" :: guard.tokens ++ opening suffix ++ yes.tokens ++ "\x7d" :: "else" :: opening suffix' ++
      no.tokens ++ "\x7d" :: rest.tokens
  | whileLoop guard suffix body rest =>
    "while" :: guard.tokens ++ opening suffix ++ body.tokens ++ "\x7d" :: rest.tokens
  | doWhile suffix body guard rest =>
    "do" :: opening suffix ++ body.tokens ++ "\x7d" :: "while" :: guard.tokens ++ ";" :: rest.tokens

/-- The statements are well written. What follows an `if` block is not taken for its `else`. -/
def IsValid : Body → Prop
  | done => True
  | empty rest => rest.IsValid
  | declare d rest => d.IsValid ∧ rest.IsValid
  | assign a rest => a.IsValid ∧ rest.IsValid
  | ifThen guard suffix yes rest =>
    guard.IsValid ∧ "\x7b" ∉ suffix ∧ yes.IsValid ∧ rest.IsValid ∧ Tokens.peek rest.tokens ≠ "else"
  | ifElse guard suffix yes suffix' no rest =>
    guard.IsValid ∧ "\x7b" ∉ suffix ∧ yes.IsValid ∧ "\x7b" ∉ suffix' ∧ no.IsValid ∧ rest.IsValid
  | whileLoop guard suffix body rest =>
    guard.IsValid ∧ "\x7b" ∉ suffix ∧ body.IsValid ∧ rest.IsValid
  | doWhile suffix body guard rest =>
    "\x7b" ∉ suffix ∧ body.IsValid ∧ guard.IsValid ∧ rest.IsValid

instance : (b : Body) → Decidable b.IsValid
  | done => isTrue trivial
  | empty rest => instDecidableIsValid rest
  | declare d rest =>
    have := instDecidableIsValid rest
    inferInstanceAs (Decidable (d.IsValid ∧ rest.IsValid))
  | assign a rest =>
    have := instDecidableIsValid rest
    inferInstanceAs (Decidable (a.IsValid ∧ rest.IsValid))
  | ifThen guard suffix yes rest =>
    have := instDecidableIsValid yes
    have := instDecidableIsValid rest
    inferInstanceAs (Decidable (guard.IsValid ∧ "\x7b" ∉ suffix ∧ yes.IsValid ∧ rest.IsValid ∧
      Tokens.peek rest.tokens ≠ "else"))
  | ifElse guard suffix yes suffix' no rest =>
    have := instDecidableIsValid yes
    have := instDecidableIsValid no
    have := instDecidableIsValid rest
    inferInstanceAs (Decidable (guard.IsValid ∧ "\x7b" ∉ suffix ∧ yes.IsValid ∧ "\x7b" ∉ suffix' ∧
      no.IsValid ∧ rest.IsValid))
  | whileLoop guard suffix body rest =>
    have := instDecidableIsValid body
    have := instDecidableIsValid rest
    inferInstanceAs (Decidable (guard.IsValid ∧ "\x7b" ∉ suffix ∧ body.IsValid ∧ rest.IsValid))
  | doWhile suffix body guard rest =>
    have := instDecidableIsValid body
    have := instDecidableIsValid rest
    inferInstanceAs (Decidable ("\x7b" ∉ suffix ∧ body.IsValid ∧ guard.IsValid ∧ rest.IsValid))

end Body
end Structured
end CogolToolchain
