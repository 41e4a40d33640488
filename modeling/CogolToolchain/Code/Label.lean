/-!
# Blocks and labels

A block of the source (`if`, `else`, `while`, `do` or `sub`) has a number of its own and a suffix
that the source gives it. A label marks one instruction; an operand that refers to a label stands
for the index of the instruction that carries it.
-/

namespace CogolToolchain

inductive BlockKind where
  | ifThen
  | elseThen
  | whileLoop
  | doWhile
  | sub
  deriving DecidableEq, Repr

def BlockKind.title : BlockKind → String
  | .ifThen => "If"
  | .elseThen => "Else"
  | .whileLoop => "While"
  | .doWhile => "DoWhile"
  | .sub => "Sub"

/-- A block. The number alone tells blocks apart; the suffix is for the reader of a listing. -/
structure Block where
  kind : BlockKind
  id : Nat
  suffix : String
  deriving DecidableEq, Repr

/-- The name of a block, such as `While3_x`. -/
def Block.name (b : Block) : String := b.kind.title ++ toString b.id ++ b.suffix

inductive Label where
  /-- The instruction that a block starts after, or with. -/
  | begin (block : Block)
  /-- The last instruction of a block. -/
  | finish (block : Block)
  /-- The instruction after which a call resumes. -/
  | callReturn (id : Nat) (sub : String)
  /-- The last instruction of a multiplication. -/
  | multiplyEnd (id : Nat)
  /-- The instruction that sets up the call stack. -/
  | preloadCallStack
  deriving DecidableEq, Repr

def Label.text : Label → String
  | .begin b => "begin" ++ b.name
  | .finish b => "end" ++ b.name
  | .callReturn id sub => "call" ++ toString id ++ "_" ++ sub
  | .multiplyEnd id => "endMult" ++ toString id
  | .preloadCallStack => "preloadCallStack"

end CogolToolchain
