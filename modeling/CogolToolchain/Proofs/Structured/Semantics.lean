import CogolToolchain.Compile.Declarator
import CogolToolchain.Proofs.Compile.Condition
import CogolToolchain.Proofs.Structured.Syntax

/-!
What a structured program means, statement by statement.

The meaning needs the memory map of the program: a name stands for the cell that the map gives it,
and cells can be reached through pointers. The program counter and the scratch cells are hidden: a
program that reads or writes one of them has no meaning.

All declarations take effect before the first statement. A name means the variable that was declared
last in the text before it.
-/

namespace CogolToolchain
namespace Structured

open Grammar

structure State where
  memory : Memory
  display : Array Word

/-- The state after a cell is written. Cell 1 is the display. -/
def State.store (s : State) (c w : Word) : State :=
  { memory := s.memory.write c w
    display := if c = 1 then s.display.push w else s.display }

inductive Outcome where
  | done (s : State)
  /-- A loop took more rounds than were allowed. -/
  | timeout
  /-- The program did something that has no meaning. -/
  | fault

namespace Outcome

def bind (o : Outcome) (f : State → Outcome) : Outcome :=
  match o with
  | done s => f s
  | timeout => timeout
  | fault => fault

def ofOption : Option State → Outcome
  | some s => done s
  | none => fault

instance : (o : Outcome) → Decidable (o = fault)
  | fault => isTrue rfl
  | done _ | timeout => isFalse nofun

end Outcome

/-! ### Names -/

/-- Whether the cell is the program counter or a scratch cell. -/
def isHidden (map : Array String) (c : Word) : Bool :=
  c == 0 || (List.range map.size).any fun n => map[c.toNat]? == some (scratchName n)

def initialTable : SymbolTable :=
  (({} : SymbolTable).declareWord programCounterName).declareWord displayName

def layout (t : SymbolTable) : Layout := ({} : Scope).layout t

/-- The first cell called `name` beyond those of `t`, with `n` cells after it. -/
def place? (map : Array String) (t : SymbolTable) (name : Token) (n : Nat) : Option Nat :=
  (List.range' t.nextFree (map.size - t.nextFree)).find? fun a =>
    map[a]? == some name && a + n < map.size

/-- The table that goes on to the variable at `a`, which has `n` elements. -/
def extend (map : Array String) (t : SymbolTable) (name : Token) (a n : Nat) (type : VarType) :
    SymbolTable :=
  { cells := map.extract 0 (a + 1 + n), types := (name, type) :: t.types }

/-! ### References and conditions -/

section Values

variable (map : Array String) (t : SymbolTable)

def find? (r : Ref) : Option Reference := r.resolve? (({} : Scope).home? t)

/-- What a reference means in a memory: its word, or the cell that is assigned. -/
def value? (role : Role) (r : Ref) (m : Memory) : Option Word :=
  (find? t r).bind fun ref =>
    if ref.isGrounded role && (ref.reads (layout t) m role).all fun c => !isHidden map c then
      some (ref.meaning (layout t) m role)
    else none

def constant? (r : Ref) : Option Int := r.constant? {} t

/-- Whether a comparison holds. Two constants are compared as numbers. -/
def holds (op : Comparison) (n n' : Option Int) (x y : Word) : Bool :=
  match n, n' with
  | some n, some n' => op.holds n n'
  | _, _ => op.holdsWords x y

def compare? (a : Ref) (op : Comparison) (b : Ref) (m : Memory) : Option Bool := do
  let x ← value? map t .source a m
  let y ← value? map t .source b m
  return holds op (constant? t a) (constant? t b) x y

def Guard.eval? (guard : Guard) (m : Memory) : Option Bool :=
  match guard with
  | nonzero a => (value? map t .source a m).map fun x => holds .ne (constant? t a) (some 0) x 0
  | compare a op b => compare? map t a op b m

end Values

/-! ### Assignments -/

section Assign

variable (map : Array String) (t : SymbolTable)

/-- The cell that a destination means. It may not be a hidden one. -/
def target? (r : Ref) (m : Memory) : Option Word :=
  (value? map t .destination r m).filter fun c => !isHidden map c

/-- A product is built up in its cell, which is written more than once: it cannot go to the display,
nor to a cell through which its own address is found. -/
def canHoldProduct (dest : Ref) (c : Word) (m : Memory) : Bool :=
  c != 1 && (find? t dest).all fun ref => !(ref.reads (layout t) m .destination).contains c

/-- The result of a calculation, for the destination `dest` at the cell `c`. -/
def Operator.result? (op : Operator) (dest : Ref) (c x y : Word) (m : Memory) : Option Word :=
  match op with
  | product => if canHoldProduct t dest c m then some (x * y) else none
  | single _ opcode => opcode.apply x y

def Assign.exec? (a : Assign) (s : State) : Option State :=
  match a with
  | copy dest a => do
    let c ← target? map t dest s.memory
    let x ← value? map t .source a s.memory
    return s.store c x
  | choose dest a x op y => do
    if ← compare? map t x op y s.memory then
      let c ← target? map t dest s.memory
      let w ← value? map t .source a s.memory
      return s.store c w
    else return s
  | combine dest a op b => do
    let c ← target? map t dest s.memory
    let x ← value? map t .source a s.memory
    let y ← value? map t .source b s.memory
    let w ← op.result? t dest c x y s.memory
    return s.store c w
  | negate dest b => do
    let c ← target? map t dest s.memory
    let y ← value? map t .source b s.memory
    return s.store c (0 - y)
  | update dest op b => do
    let c ← target? map t dest s.memory
    let y ← value? map t .source b s.memory
    let w ← op.result? t dest c (s.memory.read c) y s.memory
    return s.store c w
  | increment dest => do
    let c ← target? map t dest s.memory
    return s.store c (s.memory.read c + 1)
  | decrement dest => do
    let c ← target? map t dest s.memory
    return s.store c (s.memory.read c - 1)

end Assign

/-! ### Declarations -/

abbrev Preset := Nat × Int

def elements : Declarator → Nat
  | .word | .wordWithDefault _ => 0
  | .array n values => max n values.length

def typeOf : Declarator → VarType
  | .word | .wordWithDefault _ => .scalar
  | .array .. => .array

/-- The cells that are preset if a variable is at `a`. The cell of an array points to its
elements. -/
def presetsAt (a : Nat) : Declarator → List Preset
  | .word => []
  | .wordWithDefault n => [(a, n)]
  | .array _ values => values.zipIdx.map (fun (v, i) => (a + 1 + i, v)) ++ [(a, (a : Int) + 1)]

def bindDecl? (map : Array String) (t : SymbolTable) (d : Decl) :
    Option (SymbolTable × List Preset) := do
  let x ← d.declarator? (constant? t)
  let a ← place? map t d.name (elements x)
  return (extend map t d.name a (elements x) (typeOf x), presetsAt a x)

def chain (first : Option (SymbolTable × List Preset))
    (second : SymbolTable → Option (SymbolTable × List Preset)) :
    Option (SymbolTable × List Preset) := do
  let (t, p) ← first
  let (t', q) ← second t
  return (t', p ++ q)

lemma chain_eq_some {first : Option (SymbolTable × List Preset)}
    {second : SymbolTable → Option (SymbolTable × List Preset)} {t : SymbolTable}
    {presets : List Preset} : chain first second = some (t, presets) ↔
      ∃ t₁ p q, first = some (t₁, p) ∧ second t₁ = some (t, q) ∧ p ++ q = presets := by
  simp [chain, Option.bind_eq_some_iff]

/-- The table after the declarations of a program, and the cells that they preset. -/
def Body.bind? (map : Array String) : Body → SymbolTable → Option (SymbolTable × List Preset)
  | done, t => some (t, [])
  | empty rest, t | assign _ rest, t => rest.bind? map t
  | declare d rest, t => chain (bindDecl? map t d) (rest.bind? map)
  | ifThen _ _ body rest, t | whileLoop _ _ body rest, t | doWhile _ body _ rest, t =>
    chain (body.bind? map t) (rest.bind? map)
  | ifElse _ _ yes _ no rest, t => chain (chain (yes.bind? map t) (no.bind? map)) (rest.bind? map)

def Body.table (map : Array String) (body : Body) (t : SymbolTable) : SymbolTable :=
  ((body.bind? map t).map Prod.fst).getD t

/-! ### Programs -/

def iterate (test : State → Option Bool) (round : State → Outcome) : Nat → State → Outcome
  | 0, _ => .timeout
  | n + 1, s =>
    match test s with
    | none => .fault
    | some false => .done s
    | some true => (round s).bind (iterate test round n)

/-- The outcome of a program that starts in the state `s`; no loop may take more than `fuel`
rounds. -/
def Body.exec (map : Array String) (fuel : Nat) : Body → SymbolTable → State → Outcome
  | done, _, s => .done s
  | empty rest, t, s => rest.exec map fuel t s
  | declare d rest, t, s => rest.exec map fuel ((declare d done).table map t) s
  | assign a rest, t, s => (Outcome.ofOption (a.exec? map t s)).bind (rest.exec map fuel t)
  | ifThen guard _ yes rest, t, s =>
    let t₁ := yes.table map t
    match guard.eval? map t s.memory with
    | none => .fault
    | some true => (yes.exec map fuel t s).bind (rest.exec map fuel t₁)
    | some false => rest.exec map fuel t₁ s
  | ifElse guard _ yes _ no rest, t, s =>
    let t₁ := yes.table map t
    let t₂ := no.table map t₁
    match guard.eval? map t s.memory with
    | none => .fault
    | some true => (yes.exec map fuel t s).bind (rest.exec map fuel t₂)
    | some false => (no.exec map fuel t₁ s).bind (rest.exec map fuel t₂)
  | whileLoop guard _ body rest, t, s =>
    let t₁ := body.table map t
    (iterate (fun s => guard.eval? map t s.memory) (body.exec map fuel t) fuel s).bind
      (rest.exec map fuel t₁)
  | doWhile _ body guard rest, t, s =>
    let t₁ := body.table map t
    ((body.exec map fuel t s).bind
      (iterate (fun s => guard.eval? map t₁ s.memory) (body.exec map fuel t) fuel)).bind
      (rest.exec map fuel t₁)

def preset (m : Memory) (presets : List Preset) : Memory :=
  presets.foldl (fun m (a, n) => m.write (UInt16.ofNat a) (UInt16.ofInt n)) m

/-- The state in which a program starts. The call stack pointer points behind its own cell. -/
def initial (map : Array String) (presets : List Preset) : State :=
  let call := (SymbolTable.address? { cells := map } callStackName).getD 0
  { memory := (preset .zero presets).write (UInt16.ofNat call) (UInt16.ofNat call + 1),
    display := #[] }

end Structured
end CogolToolchain
