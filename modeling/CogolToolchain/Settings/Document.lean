/-!
# TOML documents

The tree of tables that a TOML document describes, built up header by header and entry by entry. A
table is defined once: by a header, by the dotted keys of one table, or in passing, as part of the
path of another header, and only in the last case may a header still define it. Of the values, only
numbers and truth values are told apart, since no setting is anything else.
-/

namespace CogolToolchain
namespace Document

inductive Value where
  | integer (n : Int)
  | boolean (b : Bool)
  | other
  deriving DecidableEq, Repr

mutual

inductive Item where
  | value (v : Value)
  | table (t : Table)
  /-- An array of tables, the latest first. -/
  | tables (ts : List Table)

/-- A table. It is `implicit` until a header defines it, and `dotted` if dotted keys made it. -/
inductive Table where
  | mk (implicit dotted : Bool) (entries : List (String × Item))

end

namespace Table

def empty : Table := .mk false false []

def implicit : Table → Bool
  | .mk implicit _ _ => implicit

def dotted : Table → Bool
  | .mk _ dotted _ => dotted

def entries : Table → List (String × Item)
  | .mk _ _ entries => entries

def get? (t : Table) (key : String) : Option Item := t.entries.lookup key

def erase (t : Table) (key : String) : Table :=
  .mk t.implicit t.dotted (t.entries.filter fun entry => entry.1 != key)

def put (t : Table) (key : String) (item : Item) : Table :=
  .mk t.implicit t.dotted ((key, item) :: (t.erase key).entries)

def define (t : Table) : Table := .mk false false t.entries

/-- Changes the table at the end of a path. Tables on the way that are not there are made; a dotted
key does not lead into a table that a header has defined, and no path leads into a value. -/
def descend {α : Type} (dotted : Bool) (change : Table → Option (α × Table)) :
    List String → Table → Option (α × Table)
  | [], t => change t
  | key :: path, t => do
    match t.get? key with
    | none =>
      let (a, child) ← descend dotted change path (.mk true dotted [])
      some (a, t.put key (.table child))
    | some (.table child) =>
      if dotted && !child.implicit then none
      else
        let (a, child) ← descend dotted change path child
        some (a, t.put key (.table child))
    | some (.tables (child :: earlier)) =>
      let (a, child) ← descend dotted change path child
      some (a, t.put key (.tables (child :: earlier)))
    | some _ => none

/-- Adds an entry. Its key, or a table on the way to it, may not be taken; a dotted key ends in a
table that dotted keys have made. -/
def insert (t : Table) (path : List String) (key : String) (v : Value) : Option Table := do
  let add : Table → Option (Unit × Table) := fun t =>
    if t.dotted == path.isEmpty || (t.get? key).isSome then none
    else some ((), t.put key (.value v))
  let (_, t) ← t.descend (!path.isEmpty) add path
  some t

end Table

/-- A document that is read up to some point. The table of the last header is kept apart until the
next header. -/
structure Partial where
  root : Table := .empty
  current : Table := .empty
  /-- The path of the last header; empty before the first one. -/
  path : List String := []
  inArray : Bool := false

namespace Partial

def insert (d : Partial) (path : List String) (key : String) (v : Value) : Option Partial := do
  let current ← d.current.insert path key v
  some { d with current }

/-- The document so far, with the table of the last header in its place. -/
def close (d : Partial) : Option Table :=
  match d.path.reverse with
  | [] => some d.current
  | key :: above => do
    let place : Table → Option (Unit × Table) := fun parent =>
      match parent.get? key, d.inArray with
      | some (.tables ts), true => some ((), parent.put key (.tables (d.current :: ts)))
      | none, true => some ((), parent.put key (.tables [d.current]))
      | none, false => some ((), parent.put key (.table d.current))
      | some (.table t), false =>
        if t.implicit then some ((), parent.put key (.table d.current)) else none
      | _, _ => none
    let (_, root) ← d.root.descend false place above.reverse
    some root

/-- A header `[above.key]`. It defines a table that is not there yet or was only made in passing. -/
def openTable (d : Partial) (above : List String) (key : String) : Option Partial := do
  let take : Table → Option (Table × Table) := fun parent =>
    match parent.get? key with
    | none => some (.empty, parent)
    | some (.table t) => if t.implicit && !t.dotted then some (t.define, parent.erase key) else none
    | some _ => none
  let (current, root) ← (← d.close).descend false take above
  some { root, current, path := above ++ [key], inArray := false }

/-- A header `[[above.key]]`. It adds a table to an array of tables. -/
def openArray (d : Partial) (above : List String) (key : String) : Option Partial := do
  let check : Table → Option (Unit × Table) := fun parent =>
    match parent.get? key with
    | none | some (.tables _) => some ((), parent)
    | some _ => none
  let (_, root) ← (← d.close).descend false check above
  some { root, current := .empty, path := above ++ [key], inArray := true }

end Partial
end Document
end CogolToolchain
