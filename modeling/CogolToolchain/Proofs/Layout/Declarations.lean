import CogolToolchain.Proofs.Layout.SymbolTable
import Mathlib.Logic.Function.Basic

/-!
Symbol tables as declarations fill them.

A table has one list of names, and an address is found by looking for the name from the end. The
same table can be kept as a `Register`: an index of addresses in which a name that is bound again is
overwritten, beside a map of memory to which names are only added. Whatever is declared, the two
agree (`SymbolTable.declare_register`), also if a name is declared more than once or is that of an
element of an array. The main statement is `SymbolTable.cells_claimed_once`.
-/

namespace CogolToolchain

inductive Declaration where
  | word (name : String)
  | array (name : String) (size initialized : Nat)
  deriving DecidableEq, Repr

namespace Declaration

def name : Declaration → String
  | word name => name
  | array name _ _ => name

def width : Declaration → Nat
  | word _ => 1
  | array _ size initialized => 1 + max size initialized

def names : Declaration → List String
  | word name => [name]
  | array name size initialized =>
    name :: (List.range (max size initialized)).map (SymbolTable.elementName name)

@[simp] lemma length_names (d : Declaration) : d.names.length = d.width := by
  cases d with
  | word => rfl
  | array => simp [names, width, Nat.add_comm]

end Declaration

/-! ### Registers -/

/-- A symbol table as two structures and a counter. -/
structure Register where
  /-- The address of each name. -/
  index : String → Option Nat := fun _ => none
  /-- The names that are bound to each address. -/
  memory : List (List String) := []
  nextFree : Nat := 0

namespace Register

/-- Binds a name to an address. The memory is extended up to the address, and the name loses the
address that it had. -/
def bind (r : Register) (name : String) (a : Nat) : Register :=
  { index := Function.update r.index name (some a)
    memory := (r.memory ++ List.replicate (a + 1 - r.memory.length) []).modify a (· ++ [name])
    nextFree := max r.nextFree (a + 1) }

def declare (r : Register) : Declaration → Nat × Register
  | .word name => (r.nextFree, r.bind name r.nextFree)
  | .array name size initialized =>
    (r.nextFree, (List.range (max size initialized)).foldl
      (fun r' i => r'.bind (SymbolTable.elementName name i) (r.nextFree + 1 + i))
      (r.bind name r.nextFree))

def declareAll (ds : List Declaration) : Register := ds.foldl (fun r d => (r.declare d).2) {}

end Register

/-! ### Tables and registers -/

namespace SymbolTable

variable {t t' : SymbolTable} {name name' : String} {a : Nat}

def declare (t : SymbolTable) : Declaration → SymbolTable
  | .word name => t.declareWord name
  | .array name size initialized => t.declareArray name size initialized

def declareAll (ds : List Declaration) : SymbolTable := ds.foldl declare {}

def register (t : SymbolTable) : Register where
  index := t.address?
  memory := t.cells.toList.map ([·])
  nextFree := t.nextFree

lemma register_congr (h : t.cells = t'.cells) : t.register = t'.register := by
  have hindex : t.address? = t'.address? := funext fun _ => address?_congr h
  simp [register, hindex, nextFree, h]

lemma address?_declareWord_ne (h : name' ≠ name) : (t.declareWord name).address? name' =
    t.address? name' :=
  (t.extends_declareWord name).address? fun _ hb hcell => h (getElem?_declareWord_ge hb hcell).2

lemma bind_register (t : SymbolTable) (name : String) :
    t.register.bind name t.nextFree = (t.declareWord name).register := by
  have hindex : Function.update t.address? name (some t.nextFree) =
      (t.declareWord name).address? := by
    funext name'
    by_cases hname : name' = name
    · rw [hname, Function.update_self, address?_declareWord]
    · rw [Function.update_of_ne hname, address?_declareWord_ne hname]
  have hmemory : (t.cells.toList.map ([·]) ++ [[]]).modify t.nextFree (· ++ [name]) =
      t.cells.toList.map ([·]) ++ [[name]] := by
    rw [List.modify_eq_take_cons_drop (by simp [nextFree])]
    simp [nextFree]
  have hone : t.nextFree + 1 - (t.cells.toList.map ([·])).length = 1 := by simp [nextFree]
  simp only [Register.bind, register, hindex, hone, List.replicate_one, hmemory,
    nextFree_declareWord]
  simp [declareWord]

lemma toList_foldl_declareWord (t : SymbolTable) (names : List String) :
    (names.foldl declareWord t).cells.toList = t.cells.toList ++ names := by
  induction names generalizing t with
  | nil => simp
  | cons name names ih =>
    rw [List.foldl_cons, ih]
    simp [declareWord]

lemma bind_elements (t : SymbolTable) (name : String) (n : Nat) :
    (List.range n).foldl (fun r i => r.bind (elementName name i) (t.nextFree + i)) t.register =
      (((List.range n).map (elementName name)).foldl declareWord t).register := by
  induction n with
  | zero => rfl
  | succ n ih =>
    have hnext : (((List.range n).map (elementName name)).foldl declareWord t).nextFree =
        t.nextFree + n := by
      rw [nextFree, ← Array.length_toList, toList_foldl_declareWord]
      simp [nextFree]
    have hbind := bind_register (((List.range n).map (elementName name)).foldl declareWord t)
      (elementName name n)
    rw [hnext] at hbind
    rw [List.range_succ, List.foldl_append, ih, List.map_append, List.foldl_append]
    exact hbind

/-- A declaration gets the next free address, and the register of a table is that of the table after
it. -/
theorem declare_register (t : SymbolTable) (d : Declaration) :
    t.register.declare d = (t.nextFree, (t.declare d).register) := by
  cases d with
  | word name => exact congrArg (Prod.mk t.nextFree) (bind_register t name)
  | array name size initialized =>
    have helements := bind_elements (t.declareWord name) name (max size initialized)
    have hcells : (((List.range (max size initialized)).map (elementName name)).foldl declareWord
        (t.declareWord name)).cells = (t.declareArray name size initialized).cells := by
      apply Array.toList_inj.mp
      rw [toList_foldl_declareWord, toList_declareArray]
      simp [declareWord]
    rw [nextFree_declareWord, register_congr hcells, ← bind_register] at helements
    exact congrArg (Prod.mk t.nextFree) helements

lemma register_declareAll (ds : List Declaration) :
    Register.declareAll ds = (declareAll ds).register := by
  have hrun : ∀ t : SymbolTable,
      ds.foldl (fun r d => (r.declare d).2) t.register = (ds.foldl declare t).register := by
    induction ds with
    | nil => exact fun t => rfl
    | cons d ds ih =>
      intro t
      rw [List.foldl_cons, List.foldl_cons, declare_register]
      exact ih (t.declare d)
  exact hrun {}

/-! ### Cells and addresses -/

lemma toList_declare (t : SymbolTable) (d : Declaration) :
    (t.declare d).cells.toList = t.cells.toList ++ d.names := by
  cases d with
  | word name => simp [declare, declareWord, Declaration.names]
  | array name size initialized => exact toList_declareArray t name size initialized

lemma nextFree_declare (t : SymbolTable) (d : Declaration) :
    (t.declare d).nextFree = t.nextFree + d.width := by
  cases d with
  | word name => exact nextFree_declareWord t name
  | array name size initialized =>
    rw [declare, nextFree_declareArray, Declaration.width, Nat.add_assoc]

lemma address?_declare (t : SymbolTable) (d : Declaration) :
    (t.declare d).address? d.name = some t.nextFree := by
  cases d with
  | word name => exact address?_declareWord t name
  | array name size initialized => exact address?_declareArray t name size initialized

lemma extends_foldl_declare (t : SymbolTable) (ds : List Declaration) :
    t.Extends (ds.foldl declare t) := by
  induction ds generalizing t with
  | nil => exact .refl t
  | cons d ds ih =>
    refine Extends.trans ?_ (ih (t.declare d))
    rw [Extends, toList_declare]
    exact List.prefix_append _ _

lemma address?_eq_some : t.address? name = some a ↔
    t.cells[a]? = some name ∧ ∀ b, a < b → t.cells[b]? ≠ some name := by
  rw [address?, searchBelow_eq_some]
  constructor
  · rintro ⟨-, hcell, hlast⟩
    refine ⟨hcell, fun b hab hb => hlast b hab ?_ hb⟩
    exact (Array.getElem?_eq_some_iff.mp hb).1
  · rintro ⟨hcell, hlast⟩
    exact ⟨(Array.getElem?_eq_some_iff.mp hcell).1, hcell, fun b hab _ => hlast b hab⟩

lemma address?_eq_none : t.address? name = none ↔ ∀ a : Nat, t.cells[a]? ≠ some name := by
  rw [address?, searchBelow_eq_none]
  refine ⟨fun hnone a ha => hnone a ?_ ha, fun hnone a _ => hnone a⟩
  exact (Array.getElem?_eq_some_iff.mp ha).1

lemma Extends.address?_of_lt (h : t.Extends t') (ha : a < t.nextFree)
    (hname : t'.address? name = some a) : t.address? name = some a := by
  rw [address?_eq_some] at hname ⊢
  refine ⟨by rw [← h.getElem? ha]; exact hname.1, fun b hab hb => hname.2 b hab ?_⟩
  exact h.getElem?_eq_some hb

lemma getElem?_memory (t : SymbolTable) (a : Nat) (name : String) :
    t.register.memory[a]? = some [name] ↔ t.cells[a]? = some name := by
  rw [register, List.getElem?_map, Array.getElem?_toList, Option.map_eq_some_iff]
  simp

/-- Whatever is declared, every cell has one name. A declaration gets the next free address and as
many new cells as it has names, and a name means the last cell that has it. So different names have
different addresses, and an address that is given out stays with its name. -/
theorem cells_claimed_once (ds : List Declaration) :
    let t := declareAll ds
    let r := Register.declareAll ds
    r = t.register ∧
    (r.memory.length = r.nextFree ∧ ∀ entry ∈ r.memory, ∃ name, entry = [name]) ∧
    (∀ d, (r.declare d).1 = r.nextFree ∧ (r.declare d).2 = (t.declare d).register ∧
      (r.declare d).2.memory = r.memory ++ d.names.map ([·]) ∧
      (r.declare d).2.nextFree = r.nextFree + d.width ∧ (r.declare d).2.index d.name =
      some r.nextFree) ∧
    (∀ name a, r.index name = some a ↔
      r.memory[a]? = some [name] ∧ ∀ b, a < b → r.memory[b]? ≠ some [name]) ∧
    (∀ name, r.index name = none ↔ ∀ a : Nat, r.memory[a]? ≠ some [name]) ∧
    (∀ name name' a, r.index name = some a → r.index name' = some a → name = name') ∧
    ∀ es a, a < r.nextFree →
      (Register.declareAll (ds ++ es)).memory[a]? = r.memory[a]? ∧
      ∀ name, (Register.declareAll (ds ++ es)).index name = some a → r.index name = some a := by
  intro t r
  have hr : r = t.register := register_declareAll ds
  rw [hr]
  refine ⟨rfl, ⟨by simp [register, nextFree], by simp [register]⟩, fun d => ?_, fun name a => ?_,
    fun name => ?_, fun name name' a hname hname' => ?_, fun es a ha => ?_⟩
  · have hmemory : (t.declare d).register.memory = t.register.memory ++ d.names.map ([·]) := by
      simp [register, toList_declare]
    rw [declare_register]
    exact ⟨rfl, rfl, hmemory, nextFree_declare t d, address?_declare t d⟩
  · simp only [ne_eq, getElem?_memory]
    exact address?_eq_some
  · simp only [ne_eq, getElem?_memory]
    exact address?_eq_none
  · have hcell := getElem?_of_address? (t := t) hname
    rw [getElem?_of_address? (t := t) hname', Option.some.injEq] at hcell
    exact hcell.symm
  · have hextends : t.Extends (declareAll (ds ++ es)) := by
      rw [declareAll, List.foldl_append]
      exact extends_foldl_declare t es
    rw [register_declareAll]
    refine ⟨?_, fun name hname => hextends.address?_of_lt ha hname⟩
    simp only [register, List.getElem?_map, Array.getElem?_toList]
    rw [hextends.getElem? ha]

/-- A word that has the name of an element takes it over. -/
example : (declareAll [.array "a" 2 0, .word "a[1]"]).address? "a[1]" = some 3 ∧
    (declareAll [.array "a" 2 0, .word "a[1]"]).address? "a[0]" = some 1 := by decide +kernel

end SymbolTable
end CogolToolchain
