/-!
# The memory of the machine

65536 cells of 16 bits. Every word is an address.
-/

namespace CogolToolchain

/-- A machine word, which is also an address. -/
abbrev Word := UInt16

structure Memory where
  cells : Vector Word 65536

namespace Memory

def zero : Memory := ⟨Vector.replicate 65536 0⟩

def read (m : Memory) (a : Word) : Word := getElem m.cells a.toNat a.toNat_lt

def write (m : Memory) (a w : Word) : Memory := ⟨m.cells.set a.toNat w a.toNat_lt⟩

/-- The word at the end of a chain of `n` pointers that starts at `w`. -/
def follow (m : Memory) : Nat → Word → Word
  | 0, w => w
  | n + 1, w => m.follow n (m.read w)

def nonzero (m : Memory) : List (Nat × Word) :=
  (m.cells.toList.zipIdx.filter fun (w, _) => w != 0).map fun (w, a) => (a, w)

theorem read_write (m : Memory) (a b w : Word) :
    (m.write a w).read b = if a = b then w else m.read b := by
  have h : a = b ↔ a.toNat = b.toNat := ⟨fun h => h ▸ rfl, UInt16.toNat_inj.mp⟩
  simp only [read, write, Vector.getElem_set, h]

end Memory
end CogolToolchain
