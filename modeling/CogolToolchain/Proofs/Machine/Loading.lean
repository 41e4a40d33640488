import CogolToolchain.Proofs.Machine.Run

/-!
Loading code whose operands are all known: nothing can fail, and the machine holds each operand cut
to 16 bits.
-/

namespace CogolToolchain

/-- The operand as the machine holds it; a symbolic one counts as zero. -/
def Operand.word (a : Operand) : WordOperand := ⟨a.mode, UInt16.ofInt (a.value.number?.getD 0)⟩

def Instruction.word (i : Instruction) : WordInstruction :=
  ⟨i.opcode, i.lhs.word, i.rhs.word, i.dest.word⟩

def Instruction.IsResolved (i : Instruction) : Prop := ∀ a ∈ i.operands, a.value.number?.isSome

def Code.IsResolved (code : Code) : Prop := ∀ i ∈ code, i.IsResolved

instance (i : Instruction) : Decidable i.IsResolved := inferInstanceAs (Decidable (∀ a ∈ _, _))

instance (code : Code) : Decidable (Code.IsResolved code) :=
  inferInstanceAs (Decidable (∀ i ∈ code, _))

lemma Operand.load_eq {a : Operand} (h : a.value.number?.isSome) (index : Nat) :
    a.load index = .ok a.word := by
  obtain ⟨n, hn⟩ := Option.isSome_iff_exists.mp h
  simp [Operand.load, Operand.toWord?, Operand.word, hn]

lemma Instruction.load_eq {i : Instruction} (h : i.IsResolved) (index : Nat) :
    i.load index = .ok i.word := by
  simp only [IsResolved, operands, List.mem_cons, List.not_mem_nil, or_false, forall_eq_or_imp,
    forall_eq] at h
  simp only [Instruction.load, Operand.load_eq h.1, Operand.load_eq h.2.1, Operand.load_eq h.2.2]
  rfl

lemma Operand.isSome_of_load {a : Operand} {index : Nat} {w : WordOperand}
    (h : a.load index = .ok w) : a.value.number?.isSome := by
  rcases hn : a.value.number? with _ | n
  · simp [Operand.load, Operand.toWord?, hn] at h
  · rfl

lemma Instruction.isResolved_of_load {i : Instruction} {index : Nat} {w : WordInstruction}
    (h : i.load index = .ok w) : i.IsResolved := by
  simp only [Instruction.load, bind, Except.bind] at h
  split at h
  · simp at h
  · rename_i lhs hlhs
    split at h
    · simp at h
    · rename_i rhs hrhs
      split at h
      · simp at h
      · rename_i dest hdest
        simpa [IsResolved, operands] using ⟨Operand.isSome_of_load hlhs,
          Operand.isSome_of_load hrhs, Operand.isSome_of_load hdest⟩

@[simp] lemma Operand.word_constant (n : Int) :
    (Operand.constant n).word = ⟨.constant, UInt16.ofInt n⟩ := rfl

@[simp] lemma Memory.eval_constant (m : Memory) (w : Word) : m.eval ⟨.constant, w⟩ = w := rfl

lemma Machine.execute_copy (source dest : Operand) (tags : List Label) (m : Memory)
    (display : Array Word) :
    execute { Instruction.copy source dest with tags }.word m display =
      store m display (m.eval dest.word) (m.eval source.word) :=
  execute_of_apply_eq_some display rfl

lemma Machine.execute_nop (m : Memory) (display : Array Word) :
    execute Instruction.nop.word m display = (m, display, none) :=
  execute_of_apply_eq_none display rfl

lemma nop_isResolved : Instruction.nop.IsResolved := by decide

namespace Machine

lemma loadFrom_eq {code : Code} (h : Code.IsResolved code) (index : Nat) :
    loadFrom index code = .ok (code.map Instruction.word) := by
  induction code generalizing index with
  | nil => rfl
  | cons i rest ih =>
    have hi : i.IsResolved := h i (by simp)
    have hrest : Code.IsResolved rest := fun j hj => h j (by simp [hj])
    simp only [loadFrom, Instruction.load_eq hi, ih hrest]
    rfl

/-- The machine that is about to run `code` on `memory`. -/
def boot (code : Code) (memory : Memory) : Machine :=
  { start (code.map Instruction.word).toArray with memory }

lemma load_eq {code : Code} (h : Code.IsResolved code) : load code = .ok (boot code .zero) := by
  simp only [load, loadFrom_eq h]
  rfl

@[simp] lemma boot_program (code : Code) (memory : Memory) :
    (boot code memory).program = (code.map Instruction.word).toArray := rfl

lemma boot_fetch (code : Code) (memory : Memory) :
    (boot (.nop :: code) memory).program[(boot (.nop :: code) memory).next]? =
      some Instruction.nop.word := by
  simp [boot, start]

end Machine
end CogolToolchain
