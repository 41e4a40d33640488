import CogolToolchain.Machine.Basic
import Mathlib.Data.Set.Insert
import Mathlib.Tactic.Common

/-!
Runs of the machine, and what an instruction depends on.

An instruction sees only the cells on the way to its three operands. So two memories that agree on
those cells are changed by it in the same way, and agree afterwards wherever they agreed before.
-/

namespace CogolToolchain

namespace Memory

@[simp] lemma read_write_self (m : Memory) (a w : Word) : (m.write a w).read a = w := by
  simp [read_write]

lemma read_write_ne (m : Memory) {a b : Word} (w : Word) (h : a ≠ b) :
    (m.write a w).read b = m.read b := by
  simp [read_write, h]

@[simp] lemma write_write (m : Memory) (a v w : Word) : (m.write a v).write a w = m.write a w := by
  simp [write]

/-- The cells that are read on the way along a chain of `n` pointers from `w` on. -/
def trail (m : Memory) : Nat → Word → List Word
  | 0, _ => []
  | n + 1, w => w :: m.trail n (m.read w)

def path (m : Memory) (a : WordOperand) : List Word := m.trail a.mode.level a.value

lemma follow_congr {m m' : Memory} {n : Nat} {w : Word}
    (h : ∀ a ∈ m.trail n w, m'.read a = m.read a) : m'.follow n w = m.follow n w := by
  induction n generalizing w with
  | zero => rfl
  | succ n ih =>
    simp only [trail, List.mem_cons, forall_eq_or_imp] at h
    rw [follow, follow, h.1, ih h.2]

lemma trail_congr {m m' : Memory} {n : Nat} {w : Word}
    (h : ∀ a ∈ m.trail n w, m'.read a = m.read a) : m'.trail n w = m.trail n w := by
  induction n generalizing w with
  | zero => rfl
  | succ n ih =>
    simp only [trail, List.mem_cons, forall_eq_or_imp] at h
    rw [trail, trail, h.1, ih h.2]

/-- The memories hold the same word in every cell outside `s`. -/
def EqOff (s : Set Word) (m m' : Memory) : Prop := ∀ a, a ∉ s → m'.read a = m.read a

section EqOff

variable {s : Set Word} {m m' m'' : Memory}

@[refl] lemma EqOff.refl (s : Set Word) (m : Memory) : EqOff s m m := fun _ _ => rfl

lemma EqOff.symm (h : EqOff s m m') : EqOff s m' m := fun a ha => (h a ha).symm

lemma EqOff.trans (h : EqOff s m m') (h' : EqOff s m' m'') : EqOff s m m'' := fun a ha =>
  (h' a ha).trans (h a ha)

lemma EqOff.mono {s' : Set Word} (h : EqOff s m m') (hs : s ⊆ s') : EqOff s' m m' := fun a ha =>
  h a fun ha' => ha (hs ha')

lemma EqOff.write (h : EqOff s m m') (a w : Word) : EqOff s (m.write a w) (m'.write a w) := by
  intro b hb
  rw [read_write, read_write, h b hb]

lemma EqOff.write_right (h : EqOff s m m') {a : Word} (ha : a ∈ s) (w : Word) :
    EqOff s m (m'.write a w) := by
  intro b hb
  have hab : a ≠ b := by
    rintro rfl
    exact hb ha
  rw [read_write_ne _ _ hab, h b hb]

lemma EqOff.write_left (h : EqOff s m m') {a : Word} (ha : a ∈ s) (w : Word) :
    EqOff s (m.write a w) m' := (h.symm.write_right ha w).symm

lemma EqOff.write_self (m : Memory) {a : Word} (ha : a ∈ s) (w : Word) : EqOff s m (m.write a w) :=
  (EqOff.refl s m).write_right ha w

lemma EqOff.eval (h : EqOff s m m') {a : WordOperand} (ha : ∀ c ∈ m.path a, c ∉ s) :
    m'.eval a = m.eval a := follow_congr fun c hc => h c (ha c hc)

lemma EqOff.path (h : EqOff s m m') {a : WordOperand} (ha : ∀ c ∈ m.path a, c ∉ s) :
    m'.path a = m.path a := trail_congr fun c hc => h c (ha c hc)

end EqOff
end Memory

/-- The cells that an instruction reads, those on the way to its destination included. -/
def WordInstruction.reads (i : WordInstruction) (m : Memory) : List Word :=
  m.path i.lhs ++ m.path i.rhs ++ m.path i.dest

namespace Machine

def store (m : Memory) (display : Array Word) (target w : Word) :
    Memory × Array Word × Option Nat :=
  (m.write target w, if target = 1 then display.push w else display,
    if target = 0 then some (w.toNat + 1) else none)

lemma execute_of_apply_eq_some {i : WordInstruction} {m : Memory} {w : Word} (display : Array Word)
    (h : i.opcode.apply (m.eval i.lhs) (m.eval i.rhs) = some w) :
    execute i m display = store m display (m.eval i.dest) w := by
  simp only [execute, h, store]

lemma execute_of_apply_eq_none {i : WordInstruction} {m : Memory} (display : Array Word)
    (h : i.opcode.apply (m.eval i.lhs) (m.eval i.rhs) = none) :
    execute i m display = (m, display, none) := by
  simp only [execute, h]

lemma exists_of_execute_jump {i : WordInstruction} {m : Memory} {display : Array Word} {p : Nat}
    (h : (execute i m display).2.2 = some p) :
    ∃ w, i.opcode.apply (m.eval i.lhs) (m.eval i.rhs) = some w ∧ m.eval i.dest = 0 ∧
      p = w.toNat + 1 := by
  rcases happly : i.opcode.apply (m.eval i.lhs) (m.eval i.rhs) with _ | w
  · simp [execute_of_apply_eq_none display happly] at h
  · simp only [execute_of_apply_eq_some display happly, store, ite_eq_iff, Option.some.injEq,
      reduceCtorEq, and_false, or_false] at h
    exact ⟨w, rfl, h.1, h.2.symm⟩

/-- An instruction that reads none of the cells that two memories differ in does the same to
both. -/
lemma execute_eqOff {s : Set Word} {m m' : Memory} {i : WordInstruction} (display : Array Word)
    (h : Memory.EqOff s m m') (hr : ∀ c ∈ i.reads m, c ∉ s) :
    Memory.EqOff s (execute i m display).1 (execute i m' display).1 ∧
      (execute i m' display).2 = (execute i m display).2 := by
  simp only [WordInstruction.reads, List.mem_append] at hr
  have hl := h.eval (a := i.lhs) fun c hc => hr c (by tauto)
  have hb := h.eval (a := i.rhs) fun c hc => hr c (by tauto)
  have hd := h.eval (a := i.dest) fun c hc => hr c (by tauto)
  simp only [execute, hl, hb, hd]
  rcases i.opcode.apply (m.eval i.lhs) (m.eval i.rhs) with _ | w
  · exact ⟨h, rfl⟩
  · exact ⟨h.write _ _, rfl⟩

/-! ### Steps and runs -/

lemma step_eq {m : Machine} {i : WordInstruction} (h : m.program[m.next]? = some i) :
    m.step =
      { memory := (execute i (m.memory.write 0 (UInt16.ofNat m.next)) m.display).1
        program := m.program
        next := m.pending.getD (m.next + 1)
        pending := (execute i (m.memory.write 0 (UInt16.ofNat m.next)) m.display).2.2
        steps := m.steps + 1
        display := (execute i (m.memory.write 0 (UInt16.ofNat m.next)) m.display).2.1 } := by
  simp only [step, h]

lemma isHalted_iff {m : Machine} : m.isHalted = true ↔ m.program[m.next]? = none := by
  simp [isHalted]

@[simp] lemma run_zero (m : Machine) : m.run 0 = m := rfl

lemma run_of_halted {m : Machine} (h : m.isHalted) (n : Nat) : m.run n = m := by
  cases n <;> simp [run, h]

lemma run_succ_of_not_halted {m : Machine} (h : ¬ m.isHalted) (n : Nat) :
    m.run (n + 1) = m.step.run n := by
  simp [run, h]

lemma run_add (m : Machine) (a b : Nat) : m.run (a + b) = (m.run a).run b := by
  induction a generalizing m with
  | zero => simp
  | succ a ih =>
    by_cases h : m.isHalted
    · simp [run_of_halted h]
    · rw [Nat.succ_add, run_succ_of_not_halted h, run_succ_of_not_halted h, ih]

lemma not_isHalted {m : Machine} {i : WordInstruction} (h : m.program[m.next]? = some i) :
    ¬ m.isHalted := by
  simp [isHalted_iff, h]

lemma run_one {m : Machine} {i : WordInstruction} (h : m.program[m.next]? = some i) :
    m.run 1 = m.step := by
  rw [run_succ_of_not_halted (not_isHalted h), run_zero]

/-- A halted machine is what every longer run ends in. -/
lemma run_eq_of_le {m : Machine} {a b : Nat} (h : (m.run a).isHalted) (hab : a ≤ b) :
    m.run b = m.run a := by
  obtain ⟨c, rfl⟩ := Nat.exists_eq_add_of_le hab
  rw [run_add, run_of_halted h]

lemma run_run_of_halted {m : Machine} {n : Nat} (h : (m.run n).isHalted) (k : Nat) :
    (m.run k).run n = m.run n := by
  rw [← run_add, run_eq_of_le h (Nat.le_add_left n k)]

lemma run_eq_of_halted {m : Machine} {a b : Nat} (ha : (m.run a).isHalted)
    (hb : (m.run b).isHalted) : m.run a = m.run b := by
  rcases Nat.le_total a b with h | h
  · exact (run_eq_of_le ha h).symm
  · exact run_eq_of_le hb h

def Halts (m : Machine) : Prop := ∃ n, (m.run n).isHalted

lemma halts_run_iff {m : Machine} (n : Nat) : (m.run n).Halts ↔ m.Halts := by
  constructor
  · rintro ⟨k, hk⟩
    exact ⟨n + k, by rwa [run_add]⟩
  · rintro ⟨k, hk⟩
    exact ⟨k, by rwa [run_run_of_halted hk]⟩

lemma step_program (m : Machine) : m.step.program = m.program := by
  unfold step
  split <;> rfl

@[simp] lemma run_program (m : Machine) (n : Nat) : (m.run n).program = m.program := by
  induction n generalizing m with
  | zero => rfl
  | succ n ih =>
    by_cases h : m.isHalted
    · rw [run_of_halted h]
    · rw [run_succ_of_not_halted h, ih, step_program]

end Machine
end CogolToolchain
