import CogolToolchain.Code.Peephole
import CogolToolchain.Proofs.Machine.Loading
import CogolToolchain.Proofs.Machine.Word

/-!
The simpler form of an instruction does what the instruction does, unless it misjudges a constant
test.

The rewriting decides a constant test on the number, and the machine on the number cut to a word.
The two agree on numbers that fit in a signed word. Where they do not agree, one of the two forms
moves its second operand and the other does nothing (`Peephole.simplify_steps_alike`).
-/

namespace CogolToolchain

def Instruction.TestFits (i : Instruction) : Prop :=
  i.opcode = .mlz ∨ i.opcode = .mnz → ∀ n ∈ i.lhs.constant?, -32768 ≤ n ∧ n ≤ 32767

instance (i : Instruction) : Decidable i.TestFits :=
  inferInstanceAs (Decidable (_ → ∀ n ∈ i.lhs.constant?, _))

/-- A constant that decides a conditional move decides it in the same way as a number and as a
word. -/
def Instruction.TestAgrees (i : Instruction) : Prop :=
  ∀ n ∈ i.lhs.constant?, (i.opcode = .mlz → (n < 0 ↔ 32768 ≤ n % 65536)) ∧
    (i.opcode = .mnz → (n = 0 ↔ n % 65536 = 0))

instance (i : Instruction) : Decidable i.TestAgrees :=
  inferInstanceAs (Decidable (∀ n ∈ i.lhs.constant?, _))

lemma Instruction.TestFits.agrees {i : Instruction} (h : i.TestFits) : i.TestAgrees := by
  refine fun n hn => ⟨fun hop => ?_, fun hop => ?_⟩
  · have hfits := h (.inl hop) n hn
    omega
  · have hfits := h (.inr hop) n hn
    omega

lemma Operand.word_of_constant? {a : Operand} {n : Int} (h : a.constant? = some n) :
    a.word = ⟨.constant, UInt16.ofInt n⟩ := by
  obtain ⟨mode, value⟩ := a
  cases mode <;> simp_all [Operand.constant?, Operand.word]

lemma Operand.eq_constant {a : Operand} {n : Int} (h : a.constant? = some n) :
    a = .constant n := by
  obtain ⟨mode, value⟩ := a
  cases mode <;> cases value <;> simp_all [Operand.constant?, Operand.constant, Value.number?]

@[simp] lemma Operand.constant?_constant (n : Int) : (Operand.constant n).constant? = some n := rfl

/-- Two instructions that the machine cannot tell apart. -/
def Instruction.Equiv (i j : Instruction) : Prop :=
  ∀ m display, Machine.execute i.word m display = Machine.execute j.word m display

namespace Peephole

open Instruction

lemma addNegative_equiv (i : Instruction) : Equiv (addNegative i) i := by
  intro m display
  unfold addNegative
  split
  next n hop hn =>
    simp [Machine.execute, Instruction.word, hop, Opcode.apply, Operand.word_of_constant? hn,
      UInt16.sub_eq_add_neg]
  · rfl

lemma apply_comm {op : Opcode} (h : op.isCommutative) (a b : Word) :
    op.apply a b = op.apply b a := by
  cases op <;> simp_all [Opcode.isCommutative, Opcode.apply]
  · exact UInt16.add_comm a b
  · exact UInt16.and_comm a b
  · exact UInt16.or_comm a b
  · exact UInt16.xor_comm a b

lemma sortOperands_equiv (i : Instruction) : Equiv (sortOperands i) i := by
  intro m display
  unfold sortOperands
  split
  next h =>
    simp only [Bool.and_eq_true] at h
    simp only [Machine.execute, Instruction.word, apply_comm h.1 (m.eval i.rhs.word)]
    rfl
  · rfl

/-! ### Constant tests -/

section Test

variable {i : Instruction} {n : Int}

lemma eval_test (h : i.lhs.constant? = some n) (m : Memory) :
    m.eval i.lhs.word = UInt16.ofInt n := by
  rw [Operand.word_of_constant? h, Memory.eval_constant]

lemma mlz_equiv (hop : i.opcode = .mlz) (h : i.lhs.constant? = some n) :
    Equiv i (if 32768 ≤ n % 65536 then copy i.rhs i.dest else nop) := by
  intro m display
  have happly : i.word.opcode.apply (m.eval i.word.lhs) (m.eval i.word.rhs) =
      if 32768 ≤ n % 65536 then some (m.eval i.rhs.word) else none := by
    simp only [Instruction.word, hop, Opcode.apply, eval_test h, Word.isNegative_ofInt_iff]
  split at happly
  next htest =>
    rw [if_pos htest]
    exact (Machine.execute_of_apply_eq_some display happly).trans
      (Machine.execute_copy i.rhs i.dest [] m display).symm
  next htest =>
    rw [if_neg htest]
    exact (Machine.execute_of_apply_eq_none display happly).trans
      (Machine.execute_nop m display).symm

lemma mnz_equiv (hop : i.opcode = .mnz) (h : i.lhs.constant? = some n) :
    Equiv i (if n % 65536 = 0 then nop else copy i.rhs i.dest) := by
  intro m display
  have happly : i.word.opcode.apply (m.eval i.word.lhs) (m.eval i.word.rhs) =
      if n % 65536 = 0 then none else some (m.eval i.rhs.word) := by
    simp only [Instruction.word, hop, Opcode.apply, eval_test h, Word.ofInt_eq_zero_iff]
  split at happly
  next htest =>
    rw [if_pos htest]
    exact (Machine.execute_of_apply_eq_none display happly).trans
      (Machine.execute_nop m display).symm
  next htest =>
    rw [if_neg htest]
    exact (Machine.execute_of_apply_eq_some display happly).trans
      (Machine.execute_copy i.rhs i.dest [] m display).symm

lemma decideMove_mlz (hop : i.opcode = .mlz) (h : i.lhs.constant? = some n) :
    Equiv (decideMove i) (if n < 0 then copy i.rhs i.dest else nop) := by
  intro m display
  simp only [decideMove, hop, h]
  split <;> rfl

lemma decideMove_mnz (hop : i.opcode = .mnz) (h : i.lhs.constant? = some n) :
    Equiv (decideMove i) (if n = 0 then nop else copy i.rhs i.dest) := by
  intro m display
  simp only [decideMove, hop, h]
  split <;> rfl

lemma decideMove_of_ne (hlz : i.opcode ≠ .mlz) (hnz : i.opcode ≠ .mnz) : decideMove i = i := by
  unfold decideMove
  split <;> simp_all

lemma decideMove_of_constant?_eq_none (h : i.lhs.constant? = none) : decideMove i = i := by
  unfold decideMove
  split <;> simp_all

end Test

lemma decideMove_equiv {i : Instruction} (h : i.TestAgrees) : Equiv (decideMove i) i := by
  intro m display
  rcases htest : i.lhs.constant? with _ | n
  · rw [decideMove_of_constant?_eq_none htest]
  · obtain ⟨hneg, hzero⟩ := h n htest
    by_cases hlz : i.opcode = .mlz
    · rw [decideMove_mlz hlz htest, mlz_equiv hlz htest, if_congr (hneg hlz) rfl rfl]
    · by_cases hnz : i.opcode = .mnz
      · rw [decideMove_mnz hnz htest, mnz_equiv hnz htest, if_congr (hzero hnz) rfl rfl]
      · rw [decideMove_of_ne hlz hnz]

/-- Where number and word do not agree, one form moves the second operand and the other does
nothing. -/
lemma decideMove_of_not_testAgrees {i : Instruction} (h : ¬ i.TestAgrees) :
    Equiv i nop ∧ Equiv (decideMove i) (copy i.rhs i.dest) ∨
      Equiv i (copy i.rhs i.dest) ∧ Equiv (decideMove i) nop := by
  simp only [TestAgrees, not_forall] at h
  obtain ⟨n, htest, h⟩ := h
  by_cases hlz : i.opcode = .mlz
  · have hmachine := mlz_equiv hlz htest
    have hnumber := decideMove_mlz hlz htest
    by_cases hneg : n < 0
    · have hword : ¬ 32768 ≤ n % 65536 := fun hword => h ⟨fun _ => by tauto, by simp [hlz]⟩
      rw [if_neg hword] at hmachine
      rw [if_pos hneg] at hnumber
      exact .inl ⟨hmachine, hnumber⟩
    · have hword : 32768 ≤ n % 65536 := by
        by_contra hword
        exact h ⟨fun _ => by tauto, by simp [hlz]⟩
      rw [if_pos hword] at hmachine
      rw [if_neg hneg] at hnumber
      exact .inr ⟨hmachine, hnumber⟩
  · -- zero is the number and the word zero, so the number is another one
    have hnz : i.opcode = .mnz := by
      by_contra hnz
      exact h ⟨fun hop => absurd hop hlz, fun hop => absurd hop hnz⟩
    have hzero : n ≠ 0 ∧ n % 65536 = 0 := by
      refine ⟨fun hzero => h ⟨by simp [hnz], fun _ => by simp [hzero]⟩, ?_⟩
      by_contra hword
      exact h ⟨by simp [hnz], fun _ => by omega⟩
    have hmachine := mnz_equiv hnz htest
    have hnumber := decideMove_mnz hnz htest
    rw [if_pos hzero.2] at hmachine
    rw [if_neg hzero.1] at hnumber
    exact .inl ⟨hmachine, hnumber⟩

/-! ### The simpler form -/

lemma sortOperands_addNegative_of_test {i : Instruction} (h : i.opcode = .mlz ∨ i.opcode = .mnz) :
    sortOperands (addNegative i) = i := by
  have hadd : addNegative i = i := by
    unfold addNegative
    split <;> simp_all
  rw [hadd, sortOperands, if_neg]
  rcases h with h | h <;> simp [h, Opcode.isCommutative]

lemma testAgrees_sortOperands_addNegative {i : Instruction} :
    (sortOperands (addNegative i)).TestAgrees ↔ i.TestAgrees := by
  by_cases h : i.opcode = .mlz ∨ i.opcode = .mnz
  · rw [sortOperands_addNegative_of_test h]
  · have hop : ¬ ((sortOperands (addNegative i)).opcode = .mlz ∨
        (sortOperands (addNegative i)).opcode = .mnz) := by
      unfold sortOperands addNegative
      split <;> split <;> simp_all
    exact iff_of_true (fun _ _ => ⟨fun hlz => absurd (.inl hlz) hop, fun hnz =>
      absurd (.inr hnz) hop⟩) fun _ _ => ⟨fun hlz => absurd (.inl hlz) h, fun hnz =>
        absurd (.inr hnz) h⟩

lemma simplify_equiv_of_testAgrees {i : Instruction} (h : i.TestAgrees) : Equiv (simplify i) i :=
  fun m display => by
    rw [simplify, decideMove_equiv (testAgrees_sortOperands_addNegative.mpr h), sortOperands_equiv,
      addNegative_equiv]

/-- The simpler form of an instruction does the same, if its constant test fits in a signed word. -/
lemma simplify_equiv {i : Instruction} (h : i.TestFits) : Equiv (simplify i) i :=
  simplify_equiv_of_testAgrees h.agrees

lemma simplify_of_not_testAgrees {i : Instruction} (h : ¬ i.TestAgrees) :
    Equiv i nop ∧ Equiv (simplify i) (copy i.rhs i.dest) ∨
      Equiv i (copy i.rhs i.dest) ∧ Equiv (simplify i) nop := by
  have hop : i.opcode = .mlz ∨ i.opcode = .mnz := by
    by_contra hop
    exact h fun _ _ => ⟨fun hlz => absurd (.inl hlz) hop, fun hnz => absurd (.inr hnz) hop⟩
  rw [simplify, sortOperands_addNegative_of_test hop]
  exact decideMove_of_not_testAgrees h

@[simp] lemma tags_simplify (i : Instruction) : (simplify i).tags = i.tags := by
  have hadd : (addNegative i).tags = i.tags := by
    unfold addNegative
    split <;> rfl
  have hsort : ∀ j, (sortOperands j).tags = j.tags := by
    intro j
    unfold sortOperands
    split <;> rfl
  have hdecide : ∀ j, (decideMove j).tags = j.tags := by
    intro j
    unfold decideMove
    dsimp only
    split
    · split <;> rfl
    · split <;> rfl
    · rfl
  rw [simplify, hdecide, hsort, hadd]

lemma simplify_isResolved {i : Instruction} (h : i.IsResolved) : (simplify i).IsResolved := by
  have hadd : (addNegative i).IsResolved := by
    unfold addNegative
    split
    · simp_all [IsResolved, operands, Operand.constant, Value.number?]
    · exact h
  have hsort : (sortOperands (addNegative i)).IsResolved := by
    unfold sortOperands
    split
    · simp_all [IsResolved, operands]
    · exact hadd
  unfold simplify decideMove
  split
  · split
    · simp_all [IsResolved, operands, Operand.constant, Value.number?]
    · exact nop_isResolved
  · split
    · exact nop_isResolved
    · simp_all [IsResolved, operands, Operand.constant, Value.number?]
  · exact hsort

end Peephole

/-! ### One step -/

namespace Machine

def replace (m : Machine) (i : WordInstruction) : Machine :=
  { m with program := m.program.setIfInBounds m.next i }

/-- With `i` or with `j` where it stands, the machine is the same after one step, its program
apart. -/
def SameStep (m : Machine) (i j : WordInstruction) : Prop :=
  { (m.replace i).step with program := m.program } =
    { (m.replace j).step with program := m.program }

lemma step_replace {m : Machine} (h : ¬ m.isHalted) (i : WordInstruction) :
    { (m.replace i).step with program := m.program } =
      { memory := (execute i (m.memory.write 0 (UInt16.ofNat m.next)) m.display).1
        program := m.program
        next := m.pending.getD (m.next + 1)
        pending := (execute i (m.memory.write 0 (UInt16.ofNat m.next)) m.display).2.2
        steps := m.steps + 1
        display := (execute i (m.memory.write 0 (UInt16.ofNat m.next)) m.display).2.1 :
        Machine } := by
  have hnext : (m.replace i).program[(m.replace i).next]? = some i := by
    simp only [isHalted, decide_eq_true_eq, Nat.not_le] at h
    simp [replace, h]
  rw [step_eq hnext]
  rfl

lemma sameStep_of_equiv {m : Machine} (h : ¬ m.isHalted) {i j : Instruction} (hij : i.Equiv j) :
    m.SameStep i.word j.word := by
  rw [SameStep, step_replace h, step_replace h, hij]

end Machine

namespace Peephole

open Instruction Machine

/-- The simpler form of an instruction keeps its labels, can be loaded, and does in one step what
the instruction does, if a constant test counts the same as a number and as a word. If it does not,
one of the two forms moves the second operand to the destination and the other does nothing. -/
theorem simplify_steps_alike {c : Instruction} {index : Nat} {w : WordInstruction}
    (hload : c.load index = .ok w) :
    (simplify c).tags = c.tags ∧ ∃ w', (simplify c).load index = .ok w' ∧
      ∀ m : Machine, ¬ m.isHalted → (c.TestAgrees → m.SameStep w' w) ∧
        (¬ c.TestAgrees →
          m.SameStep w nop.word ∧ m.SameStep w' (copy c.rhs c.dest).word ∨
          m.SameStep w (copy c.rhs c.dest).word ∧ m.SameStep w' nop.word) := by
  have hresolved := isResolved_of_load hload
  obtain rfl : c.word = w := Except.ok.inj ((load_eq hresolved index).symm.trans hload)
  refine ⟨tags_simplify c, (simplify c).word, load_eq (simplify_isResolved hresolved) index,
    fun m hm => ⟨fun hagrees => ?_, fun hnot => ?_⟩⟩
  · exact sameStep_of_equiv hm (simplify_equiv_of_testAgrees hagrees)
  · refine (simplify_of_not_testAgrees hnot).imp ?_ ?_
    · exact fun ⟨hidle, hmove⟩ => ⟨sameStep_of_equiv hm hidle, sameStep_of_equiv hm hmove⟩
    · exact fun ⟨hmove, hidle⟩ => ⟨sameStep_of_equiv hm hmove, sameStep_of_equiv hm hidle⟩

/-- A move that tests 40000, which is a negative word. -/
def wideTest : Instruction :=
  { opcode := .mlz, lhs := .constant 40000, rhs := .constant 5, dest := .constant 3 }

/-- The machine moves 5 to cell 3, and with the simpler form it does nothing. -/
theorem simplify_steps_alike_wideTest :
    let m := start #[wideTest.word]
    wideTest.load 0 = .ok wideTest.word ∧ ¬ wideTest.TestAgrees ∧
    m.SameStep wideTest.word (copy (.constant 5) (.constant 3)).word ∧
    m.SameStep (simplify wideTest).word nop.word ∧
    (m.replace wideTest.word).step.memory.read 3 = 5 ∧
    (m.replace (simplify wideTest).word).step.memory.read 3 = 0 := by
  intro m
  have hnot : ¬ wideTest.TestAgrees := by decide
  have hmoved : (m.replace wideTest.word).step.memory.read 3 = 5 := by decide +kernel
  have hkept : (m.replace nop.word).step.memory.read 3 = 0 := by decide +kernel
  have hwide : wideTest.load 0 = .ok wideTest.word := rfl
  obtain ⟨-, w', hload, hsteps⟩ := simplify_steps_alike hwide
  obtain rfl : (simplify wideTest).word = w' := Except.ok.inj hload
  refine ⟨hwide, hnot, ?_⟩
  rcases (hsteps m (by decide)).2 hnot with ⟨hidle, -⟩ | ⟨hmove, hidle⟩
  · have hread := congrArg (fun m' : Machine => m'.memory.read 3) hidle
    exact absurd (hmoved.symm.trans (hread.trans hkept)) (by decide)
  · have hread := congrArg (fun m' : Machine => m'.memory.read 3) hidle
    exact ⟨hmove, hidle, hmoved, hread.trans hkept⟩

end Peephole
end CogolToolchain
