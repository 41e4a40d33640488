import CogolToolchain.Proofs.Machine.Segment
import CogolToolchain.Proofs.Peephole.Threading

/-!
Code that the peephole pass leaves in place.

Additions and copies keep their places, and the simpler form that they are brought into does the
same. A jump is threaded only if nothing is in its delay slot. So code of this kind that is in a
program runs the same way before and after the pass.
-/

namespace CogolToolchain

namespace Machine

lemma step_congr {m : Machine} {p : Array WordInstruction}
    (h : p.map execute = m.program.map execute) :
    ({ m with program := p } : Machine).step = { m.step with program := p } := by
  have hget : (p[m.next]?).map execute = (m.program[m.next]?).map execute := by
    rw [← Array.getElem?_map, ← Array.getElem?_map, h]
  rcases hi : m.program[m.next]? with _ | i
  · rw [hi, Option.map_none, Option.map_eq_none_iff] at hget
    simp only [step, hget, hi]
  · rw [hi, Option.map_some] at hget
    obtain ⟨j, hj, hji⟩ := Option.map_eq_some_iff.mp hget
    simp only [step, hi, hj, hji]

lemma run_congr {m : Machine} {p : Array WordInstruction}
    (h : p.map execute = m.program.map execute) (n : Nat) :
    ({ m with program := p } : Machine).run n = { m.run n with program := p } := by
  induction n generalizing m with
  | zero => rfl
  | succ n ih =>
    have hsize : p.size = m.program.size := by simpa using congrArg Array.size h
    by_cases hhalt : m.isHalted
    · have hhalt' : ({ m with program := p } : Machine).isHalted := by
        simpa [isHalted, hsize] using hhalt
      rw [run_of_halted hhalt, run_of_halted hhalt']
    · have hhalt' : ¬ ({ m with program := p } : Machine).isHalted := by
        simpa [isHalted, hsize] using hhalt
      rw [run_succ_of_not_halted hhalt, run_succ_of_not_halted hhalt', step_congr h]
      exact ih (by rw [step_program, h])

lemma Leads.congr {prog prog' : List WordInstruction} {n : Nat} {s t : Spot} (hl : Leads prog n s t)
    (h : prog'.map execute = prog.map execute) : Leads prog' n s t := by
  intro steps
  have hprogram : (Instruction.nop.word :: prog').toArray.map execute =
      (standing prog s steps).program.map execute := by
    simp [standing, h]
  have hrun := run_congr hprogram n
  rw [hl steps] at hrun
  exact hrun

end Machine

/-- The instruction adds, or copies without a condition. -/
def Instruction.IsSteady (i : Instruction) : Prop :=
  i.opcode = .add ∨ (i.opcode = .mlz ∧ i.lhs = .constant (-1))

lemma Instruction.IsSteady.testFits {i : Instruction} (h : i.IsSteady) : i.TestFits := by
  rcases h with h | ⟨-, hl⟩
  · simp [TestFits, h]
  · intro _ n hn
    rw [hl, Operand.constant?_constant] at hn
    cases hn
    decide

namespace Peephole

open Machine Threading

section

variable {i : Instruction} {code part : Code} {landings : List Nat} {k : Nat}

lemma simplify_of_add (h : i.opcode = .add) : (simplify i).opcode = .add := by
  have hfirst : addNegative i = i := by simp [addNegative, h]
  rw [simplify, hfirst, sortOperands]
  split <;> simp [decideMove, h]

lemma simplify_of_copy (h : i.opcode = .mlz) (hl : i.lhs = .constant (-1)) : simplify i = i := by
  have hfirst : addNegative i = i := by simp [addNegative, h]
  have hsort : sortOperands i = i := by simp [sortOperands, h, Opcode.isCommutative]
  rw [simplify, hfirst, hsort, decideMove]
  obtain ⟨opcode, lhs, rhs, dest, tags⟩ := i
  subst h hl
  rfl

lemma isNop_simplify (h : i.IsSteady) : (simplify i).isNop = false := by
  rcases h with h | ⟨h, hl⟩
  · simp [Instruction.isNop, simplify_of_add h]
  · rw [simplify_of_copy h hl, Instruction.isNop, hl]
    simp [Operand.isZero]

lemma getElem?_optimize (landings : List Nat) (hi : code[k]? = some i) (hsteady : i.IsSteady)
    (hnext : (simplify i).jumpTarget?.isSome → ∃ j, code[k + 1]? = some j ∧ j.IsSteady) :
    (optimize code landings)[k]? = some (simplify i) := by
  obtain ⟨target, h⟩ := exists_records (code.map simplify).toArray landings (code.length - 1)
  have hsource : ∀ {n : Nat} {j}, code[n]? = some j → (code.map simplify).toArray[n]? =
      some (simplify j) := by
    intro n j hj
    simp [hj]
  have hk : target k = none := by
    by_contra hne
    obtain ⟨n, hn⟩ := Option.ne_none_iff_exists'.mp hne
    obtain ⟨tags, hjump, -⟩ := h.jump k n hn
    rw [hsource hi, Option.some.injEq] at hjump
    obtain ⟨j, hj, hj'⟩ := hnext (by rw [hjump]; rfl)
    have hslot := h.slot k n hn
    rw [hsource hj, Option.any_some, isNop_simplify hj'] at hslot
    exact Bool.false_ne_true hslot
  have hbefore : ∀ j, k = j + 1 → target j = none := by
    rintro j rfl
    by_contra hne
    obtain ⟨n, hn⟩ := Option.ne_none_iff_exists'.mp hne
    have hslot := h.slot j n hn
    rw [hsource hi, Option.any_some, isNop_simplify hsteady] at hslot
    exact Bool.false_ne_true hslot
  rw [optimize, Array.getElem?_toList, h.kept k hk hbefore, hsource hi]

/-- Steady code that does not end in a jump is simplified in place. -/
lemma optimize_part (landings : List Nat) (hpart : part <+: code.drop k)
    (hsteady : ∀ i ∈ part, i.IsSteady) (hlast : ∀ i, part.getLast? = some i → i.opcode = .add) :
    ((optimize code landings).drop k).take part.length = part.map simplify := by
  have hget : ∀ {j : Nat} {i}, part[j]? = some i → code[k + j]? = some i := by
    intro j i hj
    obtain ⟨rest, hrest⟩ := hpart
    rw [← List.getElem?_drop, ← hrest, List.getElem?_append_left
      (List.getElem?_eq_some_iff.mp hj).1, hj]
  refine List.ext_getElem? fun j => ?_
  rcases Nat.lt_or_ge j part.length with hj | hj
  · obtain ⟨i, hi⟩ : ∃ i, part[j]? = some i := ⟨_, List.getElem?_eq_getElem hj⟩
    rw [List.getElem?_take_of_lt hj, List.getElem?_drop, List.getElem?_map, hi, Option.map_some]
    refine getElem?_optimize landings (hget hi) (hsteady i (List.mem_of_getElem? hi))
      fun hjump => ?_
    rcases Nat.lt_or_ge (j + 1) part.length with hj' | hj'
    · obtain ⟨i', hi'⟩ : ∃ i', part[j + 1]? = some i' := ⟨_, List.getElem?_eq_getElem hj'⟩
      exact ⟨i', hget hi', hsteady i' (List.mem_of_getElem? hi')⟩
    · have hadd := hlast i (by rw [List.getLast?_eq_getElem?, ← hi]; congr 1; omega)
      simp [Instruction.jumpTarget?, simplify_of_add hadd] at hjump
  · rw [List.getElem?_eq_none (by simp; omega), List.getElem?_eq_none (by simpa using hj)]

/-- Steady code that does not end in a jump does in the program after the pass what it does
before. -/
theorem exists_sits_optimize (landings : List Nat) (hpart : part <+: code.drop k)
    (hsteady : ∀ i ∈ part, i.IsSteady) (hlast : ∀ i, part.getLast? = some i → i.opcode = .add) :
    ∃ prog, Sits prog k (part.map Instruction.word) ∧
      ((optimize code landings).map Instruction.word).map execute = prog.map execute := by
  have hmiddle := optimize_part landings hpart hsteady hlast
  generalize optimize code landings = out at hmiddle
  have hlength : k ≤ out.length ∨ part = [] := by
    by_contra hne
    obtain ⟨hk, hne⟩ := not_or.mp hne
    have hdrop : out.drop k = [] := List.drop_eq_nil_of_le (by omega)
    simp [hdrop, eq_comm, hne] at hmiddle
  rcases hlength with hk | rfl
  · refine ⟨(out.take k).map Instruction.word ++ (part.map Instruction.word ++
      ((out.drop k).drop part.length).map Instruction.word), ?_, ?_⟩
    · rw [Sits, List.drop_left' (by simp [hk])]
      exact List.prefix_append _ _
    · have hsame : ((part.map simplify).map Instruction.word).map execute =
          (part.map Instruction.word).map execute := by
        simp only [List.map_map, List.map_inj_left]
        intro i hi
        funext m display
        exact simplify_equiv (hsteady i hi).testFits m display
      conv_lhs => rw [← List.take_append_drop k out,
        ← List.take_append_drop part.length (out.drop k)]
      simp only [List.map_append, hmiddle, hsame]
  · exact ⟨_, sits_nil _ _, rfl⟩

end

end Peephole
end CogolToolchain
