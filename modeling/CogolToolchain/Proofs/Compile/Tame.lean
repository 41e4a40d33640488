import CogolToolchain.Proofs.Compile.Labels

/-!
Code that stays where it is.

The code of a statement other than a call or a return is tame: an instruction does nothing, writes a
scratch cell, or writes the destination of the statement, and the only jumps are those to labels,
each with an instruction of the first kind in its delay slot.
-/

namespace CogolToolchain

open Work Attempt

namespace Instruction

/-- The instruction does nothing, writes one of the scratch cells `pool`, or writes the destination
`dest?`. -/
inductive Mild (pool : List Nat) (dest? : Option Operand) (i : Instruction) : Prop
  | idle (hopcode : i.opcode = .mlz) (hlhs : i.lhs = .constant 0) (hdest : i.dest = .constant 0)
  | scratch {t : Nat} (ht : t ∈ pool) (hdest : i.dest = .cellDest t)
  | store (hdest : dest? = some i.dest) (hknown : i.dest.IsKnown)

/-- The instruction jumps to the label, perhaps on a condition. -/
structure Jumps (l : Label) (offset : Int) (i : Instruction) : Prop where
  opcode : i.opcode = .mlz ∨ i.opcode = .mnz
  rhs : i.rhs = .label l offset
  dest : i.dest = .programCounter

section

variable {pool pool' : List Nat} {dest? : Option Operand} {l : Label} {offset : Int}
  {i : Instruction}

lemma mild_nop (pool : List Nat) (dest? : Option Operand) : Mild pool dest? nop := .idle rfl rfl rfl

lemma Mild.mono {dest?' : Option Operand} (h : i.Mild pool dest?) (hpool : pool ⊆ pool')
    (hdest? : ∀ a ∈ dest?, a ∈ dest?') : i.Mild pool' dest?' := by
  cases h with
  | idle hopcode hlhs hdest => exact .idle hopcode hlhs hdest
  | scratch ht hdest => exact .scratch (hpool ht) hdest
  | store hdest hknown => exact .store (hdest? _ hdest) hknown

lemma Mild.tagged (h : i.Mild pool dest?) (label : Label) : (i.tagged label).Mild pool dest? := by
  cases h with
  | idle hopcode hlhs hdest => exact .idle hopcode hlhs hdest
  | scratch ht hdest => exact .scratch ht hdest
  | store hdest hknown => exact .store hdest hknown

lemma Jumps.tagged (h : i.Jumps l offset) (label : Label) : (i.tagged label).Jumps l offset :=
  ⟨h.opcode, h.rhs, h.dest⟩

lemma jumps_jump (l : Label) (offset : Int) : (jump (.label l offset)).Jumps l offset :=
  ⟨.inl rfl, rfl, rfl⟩

lemma jumps_of_jump? {branch : Branch} (h : branch.jump? (.label l offset) = some i) :
    i.Jumps l offset := by
  cases branch with
  | never => simp [Branch.jump?, Branch.move?] at h
  | always =>
    obtain rfl := Option.some.inj h
    exact jumps_jump l offset
  | ifNegative a =>
    obtain rfl := Option.some.inj h
    exact ⟨.inl rfl, rfl, rfl⟩
  | ifNonZero a =>
    obtain rfl := Option.some.inj h
    exact ⟨.inr rfl, rfl, rfl⟩

end
end Instruction

namespace Code

/-- Every instruction is mild, or jumps to a label that `goes` allows with a mild instruction in its
delay slot. -/
def Tame (pool : List Nat) (dest? : Option Operand) (goes : Label → Int → Prop) (code : Code) :
    Prop :=
  ∀ (j : Nat) i, code[j]? = some i → i.Mild pool dest? ∨ ∃ l offset slot, goes l offset ∧
    i.Jumps l offset ∧ code[j + 1]? = some slot ∧ slot.Mild pool dest?

section

variable {pool pool' : List Nat} {dest? : Option Operand} {goes goes' : Label → Int → Prop}
  {p q : Code} {i slot : Instruction} {l : Label} {offset : Int}

lemma tame_nil : Tame pool dest? goes [] := by simp [Tame]

lemma Tame.cons (hi : i.Mild pool dest?) (hp : p.Tame pool dest? goes) :
    Tame pool dest? goes (i :: p) := by
  intro j i' hj
  cases j with
  | zero =>
    obtain rfl := Option.some.inj hj
    exact .inl hi
  | succ j => exact hp j i' hj

lemma Tame.jump (hi : i.Jumps l offset) (hgoes : goes l offset) (hslot : slot.Mild pool dest?)
    (hp : p.Tame pool dest? goes) : Tame pool dest? goes (i :: slot :: p) := by
  intro j i' hj
  cases j with
  | zero =>
    obtain rfl := Option.some.inj hj
    exact .inr ⟨l, offset, slot, hgoes, hi, rfl, hslot⟩
  | succ j => exact (hp.cons hslot) j i' hj

lemma Tame.append (hp : p.Tame pool dest? goes) (hq : q.Tame pool dest? goes) :
    (p ++ q).Tame pool dest? goes := by
  intro j i hj
  rcases Nat.lt_or_ge j p.length with hlt | hge
  · rw [List.getElem?_append_left hlt] at hj
    refine (hp j i hj).imp_right ?_
    rintro ⟨l, offset, slot, hgoes, hjumps, hslot, hmild⟩
    refine ⟨l, offset, slot, hgoes, hjumps, ?_, hmild⟩
    rw [List.getElem?_append_left (List.getElem?_eq_some_iff.mp hslot).1, hslot]
  · rw [List.getElem?_append_right hge] at hj
    refine (hq _ i hj).imp_right ?_
    rintro ⟨l, offset, slot, hgoes, hjumps, hslot, hmild⟩
    refine ⟨l, offset, slot, hgoes, hjumps, ?_, hmild⟩
    rw [List.getElem?_append_right (by omega), Nat.sub_add_comm hge, hslot]

lemma Tame.mono {dest?' : Option Operand} (h : p.Tame pool dest? goes) (hpool : pool ⊆ pool')
    (hdest? : ∀ a ∈ dest?, a ∈ dest?') (hgoes : ∀ l offset, goes l offset → goes' l offset) :
    p.Tame pool' dest?' goes' := by
  intro j i hj
  rcases h j i hj with hmild | ⟨l, offset, slot, hl, hjumps, hslot, hmild⟩
  · exact .inl (hmild.mono hpool hdest?)
  · exact .inr ⟨l, offset, slot, hgoes l offset hl, hjumps, hslot, hmild.mono hpool hdest?⟩

lemma tame_of_mild (h : ∀ i ∈ p, i.Mild pool dest?) : p.Tame pool dest? goes :=
  fun _ i hj => .inl (h i (List.mem_of_getElem? hj))

end
end Code

/-! ### The code of statements -/

section

variable {scope : Scope} {pool : List Nat} {dest? : Option Operand} {goes : Label → Int → Prop}
  {code : Code} {l : Label} {offset : Int}

lemma Scope.Plain.mild (h : scope.Plain pool code) : ∀ i ∈ code, i.Mild pool dest? := fun i hi => by
  obtain ⟨-, ⟨t, ht, hdest⟩, -⟩ := h i hi
  exact .scratch ht hdest

lemma Scope.Plain.tame (h : scope.Plain pool code) : code.Tame pool dest? goes :=
  Code.tame_of_mild h.mild

namespace Statement

lemma tame_branchTo (branch : Branch) (hgoes : goes l offset) :
    (branchTo branch (.label l offset)).Tame pool dest? goes := by
  unfold branchTo
  split
  · rename_i jump hjump
    exact .jump (Instruction.jumps_of_jump? hjump) hgoes (Instruction.mild_nop _ _) Code.tame_nil
  · exact Code.tame_nil

/-- The bottom of a loop jumps back to its start, and somewhere in it the end of the loop is
marked. -/
structure Loops (pool : List Nat) (block : Block) (bottom : Code) : Prop where
  tame : bottom.Tame pool none fun l offset => l = .begin block ∧ offset = 2
  finish : ∃ (j : Nat) (i : Instruction), bottom[j]? = some i ∧ .finish block ∈ i.tags

lemma loops_loopBottom {block : Block} {condition bottom : Code} {branch : Branch}
    {slot : Instruction} (hc : scope.Plain pool condition)
    (h : loopBottom block condition ((branch.jump? (.label (.begin block) 2)).getD .nop) =
      (slot, bottom)) :
    slot.Mild pool none ∧ Loops pool block bottom := by
  have hmild : ∀ i ∈ condition, i.Mild pool none := hc.mild
  have hnop := Instruction.mild_nop pool none
  -- the jump back, as it stands or with the label
  have hback : ∀ tag : Instruction → Instruction, (∀ i, i.Mild pool none → (tag i).Mild pool none) →
      (∀ i, i.Jumps (.begin block) 2 → (tag i).Jumps (.begin block) 2) →
      Code.Tame pool none (fun l offset => l = .begin block ∧ offset = 2)
        [tag ((branch.jump? (.label (.begin block) 2)).getD .nop), .nop] := by
    intro tag hm hj
    rcases hjump : branch.jump? (.label (.begin block) 2) with _ | jump
    · exact .cons (hm _ hnop) (.cons hnop Code.tame_nil)
    · exact .jump (hj _ (Instruction.jumps_of_jump? hjump)) ⟨rfl, rfl⟩ hnop Code.tame_nil
  have hplain := hback id (fun _ => id) fun _ => id
  have htagged := hback (·.tagged (.finish block)) (fun _ hi => hi.tagged _) fun _ hi => hi.tagged _
  rcases condition with _ | ⟨first, _ | ⟨second, rest⟩⟩
  · obtain ⟨rfl, rfl⟩ := Prod.mk.inj h
    exact ⟨hnop, htagged, 0, _, rfl, by simp⟩
  · obtain ⟨rfl, rfl⟩ := Prod.mk.inj h
    have hfirst := hmild _ List.mem_cons_self
    exact ⟨hfirst, htagged.cons hfirst, 1, _, rfl, by simp⟩
  · obtain ⟨rfl, rfl⟩ := Prod.mk.inj h
    simp only [List.forall_mem_cons] at hmild
    exact ⟨hmild.1, .cons hmild.1 (.cons (hmild.2.1.tagged _)
      ((Code.tame_of_mild hmild.2.2).append hplain)), 1, _, rfl, by simp⟩

end Statement

lemma Assignment.Ending.tame {dest : Operand} {lo hi : Nat} {last : Code}
    (h : Ending dest pool lo hi last) (hd : dest.IsKnown) :
    last.Tame pool (some dest) (fun l offset => (offset = -1 ∨ offset = -2) ∧
      ∃ front i, last = front ++ [i] ∧ 2 ≤ front.length ∧ l ∈ i.tags) := by
  cases h with
  | nothing => exact Code.tame_nil
  | store hdest => exact .cons (.store (by rw [hdest]) (hdest ▸ hd)) Code.tame_nil
  | @product lhs rhs target counter addend id hdest hlhs hrhs hcounter haddend =>
    have hstore : ∀ i : Instruction, i.dest = target.toOperand → i.Mild pool (some dest) :=
      fun i hi => .store (by rw [hi, hdest]) (by rw [hi, hdest]; exact hd)
    have hgoes : ∀ offset : Int, offset = -1 ∨ offset = -2 → (offset = -1 ∨ offset = -2) ∧
        ∃ front i, productCode lhs rhs target counter addend (.multiplyEnd id) = front ++ [i] ∧
          2 ≤ front.length ∧ Label.multiplyEnd id ∈ i.tags := fun offset ho =>
      ⟨ho, _, _, (List.dropLast_concat_getLast (by simp [productCode])).symm, by simp [productCode],
        by simp [productCode]⟩
    refine .cons (.scratch hcounter rfl) (.cons (.scratch haddend rfl) ?_)
    refine .jump ⟨.inl rfl, rfl, rfl⟩ (hgoes _ (.inl rfl)) (hstore _ rfl) ?_
    refine .cons (.scratch hcounter rfl) (.jump (Instruction.jumps_jump _ _) (hgoes _ (.inl rfl))
      (.scratch haddend rfl) (.cons (hstore _ rfl) ?_))
    exact .jump ⟨.inl rfl, rfl, rfl⟩ (hgoes _ (.inr rfl)) (.scratch hcounter rfl) Code.tame_nil

end
end CogolToolchain
