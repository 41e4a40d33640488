import CogolToolchain.Compile.Assignment
import CogolToolchain.Proofs.Compile.Condition
import CogolToolchain.Proofs.Machine.Product

/-!
What the compiler does for an assignment, and the code of a product as it is laid out.
-/

namespace CogolToolchain

open Memory Machine Work Attempt ScratchPool

namespace Assignment

def afterOperator (scope : Scope) (dest : Backed) (address : Code) (eq : Token) : Attempt Code :=
  if eq = "=" then do
    let (lhs, before) ← firstOperand scope
    let op ← Work.pop
    return address ++ before ++ (← operation scope lhs op dest)
  else if eq = "++" ∨ eq = "--" then do
    Attempt.expect ";"
    let amount := if eq = "++" then 1 else -1
    return address ++
      [{ opcode := .add, lhs := dest.read.toOperand, rhs := .constant amount,
         dest := dest.toOperand }]
  else
    match compound? eq with
    | some op => return address ++ (← operation scope (.ofOperand dest.read.toOperand) op dest)
    | none => Attempt.failStatement (.assignmentOperator eq)

lemma lower_eq (scope : Scope) : lower scope = reference scope .destination >>= fun x =>
    (liftM (checkBounds .destination x.1.toOperand) : Attempt Unit) >>= fun _ =>
    (liftM Work.pop : Attempt Token) >>= afterOperator scope x.1 x.2 := rfl

section Careful

variable (scope : Scope) (lhs rhs dest : Backed) (op : Token)

lemma advances_multiply : Advances true (multiply lhs rhs dest) :=
  advances_takeId.bind fun _ => (advances_reuseScratchExcept _ _).bind fun _ =>
    (advances_reuseScratchExcept _ _).bind fun _ => advances_pure _

lemma careful_conditional : Careful false (conditional scope lhs dest) :=
  (careful_reference scope .source).bind fun _ => (careful_lift advances_pop).bind fun _ =>
    (Condition.careful_readOperator _).bind fun _ => (careful_reference scope .source).bind fun _ =>
    (careful_expect _).bind fun _ => (careful_lift (Condition.advances_lower _)).bind fun _ =>
      careful_pure _

lemma careful_binary : Careful true (binary scope lhs op dest) := by
  refine (careful_reference scope .source).bind fun _ =>
    (careful_lift (Condition.advances_checkBounds _ _)).bind fun _ =>
      (careful_expect _).bind fun _ => ?_
  split
  · exact (careful_lift (advances_multiply _ _ _)).bind fun _ => careful_pure _
  · split
    · exact (careful_pure _).mono
    · exact Careful.mono (careful_failHere rfl)

lemma careful_operation : Careful true (operation scope lhs op dest) := by
  refine (careful_lift (Condition.advances_checkBounds _ _)).bind fun _ => ?_
  split
  · exact (careful_pure _).mono
  · split
    · exact (careful_conditional scope lhs dest).mono
    · exact careful_binary scope lhs dest op

lemma careful_firstOperand : Careful false (firstOperand scope) := by
  refine (careful_lift advances_peek).bind fun _ => ?_
  split
  · exact careful_pure _
  · exact careful_reference scope .source

lemma careful_afterOperator (address : Code) (eq : Token) :
    Careful true (afterOperator scope dest address eq) := by
  unfold afterOperator
  split
  · exact (careful_firstOperand scope).bind fun _ => (careful_lift advances_pop).bind fun _ =>
      (careful_operation scope _ _ _).bind fun _ => careful_pure _
  · split
    · exact ((careful_expect _).bind fun _ => careful_pure _).mono
    · split
      · exact (careful_operation scope _ _ _).bind fun _ => careful_pure _
      · exact Careful.mono (careful_failStatement rfl)

lemma careful_lower : Careful true (lower scope) := by
  rw [lower_eq]
  exact (careful_reference scope .destination).bind fun _ =>
    (careful_lift (Condition.advances_checkBounds _ _)).bind fun _ =>
    (careful_lift advances_pop).bind fun _ => careful_afterOperator scope _ _ _

lemma tokens_lower (b : Workbench) : ((lower scope).on b).2.tokens <:+ Tokens.rest b.tokens := by
  rw [lower_eq]
  exact tokens_of_reference scope .destination (fun _ =>
    ((careful_lift (Condition.advances_checkBounds _ _)).bind fun _ =>
      (careful_lift advances_pop).bind fun _ => careful_afterOperator scope _ _ _).absorbs) b

end Careful

/-- The code of a product that counts in the cell `counter` and adds the cell `addend`. -/
def productCode (lhs rhs dest : Backed) (counter addend : Nat) (done : Label) : Code := [
  { opcode := .sub, lhs := .constant 0, rhs := lhs.toOperand, dest := .cellDest counter },
  { opcode := .add, lhs := .constant 0, rhs := rhs.toOperand, dest := .cellDest addend },
  { opcode := .mlz, lhs := .cell counter, rhs := .label done (-1), dest := .programCounter },
  .copy (.constant 0) dest.toOperand,
  { opcode := .sub, lhs := .constant 0, rhs := .cell counter, dest := .cellDest counter },
  .jump (.label done (-1)),
  { opcode := .sub, lhs := .constant 0, rhs := .cell addend, dest := .cellDest addend },
  { opcode := .add, lhs := dest.read.toOperand, rhs := .cell addend, dest := dest.toOperand },
  { opcode := .mlz, lhs := .cell counter, rhs := .label done (-2), dest := .programCounter },
  { opcode := .add, lhs := .cell counter, rhs := .constant 1, dest := .cellDest counter,
    tags := [done] }]

section

variable {b b' : Workbench} {a lhs rhs dest keep : Backed} {t counter addend : Nat} {code : Code}

lemma reuses_reuseScratchExcept (hb : b.Sane) (h : (reuseScratchExcept a keep).on b = (t, b')) :
    (t ∈ a.cells ∧ t ∉ keep.cells ∧ b' = b) ∨ Takes b t b' := by
  unfold reuseScratchExcept at h
  split at h
  · rename_i u us hcells
    split at h
    · have := takes_allocScratch hb
      rw [h] at this
      exact .inr this
    · rename_i hnot
      obtain ⟨rfl, rfl⟩ := by simpa using h
      exact .inl ⟨by simp [hcells], by simpa using hnot, rfl⟩
  · have := takes_allocScratch hb
    rw [h] at this
    exact .inr this

structure Multiplies (b : Workbench) (lhs rhs dest : Backed) (code : Code) (b' : Workbench) :
    Prop where
  layout : ∃ counter addend id, code = productCode lhs rhs dest counter addend (.multiplyEnd id) ∧
    id = b.nextId ∧ counter ∈ b'.scratch.addresses ∧ addend ∈ b'.scratch.addresses ∧
    counter ∉ dest.cells ∧ addend ∉ dest.cells ∧ counter ∉ rhs.cells ∧ counter ≠ addend
  tokens : b'.tokens = b.tokens
  sane : b'.Sane
  grows : b.Grows b'

lemma multiplies_of_multiply (hb : b.Sane) (hl : lhs.Ready b.scratch) (hr : rhs.Ready b.scratch)
    (hd : dest.Ready b.scratch) (hlr : ∀ u ∈ lhs.cells, u ∉ rhs.cells)
    (h : (multiply lhs rhs dest).on b = (code, b')) : Multiplies b lhs rhs dest code b' := by
  obtain ⟨hs₀, hg₀⟩ := (advances_takeId b).keeps hb
  simp only [multiply, Work.on_bind, Work.on_pure, Prod.mk.injEq, on_takeId] at h
  simp only [on_takeId] at hs₀ hg₀
  generalize hb₀ : ({ b with nextId := b.nextId + 1 } : Workbench) = b₀ at h hs₀ hg₀
  have hscratch : b₀.scratch = b.scratch := by rw [← hb₀]
  have htokens : b₀.tokens = b.tokens := by rw [← hb₀]
  rcases hcounter : (reuseScratchExcept lhs dest).on b₀ with ⟨counter, b₁⟩
  rw [hcounter] at h
  dsimp only at h
  obtain ⟨hs₁, hg₁⟩ := (advances_reuseScratchExcept lhs dest b₀).keeps hs₀
  rw [hcounter] at hs₁ hg₁
  rcases haddend : (reuseScratchExcept rhs dest).on b₁ with ⟨addend, b₂⟩
  rw [haddend] at h
  dsimp only at h hs₁ hg₁
  obtain ⟨hs₂, hg₂⟩ := (advances_reuseScratchExcept rhs dest b₁).keeps hs₁
  rw [haddend] at hs₂ hg₂
  dsimp only at hs₂ hg₂
  obtain ⟨rfl, rfl⟩ := h
  have hbusy : ∀ u, b.scratch.Busy u → b₀.scratch.Busy u := fun u hu => hscratch ▸ hu
  -- the counter is in use from then on
  have hcount : b₁.scratch.Busy counter ∧ counter ∉ dest.cells ∧ counter ∉ rhs.cells ∧
      (∀ u, b₀.scratch.Busy u → b₁.scratch.Busy u) ∧ b₁.tokens = b₀.tokens := by
    rcases reuses_reuseScratchExcept hs₀ hcounter with ⟨hmem, hkeep, rfl⟩ | htakes
    · exact ⟨hbusy _ (hl.busy _ hmem), hkeep, hlr _ hmem, fun _ => id, rfl⟩
    · refine ⟨(htakes.busy _).mpr (.inr rfl), fun hmem => htakes.free (hbusy _ (hd.busy _ hmem)),
        fun hmem => htakes.free (hbusy _ (hr.busy _ hmem)), fun u hu =>
          (htakes.busy u).mpr (.inl hu),
        htakes.tokens⟩
  obtain ⟨hbusy₁, hcd, hcr, hkeep₁, htokens₁⟩ := hcount
  have hadd : addend ∈ b₂.scratch.addresses ∧ addend ∉ dest.cells ∧ counter ≠ addend ∧
      b₂.tokens = b₁.tokens := by
    rcases reuses_reuseScratchExcept hs₁ haddend with ⟨hmem, hkeep, rfl⟩ | htakes
    · refine ⟨(hkeep₁ _ (hbusy _ (hr.busy _ hmem))).mem_addresses, hkeep, ?_, rfl⟩
      rintro rfl
      exact hcr hmem
    · refine ⟨htakes.mem, fun hmem => htakes.free (hkeep₁ _ (hbusy _ (hd.busy _ hmem))), ?_,
        htakes.tokens⟩
      rintro rfl
      exact htakes.free hbusy₁
  refine ⟨⟨counter, addend, b.nextId, rfl, rfl, hg₂.scratch.subset hbusy₁.mem_addresses, hadd.1,
    hcd, hadd.2.1, hcr, hadd.2.2.1⟩, ?_, hs₂, hg₀.trans (hg₁.trans hg₂)⟩
  rw [hadd.2.2.2, htokens₁, htokens]

lemma words_productCode {r : Resolver} {k : Nat} {done : Label}
    (hlabel : r.labels.lookup done = some (k + 9)) :
    r.words (productCode lhs rhs dest counter addend done) =
      productWords (r.word lhs.toOperand) (r.word rhs.toOperand) (r.word dest.toOperand)
        (UInt16.ofNat counter) (UInt16.ofNat addend) (UInt16.ofNat (k + 9)) := by
  have hback : ∀ n : Nat, UInt16.ofInt ((k + 9 : Nat) + -(n : Int)) =
      UInt16.ofNat (k + 9) - UInt16.ofNat n := fun n => by
    rw [UInt16.ofInt_add, UInt16.ofInt_neg, Word.ofInt_natCast, Word.ofInt_natCast,
      UInt16.sub_eq_add_neg]
  have hraised : r.word dest.read.toOperand =
      ⟨(r.word dest.toOperand).mode.raised, (r.word dest.toOperand).value⟩ := by
    unfold Resolver.word Resolver.operand
    simp only [Backed.read, Operand.read]
    split <;> rfl
  have hone := hback 1
  have htwo := hback 2
  simp only [Nat.cast_one, Nat.cast_ofNat] at hone htwo
  simp only [productCode, productWords, Instruction.copy, Instruction.jump,
    r.words_cons, r.words_nil, r.word_cellDest, r.word_cell, r.word_constant, r.word_programCounter,
    r.word_label hlabel, hraised,
    hone, htwo]
  rfl

end
end Assignment
end CogolToolchain
