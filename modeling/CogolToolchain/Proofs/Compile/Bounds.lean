import CogolToolchain.Proofs.Compile.Decision

/-!
Numbers that the machine has.

The number of a constant source is a word, read as signed or as unsigned, and every other number is
the address of a cell; `checkBounds` reports exactly the operands of which this does not hold. As
both readings are allowed, a word can be written in two ways. Two constants are compared as they are
written, a variable and a constant as words, so that the two ways of writing a word are the same in
one place and not in the other (`Condition.constants_compared_as_written`).
-/

namespace CogolToolchain

open Memory Machine Work Attempt ScratchPool

/-- The number of the operand, if it is known, is one that the machine has in its place. -/
def Operand.InRange (role : Role) (a : Operand) : Prop :=
  ∀ n ∈ a.value.number?,
    if a.mode = .constant ∧ role = .source then -32768 ≤ n ∧ n ≤ 65535 else 0 ≤ n ∧ n ≤ 65535

section

variable {role : Role} {a : Operand} {b : Workbench}

lemma Operand.inRange_constant {n : Int} :
    (Operand.constant n).InRange .source ↔ -32768 ≤ n ∧ n ≤ 65535 := by
  simp [InRange, Operand.constant, Value.number?]

lemma on_checkBounds_of_inRange (h : a.InRange role) (b : Workbench) :
    (checkBounds role a).on b = ((), b) := by
  unfold checkBounds
  cases hn : a.value.number? with
  | none => rfl
  | some n =>
    have hrange := h n hn
    dsimp only
    split at hrange
    · rw [if_pos ‹_›, if_pos hrange]
      rfl
    · rw [if_neg ‹_›, if_pos hrange]
      rfl

lemma inRange_of_on_checkBounds (h : ((checkBounds role a).on b).2.diagnostics = b.diagnostics) :
    a.InRange role := by
  intro n hn
  rw [Option.mem_def] at hn
  simp only [checkBounds, hn] at h
  split at h
  · rename_i hsource
    rw [if_pos hsource]
    by_contra hwide
    rw [if_neg hwide] at h
    exact reports_report _ b "" h
  · rename_i hsource
    rw [if_neg hsource]
    by_contra hwide
    rw [if_neg hwide] at h
    exact reports_report _ b "" h

lemma on_checkBounds_eq_iff : (checkBounds role a).on b = ((), b) ↔ a.InRange role :=
  ⟨fun h => inRange_of_on_checkBounds (by rw [h]), fun h => on_checkBounds_of_inRange h b⟩

end

/-! ### Two ways to write a word -/

def Twins (x y : Int) : Prop := x - y = 65536 ∨ y - x = 65536

lemma ofInt_eq_ofInt_iff {x y : Int} (hx : -32768 ≤ x ∧ x ≤ 65535) (hy : -32768 ≤ y ∧ y ≤ 65535) :
    UInt16.ofInt x = UInt16.ofInt y ↔ x = y ∨ Twins x y := by
  rw [Word.ofInt_eq_iff, Twins]
  omega

namespace Comparison

variable {op : Comparison} {x y : Int}

lemma holdsWords_ofInt (hop : op = .eq ∨ op = .ne) (hx : -32768 ≤ x ∧ x ≤ 65535)
    (hy : -32768 ≤ y ∧ y ≤ 65535) (hxy : ¬ Twins x y) :
    op.holdsWords (UInt16.ofInt x) (UInt16.ofInt y) = op.holds x y := by
  have hwords : (UInt16.ofInt x == UInt16.ofInt y) = (x == y) := by
    rw [beq_eq_decide, beq_eq_decide, decide_eq_decide, ofInt_eq_ofInt_iff hx hy, or_iff_left hxy]
  rcases hop with rfl | rfl
  · exact hwords
  · exact congrArg not hwords

lemma holdsWords_ofInt_of_twins (hop : op = .eq ∨ op = .ne) (hxy : Twins x y) :
    op.holdsWords (UInt16.ofInt x) (UInt16.ofInt y) = !op.holds x y := by
  have hsame : UInt16.ofInt x = UInt16.ofInt y := by
    rw [Word.ofInt_eq_iff]
    unfold Twins at hxy
    omega
  have hdiffer : x ≠ y := by
    rintro rfl
    unfold Twins at hxy
    omega
  rcases hop with rfl | rfl
  · simp [holdsWords, holds, hsame, hdiffer]
  · simp [holdsWords, holds, hsame, hdiffer]

end Comparison

namespace Condition

lemma settled_of_constants {c : Condition} {x y : Int} (hx : c.a.constant? = some x)
    (hy : c.b.constant? = some y) (b : Workbench) :
    c.code b = [] ∧ c.branch b = if c.op.holds x y then .always else .never := by
  have hlower : c.lower = (do
      Work.report (.constantCondition x c.op y)
      return (if c.op.holds x y then .always else .never, [])) := by
    rw [lower, hx, hy]
  rw [code, branch, hlower]
  exact ⟨rfl, rfl⟩

/-- Whether two constants that are in range are the same is settled before the program runs, by the
numbers as they are written. If one of them is put in a variable, the outcome at run time is the
same, except for the two ways to write one word: then it is the opposite. -/
theorem constants_compared_as_written {op : Comparison} (hop : op = .eq ∨ op = .ne) {x y : Int}
    {b₀ : Workbench} (hx : (checkBounds .source (.constant x)).on b₀ = ((), b₀))
    (hy : (checkBounds .source (.constant y)).on b₀ = ((), b₀)) :
    (∀ (c : Condition) (b : Workbench), c.op = op → c.a.constant? = some x →
      c.b.constant? = some y →
      c.code b = [] ∧ c.branch b = if op.holds x y then .always else .never) ∧
    ∀ (c : Condition) (b : Workbench) (m : Memory), c.Workable b m → c.op = op → c.b = .constant y →
      m.eval c.a.word = UInt16.ofInt x →
      (¬ Twins x y → c.Decides b m (op.holds x y)) ∧
      (Twins x y → c.Decides b m (!op.holds x y)) := by
  rw [on_checkBounds_eq_iff, Operand.inRange_constant] at hx hy
  refine ⟨fun c b hcop ha hb => hcop ▸ settled_of_constants ha hb b, fun c b m h hcop hb ha => ?_⟩
  have hdecides := decides_holdsWords h
  have hy' : m.eval c.b.word = UInt16.ofInt y := by rw [hb]; rfl
  rw [hcop, ha, hy'] at hdecides
  constructor
  · intro hxy
    rwa [Comparison.holdsWords_ofInt hop hx hy hxy] at hdecides
  · intro hxy
    rwa [Comparison.holdsWords_ofInt_of_twins hop hxy] at hdecides

def signedComparison : String := "my x = -1; if (x == 65535) \x7b \x7d"

/-- The numbers are different, the words are the same. -/
theorem constants_compared_as_written_signed :
    let b₀ := (Work.pop.on (Statement.rested (Session.after {} signedComparison 1)).bench).2
    let b := ((read {}).on b₀).2
    let m := Memory.zero.write 3 65535
    let c : Condition := ⟨.cell 3, .eq, .constant 65535⟩
    branch ⟨.constant (-1), .eq, .constant 65535⟩ b₀ = .never ∧
      Yields (read {}) b₀ (c, []) b ∧ c.Workable b m ∧ c.Decides b m true := by
  intro b₀ b m c
  have hvalue : (((read {}).on b₀).1.map fun x => (x.1.a, x.1.op, x.1.b, x.2)) =
      some (c.a, c.op, c.b, []) := by
    decide +kernel
  obtain ⟨⟨c', before⟩, hsome, hc'⟩ := Option.map_eq_some_iff.mp hvalue
  obtain ⟨rfl, rfl⟩ : c' = c ∧ before = [] := by
    obtain ⟨a, op, b⟩ := c'
    simp only [Prod.mk.injEq] at hc'
    obtain ⟨rfl, rfl, rfl, rfl⟩ := hc'
    exact ⟨rfl, rfl⟩
  have hread : Yields (read {}) b₀ (c, []) b := yields_of_on hsome
  have hsane : b₀.Sane := ((advances_pop _).keeps (Statement.fine_rested Session.fine_after).sane).1
  have hprepared : c.Prepared b := prepared_of_read hsane hread (by decide +kernel)
    (.inl (by decide))
  have hworkable : c.Workable b m :=
    ⟨hprepared, by decide +kernel, by decide +kernel, by decide +kernel⟩
  have hx : (checkBounds .source (.constant (-1))).on b₀ = ((), b₀) :=
    on_checkBounds_of_inRange (Operand.inRange_constant.mpr (by decide)) b₀
  have hy : (checkBounds .source (.constant 65535)).on b₀ = ((), b₀) :=
    on_checkBounds_of_inRange (Operand.inRange_constant.mpr (by decide)) b₀
  obtain ⟨hsettled, hrun⟩ := constants_compared_as_written (.inl rfl) hx hy
  exact ⟨(hsettled _ b₀ rfl rfl rfl).2, hread, hworkable,
    (hrun c b m hworkable rfl rfl (by decide +kernel)).2 (.inr rfl)⟩

end Condition

end CogolToolchain
