import CogolToolchain.Proofs.Compile.Addressing
import CogolToolchain.Proofs.Compile.Condition

/-!
Comparisons decide words.

A comparison whose operands are not both constant becomes code and a branch. Where the code runs,
the branch then holds exactly if the comparison holds of the words of the operands: it only depends
on these words, the opposite comparison has the opposite outcome, and the outcome is that of the
numbers as long as the difference that is tested does not overflow
(`Condition.comparisons_decide_words`).
-/

namespace CogolToolchain

open Memory Machine Work Attempt ScratchPool

/-! ### Words as signed numbers -/

/-- The number that a word stands for in two's complement. -/
def Word.signed (w : Word) : Int := w.toBitVec.toInt

lemma Word.signed_eq (w : Word) :
    w.signed = if 2 * w.toNat < 65536 then (w.toNat : Int) else w.toNat - 65536 :=
  BitVec.toInt_eq_toNat_cond w.toBitVec

lemma Word.ofInt_signed (w : Word) : UInt16.ofInt w.signed = w := by
  have hlt := w.toNat_lt
  rw [← UInt16.toNat_inj, toNat_ofInt, signed_eq]
  split <;> omega

lemma Word.signed_inj {x y : Word} : x.signed = y.signed ↔ x = y :=
  ⟨fun h => by rw [← ofInt_signed x, h, ofInt_signed], fun h => by rw [h]⟩

lemma Word.ofInt_sub (n k : Int) : UInt16.ofInt (n - k) = UInt16.ofInt n - UInt16.ofInt k := by
  rw [Int.sub_eq_add_neg, UInt16.ofInt_add, UInt16.ofInt_neg, UInt16.sub_eq_add_neg]

lemma Word.isNegative_of_eq {w : Word} {n : Int} (h : w = UInt16.ofInt n)
    (hn : -32768 ≤ n ∧ n ≤ 32767) : Word.isNegative w = decide (n < 0) := by
  rw [h, isNegative_ofInt hn]

namespace Comparison

/-- The difference of which the comparison tests the sign. Equality tests no sign. -/
def gap (op : Comparison) (x y : Int) : Int :=
  match op with
  | lt => x - y
  | le => x - y - 1
  | gt => y - x
  | ge => y - x - 1
  | eq | ne => 0

def Fits (op : Comparison) (x y : Int) : Prop := -32768 ≤ op.gap x y ∧ op.gap x y ≤ 32767

lemma holdsWords_eq_holds {op : Comparison} {x y : Word} (h : op.Fits x.signed y.signed) :
    op.holdsWords x y = op.holds x.signed y.signed := by
  have hsub : ∀ x y : Word, x - y = UInt16.ofInt (x.signed - y.signed) := fun x y => by
    rw [Word.ofInt_sub, Word.ofInt_signed, Word.ofInt_signed]
  have hsub' : ∀ x y : Word, x - y - 1 = UInt16.ofInt (x.signed - y.signed - 1) := fun x y => by
    rw [Word.ofInt_sub, ← hsub, UInt16.ofInt_one]
  cases op with
  | lt =>
    rw [holdsWords, Word.isNegative_of_eq (hsub x y) h]
    exact decide_eq_decide.mpr (by omega)
  | le =>
    rw [holdsWords, Word.isNegative_of_eq (hsub' x y) h]
    exact decide_eq_decide.mpr (by omega)
  | gt =>
    rw [holdsWords, Word.isNegative_of_eq (hsub y x) h]
    exact decide_eq_decide.mpr (by omega)
  | ge =>
    rw [holdsWords, Word.isNegative_of_eq (hsub' y x) h]
    exact decide_eq_decide.mpr (by omega)
  | eq =>
    rw [holdsWords, holds, beq_eq_decide, beq_eq_decide, decide_eq_decide, Word.signed_inj]
  | ne =>
    rw [holdsWords, holds, bne, bne, beq_eq_decide, beq_eq_decide,
      decide_eq_decide.mpr Word.signed_inj]

end Comparison

lemma Test.exists_test (t : Test) (b : Workbench) :
    ∃ test, (t.lower.on b).1.1 = .ifNegative test ∨ (t.lower.on b).1.1 = .ifNonZero test := by
  cases t with
  | less x y =>
    rw [lower]
    split
    · exact ⟨_, .inl rfl⟩
    · exact ⟨_, .inl rfl⟩
  | lessEq x y => exact ⟨_, .inl rfl⟩
  | equal x y => exact ⟨_, .inl rfl⟩
  | differ x y => exact ⟨_, .inr rfl⟩

/-! ### Comparisons in memory -/

def Branch.Holds (m : Memory) : Branch → Prop
  | .always => True
  | .never => False
  | .ifNegative test => Word.isNegative (m.eval test.word) = true
  | .ifNonZero test => m.eval test.word ≠ 0

lemma Branch.Decides.holds_iff {hidden : Set Word} {m : Memory} {branch : Branch} {v : Bool}
    (h : branch.Decides hidden m v) (h0 : 0 ∈ hidden) (j : Nat) :
    branch.Holds (m.arrive j) ↔ v = true := by
  cases branch with
  | always => exact ⟨fun _ => h, fun _ => trivial⟩
  | never =>
    obtain rfl : v = false := h
    exact ⟨False.elim, nofun⟩
  | ifNegative test =>
    obtain ⟨-, own, w, hown, hshows, rfl⟩ := h
    rw [Holds, (hshows.arrive h0 hown j).eval_eq]
  | ifNonZero test =>
    obtain ⟨-, own, w, hown, hshows, rfl⟩ := h
    rw [Holds, (hshows.arrive h0 hown j).eval_eq, decide_eq_true_iff]

lemma Scribbles.quiet {p p' : ScratchPool} {own : List Nat} {code : Code} {hidden : Set Word}
    {r : Resolver} (h : Scribbles p own code p') (hf : p'.Fits hidden) :
    ∀ i ∈ r.words code, i.Quiet := by
  intro i hi
  obtain ⟨j, hj, rfl⟩ := r.mem_words.mp hi
  obtain ⟨t, ht, hdest, -⟩ := h j hj
  rw [hdest, r.word_cellDest]
  exact ⟨rfl, hf.ne_zero ht, hf.ne_one ht⟩

namespace Condition

def branch (c : Condition) (b : Workbench) : Branch := (c.lower.on b).1.1

def code (c : Condition) (b : Workbench) : Code := (c.lower.on b).1.2

def pool (c : Condition) (b : Workbench) : ScratchPool := (c.lower.on b).2.scratch

/-- The operands are as references leave them: their values are known, the scratch cells that hold
them are in use, and no cell holds both. They are not both constant. -/
structure Prepared (c : Condition) (b : Workbench) : Prop where
  sane : b.Sane
  left : c.a.Ready b.scratch
  right : c.b.Ready b.scratch
  apart : ∀ t ∈ c.a.cells, t ∉ c.b.cells
  mixed : c.a.constant? = none ∨ c.b.constant? = none

/-- The condition can be worked out in the memory `m`: the operands read no cells that they should
not read, and the scratch cells are cells of the machine. -/
structure Workable (c : Condition) (b : Workbench) (m : Memory) : Prop extends c.Prepared b where
  left_clear : c.a.IsClear c.a.cells (c.pool b) m
  right_clear : c.b.IsClear c.b.cells (c.pool b) m
  small : ∀ t ∈ (c.pool b).addresses, t < 65536

/-- Wherever the code of the condition runs from the memory `m`, it runs straight through, and the
branch is taken after it exactly if `v`. -/
def Decides (c : Condition) (b : Workbench) (m : Memory) (v : Bool) : Prop :=
  ∀ (r : Resolver) (prog : List WordInstruction) (k : Nat) (d : Array Word),
    Sits prog k (r.words (c.code b)) →
    ∃ m', Leads prog (c.code b).length ⟨k, m, d⟩ ⟨k + (c.code b).length, m', d⟩ ∧
      ∀ j, (c.branch b).Holds (m'.arrive j) ↔ v = true

lemma prepared_of_read {scope : Scope} {b b' : Workbench} {c : Condition}
    {code : Code} (hb : b.Sane) (h : Yields (read scope) b (c, code) b')
    (hsmall : ∀ t ∈ b'.scratch.addresses, t < 65536)
    (hmixed : c.a.constant? = none ∨ c.b.constant? = none) : c.Prepared b' := by
  simp only [read, yields_bind, yields_lift, Prod.exists, on_pop, Prod.mk.injEq] at h
  obtain ⟨_, b₁, hopen, a, before, b₂, hleft, next, b₃, ⟨-, rfl⟩, h⟩ := h
  have hsane₁ := ((careful_expect _).grows hb hopen).1
  have hsane₂ := ((careful_reference scope .source).grows hsane₁ hleft).1
  split at h
  · simp only [yields_pure, Prod.mk.injEq] at h
    obtain ⟨⟨rfl, -⟩, rfl⟩ := h
    have hlowers := lowers_reference hsane₁ hleft hsmall
    exact ⟨hsane₂.congr rfl rfl, hlowers.ready,
      ⟨⟨0, rfl⟩, fun t ht => absurd ht List.not_mem_nil⟩, fun t _ => List.not_mem_nil, hmixed⟩
  · simp only [yields_bind, yields_lift, yields_pure, Prod.exists, Prod.mk.injEq] at h
    obtain ⟨op, b₄, hop, a', after, b₅, hright, _, b₆, hcheck, _, b₇, hcheck', _, b₈,
      hclose, ⟨rfl, -⟩, rfl⟩ := h
    have hb₄ : b₄ = { b₂ with tokens := Tokens.rest b₂.tokens } := by
      rw [readOperator] at hop
      split at hop
      · exact (yields_pure.mp hop).2
      · simp at hop
    have hsane₄ : b₄.Sane := hb₄ ▸ hsane₂.congr rfl rfl
    have hsane₅ := ((careful_reference scope .source).grows hsane₄ hright).1
    -- what follows the second operand changes neither the variables nor the pool
    obtain ⟨ds, -, hds⟩ := on_checkBounds .source a.toOperand b₅
    obtain ⟨-, rfl⟩ := Prod.mk.inj (hds.symm.trans hcheck)
    obtain ⟨ds', -, hds'⟩ := on_checkBounds .source a'.toOperand { b₅ with diagnostics := ds }
    obtain ⟨-, rfl⟩ := Prod.mk.inj (hds'.symm.trans hcheck')
    obtain ⟨ts, -, rfl⟩ := yields_expect_iff.mp hclose
    have hlowers' := lowers_reference hsane₄ hright hsmall
    have hlowers := lowers_reference hsane₁ hleft fun t ht => hsmall t
      (((careful_reference scope .source).grows hsane₄ hright).2.scratch.subset (hb₄ ▸ ht))
    have hready : a.Ready b₄.scratch := hb₄ ▸ hlowers.ready
    exact ⟨hsane₅.congr rfl rfl, hready.lowers hlowers', hlowers'.ready,
      hlowers'.disjoint hready, hmixed⟩

variable {c : Condition} {b : Workbench} {m : Memory}

lemma lower_of_mixed (h : c.a.constant? = none ∨ c.b.constant? = none) :
    c.lower = (Test.of c.a c.op c.b).lower := by
  rw [lower]
  split
  · simp_all
  · rfl

lemma exists_test (h : c.a.constant? = none ∨ c.b.constant? = none) (b : Workbench) :
    ∃ test, c.branch b = .ifNegative test ∨ c.branch b = .ifNonZero test := by
  rw [branch, lower_of_mixed h]
  exact Test.exists_test _ b

lemma decides_holdsWords (h : c.Workable b m) :
    c.Decides b m (c.op.holdsWords (m.eval c.a.word) (m.eval c.b.word)) := by
  intro r prog k d hsits
  have hf := ((advances_lower c b).keeps h.sane).1.fits_hidden h.small
  have hlower : (Test.of c.a c.op c.b).lower.on b = ((c.branch b, c.code b), (c.lower.on b).2) := by
    rw [← lower_of_mixed h.mixed]
    rfl
  have hsettles := Test.settles_of (r := r) h.sane h.left h.right h.apart hlower hf
  have hleads := Leads.of_quiet hsits (hsettles.scribbles.quiet hf) m d
  rw [Resolver.length_words] at hleads
  refine ⟨_, hleads, fun j => ?_⟩
  exact (hsettles.decides (k + ·) m m _ _ (EqOff.refl _ _) h.left_clear.shows
    h.right_clear.shows).holds_iff hf.zero j

/-- A comparison decides the words of its operands, if they are not both constant: it is never
settled before the program runs, and wherever its code runs, the branch is then taken exactly if the
wrapped difference is negative, or the words are equal or different. So it does not matter which of
the operands are constants, and the opposite comparison has the opposite outcome. Where the
difference that is tested fits in a word, the outcome is that of the signed numbers. -/
theorem comparisons_decide_words (h : c.Workable b m) :
    (∃ test, c.branch b = .ifNegative test ∨ c.branch b = .ifNonZero test) ∧
    c.Decides b m (c.op.holdsWords (m.eval c.a.word) (m.eval c.b.word)) ∧
    (∀ (c' : Condition) (b' : Workbench) (m' : Memory), c'.Workable b' m' → c'.op = c.op →
      m'.eval c'.a.word = m.eval c.a.word → m'.eval c'.b.word = m.eval c.b.word →
      c'.Decides b' m' (c.op.holdsWords (m.eval c.a.word) (m.eval c.b.word))) ∧
    (∀ b' : Workbench, Workable { c with op := c.op.negated } b' m →
      Decides { c with op := c.op.negated } b' m
        (!c.op.holdsWords (m.eval c.a.word) (m.eval c.b.word))) ∧
    (c.op.Fits (m.eval c.a.word).signed (m.eval c.b.word).signed →
      c.op.holdsWords (m.eval c.a.word) (m.eval c.b.word) =
        c.op.holds (m.eval c.a.word).signed (m.eval c.b.word).signed) := by
  refine ⟨exists_test h.mixed b, decides_holdsWords h, fun c' b' m' h' hop ha hb => ?_,
    fun b' h' => ?_, Comparison.holdsWords_eq_holds⟩
  · rw [← hop, ← ha, ← hb]
    exact decides_holdsWords h'
  · rw [← Comparison.holdsWords_negated]
    exact decides_holdsWords h'

/-- An element is compared with the greatest 32-bit number, which cannot be moved by one. -/
def wideComparison : String := "my a[3]; my i; if (a[i] <= 2147483647) \x7b \x7d"

/-- As words, 7 is not below -1. -/
theorem comparisons_decide_words_wide :
    let b₀ := (Work.pop.on (Statement.rested (Session.after {} wideComparison 2)).bench).2
    let b := ((read {}).on b₀).2
    let m := (Memory.zero.write 2 5).write 5 7
    let c : Condition := ⟨.through 2, .le, .constant 2147483647⟩
    (∃ before, Yields (read {}) b₀ (c, before) b) ∧ c.Workable b m ∧ (c.code b).length = 2 ∧
      c.Decides b m false := by
  intro b₀ b m c
  have hvalue : (((read {}).on b₀).1.map fun x => (x.1.a, x.1.op, x.1.b)) =
      some (c.a, c.op, c.b) := by
    decide +kernel
  obtain ⟨⟨c', before⟩, hsome, hc'⟩ := Option.map_eq_some_iff.mp hvalue
  obtain rfl : c' = c := by
    obtain ⟨a, op, b⟩ := c'
    simp only [Prod.mk.injEq] at hc'
    obtain ⟨rfl, rfl, rfl⟩ := hc'
    rfl
  have hread : Yields (read {}) b₀ (c, before) b := yields_of_on hsome
  have hsane : b₀.Sane := ((advances_pop _).keeps (Statement.fine_rested Session.fine_after).sane).1
  have hprepared : c.Prepared b := prepared_of_read hsane hread (by decide +kernel)
    (.inl (by decide))
  have hworkable : c.Workable b m :=
    ⟨hprepared, by decide +kernel, by decide +kernel, by decide +kernel⟩
  refine ⟨⟨before, hread⟩, hworkable, by decide +kernel, ?_⟩
  have hdecides := (comparisons_decide_words hworkable).2.1
  have hfalse : c.op.holdsWords (m.eval c.a.word) (m.eval c.b.word) = false := by decide +kernel
  rwa [hfalse] at hdecides

end Condition

/-! ### Scratch cells without a place -/

namespace Session

/-- A comparison in a program whose variables take all cells of the machine. -/
def crowdedComparison : String := "my p[65533]; while (display < 5) \x7b display = 7; \x7d"

def crowdedCondition : Condition := ⟨.cell 1, .lt, .constant 5⟩

lemma Crowded.yields_read {b : Workbench} {ts : List Token}
    (h : Crowded 65536 ("(" :: "display" :: "<" :: "5" :: ")" :: ts) b) :
    Yields (Condition.read {}) b (crowdedCondition, []) { b with tokens := ts } := by
  have hdisplay : Yields (reference {} .source)
      { b with tokens := "display" :: "<" :: "5" :: ")" :: ts }
      (.cell 1, []) { b with tokens := "<" :: "5" :: ")" :: ts } :=
    (h.goOn _).yields_display (by simp [Tokens.peek])
  have hnumeral : Yields (reference {} .source) { b with tokens := "5" :: ")" :: ts }
      (.constant 5, []) { b with tokens := ")" :: ts } :=
    yields_numeral {} rfl (by decide) (by decide +kernel)
  rw [Condition.read, yields_bind]
  refine ⟨(), _, (yields_expect h.tokens).mpr rfl, ?_⟩
  rw [yields_bind]
  refine ⟨_, _, hdisplay, ?_⟩
  rw [yields_bind]
  refine ⟨"<", _, rfl, ?_⟩
  dsimp only
  rw [if_neg (by decide), yields_bind]
  refine ⟨.lt, _, rfl, ?_⟩
  rw [yields_bind]
  refine ⟨_, _, hnumeral, ?_⟩
  rw [yields_bind]
  refine ⟨(), _, rfl, ?_⟩
  rw [yields_bind]
  refine ⟨(), _, rfl, ?_⟩
  rw [yields_bind]
  exact ⟨(), _, (yields_expect rfl).mpr rfl, rfl⟩

def crowdedCode (t : Nat) : Code :=
  [{ opcode := .sub, lhs := .cell 1, rhs := .constant 5, dest := .cellDest t }]

lemma Crowded.lower {b : Workbench} {ts : List Token} (h : Crowded 65536 ts b) :
    crowdedCondition.code b = crowdedCode 65536 ∧ (crowdedCondition.pool b).addresses =
    [65536] := by
  have hempty : b = { b with scratch := ⟨[]⟩ } := by rw [← h.scratch]
  have hlower : (crowdedCondition.lower.on b).1.2 = crowdedCode b.globals.nextFree ∧
      (crowdedCondition.lower.on b).2.scratch.addresses = [b.globals.nextFree] := by
    rw [hempty]
    exact ⟨rfl, rfl⟩
  rwa [h.nextFree] at hlower

/-- If the variables take all cells of the machine, the code of a comparison can jump. -/
theorem comparison_without_place : ∃ b₀ b, Reached bare crowdedComparison b₀ ∧
    Yields (Condition.read {}) b₀ (crowdedCondition, []) b ∧ crowdedCondition.Prepared b ∧
    crowdedCondition.a.IsClear [] (crowdedCondition.pool b) .zero ∧
    crowdedCondition.b.IsClear [] (crowdedCondition.pool b) .zero ∧
    ¬ crowdedCondition.Decides b .zero (crowdedCondition.op.holdsWords
      (Memory.zero.eval crowdedCondition.a.word) (Memory.zero.eval crowdedCondition.b.word)) := by
  have hstart : Crowded 65536 ("while" :: "(" :: "display" :: "<" :: "5" :: ")" ::
      ["\x7b", "display", "=", "7", ";", "\x7d"])
      (Statement.rested (after bare crowdedComparison 1)).bench :=
    crowded_after (show Numeral.size? "65533" = some 65533 by decide +kernel) (by decide +kernel)
  have hb := hstart.pop
  have hreached : Reached bare crowdedComparison _ :=
    .work Work.pop (.statement 1) advances_pop.keeps
  generalize (Work.pop.on (Statement.rested (after bare crowdedComparison 1)).bench).2 =
    b₀ at hb hreached
  have hb' := hb.goOn ["\x7b", "display", "=", "7", ";", "\x7d"]
  obtain ⟨hcode, hpool⟩ := hb'.lower
  refine ⟨b₀, _, hreached, hb.yields_read,
    ⟨hreached.sane.congr rfl rfl, ?_, ?_, ?_, ?_⟩, ?_, ?_, ?_⟩
  · exact ⟨⟨_, rfl⟩, fun t ht => absurd ht List.not_mem_nil⟩
  · exact ⟨⟨_, rfl⟩, fun t ht => absurd ht List.not_mem_nil⟩
  · exact fun t ht => absurd ht List.not_mem_nil
  · exact .inl rfl
  · rw [Backed.IsClear, hpool]
    exact List.all_iff_forall_prop.mp (by decide +kernel)
  · rw [Backed.IsClear, hpool]
    exact List.all_iff_forall_prop.mp (by decide +kernel)
  · intro hdecides
    obtain ⟨m', hleads, -⟩ := hdecides ⟨{}, {}, []⟩ _ 0 #[] (List.prefix_refl _)
    rw [hcode] at hleads
    exact not_leads_one rfl rfl rfl hleads

end Session
end CogolToolchain
