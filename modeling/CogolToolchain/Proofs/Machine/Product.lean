import CogolToolchain.Proofs.Machine.Scratch
import Mathlib.Data.UInt

/-!
The loop that multiplies.

The machine has no multiplication, so a product is built up in the destination: one cell counts from
a negative number up to zero, and another one is added in each round. A positive factor is negated
for that; for a negative factor the other one is negated instead.
-/

namespace CogolToolchain
namespace Machine

open Memory

/-- The code of a product: the cell `p` counts and the cell `q` is added. The word `last` is the
place of the last instruction. -/
def productWords (lhs rhs dest : WordOperand) (p q last : Word) : List WordInstruction := [
  ⟨.sub, ⟨.constant, 0⟩, lhs, ⟨.constant, p⟩⟩,
  ⟨.add, ⟨.constant, 0⟩, rhs, ⟨.constant, q⟩⟩,
  ⟨.mlz, ⟨.address, p⟩, ⟨.constant, last - 1⟩, ⟨.constant, 0⟩⟩,
  ⟨.mlz, ⟨.constant, -1⟩, ⟨.constant, 0⟩, dest⟩,
  ⟨.sub, ⟨.constant, 0⟩, ⟨.address, p⟩, ⟨.constant, p⟩⟩,
  ⟨.mlz, ⟨.constant, -1⟩, ⟨.constant, last - 1⟩, ⟨.constant, 0⟩⟩,
  ⟨.sub, ⟨.constant, 0⟩, ⟨.address, q⟩, ⟨.constant, q⟩⟩,
  ⟨.add, ⟨dest.mode.raised, dest.value⟩, ⟨.address, q⟩, dest⟩,
  ⟨.mlz, ⟨.address, p⟩, ⟨.constant, last - 2⟩, ⟨.constant, 0⟩⟩,
  ⟨.add, ⟨.address, p⟩, ⟨.constant, 1⟩, ⟨.constant, p⟩⟩]

namespace Product

/-- The two cells of the loop and the cell `c` of the product get in the way of nothing. -/
structure Site (S : Set Word) (own : List Word) (p q c : Word) : Prop where
  zero_mem : 0 ∈ S
  p_mem : p ∈ S
  q_mem : q ∈ S
  c_mem : c ∈ S
  zero_own : 0 ∉ own
  p_own : p ∉ own
  q_own : q ∉ own
  c_own : c ∉ own
  p_ne_zero : p ≠ 0
  p_ne_one : p ≠ 1
  q_ne_zero : q ≠ 0
  q_ne_one : q ≠ 1
  c_ne_zero : c ≠ 0
  p_ne_q : p ≠ q
  p_ne_c : p ≠ c
  q_ne_c : q ≠ c

/-- The memory in the course of the loop: `x` is the count, `z` is added, and `v` is the sum. -/
structure Holds (S : Set Word) (own : List Word) (dest : WordOperand) (p q c : Word) (σ : Memory)
    (x z v : Word) (m : Memory) : Prop where
  frame : EqOff S σ m
  count : m.read p = x
  term : m.read q = z
  sum : m.read c = v
  dest : m.Shows S own dest c

section

variable {S : Set Word} {own : List Word} {dest : WordOperand} {p q c x z v w : Word} {σ m : Memory}
  {k : Nat}

lemma shows_write {e : Word} (h : m.Shows S own dest c) (he : e ∈ S) (heo : e ∉ own) (w : Word) :
    (m.write e w).Shows S own dest c := by
  refine h.congr (EqOff.write_self m (Set.mem_singleton e) w) (Set.singleton_subset_iff.mpr he) ?_
  rintro a ha rfl
  exact heo ha

lemma Holds.arrive (hs : Site S own p q c) (h : Holds S own dest p q c σ x z v m) (k : Nat) :
    Holds S own dest p q c σ x z v (m.arrive k) where
  frame := h.frame.write_right hs.zero_mem _
  count := (read_write_ne m _ hs.p_ne_zero.symm).trans h.count
  term := (read_write_ne m _ hs.q_ne_zero.symm).trans h.term
  sum := (read_write_ne m _ hs.c_ne_zero.symm).trans h.sum
  dest := shows_write h.dest hs.zero_mem hs.zero_own _

lemma Holds.set_count (hs : Site S own p q c) (h : Holds S own dest p q c σ x z v m) (w : Word) :
    Holds S own dest p q c σ w z v (m.write p w) where
  frame := h.frame.write_right hs.p_mem w
  count := read_write_self m p w
  term := (read_write_ne m w hs.p_ne_q).trans h.term
  sum := (read_write_ne m w hs.p_ne_c).trans h.sum
  dest := shows_write h.dest hs.p_mem hs.p_own w

lemma Holds.set_term (hs : Site S own p q c) (h : Holds S own dest p q c σ x z v m) (w : Word) :
    Holds S own dest p q c σ x w v (m.write q w) where
  frame := h.frame.write_right hs.q_mem w
  count := (read_write_ne m w hs.p_ne_q.symm).trans h.count
  term := read_write_self m q w
  sum := (read_write_ne m w hs.q_ne_c).trans h.sum
  dest := shows_write h.dest hs.q_mem hs.q_own w

lemma Holds.set_sum (hs : Site S own p q c) (h : Holds S own dest p q c σ x z v m) (w : Word) :
    Holds S own dest p q c σ x z w (m.write c w) where
  frame := h.frame.write_right hs.c_mem w
  count := (read_write_ne m w hs.p_ne_c.symm).trans h.count
  term := (read_write_ne m w hs.q_ne_c.symm).trans h.term
  sum := read_write_self m c w
  dest := shows_write h.dest hs.c_mem hs.c_own w

lemma shows_word (m : Memory) (S : Set Word) (a : Word) : m.Shows S [a] ⟨.address, a⟩ (m.read a) :=
  ⟨rfl, by simp [Memory.path, Mode.level, trail]⟩

def shown (c w : Word) (d : Array Word) : Array Word := if c = 1 then d.push w else d

lemma shown_of_ne (h : c ≠ 1) (w : Word) (d : Array Word) : shown c w d = d := if_neg h

lemma Holds.execute_sum (hs : Site S own p q c) (h : Holds S own dest p q c σ x z v m)
    (hmode : dest.mode ≠ .doubleDeref) (d : Array Word) :
    execute ⟨.add, ⟨dest.mode.raised, dest.value⟩, ⟨.address, q⟩, dest⟩ m d =
      (m.write c (v + z), shown c (v + z) d, none) := by
  have hdest : m.eval dest = c := h.dest.eval_eq
  have hread : m.eval ⟨dest.mode.raised, dest.value⟩ = v := by
    rw [Memory.eval, level_raised hmode, follow_succ]
    exact (congrArg m.read hdest).trans h.sum
  have hterm : m.eval ⟨.address, q⟩ = z := h.term
  rw [execute_of_apply_eq_some (w := v + z), hdest, store, if_neg hs.c_ne_zero]
  · rfl
  · rw [hread, hterm]
    rfl

lemma Holds.execute_clear (hs : Site S own p q c) (h : Holds S own dest p q c σ x z v m)
    (d : Array Word) :
    execute ⟨.mlz, ⟨.constant, -1⟩, ⟨.constant, 0⟩, dest⟩ m d =
    (m.write c 0, shown c 0 d, none) := by
  have hdest : m.eval dest = c := h.dest.eval_eq
  rw [execute_of_apply_eq_some (w := 0) d rfl, hdest, store, if_neg hs.c_ne_zero]
  rfl

lemma Site.execute_count (hs : Site S own p q c) {i : WordInstruction} {w : Word}
    (hi : i.dest = ⟨.constant, p⟩) (ho : i.opcode.apply (m.eval i.lhs) (m.eval i.rhs) = some w)
    (d : Array Word) : execute i m d = (m.write p w, d, none) := by
  rw [execute_of_apply_eq_some d ho, hi, eval_constant, store, if_neg hs.p_ne_one,
    if_neg hs.p_ne_zero]

lemma Site.execute_term (hs : Site S own p q c) {i : WordInstruction} {w : Word}
    (hi : i.dest = ⟨.constant, q⟩) (ho : i.opcode.apply (m.eval i.lhs) (m.eval i.rhs) = some w)
    (d : Array Word) : execute i m d = (m.write q w, d, none) := by
  rw [execute_of_apply_eq_some d ho, hi, eval_constant, store, if_neg hs.q_ne_one,
    if_neg hs.q_ne_zero]

end

/-! ### The loop -/

section Loop

variable {prog : List WordInstruction} {S : Set Word} {own : List Word} {lhs rhs dest : WordOperand}
  {p q c x z v : Word} {σ m : Memory} {k : Nat}

lemma toNat_ofNat_sub {last : Nat} (hlast : last < 65536) {w : Word} (hw : w.toNat ≤ last) :
    (UInt16.ofNat last - w).toNat = last - w.toNat := by
  have hnat : (UInt16.ofNat last).toNat = last := UInt16.toNat_ofNat_of_lt' hlast
  rw [UInt16.toNat_sub_of_le _ _ (by rw [UInt16.le_iff_toNat_le, hnat]; exact hw), hnat]

lemma leads_round (hsits : Sits prog k (productWords lhs rhs dest p q (UInt16.ofNat (k + 9))))
    (hk : k + 9 < 65536) (hs : Site S own p q c) (hmode : dest.mode ≠ .doubleDeref)
    (h : Holds S own dest p q c σ x z v m) (hx : Word.isNegative x = true) (d : Array Word) :
    ∃ m', Leads prog 3 ⟨k + 8, m, d⟩ ⟨k + 8, m', shown c (v + z) d⟩ ∧
      Holds S own dest p q c σ (x + 1) z (v + z) m' := by
  simp only [productWords, sits_cons] at hsits
  obtain ⟨-, -, -, -, -, -, -, hsum, htest, hcount, -⟩ := hsits
  have harrive := h.arrive hs (k + 9)
  have hslot : execute ⟨.add, ⟨.address, p⟩, ⟨.constant, 1⟩, ⟨.constant, p⟩⟩ (m.arrive (k + 9)) d =
      ((m.arrive (k + 9)).write p (x + 1), d, none) := by
    refine hs.execute_count rfl ?_ d
    exact congrArg (fun w => some (w + 1)) harrive.count
  have hcounted := harrive.set_count hs (x + 1)
  have hlhs : m.Shows S [p] ⟨.address, p⟩ x := h.count ▸ shows_word m S p
  have hjump := Leads.of_branch (d := d) htest hcount hs.zero_mem hlhs
    (by simpa using hs.p_ne_zero.symm) rfl rfl (by simp [Opcode.apply, hx]) hslot
  have hland : (UInt16.ofNat (k + 9) - 2).toNat = k + 7 := toNat_ofNat_sub hk (by simp)
  rw [hland] at hjump
  have hadd := (hcounted.arrive hs (k + 7)).execute_sum hs hmode d
  exact ⟨_, hjump.trans (Leads.of_execute hsum hadd), (hcounted.arrive hs (k + 7)).set_sum hs _⟩

lemma leads_exit (hsits : Sits prog k (productWords lhs rhs dest p q (UInt16.ofNat (k + 9))))
    (hs : Site S own p q c) (h : Holds S own dest p q c σ x z v m) (hx : Word.isNegative x = false)
    (d : Array Word) :
    ∃ m', Leads prog 2 ⟨k + 8, m, d⟩ ⟨k + 10, m', d⟩ ∧
      Holds S own dest p q c σ (x + 1) z v m' := by
  simp only [productWords, sits_cons] at hsits
  obtain ⟨-, -, -, -, -, -, -, -, htest, hcount, -⟩ := hsits
  have hlhs : m.Shows S [p] ⟨.address, p⟩ x := h.count ▸ shows_word m S p
  have hidle := Leads.of_idle htest hs.zero_mem hlhs (by simpa using hs.p_ne_zero.symm)
    (by simp [Opcode.apply, hx]) d
  have harrive := (h.arrive hs (k + 8)).arrive hs (k + 9)
  have hslot : execute ⟨.add, ⟨.address, p⟩, ⟨.constant, 1⟩, ⟨.constant, p⟩⟩
      ((m.arrive (k + 8)).arrive (k + 9)) d =
        (((m.arrive (k + 8)).arrive (k + 9)).write p (x + 1), d, none) := by
    refine hs.execute_count rfl ?_ d
    exact congrArg (fun w => some (w + 1)) harrive.count
  exact ⟨_, hidle.trans (Leads.of_execute hcount hslot), harrive.set_count hs (x + 1)⟩

/-- The loop adds `z` as many times as it counts. -/
lemma leads_loop (hsits : Sits prog k (productWords lhs rhs dest p q (UInt16.ofNat (k + 9))))
    (hk : k + 9 < 65536) (hs : Site S own p q c) (hmode : dest.mode ≠ .doubleDeref)
    (d : Array Word) (n : Nat) (hn : n ≤ 32768)
    (h : Holds S own dest p q c σ (-UInt16.ofNat n) z v m) :
    ∃ steps m' d', Leads prog steps ⟨k + 8, m, d⟩ ⟨k + 10, m', d'⟩ ∧ (c ≠ 1 → d' = d) ∧
      ∃ x, Holds S own dest p q c σ x z (v + UInt16.ofNat n * z) m' := by
  induction n generalizing m v d with
  | zero =>
    obtain ⟨m', hleads, hholds⟩ := leads_exit hsits hs h rfl d
    exact ⟨2, m', d, hleads, fun _ => rfl, _, by simpa using hholds⟩
  | succ n ih =>
    have hneg : Word.isNegative (-UInt16.ofNat (n + 1)) = true := by
      have hsize : UInt16.size = 65536 := rfl
      rw [Word.isNegative_iff, UInt16.toNat_neg, UInt16.toNat_ofNat_of_lt' (by omega), hsize]
      omega
    obtain ⟨m₁, hround, h₁⟩ := leads_round hsits hk hs hmode h hneg d
    have hcount : -UInt16.ofNat (n + 1) + 1 = -UInt16.ofNat n := by
      rw [UInt16.ofNat_add]
      grind
    rw [hcount] at h₁
    obtain ⟨steps, m', d', hleads, hd', x, hx⟩ := ih _ (by omega) h₁
    refine ⟨3 + steps, m', d', hround.trans hleads, fun hc => (hd' hc).trans (shown_of_ne hc _ d),
      x, ?_⟩
    have hsum : v + z + UInt16.ofNat n * z = v + UInt16.ofNat (n + 1) * z := by
      rw [UInt16.ofNat_add]
      grind
    rwa [hsum] at hx

/-- The code of a product leaves the product in its cell. If that is the display, all sums on the
way to the product are shown. -/
theorem leads_product {hidden : Set Word} {ownl ownr : List Word} {y : Word}
    (hsits : Sits prog k (productWords lhs rhs dest p q (UInt16.ofNat (k + 9))))
    (hk : k + 9 < 65536) (hs : Site S own p q c) (hmode : dest.mode ≠ .doubleDeref)
    (h0 : 0 ∈ hidden) (hp : p ∈ hidden)
    (hl : m.Shows hidden ownl lhs x) (hlo : 0 ∉ ownl)
    (hr : m.Shows hidden ownr rhs y) (hro : 0 ∉ ownr) (hpr : p ∉ ownr)
    (hd : m.Shows S own dest c) (hm : EqOff S σ m) (d : Array Word) :
    ∃ steps m' d', Leads prog steps ⟨k, m, d⟩ ⟨k + 10, m', d'⟩ ∧ (c ≠ 1 → d' = d) ∧ EqOff S σ m' ∧
      m'.read c = x * y := by
  have hloop : ∀ {n : Nat} {z : Word} {m₁ : Memory} {j : Nat}, n ≤ 32768 →
      UInt16.ofNat n * z = x * y → Leads prog j ⟨k, m, d⟩ ⟨k + 8, m₁, shown c 0 d⟩ →
      Holds S own dest p q c σ (-UInt16.ofNat n) z 0 m₁ →
      ∃ steps m' d', Leads prog steps ⟨k, m, d⟩ ⟨k + 10, m', d'⟩ ∧ (c ≠ 1 → d' = d) ∧ EqOff S σ m' ∧
        m'.read c = x * y := by
    intro n z m₁ j hn hz hleads h₁
    obtain ⟨steps, m', d', hend, hd', x', h'⟩ := leads_loop hsits hk hs hmode _ n hn h₁
    refine ⟨j + steps, m', d', hleads.trans hend, fun hc => (hd' hc).trans (shown_of_ne hc 0 d),
      h'.frame, ?_⟩
    rw [h'.sum, hz, UInt16.zero_add]
  have hcode := hsits
  simp only [productWords, sits_cons] at hcode
  obtain ⟨hi0, hi1, hi2, hi3, hi4, hi5, hi6, -, -, -, -⟩ := hcode
  -- both factors are taken before the destination is written
  have hexec0 : execute ⟨.sub, ⟨.constant, 0⟩, lhs, ⟨.constant, p⟩⟩ (m.arrive k) d =
      ((m.arrive k).write p (0 - x), d, none) := by
    refine hs.execute_count rfl ?_ d
    exact congrArg (fun w => some (0 - w)) (hl.arrive h0 hlo k).eval_eq
  have hr₁ : ((m.arrive k).write p (0 - x)).Shows hidden ownr rhs y :=
    shows_write (hr.arrive h0 hro k) hp hpr _
  have hexec1 : execute ⟨.add, ⟨.constant, 0⟩, rhs, ⟨.constant, q⟩⟩
      (((m.arrive k).write p (0 - x)).arrive (k + 1)) d =
      ((((m.arrive k).write p (0 - x)).arrive (k + 1)).write q y, d, none) := by
    refine hs.execute_term rfl ?_ d
    rw [← UInt16.zero_add y]
    exact congrArg (fun w => some (0 + w)) (hr₁.arrive h0 hro (k + 1)).eval_eq
  have hstart : Holds S own dest p q c σ (m.read p) (m.read q) (m.read c) m :=
    ⟨hm, rfl, rfl, rfl, hd⟩
  have h₁ := (((hstart.arrive hs k).set_count hs (0 - x)).arrive hs (k + 1)).set_term hs y
  have hgo := (Leads.of_execute hi0 hexec0).trans (Leads.of_execute hi1 hexec1)
  generalize (((m.arrive k).write p (0 - x)).arrive (k + 1)).write q y = m₁ at h₁ hgo
  have hlhs : m₁.Shows S [p] ⟨.address, p⟩ (0 - x) := h₁.count ▸ shows_word m₁ S p
  have hpo : (0 : Word) ∉ [p] := by simpa using hs.p_ne_zero.symm
  have hland : (UInt16.ofNat (k + 9) - 1).toNat = k + 8 := toNat_ofNat_sub hk (by simp)
  have hsize : UInt16.size = 65536 := rfl
  by_cases hneg : Word.isNegative (0 - x) = true
  · -- a positive factor is counted up from its negative
    have hexec3 := (h₁.arrive hs (k + 3)).execute_clear hs d
    have hjump := Leads.of_branch hi2 hi3 hs.zero_mem hlhs hpo rfl rfl (if_pos hneg) hexec3
    rw [hland] at hjump
    refine hloop (n := x.toNat) (z := y) ?_ ?_ (hgo.trans hjump) ?_
    · have hx := x.toNat_lt
      rw [Word.isNegative_iff, UInt16.zero_sub, UInt16.toNat_neg, hsize] at hneg
      omega
    · rw [UInt16.ofNat_toNat]
    · rw [UInt16.ofNat_toNat, ← UInt16.zero_sub]
      exact (h₁.arrive hs (k + 3)).set_sum hs 0
  · -- for any other factor, the negative of the other one is added
    rw [Bool.not_eq_true] at hneg
    have hidle := Leads.of_idle hi2 hs.zero_mem hlhs hpo
      (fun _ => if_neg (Bool.not_eq_true _ ▸ hneg)) d
    have h₂ := h₁.arrive hs (k + 2)
    have hclear := Leads.of_execute hi3 ((h₂.arrive hs (k + 3)).execute_clear hs d)
    have h₃ := (h₂.arrive hs (k + 3)).set_sum hs 0
    generalize ((m₁.arrive (k + 2)).arrive (k + 3)).write c 0 = m₃ at h₃ hclear
    have h₄ := h₃.arrive hs (k + 4)
    have hexec4 : execute ⟨.sub, ⟨.constant, 0⟩, ⟨.address, p⟩, ⟨.constant, p⟩⟩ (m₃.arrive (k + 4))
        (shown c 0 d) = ((m₃.arrive (k + 4)).write p (0 - (0 - x)), shown c 0 d, none) := by
      refine hs.execute_count rfl ?_ _
      exact congrArg (fun w => some (0 - w)) h₄.count
    have h₅ := h₄.set_count hs (0 - (0 - x))
    have hcount := Leads.of_execute hi4 hexec4
    generalize (m₃.arrive (k + 4)).write p (0 - (0 - x)) = m₄ at h₅ hcount
    have h₆ := h₅.arrive hs (k + 6)
    have hexec6 : execute ⟨.sub, ⟨.constant, 0⟩, ⟨.address, q⟩, ⟨.constant, q⟩⟩ (m₄.arrive (k + 6))
        (shown c 0 d) = ((m₄.arrive (k + 6)).write q (0 - y), shown c 0 d, none) := by
      refine hs.execute_term rfl ?_ _
      exact congrArg (fun w => some (0 - w)) h₆.term
    have hjump := Leads.of_branch hi5 hi6 hs.zero_mem (shows_constant m₄ S (-1)) (by simp)
      rfl rfl rfl hexec6
    rw [hland] at hjump
    refine hloop (n := (0 - x).toNat) (z := 0 - y) ?_ ?_
      (hgo.trans (hidle.trans (hclear.trans (hcount.trans hjump)))) ?_
    · rw [Bool.eq_false_iff, ne_eq, Word.isNegative_iff] at hneg
      omega
    · rw [UInt16.ofNat_toNat]
      grind
    · rw [UInt16.ofNat_toNat, ← UInt16.zero_sub]
      exact h₆.set_term hs (0 - y)

end Loop
end Product
end Machine
end CogolToolchain
