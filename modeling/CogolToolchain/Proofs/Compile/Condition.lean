import CogolToolchain.Compile.Condition
import CogolToolchain.Proofs.Compile.Reference

/-!
Lowering a condition decides it.

Words are compared by the sign of their wrapped difference, or by equality; two constants are
compared as numbers. A condition that is lowered decides exactly that, and the code of its test
writes only scratch cells that no other operand needs.
-/

namespace CogolToolchain

open Memory Machine Work Attempt ScratchPool

namespace Comparison

def holdsWords (op : Comparison) (x y : Word) : Bool :=
  match op with
  | lt => Word.isNegative (x - y)
  | le => Word.isNegative (x - y - 1)
  | gt => Word.isNegative (y - x)
  | ge => Word.isNegative (y - x - 1)
  | eq => x == y
  | ne => x != y

lemma holds_negated (op : Comparison) (a b : Int) : op.negated.holds a b = !op.holds a b := by
  cases op <;> simp only [negated, holds] <;> grind

lemma holdsWords_negated (op : Comparison) (x y : Word) :
    op.negated.holdsWords x y = !op.holdsWords x y := by
  cases op <;> simp [negated, holdsWords, Word.isNegative_sub_sub_one, bne]

end Comparison

/-- The operand has a known value, and its cells are in use. -/
structure Backed.Ready (a : Backed) (p : ScratchPool) : Prop where
  known : ∃ n, a.value = .known n
  busy : ∀ t ∈ a.cells, p.Busy t

lemma Backed.Ready.zero_notMem {a : Backed} {p p' : ScratchPool} {hidden : Set Word} (h : a.Ready p)
    (hf : p'.Fits hidden) (hp : p.addresses <+: p'.addresses) : 0 ∉ a.own := by
  exact hf.zero_notMem_map fun t ht => hp.subset (h.busy t ht).mem_addresses

section

variable {p p' : ScratchPool} {a b : Backed} {code : Code}

lemma Lowers.ready (h : Lowers p a code p') : a.Ready p' := ⟨h.known, fun _ => h.own_mem⟩

lemma Backed.Ready.lowers (ha : a.Ready p) (h : Lowers p b code p') : a.Ready p' :=
  ⟨ha.known, fun t ht => h.keeps (ha.busy t ht)⟩

lemma Lowers.disjoint (h : Lowers p b code p') (ha : a.Ready p) : ∀ u ∈ a.cells, u ∉ b.cells :=
  fun u hu hub => h.own u hub (ha.busy u hu)

end

def Branch.Decides (hidden : Set Word) (m : Memory) (branch : Branch) (v : Bool) : Prop :=
  match branch with
  | .always => v = true
  | .never => v = false
  | .ifNegative test => (∃ n, test.value = .known n) ∧
    ∃ own w, 0 ∉ own ∧ m.Shows hidden own test.word w ∧ Word.isNegative w = v
  | .ifNonZero test => (∃ n, test.value = .known n) ∧
    ∃ own w, 0 ∉ own ∧ m.Shows hidden own test.word w ∧ decide (w ≠ 0) = v

lemma Branch.Decides.move? {hidden : Set Word} {m : Memory} {branch : Branch} {v : Bool}
    (h : branch.Decides hidden m v) (r : Resolver) (source dest : Operand) :
    (branch.move? source dest = none ∧ v = false) ∨
      ∃ opcode lhs own x, branch.move? source dest = some { opcode, lhs, rhs := source, dest } ∧
        0 ∉ own ∧ m.Shows hidden own (r.word lhs) x ∧
        ∀ y, Opcode.apply opcode x y = if v then some y else none := by
  cases branch with
  | always =>
    obtain rfl : v = true := h
    exact .inr ⟨_, _, [], _, rfl, by simp, shows_constant m hidden _, fun y => rfl⟩
  | never => exact .inl ⟨rfl, h⟩
  | ifNegative test =>
    obtain ⟨⟨n, hn⟩, own, x, h0, hx, rfl⟩ := h
    exact .inr ⟨_, _, own, x, rfl, h0, by rwa [r.word_of_known hn], fun y => rfl⟩
  | ifNonZero test =>
    obtain ⟨⟨n, hn⟩, own, x, h0, hx, rfl⟩ := h
    refine .inr ⟨_, _, own, x, rfl, h0, by rwa [r.word_of_known hn], fun y => ?_⟩
    by_cases hzero : x = 0 <;> simp [Opcode.apply, hzero]

def Scribbles (p : ScratchPool) (own : List Nat) (code : Code) (p' : ScratchPool) : Prop :=
  ∀ i ∈ code, ∃ t ∈ p'.addresses, i.dest = .cellDest t ∧ (p.Busy t → t ∈ own)

namespace Test

variable (a b : Backed)

lemma advances_difference : Advances false (difference a b) :=
  (advances_releaseCells _).bind fun _ => (advances_releaseCells _).bind fun _ =>
    advances_allocScratch.bind fun _ => advances_pure _

lemma advances_distance : Advances false (distance a b) := by
  unfold distance
  split
  · exact advances_pure _
  · split
    · exact advances_pure _
    · exact advances_difference a b

lemma advances_lower (t : Test) : Advances false t.lower := by
  cases t with
  | less a b =>
    rw [lower]
    split
    · exact advances_pure _
    · exact (advances_difference a b).bind fun _ => advances_pure _
  | lessEq a b =>
    exact (advances_releaseCells _).bind fun _ => advances_allocScratch.bind fun _ =>
      advances_pure _
  | equal a b =>
    exact (advances_distance a b).bind fun _ => advances_allocScratch.bind fun _ => advances_pure _
  | differ a b => exact (advances_distance a b).bind fun _ => advances_pure _

lemma tokens_lower (t : Test) (w : Workbench) : (t.lower.on w).2.tokens = w.tokens := by
  have hdiff : ∀ a b, ((difference a b).on w).2.tokens = w.tokens := by simp [difference]
  have hdist : ∀ a b, ((distance a b).on w).2.tokens = w.tokens := by
    intro a b
    unfold distance
    split
    · rfl
    · split
      · rfl
      · exact hdiff a b
  cases t with
  | less a b =>
    rw [lower]
    split
    · rfl
    · exact hdiff a b
  | lessEq a b => simp [lower]
  | equal a b => simpa [lower] using hdist a b
  | differ a b => exact hdist a b

end Test

namespace Test

/-! ### What a test decides -/

def left : Test → Backed
  | less a _ | lessEq a _ | equal a _ | differ a _ => a

def right : Test → Backed
  | less _ b | lessEq _ b | equal _ b | differ _ b => b

def sense : Test → Word → Word → Bool
  | less .., x, y => Word.isNegative (x - y)
  | lessEq .., x, y => Word.isNegative (x - (y + 1))
  | equal .., x, y => x == y
  | differ .., x, y => x != y

variable {hidden : Set Word} {r : Resolver} {w w' : Workbench} {a b d : Backed} {code : Code}
  {m σ : Memory} {x y : Word}

lemma eq_zero_of_isZero {own : List Word} (h : a.isZero = true) (hx : m.Shows hidden own a.word x) :
    x = 0 := by
  have hconst : a.constant? = some 0 := by simpa [Operand.isZero] using h
  exact Reference.eq_of_constant? hconst hx

lemma takes_difference (hw : w.Sane) (h : (difference a b).on w = ((d, code), w')) :
    ∃ t w₁, Takes w₁ t w' ∧
      (∀ u, w₁.scratch.Busy u ↔ w.scratch.Busy u ∧ u ∉ a.cells ∧ u ∉ b.cells) ∧
      d = .scratchCell t ∧ code = [{ opcode := .sub, lhs := a.toOperand, rhs := b.toOperand,
                                     dest := .cellDest t }] := by
  obtain ⟨hs₁, -⟩ := (advances_releaseCells a.cells w).keeps hw
  obtain ⟨hs₂, -⟩ := (advances_releaseCells b.cells _).keeps hs₁
  simp only [difference, Work.on_bind, Work.on_pure, Prod.mk.injEq] at h
  obtain ⟨⟨rfl, rfl⟩, rfl⟩ := h
  refine ⟨_, _, takes_allocScratch hs₂, fun u => ?_, rfl, rfl⟩
  have hnodup : (a.cells.foldl ScratchPool.release w.scratch).addresses.Nodup := by
    simpa using hw.nodup
  simp only [on_release, busy_foldl_release hnodup, busy_foldl_release hw.nodup, and_assoc]

lemma shows_difference {own own' : List Word} {t : Nat} {p : ScratchPool} (hf : p.Fits hidden)
    (ht : t ∈ p.addresses) (ha : ∃ n, a.value = .known n) (hb : ∃ n, b.value = .known n)
    (hx : m.Shows hidden own a.word x) (hxo : 0 ∉ own) (hy : m.Shows hidden own' b.word y)
    (hyo : 0 ∉ own') (hm : EqOff hidden σ m) (k : Nat → Nat) :
    let m' := after k (r.words [{ opcode := .sub, lhs := a.toOperand, rhs := b.toOperand,
                                  dest := .cellDest t }]) m
    EqOff hidden σ m' ∧ m'.Shows hidden [UInt16.ofNat t] (Backed.scratchCell t).word (x - y) := by
  obtain ⟨n, hn⟩ := ha
  obtain ⟨n', hn'⟩ := hb
  rw [← r.word_of_known hn] at hx
  rw [← r.word_of_known hn'] at hy
  obtain ⟨hm', -, hread⟩ := Reference.after_op (o := .sub) rfl hf ht hx hxo hy hyo hm k rfl
  refine ⟨hm', ?_⟩
  have hcell := Reference.shows_own_cell (r := r) hm' hread
  rwa [r.word_of_known rfl] at hcell

/-- The operand and the code compute, from operands that stand for `x` and `y`, a word `v` with
`P x y v`. They use the cells of the operands and free ones, and what the operand needs is in
use. -/
structure Measures (hidden : Set Word) (r : Resolver) (p : ScratchPool) (a b d : Backed)
    (code : Code) (p' : ScratchPool) (P : Word → Word → Word → Prop) : Prop where
  ready : d.Ready p'
  scribbles : Scribbles p (a.cells ++ b.cells) code p'
  keeps : ∀ u, p.Busy u → u ∈ a.cells ++ b.cells ∨ p'.Busy u
  shows : ∀ k m σ x y, EqOff hidden σ m → m.Shows hidden a.own a.word x →
    m.Shows hidden b.own b.word y → EqOff hidden σ (after k (r.words code) m) ∧
      ∃ v, P x y v ∧ (after k (r.words code) m).Shows hidden d.own d.word v

lemma measures_difference (hw : w.Sane) (ha : a.Ready w.scratch) (hb : b.Ready w.scratch)
    (h : (difference a b).on w = ((d, code), w')) (hf : w'.scratch.Fits hidden) :
    Measures hidden r w.scratch a b d code w'.scratch fun x y v => v = x - y := by
  have hgrow := ((advances_difference a b w).keeps hw).2.scratch
  rw [h] at hgrow
  obtain ⟨t, w₁, ht, hbusy, rfl, rfl⟩ := takes_difference hw h
  have hkeeps : ∀ u, w.scratch.Busy u → u ∈ a.cells ++ b.cells ∨ w₁.scratch.Busy u := by
    intro u hu
    rw [hbusy, List.mem_append]
    tauto
  refine ⟨⟨⟨_, rfl⟩, ?_⟩, ?_, fun u hu => ?_, fun k m σ x y hm hx hy => ?_⟩
  · intro u hu
    rw [ht.busy]
    exact .inr (by simpa [Backed.scratchCell] using hu)
  · intro i hi
    obtain rfl := List.mem_singleton.mp hi
    exact ⟨t, ht.mem, rfl, fun hu => (hkeeps t hu).resolve_right ht.free⟩
  · rw [ht.busy]
    exact (hkeeps u hu).imp_right .inl
  · obtain ⟨hm', hshows⟩ := shows_difference (r := r) hf ht.mem ha.known hb.known hx
      (ha.zero_notMem hf hgrow) hy (hb.zero_notMem hf hgrow) hm k
    exact ⟨hm', _, rfl, hshows⟩

lemma measures_distance (hw : w.Sane) (ha : a.Ready w.scratch) (hb : b.Ready w.scratch)
    (h : (distance a b).on w = ((d, code), w')) (hf : w'.scratch.Fits hidden) :
    Measures hidden r w.scratch a b d code w'.scratch fun x y v => v = 0 ↔ x = y := by
  rw [distance] at h
  split at h
  · -- the distance to zero is the operand itself
    rename_i hzero
    obtain ⟨⟨rfl, rfl⟩, rfl⟩ := by simpa only [Work.on_pure, Prod.mk.injEq] using h
    refine ⟨ha, by simp [Scribbles], fun u hu => .inr hu, fun k m σ x y hm hx hy => ?_⟩
    exact ⟨hm, x, by rw [eq_zero_of_isZero hzero hy], hx⟩
  · split at h
    · rename_i hzero
      obtain ⟨⟨rfl, rfl⟩, rfl⟩ := by simpa only [Work.on_pure, Prod.mk.injEq] using h
      refine ⟨hb, by simp [Scribbles], fun u hu => .inr hu, fun k m σ x y hm hx hy => ?_⟩
      exact ⟨hm, y, by rw [eq_zero_of_isZero hzero hx, eq_comm], hy⟩
    · obtain ⟨hready, hscr, hkeeps, hshows⟩ := measures_difference (r := r) hw ha hb h hf
      refine ⟨hready, hscr, hkeeps, fun k m σ x y hm hx hy => ?_⟩
      obtain ⟨hm', v, rfl, hv⟩ := hshows k m σ x y hm hx hy
      exact ⟨hm', _, by grind, hv⟩

/-- The branch and the code decide `P` of what the operands stand for. -/
structure Settles (hidden : Set Word) (r : Resolver) (p : ScratchPool) (a b : Backed)
    (branch : Branch) (code : Code) (p' : ScratchPool) (P : Word → Word → Bool) : Prop where
  scribbles : Scribbles p (a.cells ++ b.cells) code p'
  decides : ∀ k m σ x y, EqOff hidden σ m → m.Shows hidden a.own a.word x →
    m.Shows hidden b.own b.word y → branch.Decides hidden (after k (r.words code) m) (P x y)

lemma Measures.settles {p p' : ScratchPool} {branch : Branch} {P : Word → Word → Word → Prop}
    {Q : Word → Word → Bool} (h : Measures hidden r p a b d code p' P) (hf : p'.Fits hidden)
    (hbranch : ∀ m x y v, P x y v → (∃ n, d.value = .known n) → m.Shows hidden d.own d.word v →
      0 ∉ d.own → branch.Decides hidden m (Q x y)) : Settles hidden r p a b branch code p' Q := by
  refine ⟨h.scribbles, fun k m σ x y hm hx hy => ?_⟩
  obtain ⟨-, v, hv, hshows⟩ := h.shows k m σ x y hm hx hy
  exact hbranch _ x y v hv h.ready.known hshows (h.ready.zero_notMem hf (List.prefix_refl _))

lemma settles_lessEq {branch : Branch} (hw : w.Sane) (ha : a.Ready w.scratch)
    (hb : b.Ready w.scratch) (hdis : ∀ u ∈ a.cells, u ∉ b.cells)
    (h : (lower (lessEq a b)).on w = ((branch, code), w')) (hf : w'.scratch.Fits hidden) :
    Settles hidden r w.scratch a b branch code w'.scratch
      fun x y => Word.isNegative (x - (y + 1)) := by
  have hgrow := ((advances_lower (lessEq a b) w).keeps hw).2.scratch
  rw [h] at hgrow
  obtain ⟨hs, -⟩ := (advances_releaseCells b.cells w).keeps hw
  have ht := takes_allocScratch hs
  simp only [lower, Work.on_bind, Work.on_pure, on_release, Prod.mk.injEq] at h
  simp only [on_releaseCells] at ht
  obtain ⟨⟨rfl, rfl⟩, rfl⟩ := h
  generalize allocScratch.on _ = res at ht hf hgrow
  obtain ⟨t, w'⟩ := res
  dsimp only at ht hf hgrow ⊢
  have hfree : w.scratch.Busy t → t ∈ b.cells := by
    intro hu
    by_contra hn
    exact ht.free ((busy_foldl_release hw.nodup _).mpr ⟨hu, hn⟩)
  have hta : t ∉ a.cells := fun hmem => hdis t hmem (hfree (ha.busy t hmem))
  have hxo := ha.zero_notMem hf hgrow
  have hyo := hb.zero_notMem hf hgrow
  refine ⟨?_, fun k m σ x y hm hx hy => ?_⟩
  · intro i hi
    refine ⟨t, ht.mem, ?_, fun hu => List.mem_append_right _ (hfree hu)⟩
    simp only [List.mem_cons, List.not_mem_nil, or_false] at hi
    rcases hi with rfl | rfl <;> rfl
  · obtain ⟨n, hn⟩ := ha.known
    obtain ⟨n', hn'⟩ := hb.known
    rw [← r.word_of_known hn'] at hy
    rw [r.words_cons_eq, after_append]
    obtain ⟨hm', hchanged, hread⟩ := Reference.after_op (o := .add) rfl hf ht.mem hy hyo
      (Reference.shows_number m hidden 1) (by simp) hm k rfl
    -- the other operand is not held by the cell that is written
    have hown := Backed.own_notMem_pair hf (fun u hu => hgrow.subset (ha.busy u hu).mem_addresses)
      ht.mem hta
    have hx' := hx.congr hchanged (hf.pair_subset ht.mem) hown
    rw [← r.word_of_known hn] at hx'
    obtain ⟨hm'', -, hread'⟩ := Reference.after_op (o := .sub) rfl hf ht.mem hx' hxo
      (Reference.shows_own_cell (r := r) hm' hread) (by simpa using (hf.ne_zero ht.mem).symm) hm'
      (fun n => k (n + 1)) rfl
    refine ⟨⟨_, rfl⟩, [UInt16.ofNat t], x - (y + UInt16.ofInt 1),
      by simpa using (hf.ne_zero ht.mem).symm, ?_, ?_⟩
    · have hcell := Reference.shows_own_cell (r := r) hm'' hread'
      rwa [r.word_of_known rfl] at hcell
    · rw [UInt16.ofInt_one]

lemma settles_equal {branch : Branch} (hw : w.Sane) (ha : a.Ready w.scratch)
    (hb : b.Ready w.scratch) (h : (lower (equal a b)).on w = ((branch, code), w'))
    (hf : w'.scratch.Fits hidden) :
    Settles hidden r w.scratch a b branch code w'.scratch fun x y => x == y := by
  obtain ⟨hs, -⟩ := (advances_distance a b w).keeps hw
  simp only [lower, Work.on_bind, Work.on_pure, Prod.mk.injEq] at h
  rcases hdist : (distance a b).on w with ⟨⟨d, before⟩, w₁⟩
  rw [hdist] at h hs
  dsimp only at h hs
  have ht := takes_allocScratch hs
  generalize allocScratch.on w₁ = res at ht h
  obtain ⟨t, w₂⟩ := res
  dsimp only at ht h
  obtain ⟨⟨rfl, rfl⟩, rfl⟩ := h
  have hf₁ := hf.of_prefix ht.grows.scratch
  obtain ⟨hready, hscr, hkeeps, hshows⟩ := measures_distance (r := r) hw ha hb hdist hf₁
  have hdo := hready.zero_notMem hf ht.grows.scratch
  refine ⟨?_, fun k m σ x y hm hx hy => ?_⟩
  · intro i hi
    rcases List.mem_append.mp hi with hi | hi
    · obtain ⟨u, hu, hdest, hfree⟩ := hscr i hi
      exact ⟨u, ht.grows.scratch.subset hu, hdest, hfree⟩
    · refine ⟨t, ht.mem, ?_, fun hu => (hkeeps t hu).resolve_right ht.free⟩
      simp only [List.mem_cons, List.not_mem_nil, or_false] at hi
      rcases hi with rfl | rfl <;> rfl
  · obtain ⟨hm₁, v, hv, hshow⟩ := hshows k m σ x y hm hx hy
    rw [r.words_append, after_append]
    generalize hpos : (fun n => k ((r.words before).length + n)) = k'
    rw [r.words_cons_eq, after_append]
    obtain ⟨n, hn⟩ := hready.known
    rw [← r.word_of_known hn] at hshow
    obtain ⟨hm₂, hchanged, hread⟩ := Reference.after_op (o := .add) rfl hf ht.mem hshow hdo
      (Reference.shows_number _ hidden (-1)) (by simp) hm₁ k' rfl
    have hown := Backed.own_notMem_pair hf
      (fun u hu => ht.grows.scratch.subset (hready.busy u hu).mem_addresses) ht.mem
      fun hu => ht.free (hready.busy t hu)
    have hshow' := hshow.congr hchanged (hf.pair_subset ht.mem) hown
    have hto : (0 : Word) ∉ [UInt16.ofNat t] := by simpa using (hf.ne_zero ht.mem).symm
    obtain ⟨hm₃, -, hread'⟩ := Reference.after_op (o := .ant) rfl hf ht.mem
      (Reference.shows_own_cell (r := r) hm₂ hread) hto hshow' hdo hm₂ (fun n => k' (1 + n)) rfl
    refine ⟨⟨_, rfl⟩, [UInt16.ofNat t], (v + UInt16.ofInt (-1)) &&& ~~~v, hto, ?_, ?_⟩
    · have hcell := Reference.shows_own_cell (r := r) hm₃ hread'
      rwa [r.word_of_known rfl] at hcell
    · have hneg : v + UInt16.ofInt (-1) = v - 1 := by
        rw [UInt16.ofInt_neg, UInt16.ofInt_one, UInt16.sub_eq_add_neg]
      rw [hneg, Word.isNegative_sub_one_and_not, decide_eq_decide.mpr hv, beq_eq_decide]

lemma settles_lower (test : Test) {branch : Branch} (hw : w.Sane) (ha : test.left.Ready w.scratch)
    (hb : test.right.Ready w.scratch) (hdis : ∀ u ∈ test.left.cells, u ∉ test.right.cells)
    (h : test.lower.on w = ((branch, code), w')) (hf : w'.scratch.Fits hidden) :
    Settles hidden r w.scratch test.left test.right branch code w'.scratch test.sense := by
  cases test with
  | less a b =>
    rw [lower] at h
    split at h
    · -- the sign of the operand itself decides
      rename_i hzero
      obtain ⟨⟨rfl, rfl⟩, rfl⟩ := by simpa only [Work.on_pure, Prod.mk.injEq] using h
      refine ⟨by simp [Scribbles], fun k m σ x y hm hx hy => ⟨ha.known, a.own, x, ?_, hx, ?_⟩⟩
      · exact ha.zero_notMem hf (List.prefix_refl _)
      · rw [sense, eq_zero_of_isZero hzero hy, UInt16.sub_zero]
    · simp only [Work.on_bind, Work.on_pure, Prod.mk.injEq] at h
      rcases hdiff : (difference a b).on w with ⟨⟨d, code⟩, w₁⟩
      rw [hdiff] at h
      obtain ⟨⟨rfl, rfl⟩, rfl⟩ := h
      refine (measures_difference hw ha hb hdiff hf).settles hf ?_
      rintro m x y _ rfl hknown hv h0
      exact ⟨hknown, d.own, _, h0, hv, rfl⟩
  | lessEq a b => exact settles_lessEq hw ha hb hdis h hf
  | equal a b => exact settles_equal hw ha hb h hf
  | differ a b =>
    simp only [lower, Work.on_bind, Work.on_pure, Prod.mk.injEq] at h
    rcases hdist : (distance a b).on w with ⟨⟨d, code⟩, w₁⟩
    rw [hdist] at h
    obtain ⟨⟨rfl, rfl⟩, rfl⟩ := h
    refine (measures_distance hw ha hb hdist hf).settles hf ?_
    intro m x y v hv hknown hshows h0
    refine ⟨hknown, d.own, v, h0, hshows, ?_⟩
    rw [sense, bne, beq_eq_decide, ← decide_not, decide_eq_decide, ne_eq, hv]

/-! ### Exchanged operands and adjusted constants -/

section Adjust

variable {p p' : ScratchPool} {branch : Branch} {P : Word → Word → Bool} {delta : Int}

lemma Settles.swap (h : Settles hidden r p a b branch code p' P) :
    Settles hidden r p b a branch code p' fun x y => P y x := by
  refine ⟨fun i hi => ?_, fun k m σ x y hm hx hy => h.decides k m σ y x hm hy hx⟩
  obtain ⟨t, ht, hdest, hfree⟩ := h.scribbles i hi
  refine ⟨t, ht, hdest, fun hu => ?_⟩
  rw [List.mem_append, or_comm, ← List.mem_append]
  exact hfree hu

lemma eq_constant_of_adjusted? (h : adjusted? b delta = some d) :
    ∃ n, b.constant? = some n ∧ d = .constant (n + delta) := by
  simp only [adjusted?, Option.bind_eq_some_iff, Option.map_eq_some_iff] at h
  obtain ⟨n, hn, n', hn', rfl⟩ := h
  refine ⟨n, hn, ?_⟩
  simp only [Numeral.checked32, Option.ite_none_right_eq_some, Option.some.injEq] at hn'
  rw [hn'.2]

lemma ready_of_adjusted? (h : adjusted? b delta = some d) (p : ScratchPool) : d.Ready p := by
  obtain ⟨n, -, rfl⟩ := eq_constant_of_adjusted? h
  exact ⟨⟨_, rfl⟩, by simp [Backed.constant, Backed.ofOperand]⟩

lemma cells_of_adjusted? (h : adjusted? b delta = some d) : d.cells = [] := by
  obtain ⟨n, -, rfl⟩ := eq_constant_of_adjusted? h
  rfl

lemma Settles.adjusted (hd : adjusted? b delta = some d)
    (h : Settles hidden r p a d branch code p' P) :
    Settles hidden r p a b branch code p' fun x y => P x (y + UInt16.ofInt delta) := by
  obtain ⟨n, hn, rfl⟩ := eq_constant_of_adjusted? hd
  refine ⟨fun i hi => ?_, fun k m σ x y hm hx hy => ?_⟩
  · obtain ⟨t, ht, hdest, hfree⟩ := h.scribbles i hi
    refine ⟨t, ht, hdest, fun hu => List.mem_append_left _ ?_⟩
    simpa [Backed.constant, Backed.ofOperand] using hfree hu
  · refine h.decides k m σ x _ hm hx ?_
    rw [Reference.eq_of_constant? hn hy, ← UInt16.ofInt_add]
    exact shows_constant m hidden _

lemma Settles.congr {Q : Word → Word → Bool} (h : Settles hidden r p a b branch code p' P)
    (hPQ : ∀ x y, P x y = Q x y) : Settles hidden r p a b branch code p' Q := by
  obtain rfl : P = Q := funext fun x => funext (hPQ x)
  exact h

lemma settles_less (hw : w.Sane) (ha : a.Ready w.scratch) (hb : b.Ready w.scratch)
    (hdis : ∀ u ∈ a.cells, u ∉ b.cells) (h : (lower (less a b)).on w = ((branch, code), w'))
    (hf : w'.scratch.Fits hidden) :
    Settles hidden r w.scratch a b branch code w'.scratch fun x y => Word.isNegative (x - y) :=
  settles_lower (less a b) hw ha hb hdis h hf

lemma settles_of {op : Comparison} (hw : w.Sane) (ha : a.Ready w.scratch) (hb : b.Ready w.scratch)
    (hdis : ∀ u ∈ a.cells, u ∉ b.cells) (h : (Test.of a op b).lower.on w = ((branch, code), w'))
    (hf : w'.scratch.Fits hidden) :
    Settles hidden r w.scratch a b branch code w'.scratch op.holdsWords := by
  have hdis' : ∀ u ∈ b.cells, u ∉ a.cells := fun u hu hu' => hdis u hu' hu
  -- an included bound is moved by one, on either side
  have hright : ∀ x y : Word, x - (y + UInt16.ofInt 1) = x - y - 1 := fun x y => by
    rw [UInt16.ofInt_one]
    grind
  have hleft : ∀ x y : Word, x + UInt16.ofInt (-1) - y = x - y - 1 := fun x y => by
    rw [UInt16.ofInt_neg, UInt16.ofInt_one]
    grind
  cases op with
  | lt => exact settles_less hw ha hb hdis h hf
  | gt => exact (settles_less hw hb ha hdis' h hf).swap
  | eq => exact settles_lower (equal a b) hw ha hb hdis h hf
  | ne => exact settles_lower (differ a b) hw ha hb hdis h hf
  | le =>
    rw [Test.of] at h
    split at h
    · rename_i d hd
      have hset := settles_less (r := r) hw ha (ready_of_adjusted? hd _)
        (by simp [cells_of_adjusted? hd]) h hf
      exact (hset.adjusted hd).congr fun x y => congrArg Word.isNegative (hright x y)
    · rename_i d _ hd
      have hset := settles_less (r := r) hw (ready_of_adjusted? hd _) hb
        (by simp [cells_of_adjusted? hd]) h hf
      exact (hset.swap.adjusted hd).swap.congr fun x y => congrArg Word.isNegative (hleft x y)
    · exact (settles_lessEq hw ha hb hdis h hf).congr fun x y =>
        congrArg Word.isNegative (hright x y)
  | ge =>
    rw [Test.of] at h
    split at h
    · rename_i d hd
      have hset := settles_less (r := r) hw (ready_of_adjusted? hd _) ha
        (by simp [cells_of_adjusted? hd]) h hf
      exact (hset.swap.adjusted hd).congr fun x y => congrArg Word.isNegative (hleft y x)
    · rename_i d _ hd
      have hset := settles_less (r := r) hw hb (ready_of_adjusted? hd _)
        (by simp [cells_of_adjusted? hd]) h hf
      exact (hset.adjusted hd).swap.congr fun x y => congrArg Word.isNegative (hright y x)
    · exact (settles_lessEq hw hb ha hdis' h hf).swap.congr fun x y =>
        congrArg Word.isNegative (hright y x)

end Adjust

end Test

namespace Condition

lemma advances_lower (c : Condition) : Advances false c.lower := by
  unfold lower
  split
  · exact (advances_report _).bind fun _ => advances_pure _
  · exact Test.advances_lower _

lemma tokens_lower (c : Condition) (w : Workbench) : (c.lower.on w).2.tokens = w.tokens := by
  unfold lower
  split
  · simp
  · exact Test.tokens_lower _ w

/-- What a condition says, given what its operands stand for. Constants are compared as numbers. -/
def truth (c : Condition) (x y : Word) : Bool :=
  match c.a.constant?, c.b.constant? with
  | some n, some n' => c.op.holds n n'
  | _, _ => c.op.holdsWords x y

/-- Lowering a condition decides it. -/
theorem settles_lower {hidden : Set Word} {r : Resolver} {w w' : Workbench} {c : Condition}
    {branch : Branch} {code : Code} (hw : w.Sane) (ha : c.a.Ready w.scratch)
    (hb : c.b.Ready w.scratch) (hdis : ∀ u ∈ c.a.cells, u ∉ c.b.cells)
    (h : c.lower.on w = ((branch, code), w')) (hf : w'.scratch.Fits hidden) :
    Test.Settles hidden r w.scratch c.a c.b branch code w'.scratch c.truth := by
  rw [lower] at h
  split at h
  · rename_i n n' hn hn'
    simp only [Work.on_bind, Work.on_pure, Prod.mk.injEq] at h
    obtain ⟨⟨rfl, rfl⟩, -⟩ := h
    refine ⟨by simp [Scribbles], fun k m σ x y hm hx hy => ?_⟩
    simp only [truth, hn, hn']
    split
    · assumption
    · exact Bool.eq_false_of_not_eq_true ‹_›
  · rename_i hne
    refine (Test.settles_of hw ha hb hdis h hf).congr fun x y => ?_
    unfold truth
    split
    · exact absurd ‹_› (hne _ _ ‹_›)
    · rfl

lemma careful_readOperator (token : Token) : Careful false (readOperator token) := by
  unfold readOperator
  split
  · exact careful_pure _
  · exact careful_failStatement rfl

lemma advances_checkBounds (role : Role) (a : Operand) : Advances false (checkBounds role a) := by
  unfold checkBounds
  split
  · exact advances_pure _
  · split
    · split
      · exact advances_pure _
      · exact advances_report _
    · split
      · exact advances_pure _
      · exact advances_report _

lemma careful_read (scope : Scope) : Careful false (read scope) := by
  refine (careful_expect _).bind fun _ => (careful_reference scope .source).bind fun _ =>
    (careful_lift advances_pop).bind fun next => ?_
  dsimp only
  split
  · exact careful_pure _
  · exact (careful_readOperator next).bind fun _ => (careful_reference scope .source).bind fun _ =>
      (careful_lift (advances_checkBounds _ _)).bind fun _ =>
      (careful_lift (advances_checkBounds _ _)).bind fun _ => (careful_expect _).bind fun _ =>
        careful_pure _

end Condition

lemma on_checkBounds (role : Role) (a : Operand) (b : Workbench) : ∃ ds, b.diagnostics <+: ds ∧
    (checkBounds role a).on b = ((), { b with diagnostics := ds }) := by
  unfold checkBounds
  split
  · exact ⟨_, List.prefix_refl _, rfl⟩
  · split
    · split
      · exact ⟨_, List.prefix_refl _, rfl⟩
      · exact ⟨_, List.prefix_append _ _, rfl⟩
    · split
      · exact ⟨_, List.prefix_refl _, rfl⟩
      · exact ⟨_, List.prefix_append _ _, rfl⟩

end CogolToolchain
