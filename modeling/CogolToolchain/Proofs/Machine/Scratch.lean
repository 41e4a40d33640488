import CogolToolchain.Proofs.Machine.Segment
import CogolToolchain.Proofs.Machine.Word

/-!
Operands that are read through scratch cells.

The hidden cells are the program counter and the scratch cells: a program may not depend on what
they hold, since every instruction writes the program counter and the code of each statement writes
scratch cells. An operand may still own some of them, and it keeps its word as long as those are not
written.
-/

namespace CogolToolchain

/-- The operand stands for `w`, and of the hidden cells it reads only those it owns. -/
structure Memory.Shows (m : Memory) (hidden : Set Word) (own : List Word) (a : WordOperand)
    (w : Word) : Prop where
  eval_eq : m.eval a = w
  path : ∀ c ∈ m.path a, c ∈ own ∨ c ∉ hidden

namespace Memory

variable {m m' σ : Memory} {hidden changed : Set Word} {own : List Word} {a : WordOperand}
  {w : Word}

/-- Writing hidden cells that the operand does not own leaves it as it is. -/
lemma Shows.congr (h : m.Shows hidden own a w) (hm : EqOff changed m m') (hc : changed ⊆ hidden)
    (hown : ∀ c ∈ own, c ∉ changed) : m'.Shows hidden own a w := by
  have hpath : ∀ c ∈ m.path a, c ∉ changed := fun c hmem =>
    (h.path c hmem).elim (hown c) fun hnot hch => hnot (hc hch)
  refine ⟨(hm.eval hpath).trans h.eval_eq, ?_⟩
  rw [hm.path hpath]
  exact h.path

lemma Shows.arrive (h : m.Shows hidden own a w) (h0 : 0 ∈ hidden) (hown : 0 ∉ own) (k : Nat) :
    (m.arrive k).Shows hidden own a w := by
  refine h.congr (eqOff_arrive (Set.mem_singleton 0) m k) (Set.singleton_subset_iff.mpr h0) ?_
  rintro c hc rfl
  exact hown hc

lemma shows_constant (m : Memory) (hidden : Set Word) (w : Word) :
    m.Shows hidden [] ⟨.constant, w⟩ w := ⟨rfl, by simp [Memory.path, Mode.level, trail]⟩

lemma shows_of_eqOff (h : EqOff hidden σ m) (ha : ∀ c ∈ σ.path a, c ∉ hidden) :
    m.Shows hidden [] a (σ.eval a) := by
  refine ⟨h.eval ha, fun c hc => .inr ?_⟩
  rw [h.path ha] at hc
  exact ha c hc

lemma shows_through {t : Word} {mode : Mode} {n : Nat} (hmode : mode.level = n + 1)
    (h : EqOff hidden σ m) (ht : m.read t = w) (hw : ∀ c ∈ σ.trail n w, c ∉ hidden) :
    m.Shows hidden [t] ⟨mode, t⟩ (σ.follow n w) := by
  have hread : ∀ c ∈ σ.trail n w, m.read c = σ.read c := fun c hc => h c (hw c hc)
  refine ⟨?_, fun c hc => ?_⟩
  · rw [Memory.eval, hmode, follow, ht, follow_congr hread]
  · rw [Memory.path, hmode, trail, ht, trail_congr hread, List.mem_cons] at hc
    rcases hc with rfl | hc
    · exact .inl (by simp)
    · exact .inr (hw c hc)

lemma follow_succ (m : Memory) (n : Nat) (w : Word) :
    m.follow (n + 1) w = m.read (m.follow n w) := by
  induction n generalizing w with
  | zero => rfl
  | succ n ih => rw [follow, ih, follow]

lemma trail_succ (m : Memory) (n : Nat) (w : Word) :
    m.trail (n + 1) w = m.trail n w ++ [m.follow n w] := by
  induction n generalizing w with
  | zero => rfl
  | succ n ih => rw [trail, ih, trail, follow, List.cons_append]

lemma level_raised {mode : Mode} (h : mode ≠ .doubleDeref) :
    mode.raised.level = mode.level + 1 := by
  cases mode <;> simp_all [Mode.raised, Mode.level]

lemma Shows.raised (h : m.Shows hidden own a w) (hmode : a.mode ≠ .doubleDeref) (hw : w ∉ hidden) :
    m.Shows hidden own ⟨a.mode.raised, a.value⟩ (m.read w) := by
  have heval : m.follow a.mode.level a.value = w := h.eval_eq
  refine ⟨?_, fun c hc => ?_⟩
  · rw [Memory.eval, level_raised hmode, follow_succ, heval]
  · rw [Memory.path, level_raised hmode, trail_succ, heval, List.mem_append,
      List.mem_singleton] at hc
    rcases hc with hc | rfl
    · exact h.path c hc
    · exact .inr hw

end Memory

namespace Machine

open Memory

variable {m : Memory} {hidden : Set Word} {own own' own'' : List Word} {i : WordInstruction}
  {x y w c : Word} {k : Nat} {prog : List WordInstruction}

lemma Leads.of_store (hi : prog[k]? = some i) (h0 : 0 ∈ hidden)
    (hl : m.Shows hidden own i.lhs x) (hlo : 0 ∉ own)
    (hr : m.Shows hidden own' i.rhs y) (hro : 0 ∉ own')
    (hd : m.Shows hidden own'' i.dest c) (hdo : 0 ∉ own'')
    (ho : i.opcode.apply x y = some w) (hc : c ≠ 0) (d : Array Word) :
    Leads prog 1 ⟨k, m, d⟩ ⟨k + 1, (m.arrive k).write c w, if c = 1 then d.push w else d⟩ := by
  refine Leads.of_execute hi ?_
  rw [execute_of_apply_eq_some (w := w), (hd.arrive h0 hdo k).eval_eq, store, if_neg hc]
  rw [(hl.arrive h0 hlo k).eval_eq, (hr.arrive h0 hro k).eval_eq, ho]

lemma Leads.of_idle (hi : prog[k]? = some i) (h0 : 0 ∈ hidden)
    (hl : m.Shows hidden own i.lhs x) (hlo : 0 ∉ own) (ho : ∀ y, i.opcode.apply x y = none)
    (d : Array Word) : Leads prog 1 ⟨k, m, d⟩ ⟨k + 1, m.arrive k, d⟩ := by
  refine Leads.of_execute hi ?_
  rw [execute_of_apply_eq_none]
  rw [(hl.arrive h0 hlo k).eval_eq, ho]

lemma Leads.of_branch {j : WordInstruction} {v : Word} {m' : Memory} {d d' : Array Word}
    (hi : prog[k]? = some i) (hj : prog[k + 1]? = some j) (h0 : 0 ∈ hidden)
    (hl : m.Shows hidden own i.lhs x) (hlo : 0 ∉ own) (hr : i.rhs = ⟨.constant, v⟩)
    (hd : i.dest = ⟨.constant, 0⟩) (ho : i.opcode.apply x v = some v)
    (hslot : execute j (m.arrive (k + 1)) d = (m', d', none)) :
    Leads prog 2 ⟨k, m, d⟩ ⟨v.toNat, m', d'⟩ := by
  refine Leads.of_jump hi hj (?_ : _ = ((m.arrive k).write 0 v, d, some (v.toNat + 1))) ?_
  · rw [execute_of_apply_eq_some (w := v), hd, eval_constant]
    · simp [store]
    · rw [(hl.arrive h0 hlo k).eval_eq, hr, eval_constant, ho]
  · rwa [Memory.arrive, Memory.arrive, write_write, write_write]

lemma after_singleton (hi : i.Quiet) (h0 : 0 ∈ hidden) (k : Nat → Nat)
    (hl : m.Shows hidden own i.lhs x) (hlo : 0 ∉ own)
    (hr : m.Shows hidden own' i.rhs y) (hro : 0 ∉ own')
    (happly : i.opcode.apply x y = some w) :
    (after k [i] m).read i.dest.value = w ∧ EqOff {0, i.dest.value} m (after k [i] m) := by
  have hx := (hl.arrive h0 hlo (k 0)).eval_eq
  have hy := (hr.arrive h0 hro (k 0)).eval_eq
  have hdest : (m.arrive (k 0)).eval i.dest = i.dest.value := by
    simp [Memory.eval, hi.mode, Mode.level, follow]
  have hexec : after k [i] m = (m.arrive (k 0)).write i.dest.value w := by
    rw [after, after_nil, execute_of_apply_eq_some #[] (by rw [hx, hy, happly]), store, hdest]
  rw [hexec]
  exact ⟨by simp, ((eqOff_arrive (by simp) m (k 0)).trans (EqOff.write_self _ (by simp) w))⟩

end Machine
end CogolToolchain
