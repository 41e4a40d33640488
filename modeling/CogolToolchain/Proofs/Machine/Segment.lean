import CogolToolchain.Proofs.Machine.Loading

/-!
Stretches of a run that start and end with no jump on the way.

A program has an instruction that does nothing in front of its code, so that writing `v` to the
program counter lands on instruction `v` of the code. Places are counted in the code here, so the
instruction at place `k` is number `k + 1` of the program.
-/

namespace CogolToolchain

/-- Where a run stands between two instructions, with no jump on the way. -/
structure Spot where
  place : Nat
  memory : Memory
  display : Array Word

/-- The memory as the instruction at place `k` finds it. -/
def Memory.arrive (m : Memory) (k : Nat) : Memory := m.write 0 (UInt16.ofNat (k + 1))

lemma Memory.eqOff_arrive {s : Set Word} (hs : 0 ∈ s) (m : Memory) (k : Nat) :
    EqOff s m (m.arrive k) := EqOff.write_self m hs _

/-- The instruction writes a fixed cell, which is neither the program counter nor the display. -/
structure WordInstruction.Quiet (i : WordInstruction) : Prop where
  mode : i.dest.mode = .constant
  ne_zero : i.dest.value ≠ 0
  ne_one : i.dest.value ≠ 1

namespace Machine

/-- The machine that stands at `s` and runs `prog` behind an instruction that does nothing. -/
def standing (prog : List WordInstruction) (s : Spot) (steps : Nat) : Machine :=
  { memory := s.memory
    program := (Instruction.nop.word :: prog).toArray
    next := s.place + 1
    pending := none
    steps
    display := s.display }

/-- The run of `prog` from `s` stands at `t` after `n` steps. -/
def Leads (prog : List WordInstruction) (n : Nat) (s t : Spot) : Prop :=
  ∀ steps, (standing prog s steps).run n = standing prog t (steps + n)

def Survives (prog : List WordInstruction) (n : Nat) (s : Spot) : Prop :=
  ∀ steps, ∀ k < n, ¬ ((standing prog s steps).run k).isHalted

section Leads

variable {prog : List WordInstruction} {s t u : Spot} {a b n : Nat}

lemma Leads.refl (prog : List WordInstruction) (s : Spot) : Leads prog 0 s s := fun _ => rfl

lemma Leads.trans (h : Leads prog a s t) (h' : Leads prog b t u) : Leads prog (a + b) s u := by
  intro steps
  rw [run_add, h, h', Nat.add_assoc]

lemma steps_run_le (m : Machine) (n : Nat) : (m.run n).steps ≤ m.steps + n := by
  induction n generalizing m with
  | zero => rfl
  | succ n ih =>
    by_cases h : m.isHalted
    · rw [run_of_halted h]
      omega
    · obtain ⟨i, hi⟩ := Option.ne_none_iff_exists'.mp fun hn => h (isHalted_iff.mpr hn)
      rw [run_succ_of_not_halted h]
      have := ih m.step
      rw [step_eq hi] at this ⊢
      dsimp only at this
      omega

lemma Leads.survives (h : Leads prog n s t) : Survives prog n s := by
  intro steps k hk hhalt
  have hrun := run_eq_of_le hhalt hk.le
  have hle := steps_run_le (standing prog s steps) k
  rw [← hrun, h] at hle
  dsimp only [standing] at hle
  omega

lemma Leads.survives_add (h : Leads prog a s t) (h' : Survives prog b t) :
    Survives prog (a + b) s := by
  intro steps k hk
  rcases Nat.lt_or_ge k a with hlt | hge
  · exact h.survives steps k hlt
  · obtain ⟨j, rfl⟩ := Nat.exists_eq_add_of_le hge
    rw [run_add, h]
    exact h' _ j (by omega)

lemma Survives.mono (h : Survives prog b s) (hab : a ≤ b) : Survives prog a s :=
  fun steps k hk => h steps k (by omega)

lemma isHalted_standing {steps : Nat} :
    (standing prog s steps).isHalted = true ↔ prog.length ≤ s.place := by
  simp [isHalted, standing]

end Leads

/-! ### Single instructions and jumps -/

section Steps

variable {prog : List WordInstruction} {i j : WordInstruction} {k v : Nat} {m m' m'' : Memory}
  {d d' d'' : Array Word}

lemma getElem?_standing (prog : List WordInstruction) (s : Spot) (steps : Nat) :
    (standing prog s steps).program[(standing prog s steps).next]? = prog[s.place]? := by
  simp [standing]

lemma Leads.of_execute (hi : prog[k]? = some i)
    (h : execute i (m.arrive k) d = (m', d', none)) : Leads prog 1 ⟨k, m, d⟩ ⟨k + 1, m', d'⟩ := by
  intro steps
  have hnext := getElem?_standing prog ⟨k, m, d⟩ steps
  rw [hi] at hnext
  rw [run_one hnext, step_eq hnext]
  simp only [standing, Memory.arrive] at h ⊢
  simp only [h, Option.getD_none]

lemma Leads.of_jump (hi : prog[k]? = some i) (hj : prog[k + 1]? = some j)
    (h : execute i (m.arrive k) d = (m', d', some (v + 1)))
    (h' : execute j (m'.arrive (k + 1)) d' = (m'', d'', none)) :
    Leads prog 2 ⟨k, m, d⟩ ⟨v, m'', d''⟩ := by
  intro steps
  have hnext := getElem?_standing prog ⟨k, m, d⟩ steps
  rw [hi] at hnext
  rw [run_add _ 1 1, run_one hnext, step_eq hnext]
  simp only [standing, Memory.arrive] at h h' ⊢
  simp only [h, Option.getD_none]
  rw [run_one (i := j) (by simpa using hj), step_eq (i := j) (by simpa using hj)]
  simp only [h', Option.getD_some, Nat.add_assoc]

end Steps

/-! ### Places out of reach -/

/-- The machine has not got behind instruction number `k`, which always jumps. -/
structure Before (k : Nat) (m : Machine) : Prop where
  jumps : ∃ a, m.program[k]? = some ⟨.mlz, ⟨.constant, -1⟩, a, ⟨.constant, 0⟩⟩
  next : m.next ≤ k + 1
  slot : m.next = k + 1 → m.pending.isSome
  target : ∀ p, m.pending = some p → p ≤ 65536

section Reach

variable {prog : List WordInstruction} {a : WordOperand} {m : Machine} {s t : Spot} {k n : Nat}

lemma Before.step (h : Before k m) (hk : 65536 ≤ k) : Before k m.step := by
  obtain ⟨a, ha⟩ := h.jumps
  rcases hi : m.program[m.next]? with _ | i
  · rwa [Machine.step, hi]
  rw [step_eq hi]
  refine ⟨⟨a, ha⟩, ?_, fun hbehind => ?_, fun p hp => ?_⟩
  · rcases hpending : m.pending with _ | p
    · have hne : m.next ≠ k + 1 := fun heq => by simpa [hpending] using h.slot heq
      exact Nat.lt_of_le_of_ne h.next hne
    · exact (h.target p hpending).trans (Nat.le_succ_of_le hk)
  · rcases hpending : m.pending with _ | p
    · obtain rfl : m.next = k := by simpa [hpending] using hbehind
      obtain rfl := Option.some.inj (ha.symm.trans hi)
      rfl
    · have hle := h.target p hpending
      simp only [hpending, Option.getD_some] at hbehind
      omega
  · obtain ⟨w, -, -, rfl⟩ := exists_of_execute_jump hp
    exact w.toNat_lt

lemma Before.run (h : Before k m) (hk : 65536 ≤ k) (n : Nat) : Before k (m.run n) := by
  induction n generalizing m with
  | zero => exact h
  | succ n ih =>
    rw [Machine.run]
    split
    · exact h
    · exact ih (h.step hk)

/-- No jump leads to a place from 65536 on, so that no run gets behind a jump that leaves no choice
and is followed by such places only. -/
lemma not_leads_behind (hk : 65535 ≤ k)
    (hjump : prog[k]? = some ⟨.mlz, ⟨.constant, -1⟩, a, ⟨.constant, 0⟩⟩) (hs : s.place ≤ k)
    (ht : k < t.place) : ¬ Leads prog n s t := by
  intro h
  have hstart : Before (k + 1) (standing prog s 0) :=
    ⟨⟨a, by simpa [standing] using hjump⟩, by simp only [standing]; omega,
      fun hbehind => by simp only [standing] at hbehind; omega, fun p hp => by cases hp⟩
  have hend := hstart.run (by omega) n
  rw [h 0] at hend
  have hnext : t.place + 1 ≤ k + 1 + 1 := hend.next
  exact absurd (hend.slot (show t.place + 1 = k + 1 + 1 by omega)) Bool.false_ne_true

end Reach

/-! ### Straight code -/

/-- The instructions of `part` stand in `prog` from place `k` on. -/
def Sits (prog : List WordInstruction) (k : Nat) (part : List WordInstruction) : Prop :=
  part <+: prog.drop k

lemma sits_nil (prog : List WordInstruction) (k : Nat) : Sits prog k [] := List.nil_prefix

lemma sits_cons {prog part : List WordInstruction} {k : Nat} {i : WordInstruction} :
    Sits prog k (i :: part) ↔ prog[k]? = some i ∧ Sits prog (k + 1) part := by
  unfold Sits
  rcases h : prog.drop k with _ | ⟨j, rest⟩
  · have hk : prog[k]? = none := by simpa using h
    simp [hk]
  · have hk : prog[k]? = some j := by
      rw [← List.head?_drop, h]
      rfl
    have hrest : prog.drop (k + 1) = rest := by
      rw [← List.drop_drop, h]
      rfl
    rw [hrest, hk, List.cons_prefix_cons, Option.some.injEq, eq_comm]

lemma sits_append {prog p q : List WordInstruction} {k : Nat} :
    Sits prog k (p ++ q) ↔ Sits prog k p ∧ Sits prog (k + p.length) q := by
  induction p generalizing k with
  | nil => simp [sits_nil]
  | cons i p ih =>
    rw [List.cons_append, sits_cons, sits_cons, ih, List.length_cons, and_assoc]
    rw [show k + 1 + p.length = k + (p.length + 1) by omega]

/-- The memory after straight code whose instruction number `n` stands at place `k n`. -/
def after (k : Nat → Nat) : List WordInstruction → Memory → Memory
  | [], m => m
  | i :: rest, m => after (fun n => k (n + 1)) rest (execute i (m.arrive (k 0)) #[]).1

@[simp] lemma after_nil (k : Nat → Nat) (m : Memory) : after k [] m = m := rfl

lemma after_append (k : Nat → Nat) (p q : List WordInstruction) (m : Memory) :
    after k (p ++ q) m = after (fun n => k (p.length + n)) q (after k p m) := by
  induction p generalizing k m with
  | nil => simp
  | cons i p ih =>
    rw [List.cons_append, after, ih, after, List.length_cons]
    simp only [Nat.add_right_comm]

lemma execute_quiet {i : WordInstruction} (hi : i.Quiet) (m : Memory) (d : Array Word) :
    execute i m d = ((execute i m #[]).1, d, none) := by
  have hdest : m.eval i.dest = i.dest.value := by
    simp [Memory.eval, hi.mode, Mode.level, Memory.follow]
  rcases h : i.opcode.apply (m.eval i.lhs) (m.eval i.rhs) with _ | w
  · simp [execute_of_apply_eq_none _ h]
  · simp [execute_of_apply_eq_some _ h, store, hdest, hi.ne_zero, hi.ne_one]

lemma eqOff_execute_quiet {i : WordInstruction} (hi : i.Quiet) (m : Memory) (d : Array Word) :
    Memory.EqOff {i.dest.value} m (execute i m d).1 := by
  have hdest : m.eval i.dest = i.dest.value := by
    simp [Memory.eval, hi.mode, Mode.level, Memory.follow]
  rcases h : i.opcode.apply (m.eval i.lhs) (m.eval i.rhs) with _ | w
  · rw [execute_of_apply_eq_none _ h]
  · rw [execute_of_apply_eq_some _ h, store, hdest]
    exact Memory.EqOff.write_self m (Set.mem_singleton _) w

/-- Straight code runs through, and the display stays as it is. -/
lemma Leads.of_quiet {prog part : List WordInstruction} {k : Nat} (hsits : Sits prog k part)
    (hq : ∀ i ∈ part, i.Quiet) (m : Memory) (d : Array Word) :
    Leads prog part.length ⟨k, m, d⟩ ⟨k + part.length, after (k + ·) part m, d⟩ := by
  induction part generalizing k m with
  | nil => exact Leads.refl prog _
  | cons i rest ih =>
    obtain ⟨hi, hrest⟩ := sits_cons.mp hsits
    have hstep := Leads.of_execute hi (execute_quiet (hq i (by simp)) (m.arrive k) d)
    have hgo := hstep.trans (ih hrest (fun j hj => hq j (by simp [hj])) _)
    rw [List.length_cons, Nat.add_comm rest.length 1]
    simp only [Nat.add_assoc, Nat.add_comm 1] at hgo ⊢
    exact hgo

/-- Straight code changes only the program counter and the cells it names. -/
lemma eqOff_after {s : Set Word} (h0 : 0 ∈ s) {part : List WordInstruction}
    (hq : ∀ i ∈ part, i.Quiet) (hs : ∀ i ∈ part, i.dest.value ∈ s) (k : Nat → Nat) (m : Memory) :
    Memory.EqOff s m (after k part m) := by
  induction part generalizing k m with
  | nil => exact Memory.EqOff.refl s m
  | cons i rest ih =>
    have hi := (eqOff_execute_quiet (hq i (by simp)) (m.arrive (k 0)) #[]).mono
      (Set.singleton_subset_iff.mpr (hs i (by simp)))
    exact ((Memory.eqOff_arrive h0 m (k 0)).trans hi).trans
      (ih (fun j hj => hq j (by simp [hj])) (fun j hj => hs j (by simp [hj])) _ _)

end Machine
end CogolToolchain
