import CogolToolchain.Compile.Statement
import CogolToolchain.Proofs.Structured.Assignment

/-!
How a stretch of a program carries out part of the interpretation, and how such stretches are
joined.

A loop of the interpretation that takes all rounds it may take makes at least as many steps on the
machine. So a program whose interpretation never ends does not halt.
-/

namespace CogolToolchain
namespace Structured

open Memory Machine

section

variable {prog : List WordInstruction} {hidden : Set Word} {i j k body : Nat}
  {f g : Nat → State → Outcome}

/-- From place `k` the machine does what `f` says, and then stands at place `j`. -/
structure Simulates (prog : List WordInstruction) (hidden : Set Word) (k j : Nat)
    (f : Nat → State → Outcome) : Prop where
  done : ∀ fuel s s' m, EqOff hidden s.memory m → f fuel s = .done s' →
    ∃ n m', Leads prog n ⟨k, m, s.display⟩ ⟨j, m', s'.display⟩ ∧ EqOff hidden s'.memory m'
  timeout : ∀ fuel s m, EqOff hidden s.memory m → f fuel s = .timeout →
    Survives prog fuel ⟨k, m, s.display⟩

/-- From place `k` the machine goes to `yes` if the condition holds, in at least `c` steps, and to
`no` if it does not. -/
def Tests (prog : List WordInstruction) (hidden : Set Word) (c k yes no : Nat)
    (truth? : Memory → Option Bool) : Prop :=
  ∀ m σ v, EqOff hidden σ m → truth? σ = some v → ∀ d,
    ∃ n m', Leads prog n ⟨k, m, d⟩ ⟨if v then yes else no, m', d⟩ ∧ EqOff hidden σ m' ∧
      (v = true → c ≤ n)

lemma simulates_refl (prog : List WordInstruction) (hidden : Set Word) (k : Nat) :
    Simulates prog hidden k k fun _ s => .done s where
  done := fun fuel s s' m hm h => by
    obtain rfl : s = s' := Outcome.done.inj h
    exact ⟨0, m, Leads.refl prog _, hm⟩
  timeout := fun fuel s m _ h => by simp at h

lemma Simulates.congr (h : Simulates prog hidden k j f) (hfg : ∀ fuel s, g fuel s = f fuel s) :
    Simulates prog hidden k j g := by
  obtain rfl : g = f := funext fun fuel => funext fun s => hfg fuel s
  exact h

lemma Simulates.bind (h : Simulates prog hidden k i f) (h' : Simulates prog hidden i j g) :
    Simulates prog hidden k j fun fuel s => (f fuel s).bind (g fuel) where
  done := fun fuel s s' m hm hs => by
    rcases hf : f fuel s with s₁ | _ | _ <;> rw [hf] at hs
    · obtain ⟨n, m₁, hn, hm₁⟩ := h.done fuel s s₁ m hm hf
      obtain ⟨n', m', hn', hm'⟩ := h'.done fuel s₁ s' m₁ hm₁ hs
      exact ⟨n + n', m', hn.trans hn', hm'⟩
    · simp [Outcome.bind] at hs
    · simp [Outcome.bind] at hs
  timeout := fun fuel s m hm hs => by
    rcases hf : f fuel s with s₁ | _ | _ <;> rw [hf] at hs
    · obtain ⟨n, m₁, hn, hm₁⟩ := h.done fuel s s₁ m hm hf
      exact (hn.survives_add (h'.timeout fuel s₁ m₁ hm₁ hs)).mono (Nat.le_add_left _ _)
    · exact h.timeout fuel s m hm hf
    · simp [Outcome.bind] at hs

lemma simulates_of_performs {r : Resolver} {code : Code} {f : State → Option State}
    (h : Performs hidden r code f) (hst : r.Stands prog k code) (hsmall : prog.length < 65536) :
    Simulates prog hidden k (k + code.length) fun _ s => .ofOption (f s) where
  done := fun fuel s s' m hm hs => by
    rcases hf : f s with _ | s₁ <;> rw [hf] at hs
    · simp [Outcome.ofOption] at hs
    · obtain rfl : s₁ = s' := Outcome.done.inj hs
      exact h prog k hst hsmall m s s₁ hm hf
  timeout := fun fuel s m hm hs => by
    rcases hf : f s with _ | s₁ <;> rw [hf] at hs <;> simp [Outcome.ofOption] at hs

lemma Tests.simulates {truth? : Memory → Option Bool} {c yes no : Nat}
    (ht : Tests prog hidden c k yes no truth?) (h : Simulates prog hidden yes j f)
    (h' : Simulates prog hidden no j g) :
    Simulates prog hidden k j fun fuel s =>
      match truth? s.memory with
      | none => .fault
      | some true => f fuel s
      | some false => g fuel s where
  done := fun fuel s s' m hm hs => by
    rcases hv : truth? s.memory with _ | v <;> rw [hv] at hs
    · simp at hs
    · obtain ⟨n, m₁, hn, hm₁, -⟩ := ht m s.memory v hm hv s.display
      cases v with
      | true =>
        obtain ⟨n', m', hn', hm'⟩ := h.done fuel s s' m₁ hm₁ hs
        exact ⟨n + n', m', hn.trans hn', hm'⟩
      | false =>
        obtain ⟨n', m', hn', hm'⟩ := h'.done fuel s s' m₁ hm₁ hs
        exact ⟨n + n', m', hn.trans hn', hm'⟩
  timeout := fun fuel s m hm hs => by
    rcases hv : truth? s.memory with _ | v <;> rw [hv] at hs
    · simp at hs
    · obtain ⟨n, m₁, hn, hm₁, -⟩ := ht m s.memory v hm hv s.display
      cases v with
      | true => exact (hn.survives_add (h.timeout fuel s m₁ hm₁ hs)).mono (Nat.le_add_left _ _)
      | false => exact (hn.survives_add (h'.timeout fuel s m₁ hm₁ hs)).mono (Nat.le_add_left _ _)

/-- A loop that is entered at `k`; its body leads to `bottom`, where the condition is tested again.
Every round takes at least one step. -/
lemma Tests.simulates_iterate {truth? : Memory → Option Bool} {bottom : Nat}
    (hentry : Tests prog hidden 1 k body j truth?)
    (hbottom : Tests prog hidden 1 bottom body j truth?)
    (hround : Simulates prog hidden body bottom f) : Simulates prog hidden k j fun fuel =>
      iterate (fun s => truth? s.memory) (f fuel) fuel where
  done := by
    intro fuel
    -- on the number of rounds that are left
    suffices h : ∀ rounds k, Tests prog hidden 1 k body j truth? →
      ∀ s s' m, EqOff hidden s.memory m →
        iterate (fun s => truth? s.memory) (f fuel) rounds s = .done s' →
        ∃ n m', Leads prog n ⟨k, m, s.display⟩ ⟨j, m', s'.display⟩ ∧ EqOff hidden s'.memory m' from
      h fuel k hentry
    intro rounds
    induction rounds with
    | zero =>
      intro k _ s s' m _ hs
      simp [iterate] at hs
    | succ rounds ih =>
      intro k hk s s' m hm hs
      rw [iterate] at hs
      rcases hv : truth? s.memory with _ | v <;> rw [hv] at hs
      · simp at hs
      · obtain ⟨n, m₁, hn, hm₁, -⟩ := hk m s.memory v hm hv s.display
        cases v with
        | false =>
          obtain rfl : s = s' := Outcome.done.inj hs
          exact ⟨n, m₁, hn, hm₁⟩
        | true =>
          dsimp only at hs
          rcases hf : f fuel s with s₁ | _ | _ <;> rw [hf] at hs
          · obtain ⟨n₁, m₂, hn₁, hm₂⟩ := hround.done fuel s s₁ m₁ hm₁ hf
            obtain ⟨n₂, m', hn₂, hm'⟩ := ih bottom hbottom s₁ s' m₂ hm₂ hs
            exact ⟨n + n₁ + n₂, m', (hn.trans hn₁).trans hn₂, hm'⟩
          · simp [Outcome.bind] at hs
          · simp [Outcome.bind] at hs
  timeout := by
    intro fuel
    suffices h : ∀ rounds ≤ fuel, ∀ k, Tests prog hidden 1 k body j truth? → ∀ s m,
        EqOff hidden s.memory m →
        iterate (fun s => truth? s.memory) (f fuel) rounds s = .timeout →
        Survives prog rounds ⟨k, m, s.display⟩ from h fuel (Nat.le_refl _) k hentry
    intro rounds
    induction rounds with
    | zero => exact fun _ k _ s m _ _ steps i hi => absurd hi (Nat.not_lt_zero i)
    | succ rounds ih =>
      intro hle k hk s m hm hs
      rw [iterate] at hs
      rcases hv : truth? s.memory with _ | v <;> rw [hv] at hs
      · simp at hs
      · obtain ⟨n, m₁, hn, hm₁, hc⟩ := hk m s.memory v hm hv s.display
        cases v with
        | false => simp at hs
        | true =>
          have hpos := hc rfl
          dsimp only at hs
          rcases hf : f fuel s with s₁ | _ | _ <;> rw [hf] at hs
          · obtain ⟨n₁, m₂, hn₁, hm₂⟩ := hround.done fuel s s₁ m₁ hm₁ hf
            have hrest := ih (by omega) bottom hbottom s₁ m₂ hm₂ hs
            exact ((hn.trans hn₁).survives_add hrest).mono (by omega)
          · exact (hn.survives_add (hround.timeout fuel s m₁ hm₁ hf)).mono (by omega)
          · simp [Outcome.bind] at hs

end

/-! ### Conditional jumps -/

section Branch

variable {prog : List WordInstruction} {hidden : Set Word} {r : Resolver} {p p' : ScratchPool}
  {branch : Branch} {code : Code} {truth? : Memory → Option Bool} {k place : Nat} {v : Bool}
  {m : Memory} {target : Operand}

lemma leads_nop (h0 : 0 ∈ hidden) (hi : prog[k]? = some Instruction.nop.word) (m : Memory)
    (d : Array Word) : ∃ m', Leads prog 1 ⟨k, m, d⟩ ⟨k + 1, m', d⟩ ∧ EqOff hidden m m' :=
  ⟨_, Leads.of_execute hi (execute_nop _ d), eqOff_arrive h0 m k⟩

lemma leads_back (h0 : 0 ∈ hidden) (hdec : branch.Decides hidden m v)
    (hst : r.Stands prog k [(branch.jump? target).getD .nop, .nop])
    (htarget : r.word target = ⟨.constant, UInt16.ofNat place⟩) (hplace : place < 65536)
    (d : Array Word) :
    ∃ m', Leads prog 2 ⟨k, m, d⟩ ⟨if v then place else k + 2, m', d⟩ ∧ EqOff hidden m m' := by
  obtain ⟨hi, hrest⟩ := sits_cons.mp hst.sits
  have hnop : prog[k + 1]? = some Instruction.nop.word := (sits_cons.mp hrest).1
  rcases hdec.move? r target .programCounter with ⟨hmove, rfl⟩ |
    ⟨opcode, lhs, own, x, hmove, hown, hx, happly⟩
  · rw [Branch.jump?, hmove] at hi
    obtain ⟨m₁, h₁, hm₁⟩ := leads_nop h0 hi m d
    obtain ⟨m₂, h₂, hm₂⟩ := leads_nop h0 hnop m₁ d
    exact ⟨m₂, h₁.trans h₂, hm₁.trans hm₂⟩
  · rw [Branch.jump?, hmove] at hi
    cases v with
    | true =>
      refine ⟨_, ?_, eqOff_arrive h0 m (k + 1)⟩
      have hleads := Leads.of_branch hi hnop h0 hx hown htarget rfl (happly _)
        (execute_nop (m.arrive (k + 1)) d)
      rwa [UInt16.toNat_ofNat_of_lt' hplace] at hleads
    | false =>
      have h₁ := Leads.of_idle hi h0 hx hown happly d
      obtain ⟨m₂, h₂, hm₂⟩ := leads_nop h0 hnop (m.arrive k) d
      exact ⟨m₂, h₁.trans h₂, (eqOff_arrive h0 m k).trans hm₂⟩

lemma quiet_of_judges (h : Judges hidden r p branch code p' truth?) :
    ∀ i ∈ code, ∃ t ∈ p'.addresses, i.dest = .cellDest t := fun i hi => by
  obtain ⟨t, ht, hdest, -⟩ := h.quiet i hi
  exact ⟨t, ht, hdest⟩

lemma tests_branchTo (h : Judges hidden r p branch code p' truth?) (hf : p'.Fits hidden)
    (hst : r.Stands prog k (code ++ Statement.branchTo branch target))
    (htarget : r.word target = ⟨.constant, UInt16.ofNat place⟩) (hplace : place < 65536) :
    Tests prog hidden 1 k place (k + (code ++ Statement.branchTo branch target).length) truth? := by
  intro m σ v hm hv d
  obtain ⟨hst₁, hst₂⟩ := r.stands_append.mp hst
  have hcode := leads_straight hf (quiet_of_judges h) hst₁ m d
  have hm₁ := eqOff_straight (r := r) hf (quiet_of_judges h) hm (k + ·)
  have hdec := h.decides (k + ·) m σ v hm hv
  rw [List.length_append, ← Nat.add_assoc]
  rcases hjump : branch.jump? target with _ | i
  · -- the jump is never taken
    have hfalse : v = false := by
      rcases hdec.move? r target .programCounter with ⟨-, hv⟩ | ⟨_, _, _, _, hmove, -⟩
      · exact hv
      · rw [Branch.jump?, hmove] at hjump
        simp at hjump
    subst hfalse
    refine ⟨code.length, _, ?_, hm₁, by simp⟩
    simpa [Statement.branchTo, hjump] using hcode
  · have hcode₂ : Statement.branchTo branch target = [(branch.jump? target).getD .nop, .nop] := by
      simp [Statement.branchTo, hjump]
    rw [hcode₂] at hst₂ ⊢
    obtain ⟨m₂, h₂, hm₂⟩ := leads_back hf.zero hdec hst₂ htarget hplace d
    exact ⟨_, m₂, hcode.trans h₂, hm₁.trans hm₂, fun _ => by omega⟩

/-- The bottom of a loop is its condition and the jump back. The end of the loop is marked so that
the jump that enters it leaves out the first instruction of the condition. -/
lemma stands_loopBottom {block : Block} {condition : Code} {back : Instruction}
    (h : r.Stands prog k (Statement.loopBottom block condition back).2) :
    r.Stands prog k (condition ++ [back, .nop]) ∧
      r.labels.lookup (.finish block) = some (k + min 1 condition.length) := by
  rcases condition with _ | ⟨first, _ | ⟨second, rest⟩⟩
  · exact h.of_tagged
  · obtain ⟨hfirst, hrest⟩ := r.stands_cons.mp h
    obtain ⟨hrest, hlabel⟩ := hrest.of_tagged
    exact ⟨r.stands_cons.mpr ⟨hfirst, hrest⟩, hlabel⟩
  · obtain ⟨hfirst, hrest⟩ := r.stands_cons.mp h
    obtain ⟨hrest, hlabel⟩ := hrest.of_tagged
    refine ⟨r.stands_cons.mpr ⟨hfirst, hrest⟩, ?_⟩
    rw [hlabel, List.length_cons, Nat.min_eq_left (by omega)]

lemma tests_bottom (h : Judges hidden r p branch code p' truth?) (hf : p'.Fits hidden)
    (hst : r.Stands prog k (code ++ [(branch.jump? target).getD .nop, .nop]))
    (htarget : r.word target = ⟨.constant, UInt16.ofNat place⟩) (hplace : place < 65536) :
    Tests prog hidden 1 k place (k + (code.length + 2)) truth? := by
  intro m σ v hm hv d
  obtain ⟨hst₁, hst₂⟩ := r.stands_append.mp hst
  have hcode := leads_straight hf (quiet_of_judges h) hst₁ m d
  have hm₁ := eqOff_straight (r := r) hf (quiet_of_judges h) hm (k + ·)
  obtain ⟨m₂, h₂, hm₂⟩ := leads_back hf.zero (h.decides (k + ·) m σ v hm hv) hst₂ htarget hplace d
  exact ⟨_, m₂, hcode.trans h₂, hm₁.trans hm₂, fun _ => by omega⟩

/-- The jump that enters a loop. Its delay slot runs the first instruction of the condition, and the
others run at the bottom. -/
lemma tests_entry {bottom : Nat} {label : Label} {tags : List Label}
    (h : Judges hidden r p branch code p' truth?) (hf : p'.Fits hidden)
    (hentry : r.Stands prog k
      [{ Instruction.jump (.label label 0) with tags }, code.head?.getD .nop])
    (hlabel : r.labels.lookup label = some (bottom + min 1 code.length))
    (hst : r.Stands prog bottom (code ++ [(branch.jump? target).getD .nop, .nop]))
    (hsmall : prog.length < 65536)
    (htarget : r.word target = ⟨.constant, UInt16.ofNat place⟩) (hplace : place < 65536) :
    Tests prog hidden 1 k place (bottom + (code.length + 2)) truth? := by
  intro m σ v hm hv d
  obtain ⟨⟨hi, -⟩, hentry⟩ := r.stands_cons.mp hentry
  obtain ⟨⟨hslot, -⟩, -⟩ := r.stands_cons.mp hentry
  have hlen := hst.length_le r (by simp)
  rw [List.length_append, List.length_cons, List.length_singleton] at hlen
  have hland : r.word (.label label 0) =
      ⟨.constant, UInt16.ofNat (bottom + min 1 code.length)⟩ := by
    rw [r.word_label hlabel, Int.add_zero, Word.ofInt_natCast]
  have hto : (UInt16.ofNat (bottom + min 1 code.length)).toNat = bottom + min 1 code.length :=
    UInt16.toNat_ofNat_of_lt' (show _ < 65536 by omega)
  have hquiet := quiet_of_judges h
  cases code with
  | nil =>
    have hjump := Leads.of_branch hi hslot hf.zero (shows_constant m hidden _)
      (by simp) hland rfl rfl (execute_nop (m.arrive (k + 1)) d)
    rw [hto] at hjump
    have hm₁ := hm.trans (eqOff_arrive hf.zero m (k + 1))
    obtain ⟨m₂, h₂, hm₂⟩ := leads_back hf.zero (h.decides (k + ·) _ σ v hm₁ hv) hst htarget hplace d
    exact ⟨_, m₂, hjump.trans h₂, hm₁.trans hm₂, fun _ => by omega⟩
  | cons first rest =>
    obtain ⟨-, hrest⟩ := r.stands_cons.mp hst
    obtain ⟨hst₁, hst₂⟩ := r.stands_append.mp hrest
    obtain ⟨t, ht, hdest⟩ := hquiet first (by simp)
    have hfirst : WordInstruction.Quiet
        ⟨first.opcode, r.word first.lhs, r.word first.rhs, r.word first.dest⟩ := by
      rw [hdest, r.word_cellDest]
      exact ⟨rfl, hf.ne_zero ht, hf.ne_one ht⟩
    have hjump := Leads.of_branch hi hslot hf.zero (shows_constant m hidden _)
      (by simp) hland rfl rfl (execute_quiet hfirst (m.arrive (k + 1)) d)
    rw [hto, List.length_cons, Nat.min_eq_left (by omega)] at hjump
    have hcode := leads_straight hf (fun i hi => hquiet i (by simp [hi])) hst₁
      (execute ⟨first.opcode, r.word first.lhs, r.word first.rhs, r.word first.dest⟩
        (m.arrive (k + 1)) #[]).1 d
    -- where the instructions of the condition stand
    let places : Nat → Nat := fun n => n.casesOn (k + 1) fun n => bottom + 1 + n
    have hm₁ := eqOff_straight (r := r) hf hquiet hm places
    obtain ⟨m₂, h₂, hm₂⟩ := leads_back hf.zero (h.decides places m σ v hm hv) hst₂ htarget hplace d
    have hend : bottom + 1 + rest.length + 2 = bottom + ((first :: rest).length + 2) := by
      rw [List.length_cons]
      omega
    rw [hend] at h₂
    exact ⟨_, m₂, (hjump.trans hcode).trans h₂, hm₁.trans hm₂, fun _ => by omega⟩

end Branch
end Structured
end CogolToolchain
