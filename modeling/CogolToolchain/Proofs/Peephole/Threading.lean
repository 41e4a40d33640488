import CogolToolchain.Code.Peephole
import CogolToolchain.Proofs.Peephole.Simplify
import Mathlib.Logic.Function.Basic

/-!
What threading jumps leaves in place of each instruction.

A record of the pass says which jumps were threaded and where each of them led to. A threaded jump
now leads one instruction further, and its delay slot holds what stands at its target. That the copy
in the slot and the target stay the same while later jumps are rewritten rests on the growing list
of landing places: the instruction after a target is on it, so a jump at the target keeps its slot.
-/

namespace CogolToolchain

lemma Instruction.eq_jump {i : Instruction} {n : Int} (h : i.jumpTarget? = some n) :
    i = { jump (.constant n) with tags := i.tags } := by
  obtain ⟨opcode, lhs, rhs, dest, tags⟩ := i
  simp only [jumpTarget?, Operand.isZero, Bool.and_eq_true, beq_iff_eq, ite_eq_iff, reduceCtorEq,
    and_false, or_false] at h
  obtain ⟨⟨⟨rfl, hlhs⟩, hdest⟩, hrhs⟩ := h
  rw [Operand.eq_constant hlhs, Operand.eq_constant hdest, Operand.eq_constant hrhs]
  rfl

@[simp] lemma Instruction.jumpTarget?_jump (n : Int) (tags : List Label) :
    ({ jump (.constant n) with tags } : Instruction).jumpTarget? = some n := rfl

namespace Peephole.Threading

/-- Threading a jump either leaves everything as it is, or the delay slot is free and the jump and
the slot are replaced. -/
lemma step_cases (t : Threading) (i : Nat) :
    t.step i = t ∨ ∃ (n : Nat) (tags : List Label) (slot landing : Instruction),
      i + 1 ∉ t.landings ∧ t.inDelaySlot i = false ∧
      t.code[i]? = some { Instruction.jump (.constant n) with tags } ∧
      t.code[i + 1]? = some slot ∧ slot.isNop ∧ t.code[n]? = some landing ∧
      t.step i =
        { code :=
            (t.code.setIfInBounds i
              { Instruction.jump (.constant (n + 1)) with tags }).setIfInBounds (i + 1)
                { landing with tags := slot.tags }
          landings := (n + 1) :: t.landings } := by
  unfold step
  split
  · exact Or.inl rfl
  next hfree =>
    simp only [Bool.or_eq_true, List.contains_iff_mem, not_or, Bool.not_eq_true] at hfree
    split
    next jump slot hjump hslot =>
      unfold threadJump
      by_cases hnop : slot.isNop = true
      · simp only [hnop, if_true]
        rcases htarget : jump.jumpTarget? with _ | (n | n)
        · exact Or.inl rfl
        · rcases hlanding : t.code[n]? with _ | landing
          · exact Or.inl (by simp [hlanding])
          · refine Or.inr ⟨n, jump.tags, slot, landing, hfree.1, hfree.2, ?_, hslot,
              hnop, hlanding, ?_⟩
            · rw [hjump]
              exact congrArg some (Instruction.eq_jump htarget)
            · rw [Instruction.eq_jump htarget]
              simp only [Int.ofNat_eq_natCast, hlanding]
              rfl
        · exact Or.inl rfl
      · exact Or.inl (by simp [hnop])
    · exact Or.inl rfl

/-- The state of the pass after the jumps before `done`, as a record `target` describes it: `target
i` is where a threaded jump at `i` led to in `source`. -/
structure Records (source : Array Instruction) (landings : List Nat) (done : Nat)
    (target : Nat → Option Nat) (t : Threading) : Prop where
  size : t.code.size = source.size
  protects : ∀ n ∈ landings, n ∈ t.landings
  lands : ∀ i n, target i = some n → n + 1 ∈ t.landings
  bounds : ∀ i n, target i = some n → i < done ∧ i + 1 < source.size ∧ n < source.size
  free : ∀ i n, target i = some n → i + 1 ∉ landings
  jump : ∀ i n, target i = some n → ∃ tags,
    source[i]? = some { Instruction.jump (.constant n) with tags } ∧
    t.code[i]? = some { Instruction.jump (.constant (n + 1)) with tags }
  slot : ∀ i n, target i = some n → source[i + 1]?.any Instruction.isNop
  /-- The slot of a threaded jump holds what its target holds. -/
  copy : ∀ i n, target i = some n → n ∈ landings → n ≠ i → ∃ l tags,
    t.code[n]? = some l ∧ t.code[i + 1]? = some { l with tags }
  /-- A jump to itself has got itself into its slot, as it was before. -/
  spin : ∀ i, target i = some i → ∃ tags,
    t.code[i + 1]? = some { Instruction.jump (.constant i) with tags }
  kept : ∀ i, target i = none → (∀ j, i = j + 1 → target j = none) → t.code[i]? = source[i]?

lemma records_start (source : Array Instruction) (landings : List Nat) :
    Records source landings 0 (fun _ => none) { code := source, landings } := by
  constructor <;> simp

variable {source : Array Instruction} {landings : List Nat} {i : Nat} {target : Nat → Option Nat}
  {t : Threading}

/-- A threaded jump stands in no delay slot: the one before it is no jump that was threaded. -/
lemma Records.target_eq_none_of_inDelaySlot (h : Records source landings i target t)
    (hslot : t.inDelaySlot i = false) {j : Nat} (hj : i = j + 1) : target j = none := by
  by_contra hne
  obtain ⟨n, hn⟩ := Option.ne_none_iff_exists'.mp hne
  obtain ⟨tags, -, hcode⟩ := h.jump j n hn
  subst hj
  simp only [inDelaySlot, hcode] at hslot
  refine absurd hslot ?_
  simp [Instruction.writesProgramCounter, Instruction.isNop, Instruction.jump, Instruction.copy,
    Operand.programCounter, Operand.isZero]

/-- **One jump**: threading it keeps the record true, with at most this jump added. -/
lemma Records.step (h : Records source landings i target t) :
    ∃ target', Records source landings (i + 1) target' (t.step i) := by
  rcases step_cases t i with hsame | ⟨n, tags, slot, landing, hprot, hdelay, hi, hslot,
    hnop, hn, hstep⟩
  · refine ⟨target, ?_⟩
    rw [hsame]
    exact { h with
      bounds := fun j m hj => ⟨by have := h.bounds j m hj; omega, (h.bounds j m hj).2⟩ }
  · have hfresh : target i = none := by
      by_contra hne
      obtain ⟨m, hm⟩ := Option.ne_none_iff_exists'.mp hne
      have := (h.bounds i m hm).1
      omega
    have hprev : ∀ j, i = j + 1 → target j = none := fun j => h.target_eq_none_of_inDelaySlot hdelay
    have hnext : target (i + 1) = none := by
      by_contra hne
      obtain ⟨m, hm⟩ := Option.ne_none_iff_exists'.mp hne
      have := (h.bounds _ m hm).1
      omega
    have hsize : i + 1 < t.code.size := (Array.getElem?_eq_some_iff.mp hslot).1
    have hnsize : n < t.code.size := (Array.getElem?_eq_some_iff.mp hn).1
    -- the code after the step, place by place
    have hcode : ∀ k, (t.step i).code[k]? =
        if k = i + 1 then some { landing with tags := slot.tags }
        else if k = i then some { Instruction.jump (.constant (n + 1)) with tags }
        else t.code[k]? := by
      intro k
      rw [hstep]
      simp only [Array.getElem?_setIfInBounds, Array.size_setIfInBounds]
      split_ifs <;> first | rfl | omega
    have hold : ∀ k, k ≠ i → k ≠ i + 1 → (t.step i).code[k]? = t.code[k]? := by
      intro k h1 h2
      rw [hcode, if_neg h2, if_neg h1]
    -- a place recorded earlier is neither the jump nor its slot
    have hapart : ∀ j m, target j = some m → j ≠ i ∧ j ≠ i + 1 ∧ j + 1 ≠ i := by
      intro j m hj
      refine ⟨?_, ?_, ?_⟩
      · rintro rfl; simp [hfresh] at hj
      · rintro rfl; simp [hnext] at hj
      · intro hji; simp [hprev j hji.symm] at hj
    have hsource : source[i]? = some { Instruction.jump (.constant n) with tags } := by
      rw [← h.kept i hfresh hprev, hi]
    have hland : (t.step i).landings = (n + 1) :: t.landings := by rw [hstep]
    refine ⟨Function.update target i (some n), ?_⟩
    have hcases : ∀ j m, Function.update target i (some n) j = some m →
        (j = i ∧ m = n) ∨ target j = some m := by
      intro j m hj
      by_cases hji : j = i
      · subst hji
        simp only [Function.update_self, Option.some.injEq] at hj
        exact Or.inl ⟨rfl, hj.symm⟩
      · rw [Function.update_of_ne hji] at hj
        exact Or.inr hj
    constructor
    case size => rw [hstep]; simpa using h.size
    case protects =>
      intro m hm
      rw [hland]
      exact List.mem_cons_of_mem _ (h.protects m hm)
    case lands =>
      intro j m hj
      rw [hland]
      rcases hcases j m hj with ⟨rfl, rfl⟩ | hj
      · exact List.mem_cons_self
      · exact List.mem_cons_of_mem _ (h.lands j m hj)
    case bounds =>
      intro j m hj
      rcases hcases j m hj with ⟨rfl, rfl⟩ | hj
      · rw [← h.size]; omega
      · have := h.bounds j m hj; omega
    case free =>
      intro j m hj
      rcases hcases j m hj with ⟨rfl, rfl⟩ | hj
      · exact fun hmem => hprot (h.protects _ hmem)
      · exact h.free j m hj
    case jump =>
      intro j m hj
      rcases hcases j m hj with ⟨rfl, rfl⟩ | hj
      · exact ⟨tags, hsource, by rw [hcode, if_neg (by omega), if_pos rfl]⟩
      · obtain ⟨h1, h2, -⟩ := hapart j m hj
        rw [hold j h1 h2]
        exact h.jump j m hj
    case slot =>
      intro j m hj
      rcases hcases j m hj with ⟨rfl, rfl⟩ | hj
      · have hkept : t.code[j + 1]? = source[j + 1]? := h.kept _ hnext fun k hk => by
          obtain rfl : k = j := by omega
          exact hfresh
        rw [← hkept, hslot]
        simpa using hnop
      · exact h.slot j m hj
    case copy =>
      intro j m hj hm hne
      rcases hcases j m hj with ⟨rfl, rfl⟩ | hj
      · -- the target is no slot, since the slot of the new jump is no landing place
        have hm1 : m ≠ j + 1 := fun e => hprot (h.protects _ (e ▸ hm))
        exact ⟨landing, slot.tags, by rw [hold m hne hm1, hn], by rw [hcode, if_pos rfl]⟩
      · obtain ⟨h1, h2, h3⟩ := hapart j m hj
        have hm1 : m ≠ i + 1 := fun e => hprot (h.protects _ (e ▸ hm))
        have hmi : m ≠ i := fun e => hprot (e ▸ h.lands j m hj)
        rw [hold m hmi hm1, hold (j + 1) h3 (by omega)]
        exact h.copy j m hj hm hne
    case spin =>
      intro j hj
      rcases hcases j j hj with ⟨rfl, hjn⟩ | hj
      · subst hjn
        rw [hi] at hn
        refine ⟨slot.tags, ?_⟩
        rw [hcode, if_pos rfl, ← Option.some.inj hn]
      · obtain ⟨h1, h2, h3⟩ := hapart j j hj
        rw [hold (j + 1) h3 (by omega)]
        exact h.spin j hj
    case kept =>
      intro j hj hjprev
      have hji : j ≠ i := by
        rintro rfl
        simp at hj
      have hji1 : j ≠ i + 1 := by
        rintro rfl
        simpa using hjprev i rfl
      rw [hold j hji hji1]
      refine h.kept j ?_ ?_
      · rwa [Function.update_of_ne hji] at hj
      · intro k hk
        have hki : k ≠ i := by omega
        simpa [Function.update_of_ne hki] using hjprev k hk

/-- **The pass**: some record describes what threading the first `k` jumps leaves. -/
lemma exists_records (source : Array Instruction) (landings : List Nat) (k : Nat) :
    ∃ target, Records source landings k target
      ((List.range k).foldl Threading.step { code := source, landings }) := by
  induction k with
  | zero => exact ⟨_, records_start source landings⟩
  | succ k ih =>
    obtain ⟨target, h⟩ := ih
    rw [List.range_succ, List.foldl_append]
    exact h.step

lemma forall_mem_foldl {P : Instruction → Prop}
    (hjump : ∀ n tags, P { Instruction.jump (.constant n) with tags })
    (htags : ∀ i tags, P i → P { i with tags }) (h : ∀ i ∈ t.code, P i) (ks : List Nat) :
    ∀ i ∈ (ks.foldl Threading.step t).code, P i := by
  induction ks generalizing t with
  | nil => exact h
  | cons k ks ih =>
    refine ih ?_
    rcases step_cases t k with hsame | ⟨n, tags, slot, landing, -, -, -, -, -, hn, hstep⟩
    · rwa [hsame]
    · rw [hstep]
      intro i hi
      rcases Array.mem_or_eq_of_mem_setIfInBounds hi with hi | rfl
      · rcases Array.mem_or_eq_of_mem_setIfInBounds hi with hi | rfl
        · exact h i hi
        · exact hjump _ tags
      · exact htags _ _ (h landing (Array.mem_of_getElem? hn))

end Peephole.Threading
end CogolToolchain
