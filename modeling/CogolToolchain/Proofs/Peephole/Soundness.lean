import CogolToolchain.Proofs.Peephole.Threading
import Mathlib.Data.List.Chain

/-!
The peephole pass keeps what a program does.

Two machines run side by side, one on the code and one on the code after the pass. Each step of the
second is matched by one or two steps of the first, and in between both stand at matching places
with the same memory, but for the program counter. Places match when they are the same, when the
second machine is already past a threaded jump, or when both go round in a jump to itself.
-/

namespace CogolToolchain
namespace Peephole

open Instruction Machine

def Jumps (i : Instruction) (n : Nat) : Prop :=
  ∀ m display, execute i.word m display = (m.write 0 (UInt16.ofNat n), display, some (n + 1))

lemma jumps_jump {n : Nat} (h : n < 65536) (tags : List Label) :
    Jumps { jump (.constant n) with tags } n := by
  intro m display
  have hn : (UInt16.ofNat n).toNat = n := by rw [UInt16.toNat_ofNat']; omega
  rw [jump, execute_copy, Operand.word_constant, Memory.eval_constant, Word.ofInt_natCast]
  simp only [store, hn]
  rfl

lemma Jumps.of_equiv {i j : Instruction} {n : Nat} (h : Jumps j n) (hij : Equiv i j) : Jumps i n :=
  fun m display => by rw [hij, h]

/-- No instruction that names the program counter is directly followed by another one. -/
def SlotsApart (code : Code) : Prop :=
  code.IsChain fun i j => i.writesProgramCounter → ¬ j.writesProgramCounter

instance (code : Code) : Decidable (SlotsApart code) := inferInstanceAs (Decidable (code.IsChain _))

lemma SlotsApart.not_writes {code : Code} (h : SlotsApart code) {k : Nat} {i j : Instruction}
    (hi : code[k]? = some i) (hj : code[k + 1]? = some j) (hpc : i.writesProgramCounter) :
    ¬ j.writesProgramCounter := by
  obtain ⟨hk, rfl⟩ := List.getElem?_eq_some_iff.mp hi
  obtain ⟨hk1, rfl⟩ := List.getElem?_eq_some_iff.mp hj
  exact List.isChain_iff_getElem.mp h k hk1 hpc

/-- The instruction that the machine runs next in the code after the leading `MLZ 0 0 0` reads
nothing from the program counter, writes to it only if it names it as its destination, and jumps
only to a landing place or past the end. -/
def IsTame (code : Code) (landings : List Nat) (m : Machine) : Prop :=
  ∀ i, (nop :: code)[m.next]? = some i →
    0 ∉ i.word.reads (m.memory.write 0 (UInt16.ofNat m.next)) ∧
    ∀ v, (execute i.word (m.memory.write 0 (UInt16.ofNat m.next)) m.display).2.2 = some (v + 1) →
      i.dest.isZero ∧ (v ∈ landings ∨ code.length ≤ v)

instance (code : Code) (landings : List Nat) (m : Machine) : Decidable (IsTame code landings m) :=
  decidable_of_iff
    (∀ i ∈ (nop :: code)[m.next]?, 0 ∉ i.word.reads (m.memory.write 0 (UInt16.ofNat m.next)) ∧
      ∀ p ∈ (execute i.word (m.memory.write 0 (UInt16.ofNat m.next)) m.display).2.2,
        i.dest.isZero ∧ (p - 1 ∈ landings ∨ code.length ≤ p - 1)) <| by
    refine forall₂_congr fun i _ => and_congr_right fun _ =>
      ⟨fun h v hv => h _ hv, fun h p hp => ?_⟩
    obtain ⟨w, -, -, rfl⟩ := exists_of_execute_jump hp
    exact h w.toNat hp

def IsTameRun (code : Code) (landings : List Nat) (m : Machine) : Prop :=
  ∀ n, IsTame code landings (m.run n)

lemma IsTameRun.run {code : Code} {landings : List Nat} {m : Machine}
    (h : IsTameRun code landings m) (n : Nat) : IsTameRun code landings (m.run n) := fun k => by
  rw [← run_add]
  exact h (n + k)

lemma isTameRun_of_isHalted {code : Code} {landings : List Nat} {m : Machine} {k : Nat}
    (hk : (m.run k).isHalted) (h : ∀ n ≤ k, IsTame code landings (m.run n)) :
    IsTameRun code landings m := by
  intro n
  rcases Nat.le_total n k with hn | hn
  · exact h n hn
  · rw [run_eq_of_le hk hn]
    exact h k le_rfl

/-- What the pass makes of `code`, in terms of what instructions do: `target i` is where a jump at
`i` that was threaded led to. -/
structure Rewrites (code : Code) (landings : List Nat) (target : Nat → Option Nat) (out : Code) :
    Prop where
  length : out.length = code.length
  bounds : ∀ i n, target i = some n → i + 1 < code.length ∧ n < code.length
  free : ∀ i n, target i = some n → i + 1 ∉ landings
  jump : ∀ i n, target i = some n →
    (∃ p, code[i]? = some p ∧ Jumps p n) ∧ ∃ q, out[i]? = some q ∧ Jumps q (n + 1)
  slot : ∀ i n, target i = some n → ∃ p, code[i + 1]? = some p ∧ Equiv p nop
  copy : ∀ i n, target i = some n → n ∈ landings → n ≠ i →
    ∃ l q, out[n]? = some l ∧ out[i + 1]? = some q ∧ Equiv q l
  spin : ∀ i, target i = some i → ∃ q, out[i + 1]? = some q ∧ Jumps q i
  kept : ∀ i, target i = none → (∀ j, i = j + 1 → target j = none) → ∀ p, code[i]? = some p →
    ∃ q, out[i]? = some q ∧ Equiv q p

lemma isNop_equiv {i : Instruction} (h : i.isNop) : Equiv i nop := by
  obtain ⟨opcode, lhs, rhs, dest, tags⟩ := i
  simp only [isNop, Operand.isZero, Bool.and_eq_true, beq_iff_eq] at h
  obtain ⟨⟨⟨rfl, hlhs⟩, hrhs⟩, hdest⟩ := h
  rw [Operand.eq_constant hlhs, Operand.eq_constant hrhs, Operand.eq_constant hdest]
  exact fun _ _ => rfl

lemma exists_rewrites {code : Code} (landings : List Nat) (small : code.length ≤ 65534)
    (tests : ∀ i ∈ code, i.TestFits) :
    ∃ target, Rewrites code landings target (optimize code landings) := by
  obtain ⟨target, h⟩ := Threading.exists_records (code.map simplify).toArray landings
    (code.length - 1)
  have hsize : (code.map simplify).toArray.size = code.length := by simp
  have hsource : ∀ k : Nat, (code.map simplify).toArray[k]? = code[k]?.map simplify := by simp
  have hout : ∀ k : Nat, (optimize code landings)[k]? =
    ((List.range (code.length - 1)).foldl Threading.step
      { code := (code.map simplify).toArray, landings }).code[k]? := by
    intro k
    simp [optimize]
  have hequiv : ∀ {k : Nat} {p}, code[k]? = some p → Equiv (simplify p) p := fun hp =>
    simplify_equiv (tests _ (List.mem_of_getElem? hp))
  refine ⟨target, ?_⟩
  constructor
  case length => simpa [optimize] using h.size
  case bounds =>
    intro i n hi
    have := h.bounds i n hi
    omega
  case free => exact h.free
  case jump =>
    intro i n hi
    have hb := h.bounds i n hi
    obtain ⟨tags, hs, ht⟩ := h.jump i n hi
    rw [hsource, Option.map_eq_some_iff] at hs
    obtain ⟨p, hp, hsimp⟩ := hs
    refine ⟨⟨p, hp, ?_⟩, _, (hout i).trans ht, by exact_mod_cast jumps_jump (by omega) tags⟩
    refine Jumps.of_equiv (jumps_jump (by omega) tags) fun m display => ?_
    rw [← hequiv hp, hsimp]
  case slot =>
    intro i n hi
    have hnop := h.slot i n hi
    rw [hsource] at hnop
    rcases hp : code[i + 1]? with _ | p
    · simp [hp] at hnop
    · refine ⟨p, rfl, fun m display => ?_⟩
      rw [hp] at hnop
      rw [← hequiv hp, isNop_equiv (by simpa using hnop)]
  case copy =>
    intro i n hi hn hne
    obtain ⟨l, tags, hl, hq⟩ := h.copy i n hi hn hne
    exact ⟨l, _, (hout n).trans hl, (hout (i + 1)).trans hq, fun _ _ => rfl⟩
  case spin =>
    intro i hi
    have hb := h.bounds i i hi
    obtain ⟨tags, hq⟩ := h.spin i hi
    exact ⟨_, (hout (i + 1)).trans hq, jumps_jump (by omega) tags⟩
  case kept =>
    intro i hi hprev p hp
    refine ⟨simplify p, ?_, hequiv hp⟩
    rw [hout, h.kept i hi hprev, hsource, hp]
    rfl

/-! ### Two machines side by side -/

section Simulation

variable {code out : Code} {landings : List Nat} {target : Nat → Option Nat} {s t : Machine}

/-- Where the two machines stand, each given by the instruction to run next and by where a jump that
was just taken leads. Instruction `k` of the code is number `k + 1` of the program. -/
inductive Matches (code : Code) (landings : List Nat) (target : Nat → Option Nat) :
    Nat → Option Nat → Nat → Option Nat → Prop where
  /-- Both are about to run instruction `k`, which is no slot of a threaded jump. -/
  | fresh (k : Nat) (hprev : ∀ j, k = j + 1 → target j = none) :
      Matches code landings target (k + 1) none (k + 1) none
  /-- Both are in the slot of the same jump to `v`. -/
  | slot (k v : Nat) (i : Instruction) (hi : code[k]? = some i) (hpc : i.writesProgramCounter)
      (hk : target k = none) (hv : v ∈ landings ∨ code.length ≤ v) :
      Matches code landings target (k + 2) (some (v + 1)) (k + 2) (some (v + 1))
  /-- One has landed on `n`, the other is in the slot of the jump that led there. -/
  | ahead (j n : Nat) (hj : target j = some n) (hn : n ∈ landings) :
      Matches code landings target (n + 1) none (j + 2) (some (n + 2))
  /-- Both go round in the jump from `j` to itself. -/
  | spin (j a b : Nat) (hj : target j = some j)
      (hab : (a, b) ∈ [(j + 2, j + 1), (j + 1, j + 1), (j + 1, j + 2)]) :
      Matches code landings target (j + 1) none a (some b)

/-- The machines run `code` and `out`, stand at matching places, and agree but for the program
counter. -/
structure Sim (code out : Code) (landings : List Nat) (target : Nat → Option Nat) (s t : Machine) :
    Prop where
  left : s.program = ((nop :: code).map Instruction.word).toArray
  right : t.program = ((nop :: out).map Instruction.word).toArray
  place : Matches code landings target s.next s.pending t.next t.pending
  memory : Memory.EqOff {0} s.memory t.memory
  display : t.display = s.display

lemma program_getElem? {m : Machine} {body : Code}
    (h : m.program = ((nop :: body).map word).toArray) (k : Nat) :
    m.program[k + 1]? = body[k]?.map word := by
  simp [h]

lemma Sim.fetch (hsim : Sim code out landings target s t) {k : Nat} {q : Instruction}
    (ht : t.next = k + 1) (hq : out[k]? = some q) : t.program[t.next]? = some q.word := by
  rw [ht, program_getElem? hsim.right, hq]
  rfl

lemma step_of_jumps {m : Machine} {i : Instruction} {n : Nat} (hi : Jumps i n)
    (h : m.program[m.next]? = some i.word) :
    Memory.EqOff {0} m.memory m.step.memory ∧ m.step.display = m.display ∧
      m.step.next = m.pending.getD (m.next + 1) ∧ m.step.pending = some (n + 1) ∧
      m.step.steps = m.steps + 1 := by
  rw [step_eq h, hi]
  refine ⟨?_, rfl, rfl, rfl, rfl⟩
  exact (Memory.EqOff.write_self _ (Set.mem_singleton 0) _).write_right (Set.mem_singleton 0) _

lemma step_of_equiv_nop {m : Machine} {i : Instruction} (hi : Equiv i nop)
    (h : m.program[m.next]? = some i.word) :
    Memory.EqOff {0} m.memory m.step.memory ∧ m.step.display = m.display ∧
      m.step.next = m.pending.getD (m.next + 1) ∧ m.step.pending = none ∧
      m.step.steps = m.steps + 1 := by
  rw [step_eq h, hi]
  exact ⟨Memory.EqOff.write_self _ (Set.mem_singleton 0) _, rfl, rfl, rfl, rfl⟩

lemma step_of_equiv {i j : Instruction} (hs : s.program[s.next]? = some i.word)
    (ht : t.program[t.next]? = some j.word) (hij : Equiv j i)
    (hr : 0 ∉ i.word.reads (s.memory.write 0 (UInt16.ofNat s.next)))
    (hm : Memory.EqOff {0} s.memory t.memory) (hd : t.display = s.display) :
    Memory.EqOff {0} s.step.memory t.step.memory ∧ t.step.display = s.step.display ∧
      t.step.pending = s.step.pending := by
  rw [step_eq hs, step_eq ht, hij, hd]
  have hoff : Memory.EqOff {0} (s.memory.write 0 (UInt16.ofNat s.next))
      (t.memory.write 0 (UInt16.ofNat t.next)) :=
    (hm.write_left (Set.mem_singleton 0) _).write_right (Set.mem_singleton 0) _
  obtain ⟨hmem, hrest⟩ := execute_eqOff s.display hoff (i := i.word) fun c hc hc0 => hr (hc0 ▸ hc)
  exact ⟨hmem, by rw [hrest], by rw [hrest]⟩

lemma Rewrites.fresh_of_landing (h : Rewrites code landings target out) {v : Nat}
    (hv : v ∈ landings ∨ code.length ≤ v) : ∀ j, v = j + 1 → target j = none := by
  rintro j rfl
  by_contra hne
  obtain ⟨n, hn⟩ := Option.ne_none_iff_exists'.mp hne
  rcases hv with hv | hv
  · exact h.free j n hn hv
  · have := (h.bounds j n hn).1
    omega

lemma run_threaded (h : Rewrites code landings target out) {n v : Nat} (hn : target n = some v)
    (hprogram : s.program = ((nop :: code).map Instruction.word).toArray) (hnext : s.next = n + 1)
    (hpending : s.pending = none) (htame : IsTameRun code landings s) :
    v ∈ landings ∧ Memory.EqOff {0} s.memory (s.run 2).memory ∧ (s.run 2).display = s.display ∧
      (s.run 2).next = v + 1 ∧ (s.run 2).pending = none ∧ (s.run 2).steps = s.steps + 2 := by
  obtain ⟨⟨p, hp, hjump⟩, -⟩ := h.jump n v hn
  obtain ⟨p', hp', hnop⟩ := h.slot n v hn
  have hfirst : s.program[s.next]? = some p.word := by
    rw [hnext, program_getElem? hprogram, hp]; rfl
  obtain ⟨hm1, hd1, hn1, hp1, hs1⟩ := step_of_jumps hjump hfirst
  have hsecond : s.step.program[s.step.next]? = some p'.word := by
    rw [step_program, hn1, hpending, hnext]
    simp [program_getElem? hprogram, hp']
  obtain ⟨hm2, hd2, hn2, hp2, hs2⟩ := step_of_equiv_nop hnop hsecond
  have hrun : s.run 2 = s.step.step := by
    rw [run_succ_of_not_halted (not_isHalted hfirst), run_one hsecond]
  have hland : v ∈ landings ∨ code.length ≤ v := by
    have hp0 : (nop :: code)[s.next]? = some p := by rw [hnext]; exact hp
    exact ((htame 0 p hp0).2 v (by rw [hjump])).2
  have hlt := (h.bounds n v hn).2
  rw [hrun]
  refine ⟨hland.resolve_right (by omega), hm1.trans hm2, hd2.trans hd1, ?_, hp2, by omega⟩
  rw [hn2, hp1]
  rfl

lemma writesProgramCounter_of_jump {i : Instruction} {m : Memory} {display : Array Word} {p : Nat}
    (h : (execute i.word m display).2.2 = some p) (hzero : i.dest.isZero) :
    i.writesProgramCounter := by
  have hnop : i.isNop = false := by
    by_contra hne
    rw [Bool.not_eq_false] at hne
    simp only [isNop_equiv hne _ _, execute_nop, reduceCtorEq] at h
  simp [writesProgramCounter, hnop, hzero]

lemma execute_slot (apart : SlotsApart code) {k : Nat} {i p : Instruction} (hi : code[k]? = some i)
    (hpc : i.writesProgramCounter) (hp : code[k + 1]? = some p) (hnext : s.next = k + 2)
    (htame : IsTame code landings s) :
    (execute p.word (s.memory.write 0 (UInt16.ofNat s.next)) s.display).2.2 = none := by
  by_contra hne
  obtain ⟨a, ha⟩ := Option.ne_none_iff_exists'.mp hne
  obtain ⟨w, -, -, rfl⟩ := exists_of_execute_jump ha
  obtain ⟨hzero, -⟩ := (htame p (by rw [hnext]; exact hp)).2 _ ha
  exact apart.not_writes hi hp hpc (writesProgramCounter_of_jump ha hzero)

lemma matches_of_same {k : Nat} {i : Instruction} (hi : code[k]? = some i) (hk : target k = none)
    (hprogram : s.program = ((nop :: code).map Instruction.word).toArray) (hnext : s.next = k + 1)
    (hpending : s.pending = none) (htame : IsTame code landings s) (ht : t.next = k + 2)
    (htp : t.pending = s.step.pending) :
    Matches code landings target s.step.next s.step.pending t.next t.pending := by
  have hget : s.program[s.next]? = some i.word := by rw [hnext, program_getElem? hprogram, hi]; rfl
  have hs : s.step.next = k + 2 := by rw [step_eq hget, hpending, hnext]; rfl
  obtain ⟨-, hland⟩ := htame i (by rw [hnext]; exact hi)
  rw [hs, ht, htp]
  rcases hjump : s.step.pending with _ | p
  · refine Matches.fresh (k + 1) fun j hj => ?_
    obtain rfl : j = k := by omega
    exact hk
  · rw [step_eq hget] at hjump
    obtain ⟨w, -, -, rfl⟩ := exists_of_execute_jump hjump
    obtain ⟨hzero, hv⟩ := hland w.toNat hjump
    exact Matches.slot k w.toNat i hi (writesProgramCounter_of_jump hjump hzero) hk hv

lemma Sim.step_same (hsim : Sim code out landings target s t) {k : Nat} {i j : Instruction}
    (hi : code[k]? = some i) (hk : target k = none) (hnext : s.next = k + 1)
    (hpending : s.pending = none) (htame : IsTame code landings s)
    (hj : t.program[t.next]? = some j.word) (hji : Equiv j i)
    (ht : t.pending.getD (t.next + 1) = k + 2) :
    Sim code out landings target (s.run 1) t.step ∧ (s.run 1).steps = s.steps + 1 := by
  have hget : s.program[s.next]? = some i.word := by rw [hnext, program_getElem? hsim.left, hi]; rfl
  obtain ⟨hr, -⟩ := htame i (by rw [hnext]; exact hi)
  obtain ⟨hm, hd, hp⟩ := step_of_equiv hget hj hji hr hsim.memory hsim.display
  rw [run_one hget]
  refine ⟨⟨?_, ?_, ?_, hm, hd⟩, by rw [step_eq hget]⟩
  · rw [step_program, hsim.left]
  · rw [step_program, hsim.right]
  · exact matches_of_same hi hk hsim.left hnext hpending htame (by rw [step_eq hj]; exact ht) hp

/-- One machine runs a jump that was threaded and its slot, the other a jump of its own. -/
lemma Sim.step_threaded (h : Rewrites code landings target out)
    (hsim : Sim code out landings target s t) {n v a : Nat} {j : Instruction}
    (hn : target n = some v) (hnext : s.next = n + 1) (hpending : s.pending = none)
    (htame : IsTameRun code landings s) (hj : t.program[t.next]? = some j.word) (hjump : Jumps j a)
    (hplace : v ∈ landings →
      Matches code landings target (v + 1) none (t.pending.getD (t.next + 1)) (some (a + 1))) :
    Sim code out landings target (s.run 2) t.step ∧ (s.run 2).steps = s.steps + 2 := by
  obtain ⟨hv, hm, hd, hnext', hpending', hsteps⟩ :=
    run_threaded h hn hsim.left hnext hpending htame
  obtain ⟨htm, htd, htn, htp, -⟩ := step_of_jumps hjump hj
  refine ⟨⟨?_, ?_, ?_, (hm.symm.trans hsim.memory).trans htm, ?_⟩, hsteps⟩
  · rw [run_program, hsim.left]
  · rw [step_program, hsim.right]
  · rw [hnext', hpending', htn, htp]
    exact hplace hv
  · rw [htd, hsim.display, hd]

/-- **One step** of the machine on the rewritten code is matched by one or two on the code. -/
lemma Sim.step (h : Rewrites code landings target out) (apart : SlotsApart code)
    (hsim : Sim code out landings target s t) (htame : IsTameRun code landings s)
    (ht : ¬ t.isHalted) :
    ∃ n, 0 < n ∧ Sim code out landings target (s.run n) t.step ∧ s.steps + 1 ≤ (s.run n).steps := by
  have hplace := hsim.place
  obtain ⟨w, hw⟩ : ∃ w, t.program[t.next]? = some w :=
    Option.ne_none_iff_exists'.mp fun hnone => ht (isHalted_iff.mpr hnone)
  generalize hsn : s.next = sn at hplace
  generalize hsp : s.pending = sp at hplace
  generalize htn : t.next = tn at hplace
  generalize htp : t.pending = tp at hplace
  cases hplace with
  | fresh k hprev =>
    rw [htn, program_getElem? hsim.right, Option.map_eq_some_iff] at hw
    obtain ⟨q, hq, rfl⟩ := hw
    have hqw := hsim.fetch htn hq
    rcases hk : target k with _ | v
    · obtain ⟨p, hp⟩ : ∃ p, code[k]? = some p := by
        have hlt := (List.getElem?_eq_some_iff.mp hq).1
        rw [h.length] at hlt
        exact ⟨_, List.getElem?_eq_getElem hlt⟩
      obtain ⟨q', hq', hequiv⟩ := h.kept k hk hprev p hp
      obtain rfl : q' = q := by rw [hq] at hq'; exact (Option.some.inj hq').symm
      obtain ⟨hs, hsteps⟩ := hsim.step_same hp hk hsn hsp (htame 0) hqw
        hequiv (by rw [htp, htn]; rfl)
      exact ⟨1, by omega, hs, by omega⟩
    · obtain ⟨-, q', hq', hjump⟩ := h.jump k v hk
      obtain rfl : q' = q := by rw [hq] at hq'; exact (Option.some.inj hq').symm
      obtain ⟨hs, hsteps⟩ := hsim.step_threaded h hk hsn hsp htame hqw hjump fun hv => by
        rw [htp, htn]
        exact Matches.ahead k v hk hv
      exact ⟨2, by omega, hs, by omega⟩
  | slot k v i hi hpc hk hv =>
    rw [htn, program_getElem? hsim.right, Option.map_eq_some_iff] at hw
    obtain ⟨q, hq, rfl⟩ := hw
    have hqw := hsim.fetch htn hq
    obtain ⟨p, hp⟩ : ∃ p, code[k + 1]? = some p := by
      have hlt := (List.getElem?_eq_some_iff.mp hq).1
      rw [h.length] at hlt
      exact ⟨_, List.getElem?_eq_getElem hlt⟩
    have hpw : s.program[s.next]? = some p.word := by rw [hsn, program_getElem? hsim.left, hp]; rfl
    have hnone := execute_slot apart hi hpc hp hsn (htame 0)
    have hk1 : target (k + 1) = none := by
      by_contra hne
      obtain ⟨n, hn⟩ := Option.ne_none_iff_exists'.mp hne
      obtain ⟨⟨p', hp', hjump⟩, -⟩ := h.jump _ n hn
      obtain rfl : p' = p := by rw [hp] at hp'; exact (Option.some.inj hp').symm
      simp [hjump _ _] at hnone
    obtain ⟨q', hq', hequiv⟩ := h.kept (k + 1) hk1 (fun j hj => by
      obtain rfl : j = k := by omega
      exact hk) p hp
    obtain rfl : q' = q := by rw [hq] at hq'; exact (Option.some.inj hq').symm
    obtain ⟨hr, -⟩ := htame 0 p (by rw [run_zero, hsn]; exact hp)
    obtain ⟨hm, hd, hpend⟩ := step_of_equiv hpw hqw hequiv hr hsim.memory hsim.display
    refine ⟨1, by omega, ?_, by rw [run_one hpw, step_eq hpw]⟩
    rw [run_one hpw]
    refine ⟨by rw [step_program, hsim.left], by rw [step_program, hsim.right], ?_, hm, hd⟩
    have hsnone : s.step.pending = none := by rw [step_eq hpw]; exact hnone
    rw [hpend, hsnone, step_eq hpw, step_eq hqw, hsp, htp]
    exact Matches.fresh v (h.fresh_of_landing hv)
  | ahead j n hj hn =>
    by_cases hnj : n = j
    · subst hnj
      obtain ⟨q, hq, hjump⟩ := h.spin n hj
      have hqw := hsim.fetch htn hq
      obtain ⟨hs, hsteps⟩ := hsim.step_threaded h hj hsn hsp htame hqw hjump fun _ => by
        rw [htp]
        exact Matches.spin n _ _ hj (by simp)
      exact ⟨2, by omega, hs, by omega⟩
    · obtain ⟨l, q, hl, hq, hql⟩ := h.copy j n hj hn hnj
      have hqw := hsim.fetch htn hq
      rcases hk : target n with _ | v
      · obtain ⟨p, hp⟩ : ∃ p, code[n]? = some p :=
          ⟨_, List.getElem?_eq_getElem (h.bounds j n hj).2⟩
        obtain ⟨l', hl', hequiv⟩ := h.kept n hk (h.fresh_of_landing (Or.inl hn)) p hp
        obtain rfl : l' = l := by rw [hl] at hl'; exact (Option.some.inj hl').symm
        obtain ⟨hs, hsteps⟩ := hsim.step_same hp hk hsn hsp (htame 0) hqw
          (fun m display => by rw [hql, hequiv]) (by rw [htp]; rfl)
        exact ⟨1, by omega, hs, by omega⟩
      · obtain ⟨-, l', hl', hjump⟩ := h.jump n v hk
        obtain rfl : l' = l := by rw [hl] at hl'; exact (Option.some.inj hl').symm
        obtain ⟨hs, hsteps⟩ := hsim.step_threaded h hk hsn hsp htame hqw (hjump.of_equiv hql)
          fun hv => by
            rw [htp]
            exact Matches.ahead n v hk hv
        exact ⟨2, by omega, hs, by omega⟩
  | spin j a b hj hab =>
    obtain ⟨-, q, hq, hjump⟩ := h.jump j j hj
    obtain ⟨q', hq', hjump'⟩ := h.spin j hj
    simp only [List.mem_cons, Prod.mk.injEq, List.not_mem_nil, or_false] at hab
    rcases hab with ⟨rfl, rfl⟩ | ⟨rfl, rfl⟩ | ⟨rfl, rfl⟩
    · have hqw := hsim.fetch htn hq'
      obtain ⟨hs, hsteps⟩ := hsim.step_threaded h hj hsn hsp htame hqw hjump' fun _ => by
        rw [htp]
        exact Matches.spin j _ _ hj (by simp)
      exact ⟨2, by omega, hs, by omega⟩
    · have hqw := hsim.fetch htn hq
      obtain ⟨hs, hsteps⟩ := hsim.step_threaded h hj hsn hsp htame hqw hjump fun _ => by
        rw [htp]
        exact Matches.spin j _ _ hj (by simp)
      exact ⟨2, by omega, hs, by omega⟩
    · have hqw := hsim.fetch htn hq
      obtain ⟨hs, hsteps⟩ := hsim.step_threaded h hj hsn hsp htame hqw hjump fun hv => by
        rw [htp]
        exact Matches.ahead j j hj hv
      exact ⟨2, by omega, hs, by omega⟩

lemma Sim.isHalted_iff (h : Rewrites code landings target out)
    (hsim : Sim code out landings target s t) : s.isHalted ↔ t.isHalted := by
  have hs : s.program.size = code.length + 1 := by simp [hsim.left]
  have ht : t.program.size = code.length + 1 := by simp [hsim.right, h.length]
  simp only [isHalted, hs, ht, decide_eq_true_eq]
  have hplace := hsim.place
  generalize s.next = sn at hplace
  generalize s.pending = sp at hplace
  generalize t.next = tn at hplace
  generalize t.pending = tp at hplace
  cases hplace with
  | fresh k hprev => rfl
  | slot k v i hi hpc hk hv => rfl
  | ahead j n hj hn =>
    have := h.bounds j n hj
    omega
  | spin j a b hj hab =>
    have := h.bounds j j hj
    simp only [List.mem_cons, Prod.mk.injEq, List.not_mem_nil, or_false] at hab
    omega

structure Agree (s t : Machine) : Prop where
  memory : Memory.EqOff {0} s.memory t.memory
  display : t.display = s.display

/-- **A run of the code that halts**: so does the rewritten code, in no more steps. -/
lemma Sim.halts_right (h : Rewrites code landings target out) (apart : SlotsApart code) :
    ∀ (n : Nat) (s t : Machine), Sim code out landings target s t → IsTameRun code landings s →
      (s.run n).isHalted → ∃ k, (t.run k).isHalted ∧ Agree (s.run n) (t.run k) ∧
        (t.run k).steps + s.steps ≤ (s.run n).steps + t.steps := by
  intro n
  induction n using Nat.strongRecOn with
  | ind n ih =>
    intro s t hsim htame hn
    by_cases ht : t.isHalted
    · have hs := (hsim.isHalted_iff h).mpr ht
      refine ⟨0, ht, ?_, ?_⟩
      · rw [run_of_halted hs]
        exact ⟨hsim.memory, hsim.display⟩
      · rw [run_of_halted hs, run_zero]
        omega
    · obtain ⟨a, ha, hsim', hsteps⟩ := hsim.step h apart htame ht
      have hs : ¬ s.isHalted := fun hs => ht ((hsim.isHalted_iff h).mp hs)
      have hpos : n ≠ 0 := by
        rintro rfl
        exact hs hn
      -- what is left of the run of `s`
      have hrest : s.run n = (s.run a).run (n - a) := by
        rw [← run_add]
        exact (run_eq_of_le hn (by omega)).symm
      obtain ⟨k, hk, hagree, hcount⟩ := ih (n - a) (by omega) _ _ hsim' (htame.run a) (hrest ▸ hn)
      rw [← hrest] at hagree hcount
      refine ⟨k + 1, ?_, ?_, ?_⟩ <;> rw [run_succ_of_not_halted ht]
      · exact hk
      · exact hagree
      · have : t.step.steps = t.steps + 1 := by
          obtain ⟨w, hw⟩ := Option.ne_none_iff_exists'.mp fun hnone =>
            ht (Machine.isHalted_iff.mpr hnone)
          rw [step_eq hw]
        omega

/-- **A run of the rewritten code that halts**: so does the code. -/
lemma Sim.halts_left (h : Rewrites code landings target out) (apart : SlotsApart code) (k : Nat) :
    ∀ s t : Machine, Sim code out landings target s t → IsTameRun code landings s →
      (t.run k).isHalted → s.Halts := by
  induction k with
  | zero => exact fun s t hsim _ ht => ⟨0, (hsim.isHalted_iff h).mpr ht⟩
  | succ k ih =>
    intro s t hsim htame hk
    by_cases ht : t.isHalted
    · exact ⟨0, (hsim.isHalted_iff h).mpr ht⟩
    · obtain ⟨a, -, hsim', -⟩ := hsim.step h apart htame ht
      rw [run_succ_of_not_halted ht] at hk
      exact (halts_run_iff a).mp (ih _ _ hsim' (htame.run a) hk)

end Simulation

lemma optimize_isResolved {code : Code} (h : Code.IsResolved code) (landings : List Nat) :
    Code.IsResolved (optimize code landings) := by
  intro i hi
  refine Threading.forall_mem_foldl (P := Instruction.IsResolved) ?_ (fun _ _ h => h) ?_ _ i
    (Array.mem_toList_iff.mp hi)
  · intro n tags
    simp [Instruction.IsResolved, operands, jump, Instruction.copy, Operand.constant,
      Operand.programCounter, Value.number?]
  · intro j hj
    obtain ⟨p, hp, rfl⟩ := List.mem_map.mp (List.mem_toArray.mp hj)
    exact simplify_isResolved (h p hp)

lemma sim_boot (code out : Code) (landings : List Nat) (target : Nat → Option Nat)
    (memory : Memory) : Sim code out landings target ((boot (nop :: code) memory).run 1)
      ((boot (nop :: out) memory).run 1) := by
  rw [run_one (boot_fetch code memory), run_one (boot_fetch out memory)]
  obtain ⟨hm, hd, hn, hp, -⟩ := step_of_equiv_nop (fun _ _ => rfl) (boot_fetch code memory)
  obtain ⟨hm', hd', hn', hp', -⟩ := step_of_equiv_nop (fun _ _ => rfl) (boot_fetch out memory)
  refine ⟨step_program _, step_program _, ?_, hm.symm.trans hm', hd'.trans hd.symm⟩
  rw [hn, hp, hn', hp']
  exact Matches.fresh 0 (by simp)

/-- **Soundness of the pass.** Let no instruction that names the program counter follow another one,
let the constant tests fit in a signed word, and let the run of the code from `memory` be tame. Then
the pass keeps the length of the code, and the run of the code after the pass halts exactly when
that of the code does. If so, it takes no more steps, writes the same to the display, and leaves the
same memory, but for the program counter. -/
theorem optimize_refines {code : Code} {landings : List Nat} {memory : Memory}
    (resolved : Code.IsResolved code) (small : code.length ≤ 65534) (apart : SlotsApart code)
    (tests : ∀ i ∈ code, i.TestFits)
    (tame : IsTameRun code landings (boot (nop :: code) memory)) :
    (optimize code landings).length = code.length ∧
    load (nop :: optimize code landings) = .ok (boot (nop :: optimize code landings) .zero) ∧
    (Halts (boot (nop :: optimize code landings) memory) ↔ Halts (boot (nop :: code) memory)) ∧
    ∀ n k, ((boot (nop :: code) memory).run n).isHalted →
      ((boot (nop :: optimize code landings) memory).run k).isHalted →
      (∀ a, a ≠ 0 → ((boot (nop :: optimize code landings) memory).run k).memory.read a =
        ((boot (nop :: code) memory).run n).memory.read a) ∧
      ((boot (nop :: optimize code landings) memory).run k).display =
        ((boot (nop :: code) memory).run n).display ∧
      ((boot (nop :: optimize code landings) memory).run k).steps ≤
        ((boot (nop :: code) memory).run n).steps := by
  have hout : Code.IsResolved (nop :: optimize code landings) := by
    simpa [Code.IsResolved, nop_isResolved] using optimize_isResolved resolved landings
  obtain ⟨target, h⟩ := exists_rewrites landings small tests
  generalize optimize code landings = out at h hout
  have hsim := sim_boot code out landings target memory
  refine ⟨h.length, load_eq hout, ⟨?_, ?_⟩, ?_⟩
  · rintro ⟨k, hk⟩
    rw [← run_run_of_halted hk 1] at hk
    exact (halts_run_iff 1).mp (hsim.halts_left h apart k _ _ (tame.run 1) hk)
  · rintro ⟨n, hn⟩
    rw [← run_run_of_halted hn 1] at hn
    obtain ⟨k, hk, -, -⟩ := Sim.halts_right h apart n _ _ hsim (tame.run 1) hn
    exact (halts_run_iff 1).mp ⟨k, hk⟩
  · intro n k hn hk
    obtain ⟨k', hk', hagree, hsteps⟩ := Sim.halts_right h apart n _ _ hsim (tame.run 1)
      (by rwa [run_run_of_halted hn])
    rw [run_run_of_halted hn] at hagree hsteps
    rw [← run_add] at hk' hagree hsteps
    rw [run_eq_of_halted hk hk']
    refine ⟨fun a ha => hagree.memory a ha, hagree.display, ?_⟩
    rw [run_one (boot_fetch code memory), run_one (boot_fetch out memory),
      step_eq (boot_fetch code memory), step_eq (boot_fetch out memory)] at hsteps
    exact Nat.le_of_add_le_add_right hsteps

/-- A jump to a jump, with the second one threaded into the slot of the first. -/
theorem optimize_refines_chain :
    let code : Code := [jump (.constant 3), nop, nop, jump (.constant 5), nop,
      Instruction.copy (.constant 7) (.constant 1), Instruction.copy (.cell 1) (.constant 9)]
    (optimize code [3, 5]).map Instruction.text ≠ code.map Instruction.text ∧
    (Halts (boot (nop :: optimize code [3, 5]) .zero) ↔ Halts (boot (nop :: code) .zero)) ∧
    ((boot (nop :: code) .zero).run 8).isHalted ∧
    ((boot (nop :: optimize code [3, 5]) .zero).run 8).isHalted ∧
    ((boot (nop :: optimize code [3, 5]) .zero).run 8).display =
      ((boot (nop :: code) .zero).run 8).display := by
  intro code
  have hhalt : ((boot (nop :: code) .zero).run 8).isHalted := by decide +kernel
  have hhalt' : ((boot (nop :: optimize code [3, 5]) .zero).run 8).isHalted := by decide +kernel
  have htame : IsTameRun code [3, 5] (boot (nop :: code) .zero) :=
    isTameRun_of_isHalted hhalt (by decide +kernel)
  obtain ⟨-, -, hiff, hend⟩ := optimize_refines (by decide) (by decide) (by decide)
    (by decide) htame
  exact ⟨by decide +kernel, hiff, hhalt, hhalt', (hend 8 8 hhalt hhalt').2.1⟩

end Peephole
end CogolToolchain
