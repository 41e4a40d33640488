import CogolToolchain.Proofs.Compile.Transfer
import CogolToolchain.Proofs.Structured.Correctness

/-!
How a run goes on between calls and returns.

From the start of a program the run comes to the first statement, with the call stack pointer behind
its own cell (`Session.leads_start`). Outside calls and returns it stays in the code of one
subroutine, and it writes scratch cells and the destinations of statements only
(`Session.Within.step`).
-/

namespace CogolToolchain

open Memory Machine Work Attempt

/-! ### The next spot of a run -/

namespace Machine

variable {prog : List WordInstruction} {s t t' : Spot} {n n' k : Nat} {i : WordInstruction}
  {m : Memory}
  {d : Array Word} {c v : Word}

/-- The run stands at `t` after `n` steps from `s`, and nowhere earlier. -/
structure Next (prog : List WordInstruction) (n : Nat) (s t : Spot) : Prop where
  pos : 0 < n
  leads : Leads prog n s t
  first : ∀ k u, 0 < k → k < n → ¬ Leads prog k s u

lemma Leads.unique (h : Leads prog n s t) (h' : Leads prog n s t') : t = t' := by
  have heq := (h 0).symm.trans (h' 0)
  obtain ⟨place, memory, display⟩ := t
  obtain ⟨place', memory', display'⟩ := t'
  simp only [standing, Machine.mk.injEq] at heq
  obtain ⟨hmemory, -, hplace, -, -, hdisplay⟩ := heq
  rw [hmemory, hdisplay, Nat.add_right_cancel hplace]

lemma Next.unique (h : Next prog n s t) (h' : Next prog n' s t') : n = n' ∧ t = t' := by
  have hn : n = n' := by
    rcases Nat.lt_trichotomy n n' with hlt | heq | hlt
    · exact absurd h.leads (h'.first n t h.pos hlt)
    · exact heq
    · exact absurd h'.leads (h.first n' t' h'.pos hlt)
  subst hn
  exact ⟨rfl, h.leads.unique h'.leads⟩

lemma Next.place_lt (h : Next prog n s t) : s.place < prog.length := by
  by_contra hge
  have hhalted : (standing prog s 0).isHalted = true := isHalted_standing.mpr (by omega)
  have hsteps := congrArg Machine.steps (h.leads 0)
  rw [run_of_halted hhalted] at hsteps
  have hpos := h.pos
  simp only [standing, Nat.zero_add] at hsteps
  omega

lemma Leads.next (h : Leads prog 1 s t) : Next prog 1 s t :=
  ⟨Nat.one_pos, h, fun k _ hpos hlt => by omega⟩

lemma execute_jump {opcode : Opcode} {a : WordOperand}
    (happly : opcode.apply (m.eval a) v = some v) :
    execute ⟨opcode, a, ⟨.constant, v⟩, ⟨.constant, 0⟩⟩ m d =
    (m.write 0 v, d, some (v.toNat + 1)) := by
  rw [execute_of_apply_eq_some (w := v)]
  · simp [Machine.store]
  · exact happly

lemma run_one_of_jump (steps : Nat) {w : Nat} (hi : prog[k]? = some i)
    (h : execute i (m.arrive k) d = ((m.arrive k).write 0 v, d, some w)) :
    (standing prog ⟨k, m, d⟩ steps).run 1 = { standing prog ⟨k + 1, m.write 0 v, d⟩ (steps + 1) with
      pending := some w } := by
  have hnext := getElem?_standing prog ⟨k, m, d⟩ steps
  rw [hi] at hnext
  rw [run_one hnext, step_eq hnext]
  simp only [standing, Memory.arrive, write_write] at h ⊢
  simp only [h, Option.getD_none]

lemma Leads.next_of_jump {w : Nat} {u : Spot} (hi : prog[k]? = some i)
    (h : execute i (m.arrive k) d = ((m.arrive k).write 0 v, d, some w))
    (hleads : Leads prog 2 ⟨k, m, d⟩ u) : Next prog 2 ⟨k, m, d⟩ u := by
  refine ⟨Nat.two_pos, hleads, fun e t hpos hlt hone => ?_⟩
  obtain rfl : e = 1 := by omega
  have hpending := congrArg Machine.pending (hone 0)
  rw [run_one_of_jump _ hi h] at hpending
  cases hpending

def Writes (m : Machine) (c : Word) : Prop :=
  ∃ i, m.program[m.next]? = some i ∧
    (i.opcode.apply ((m.memory.write 0 (UInt16.ofNat m.next)).eval i.lhs)
      ((m.memory.write 0 (UInt16.ofNat m.next)).eval i.rhs)).isSome ∧
    (m.memory.write 0 (UInt16.ofNat m.next)).eval i.dest = c

end Machine

lemma next_skip {r : Resolver} {prog : List WordInstruction} {k v : Nat} {l l' : Label}
    (h : r.Stands prog k [.jump (.label l 1), Instruction.nop.tagged l'])
    (hlookup : r.labels.lookup l = some v) (hlt : v + 1 < 65536) (m : Memory) (d : Array Word) :
    Next prog 2 ⟨k, m, d⟩ ⟨v + 1, m.arrive (k + 1), d⟩ := by
  obtain ⟨⟨hjump, -⟩, hslot⟩ := r.stands_cons.mp h
  obtain ⟨⟨hnop, -⟩, -⟩ := r.stands_cons.mp hslot
  have hword : r.word (.label l 1) = ⟨.constant, UInt16.ofNat (v + 1)⟩ := by
    rw [r.word_label hlookup, ← Word.ofInt_natCast, Nat.cast_succ]
  have htarget : (UInt16.ofNat (v + 1)).toNat = v + 1 := Word.toNat_ofNat_of_lt hlt
  have happly : Opcode.mlz.apply ((m.arrive k).eval (r.word (.constant (-1))))
      (UInt16.ofNat (v + 1)) = some (UInt16.ofNat (v + 1)) := rfl
  have hexecute := execute_jump (d := d) happly
  rw [htarget, ← hword] at hexecute
  refine Leads.next_of_jump hjump hexecute (Leads.of_jump hjump hnop hexecute ?_)
  rw [show (m.arrive k).write 0 (UInt16.ofNat (v + 1)) = m.write 0 (UInt16.ofNat (v + 1)) from
    write_write .., show (m.write 0 (UInt16.ofNat (v + 1))).arrive (k + 1) = m.arrive (k + 1) from
    write_write ..]
  exact execute_of_apply_eq_none d rfl

lemma Instruction.Jumps.apply_eq {l : Label} {offset : Int} {i : Instruction} (h : i.Jumps l offset)
    {x y z : Word} (happly : i.opcode.apply x y = some z) : z = y := by
  rcases h.opcode with hopcode | hopcode
  all_goals
    rw [hopcode, Opcode.apply] at happly
    split at happly
    · simp_all
    · simp_all

/-- A mild instruction does not jump and leaves the guarded cells as they are, if these are no
scratch cells and it does not write one of them, or the program counter, as the destination of its
statement. -/
lemma Instruction.Mild.executes {pool : List Nat} {dest? : Option Operand} {i : Instruction}
    (h : i.Mild pool dest?) {r : Resolver} {m : Memory} (guarded : Set Word)
    (hpool : ∀ t ∈ pool, UInt16.ofNat t ≠ 0 ∧ UInt16.ofNat t ∉ guarded)
    (hcareful : dest? = some i.dest →
      (i.opcode.apply (m.eval (r.word i.lhs)) (m.eval (r.word i.rhs))).isSome →
      m.eval (r.word i.dest) ≠ 0 ∧ m.eval (r.word i.dest) ∉ guarded) (d : Array Word) :
    ∃ m' d', execute ⟨i.opcode, r.word i.lhs, r.word i.rhs, r.word i.dest⟩ m d = (m', d', none) ∧
      ∀ c ∈ guarded, m'.read c = m.read c := by
  rcases happly : i.opcode.apply (m.eval (r.word i.lhs)) (m.eval (r.word i.rhs)) with _ | w
  · exact ⟨m, d, execute_of_apply_eq_none d happly, fun _ _ => rfl⟩
  · have hdest : m.eval (r.word i.dest) ≠ 0 ∧ m.eval (r.word i.dest) ∉ guarded := by
      cases h with
      | idle hopcode hlhs =>
        rw [hopcode, hlhs, r.word_constant, eval_constant] at happly
        simp only [Opcode.apply, Option.ite_none_right_eq_some] at happly
        exact absurd happly.1 (by decide)
      | scratch ht hdest =>
        rw [hdest, r.word_cellDest, eval_constant]
        exact hpool _ ht
      | store hdest => exact hcareful hdest (by rw [happly]; rfl)
    refine ⟨_, _, (execute_of_apply_eq_some d happly).trans (by rw [Machine.store, if_neg hdest.1]),
      fun c hc => read_write_ne _ _ ?_⟩
    rintro rfl
    exact hdest.2 hc

namespace Session

open Statement Build Call

variable {settings : Settings} {source : String} {blocks : List Code} {n : Nat}

/-! ### The start of a run -/

/-- The instruction stores a constant in a variable, one of the first cells. -/
def SetsCell (cells : Nat) (i : Instruction) : Prop :=
  ∃ (value : Int) (a : Nat), 2 ≤ a ∧ a < cells ∧ i = .copy (.constant value) (.cellDest a)

lemma SetsCell.mono {cells cells' : Nat} {i : Instruction} (h : SetsCell cells i)
    (hle : cells ≤ cells') : SetsCell cells' i := by
  obtain ⟨value, a, hlo, hlt, rfl⟩ := h
  exact ⟨value, a, hlo, by omega, rfl⟩

lemma setsCell_effect {s s' : Session} (he : Effect s s') (hs : s.Fine) {i : Instruction}
    (hi : i ∈ s'.preamble) : i ∈ s.preamble ∨ SetsCell s'.bench.globals.nextFree i := by
  cases he with
  | declare d =>
    refine (List.mem_append.mp hi).imp_right fun hi => ?_
    obtain ⟨value, a, ⟨hlo, hlt⟩, rfl⟩ := d.declarator.sets_stores d.name _ i hi
    have hfirst : 2 ≤ s.bench.globals.nextFree := (Array.getElem?_eq_some_iff.mp hs.sane.display).1
    exact ⟨value, a, (hfirst.trans d.grows.globals.cells.nextFree_le).trans hlo, hlt, rfl⟩
  | close c =>
    replace hi : i ∈ c.inner.preamble := hi
    generalize c.inner = inner, c.after = after at hi
    cases after <;> exact .inl hi
  | _ => exact .inl hi

lemma setsCell_preamble (settings : Settings) (source : String) :
    ∀ i ∈ (expanded settings source).preamble,
      SetsCell (expanded settings source).bench.globals.nextFree i :=
  (compiled_invariant (P := fun s => ∀ i ∈ s.preamble, SetsCell s.bench.globals.nextFree i)
    (fun _ hi => absurd hi List.not_mem_nil)
    (fun _ _ _ _ hg h i hi => (h i hi).mono hg.globals.cells.nextFree_le)
    (fun _ _ hs _ hg _ he h i hi => (setsCell_effect he hs hi).elim
      (fun hi => (h i hi).mono hg.globals.nextFree_le) id)
    fun s c _ hs _ h i hi => (h i hi).mono
      ((Call.compiles_compile s.scope c s.bench).grows hs.sane).2.globals.cells.nextFree_le).2

lemma exists_leads_sets {r : Resolver} {prog : List WordInstruction} {cells : Nat}
    (hcells : cells ≤ 65536) {code : Code} (hcode : ∀ i ∈ code, SetsCell cells i) {k : Nat}
    (hst : r.Stands prog k code) (m : Memory) (d : Array Word) :
    ∃ m', Leads prog code.length ⟨k, m, d⟩ ⟨k + code.length, m', d⟩ := by
  induction code generalizing k m with
  | nil => exact ⟨m, Leads.refl _ _⟩
  | cons i code ih =>
    have htail : ∀ i ∈ code, SetsCell cells i := fun i hi => hcode i (List.mem_cons_of_mem _ hi)
    obtain ⟨value, a, hlo, hlt, rfl⟩ := hcode i List.mem_cons_self
    obtain ⟨hfirst, hrest⟩ := r.stands_append.mp
      (show r.Stands prog k ([.copy (.constant value) (.cellDest a)] ++ code) from hst)
    obtain ⟨m', hleads⟩ := ih htail hrest
      ((m.arrive k).write (UInt16.ofNat a) (UInt16.ofInt value))
    refine ⟨m', ?_⟩
    have hset := Structured.leads_set hfirst (r.word_constant value) (r.word_cellDest a)
      (Word.ofNat_ne_of_lt (b := 0) (by omega) (by omega))
      (Word.ofNat_ne_of_lt (b := 1) (by omega) (by omega)) m d
    have htrans := hset.trans hleads
    rwa [Nat.add_comm 1, List.length_singleton, Nat.add_assoc, Nat.add_comm 1] at htrans

lemma preamble_declareCallStack (s : Session) : (declareCallStack.on s).2.preamble = s.preamble :=
  rfl

/-- A run comes to the first statement, with the call stack pointer behind its own cell. -/
theorem leads_start (hc : (compiled settings source).bench.Clean)
    (hfits : FitsMachine settings source) (hblocks : Blocks settings source blocks) (m : Memory)
    (d : Array Word) :
    ∃ m' d', Leads (emittedWords settings source) (place settings source blocks 0) ⟨0, m, d⟩
        ⟨place settings source blocks 0, m', d'⟩ ∧
      m'.read (callCell settings source) = UInt16.ofNat ((callCell settings source).toNat + 1) := by
  -- the code in front of the first statement
  have hplace : place settings source blocks 0 = (compiled settings source).preamble.length + 1 :=
    hblocks.place_eq rfl
  obtain ⟨labels, hlabels⟩ := hblocks.instruction (n := 0) (k := 0) (i := preloadCallStack) rfl
  have hjoined : (compiled settings source).joined =
      Code.tagLast labels ((compiled settings source).preamble ++ [preloadCallStack]) ++
        (blocks.drop 1).flatten := by
    obtain ⟨hlt, hget⟩ := List.getElem?_eq_some_iff.mp hlabels
    rw [joined, hblocks.program, ← List.drop_zero (l := blocks), List.drop_eq_getElem_cons hlt,
      hget, tagLast_concat, List.append_assoc]
    rfl
  have hst : (compiled settings source).resolver.Stands (emittedWords settings source) 0
      ((compiled settings source).preamble ++ [preloadCallStack]) :=
    (complete_compiled hc).stands_part
      (by rw [List.drop_zero, hjoined]; exact enriches_tagLast _ _ _) (by simp)
  obtain ⟨hpreamble, hpreload⟩ := (Resolver.stands_append _).mp hst
  rw [Nat.zero_add] at hpreload
  have hcall := toNat_callCell hfits
  have hsmall := (callCell settings source).toNat_lt
  have hsets : ∀ i ∈ (compiled settings source).preamble,
      SetsCell (expanded settings source).bench.globals.nextFree i := by
    rw [compiled_eq_expanded, preamble_declareCallStack]
    exact setsCell_preamble settings source
  obtain ⟨m₁, hleads⟩ := exists_leads_sets (by omega) hsets hpreamble m d
  have htwo : 2 ≤ (expanded settings source).bench.globals.nextFree :=
    (Array.getElem?_eq_some_iff.mp (fine_expanded hc).sane.display).1
  have hlast := Structured.leads_preload hpreload (address?_callStack settings source)
    htwo (by omega) m₁ d
  rw [Nat.zero_add] at hleads
  rw [hplace]
  refine ⟨_, _, hleads.trans hlast, ?_⟩
  have hcell : UInt16.ofNat (expanded settings source).bench.globals.nextFree =
      callCell settings source := by rw [callCell, address?_callStack, Option.getD_some]
  rw [hcell, read_write_self, UInt16.ofNat_add, UInt16.ofNat_toNat]
  rfl

/-! ### What statements write -/

/-- The instruction that the machine runs next writes the destination of a statement, the cell
`c`. -/
def UserWrites (settings : Settings) (source : String) (blocks : List Code)
    (m : Machine) (c : Word) : Prop :=
  m.Writes c ∧ ∃ n v i, m.next = v + 1 ∧ place settings source blocks n ≤ v ∧
    v < place settings source blocks (n + 1) ∧ (compiled settings source).joined[v]? = some i ∧
    Aims settings source blocks n i.dest

/-- Before the run stands again, a statement writes the program counter or one of the guarded
cells. -/
def Breaks (settings : Settings) (source : String) (blocks : List Code)
    (prog : List WordInstruction) (guarded : Set Word) (s : Spot) : Prop :=
  ∃ e c, (∀ k u, 0 < k → k ≤ e → ¬ Leads prog k s u) ∧
    UserWrites settings source blocks ((standing prog s 0).run e) c ∧ (c = 0 ∨ c ∈ guarded)

section

variable {prog : List WordInstruction} {guarded : Set Word} {s : Spot} {c : Word}

lemma ne_of_not_breaks (h : ¬ Breaks settings source blocks prog guarded s)
    (hwrites : UserWrites settings source blocks (standing prog s 0) c) : c ≠ 0 ∧ c ∉ guarded := by
  refine not_or.mp fun hbad => h ⟨0, c, fun k u hpos hle => ?_, hwrites, hbad⟩
  exact absurd hpos (Nat.not_lt.mpr hle)

lemma ne_of_not_breaks_slot (h : ¬ Breaks settings source blocks prog guarded s)
    (hpending : ((standing prog s 0).run 1).pending ≠ none)
    (hwrites : UserWrites settings source blocks ((standing prog s 0).run 1) c) :
    c ≠ 0 ∧ c ∉ guarded := by
  refine not_or.mp fun hbad => h ⟨1, c, fun k u hpos hle hleads => ?_, hwrites, hbad⟩
  obtain rfl : k = 1 := Nat.le_antisymm hle hpos
  exact hpending (congrArg Machine.pending (hleads 0))

end

/-! ### One instruction of a statement -/

section

variable {front rest : Code} {dest? : Option Operand} {m : Memory} {d : Array Word} {v : Nat}
  {i : Instruction} {guarded : Set Word}

lemma Calm.getElem? (h : Calm settings source blocks n front rest dest?) {j : Nat}
    (hi : rest[j]? = some i) : ∃ labels,
      (compiled settings source).joined[place settings source blocks n + front.length + j]? =
        some { i with tags := i.tags ++ labels } := by
  obtain ⟨labels, hlabels⟩ := h.emitted.enriches (front.length + j) (.instruction i) (by
    rw [List.getElem?_map, List.getElem?_append_right (Nat.le_add_right _ _),
      Nat.add_sub_cancel_left, hi, Option.map_some])
  rw [List.getElem?_map, Option.map_eq_some_iff, List.getElem?_drop] at hlabels
  obtain ⟨i', hi', heq⟩ := hlabels
  exact ⟨labels, by rw [Nat.add_assoc, hi', Item.instruction.inj heq]⟩

lemma getElem?_emittedWords {labels : List Label}
    (hi : (compiled settings source).joined[v]? = some { i with tags := i.tags ++ labels }) :
    (emittedWords settings source)[v]? =
    some ⟨i.opcode, (compiled settings source).resolver.word i.lhs,
      (compiled settings source).resolver.word i.rhs,
      (compiled settings source).resolver.word i.dest⟩ := by
  rw [emittedWords, Resolver.words, Resolver.code, List.map_map, List.getElem?_map, hi]
  rfl

lemma Calm.executes (h : Calm settings source blocks n front rest dest?) {j : Nat}
    (hi : rest[j]? = some i)
    (hmild : i.Mild (compiled settings source).bench.scratch.addresses dest?)
    (hv : v = place settings source blocks n + front.length + j)
    (hguarded : ∀ c ∈ (compiled settings source).bench.scratch.hidden, c ∉ guarded)
    (hne : ∀ t ∈ (compiled settings source).bench.scratch.addresses, UInt16.ofNat t ≠ 0)
    {u : Machine} (hprogram : u.program[v + 1]? = (emittedWords settings source)[v]?)
    (hnext : u.next = v + 1)
    (hcareful : ∀ c, UserWrites settings source blocks u c → c ≠ 0 ∧ c ∉ guarded) :
    ∃ w m' d', (emittedWords settings source)[v]? = some w ∧
      execute w (u.memory.arrive v) d = (m', d', none) ∧
      ∀ c ∈ guarded, m'.read c = u.memory.read c := by
  obtain ⟨labels, hlabels⟩ := h.getElem? hi
  rw [← hv] at hlabels
  have hword := getElem?_emittedWords hlabels
  obtain ⟨m', d', hexecute, hsame⟩ := hmild.executes (r := (compiled settings source).resolver)
    (m := u.memory.arrive v) guarded
    (fun t ht => ⟨hne t ht, hguarded _ (.inr ⟨t, ht, rfl⟩)⟩)
    (fun hdest happly => by
      refine hcareful _ ⟨⟨_, by rw [hnext, hprogram, hword], by rw [hnext]; exact happly,
        by rw [hnext]; rfl⟩, n, v, _, hnext, by omega, ?_, hlabels, h.aims _ hdest⟩
      · have hlength := (List.getElem?_eq_some_iff.mp hi).1
        have hplace := h.emitted.place_succ
        rw [List.length_append] at hplace
        omega) d
  refine ⟨_, m', d', hword, hexecute, fun c hc => ?_⟩
  rw [hsame c hc, Memory.arrive, read_write_ne]
  rintro rfl
  exact hguarded 0 (.inl rfl) hc

lemma Calm.within_succ (h : Calm settings source blocks n front rest dest?)
    (hlo : place settings source blocks n + front.length ≤ v)
    (hhi : v < place settings source blocks (n + 1)) :
    Within settings source blocks (around settings source n) (v + 1) := by
  rcases Nat.lt_or_ge (v + 1) (place settings source blocks (n + 1)) with hlt | hge
  · exact .inside h (by omega) hlt rfl
  · exact .start (by omega) h.around_succ

end

section

variable (hc : (compiled settings source).bench.Clean) (hfits : FitsMachine settings source)
  (hblocks : Blocks settings source blocks) {front rest : Code} {dest? : Option Operand}
  {m : Memory}
  {d : Array Word} {v : Nat} {guarded : Set Word}
include hc hfits hblocks

lemma Within.place_lt {names : List String} (h : Within settings source blocks names v) :
    v < 65536 := by
  have hlength := hfits.length
  rcases h.located hblocks hc with ⟨rfl, -⟩ | ⟨n, -, hlt, -⟩
  · exact hlength
  · have := hblocks.place_le_length (n + 1)
    omega

/-- One instruction of a statement, with the delay slot of a jump: control stays in the subroutine,
and the guarded cells keep their values. -/
lemma Calm.step (h : Calm settings source blocks n front rest dest?)
    (hlo : place settings source blocks n + front.length ≤ v)
    (hhi : v < place settings source blocks (n + 1))
    (hguarded : ∀ c ∈ (compiled settings source).bench.scratch.hidden, c ∉ guarded)
    (hcareful : ¬ Breaks settings source blocks (emittedWords settings source) guarded ⟨v, m, d⟩) :
    ∃ k t, Next (emittedWords settings source) k ⟨v, m, d⟩ t ∧
      Within settings source blocks (around settings source n) t.place ∧
      ∀ c ∈ guarded, t.memory.read c = m.read c := by
  have hfit := fits_compiled hc hfits
  have hne : ∀ t ∈ (compiled settings source).bench.scratch.addresses, UInt16.ofNat t ≠ 0 :=
    fun t ht => hfit.ne_zero ht
  have hkeep : ∀ {w : Word} {c : Word}, c ∈ guarded → (m.write 0 w).read c = m.read c := by
    intro w c hmem
    rw [read_write_ne]
    rintro rfl
    exact hguarded 0 (.inl rfl) hmem
  have hplace := h.emitted.place_succ
  rw [List.length_append] at hplace
  obtain ⟨j, rfl⟩ := Nat.exists_eq_add_of_le hlo
  have hj : j < rest.length := by omega
  have hi := List.getElem?_eq_getElem hj
  rcases h.tame j _ hi with hmild | ⟨l, offset, slot, hgoes, hjumps, hslot, hmild⟩
  · obtain ⟨w, m', d', hword, hexecute, hsame⟩ := h.executes hi hmild rfl hguarded hne
      (u := standing (emittedWords settings source) ⟨_, m, d⟩ 0) (d := d)
      (getElem?_standing _ _ _) rfl fun c => ne_of_not_breaks hcareful
    exact ⟨1, ⟨_, m', d'⟩, (Leads.of_execute hword hexecute).next, h.within_succ hlo hhi, hsame⟩
  · obtain ⟨labels, hlabels⟩ := h.getElem? hi
    have hword := getElem?_emittedWords hlabels
    obtain ⟨v', w, hlookup, hsum, hwithin⟩ := h.lands hc hblocks hgoes
    have htarget : (UInt16.ofNat v').toNat = v' :=
      Word.toNat_ofNat_of_lt (hwithin.place_lt hc hfits hblocks)
    rw [hjumps.rhs, hjumps.dest, Resolver.word_label _ hlookup, hsum, Word.ofInt_natCast,
      Resolver.word_programCounter] at hword
    generalize hk : place settings source blocks n + front.length + j = k at *
    generalize rest[j] = i at *
    generalize (compiled settings source).resolver.word i.lhs = a at *
    rcases happly : i.opcode.apply ((m.arrive k).eval a) (UInt16.ofNat v') with _ | y
    · -- the jump is not taken
      refine ⟨1, ⟨k + 1, m.arrive k, d⟩, (Leads.of_execute hword ?_).next, h.within_succ hlo hhi,
        fun c hmem => hkeep hmem⟩
      rw [execute_of_apply_eq_none]
      exact happly
    · obtain rfl := hjumps.apply_eq happly
      have hjump := execute_jump (d := d) happly
      rw [htarget] at hjump
      have hrun := run_one_of_jump 0 hword hjump
      obtain ⟨w', m', d', hword', hexecute, hsame⟩ :=
        h.executes hslot hmild (v := k + 1) (by omega) hguarded
          hne (u := (standing (emittedWords settings source) ⟨k, m, d⟩ 0).run 1) (d := d)
        (by rw [hrun]; exact getElem?_standing (emittedWords settings source) ⟨k + 1, m, d⟩ 0)
        (by rw [hrun]; rfl) fun c => ne_of_not_breaks_slot hcareful
          (by rw [hrun]; exact Option.some_ne_none _)
      rw [hrun] at hexecute hsame
      refine ⟨2, ⟨v', m', d'⟩, Leads.next_of_jump hword hjump (Leads.of_jump hword hword' hjump ?_),
        hwithin, fun c hmem => (hsame c hmem).trans (hkeep hmem)⟩
      rw [show (m.arrive k).write 0 (UInt16.ofNat v') =
        m.write 0 (UInt16.ofNat v') from write_write ..]
      exact hexecute

/-- Outside calls and returns, a run goes on in the same subroutine, and the guarded cells keep
their values. -/
theorem Within.step {names : List String} (h : Within settings source blocks names v)
    (hlt : v < (compiled settings source).joined.length)
    (hcall : ∀ n, v = place settings source blocks n → IsEmpty (Laid settings source blocks n))
    (hends : ∀ n name, v = place settings source blocks n → ¬ Ends settings source blocks n name)
    (hguarded : ∀ c ∈ (compiled settings source).bench.scratch.hidden, c ∉ guarded)
    (hcareful : ¬ Breaks settings source blocks (emittedWords settings source) guarded ⟨v, m, d⟩) :
    ∃ k t, Next (emittedWords settings source) k ⟨v, m, d⟩ t ∧
      Within settings source blocks names t.place ∧ ∀ c ∈ guarded, t.memory.read c = m.read c := by
  rcases h.located hblocks hc with ⟨hend, -⟩ | ⟨n, hle, hhi, rfl,
    rfl | ⟨front, rest, dest?, hcalm, hlo⟩⟩
  · exact absurd hlt (by rw [hend]; exact Nat.lt_irrefl _)
  · cases hblocks.shape hc n with
    | call hnext =>
      obtain ⟨x⟩ := exists_laid hblocks hc hnext
      exact ((hcall n rfl).false x).elim
    | calm hcalm => exact hcalm.step hc hfits hblocks (by simp) hhi hguarded hcareful
    | @skip block name w hemitted hlookup hwithin haround =>
      refine ⟨2, _, next_skip (hemitted.stands hc (List.cons_ne_nil _ _)) hlookup
        (hwithin.place_lt hc hfits hblocks) m d, hwithin, fun c hmem => read_write_ne _ _ ?_⟩
      rintro rfl
      exact hguarded 0 (.inl rfl) hmem
    | ends h => exact absurd h (hends n _ rfl)
  · exact hcalm.step hc hfits hblocks hlo hhi hguarded hcareful

end

end Session

end CogolToolchain
