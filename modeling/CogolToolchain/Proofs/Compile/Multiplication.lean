import CogolToolchain.Proofs.Compile.Addressing
import CogolToolchain.Proofs.Compile.Assignment

/-!
Products are stored.

The code of a product, placed anywhere in a program, always ends and goes on behind itself. The
product of the two words is then in the cell of the destination, and besides that cell only the
program counter and the two scratch cells of the loop have changed
(`Assignment.products_are_stored`).
-/

namespace CogolToolchain

open Memory Machine Work Attempt ScratchPool

namespace Assignment

/-- The operands of a product are as references leave them: their values are known, the scratch
cells that hold them are in use, no cell holds both factors, and the destination can be read. -/
structure Factors (b : Workbench) (lhs rhs dest : Backed) : Prop where
  sane : b.Sane
  ready_lhs : lhs.Ready b.scratch
  ready_rhs : rhs.Ready b.scratch
  ready_dest : dest.Ready b.scratch
  mode : dest.mode ≠ .doubleDeref
  apart : ∀ t ∈ lhs.cells, t ∉ rhs.cells

/-- In the memory `m` a product can be stored: the operands read neither the program counter nor
scratch cells of others, and the cell of the destination is none of these, nor is it read to find
the destination. A factor may be what the destination holds, and read the cells of the
destination. -/
structure Clear (p : ScratchPool) (lhs rhs dest : Backed) (m : Memory) : Prop where
  clear_lhs : lhs.IsClear (lhs.cells ++ dest.cells) p m
  clear_rhs : rhs.IsClear (rhs.cells ++ dest.cells) p m
  clear_dest : dest.IsClear dest.cells p m
  visible : m.eval dest.word ∉ p.hidden
  apart : m.eval dest.word ∉ m.path dest.word

/-- What is promised of the code of a product that is lowered on the workbench `b`. -/
def Stores (b : Workbench) (lhs rhs dest : Backed) : Prop :=
  let code := ((multiply lhs rhs dest).on b).1
  let p := ((multiply lhs rhs dest).on b).2.scratch
  ∃ counter ∈ p.addresses, ∃ addend ∈ p.addresses,
    ∀ (r : Resolver) (prog : List WordInstruction) (k : Nat) (m : Memory) (d : Array Word),
      r.Stands prog k code → k + code.length ≤ 65536 → Clear p lhs rhs dest m →
      ∃ steps m' d', Leads prog steps ⟨k, m, d⟩ ⟨k + code.length, m', d'⟩ ∧
        m'.read (m.eval dest.word) = m.eval lhs.word * m.eval rhs.word ∧
        (∀ c, c ≠ 0 → c ≠ m.eval dest.word → c ≠ UInt16.ofNat counter → c ≠ UInt16.ofNat addend →
          m'.read c = m.read c) ∧
        (m.eval dest.word ≠ 1 → d' = d)

section

variable {b : Workbench} {lhs rhs dest : Backed}

lemma Clear.shows_dest {p : ScratchPool} {m : Memory} {counter addend : Nat}
    (h : Clear p lhs rhs dest m) (hc : counter ∈ p.addresses) (ha : addend ∈ p.addresses)
    (hcd : counter ∉ dest.cells) (had : addend ∉ dest.cells) :
    m.Shows {0, UInt16.ofNat counter, UInt16.ofNat addend, m.eval dest.word} [] dest.word
      (m.eval dest.word) := by
  refine ⟨rfl, fun x hx => .inr ?_⟩
  obtain ⟨hzero, hscratch⟩ := h.clear_dest x hx
  rintro (rfl | rfl | rfl | rfl)
  · exact hzero rfl
  · exact hcd (hscratch counter hc rfl)
  · exact had (hscratch addend ha rfl)
  · exact h.apart hx

lemma Clear.site {p : ScratchPool} {m : Memory} {counter addend : Nat} (h : Clear p lhs rhs dest m)
    (hf : p.Fits p.hidden) (hc : counter ∈ p.addresses) (ha : addend ∈ p.addresses)
    (hne : counter ≠ addend) :
    Product.Site {0, UInt16.ofNat counter, UInt16.ofNat addend, m.eval dest.word} []
      (UInt16.ofNat counter) (UInt16.ofNat addend) (m.eval dest.word) where
  zero_mem := by simp
  p_mem := by simp
  q_mem := by simp
  c_mem := by simp
  zero_own := by simp
  p_own := by simp
  q_own := by simp
  c_own := by simp
  p_ne_zero := hf.ne_zero hc
  p_ne_one := hf.ne_one hc
  q_ne_zero := hf.ne_zero ha
  q_ne_one := hf.ne_one ha
  c_ne_zero := fun h0 => h.visible (h0 ▸ hf.zero)
  p_ne_q := fun heq => hne (hf.ofNat_inj hc ha heq)
  p_ne_c := fun heq => h.visible (heq ▸ hf.scratch counter hc)
  q_ne_c := fun heq => h.visible (heq ▸ hf.scratch addend ha)

/-- The product of two words is stored in the cell of the destination by code that always ends and
goes on behind itself, and that changes no other cell except the program counter and the two scratch
cells of its loop. The scratch cells there are have to be cells of the machine. -/
theorem products_are_stored (h : Factors b lhs rhs dest)
    (hsmall : ∀ t ∈ ((multiply lhs rhs dest).on b).2.scratch.addresses, t < 65536) :
    Stores b lhs rhs dest := by
  unfold Stores
  rcases hon : (multiply lhs rhs dest).on b with ⟨code, b'⟩
  rw [hon] at hsmall
  have hmult := multiplies_of_multiply h.sane h.ready_lhs h.ready_rhs h.ready_dest h.apart hon
  obtain ⟨counter, addend, id, hcode, -, hcm, ham, hcd, had, hcr, hne⟩ := hmult.layout
  have hf := hmult.sane.fits_hidden hsmall
  refine ⟨counter, hcm, addend, ham, fun r prog k m d hst hk hclear => ?_⟩
  dsimp only at hst hk hclear ⊢
  rw [hcode] at hst hk ⊢
  have hlabel := hst.labels 9 _ rfl (.multiplyEnd id) (by simp)
  have hsits := hst.sits
  rw [words_productCode hlabel] at hsits
  have hcells : ∀ {a : Backed}, a.Ready b.scratch → ∀ t ∈ a.cells ++ dest.cells, t ∈
      b'.scratch.addresses :=
    fun ha t ht => hmult.grows.scratch.subset ((List.mem_append.mp ht).elim
      (fun ht => (ha.busy t ht).mem_addresses) fun ht => (h.ready_dest.busy t ht).mem_addresses)
  obtain ⟨n, hn⟩ := h.ready_lhs.known
  obtain ⟨n', hn'⟩ := h.ready_rhs.known
  obtain ⟨n'', hn''⟩ := h.ready_dest.known
  rw [r.word_of_known hn, r.word_of_known hn', r.word_of_known hn''] at hsits
  obtain ⟨steps, m', d', hleads, hd', hframe, hread⟩ := Product.leads_product hsits
    (by simp only [productCode, List.length_cons, List.length_nil] at hk; omega)
    (hclear.site hf hcm ham hne) h.mode hf.zero (hf.scratch counter hcm) hclear.clear_lhs.shows
    (hf.zero_notMem_map (hcells h.ready_lhs)) hclear.clear_rhs.shows
    (hf.zero_notMem_map (hcells h.ready_rhs))
    (hf.notMem_map (hcells h.ready_rhs) hcm (by simp [hcr, hcd]))
    (hclear.shows_dest hcm ham hcd had) (EqOff.refl _ m) d
  refine ⟨steps, m', d', hleads, hread, fun c h0 hc hp hq => hframe c ?_, hd'⟩
  rintro (rfl | rfl | rfl | rfl)
  · exact h0 rfl
  · exact hp rfl
  · exact hq rfl
  · exact hc rfl

end

section

variable {b : Workbench} {lhs rhs dest : Backed}

/-- From place 65530 on, the jump into the loop of a product does not fit in a word, and the code of
the product never goes on behind itself. -/
theorem products_out_of_reach (h : Factors b lhs rhs dest) {r : Resolver}
    {prog : List WordInstruction} {k : Nat} (hst : r.Stands prog k ((multiply lhs rhs dest).on b).1)
    (hk : 65530 ≤ k) (steps : Nat) (m m' : Memory) (d d' : Array Word) :
    ¬ Leads prog steps ⟨k, m, d⟩ ⟨k + ((multiply lhs rhs dest).on b).1.length, m', d'⟩ := by
  rcases hon : (multiply lhs rhs dest).on b with ⟨code, b'⟩
  rw [hon] at hst
  have hmult := multiplies_of_multiply h.sane h.ready_lhs h.ready_rhs h.ready_dest h.apart hon
  obtain ⟨counter, addend, id, rfl, -⟩ := hmult.layout
  have hsits := hst.sits
  rw [words_productCode (hst.labels 9 _ rfl (.multiplyEnd id) (by simp))] at hsits
  simp only [productWords, sits_cons] at hsits
  obtain ⟨-, -, -, -, -, hjump, -⟩ := hsits
  refine not_leads_behind (k := k + 5) (by omega) hjump (Nat.le_add_right _ _) ?_
  simp only [productCode, List.length_cons, List.length_nil]
  omega

lemma Factors.of_lowers {p p₁ p₂ : ScratchPool} {address before code : Code} (hb : b.Sane)
    (hdest : Lowers p dest address p₁) (hmode : dest.mode ≠ .doubleDeref)
    (hlhs : Lowers p₁ lhs before p₂) (hrhs : Lowers p₂ rhs code b.scratch) :
    Factors b lhs rhs dest :=
  ⟨hb, hlhs.ready.lowers hrhs, hrhs.ready, (hdest.ready.lowers hlhs).lowers hrhs, hmode,
    hrhs.disjoint hlhs.ready⟩

lemma lowers_read {p p₁ : ScratchPool} {address : Code} (h : Lowers p dest address p₁) :
    Lowers p₁ (.ofOperand dest.read.toOperand) [] p₁ :=
  ⟨fun i hi => absurd hi List.not_mem_nil, fun t => by simp [Backed.ofOperand],
    fun t ht => absurd ht List.not_mem_nil, h.known⟩

lemma mode_destination {scope : Scope} {b₀ b₁ : Workbench} {address : Code}
    (h : Yields (reference scope .destination) b₀ (dest, address) b₁) :
    dest.mode ≠ .doubleDeref := by
  obtain ⟨ref, hread⟩ := exists_read h
  obtain ⟨-, ts, hlower⟩ := lower_of_read hread h
  exact Reference.mode_of_lower hlower

lemma factors_inPlace {scope : Scope} {b₀ b₁ b₂ : Workbench} {address code : Code} (hb : b₀.Sane)
    (hdest : Yields (reference scope .destination) b₀ (dest, address) b₁) (hb₂ : b₂.Sane)
    (hsame : b₂.scratch = b₁.scratch) (hrhs : Yields (reference scope .source) b₂ (rhs, code) b)
    (hsmall : ∀ t ∈ b.scratch.addresses, t < 65536) :
    Factors b (.ofOperand dest.read.toOperand) rhs dest := by
  have hgrows := (careful_reference scope .source).grows hb₂ hrhs
  have hlowers := lowers_reference hb hdest fun t ht =>
    hsmall t (hgrows.2.scratch.subset (hsame ▸ ht))
  exact .of_lowers hgrows.1 hlowers (mode_destination hdest) (lowers_read hlowers)
    (hsame ▸ lowers_reference hb₂ hrhs hsmall)

lemma stands_productCode {r : Resolver} {k counter addend : Nat} {done : Label}
    (h : r.labels.lookup done = some (k + 9)) {prog : List WordInstruction}
    (hsits : Sits prog k (r.words (productCode lhs rhs dest counter addend done))) :
    r.Stands prog k (productCode lhs rhs dest counter addend done) := by
  have htags : ∀ i ∈ (productCode lhs rhs dest counter addend done).take 9, i.tags = [] := by
    simp [productCode, Instruction.copy, Instruction.jump]
  refine ⟨hsits, fun j i hi l hl => ?_⟩
  rcases Nat.lt_or_ge j 9 with hj | hj
  · rw [← List.getElem?_take_of_lt hj] at hi
    simp [htags i (List.mem_of_getElem? hi)] at hl
  · have hlt : j < 10 := (List.getElem?_eq_some_iff.mp hi).1
    obtain rfl : j = 9 := by omega
    obtain rfl := Option.some.inj hi
    obtain rfl := List.mem_singleton.mp hl
    exact h

end

namespace InPlace

def start : Workbench := (Statement.rested (Session.after {} "my a[3]; my i; a[i] *= i;" 2)).bench

def middle : Workbench := (Work.pop.on ((reference {} .destination).on start).2).2

def bench : Workbench := ((reference {} .source).on middle).2

def dest : Backed := (Backed.through 2).withMode .address

def lhs : Backed := .ofOperand dest.read.toOperand

def rhs : Backed := .cell 7

lemma factors : Factors bench lhs rhs dest := by
  have hdest : (((reference {} .destination).on start).1.map Prod.fst) = some dest := by
    decide +kernel
  have hrhs : (((reference {} .source).on middle).1.map Prod.fst) = some rhs := by decide +kernel
  obtain ⟨⟨_, address⟩, hyields, rfl⟩ := Option.map_eq_some_iff.mp hdest
  obtain ⟨⟨_, code⟩, hyields', rfl⟩ := Option.map_eq_some_iff.mp hrhs
  have hsane : start.Sane := (Statement.fine_rested Session.fine_after).sane
  have hsane₁ := ((careful_reference {} .destination).grows hsane (yields_of_on hyields)).1
  have hpop : ∀ b : Workbench, (Work.pop.on b).2.scratch = b.scratch := fun b => by rw [on_pop]
  exact factors_inPlace hsane (yields_of_on hyields) ((advances_pop _).keeps hsane₁).1 (hpop _)
    (yields_of_on hyields') (by decide +kernel)

/-- The scratch cell points to `a[1]`, which holds the lowest word, and `i` is 3. -/
def memory : Memory := ((Memory.zero.write 2 5).write 5 32768).write 7 3

lemma clear : Clear ((multiply lhs rhs dest).on bench).2.scratch lhs rhs dest memory := by
  have hcell : memory.eval dest.word = 5 := by decide +kernel
  have hpool : ((multiply lhs rhs dest).on bench).2.scratch.addresses = [2, 8, 9] := by
    decide +kernel
  refine ⟨by decide +kernel, by decide +kernel, by decide +kernel, ?_, by decide +kernel⟩
  rw [hcell, ScratchPool.hidden, hpool]
  simp

end InPlace

/-- The lowest word times three is the lowest word again. -/
theorem products_are_stored_inPlace :
    Factors InPlace.bench InPlace.lhs InPlace.rhs InPlace.dest ∧
    Clear ((multiply InPlace.lhs InPlace.rhs InPlace.dest).on InPlace.bench).2.scratch InPlace.lhs
      InPlace.rhs InPlace.dest InPlace.memory ∧
    ∃ prog steps m' d', Leads prog steps ⟨0, InPlace.memory, #[]⟩ ⟨10, m', d'⟩ ∧ prog.length = 10 ∧
      m'.read 5 = 32768 := by
  obtain ⟨counter, -, addend, -, hall⟩ := products_are_stored InPlace.factors (by decide +kernel)
  have hcode : ((multiply InPlace.lhs InPlace.rhs InPlace.dest).on InPlace.bench).1 =
      productCode InPlace.lhs InPlace.rhs InPlace.dest 8 9 (.multiplyEnd InPlace.bench.nextId) := by
    decide +kernel
  rw [hcode] at hall
  let r : Resolver := ⟨{}, {}, [(.multiplyEnd InPlace.bench.nextId, 9)]⟩
  have hlabel : r.labels.lookup (.multiplyEnd InPlace.bench.nextId) = some (0 + 9) := by
    simp [r]
  obtain ⟨steps, m', d', hleads, hread, -⟩ := hall r _ 0 InPlace.memory #[]
    (stands_productCode hlabel (List.prefix_refl _)) (by decide) InPlace.clear
  have hcell : InPlace.memory.eval InPlace.dest.word = 5 := by decide +kernel
  have hproduct : InPlace.memory.eval InPlace.lhs.word * InPlace.memory.eval InPlace.rhs.word =
      32768 := by
    decide +kernel
  rw [hcell, hproduct] at hread
  exact ⟨InPlace.factors, InPlace.clear, _, steps, m', d', hleads, r.length_words _, hread⟩

end Assignment

/-! ### A loop without its cells -/

lemma Machine.not_leads_of_halted {prog : List WordInstruction} {s t : Spot} {n : Nat}
    (hhalt : ((standing prog s 0).run n).isHalted)
    (hnext : ∀ j ≤ n, ((standing prog s 0).run j).next ≠ t.place + 1) (steps : Nat) :
    ¬ Leads prog steps s t := by
  intro h
  have hrun := congrArg Machine.next (h 0)
  rcases Nat.le_total steps n with hle | hge
  · exact hnext steps hle hrun
  · rw [run_eq_of_le hhalt hge] at hrun
    exact hnext n le_rfl hrun

namespace Session

/-- A product in a program whose variables take all cells of the machine. -/
def crowdedProduct : String := "my p[65533]; p[0] *= 3;"

def firstElement : Backed := .ofOperand ⟨.constant, .known 3⟩

lemma Crowded.yields_first {b : Workbench} {ts : List Token}
    (h : Crowded 65536 ("p" :: "[" :: "0" :: "]" :: ts) b) :
    Yields (reference {} .destination) b (firstElement, []) { b with tokens := ts } := by
  have htype : ({} : Scope).type b.globals .global "p" = .array := by
    simp [Scope.type, Scope.table, h.arrayType]
  have hoffset : ({} : Scope).offset b.globals .global "p" = 2 := by
    simp [Scope.offset, Scope.table, h.array]
  have hhome : ({} : Scope).home? b.globals "p" = some .global := by
    simp [Scope.home?, Scope.owner?, SymbolTable.contains, h.array]
  have hname : isReserved "p" = false ∧ Numeral.signed? "p" = none := by decide +kernel
  have hzero : isReserved "0" = false ∧ Numeral.signed? "0" = some 0 := by decide +kernel
  have hread : Reference.read (({} : Scope).home? b.globals) 0 b.tokens =
      (.ok (.element ⟨0, "p", .global⟩ (.numeral 0 "0" 0)), "]" :: ts) := by
    rw [h.tokens]
    simp [Reference.read, hname, hzero, hhome, Except.map]
  have helement : ∀ ts', (Reference.lowerElement {} ⟨0, "p", .global⟩ (.constant 0)).on
      { b with tokens := ts' } = ((Backed.cell 3, []), { b with tokens := ts' }) := by
    intro ts'
    simp only [Reference.lowerElement, Reference.headType, Reference.headOffset,
      Work.on_bind, Work.on_get, Work.on_pure, htype, hoffset]
    rfl
  simp only [reference, yields_bind, yields_get, yields_set]
  refine ⟨b, b, ⟨rfl, rfl⟩, (), { b with tokens := "]" :: ts }, by rw [hread], ?_⟩
  rw [hread]
  show Yields (Reference.lower {} .destination (.element ⟨0, "p", .global⟩ (.numeral 0 "0" 0))) _
    _ _
  rw [Reference.lower]
  simp only [yields_bind, yields_lift]
  exact ⟨_, _, rfl, _, _, helement _, (), _, rfl, (), _, rfl, _, _, rfl, rfl⟩

lemma Crowded.multiply {b : Workbench} {ts : List Token} {lhs rhs : Backed} (h : Crowded 65536 ts b)
    (hl : lhs.cells = []) (hr : rhs.cells = []) (dest : Backed) :
    ((Assignment.multiply lhs rhs dest).on b).1 =
      Assignment.productCode lhs rhs dest 65536 65537 (.multiplyEnd b.nextId) ∧
    ((Assignment.multiply lhs rhs dest).on b).2.scratch.addresses = [65536, 65537] := by
  have hfull : ∀ {b' : Workbench}, b'.scratch.acquire? = none → allocScratch.on b' =
      (b'.globals.nextFree, { b' with
        globals := b'.globals.declareWord b'.scratch.nextName
        scratch := b'.scratch.add b'.globals.nextFree true }) := by
    intro b' hb'
    simp [allocScratch, hb']
  obtain ⟨b₁, hb₁, hscratch, hnext⟩ : ∃ b₁ : Workbench,
      allocScratch.on { b with nextId := b.nextId + 1 } = (65536, b₁) ∧
      b₁.scratch = ScratchPool.add ⟨[]⟩ 65536 true ∧ b₁.globals.nextFree = 65537 := by
    rw [hfull (by rw [h.scratch]; rfl)]
    refine ⟨_, Prod.ext h.nextFree rfl, ?_, ?_⟩
    · simp only [h.scratch, h.nextFree]
    · rw [SymbolTable.nextFree_declareWord, h.nextFree]
  have hb₂ : allocScratch.on b₁ = (65537, { b₁ with
      globals := b₁.globals.declareWord b₁.scratch.nextName
      scratch := b₁.scratch.add 65537 true }) := by
    rw [hfull (by rw [hscratch]; rfl), hnext]
  simp only [Assignment.multiply, reuseScratchExcept, hl, hr, Work.on_bind, Work.on_pure, on_takeId,
    hb₁, hb₂, hscratch]
  exact ⟨rfl, rfl⟩

def firstValue : Backed := .ofOperand firstElement.read.toOperand

def crowdedMemory : Memory := Memory.zero.write 3 1

/-- The product with its cells taken for the program counter and the display. -/
def crowdedWords : List WordInstruction :=
  productWords ⟨.address, 3⟩ ⟨.constant, 3⟩ ⟨.constant, 3⟩ 0 1 9

lemma not_leads_crowdedWords (steps : Nat) (m : Memory) (d : Array Word) :
    ¬ Leads crowdedWords steps ⟨0, crowdedMemory, #[]⟩ ⟨10, m, d⟩ := by
  have hhalt : ((standing crowdedWords ⟨0, crowdedMemory, #[]⟩ 0).run 2).isHalted = true := by
    decide +kernel
  have hnext : ∀ j ≤ 2, ((standing crowdedWords ⟨0, crowdedMemory, #[]⟩ 0).run j).next ≠ 11 := by
    decide +kernel
  exact not_leads_of_halted hhalt hnext steps

lemma clear_crowdedMemory {p : ScratchPool} (h : p.addresses = [65536, 65537]) :
    Assignment.Clear p firstValue (.constant 3) firstElement crowdedMemory := by
  have hcell : crowdedMemory.eval firstElement.word = 3 := by decide +kernel
  refine ⟨?_, ?_, ?_, ?_, by decide +kernel⟩
  · rw [Backed.IsClear, h]
    exact List.all_iff_forall_prop.mp (by decide +kernel)
  · rw [Backed.IsClear, h]
    exact List.all_iff_forall_prop.mp (by decide +kernel)
  · rw [Backed.IsClear, h]
    exact List.all_iff_forall_prop.mp (by decide +kernel)
  · rw [hcell, ScratchPool.hidden, h]
    simp

/-- If the variables take all cells of the machine, the code of a product can jump out of itself. -/
theorem product_without_place : ∃ b₀ b₁ b, Reached bare crowdedProduct b₀ ∧
    Yields (reference {} .destination) b₀ (firstElement, []) b₁ ∧
    Yields (reference {} .source) (Work.pop.on b₁).2 (.constant 3, []) b ∧
    Assignment.Factors b firstValue (.constant 3) firstElement ∧
    ¬ Assignment.Stores b firstValue (.constant 3) firstElement := by
  have hb : Crowded 65536 ("p" :: "[" :: "0" :: "]" :: ["*=", "3", ";"])
      (Statement.rested (after bare crowdedProduct 1)).bench :=
    crowded_after (show Numeral.size? "65533" = some 65533 by decide +kernel) (by decide +kernel)
  have hreached : Reached bare crowdedProduct _ := .statement 1
  generalize (Statement.rested (after bare crowdedProduct 1)).bench = b₀ at hb hreached
  have hb' := hb.goOn [";"]
  have hknown : ∀ a : Backed, (∃ n, a.value = .known n) → a.cells = [] → a.Ready b₀.scratch :=
    fun a hvalue hcells => ⟨hvalue, fun t ht => by simp [hcells] at ht⟩
  refine ⟨b₀, _, { b₀ with tokens := [";"] }, hreached, hb.yields_first,
    yields_numeral {} rfl (by decide) (by decide +kernel),
    ⟨hreached.sane.congr rfl rfl, hknown _ ⟨_, rfl⟩ rfl, hknown _ ⟨_, rfl⟩ rfl,
    hknown _ ⟨_, rfl⟩ rfl,
      by decide, fun t ht => absurd ht List.not_mem_nil⟩, fun hstores => ?_⟩
  have hlhs : firstValue.cells = [] := rfl
  have hrhs : (Backed.constant 3).cells = [] := rfl
  obtain ⟨hcode, hpool⟩ := hb'.multiply hlhs hrhs firstElement
  rw [Assignment.Stores, hcode] at hstores
  obtain ⟨counter, -, addend, -, hall⟩ := hstores
  let r : Resolver := ⟨{}, {}, [(.multiplyEnd b₀.nextId, 9)]⟩
  have hlabel : r.labels.lookup (.multiplyEnd b₀.nextId) = some (0 + 9) := by simp [r]
  have hwords : r.words (Assignment.productCode firstValue (.constant 3) firstElement 65536 65537
      (.multiplyEnd b₀.nextId)) = crowdedWords := Assignment.words_productCode hlabel
  obtain ⟨steps, m', d', hleads, -⟩ := hall r crowdedWords 0 crowdedMemory #[]
    (Assignment.stands_productCode hlabel (hwords ▸ List.prefix_refl _)) (show 10 ≤ 65536 by decide)
    (clear_crowdedMemory hpool)
  exact not_leads_crowdedWords steps m' d' hleads

end Session
end CogolToolchain
