import CogolToolchain.Proofs.Compile.Range
import CogolToolchain.Proofs.Grammar.Acceptance

/-!
The numbers of a program that compiles without a report.

Loading a program cuts every number in it to a word. In a program of which nothing is reported,
every number is in range already, unless it is one of those that no check looks at
(`Session.operands_fit_or_are_overlooked`): indices, offsets in frames, comparisons of conditional
moves, bounds that are moved by one, destinations of calls, and initial values. The last is enough
to have a number cut without a report.
-/

namespace CogolToolchain

open Work Attempt Workbench
open Operand (passes_of_inRange inRange_number passes_number passes_cell passes_named passes_slot
  passes_label passes_minusOne passes_zero passes_one)

/-! ### Blocks -/

section Blocks

variable {scope : Scope} {b₀ b b' : Workbench} {left : List Token} {code : Code}

lemma Workbench.Amid.of_advances {n : Bool} (hb : b.Sane) (h : b.Advances n b')
    (hleft : left <:+ b'.tokens) (hsilent : b'.diagnostics = [])
    (hfits : b'.globals.nextFree < 65536) : Amid b left b ∧ Amid b left b' := by
  obtain ⟨hs, hg⟩ := h.keeps hb
  have hsilent₀ : b.diagnostics = [] := List.prefix_nil.mp (hsilent ▸ hg.diagnostics)
  exact ⟨⟨hb, .refl _, List.suffix_refl _, hleft.trans h.consumed.tokens, hsilent₀,
    hg.globals.cells.nextFree_le.trans_lt hfits⟩, hs, hg, h.consumed.tokens, hleft, hsilent, hfits⟩

lemma Workbench.Amid.each_doCondition {c : Condition} (h : Amid b₀ left b) (h' : Amid b₀ left b')
    (hfirst : Tokens.peek b₀.tokens ≠ "call")
    (hy : Yields (Statement.doCondition scope) b (c, code) b') :
    c.a.Comparable (Overlooks scope b₀ left) ∧ c.b.Comparable (Overlooks scope b₀ left) ∧
      Code.Each (b₀.Lets scope left) code := by
  simp only [Statement.doCondition, yields_bind, yields_lift] at hy
  obtain ⟨eaten, b₁, heat, hy⟩ := hy
  split at hy
  · simp only [yields_bind] at hy
    obtain ⟨_, b₂, hread, _, b₃, hend, hpure⟩ := hy
    obtain ⟨rfl, rfl⟩ := yields_pure.mp hpure
    have hadvance₁ := (advances_eat "while").of_on heat
    have hadvance₂ := (Condition.careful_read scope).of_yields hread
    have h₂ := h.between h' (hadvance₁.trans hadvance₂) ((careful_expect ";").of_yields hend)
    exact (h.between h₂ hadvance₁ hadvance₂).each_read h₂ hfirst hread
  · simp [yields_bind] at hy

variable {E : Operand → Prop} {branch : Branch} {test : Code} {target : Operand}

lemma Statement.each_branchTo (h : Code.Passes E (branch.jump? target).toList) :
    Code.Passes E (branchTo branch target) := by
  unfold branchTo
  split
  · rename_i jump hjump
    rw [hjump] at h
    exact .append h Code.each_nop
  · exact Code.each_nil

lemma Statement.each_loopBottom {block : Block} {condition bottom : Code} {slot : Instruction}
    (hcondition : Code.Passes E condition)
    (hback : Code.Passes E (branch.jump? target).toList)
    (h : loopBottom block condition ((branch.jump? target).getD .nop) = (slot, bottom)) :
    Code.Passes E [slot] ∧ Code.Passes E bottom := by
  have hback' : Code.Passes E [(branch.jump? target).getD .nop] := by
    cases hjump : branch.jump? target with
    | none => exact Code.each_nop
    | some jump => rwa [hjump] at hback
  obtain ⟨hl, hr, hd⟩ := hback' _ List.mem_cons_self
  have hend : Code.Passes E [((branch.jump? target).getD .nop).tagged (.finish block), .nop] :=
    Code.each_nop.op hl hr hd
  rcases condition with _ | ⟨first, _ | ⟨second, rest⟩⟩
  · obtain ⟨rfl, rfl⟩ := Prod.mk.inj h
    exact ⟨Code.each_nop, hend⟩
  · obtain ⟨rfl, rfl⟩ := Prod.mk.inj h
    exact ⟨hcondition, .append hcondition hend⟩
  · obtain ⟨rfl, rfl⟩ := Prod.mk.inj h
    obtain ⟨hfirst, hrest⟩ := List.forall_mem_cons.mp hcondition
    obtain ⟨hsecond, hrest⟩ := List.forall_mem_cons.mp hrest
    have hlast := Code.Each.append hrest (Code.each_nop.op hl hr hd)
    exact ⟨Code.each_nil.op hfirst.1 hfirst.2.1 hfirst.2.2,
      .op (.op hlast hsecond.1 hsecond.2.1 hsecond.2.2) hfirst.1 hfirst.2.1 hfirst.2.2⟩

end Blocks

/-! ### Statements -/

namespace Session

open Statement Build

/-- The code of the session passes, and a call that waits starts with its keyword. -/
structure Passes (E : Operand → Prop) (s : Session) : Prop where
  preamble : Code.Passes E s.preamble
  program : Code.Passes E s.program
  trailers : ∀ o ∈ s.blocks, Code.Passes E o.trailer
  calls : ∀ c ∈ s.calls, Tokens.peek c.tokens = "call"

/-- Nothing has been reported, and the machine has all cells there are. -/
def Quiet (s : Session) : Prop := s.bench.diagnostics = [] ∧ s.bench.globals.nextFree < 65536

variable {E : Operand → Prop} {s s' : Session}

lemma Quiet.clean (h : s.Quiet) : s.bench.Clean := fun d hd => by
  rw [h.1] at hd
  cases hd

lemma Passes.emit (h : s.Passes E) {code : Code} (new : List OpenBlock)
    (b : Workbench) (scope : Scope) (hcode : Code.Passes E code)
    (hnew : ∀ o ∈ new, Code.Passes E o.trailer) :
    Passes E { s with
      bench := b, scope, program := s.program ++ code, blocks := new ++ s.blocks } :=
  ⟨h.preamble, .append h.program hcode, List.forall_mem_append.mpr ⟨hnew, h.trailers⟩, h.calls⟩

lemma Passes.tagLast (h : s.Passes E) (label : Label) : Passes E ((tagLast label).on s).2 := by
  rw [Build.tagLast, Build.on_modify]
  split
  · rename_i call calls hcalls
    have hold := h.calls
    rw [hcalls, List.forall_mem_cons] at hold
    split
    · exact ⟨h.preamble, h.program, h.trailers, List.forall_mem_cons.mpr hold⟩
    · exact ⟨h.preamble, h.program.tagLast _, h.trailers, h.calls⟩
  · exact ⟨h.preamble, h.program.tagLast _, h.trailers, h.calls⟩

lemma each_jump {scope : Scope} {b₀ b b' : Workbench} {left : List Token} {c : Condition}
    {branch : Branch} {test : Code} {target : Operand} (h : Amid b₀ left b) (h' : Amid b₀ left b')
    (ha : c.a.Comparable (Overlooks scope b₀ left)) (hb : c.b.Comparable (Overlooks scope b₀ left))
    (lower : c.lower.on b = ((branch, test), b')) (htarget : b₀.Lets scope left .source target) :
    Code.Each (b₀.Lets scope left) test ∧
      Code.Each (b₀.Lets scope left) (branch.jump? target).toList := by
  obtain ⟨htest, hmove⟩ := h.passes_lower h' ha hb lower
  exact ⟨htest, hmove _ _ htarget passes_zero⟩

lemma each_opening (hs : s.Fine) (hfirst : Tokens.peek s.bench.tokens ≠ "call") (o : Opening s)
    (hsilent : o.left.diagnostics = []) (hfits : o.left.globals.nextFree < 65536)
    {target : Operand} (htarget : s.bench.Lets s.scope o.left.tokens .source target) :
    Code.Each (s.bench.Lets s.scope o.left.tokens) (o.code ++ o.test) ∧
      Code.Each (s.bench.Lets s.scope o.left.tokens) (o.branch.jump? target).toList := by
  have hadvance₁ := (advances_takeId s.bench).trans
    (Workbench.advances_tokens (b := (takeId.on s.bench).2) o.start_suffix)
  have hadvance₂ := (Condition.careful_read s.scope).of_yields o.read
  have hadvance₃ := Workbench.advances_tokens o.rest_suffix
  have hadvance₄ := (Condition.advances_lower _).of_on o.lower
  obtain ⟨h, h'⟩ := Amid.of_advances hs.sane
    (hadvance₁.trans (hadvance₂.trans (hadvance₃.trans hadvance₄)))
    (List.suffix_refl _) hsilent hfits
  have h₃ := h.between h' (hadvance₁.trans (hadvance₂.trans hadvance₃)) hadvance₄
  have h₂ := h.between h₃ (hadvance₁.trans hadvance₂) hadvance₃
  obtain ⟨ha, hb, hcode⟩ := (h.between h₂ hadvance₁ hadvance₂).each_read h₂ hfirst o.read
  obtain ⟨htest, hjump⟩ :=
    each_jump (c := { o.condition with op := o.op }) h₃ h' ha hb o.lower htarget
  exact ⟨hcode.append htest, hjump⟩

lemma each_epilogueCode (name : String) {temp : Nat} (h : temp < 65536) :
    Code.Passes E (epilogueCode name temp) := by
  have hbase : ∀ {role mode}, Operand.Passes E role (.named mode name) := passes_named name
  exact .copy (.op (.copy (.copy Code.each_nil (passes_cell h) hbase) hbase passes_zero)
    passes_one hbase (passes_cell h)) hbase (passes_named _)

lemma Passes.inner (h : s.Passes E) (hs : s.Fine) (hfirst : Tokens.peek s.bench.tokens ≠ "call")
    (c : Closes s) (hquiet : c.inner.Quiet)
    (hE : ∀ a, Overlooks s.scope s.bench c.inner.bench.tokens a → E a) : c.inner.Passes E := by
  have hold := h.trailers
  rw [c.open_eq, List.forall_mem_cons] at hold
  have hprogram : Code.Passes E (s.program ++ c.trailer) := h.program.append hold.1
  generalize c.inner = inner, c.after = after at hquiet hE ⊢
  cases after with
  | done | leave => exact ⟨h.preamble, hprogram, hold.2, h.calls⟩
  | @orElse other =>
    have helse : Code.Passes E
        [(Instruction.jump (.label (.finish other) 1)).tagged (.begin other), .nop] :=
      Code.each_nop.op passes_minusOne (passes_label _ (by decide)) passes_zero
    exact ⟨h.preamble, hprogram.append helse, List.forall_mem_cons.mpr ⟨Code.each_nil, hold.2⟩,
      h.calls⟩
  | again r =>
    have hadvance₁ := Workbench.advances_tokens c.tokens
    have hadvance₂ := (careful_doCondition s.scope).of_yields r.read
    have hadvance₃ := (Condition.advances_lower _).of_on r.lower
    obtain ⟨h₀, h'⟩ := Amid.of_advances hs.sane (hadvance₁.trans (hadvance₂.trans hadvance₃))
      (List.suffix_refl _) hquiet.1 hquiet.2
    have h₂ := h₀.between h' (hadvance₁.trans hadvance₂) hadvance₃
    obtain ⟨ha, hb, hcode⟩ := (h₀.between h₂ hadvance₁ hadvance₂).each_doCondition h₂ hfirst r.read
    obtain ⟨htest, hjump⟩ := each_jump h₂ h' ha hb r.lower
      (passes_label (.begin c.block) (k := 1) (by decide))
    refine ⟨h.preamble, hprogram.append ?_, hold.2, h.calls⟩
    exact ((hcode.append htest).append (each_branchTo hjump)).mono
      fun role a ha => ha.imp_right (And.imp_right (hE a))

lemma Passes.close (h : s.Passes E) (hs : s.Fine) (hfirst : Tokens.peek s.bench.tokens ≠ "call")
    (c : Closes s) (hquiet : c.session.Quiet)
    (hE : ∀ a, Overlooks s.scope s.bench c.session.bench.tokens a → E a) : c.session.Passes E := by
  have hinner := h.inner hs hfirst c hquiet hE
  rw [show c.session = closed c.block c.inner from c.tagged.symm, closed]
  split
  · exact hinner
  · exact hinner.tagLast _

/-- What a statement adds to a program without a report passes. -/
theorem Passes.effect (h : s.Passes E) (hl : s.Linked) (hs : s.Fine) (hs' : s'.Fine)
    (he : Effect s s') (hg : s.Grows s') (hquiet : s'.Quiet)
    (hfirst : Tokens.peek s.bench.tokens ≠ "call")
    (hE : ∀ a, Overlooks s.scope s.bench s'.bench.tokens a → E a)
    (hinit : ∀ i ∈ s'.preamble, E i.rhs) : s'.Passes E := by
  have hmono : ∀ {code}, Code.Each (s.bench.Lets s.scope s'.bench.tokens) code →
      Code.Passes E code :=
    fun hcode => hcode.mono fun role a ha => ha.imp_right (And.imp_right (hE a))
  have hcells : ∀ t ∈ s'.bench.scratch.addresses, t < 65536 := fun t ht =>
    (hs'.sane.lt_nextFree ht).trans hquiet.2
  cases he with
  | idle => exact ⟨h.preamble, h.program, h.trailers, h.calls⟩
  | declare d =>
    refine ⟨h.preamble.append fun i hi => ?_, h.program, h.trailers, h.calls⟩
    have hvalue := hinit i (List.mem_append_right _ hi)
    obtain ⟨value, a, ⟨-, ha⟩, rfl⟩ := d.declarator.sets_stores d.name _ i hi
    exact ⟨passes_minusOne, .inr ⟨rfl, hvalue⟩, passes_cell (ha.trans hquiet.2)⟩
  | assign hnext lower =>
    obtain ⟨h₀, h'⟩ := Amid.of_advances hs.sane ((Assignment.careful_lower _).of_yields lower)
      (List.suffix_refl _) hquiet.1 hquiet.2
    exact h.emit [] _ s.scope (hmono (h₀.each_assignment h' hnext lower)) (by simp)
  | openFaulty _ hfaulty => exact absurd hquiet.clean hfaulty
  | openIf o =>
    obtain ⟨hcode, hjump⟩ := each_opening hs hfirst o.toOpening hquiet.1 hquiet.2
      (passes_label (.finish o.block) (k := 1) (by decide))
    exact h.emit [_] _ s.scope (hmono (hcode.append (each_branchTo hjump)))
      (by simpa using Code.each_nil)
  | openWhile o =>
    obtain ⟨hcode, hjump⟩ := each_opening hs hfirst o.toOpening hquiet.1 hquiet.2
      (passes_label (.begin o.block) (k := 2) (by decide))
    obtain ⟨hslot, hbottom⟩ := each_loopBottom hcode hjump o.layout
    exact h.emit [_] _ s.scope ((hmono hslot).op passes_minusOne (passes_label _ (by decide))
      passes_zero) (by simpa using hmono hbottom)
  | openDo o =>
    have hsame : Passes E { s with bench := o.left } := ⟨h.preamble, h.program, h.trailers, h.calls⟩
    have htagged := hsame.tagLast (.begin o.block)
    rw [o.tagged] at htagged
    exact ⟨htagged.preamble, htagged.program,
      List.forall_mem_cons.mpr ⟨Code.each_nil, htagged.trailers⟩, htagged.calls⟩
  | close c => exact h.close hs hfirst c hquiet hE
  | subroutine o =>
    obtain ⟨temp, htemp, hcode⟩ := o.exists_temp
    have hskip : Code.Passes E [.jump (.label (.finish o.block) 1),
        Instruction.nop.tagged (.begin o.block)] :=
      .op (.op Code.each_nil passes_zero passes_zero passes_zero) passes_minusOne
        (passes_label _ (by decide)) passes_zero
    exact h.emit [_] _ _ hskip (by simpa [hcode] using each_epilogueCode o.name (hcells temp htemp))
  | @leave name names b grows henclosing =>
    refine h.emit [] b s.scope ?_ (by simp)
    cases hframe : s.scope.frame? name with
    | none => exact Code.each_nil
    | some frame =>
      obtain ⟨temp, htemp, hepilogue⟩ := (hl.sound name frame hframe).epilogue
      rw [Option.map_some, Option.getD_some, hepilogue]
      exact each_epilogueCode name (hcells temp (hg.scratch.subset htemp))
  | call q => exact absurd q.next hfirst

end Session

/-! ### Calls -/

section Frames

variable {E : Operand → Prop}

lemma Declarator.each_init {frame : Frame} {offset : Nat} {d : Declarator}
    (hE : ∀ i ∈ d.init frame offset, E i.rhs) : Code.Passes E (d.init frame offset) := by
  intro i hi
  have hrhs := hE i hi
  have hbase : ∀ {role mode name}, Operand.Passes E role (.named mode name) := passes_named _
  have hstore : ∀ {k value}, i ∈ frame.store k value →
      i.lhs.Passes E .source ∧ i.rhs.Passes E .source ∧ i.dest.Passes E .destination := fun hi => by
    simp only [Frame.store, List.mem_cons, List.not_mem_nil, or_false] at hi
    rcases hi with rfl | rfl
    · exact ⟨hbase, .inr ⟨rfl, hrhs⟩, hbase⟩
    · exact ⟨passes_minusOne, .inr ⟨rfl, hrhs⟩, hbase⟩
  cases d with
  | word => cases hi
  | wordWithDefault value => exact hstore hi
  | array size values =>
    simp only [init, List.mem_append, List.mem_flatMap, List.mem_cons, List.not_mem_nil,
      or_false] at hi
    rcases hi with ⟨entry, -, hi⟩ | rfl | rfl
    · exact hstore hi
    · exact ⟨hbase, .inr ⟨rfl, hrhs⟩, hbase⟩
    · exact ⟨hbase, .inr ⟨rfl, hrhs⟩, hbase⟩

lemma Frame.Sound.each_init {frame : Frame} {pool : List Nat} {name : String}
    (h : frame.Sound pool name) {slot : Slot} (hslot : slot ∈ frame.slots)
    (hE : ∀ i ∈ slot.init, E i.rhs) : Code.Passes E slot.init := by
  obtain ⟨params, first, declared, hslots, -⟩ := h.declared
  rw [hslots] at hslot
  clear hslots
  induction declared with
  | new =>
    simp only [Frame.new, Frame.declareWord, List.nil_append, List.cons_append, List.mem_cons,
      List.not_mem_nil, or_false] at hslot
    rcases hslot with rfl | rfl <;> exact Code.each_nil
  | @declare params frame param d declared _ _ ih =>
    rw [Frame.slots_declare, List.mem_append, List.mem_singleton] at hslot
    rcases hslot with hslot | rfl
    · exact ih hslot
    · exact Declarator.each_init hE

end Frames

namespace Call

variable {scope : Scope} {b₀ b b' : Workbench} {left : List Token} {E : Operand → Prop}

lemma Arguments.each {frame : Frame} {pointer : Backed} {slot : Nat} {args : List Argument}
    (hargs : Arguments scope frame slot b args b') (h : Amid b₀ left b) (h' : Amid b₀ left b')
    (hp : b₀.Lets scope left .source pointer.read.toOperand) :
    Code.Each (b₀.Lets scope left) (args.flatMap (Argument.stored frame pointer)) := by
  induction hargs with
  | nil => exact Code.each_nil
  | @skip slot b b' args next rest ih => exact ih (h.between h' (advances_pop b) rest.advances) h'
  | @cons b b₁ b' a args slot next hslot hparam harray lowers rest ih =>
    have h₁ := h.between h' lowers.advances rest.advances
    refine .append ?_ (ih h₁ h')
    obtain @⟨b₂, b₃, ds, hread, hsource, hcheck, htemp⟩ := lowers
    have hadvance₁ := (careful_reference scope .source).of_yields hsource
    have hadvance₂ := (Condition.advances_checkBounds _ _).of_on hcheck
    have hadvance₃ := advances_allocScratch.of_on htemp
    have h₄ := h.between h₁ (hadvance₁.trans (hadvance₂.trans hadvance₃))
      (Workbench.advances_pool (by simp))
    have h₃ := h.between h₄ (hadvance₁.trans hadvance₂) hadvance₃
    have h₂ := h.between h₃ hadvance₁ hadvance₂
    obtain ⟨hlowered, hcode⟩ := h.lowered_reference h₂ hsource
    have htakes := takes_allocScratch h₃.sane
    rw [htemp] at htakes
    have hcell := h₄.lt htakes.mem
    exact .append hcode ((Code.each_nil.copy
      (passes_of_inRange hlowered.known (h₂.of_checkBounds h₃ hcheck).2) (passes_cell hcell)).op hp
      (passes_slot _ _) (passes_cell hcell))

namespace Lowering

variable {c : CallSite} (p : Lowering scope c b b')

lemma each_destination (h : Amid b [] b) (hn : Amid b [] p.named)
    (hfirst : Tokens.peek b.tokens = "call") {dest : Backed} {address : Code} {assign : Token}
    (hdest : p.dest? = some (dest, address, assign)) :
    Code.Each (b.Lets scope []) address ∧ b.Lets scope [] .destination dest.toOperand ∧
      b.Lets scope [] .source dest.read.toOperand := by
  rcases destination_cases p.yields_destination with
    ⟨-, hnone, -⟩ | ⟨dest', address', b₁, -, hy, hsome, hnamed⟩
  · simp [hnone] at hdest
  · rw [hsome] at hdest
    obtain ⟨rfl, rfl, -⟩ : dest' = dest ∧ address' = address ∧ _ := by simpa using hdest
    have hadvance := (careful_reference scope .destination).of_yields hy
    have hpop : b₁.Advances false p.named := by
      rw [hnamed]
      exact advances_pop b₁
    have h₁ := h.between hn ((advances_pop b).trans hadvance) hpop
    have h₀ := h.between h₁ (advances_pop b) hadvance
    obtain ⟨hlowered, haddress⟩ := h₀.lowered_reference h₁ hy
    have hbehind : "call" :: Tokens.rest b.tokens <:+ b.tokens := by
      rw [← Tokens.eq_cons_of_peek (by decide) hfirst]
    have hfound := h₀.finds h₁ hbehind hy
    exact ⟨haddress, .inr ⟨hlowered.known, .destination hfirst hfound⟩,
      .inr ⟨hlowered.known, .destinationRead hfirst hfound⟩⟩

/-- What a call adds to a program without a report passes. -/
theorem each_code (hb : b.Sane) (hfirst : Tokens.peek b.tokens = "call")
    (hsilent : b'.diagnostics = []) (hfits : b'.globals.nextFree < 65536)
    (hE : ∀ a, Overlooks scope b [] a → E a) {pool : List Nat} {name : String}
    (hsound : p.frame.Sound pool name) (hinit : ∀ slot ∈ p.frame.slots, ∀ i ∈ slot.init, E i.rhs) :
    Code.Passes E p.code := by
  have hto := p.advances_toOpened.trans p.arguments.advances
  have hfrom := p.advances_entered.trans p.advances_left
  obtain ⟨h, h'⟩ := Amid.of_advances hb (hto.trans hfrom) List.nil_suffix hsilent hfits
  have hclosed := h.between h' hto hfrom
  have hopened := h.between hclosed p.advances_toOpened p.arguments.advances
  have hmaking := advances_allocScratch.of_on p.on_allocScratch
  have hmade : Amid b [] p.making :=
    h.between hopened ((p.advances_named.trans p.advances_placed).trans hmaking) p.advances_opened
  have hplaced := h.between hmade (p.advances_named.trans p.advances_placed) hmaking
  have hnamed := h.between hplaced p.advances_named p.advances_placed
  have hmono : ∀ {role a}, b.Lets scope [] role a → Operand.Passes E role a :=
    fun ha => ha.imp_right (And.imp_right (hE _))
  have htop : ∀ {role mode name}, Operand.Passes E role (.named mode name) := passes_named _
  have htemp : ∀ {role mode}, Operand.Passes E role ⟨mode, .known (Numeral.wrap32 p.temp)⟩ :=
    passes_cell (hmade.lt (p.takes_temp hb).mem)
  -- where the address of the frame is kept
  have hpointer : Code.Each (b.Lets scope []) p.address ∧
      b.Lets scope [] .destination p.pointer.toOperand ∧
      b.Lets scope [] .source p.pointer.read.toOperand := by
    rcases framePointer_cases p.on_framePointer with
      ⟨assign, hdest, -, -⟩ | ⟨-, haddress, t, ht, hpointer⟩
    · exact p.each_destination h hnamed hfirst hdest
    · have hsane : Workbench.Sane { p.named with tokens := Tokens.rest p.named.tokens } :=
        hnamed.sane.congr rfl rfl
      have htakes := takes_allocScratch hsane
      rw [ht] at htakes
      have hcell := hplaced.lt htakes.mem
      rw [haddress, hpointer]
      exact ⟨Code.each_nil, passes_cell hcell, passes_cell hcell⟩
  obtain ⟨haddress, hpwritten, hpread⟩ := hpointer
  have hargs := (p.arguments.each hopened hclosed hpread).mono fun _ _ => hmono
  have hinits : Code.Passes E (initialCode p.frame p.supplied) := fun i hi => by
    obtain ⟨⟨slot, k⟩, hmem, hi⟩ := List.mem_flatMap.mp hi
    have hslot : slot ∈ p.frame.slots := List.fst_mem_of_mem_zipIdx hmem
    dsimp only at hi
    split at hi
    · cases hi
    · exact hsound.each_init hslot (hinit slot hslot) i hi
  have hsize : Operand.Passes E .source (.constant (Numeral.wrap32 p.frame.size)) :=
    .inr ⟨rfl, hE _ (.offset p.frame?_eq (Nat.le_succ _))⟩
  have hjump : ∀ l, Operand.Passes E .source (.label l 1) := fun l => passes_label l (by decide)
  have hmake : Code.Passes E (makeCode p.frame p.pointer p.temp) :=
    .op (.copy (.copy Code.each_nil htop (hmono hpwritten)) htop htemp) htop
      passes_one htemp
  have henter : Code.Passes E (enterCode p.frame p.pointer p.supplied p.back) :=
    .append (.append (.copy (.copy Code.each_nil (hjump _) htop) (hmono hpread) htop) hinits)
      (.op (.op Code.each_nil hsize htop htop) passes_minusOne (hjump _) passes_zero)
  have hresult : Code.Passes E p.result := by
    rcases p.result_cases with ⟨hresult, -⟩ | ⟨q, hresult⟩
    · rw [hresult]
      exact Code.each_nil
    · obtain ⟨hdaddress, hdwritten, hdread⟩ := p.each_destination h hnamed hfirst q.dest?_eq
      have htakes := takes_allocScratch (b := { entered p.pointer p.closed with
        tokens := (Reference.readField (entered p.pointer p.closed).tokens).2 })
        ((p.grows_entered hb).1.congr rfl rfl)
      rw [q.on_allocScratch] at htakes
      have hcell : ∀ {role mode}, Operand.Passes E role ⟨mode, .known (Numeral.wrap32 q.temp)⟩ :=
        passes_cell (h'.lt (q.scratch ▸ htakes.mem))
      have hstore : Code.Passes E q.store := by
        rcases q.stores with hstores | ⟨hstores, -⟩
        · generalize q.store = store, q.assign = assign at hstores
          cases hstores with
          | copy => exact Code.each_nil.copy hcell (hmono hdwritten)
          | compound => exact Code.each_nil.op (hmono hdread) hcell (hmono hdwritten)
        · rw [hstores]
          exact Code.each_nil
      rw [← hresult]
      exact .append (.append (hdaddress.mono fun _ _ => hmono)
        (Code.each_nil.op htop (passes_slot _ _) hcell)) hstore
  exact ((((haddress.mono fun _ _ => hmono).append hmake).append hargs).append henter).append
    hresult

end Lowering
end Call

/-! ### Programs -/

namespace Session

open Statement Build

variable {settings : Settings} {source : String}

inductive Overlooked (settings : Settings) (source : String) : Operand → Prop
  | statement {n : Nat} {a : Operand} (h : Overlooks (after settings source n).scope
      (rested (after settings source n)).bench (after settings source (n + 1)).bench.tokens a) :
      Overlooked settings source a
  /-- A call is compiled when all statements are. -/
  | call {c : CallSite} {b : Workbench} {a : Operand} (hc : c ∈ (stated settings source).calls)
      (hb : (stated settings source).bench.Grows b)
      (h : Overlooks (Call.scope c (stated settings source).scope) (Call.bench c b) [] a) :
      Overlooked settings source a
  | initial {i : Instruction} (h : i ∈ (stated settings source).preamble) :
      Overlooked settings source i.rhs
  /-- The initial value of a parameter, or its place in the frame. -/
  | default {name : String} {frame : Frame} {slot : Slot} {i : Instruction}
      (hframe : (stated settings source).scope.frame? name = some frame)
      (hslot : slot ∈ frame.slots) (hi : i ∈ slot.init) : Overlooked settings source i.rhs
  | field {name : String} {frame : Frame} {k : Nat}
      (hframe : (stated settings source).scope.frame? name = some frame) (hk : k < frame.size) :
      Overlooked settings source (.constant k)

section

variable {E : Operand → Prop} {s : Session}

lemma Passes.call (h : s.Passes E) (q : Queues s) : q.session.Passes E :=
  ⟨h.preamble, h.program, h.trailers, List.forall_mem_cons.mpr
    ⟨(Tokens.peek_splitStatement s.bench.tokens).trans q.next, h.calls⟩⟩

end

lemma Quiet.of_grows {s s' : Session} (h : s'.Quiet)
    (hdiagnostics : s.bench.diagnostics <+: s'.bench.diagnostics)
    (hglobals : s.bench.globals.Extends s'.bench.globals) : s.Quiet :=
  ⟨List.prefix_nil.mp (h.1 ▸ hdiagnostics), hglobals.nextFree_le.trans_lt h.2⟩

lemma passes_after (hquiet : (stated settings source).Quiet) (n : Nat) :
    (after settings source n).Passes (Overlooked settings source) := by
  induction n with
  | zero =>
    refine ⟨Code.each_nil, Code.each_nil.op passes_minusOne ?_ (passes_named _), ?_, ?_⟩
    · exact .inl ⟨by decide, by decide⟩
    · exact fun o ho => absurd ho List.not_mem_nil
    · exact fun c hc => absurd hc List.not_mem_nil
  | succ n ih =>
    have hrested : (rested (after settings source n)).Passes (Overlooked settings source) :=
      ⟨ih.preamble, ih.program, ih.trailers, ih.calls⟩
    have hquiet' : (after settings source (n + 1)).Quiet :=
      hquiet.of_grows (grows_stated _).diagnostics (grows_stated _).globals
    rcases hempty : (after settings source n).bench.tokens.isEmpty with _ | _
    · by_cases hnext : Tokens.peek (after settings source n).bench.tokens = "call"
      · obtain ⟨q, hq⟩ := exists_compile_call hnext
        rw [after_succ, hempty, if_neg Bool.false_ne_true, hq]
        exact hrested.call q
      · exact hrested.effect (linked_rested hquiet.clean n) (fine_rested fine_after) fine_after
          (effect_after hempty) grows_after_succ.from_rested hquiet' hnext
          (fun a ha => .statement ha) fun i hi => .initial ((grows_stated _).preamble.subset hi)
    · rwa [after_succ, hempty, if_pos rfl]

lemma Passes.expand {s : Session} {c : CallSite} {calls : List CallSite}
    (h : s.Passes (Overlooked settings source)) (hs : s.Fine) (hl : (stated settings source).Linked)
    (hscope : s.scope = (stated settings source).scope)
    (hgrows : (stated settings source).bench.Grows s.bench) (hcalls : s.calls = c :: calls)
    (hc : c ∈ (stated settings source).calls) (hquiet : (s.expand c calls).Quiet) :
    (s.expand c calls).Passes (Overlooked settings source) := by
  have hold := h.calls
  rw [hcalls, List.forall_mem_cons] at hold
  have hcode : Code.Passes (Overlooked settings source)
      ((Call.compile s.scope c).on s.bench).1 := by
    have hclean := hquiet.clean
    have hcompiles := Call.compiles_compile s.scope c s.bench
    simp only [Quiet, Session.expand] at hquiet hclean
    generalize ((Call.compile s.scope c).on s.bench).1 = code,
      ((Call.compile s.scope c).on s.bench).2 = b' at hcompiles hquiet hclean
    cases hcompiles with
    | @lowered b₁ p =>
      have hframe : (stated settings source).scope.frame? (Tokens.peek p.named.tokens) =
          some p.frame :=
        hscope ▸ p.frame?_eq
      exact (p.each_code (Call.grows_bench c hs.sane).1 hold.1 hquiet.1 hquiet.2
        (fun a ha => .call hc hgrows (hscope ▸ ha)) (hl.sound _ _ hframe)
        fun slot hslot i hi => .default hframe hslot hi).tagLast _
    | rejected hsane hfault => exact absurd hclean hfault
  refine ⟨h.preamble, .append (.append ?_ hcode) ?_, h.trailers, hold.2⟩
  · exact fun i hi => h.program i (List.mem_of_mem_take hi)
  · exact fun i hi => h.program i (List.mem_of_mem_drop hi)

lemma passes_compiled (hquiet : (compiled settings source).Quiet) :
    (compiled settings source).Passes (Overlooked settings source) := by
  have hstated := grows_expanded hquiet.clean
  have hlinked := linked_after (clean_stated hquiet.clean) (Lexer.tokenize source).1.length
  rw [after_eq_stated (Nat.le_refl _)] at hlinked
  have hexpanded : (expanded settings source).Quiet := by
    rw [compiled_eq_expanded] at hquiet
    generalize expanded settings source = s at hquiet ⊢
    exact hquiet.of_grows (List.prefix_refl _) (SymbolTable.extends_declareArray _ _ _ _)
  have hrun := expanded_induction (P := fun s => s.scope = (stated settings source).scope ∧
    s.calls ⊆ (stated settings source).calls ∧ (stated settings source).bench.Grows s.bench ∧
    (s.Quiet → s.Passes (Overlooked settings source))) hexpanded.clean
    (fun _ _ => ⟨rfl, List.Subset.refl _, .refl _, fun hquiet => by
      rw [← after_eq_stated (Nat.le_refl _)]
      exact passes_after hquiet _⟩)
    (fun s c calls hs hcalls hP => by
      obtain ⟨hscope, hsubset, hgrows, hpasses⟩ := hP
      have hgrows' := ((Call.compiles_compile s.scope c s.bench).grows hs.sane).2
      rw [hcalls] at hsubset
      refine ⟨hscope, fun d hd => hsubset (List.mem_cons_of_mem _ hd), hgrows.trans hgrows',
        fun hquiet => ?_⟩
      exact (hpasses (hquiet.of_grows hgrows'.diagnostics hgrows'.globals.cells)).expand
        hs hlinked hscope hgrows hcalls (hsubset List.mem_cons_self) hquiet)
  have hpasses := hrun.2.2.2.2.2 hexpanded
  rw [compiled_eq_expanded]
  generalize expanded settings source = s at hpasses ⊢
  exact ⟨hpasses.preamble, hpasses.program, hpasses.trailers, hpasses.calls⟩

lemma lt_of_lookup_labelsOf {code : Code} {l : Label} {j : Nat}
    (h : (Resolver.labelsOf code).lookup l = some j) : j < code.length := by
  obtain ⟨before, after, heq, -⟩ := List.lookup_eq_some_iff.mp h
  have hmem : (l, j) ∈ Resolver.labelsOf code := by simp [heq]
  rw [Resolver.labelsOf, List.mem_reverse, List.mem_flatMap] at hmem
  obtain ⟨⟨i, k⟩, hmem, htag⟩ := hmem
  obtain ⟨tag, -, heq⟩ := List.mem_map.mp htag
  obtain ⟨-, rfl⟩ := Prod.mk.inj heq
  simpa using List.snd_lt_of_mem_zipIdx hmem

section

variable {E : Operand → Prop} {s : Session} {role : Role} {a : Operand}

lemma fits_operand (hquiet : s.Quiet) (hlength : s.joined.length < 65535)
    (hfield : ∀ name frame k, s.scope.frame? name = some frame → k < frame.size → E (.constant k))
    (h : a.Passes E role) :
    (s.resolver.operand a).IsKnown ∧
      ((s.resolver.operand a).InRange role ∨ E (s.resolver.operand a)) := by
  obtain ⟨mode, n | ⟨symbol, k⟩⟩ := a
  · exact ⟨rfl, h.imp_right And.right⟩
  · have hsafe := h.resolve_right (by rintro ⟨hknown, -⟩; cases hknown)
    refine ⟨rfl, ?_⟩
    cases hbase : s.resolver.base? symbol with
    -- a symbol without a value is taken for zero
    | none =>
      have hzero : s.resolver.operand ⟨mode, .symbolic ⟨symbol, k⟩⟩ = ⟨mode, .known 0⟩ := by
        simp [Resolver.operand, Resolver.number?, hbase]
      exact .inl (hzero ▸ inRange_number (Int.le_refl 0) (by decide))
    | some base =>
      rw [operand_of_base? hbase]
      cases symbol with
      | cell name =>
        obtain ⟨hk₀, hk⟩ := hsafe
        have hlt := (SymbolTable.lt_nextFree_of_address? hbase).trans_le
          (Nat.le_of_lt_succ hquiet.2)
        exact .inl (inRange_number (by omega) (by omega))
      | slot owner name =>
        obtain ⟨-, rfl, rfl⟩ := hsafe
        obtain ⟨frame, hframe, haddress⟩ := Option.bind_eq_some_iff.mp hbase
        rw [Int.add_zero]
        exact .inr (hfield owner frame base hframe (SymbolTable.lt_nextFree_of_address? haddress))
      | label l =>
        obtain ⟨rfl, rfl, hk₀, hk⟩ := hsafe
        have hlt := (lt_of_lookup_labelsOf hbase).trans_le (Nat.le_of_lt_succ hlength)
        exact .inl (Operand.inRange_constant.mpr (by omega))

lemma quiet_of_finish (hsilent : s.finish.diagnostics = [])
    (hcells : s.finish.memoryMap.size < 65536) : s.Quiet :=
  ⟨(List.append_eq_nil_iff.mp hsilent).1, hcells⟩

lemma Passes.finish (h : s.Passes E) (hquiet : s.Quiet) (hoptimize : s.settings.optimize = false)
    (hlength : s.finish.code.length < 65536)
    (hfield : ∀ name frame k, s.scope.frame? name = some frame → k < frame.size → E (.constant k)) :
    Code.Each (fun role a => a.IsKnown ∧ (a.InRange role ∨ E a)) s.finish.code := by
  have hcode : s.finish.code = .nop ::
      s.joined.map (Instruction.mapOperands s.resolver.operand) := by
    rw [Session.finish, hoptimize]
    rfl
  rw [hcode] at hlength ⊢
  have hjoined : s.joined.length < 65535 := by
    rw [List.length_cons, List.length_map] at hlength
    omega
  have hfits : ∀ {role a}, Operand.Passes E role a → _ :=
    fun ha => fits_operand hquiet hjoined hfield ha
  refine .op (fun i hi => ?_) ⟨rfl, .inl ?_⟩ ⟨rfl, .inl ?_⟩ ⟨rfl, .inl ?_⟩
  · obtain ⟨j, hj, rfl⟩ := List.mem_map.mp hi
    obtain ⟨hl, hr, hd⟩ := h.preamble.append h.program j hj
    exact ⟨hfits hl, hfits hr, hfits hd⟩
  all_goals exact inRange_number (Int.le_refl 0) (by decide)

end

/-- In a program that is not optimized and fits the machine, and of which nothing is reported, every
number fits the machine where it stands, unless it is one that no check looks at. -/
theorem operands_fit_or_are_overlooked (settings : Settings) (source : String)
    (hoptimize : settings.optimize = false) (hsilent : (compile settings source).diagnostics = [])
    (hcode : (compile settings source).code.length < 65536)
    (hcells : (compile settings source).memoryMap.size < 65536) :
    Code.Each (fun role a => a.IsKnown ∧ (a.InRange role ∨ Overlooked settings source a))
      (compile settings source).code := by
  rw [compile_eq_finish] at hsilent hcode hcells ⊢
  have hquiet := quiet_of_finish hsilent hcells
  have hsettings : (compiled settings source).settings = settings := by
    have hexpanded := settings_expanded settings source
    rw [compiled_eq_expanded]
    generalize expanded settings source = s at hexpanded ⊢
    exact hexpanded
  refine (passes_compiled hquiet).finish hquiet (by rw [hsettings, hoptimize]) hcode
    fun name frame k hframe hk => ?_
  rw [scope_compiled hquiet.clean] at hframe
  exact .field hframe hk

/-- A variable with an initial value that is no word. -/
def wide : String := "my x = 70000;"

/-- The initial value is stored as it is written, and nothing is reported. -/
theorem operands_fit_or_are_overlooked_wide :
    (compile { optimize := false } wide).diagnostics = [] ∧
      ¬ (Operand.constant 70000).InRange .source ∧
      Overlooked { optimize := false } wide (.constant 70000) := by
  have hcompiled : (compile { optimize := false } wide).diagnostics = [] ∧
      (compile { optimize := false } wide).code.length < 65536 ∧
      (compile { optimize := false } wide).memoryMap.size < 65536 ∧
      Instruction.copy (.constant 70000) (.constant 3) ∈
        (compile { optimize := false } wide).code := by
    decide +kernel
  obtain ⟨hsilent, hcode, hcells, hmem⟩ := hcompiled
  have hrange : ¬ (Operand.constant 70000).InRange .source := by
    rw [Operand.inRange_constant]
    decide
  obtain ⟨-, hvalue, -⟩ := operands_fit_or_are_overlooked { optimize := false } wide
    rfl hsilent hcode hcells _ hmem
  exact ⟨hsilent, hrange, hvalue.2.resolve_left hrange⟩

end Session

end CogolToolchain
