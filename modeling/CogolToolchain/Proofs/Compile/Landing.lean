import CogolToolchain.Proofs.Compile.Addressing
import CogolToolchain.Proofs.Compile.Linking
import CogolToolchain.Proofs.Compile.Orderly

/-!
The delay slots and landing places of a whole program.

Statements and calls keep the program orderly (`Session.Orderly.effect`, `Session.Orderly.expand`),
as long as no destination in the source is the program counter. Once the symbols are resolved, every
jump has a delay slot, and it goes to a landing place or returns from a subroutine
(`Session.jumps_land`). Operands are 32 bits wide, so this takes bounds on the program: with `2^32`
cells before it, a scratch cell is written as the program counter is
(`Session.counter_without_place`).
-/

namespace CogolToolchain

open Work Attempt

/-! ### The destinations of a source -/

namespace Statement

/-- What the destination of the next statement is lowered to, if the statement is an assignment. -/
def destination? (s : Session) : Option Operand :=
  if startsAssignment (Tokens.peek s.bench.tokens) then
    ((reference s.scope .destination).on (rested s).bench).1.map fun r => r.1.toOperand
  else none

def destinations : (rounds : Nat) → Session → List Operand
  | 0, _ => []
  | rounds + 1, s =>
    if s.bench.tokens.isEmpty then []
    else (destination? s).toList ++ destinations rounds (Statement.compile.on s).2

end Statement

def Call.destination? (scope : Scope) (call : CallSite) (b : Workbench) : Option Operand :=
  ((destination (Call.scope call scope) call).on
    { bench call b with tokens := Tokens.rest call.tokens }).1.join.map fun d => d.1.toOperand

namespace Session

def callDestinations : List CallSite → Session → List Operand
  | [], _ => []
  | c :: calls, s =>
    (Call.destination? s.scope c s.bench).toList ++ callDestinations calls (s.expand c calls)

def destinations (settings : Settings) (source : String) : List Operand :=
  Statement.destinations (Lexer.tokenize source).1.length (started settings source) ++
    callDestinations (stated settings source).calls (stated settings source)

end Session

/-! ### Programs with calls that wait -/

/-- The stretches of the program between the calls are orderly, and the program goes on right after
a call. -/
def OrderlyBetween (returns : Code → Prop) : Code → List CallSite → Prop
  | p, [] => p.Orderly returns
  | p, c :: calls => OrderlyBetween returns (p.take c.position) calls ∧
      Code.Orderly returns (p.drop c.position) ∧ ∀ l ∈ c.tags, l.Following

section

variable {returns returns' : Code → Prop} {p q : Code} {calls : List CallSite}

lemma OrderlyBetween.mono (h : OrderlyBetween returns p calls) (hr : ∀ c, returns c → returns' c) :
    OrderlyBetween returns' p calls := by
  induction calls generalizing p with
  | nil => exact Code.Orderly.mono h hr
  | cons c calls ih => exact ⟨ih h.1, h.2.1.mono hr, h.2.2⟩

lemma OrderlyBetween.append (h : OrderlyBetween returns p calls) (hp : PlacedBelow p.length calls)
    (hq : q.Orderly returns) : OrderlyBetween returns (p ++ q) calls := by
  cases calls with
  | nil => exact Code.Orderly.append h hq
  | cons c calls =>
    rw [OrderlyBetween, List.take_append_of_le_length hp.1, List.drop_append_of_le_length hp.1]
    exact ⟨h.1, h.2.1.append hq, h.2.2⟩

lemma OrderlyBetween.call (h : OrderlyBetween returns p calls) {c : CallSite}
    (hc : c.position = p.length) (htags : c.tags = []) : OrderlyBetween returns p (c :: calls) := by
  rw [OrderlyBetween, hc, List.take_length, List.drop_length]
  exact ⟨h, Code.orderly_nil returns, by simp [htags]⟩

lemma OrderlyBetween.insert {c : CallSite} (h : OrderlyBetween returns p (c :: calls))
    (hp : PlacedBelow p.length (c :: calls)) (hq : q.Orderly returns) :
    OrderlyBetween returns (p.take c.position ++ q ++ p.drop c.position) calls := by
  have hlength : (p.take c.position).length = c.position := by
    rw [List.length_take, Nat.min_eq_left hp.1]
  rw [List.append_assoc]
  exact h.1.append (hlength.symm ▸ hp.2) (hq.append h.2.1)

lemma split_tagLast (labels : List Label) {n : Nat} (h : n < p.length) :
    (Code.tagLast labels p).take n = p.take n ∧
      (Code.tagLast labels p).drop n = Code.tagLast labels (p.drop n) := by
  rcases List.eq_nil_or_concat p with rfl | ⟨q, i, rfl⟩
  · simp at h
  · rw [List.concat_eq_append] at h ⊢
    have hn : n ≤ q.length := by simpa [Nat.lt_succ_iff] using h
    rw [tagLast_concat, List.take_append_of_le_length hn, List.take_append_of_le_length hn,
      List.drop_append_of_le_length hn, List.drop_append_of_le_length hn, tagLast_concat]
    exact ⟨rfl, rfl⟩

end

lemma Build.orderly_tagLast {returns : Code → Prop} {s : Session} {l : Label}
    (h : OrderlyBetween returns s.program s.calls) (hs : s.Fine) (hl : l.Following) :
    OrderlyBetween returns ((tagLast l).on s).2.program ((tagLast l).on s).2.calls := by
  have hlabels : ∀ l' ∈ [l], l'.Following := by simpa using hl
  have hplaced := hs.placed
  rcases hcalls : s.calls with _ | ⟨c, calls⟩
  · rw [on_tagLast_of_nil l hcalls]
    rw [hcalls] at h ⊢
    exact Code.Orderly.tagLast_following h hlabels
  · rw [hcalls] at h hplaced
    rw [tagLast, on_modify, hcalls]
    dsimp only
    split
    · refine ⟨h.1, h.2.1, fun l' hl' => ?_⟩
      exact (List.mem_append.mp hl').elim (h.2.2 l') (hlabels l')
    · rename_i hc
      have hlt : c.position < s.program.length := Nat.lt_of_le_of_ne hplaced.1 hc
      obtain ⟨htake, hdrop⟩ := split_tagLast [l] hlt
      simp only [OrderlyBetween, htake, hdrop]
      exact ⟨h.1, h.2.1.tagLast_following hlabels, h.2.2⟩

lemma Build.fine_of_tagLast {s : Session} {l : Label} (h : ((tagLast l).on s).2.Fine) : s.Fine := by
  obtain ⟨program, calls, hon, hlength, hpositions⟩ := on_tagLast l s
  rw [hon] at h
  exact ⟨h.sane, hlength ▸ placedBelow_congr hpositions h.placed⟩

/-! ### Every statement keeps the program orderly -/

namespace Session

open Statement Build

def Returns (s : Session) (code : Code) : Prop :=
  ∃ name frame, s.scope.frame? name = some frame ∧ code = frame.epilogue

structure Orderly (s : Session) : Prop where
  program : OrderlyBetween s.Returns s.program s.calls
  trailers : ∀ b ∈ s.blocks, b.trailer.Orderly s.Returns
  subroutines : ∀ name frame, s.scope.frame? name = some frame →
    isReserved name = false ∧ frame.block.kind = .sub
  preamble : s.preamble.Orderly s.Returns

variable {s s' : Session}

lemma Orderly.emit (h : s.Orderly) (hs : s.Fine) {b : Workbench} {code : Code}
    (new : List OpenBlock) (hcode : code.Orderly s.Returns)
    (hnew : ∀ o ∈ new, o.trailer.Orderly s.Returns) :
    Orderly { s with bench := b, program := s.program ++ code, blocks := new ++ s.blocks } where
  program := h.program.append hs.placed hcode
  trailers := fun o ho => (List.mem_append.mp ho).elim (hnew o) (h.trailers o)
  subroutines := h.subroutines
  preamble := h.preamble

lemma Orderly.declare (h : s.Orderly) (d : Introduces s) (hb : 0 < d.bench.globals.nextFree)
    (hcells : d.session.bench.globals.nextFree ≤ 4294967296) : d.session.Orderly := by
  have hsets := d.declarator.sets_stores d.name d.bench.globals
  have hcode : Code.Orderly s.Returns (d.declarator.stores d.bench.globals.nextFree) := by
    refine Code.orderly_of_calm (fun i hi => ?_) (fun i hi => ?_) fun i hi l hl => ?_
    · obtain ⟨value, a, ⟨ha, ha'⟩, rfl⟩ := hsets i hi
      exact Instruction.calm_of_dest
        (Operand.isZero_cellDest (hb.trans_le ha) (ha'.trans_le hcells))
    · obtain ⟨value, a, -, rfl⟩ := hsets i hi
      exact Instruction.proper_known rfl rfl rfl
    · obtain ⟨value, a, -, rfl⟩ := hsets i hi
      simp [Instruction.copy] at hl
  exact ⟨h.program, h.trailers, h.subroutines, h.preamble.append hcode⟩

lemma Orderly.assign (h : s.Orderly) (hs : s.Fine) {code : Code} {b : Workbench}
    (hpool : OffCounter b.scratch.addresses)
    (lower : Yields (Assignment.lower s.scope) s.bench code b)
    (hdest : ∀ r b₁, Yields (reference s.scope .destination) s.bench r b₁ → r.1.isZero = false) :
    Orderly { s with bench := b, program := s.program ++ code } := by
  obtain ⟨dest, address, b₁, middle, last, hyields, rfl, hplain, hlast⟩ :=
    Assignment.ending_of_lower hs.sane lower
  have hknown := (lowered_reference s.scope [] .destination _ _ _ hs.sane (List.nil_subset _)
    hyields).known
  exact h.emit hs [] ((hplain.orderly hpool).append
    (hlast.orderly hpool hknown (hdest _ _ hyields))) (by simp)

lemma Orderly.openIf (h : s.Orderly) (hs : s.Fine) (o : OpensIf s)
    (hpool : OffCounter o.left.scratch.addresses) : o.session.Orderly := by
  obtain ⟨-, -, -, hskip, hplain⟩ := o.plain hs
  refine h.emit hs [{ block := o.block }] ((hplain.orderly hpool).append
    (orderly_branchTo hskip ?_)) (by simp [Code.orderly_nil])
  simp [Label.offsets, o.kind]

lemma Orderly.openWhile (h : s.Orderly) (hs : s.Fine) (o : OpensWhile s)
    (hpool : OffCounter o.left.scratch.addresses) : o.session.Orderly := by
  obtain ⟨-, -, -, hbranch, hplain⟩ := o.plain hs
  have hbegin : (2 : Int) ∈ (Label.begin o.block).offsets := by simp [Label.offsets, o.kind]
  have hfinish : (0 : Int) ∈ (Label.finish o.block).offsets := by simp [Label.offsets, o.kind]
  obtain ⟨hlabel, hback⟩ := back_proper hbranch hbegin
  obtain ⟨hcalm, hproper, htags, hbottom⟩ :
      o.slot.Calm ∧ o.slot.Proper ∧ o.slot.tags = [] ∧ o.bottom.Orderly s.Returns :=
    orderly_loopBottom o.kind hplain hpool hlabel hback (back_eq hbranch (.begin o.block) 2).1
      o.layout
  refine h.emit hs [{ block := o.block, trailer := o.bottom }] (Code.orderly_pair
    (fun _ => ⟨_, _, rfl⟩) (Instruction.proper_transfer (Operand.known_constant _) hfinish) hcalm
    hproper ?_ (by simp [htags])) (by simpa using hbottom)
  simp [Instruction.jump, Instruction.copy, Label.offsets, o.kind]

lemma Orderly.tagLast (h : s.Orderly) (hs : s.Fine) {l : Label} (hl : l.Following) :
    ((Build.tagLast l).on s).2.Orderly := by
  have hprogram := orderly_tagLast h.program hs hl
  obtain ⟨program, calls, hon, -⟩ := tagLast_eq l s
  rw [hon] at hprogram ⊢
  exact ⟨hprogram, h.trailers, h.subroutines, h.preamble⟩

lemma Orderly.openDo (h : s.Orderly) (hs : s.Fine) (o : OpensDo s) (hsane : o.left.Sane) :
    o.session.Orderly := by
  have hsame : Orderly { s with bench := o.left } :=
    ⟨h.program, h.trailers, h.subroutines, h.preamble⟩
  have hfollow : (Label.begin o.block).Following := Label.following_begin (by simp [o.kind])
  have htagged := hsame.tagLast ⟨hsane, hs.placed⟩ hfollow
  rw [o.tagged] at htagged
  exact ⟨htagged.program, List.forall_mem_cons.mpr ⟨Code.orderly_nil _, htagged.trailers⟩,
    htagged.subroutines, htagged.preamble⟩

lemma Orderly.after (h : s.Orderly) (hs : s.Fine) {block : Block} (after : After block s s')
    (hpool : OffCounter s'.bench.scratch.addresses) : s'.Orderly := by
  cases after with
  | done | leave => exact ⟨h.program, h.trailers, h.subroutines, h.preamble⟩
  | @orElse other b _ hkind hother _ _ =>
    refine h.emit hs [{ block := other }] (Code.orderly_pair (fun _ => ⟨_, _, rfl⟩)
      (Instruction.proper_transfer (Operand.known_constant _) ?_) Instruction.calm_nop
      Instruction.proper_nop ?_ (by simp)) (by simp [Code.orderly_nil])
    · simp [Label.offsets, hother]
    · simp [Instruction.jump, Instruction.copy, Label.offsets, hother]
  | again r hkind =>
    obtain ⟨-, -, hbranch, hplain⟩ := r.plain hs.sane
    refine h.emit hs [] ((hplain.orderly hpool).append (orderly_branchTo hbranch ?_)) (by simp)
    simp [Label.offsets, hkind]

lemma Orderly.close (h : s.Orderly) (hs : s.Fine) (c : Closes s) (hs' : c.session.Fine)
    (hpool : OffCounter c.inner.bench.scratch.addresses) : c.session.Orderly := by
  have hold := h.trailers
  rw [c.open_eq, List.forall_mem_cons] at hold
  have hbraced : (braced s c.rest c.blocks c.trailer).Orderly :=
    ⟨h.program.append hs.placed hold.1, hold.2, h.subroutines, h.preamble⟩
  have hinner := hbraced.after (c.fine_braced hs) c.after hpool
  have htagged : c.session = closed c.block c.inner := c.tagged.symm
  rw [htagged] at hs' ⊢
  unfold closed at hs' ⊢
  split
  · exact hinner
  · rename_i hkind
    rw [if_neg hkind] at hs'
    exact hinner.tagLast (fine_of_tagLast hs') (Label.following_finish hkind)

lemma Orderly.subroutine (h : s.Orderly) (hs : s.Fine) (o : OpensSub s)
    (hpool : OffCounter o.left.scratch.addresses) (hfree : isReserved o.name = false)
    (hnew : s.scope.frame? o.name = none) : o.session.Orderly := by
  obtain ⟨temp, htemp, hcode⟩ := o.exists_temp
  have hname : o.name ≠ programCounterName := ne_programCounterName hfree
  have hframe? : ∀ name, o.session.scope.frame? name = if name = o.name then
      some { o.frame with epilogue := o.code } else s.scope.frame? name :=
    fun name => Scope.frame?_within
  have hown : o.session.Returns (epilogueCode o.name temp) :=
    ⟨o.name, _, by rw [hframe?, if_pos rfl], hcode.symm⟩
  have hold : ∀ c, s.Returns c → o.session.Returns c := by
    rintro c ⟨name, frame, hframe, rfl⟩
    have hne : name ≠ o.name := by
      rintro rfl
      simp [hnew] at hframe
    exact ⟨name, frame, by rw [hframe?, if_neg hne, hframe], rfl⟩
  have hskip : Code.Orderly o.session.Returns
      [.jump (.label (.finish o.block) 1), Instruction.nop.tagged (.begin o.block)] := by
    refine Code.orderly_pair (fun _ => ⟨_, _, rfl⟩)
      (Instruction.proper_transfer (Operand.known_constant _) ?_) rfl
      (Instruction.proper_known rfl rfl rfl) (by simp [Instruction.jump, Instruction.copy]) ?_
    · simp [Label.offsets, subBlock]
    · simp [Label.offsets, subBlock]
  refine ⟨(h.program.mono hold).append hs.placed hskip, List.forall_mem_cons.mpr ⟨?_, fun o' ho =>
    (h.trailers o' ho).mono hold⟩, fun name frame hframe => ?_, h.preamble.mono hold⟩
  · rw [hcode]
    exact orderly_epilogueCode hname hpool htemp hown
  · rw [hframe?] at hframe
    split at hframe
    · rename_i heq
      obtain rfl := Option.some.inj hframe
      refine ⟨heq ▸ hfree, ?_⟩
      rw [show Frame.block _ = o.frame.block from rfl, o.declared.name_eq.2]
      rfl
    · exact h.subroutines name frame hframe

lemma Orderly.leave (h : s.Orderly) (hl : s.Linked) (hs : s.Fine)
    (hpool : OffCounter s.bench.scratch.addresses) {name : String} {b : Workbench} :
    Orderly { s with
      bench := b, program := s.program ++ ((s.scope.frame? name).map Frame.epilogue).getD [] } := by
  refine h.emit hs [] ?_ (by simp)
  rcases hframe : s.scope.frame? name with _ | frame
  · exact Code.orderly_nil _
  · obtain ⟨temp, htemp, hepilogue⟩ := (hl.sound name frame hframe).epilogue
    rw [Option.map_some, Option.getD_some, hepilogue]
    exact orderly_epilogueCode (ne_programCounterName (h.subroutines name frame hframe).1) hpool
      htemp ⟨name, frame, hframe, hepilogue.symm⟩

lemma Orderly.call (h : s.Orderly) (q : Queues s) : q.session.Orderly := by
  have hreturns : ∀ c, s.Returns c → q.session.Returns c := by
    rintro c ⟨name, frame, hframe, rfl⟩
    rcases q.retypes.frames name with hsame | ⟨first, param, type, hfirst, hretyped⟩
    · exact ⟨name, frame, hsame.trans hframe, rfl⟩
    · obtain rfl := Option.some.inj (hfirst.symm.trans hframe)
      exact ⟨name, _, hretyped, rfl⟩
  refine ⟨(h.program.mono hreturns).call rfl rfl, fun o ho => (h.trailers o ho).mono hreturns,
    fun name frame hframe => ?_, h.preamble.mono hreturns⟩
  obtain ⟨first, hfirst, hsame⟩ := q.frame? hframe
  have hold := h.subroutines name first hfirst
  rcases hsame with rfl | ⟨param, type, rfl⟩ <;> exact hold

/-- A statement without errors keeps the program orderly. -/
theorem Orderly.effect (h : s.Orderly) (hl : s.Linked) (hs : s.Fine) (he : Effect s s')
    (hg : s.Grows s') (hs' : s'.Fine) (hc : s'.bench.Clean)
    (hcells : s'.bench.globals.nextFree ≤ 4294967296)
    (hdest : startsAssignment (Tokens.peek s.bench.tokens) = true → ∀ r b₁,
      Yields (reference s.scope .destination) s.bench r b₁ → r.1.isZero = false) : s'.Orderly := by
  have hpool := hs'.sane.offCounter hcells
  cases he with
  | idle => exact ⟨h.program, h.trailers, h.subroutines, h.preamble⟩
  | declare d =>
    have hpos : 0 < s.bench.globals.nextFree :=
      (Array.getElem?_eq_some_iff.mp hs.sane.counter).1
    exact h.declare d (hpos.trans_le d.grows.globals.cells.nextFree_le) hcells
  | assign hnext lower => exact h.assign hs hpool lower (hdest hnext)
  | openFaulty _ hfaulty => exact absurd hc hfaulty
  | openIf o => exact h.openIf hs o hpool
  | openWhile o => exact h.openWhile hs o hpool
  | openDo o => exact h.openDo hs o hs'.sane
  | close c => exact h.close hs c hs' hpool
  | subroutine o =>
    obtain ⟨hfree, hnew, -⟩ := o.fresh_of_clean hc
    exact h.subroutine hs o hpool hfree hnew
  | leave => exact h.leave hl hs (hpool.mono hg.scratch.subset)
  | call q => exact h.call q

/-- The statements of a program without errors keep it orderly. -/
theorem Orderly.compileAll (rounds : Nat) (h : s.Orderly) (hl : s.Linked) (hs : s.Fine)
    (hc : ((Statement.compileAll rounds).on s).2.bench.Clean)
    (hcells : ((Statement.compileAll rounds).on s).2.bench.globals.nextFree ≤ 4294967296)
    (hdest : ∀ a ∈ Statement.destinations rounds s, a.isZero = false) :
    ((Statement.compileAll rounds).on s).2.Orderly := by
  induction rounds generalizing s with
  | zero => exact h
  | succ rounds ih =>
    rw [on_compileAll_succ] at hc hcells ⊢
    rw [Statement.destinations] at hdest
    split
    · exact h
    · rename_i hne
      rw [if_neg hne] at hc hcells hdest
      obtain ⟨hs₁, hg₁⟩ := keeps_compile s hs
      obtain ⟨-, hg₂⟩ := keeps_compileAll rounds _ hs₁
      have hl₀ : (rested s).Linked := hl.idle (grows_rested s)
      have h₀ : (rested s).Orderly := ⟨h.program, h.trailers, h.subroutines, h.preamble⟩
      have heffect := effect_compile hs
      refine ih (h₀.effect hl₀ (fine_rested hs) heffect hg₁.from_rested hs₁ (hg₂.clean hc)
        (hg₂.globals.nextFree_le.trans hcells) fun hnext r b₁ hr => ?_)
        (hl₀.effect (fine_rested hs) heffect hg₁.from_rested hs₁ (hg₂.clean hc)) hs₁ hc hcells
        fun a ha => hdest a (List.mem_append_right _ ha)
      refine hdest r.1.toOperand (List.mem_append_left _ (Option.mem_toList.mpr ?_))
      have hresult : ((reference s.scope .destination).on (rested s).bench).1 = some r :=
        congrArg Prod.fst hr
      have hstarts : startsAssignment (Tokens.peek s.bench.tokens) = true := hnext
      rw [destination?, if_pos hstarts, hresult]
      rfl

lemma Orderly.expand (h : s.Orderly) (hl : s.Linked) (hs : s.Fine) {c : CallSite}
    {calls : List CallSite} (hcalls : s.calls = c :: calls)
    (hpool : OffCounter (s.expand c calls).bench.scratch.addresses)
    (hdest : ∀ a ∈ Call.destination? s.scope c s.bench, a.isZero = false) :
    (s.expand c calls).Orderly := by
  have hprogram := h.program
  have hplaced := hs.placed
  rw [hcalls] at hprogram hplaced
  refine ⟨hprogram.insert hplaced ?_, h.trailers, h.subroutines, h.preamble⟩
  have hcompiles := Call.compiles_compile s.scope c s.bench
  have hcode : ∀ code b', b'.scratch.addresses = (s.expand c calls).bench.scratch.addresses →
      Call.Compiles s.scope c s.bench code b' → code.Orderly s.Returns := by
    intro code b' hb' hcompiles
    cases hcompiles with
    | @lowered b₁ p =>
      have hframe : s.scope.frame? (Tokens.peek p.named.tokens) = some p.frame := p.frame?_eq
      obtain ⟨hname, hkind⟩ := h.subroutines _ _ hframe
      have hb₁ : OffCounter b₁.scratch.addresses := by
        rw [show b₁.scratch.addresses = _ from hb']
        exact hpool
      refine Code.Orderly.tagLast_following ?_ hprogram.2.2
      refine p.orderly_code (Call.grows_bench c hs.sane).1 hb₁ (hl.sound _ _ hframe)
        (ne_programCounterName hname) hkind fun d hd => ?_
      refine hdest d.1.toOperand ?_
      have hresult : ((Call.destination (Call.scope c s.scope) c).on
          { Call.bench c s.bench with tokens := Tokens.rest c.tokens }).1 = some p.dest? :=
        congrArg Prod.fst p.yields_destination
      rw [Call.destination?, hresult, Option.join_some, Option.mem_def.mp hd]
      rfl
    | rejected hsane hfault =>
      refine Code.Orderly.tagLast_following ?_ hprogram.2.2
      exact Code.orderly_of_calm (by simp [Instruction.calm_nop]) (by simp [Instruction.proper_nop])
        (by simp)
  exact hcode _ _ rfl hcompiles

/-! ### The finished program -/

lemma orderly_started (settings : Settings) (source : String) :
    (started settings source).Orderly where
  program := by
    refine Code.orderly_of_calm ?_ ?_ ?_
    · simpa [started] using Instruction.calm_of_dest (Operand.isZero_named _ _ _)
    · simp only [started, List.forall_mem_cons, List.not_mem_nil, false_implies, implies_true,
        and_true]
      exact .of_named rfl (by decide) (by simp [preloadCallStack, callStackPointer])
    · simp [started, preloadCallStack, Instruction.copy, Label.offsets]
  trailers := by simp [started, Session.new]
  subroutines := by simp [started, Session.new, Scope.frame?]
  preamble := Code.orderly_nil _

/-- The program without errors is orderly at the end, and the program counter is still the first
cell. -/
theorem orderly_compiled {settings : Settings} {source : String}
    (hc : (compiled settings source).bench.Clean)
    (hdest : ∀ a ∈ destinations settings source, a.isZero = false)
    (hcells : (compiled settings source).bench.globals.nextFree ≤ 4294967296) :
    (compiled settings source).Orderly ∧
      (compiled settings source).bench.globals.cells[0]? = some programCounterName := by
  have hfirst : ∀ a ∈ Statement.destinations (Lexer.tokenize source).1.length
      (started settings source), a.isZero = false := fun a ha => hdest a (List.mem_append_left _ ha)
  have hlinked := linked_started settings source
  have hfine := fine_started settings source
  obtain ⟨s, hs, hcalls, ⟨hl, -, horderly⟩, hcompiled⟩ := compiled_induction
    (P := fun s => s.Linked ∧ (∀ a ∈ callDestinations s.calls s, a.isZero = false) ∧
      (s.bench.globals.nextFree ≤ 4294967296 → s.Orderly)) hc
    (fun hclean _ => ⟨hlinked.compileAll _ hfine hclean,
      fun a ha => hdest a (List.mem_append_right _ ha), fun hcells =>
        (orderly_started settings source).compileAll _ hlinked hfine hclean hcells hfirst⟩)
    (fun s c calls hs hcalls h => by
      obtain ⟨hl, hdest, horderly⟩ := h
      rw [hcalls, callDestinations] at hdest
      refine ⟨hl.expand hs hcalls, fun a ha => hdest a (List.mem_append_right _ ha),
        fun hcells => ?_⟩
      obtain ⟨hsane, hg⟩ := (Call.compiles_compile s.scope c s.bench).grows hs.sane
      exact (horderly (hg.globals.cells.nextFree_le.trans hcells)).expand hl hs hcalls
        (hsane.offCounter hcells) fun a ha =>
          hdest a (List.mem_append_left _ (Option.mem_toList.mpr ha)))
  have hextends : s.bench.globals.Extends (declareCallStack.on s).2.bench.globals :=
    SymbolTable.extends_declareArray _ _ _ _
  rw [hcompiled] at hcells ⊢
  obtain ⟨h1, h2, h3, h4⟩ := horderly (hextends.nextFree_le.trans hcells)
  exact ⟨⟨h1, h2, h3, h4⟩, hextends.getElem?_eq_some hs.sane.counter⟩

section

variable {i : Instruction}

lemma operand_of_isZero {a : Operand} (h : a.isZero = true) : s.resolver.operand a = a := by
  rcases a with ⟨mode, n | ref⟩
  · rfl
  · cases mode <;> simp [Operand.isZero, Operand.constant?, Value.number?] at h

lemma Complete.jump_of_resolved (h : s.Complete)
    (hcounter : s.bench.globals.cells[0]? = some programCounterName) (hi : i ∈ s.joined)
    (hp : i.Proper) (hjump : (i.mapOperands s.resolver.operand).writesProgramCounter = true) :
    i.writesProgramCounter = true := by
  simp only [Instruction.writesProgramCounter, Bool.and_eq_true, Bool.not_eq_true'] at hjump ⊢
  obtain ⟨hnop, hzero⟩ := hjump
  constructor
  · by_contra hnop'
    simp only [Instruction.isNop, Bool.not_eq_false, Bool.and_eq_true] at hnop'
    obtain ⟨⟨⟨hop, hlhs⟩, hrhs⟩, hdest⟩ := hnop'
    simp [Instruction.isNop, Instruction.mapOperands, operand_of_isZero hlhs,
      operand_of_isZero hrhs, operand_of_isZero hdest, hop, hlhs, hrhs, hdest] at hnop
  · have hvalue : (s.resolver.operand i.dest).isZero = true := hzero
    rcases hd : i.dest with ⟨mode, n | ref⟩
    · rw [hd] at hvalue
      exact hvalue
    · obtain ⟨name, rfl, hname⟩ := hp.dest ref (by rw [hd])
      have href : ⟨.cell name, 0⟩ ∈ Code.refs s.joined :=
        Code.mem_refs.mpr ⟨i, hi, Instruction.mem_refs.mpr (.inr (.inr (by rw [hd]; rfl)))⟩
      have hknows : s.Knows (.cell name) := h.knows_of_mem href
      obtain ⟨n, hn⟩ := h.lookup_cell hknows
      have hne : n ≠ 0 := by
        rintro rfl
        have hcell := SymbolTable.getElem?_of_address? hn
        exact hname (Option.some.inj (hcell.symm.trans hcounter))
      rw [hd, operand_of_base? (s := s) (show s.resolver.base? (.cell name) = some n from hn)]
        at hvalue
      cases mode with
      | constant =>
        have hne' : (n : Int) + 0 ≠ 0 := by omega
        rw [Operand.isZero_known hne'] at hvalue
        simp at hvalue
      | address | deref | doubleDeref => simp [Operand.isZero, Operand.constant?] at hvalue

end

/-- The jump `i` at `k` of the resolved program is that of a copy of the code that ends a
subroutine, and goes to the place that the first cell of the active frame holds. -/
def LeavesAt (s : Session) (k : Nat) (i : Instruction) : Prop :=
  ∃ name frame, ∃ n : Nat, s.scope.frame? name = some frame ∧
    s.bench.globals.address? name = some n ∧ Numeral.Fits32 n ∧ i.rhs = ⟨.deref, .known n⟩ ∧
    ∃ x y, (s.resolver.code s.joined).map Instruction.untagged =
      x ++ s.resolver.code frame.epilogue ++ y ∧ k = x.length + 2

lemma Complete.leaves (h : s.Complete) (hcells : s.bench.globals.nextFree ≤ 2147483648) {k : Nat}
    {i : Instruction} (hi : s.joined[k]? = some i) (hreturns : s.joined.ReturnsAt s.Returns k) :
    s.LeavesAt k (i.mapOperands s.resolver.operand) := by
  obtain ⟨c, x, y, ⟨name, frame, hframe, rfl⟩, hsplit, hk⟩ := hreturns
  obtain ⟨temp, -, hepilogue⟩ := (h.linked.sound name frame hframe).epilogue
  obtain ⟨n, hn⟩ := h.lookup_cell (.inr (h.linked.frames name frame hframe).1)
  have hrhs : i.rhs = .named .deref name := by
    have huntagged : (s.joined.map Instruction.untagged)[k]? = some i.untagged := by
      rw [List.getElem?_map, hi]
      rfl
    rw [hsplit, hepilogue, hk, List.append_assoc, List.getElem?_append_right (Nat.le_add_right _ _),
      Nat.add_sub_cancel_left] at huntagged
    exact (congrArg Instruction.rhs (Option.some.inj huntagged)).symm
  have hlt := SymbolTable.lt_nextFree_of_address? hn
  refine ⟨name, frame, n, hframe, hn, by constructor <;> omega, ?_, s.resolver.code x,
    s.resolver.code y, ?_, ?_⟩
  · show s.resolver.operand i.rhs = _
    rw [hrhs, Operand.named, operand_of_base? (show s.resolver.base? (.cell name) = some n from hn),
      Int.add_zero]
  · have hcomm : (s.resolver.code s.joined).map Instruction.untagged =
        s.resolver.code (s.joined.map Instruction.untagged) := by
      rw [Resolver.code, Resolver.code, List.map_map, List.map_map]
      rfl
    rw [hcomm, hsplit, Resolver.code, Resolver.code, Resolver.code, List.map_append,
      List.map_append]
    rfl
  · rw [hk, Resolver.code, List.length_map]

lemma Complete.landing (h : s.Complete) (ho : s.joined.Orderly s.Returns) {i : Instruction}
    (hi : i ∈ s.joined) {a : Operand} (ha : a ∈ i.operands) {l : Label} {offset : Int}
    (hvalue : a.value = .symbolic ⟨.label l, offset⟩) :
    ∃ v : Nat, s.resolver.landing? a = some v ∧ v ∈ s.resolver.landings s.joined ∧
      s.resolver.operand a = ⟨a.mode, .known v⟩ ∧ s.joined.Lands v := by
  have href : ⟨.label l, offset⟩ ∈ i.refs := List.mem_filterMap.mpr ⟨a, ha, by rw [hvalue]; rfl⟩
  obtain ⟨k, hk, hcarried⟩ := h.lookup_label (h.knows_of_mem (Code.mem_refs.mpr ⟨i, hi, href⟩))
  obtain ⟨i', hi', hl⟩ := (hcarried k).mpr rfl
  obtain ⟨v, hv, hle, hcalm⟩ :=
    ho.lands k i' l offset hi' hl ((ho.proper i hi).labels l offset href)
  have hnumber : s.resolver.number? ⟨.label l, offset⟩ = some (Int.ofNat v) := by
    simp [Resolver.number?, hk, hv]
  have hlanding : s.resolver.landing? a = some v := by simp [Resolver.landing?, hvalue, hnumber]
  refine ⟨v, hlanding, List.mem_flatMap.mpr ⟨i, hi, List.mem_filterMap.mpr ⟨a, ha, hlanding⟩⟩, ?_,
    v, rfl, hle, hcalm⟩
  simp [Resolver.operand, hvalue, hnumber]

/-- In a program that has no errors and writes the program counter in no assignment, every jump has
a delay slot that is no jump, and goes to a landing place or returns from a subroutine. Calls leave
landing places at the start of the frame, and no landing place is a delay slot. The program has at
most `2^31` cells and fewer than `2^31` instructions, so that the numbers in its jumps fit in 32
bits. -/
theorem jumps_land (settings : Settings) (source : String)
    (hc : ∀ d ∈ (compiled settings source).bench.diagnostics, d.isError = false)
    (hdest : ∀ a ∈ destinations settings source, a.isZero = false)
    (hcells : (compiled settings source).bench.globals.nextFree ≤ 2147483648)
    (hlength : (compiled settings source).joined.length < 2147483648) :
    let s := compiled settings source
    let code := s.resolver.code s.joined
    let landings := s.resolver.landings s.joined
    (∀ (k : Nat) (i : Instruction), code[k]? = some i → i.writesProgramCounter = true →
      (∃ j, code[k + 1]? = some j ∧ j.writesProgramCounter = false) ∧
      ((∃ v ∈ landings, i.rhs = .constant v) ∨ s.LeavesAt k i)) ∧
    (∀ name frame, s.scope.frame? name = some frame → ∀ i ∈ s.joined, i.dest = frame.base →
      ∃ v ∈ landings, s.resolver.operand i.rhs = .constant v) ∧
    ∀ v ∈ landings, Numeral.Fits32 v ∧ v ≤ code.length ∧
      ∀ (k : Nat) (i : Instruction), v = k + 1 → code[k]? = some i →
      i.writesProgramCounter = false := by
  have h := complete_compiled hc
  obtain ⟨horderly, hcounter⟩ := orderly_compiled hc hdest (hcells.trans (by decide))
  generalize compiled settings source = s at h horderly hcounter hcells hlength
  intro s' code landings
  have ho : s.joined.Orderly s.Returns := by
    have hprogram := horderly.program
    rw [h.calls] at hprogram
    exact horderly.preamble.append hprogram
  have hget : ∀ {k : Nat} {i : Instruction}, code[k]? = some i →
      ∃ i', s.joined[k]? = some i' ∧ i'.mapOperands s.resolver.operand = i := fun hi => by
    rwa [show code = s.joined.map _ from rfl, List.getElem?_map, Option.map_eq_some_iff] at hi
  have hjump : ∀ {k : Nat} {i : Instruction}, s.joined[k]? = some i →
      (i.mapOperands s.resolver.operand).writesProgramCounter = true →
      i.writesProgramCounter = true := fun hi hw =>
    h.jump_of_resolved hcounter (List.mem_of_getElem? hi) (ho.proper _ (List.mem_of_getElem? hi)) hw
  have hcalm : ∀ {k : Nat} {i : Instruction}, s.joined[k]? = some i → i.Calm →
      (i.mapOperands s.resolver.operand).writesProgramCounter = false := fun hi hi' => by
    by_contra hw
    have := hjump hi (by simpa using hw)
    rw [hi'] at this
    simp at this
  refine ⟨fun k i hresolved hw => ?_, fun name frame hframe i hi hd => ?_, fun v hv => ?_⟩
  · obtain ⟨i, hi, rfl⟩ := hget hresolved
    refine ⟨?_, ?_⟩
    · obtain ⟨j, hj, hj'⟩ := ho.slots k i hi (hjump hi hw)
      refine ⟨_, ?_, hcalm hj hj'⟩
      rw [show code = s.joined.map _ from rfl, List.getElem?_map, hj]
      rfl
    · rcases ho.jumps k i hi (hjump hi hw) with ⟨l, offset, hrhs⟩ | hreturns
      · obtain ⟨v, -, hv, hoperand, -⟩ := h.landing ho (List.mem_of_getElem? hi) (a := i.rhs)
          (by simp [Instruction.operands]) (by rw [hrhs]; rfl)
        refine .inl ⟨v, hv, ?_⟩
        rw [hrhs] at hoperand
        rw [show (i.mapOperands s.resolver.operand).rhs = s.resolver.operand i.rhs from rfl, hrhs]
        exact hoperand
      · exact .inr (h.leaves hcells hi hreturns)
  · obtain ⟨hfree, -⟩ := horderly.subroutines name frame hframe
    have hname : frame.name = name := (h.linked.sound name frame hframe).name_eq
    rcases (ho.proper i hi).back frame.name hd with hcall | ⟨id, hrhs⟩
    · exact absurd (hname.symm.trans hcall) (ne_callStackName hfree)
    · obtain ⟨v, -, hv, hoperand, -⟩ := h.landing ho hi (a := i.rhs)
        (by simp [Instruction.operands]) (by rw [hrhs]; rfl)
      refine ⟨v, hv, ?_⟩
      rw [hrhs] at hoperand ⊢
      exact hoperand
  · obtain ⟨i, hi, hv⟩ := List.mem_flatMap.mp hv
    obtain ⟨a, ha, hv⟩ := List.mem_filterMap.mp hv
    obtain ⟨l, offset, hvalue⟩ : ∃ l offset, a.value = .symbolic ⟨.label l, offset⟩ := by
      rcases a with ⟨mode, n | ⟨name | ⟨owner, name⟩ | l, offset⟩⟩ <;>
        simp [Resolver.landing?] at hv ⊢
    obtain ⟨v', hv', -, -, n, hn, hle, hbefore⟩ := h.landing ho hi ha hvalue
    obtain rfl := Option.some.inj (hv'.symm.trans hv)
    obtain rfl := Int.ofNat.inj hn
    refine ⟨by constructor <;> omega, by simpa [code, Resolver.code] using hle,
      fun k i hk hresolved => ?_⟩
    obtain ⟨i, hi, rfl⟩ := hget hresolved
    exact hcalm hi (hbefore k i hk hi)

/-- A subroutine with an early return and a product, and a call of it. -/
def earlyReturn : String :=
  "my r; sub f(n) \x7b if (n == 0) \x7b return; \x7d n *= 3; \x7d call r = f(2).n;"

/-- The places where control goes on are the end of the branch, the end of the subroutine, the two
places in the product, the place after the call and the start of the subroutine. -/
theorem jumps_land_earlyReturn :
    (∀ d ∈ (compiled {} earlyReturn).bench.diagnostics, d.isError = false) ∧
    (∀ a ∈ destinations {} earlyReturn, a.isZero = false) ∧
    (compiled {} earlyReturn).bench.globals.nextFree ≤ 2147483648 ∧
    (compiled {} earlyReturn).joined.length < 2147483648 ∧
    (compiled {} earlyReturn).resolver.landings (compiled {} earlyReturn).joined =
      [25, 10, 19, 19, 18, 34, 3] ∧
    ∀ v ∈ ([25, 10, 19, 19, 18, 34, 3] : List Nat), Numeral.Fits32 v ∧
      v ≤ ((compiled {} earlyReturn).resolver.code (compiled {} earlyReturn).joined).length ∧
      ∀ (k : Nat) (i : Instruction), v = k + 1 →
        ((compiled {} earlyReturn).resolver.code (compiled {} earlyReturn).joined)[k]? = some i →
        i.writesProgramCounter = false := by
  have hall : (∀ d ∈ (compiled {} earlyReturn).bench.diagnostics, d.isError = false) ∧
      (∀ a ∈ destinations {} earlyReturn, a.isZero = false) ∧
      (compiled {} earlyReturn).bench.globals.nextFree ≤ 2147483648 ∧
      (compiled {} earlyReturn).joined.length < 2147483648 ∧
      (compiled {} earlyReturn).resolver.landings (compiled {} earlyReturn).joined =
        [25, 10, 19, 19, 18, 34, 3] := by decide +kernel
  obtain ⟨hclean, hdest, hcells, hlength, hlandings⟩ := hall
  refine ⟨hclean, hdest, hcells, hlength, hlandings, ?_⟩
  rw [← hlandings]
  exact (jumps_land {} earlyReturn hclean hdest hcells hlength).2.2

/-- A program whose array takes all cells that 32 bits can tell apart. -/
def overfull : String := "my p[4294967293]; p[display] = 5;"

/-- The code of the assignment `p[display] = 5` when the next cell is the first one that 32 bits
cannot tell apart from the program counter. -/
def overfullCode : Code :=
  elementCode 4294967296 ++ [.copy (.constant 5) ⟨.address, .known 0⟩]

lemma Crowded.lower_overfull {b : Workbench}
    (h : Crowded 4294967296 ["p", "[", "display", "]", "=", "5", ";"] b) : ∃ b',
    Yields (Assignment.lower {}) b overfullCode b' ∧ b'.tokens = [] ∧
      b'.diagnostics = b.diagnostics := by
  obtain ⟨b₁, hyields, -, htokens, hdiagnostics⟩ := h.yields
  have hdest : ((Backed.through 4294967296).withMode .address).toOperand =
      ⟨.address, .known 0⟩ := by
    decide +kernel
  have hfive : Yields (reference {} .source) { b₁ with tokens := ["5", ";"] } (.constant 5, [])
      { b₁ with tokens := [";"] } := yields_numeral {} rfl (by decide) (by decide +kernel)
  have hpop : Work.pop.on b₁ = ("=", { b₁ with tokens := ["5", ";"] }) := by
    rw [on_pop, htokens]
    rfl
  refine ⟨{ b₁ with tokens := [] }, ?_, rfl, hdiagnostics⟩
  rw [Assignment.lower_eq]
  simp only [yields_bind, yields_lift]
  refine ⟨_, b₁, hyields, (), b₁, by rw [hdest]; rfl, "=", _, hpop, ?_⟩
  simp only [Assignment.afterOperator, if_true, yields_bind, yields_lift]
  refine ⟨_, _, hfive, _, _, rfl, _, _, rfl, ?_⟩
  rw [hdest]
  rfl

lemma Crowded.compile_overfull {s : Session} (hscope : s.scope = {})
    (h : Crowded 4294967296 ["p", "[", "display", "]", "=", "5", ";"] (rested s).bench) :
    destination? s = some ⟨.address, .known 0⟩ ∧ ∃ b, (Statement.compile.on s).2 =
      { s with bench := b, program := s.program ++ overfullCode } ∧
      b.tokens = [] ∧ b.diagnostics = s.bench.diagnostics := by
  have htokens : s.bench.tokens = _ := h.tokens
  have hrested : (rested s).scope = {} := hscope
  obtain ⟨b₁, hyields, -⟩ := h.yields
  obtain ⟨b, hlower, hend, hdiagnostics⟩ := h.lower_overfull
  refine ⟨?_, b, ?_, hend, hdiagnostics⟩
  · rw [destination?, if_pos (by rw [htokens]; rfl), hscope, hyields]
    exact congrArg some (by decide +kernel)
  · rw [Statement.on_compile, htokens]
    have hattempt : (Assignment.lower (rested s).scope).on (rested s).bench =
        (some overfullCode, b) := by
      rw [hrested]
      exact hlower
    change (assignment.on (rested s)).2 = _
    simp only [assignment, Build.on_bind, Build.on_get, on_attempt, hattempt]
    rfl

lemma after_eq_of_nil {settings : Settings} {source : String} {k : Nat}
    (h : (after settings source k).bench.tokens = []) {n : Nat} (hn : k ≤ n) :
    after settings source n = after settings source k := by
  induction n, hn using Nat.le_induction with
  | base => rfl
  | succ n hn ih =>
    rw [after_succ, ih, h]
    rfl

lemma exists_stated_overfull {source : String} {size : Token}
    (hsize : Numeral.size? size = some 4294967293)
    (htokens : Lexer.tokenize source = ("my" :: "p" :: "[" :: size :: "]" :: ";" ::
      ["p", "[", "display", "]", "=", "5", ";"], [])) :
    destinations bare source = [⟨.address, .known 0⟩] ∧ ∃ b : Workbench, b.diagnostics = [] ∧
    stated bare source = { started bare source with
      bench := b
      preamble := [.copy (.constant 3) (.cellDest 2)]
      program := preloadCallStack :: overfullCode } := by
  have hstart : (started bare source).bench.tokens = _ := congrArg Prod.fst htokens
  have hglobals : (started bare source).bench.globals = (new bare).bench.globals := rfl
  have hone : after bare source 1 = _ := after_one (by simp [htokens]) bare
  have harray := on_compile_array hsize hstart (by rw [hglobals]; decide +kernel)
  obtain ⟨hdest, b, htwo, hend, hdiagnostics⟩ :=
    Crowded.compile_overfull (by rw [hone, harray]; rfl)
      (crowded_after hsize (congrArg Prod.fst htokens))
  have hpending : (after bare source 1).bench.tokens =
      ["p", "[", "display", "]", "=", "5", ";"] := by
    rw [hone, harray]
  have hdone : after bare source 2 = { started bare source with
      bench := b
      preamble := [.copy (.constant 3) (.cellDest 2)]
      program := preloadCallStack :: overfullCode } := by
    have hfree : (new bare).bench.globals.nextFree = 2 := by decide +kernel
    have hbase : Numeral.wrap32 (((2 : Nat) : Int) + 1) = 3 := by decide
    rw [after_succ, if_neg (by simp [hpending]), htwo, hone, harray, hglobals, hfree, hbase]
    rfl
  have hstated : stated bare source = after bare source 2 :=
    after_eq_of_nil (by rw [hdone]; exact hend) (by simp [htokens])
  have hquiet : b.diagnostics = [] := by
    rw [hdiagnostics, hone, harray]
    exact congrArg Prod.snd htokens
  refine ⟨?_, b, hquiet, hstated.trans hdone⟩
  have hcalls : (stated bare source).calls = [] := by rw [hstated, hdone]; rfl
  rw [destinations, hcalls, callDestinations, List.append_nil, htokens]
  have hlast : ∀ n, Statement.destinations n (Statement.compile.on (after bare source 1)).2 =
      [] := by
    intro n
    cases n with
    | zero => rfl
    | succ n => rw [htwo, Statement.destinations, hend]; rfl
  have hfirst : destination? (started bare source) = none := by
    rw [destination?, hstart]
    rfl
  change Statement.destinations (11 + 1 + 1) _ = _
  rw [Statement.destinations, if_neg (by simp [hstart]), hfirst, ← hone, Statement.destinations,
    if_neg (by simp [hpending]), hdest, hlast]
  rfl

/-- With `2^32` cells before it, a scratch cell is written as the program counter is: a program
without errors in which no destination is the program counter then has a jump that neither goes to a
landing place nor returns. -/
theorem counter_without_place :
    (∀ d ∈ (compiled bare overfull).bench.diagnostics, d.isError = false) ∧
    (∀ a ∈ destinations bare overfull, a.isZero = false) ∧
    ∃ (k : Nat) (i : Instruction),
      ((compiled bare overfull).resolver.code (compiled bare overfull).joined)[k]? = some i ∧
      i.writesProgramCounter = true ∧
      (¬ ∃ v ∈ (compiled bare overfull).resolver.landings (compiled bare overfull).joined,
        i.rhs = .constant v) ∧
      ¬ (compiled bare overfull).LeavesAt k i := by
  have htokens : Lexer.tokenize overfull = ("my" :: "p" :: "[" :: "4294967293" :: "]" :: ";" ::
      ["p", "[", "display", "]", "=", "5", ";"], []) := by decide +kernel
  obtain ⟨hdest, b, hquiet, hstated⟩ := exists_stated_overfull (by decide +kernel) htokens
  have hcompiled := compiled_eq bare overfull
  rw [hstated] at hcompiled
  have hblocks : (started bare overfull).blocks = [] := rfl
  have hcalls : (started bare overfull).calls = [] := rfl
  generalize started bare overfull = s at hcompiled hblocks hcalls
  obtain ⟨hjoined, hdiagnostics⟩ : (compiled bare overfull).joined =
        .copy (.constant 3) (.cellDest 2) :: preloadCallStack :: overfullCode ∧
      (compiled bare overfull).bench.diagnostics = [] := by
    rw [hcompiled]
    simp [reportOpenBlocks, compileCalls, declareCallStack, joined, hblocks, hcalls, hquiet]
  rw [hjoined, hdiagnostics, hdest]
  refine ⟨by simp, by simp [Operand.isZero, Operand.constant?], 2,
    { opcode := .add, lhs := .constant 3, rhs := .cell 1, dest := .cellDest 4294967296 }, rfl,
    by decide +kernel, ?_, ?_⟩
  · rintro ⟨v, -, hv⟩
    have hmode : Mode.address = Mode.constant := congrArg Operand.mode hv
    exact absurd hmode (by decide)
  · rintro ⟨name, frame, n, -, -, -, hrhs, -⟩
    have hmode : Mode.address = Mode.deref := congrArg Operand.mode hrhs
    exact absurd hmode (by decide)

end Session
end CogolToolchain
