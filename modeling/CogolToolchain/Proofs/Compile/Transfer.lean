import CogolToolchain.Proofs.Compile.Flow

/-!
Calls and returns in a finished program, one at a time.

A call goes through to the body of its subroutine and leaves in the new frame what the return needs
(`Session.Laid.leads`). A return goes to the place that it finds in the frame and makes the frame of
the caller the active one again (`Session.Ends.leads`).
-/

namespace CogolToolchain

open Memory Machine Work Attempt

lemma Word.toNat_ofNat_of_lt {a : Nat} (h : a < 65536) : (UInt16.ofNat a).toNat = a := by
  simpa using h

namespace Session

open Statement Build

lemma word_named {s : Session} {name : String} {n : Nat}
    (h : s.bench.globals.address? name = some n) (mode : Mode) :
    s.resolver.word (.named mode name) = ⟨mode, UInt16.ofNat n⟩ :=
  Resolver.word_of_base? h

def callCell (settings : Settings) (source : String) : Word :=
  UInt16.ofNat (((compiled settings source).bench.globals.address? callStackName).getD 0)

def pointerCell (settings : Settings) (source name : String) : Word :=
  UInt16.ofNat (((compiled settings source).bench.globals.address? name).getD 0)

/-- The instructions and the cells of the program have numbers that fit into words, and the frame
pointers of the subroutines are in front of the call stack. -/
structure FitsMachine (settings : Settings) (source : String) : Prop where
  length : (compiled settings source).joined.length < 65536
  callStack : ∀ call, (compiled settings source).bench.globals.address? callStackName = some call →
    call < 65536
  below : ∀ name own call, ((compiled settings source).scope.frame? name).isSome →
    (compiled settings source).bench.globals.address? name = some own →
    (compiled settings source).bench.globals.address? callStackName = some call → own < call

/-! ### The cells of the machine -/

section Cells

variable {settings : Settings} {source name : String} {frame : Frame}
  (hc : (compiled settings source).bench.Clean) (hfits : FitsMachine settings source)

lemma address?_callStack (settings : Settings) (source : String) :
    (compiled settings source).bench.globals.address? callStackName =
      some (expanded settings source).bench.globals.nextFree := by
  rw [compiled_eq_expanded]
  exact SymbolTable.address?_declareArray _ _ _ _

include hc in
lemma fine_expanded : (expanded settings source).Fine :=
  (expanded_induction (P := fun _ => True) (clean_expanded hc) (fun _ _ => trivial)
    fun _ _ _ _ _ _ => trivial).1

include hfits in
lemma toNat_callCell : (callCell settings source).toNat =
    (expanded settings source).bench.globals.nextFree := by
  have hsmall := hfits.callStack _ (address?_callStack settings source)
  rw [callCell, address?_callStack, Option.getD_some]
  exact Word.toNat_ofNat_of_lt hsmall

include hc

lemma exists_pointerCell (hframe : (compiled settings source).scope.frame? name = some frame) :
    ∃ own, (compiled settings source).bench.globals.address? name = some own ∧
      pointerCell settings source name = UInt16.ofNat own := by
  have hcomplete := complete_compiled hc
  obtain ⟨own, hown⟩ := hcomplete.lookup_cell (.inr (hcomplete.linked.frames _ _ hframe).1)
  exact ⟨own, hown, by rw [pointerCell, hown, Option.getD_some]⟩

include hfits

lemma scratch_lt {t : Nat} (ht : t ∈ (compiled settings source).bench.scratch.addresses) :
    2 ≤ t ∧ t < (callCell settings source).toNat := by
  rw [scratch_compiled] at ht
  have hsane := (fine_expanded hc).sane
  rw [toNat_callCell hfits]
  exact ⟨hsane.two_le ht, hsane.lt_nextFree ht⟩

lemma fits_compiled :
    (compiled settings source).bench.scratch.Fits
      (compiled settings source).bench.scratch.hidden where
  zero := .inl rfl
  scratch t ht := .inr ⟨t, ht, rfl⟩
  small t ht := by
    have := scratch_lt hc hfits ht
    have := (callCell settings source).toNat_lt
    omega

lemma callCell_pos : 0 < (callCell settings source).toNat := by
  have hcounter := (fine_expanded hc).sane.counter
  rw [toNat_callCell hfits]
  exact (Array.getElem?_eq_some_iff.mp hcounter).1

lemma hidden_lt {w : Word} (hw : w ∈ (compiled settings source).bench.scratch.hidden) :
    w.toNat < (callCell settings source).toNat := by
  rcases hw with rfl | ⟨t, ht, rfl⟩
  · exact callCell_pos hc hfits
  · have := scratch_lt hc hfits ht
    have := (callCell settings source).toNat_lt
    rw [Word.toNat_ofNat_of_lt (by omega)]
    omega

lemma callCell_notMem_hidden : callCell settings source ∉
    (compiled settings source).bench.scratch.hidden :=
  fun h => Nat.lt_irrefl _ (hidden_lt hc hfits h)

lemma pointerCell_lt (hframe : (compiled settings source).scope.frame? name = some frame) :
    (pointerCell settings source name).toNat < (callCell settings source).toNat ∧
      pointerCell settings source name ∉ (compiled settings source).bench.scratch.hidden := by
  obtain ⟨own, hown, hcell⟩ := exists_pointerCell hc hframe
  have hlt := hfits.below name own _ (by rw [hframe]; rfl) hown (address?_callStack settings source)
  have hcall := toNat_callCell hfits
  have hsmall := (callCell settings source).toNat_lt
  have htoNat : (pointerCell settings source name).toNat = own := by
    rw [hcell, Word.toNat_ofNat_of_lt (by omega)]
  refine ⟨by omega, fun hmem => ?_⟩
  obtain ⟨-, -, hfree⟩ := (complete_compiled hc).linked.frames name frame hframe
  have hname := SymbolTable.getElem?_of_address? hown
  have hsane := (fine_expanded hc).sane
  have hextends : (expanded settings source).bench.globals.Extends
      (compiled settings source).bench.globals := by
    rw [compiled_eq_expanded]
    exact SymbolTable.extends_declareArray _ _ _ _
  rcases hmem with h0 | ⟨t, ht, heq⟩
  · have hzero : own = 0 := by rw [← htoNat, h0]; rfl
    rw [hzero, hextends.getElem?_eq_some hsane.counter] at hname
    exact ne_programCounterName hfree (Option.some.inj hname).symm
  · have hsame : own = t := by
      have := scratch_lt hc hfits ht
      rw [← htoNat, heq, Word.toNat_ofNat_of_lt (by omega)]
    rw [scratch_compiled, hsane.mem_addresses_iff] at ht
    obtain ⟨n, hn⟩ := ht
    rw [hsame, hextends.getElem?_eq_some hn] at hname
    exact ne_scratchName hfree n (Option.some.inj hname).symm

lemma pointerCell_inj {name' : String} {frame' : Frame}
    (hframe : (compiled settings source).scope.frame? name = some frame)
    (hframe' : (compiled settings source).scope.frame? name' = some frame')
    (heq : pointerCell settings source name = pointerCell settings source name') :
    name = name' := by
  obtain ⟨own, hown, hcell⟩ := exists_pointerCell hc hframe
  obtain ⟨own', hown', hcell'⟩ := exists_pointerCell hc hframe'
  have hcall := toNat_callCell hfits
  have hsmall := (callCell settings source).toNat_lt
  have hlt := hfits.below name own _ (by rw [hframe]; rfl) hown (address?_callStack settings source)
  have hlt' := hfits.below name' own' _ (by rw [hframe']; rfl)
    hown' (address?_callStack settings source)
  rw [hcell, hcell'] at heq
  obtain rfl := Word.ofNat_inj (by omega) (by omega) heq
  exact Option.some.inj ((SymbolTable.getElem?_of_address? hown).symm.trans
    (SymbolTable.getElem?_of_address? hown'))

omit hfits in
lemma word_pointer (hframe : (compiled settings source).scope.frame? name = some frame)
    (mode : Mode) : (compiled settings source).resolver.word (.named mode name) =
      ⟨mode, pointerCell settings source name⟩ := by
  obtain ⟨own, hown, hcell⟩ := exists_pointerCell hc hframe
  rw [word_named hown, hcell]

omit hc hfits in
lemma word_callStack (settings : Settings) (source : String) (mode : Mode) :
    (compiled settings source).resolver.word (.named mode callStackName) =
      ⟨mode, callCell settings source⟩ := by
  rw [word_named (address?_callStack settings source), callCell, address?_callStack,
    Option.getD_some]

lemma ground {top : Word} (hframe : (compiled settings source).scope.frame? name = some frame)
    (hroom : ∀ i < frame.size, frameCell top i ∉ (compiled settings source).bench.scratch.hidden ∧
      frameCell top i ≠ callCell settings source ∧
      frameCell top i ≠ pointerCell settings source name) :
    Call.Ground (compiled settings source).bench.scratch.hidden (compiled settings source).resolver
      frame (callCell settings source) (pointerCell settings source name) top := by
  obtain ⟨hlt, hnot⟩ := pointerCell_lt hc hfits hframe
  have hname := ((complete_compiled hc).linked.sound name frame hframe).name_eq
  refine ⟨.inl rfl, word_callStack settings source, fun mode => ?_, callCell_notMem_hidden hc hfits,
    hnot, ?_, hroom⟩
  · rw [hname, word_pointer hc hframe]
  · intro heq
    rw [heq] at hlt
    exact Nat.lt_irrefl _ hlt

end Cells

end Session

/-! ### Returns -/

/-- The code that ends a subroutine goes to the place that the frame at `top` holds in its first
cell, and makes the frame active that it holds in the next one. -/
lemma Statement.leads_epilogueCode {r : Resolver} {prog : List WordInstruction} {k temp : Nat}
    {name : String} {call own t top : Word} {m : Memory}
    (hst : r.Stands prog k (epilogueCode name temp))
    (hcall : ∀ mode, r.word (.named mode callStackName) = ⟨mode, call⟩)
    (hown : ∀ mode, r.word (.named mode name) = ⟨mode, own⟩) (ht : UInt16.ofNat temp = t)
    (hzero : call ≠ 0 ∧ own ≠ 0 ∧ t ≠ 0) (hne : call ≠ own ∧ call ≠ t ∧ own ≠ t)
    (htop : m.read own = top)
    (hcells : ∀ i < 2, frameCell top i ≠ 0 ∧ frameCell top i ≠ call ∧ frameCell top i ≠ t)
    (d : Array Word) :
    ∃ m' d', Leads prog 4 ⟨k, m, d⟩ ⟨(m.read (frameCell top 0)).toNat, m', d'⟩ ∧
      m'.read call = top ∧ m'.read own = m.read (frameCell top 1) ∧
      EqOff {0, call, own, t} m m' := by
  obtain ⟨hcall0, hown0, ht0⟩ := hzero
  obtain ⟨hcallOwn, hcallT, hownT⟩ := hne
  obtain ⟨⟨hi₁, -⟩, hst⟩ := r.stands_cons.mp hst
  obtain ⟨⟨hi₂, -⟩, hst⟩ := r.stands_cons.mp hst
  obtain ⟨⟨hi₃, -⟩, hst⟩ := r.stands_cons.mp hst
  obtain ⟨⟨hi₄, -⟩, -⟩ := r.stands_cons.mp hst
  have hpointer : r.word callStackPointer = ⟨.constant, call⟩ := hcall .constant
  simp only [Instruction.copy, Instruction.jump, hpointer, hown, ht, r.word_constant,
    r.word_cellDest, r.word_through, r.word_programCounter] at hi₁ hi₂ hi₃ hi₄
  have hbase : frameCell top 0 = top := by simp [frameCell]
  -- the call stack pointer goes back to the frame
  obtain ⟨m₁, d₁, hleads₁, hread₁, heq₁⟩ := Leads.of_copy (m := m) hi₁ (Set.mem_singleton 0)
    (shows_constant m _ call) (by simp) hcall0 d
  have hcall₁ : m₁.read call = top := by
    rw [hread₁, eval_address, Memory.arrive, read_write_ne _ _ hown0.symm, htop]
  -- the address of the cell with the caller's frame
  have hown₁ : m₁.read own = top := by rw [heq₁ own (by simp [hown0, hcallOwn.symm]), htop]
  obtain ⟨m₂, d₂, hleads₂, hread₂, heq₂⟩ := Leads.of_move (m := m₁) (c := t)
    (w := frameCell top 1) hi₂ (by simpa [WordInstruction.reads] using hown0.symm)
    (by rw [eval_address, hown₁, frameCell, add_comm]; rfl) rfl ht0 d₁
  have hkeep : ∀ c, c ≠ 0 → c ≠ call → c ≠ t → m₂.read c = m.read c := fun c h0 hcall ht => by
    rw [heq₂ c (by simp [h0, ht]), heq₁ c (by simp [h0, hcall])]
  have hown₂ : m₂.read own = top := by rw [hkeep own hown0 hcallOwn.symm hownT, htop]
  obtain ⟨hland0, hlandCall, hlandT⟩ := hcells 0 (by omega)
  obtain ⟨hprev0, hprevCall, hprevT⟩ := hcells 1 (by omega)
  -- the jump, and the frame pointer in its delay slot
  have harrive : ∀ (m : Memory) (k : Nat) {c : Word}, c ≠ 0 → (m.arrive k).read c = m.read c :=
    fun m k c hc => read_write_ne _ _ hc.symm
  have htarget : (m₂.arrive (k + 1 + 1)).eval ⟨.deref, own⟩ = m.read (frameCell top 0) := by
    rw [hbase] at hland0 hlandCall hlandT ⊢
    rw [eval_deref, harrive _ _ hown0, hown₂, harrive _ _ hland0, hkeep _ hland0 hlandCall hlandT]
  have hprevious : (m₂.arrive (k + 1 + 1 + 1)).eval ⟨.deref, t⟩ = m.read (frameCell top 1) := by
    rw [eval_deref, harrive _ _ ht0, hread₂, harrive _ _ hprev0, hkeep _ hprev0 hprevCall hprevT]
  have hjump : execute ⟨.mlz, ⟨.constant, UInt16.ofInt (-1)⟩, ⟨.deref, own⟩, ⟨.constant, 0⟩⟩
      (m₂.arrive (k + 1 + 1)) d₂ = ((m₂.arrive (k + 1 + 1)).write 0 (m.read (frameCell top 0)), d₂,
        some ((m.read (frameCell top 0)).toNat + 1)) := by
    rw [execute_of_apply_eq_some (w := m.read (frameCell top 0))]
    · rfl
    · exact congrArg some htarget
  have hslot : execute ⟨.mlz, ⟨.constant, UInt16.ofInt (-1)⟩, ⟨.deref, t⟩, ⟨.constant, own⟩⟩
      (m₂.arrive (k + 1 + 1 + 1)) d₂ =
      ((m₂.arrive (k + 1 + 1 + 1)).write own (m.read (frameCell top 1)),
        if own = 1 then d₂.push (m.read (frameCell top 1)) else d₂, none) := by
    rw [execute_of_apply_eq_some (w := m.read (frameCell top 1)), store,
      eval_constant, if_neg hown0]
    exact congrArg some hprevious
  have hleads₃ := Leads.of_jump (v := (m.read (frameCell top 0)).toNat) hi₃ hi₄ hjump
    (by rw [Memory.arrive, Memory.arrive, write_write, write_write]; exact hslot)
  refine ⟨_, _, (hleads₁.trans hleads₂).trans hleads₃, ?_, by simp, fun c hmem => ?_⟩
  · rw [read_write_ne _ _ hcallOwn.symm, harrive _ _ hcall0,
      heq₂ call (by simp [hcall0, hcallT]), hcall₁]
  · simp only [Set.mem_insert_iff, Set.mem_singleton_iff, not_or] at hmem
    rw [read_write_ne _ _ (Ne.symm hmem.2.2.1), harrive _ _ hmem.1,
      hkeep c hmem.1 hmem.2.1 hmem.2.2.2]

namespace Session

open Statement Build

section Returns

variable {settings : Settings} {source name : String} {frame : Frame} {blocks : List Code} {n : Nat}
  {m : Memory} {top : Word}

abbrev emittedWords (settings : Settings) (source : String) : List WordInstruction :=
  (compiled settings source).resolver.words (compiled settings source).joined

lemma Emitted.stands {code : Code} (h : Emitted settings source blocks n code)
    (hc : (compiled settings source).bench.Clean) (hne : code ≠ []) :
    (compiled settings source).resolver.Stands (emittedWords settings source)
      (place settings source blocks n) code :=
  (complete_compiled hc).stands_part h.enriches hne

/-- The end of a subroutine goes to the place that the frame at `top` holds, and makes the frame
active whose address is in the next cell. -/
theorem Ends.leads (h : Ends settings source blocks n name)
    (hc : (compiled settings source).bench.Clean) (hfits : FitsMachine settings source)
    (hframe : (compiled settings source).scope.frame? name = some frame)
    (htop : m.read (pointerCell settings source name) = top)
    (hcells : ∀ i < 2, frameCell top i ∉ (compiled settings source).bench.scratch.hidden ∧
      frameCell top i ≠ callCell settings source) (d : Array Word) :
    ∃ m' d', Leads (emittedWords settings source) 4 ⟨place settings source blocks n, m, d⟩
        ⟨(m.read (frameCell top 0)).toNat, m', d'⟩ ∧
      m'.read (callCell settings source) = top ∧
      m'.read (pointerCell settings source name) = m.read (frameCell top 1) ∧
      EqOff ((compiled settings source).bench.scratch.hidden ∪
        {callCell settings source, pointerCell settings source name}) m m' := by
  obtain ⟨temp, htemp, hemitted⟩ := h.emitted
  have hst := hemitted.stands hc (List.cons_ne_nil _ _)
  obtain ⟨hlt, hown⟩ := pointerCell_lt hc hfits hframe
  have hcall := callCell_notMem_hidden hc hfits
  have hfit := fits_compiled hc hfits
  have hscratch := hfit.scratch temp htemp
  have hne : ∀ {c w : Word}, c ∉ (compiled settings source).bench.scratch.hidden →
      w ∈ (compiled settings source).bench.scratch.hidden → c ≠ w := by
    rintro c w hc hw rfl
    exact hc hw
  obtain ⟨m', d', hleads, hread, hread', heq⟩ :=
    leads_epilogueCode hst (word_callStack settings source)
      (word_pointer hc hframe) rfl ⟨hne hcall hfit.zero, hne hown hfit.zero, hfit.ne_zero htemp⟩
    ⟨by rintro heq; rw [heq] at hlt; omega, hne hcall hscratch, hne hown hscratch⟩ htop
    (fun i hi => ⟨hne (hcells i hi).1 hfit.zero, (hcells i hi).2, hne (hcells i hi).1 hscratch⟩) d
  refine ⟨m', d', hleads, hread, hread', heq.mono ?_⟩
  rintro c (rfl | rfl | rfl | rfl)
  · exact .inl hfit.zero
  · exact .inr (.inl rfl)
  · exact .inr (.inr rfl)
  · exact .inl hscratch

end Returns

end Session

/-! ### The frame of a call -/

lemma SymbolTable.le_address? {t : SymbolTable} {a : Nat} {name : String}
    (h : t.cells[a]? = some name) : ∃ b, t.address? name = some b ∧ a ≤ b := by
  obtain ⟨b, hb⟩ := Option.isSome_iff_exists.mp (contains_iff.mpr ⟨a, h⟩)
  refine ⟨b, hb, ?_⟩
  by_contra hlt
  exact (searchBelow_eq_some.mp hb).2.2 a (by omega) (Array.getElem?_eq_some_iff.mp h).1 h

lemma Frame.Shaped.exists_offset {frame : Frame} {name : String}
    {params : List (String × Declarator)} (h : frame.Shaped name params) {j : Nat} {slot : Slot}
    (hj : frame.slots[2 + j]? = some slot) : ∃ offset, frame.table.address? slot.name =
    some offset ∧ 2 ≤ offset ∧ offset < frame.size := by
  obtain ⟨d, hparam⟩ := h.param_of_slot hj
  obtain ⟨first, hdecl, -, hcells⟩ := h.declared
  obtain ⟨offset, hoffset, hle⟩ := SymbolTable.le_address? (hcells ▸ hdecl.cell hparam)
  exact ⟨offset, hoffset, (two_le_paramOffset params j).trans hle,
    SymbolTable.lt_nextFree_of_address? hoffset⟩

lemma Call.Arguments.le_slot {scope : Scope} {frame : Frame} {slot : Nat} {b b' : Workbench}
    {args : List Argument} (h : Arguments scope frame slot b args b') :
    ∀ a ∈ args, slot ≤ a.slot := by
  induction h with
  | nil => simp
  | skip next rest ih => exact fun a ha => (Nat.le_succ _).trans (ih a ha)
  | cons next hslot hparam harray lowers rest ih =>
    exact List.forall_mem_cons.mpr ⟨Nat.le_refl _, ih⟩

lemma Call.Lowering.lowers_dest {scope : Scope} {site : CallSite} {b b' : Workbench}
    (p : Lowering scope site b b') (hb : b.Sane) {dest : Backed} {address : Code} {assign : Token}
    (h : p.dest? = some (dest, address, assign))
    (hsmall : ∀ t ∈ p.named.scratch.addresses, t < 65536) :
    Lowers b.scratch dest address p.named.scratch ∧ dest.mode ≠ .doubleDeref := by
  rcases destination_cases p.yields_destination with ⟨-, hnone, -⟩ |
    ⟨dest', address', b₁, -, hdest, hsome, hnamed⟩
  · simp [hnone] at h
  · rw [hsome] at h
    obtain ⟨rfl, rfl, -⟩ : dest' = dest ∧ address' = address ∧ _ := by simpa using h
    have hb₀ : Workbench.Sane { b with tokens := Tokens.rest b.tokens } := hb.congr rfl rfl
    obtain ⟨ref, hread⟩ := exists_read hdest
    obtain ⟨-, ts, hlower⟩ := lower_of_read hread hdest
    rw [hnamed] at hsmall ⊢
    have hlowers := lowers_reference hb₀ hdest hsmall
    exact ⟨hlowers, Reference.mode_of_lower hlower⟩

lemma Call.Lowering.pointer_ready {scope : Scope} {site : CallSite} {b b' : Workbench}
    (p : Lowering scope site b b') (hb : b.Sane)
    (hsmall : ∀ t ∈ p.named.scratch.addresses, t < 65536) :
    (∀ t ∈ p.pointer.cells, p.placed.scratch.Busy t) ∧ p.pointer.mode ≠ .doubleDeref := by
  rcases framePointer_cases p.on_framePointer with ⟨assign, hdest, -, hplaced⟩ |
    ⟨-, -, t, htemp, hpointer⟩
  · obtain ⟨hlowers, hmode⟩ := p.lowers_dest hb hdest hsmall
    rw [hplaced]
    exact ⟨fun t ht => hlowers.own_mem ht, hmode⟩
  · have hb₀ : Workbench.Sane { p.named with tokens := Tokens.rest p.named.tokens } :=
      (p.grows_named hb).1.congr rfl rfl
    have htakes := takes_allocScratch hb₀
    rw [htemp] at htakes
    rw [hpointer]
    refine ⟨fun u hu => ?_, Mode.noConfusion⟩
    exact (htakes.busy u).mpr (.inr (List.mem_singleton.mp hu))

lemma Scope.Plain.leads {scope : Scope} {pool : ScratchPool} {code : Code} {hidden : Set Word}
    {r : Resolver} {prog : List WordInstruction} {k : Nat} (h : scope.Plain pool.addresses code)
    (hf : pool.Fits hidden) (hsits : Sits prog k (r.words code)) (m : Memory) (d : Array Word) :
    Leads prog code.length ⟨k, m, d⟩ ⟨k + code.length, after (k + ·) (r.words code) m, d⟩ ∧
      EqOff hidden m (after (k + ·) (r.words code) m) := by
  have hq : ∀ i ∈ code, ∃ t ∈ pool.addresses, i.dest = .cellDest t ∧ ¬ ScratchPool.Busy {} t := by
    intro i hi
    obtain ⟨-, ⟨t, ht, hdest⟩, -⟩ := h i hi
    exact ⟨t, ht, hdest, fun hbusy => absurd hbusy.mem_addresses List.not_mem_nil⟩
  have hleads := Leads.of_quiet hsits (fun i hi => (quiet_words (r := r) hf hq i hi).1) m d
  rw [r.length_words] at hleads
  exact ⟨hleads, (eqOff_after_words hf hq _ m).mono hf.spare_subset⟩

lemma Call.Result.leads {frame : Frame} {dest? : Option (Backed × Code × Token)} {b b' : Workbench}
    (q : Result frame dest? b b') {scope : Scope} {pool : ScratchPool} {hidden : Set Word}
    {r : Resolver} {prog : List WordInstruction} {k offset : Nat} {m : Memory} {call top : Word}
    (hplain : scope.Plain pool.addresses q.address) (hf : pool.Fits hidden)
    (htemp : q.temp ∈ pool.addresses) (hst : r.Stands prog k q.code)
    (hword : r.word stackTop = ⟨.address, call⟩) (hcall : call ∉ hidden)
    (hslot : r.word (.slot frame.name (Reference.readField b.tokens).1) =
      ⟨.constant, UInt16.ofNat offset⟩)
    (htop : m.read call = top) (hcell : frameCell top offset ∉ hidden) (d : Array Word) :
    ∃ m' d', Leads prog (q.address.length + 1) ⟨k, m, d⟩ ⟨k + (q.address.length + 1), m', d'⟩ ∧
      ∀ j, (m'.arrive j).eval (r.word (.through q.temp)) = m.read (frameCell top offset) := by
  obtain ⟨hst₁₂, -⟩ := r.stands_append.mp hst
  obtain ⟨hst₁, hst₂⟩ := r.stands_append.mp hst₁₂
  obtain ⟨⟨hi, -⟩, -⟩ := r.stands_cons.mp hst₂
  simp only [hword, hslot, r.word_cellDest] at hi
  have hne : ∀ {c w : Word}, c ∉ hidden → w ∈ hidden → w ≠ c := by
    rintro c w hc hw rfl
    exact hc hw
  have hscratch := hf.scratch q.temp htemp
  obtain ⟨hleads₁, heq₁⟩ := hplain.leads hf hst₁.sits m d
  have hcall₁ := (heq₁ call hcall).trans htop
  have hcell₁ := heq₁ _ hcell
  generalize after (k + ·) (r.words q.address) m = m₁ at hleads₁ hcall₁ hcell₁
  obtain ⟨m₂, d₂, hleads₂, hread₂, heq₂⟩ := Leads.of_move (m := m₁) (c := UInt16.ofNat q.temp)
    (w := frameCell top offset) hi (by simpa [WordInstruction.reads] using hne hcall hf.zero)
    (by rw [eval_address, hcall₁, eval_constant]; rfl) rfl (hf.ne_zero htemp) d
  refine ⟨m₂, d₂, hleads₁.trans hleads₂, fun j => ?_⟩
  have hcell₂ : m₂.read (frameCell top offset) = m₁.read (frameCell top offset) :=
    heq₂ _ (by simp [(hne hcell hf.zero).symm, (hne hcell hscratch).symm])
  rw [r.word_through, eval_deref, Memory.arrive, read_write_ne _ _ (hf.ne_zero htemp).symm, hread₂,
    read_write_ne _ _ (hne hcell hf.zero), hcell₂, hcell₁]

namespace Session

open Statement Build Call

variable {settings : Settings} {source : String} {blocks : List Code} {n : Nat}

lemma Emitted.exists_mem {code : Code} (h : Emitted settings source blocks n code) {i : Instruction}
    (hi : i ∈ code) :
    ∃ labels, { i with tags := i.tags ++ labels } ∈ (compiled settings source).joined := by
  obtain ⟨j, hj⟩ := List.getElem?_of_mem hi
  obtain ⟨labels, hlabels⟩ := h.enriches j (.instruction i)
    (by rw [List.getElem?_map, hj, Option.map_some])
  rw [List.getElem?_map, Option.map_eq_some_iff] at hlabels
  obtain ⟨i', hi', heq⟩ := hlabels
  exact ⟨labels, Item.instruction.inj heq ▸ List.drop_subset _ _ (List.mem_of_getElem? hi')⟩

lemma exists_address?_of_problem? {s : Session} {owner name : String} {frame : Frame}
    (hframe : s.scope.frame? owner = some frame)
    (h : s.resolver.problem? (.slot owner name) = none) : ∃ offset, frame.table.address? name =
    some offset := by
  refine Option.ne_none_iff_exists'.mp fun hnone => ?_
  have hbase : s.resolver.base? (.slot owner name) = none := by
    show (s.scope.frame? owner).bind _ = none
    rw [hframe]
    exact hnone
  have hsome : (s.resolver.scope.frame? owner).isSome := by
    show (s.scope.frame? owner).isSome
    rw [hframe]
    rfl
  simp [Resolver.problem?, Operand.slot, Resolver.number?, hbase, hsome] at h

lemma around_of_call (hnext : Tokens.peek (after settings source n).bench.tokens = "call") :
    around settings source (n + 1) = around settings source n := by
  have hne : (after settings source n).bench.tokens.isEmpty = false := by
    rw [List.isEmpty_eq_false_iff]
    rintro hnil
    rw [hnil] at hnext
    exact absurd hnext (by decide)
  obtain ⟨q, hq⟩ := Statement.exists_compile_call hnext
  rw [around, around, after_succ, hne, if_neg Bool.false_ne_true, hq]
  exact q.retypes.enclosing

lemma Blocks.place_le_length (h : Blocks settings source blocks) (n : Nat) :
    place settings source blocks n ≤ (compiled settings source).joined.length := by
  rw [← h.place_last (n := n + (Lexer.tokenize source).1.length) (Nat.le_add_left _ _)]
  exact place_le (Nat.le_add_right _ _)

/-- Every call of a program without errors is laid out. -/
theorem exists_laid (hblocks : Blocks settings source blocks)
    (hc : (compiled settings source).bench.Clean)
    (hnext : Tokens.peek (after settings source n).bench.tokens = "call") :
    Nonempty (Laid settings source blocks n) := by
  obtain ⟨c, htokens, henclosing, b, b₁, p, hsane, hgrows, hleft, hplace, henriches⟩ :=
    hblocks.call (clean_expanded hc) hnext
  have hscope : Call.scope c (stated settings source).scope = callScope settings source n := by
    rw [Call.scope, callScope, henclosing]
  revert p
  rw [hscope]
  intro p hplace henriches
  exact ⟨⟨c, b, b₁, p, hnext, htokens, hsane, hgrows, hleft, hplace, henriches⟩⟩

namespace Laid

variable (x : Laid settings source blocks n)

def landing : Nat :=
  place settings source blocks n + x.lowering.address.length + x.lowering.entry.length

/-- The memory when it is known where the address of the new frame goes. -/
def aimed (m : Memory) : Memory :=
  Machine.after (place settings source blocks n + ·)
    ((compiled settings source).resolver.words x.lowering.address) m

def pointerWord : WordOperand := (compiled settings source).resolver.word
    x.lowering.pointer.toOperand

def target (m : Memory) : Word := (x.aimed m).eval x.pointerWord

def cells (top : Word) : Set Word :=
  covered (compiled settings source).bench.scratch.hidden top x.lowering.frame.size

def field : String :=
  (Reference.readField (entered x.lowering.pointer x.lowering.closed).tokens).1

/-- What the code is made of that takes the result from the finished frame. -/
abbrev Taken := Result x.lowering.frame x.lowering.dest?
    (entered x.lowering.pointer x.lowering.closed)
  x.left

def StoresPointer : Prop := x.lowering.dest?.isSome ∧ x.site.returnsPointer

/-- The cell that keeps the address of the new frame is none of those that the call works on, and
neither is one on the way to it, other than the scratch cells that are kept for it. -/
structure Clear (m : Memory) (top : Word) : Prop where
  target : x.target m ∈ x.lowering.pointer.own ∨ x.target m ∉ x.cells top
  path : ∀ w ∈ (x.aimed m).path x.pointerWord, w ≠ x.target m ∧
    (w ∈ x.lowering.pointer.own ∨ w ∉ x.cells top)

section

variable (hc : (compiled settings source).bench.Clean)
include hc

lemma frame?_eq :
    (compiled settings source).scope.frame? x.lowering.frame.name = some x.lowering.frame := by
  have hframe := x.lowering.frame?_eq
  rw [frame?_callScope, ← scope_compiled hc] at hframe
  have hname := ((complete_compiled hc).linked.sound _ _ hframe).name_eq
  rwa [hname]

lemma exists_shaped : ∃ params, x.lowering.frame.Shaped x.lowering.frame.name params := by
  have hsound := (complete_compiled hc).linked.sound _ _ (x.frame?_eq hc)
  obtain ⟨params, first, hdeclared⟩ := hsound.declared
  exact ⟨params, rfl, first, hdeclared⟩

lemma stands : (compiled settings source).resolver.Stands (emittedWords settings source)
    (place settings source blocks n)
    (x.lowering.address ++ x.lowering.entry ++ x.lowering.result) := by
  rw [← x.lowering.code_eq_entry]
  exact x.emitted.stands hc (Call.code_ne_nil x.lowering)

omit hc in
lemma sane_bench : (Call.bench x.site x.start).Sane := (grows_bench x.site x.sane).1

omit hc in
lemma scratch_left : x.left.scratch.addresses <+:
    (compiled settings source).bench.scratch.addresses := by
  rw [scratch_compiled]
  exact x.leaves.scratch

variable (hfits : FitsMachine settings source)
include hfits

lemma fits_left : x.left.scratch.Fits (compiled settings source).bench.scratch.hidden :=
  ScratchPool.Fits.of_prefix (fits_compiled hc hfits) x.scratch_left

omit hc hfits in
lemma not_storesPointer (h : x.site.pointerName? = none) : ¬ x.StoresPointer := by
  rintro ⟨hdest, -⟩
  rcases destination_cases x.lowering.yields_destination with ⟨-, hnone, -⟩ | ⟨_, _, _, hsome, -⟩
  · rw [hnone] at hdest
    cases hdest
  · rw [h] at hsome
    cases hsome

omit hc hfits in
lemma clear_of_not_storesPointer (h : ¬ x.StoresPointer) (m : Memory) (top : Word) :
    x.Clear m top := by
  rcases framePointer_cases x.lowering.on_framePointer with ⟨assign, hdest, hreturns, -⟩ |
    ⟨-, -, t, htemp, hpointer⟩
  · exact absurd ⟨by rw [hdest]; rfl, hreturns⟩ h
  · have hword : x.pointerWord = ⟨.constant, UInt16.ofNat t⟩ := by
      rw [pointerWord, hpointer]
      exact Resolver.word_cellDest _ t
    refine ⟨.inl ?_, fun w hw => ?_⟩
    · rw [target, hword, hpointer, eval_constant]
      exact List.mem_cons_self
    · rw [hword, path_constant] at hw
      cases hw

omit hc hfits in
lemma target_mem_hidden (h : ¬ x.StoresPointer) (m : Memory) :
    x.target m ∈ (compiled settings source).bench.scratch.hidden := by
  have hsane := x.sane_bench
  obtain ⟨-, hplaced, hmaking, hclosed⟩ := x.lowering.scratch_subset hsane
  rcases framePointer_cases x.lowering.on_framePointer with ⟨assign, hdest, hreturns, -⟩ |
    ⟨-, -, t, htemp, hpointer⟩
  · exact absurd ⟨by rw [hdest]; rfl, hreturns⟩ h
  · have hb₀ : Workbench.Sane { x.lowering.named with tokens := Tokens.rest x.lowering.named.tokens
      } := (x.lowering.grows_named hsane).1.congr rfl rfl
    have htakes := takes_allocScratch hb₀
    rw [htemp] at htakes
    have hword : x.pointerWord = ⟨.constant, UInt16.ofNat t⟩ := by
      rw [pointerWord, hpointer]
      exact Resolver.word_cellDest _ t
    rw [target, hword, eval_constant]
    exact .inr ⟨t, x.scratch_left.subset (hclosed (hmaking (hplaced htakes.mem))), rfl⟩

omit hfits in
lemma exists_offset {a : Argument} (ha : a ∈ x.lowering.args) : ∃ offset,
    x.lowering.frame.table.address? a.param = some offset ∧ 2 ≤ offset ∧
      offset < x.lowering.frame.size := by
  obtain ⟨params, hshape⟩ := x.exists_shaped hc
  obtain ⟨slot, hslot, hparam, -⟩ := x.lowering.arguments.slot_of_mem a ha
  obtain ⟨j, hj⟩ := Nat.exists_eq_add_of_le (x.lowering.arguments.le_slot a ha)
  rw [hparam]
  exact hshape.exists_offset (hj ▸ hslot)

/-- A call goes through to the body of its subroutine. The new frame is at `top`; it holds the place
behind the call and the frame that was active before. -/
theorem leads (hblocks : Blocks settings source blocks) {m : Memory} {top : Word}
    (htop : m.read (callCell settings source) = top)
    (hroom : ∀ i < x.lowering.frame.size,
      frameCell top i ∉ (compiled settings source).bench.scratch.hidden ∧
      frameCell top i ≠ callCell settings source ∧
      frameCell top i ≠ pointerCell settings source x.lowering.frame.name)
    (hclear : x.Clear m top) (d : Array Word) :
    ∃ k m' d', Declares settings source k x.lowering.frame.name ∧
      Leads (emittedWords settings source) (x.lowering.address.length + x.lowering.entry.length)
        ⟨place settings source blocks n, m, d⟩ ⟨place settings source blocks (k + 1), m', d'⟩ ∧
      m'.read (pointerCell settings source x.lowering.frame.name) = top ∧
      m'.read (frameCell top 0) = UInt16.ofNat x.landing ∧
      m'.read (frameCell top 1) = m.read (pointerCell settings source x.lowering.frame.name) ∧
      m'.read (callCell settings source) = frameCell top x.lowering.frame.size ∧
      EqOff (x.cells top ∪ {callCell settings source,
        pointerCell settings source x.lowering.frame.name, x.target m}) m m' := by
  have hframe := x.frame?_eq hc
  obtain ⟨params, hshape⟩ := x.exists_shaped hc
  have hsize := hshape.one_lt_size
  have hground := ground hc hfits hframe hroom
  have hsane := x.sane_bench
  have hfit := x.fits_left hc hfits
  obtain ⟨hnamed, hplaced, hmaking, hclosed⟩ := x.lowering.scratch_subset hsane
  have hsmall : ∀ t ∈ x.lowering.named.scratch.addresses, t < 65536 := fun t ht =>
    (hfit.small t (hclosed (hmaking (hplaced (hnamed ht))))).2
  obtain ⟨hbusy, hmode⟩ := x.lowering.pointer_ready hsane hsmall
  have hfitPlaced : x.lowering.placed.scratch.Fits
      (compiled settings source).bench.scratch.hidden :=
    ⟨hfit.zero, fun t ht => hfit.scratch t (hclosed (hmaking (hplaced ht))),
      fun t ht => hfit.small t (hclosed (hmaking (hplaced ht)))⟩
  have hown : ∀ w ∈ x.lowering.pointer.own, w ∈ (compiled settings source).bench.scratch.hidden ∧
      w ≠ 0 := by
    intro w hw
    obtain ⟨t, ht, rfl⟩ := List.mem_map.mp hw
    exact ⟨hfitPlaced.scratch t (hbusy t ht).mem_addresses,
      hfitPlaced.ne_zero (hbusy t ht).mem_addresses⟩
  -- the cell that keeps the address of the frame
  obtain ⟨hst₁₂, -⟩ := Resolver.stands_append _ |>.mp (x.stands hc)
  obtain ⟨hst₁, hst₂⟩ := Resolver.stands_append _ |>.mp hst₁₂
  obtain ⟨hleads₁, heq₁⟩ := (x.lowering.lowered_pointer hsane).plain.leads hfitPlaced hst₁.sits m d
  have htarget : x.target m ≠ 0 ∧ x.target m ≠ frameCell top 1 := by
    rcases hclear.target with hmem | hmem
    · refine ⟨(hown _ hmem).2, fun heq => (hroom 1 hsize).1 (heq ▸ (hown _ hmem).1)⟩
    · refine ⟨fun heq => hmem (heq ▸ .inl hfit.zero), fun heq =>
        hmem (heq ▸ cell_mem_covered hsize)⟩
  have hpointer : (x.aimed m).Shows (x.cells top) x.lowering.pointer.own
      x.pointerWord (x.target m) :=
    ⟨rfl, fun w hw => (hclear.path w hw).2⟩
  -- the rest of the call
  have hd : (callLayout settings source n).Describes (compiled settings source).resolver
      (callScope settings source n) x.lowering.opened.globals :=
    (Layout.describes_of _ _ _).grows
      ((x.grows.trans (grows_bench x.site x.sane).2).trans (x.lowering.grows_toOpened hsane))
  have hfitClosed : x.lowering.closed.scratch.Fits
      (compiled settings source).bench.scratch.hidden :=
    hfit.of_prefix ((x.lowering.grows_entered hsane).2.trans
      (x.lowering.grows_left hsane).2).scratch
  obtain ⟨k, entry, hdeclares, hbegins, hentry, -⟩ := hblocks.body hc
    (show (stated settings source).scope.frame? x.lowering.frame.name = some x.lowering.frame by
      rw [← scope_compiled hc, hframe])
  obtain ⟨m', d', hleads, hown', hlanding, hprevious, -, -, hcall, hoff⟩ :=
    x.lowering.leads_through hsane hshape hground
      (fun a => (x.lowering.frame.table.address? a.param).getD 0)
      (fun a ha => by
        obtain ⟨offset, hoffset, htwo, hlt⟩ := x.exists_offset hc ha
        rw [hoffset, Option.getD_some, word_slot hframe hoffset]
        exact ⟨htwo, hlt, rfl⟩)
      hbegins hd hfitClosed hbusy hmode hst₂
      ((heq₁ _ hground.call_notMem).trans htop) hpointer htarget
      (fun hmem => (hclear.path _ hmem).1 rfl) hclear.target (EqOff.refl _ _) d
  have hplace : (entry + 1) % 65536 = place settings source blocks (k + 1) := by
    rw [hentry]
    exact Nat.mod_eq_of_lt ((hblocks.place_le_length _).trans_lt hfits.length)
  rw [hplace] at hleads
  refine ⟨k, m', d', hdeclares, hleads₁.trans hleads, hown', hlanding, ?_, hcall, fun c hmem => ?_⟩
  · rw [hprevious]
    exact heq₁ _ hground.own_notMem
  · simp only [Set.mem_union, Set.mem_insert_iff, Set.mem_singleton_iff, not_or] at hmem
    obtain ⟨hcells, hnotCall, hnotOwn, hnotTarget⟩ := hmem
    rw [hoff c (by simp [hnotCall, hnotOwn]; exact hcells), read_write_ne _ _ (Ne.symm hnotTarget)]
    exact heq₁ c fun hhidden => hcells (.inl hhidden)

/-! #### What follows the return -/

omit hfits in
lemma clean_left : x.left.Clean := x.leaves.clean (clean_expanded hc)

omit hc hfits in
lemma temp_mem (q : x.Taken) : q.temp ∈ x.left.scratch.addresses := by
  have hentered : Workbench.Sane { entered x.lowering.pointer x.lowering.closed with
      tokens := (Reference.readField (entered x.lowering.pointer x.lowering.closed).tokens).2 } :=
    (x.lowering.grows_entered x.sane_bench).1.congr rfl rfl
  have htakes := takes_allocScratch hentered
  rw [q.on_allocScratch] at htakes
  rw [q.scratch]
  exact htakes.mem

omit hfits in
lemma tame_result {goes : Label → Int → Prop} :
    x.lowering.result.Tame (compiled settings source).bench.scratch.addresses
      (x.lowering.dest?.map fun dest => dest.1.toOperand) goes := by
  have hsane := x.sane_bench
  have hpool := x.scratch_left.subset
  obtain ⟨hnamed, hplaced, hmaking, hclosed⟩ := x.lowering.scratch_subset hsane
  rcases x.lowering.result_cases with ⟨hresult, -⟩ | ⟨q, hresult⟩
  · rw [hresult]
    exact Code.tame_nil
  · have hdest := x.lowering.lowered_dest hsane q.dest?_eq
    have hstores := q.stores.resolve_right fun hfault => hfault.2 (x.clean_left hc)
    obtain ⟨i, hi, -, hidest, -⟩ := hstores.instruction (Operand.known_through _) hdest.known
    have hdest? : (x.lowering.dest?.map fun dest => dest.1.toOperand) = some i.dest := by
      rw [q.dest?_eq, Option.map_some, hidest]
    rw [← hresult, Result.code, hi, hdest?]
    refine ((hdest.mono fun t ht => hpool ?_).plain.tame.append
      (.cons (.scratch (t := q.temp) (hpool ?_) rfl) Code.tame_nil)).append
      (.cons (.store rfl (hidest ▸ hdest.known)) Code.tame_nil)
    · exact hclosed (hmaking (hplaced (hnamed ht)))
    · exact x.temp_mem q

omit hfits in
lemma calm : Calm settings source blocks n (x.lowering.address ++ x.lowering.entry)
    x.lowering.result (x.lowering.dest?.map fun dest => dest.1.toOperand) where
  emitted := x.lowering.code_eq_entry ▸ x.emitted
  around_succ := around_of_call x.next
  aims _ ha := .inr ⟨x, ha⟩
  tame := x.tame_result hc

omit hc hfits in
lemma place_succ : place settings source blocks (n + 1) = x.landing + x.lowering.result.length := by
  rw [x.emitted.place_succ, x.lowering.code_eq_entry, List.length_append, List.length_append,
    landing]
  omega

omit hfits in
lemma within_landing :
    Within settings source blocks (around settings source n) x.landing := by
  have hplace := x.place_succ
  rcases Nat.eq_zero_or_pos x.lowering.result.length with hzero | hpos
  · exact .start (n := n + 1) (by omega) (around_of_call x.next)
  · exact .inside (x.calm hc) (by rw [List.length_append, landing]; omega) (by omega) rfl

omit hfits in
lemma exists_field (hproblems : (compiled settings source).resolver.problems
      (compiled settings source).joined = []) (q : x.Taken) (hq : q.code = x.lowering.result) :
    ∃ offset, x.lowering.frame.table.address? x.field = some offset := by
  -- the instruction that computes the address of the field
  have hmem : ⟨.add, stackTop, .slot x.lowering.frame.name x.field, .cellDest q.temp, []⟩ ∈
      x.lowering.code := by
    rw [x.lowering.code_eq_entry, ← hq, Result.code]
    simp [field]
  obtain ⟨labels, hi⟩ := x.emitted.exists_mem hmem
  refine exists_address?_of_problem? (x.frame?_eq hc) ?_
  by_contra hsome
  obtain ⟨problem, hproblem⟩ := Option.ne_none_iff_exists'.mp hsome
  have hmem : problem ∈ (compiled settings source).resolver.problems
      (compiled settings source).joined :=
    List.mem_flatMap.mpr ⟨_, hi, List.mem_filterMap.mpr
      ⟨_, by simp [Instruction.operands], hproblem⟩⟩
  rw [hproblems] at hmem
  cases hmem

/-- After the return, the field of the frame that the call stack pointer points to is read: it is
the value that the last instruction of the call stores. -/
theorem leads_result (hproblems : (compiled settings source).resolver.problems
      (compiled settings source).joined = []) (hresult : x.lowering.result ≠ [])
      {m : Memory} {top : Word}
    (htop : m.read (callCell settings source) = top)
    (hroom : ∀ i < x.lowering.frame.size,
      frameCell top i ∉ (compiled settings source).bench.scratch.hidden) (d : Array Word) :
    ∃ offset steps i m' d', x.lowering.frame.table.address? x.field = some offset ∧
      Leads (emittedWords settings source) steps ⟨x.landing, m, d⟩ ⟨x.landing + steps, m', d'⟩ ∧
      x.landing + steps + 1 = place settings source blocks (n + 1) ∧
      (emittedWords settings source)[x.landing + steps]? = some i ∧
      (m'.arrive (x.landing + steps)).eval i.rhs = m.read (frameCell top offset) := by
  have hsane := x.sane_bench
  have hfit := x.fits_left hc hfits
  obtain ⟨hnamed, hplaced, hmaking, hclosed⟩ := x.lowering.scratch_subset hsane
  obtain ⟨q, hq⟩ := x.lowering.result_cases.resolve_left fun h => hresult h.1
  have hplain := ((x.lowering.lowered_dest hsane q.dest?_eq).mono
    (fun t ht => hclosed (hmaking (hplaced (hnamed ht))))).plain
  obtain ⟨offset, hoffset⟩ := x.exists_field hc hproblems q hq
  obtain ⟨-, hst⟩ := Resolver.stands_append _ |>.mp (x.stands hc)
  rw [← hq, List.length_append, ← Nat.add_assoc] at hst
  obtain ⟨m', d', hleads, heval⟩ := q.leads hplain hfit (x.temp_mem q) hst
    (word_callStack settings source .address) (callCell_notMem_hidden hc hfits)
    (word_slot (x.frame?_eq hc) hoffset) htop
    (hroom _ (SymbolTable.lt_nextFree_of_address? hoffset)) d
  -- the last instruction
  have hstores := q.stores.resolve_right fun hfault => hfault.2 (x.clean_left hc)
  obtain ⟨i, hi, hrhs⟩ := hstores.exists_rhs
  have hplace := x.place_succ
  rw [← hq, Result.code, hi, List.length_append, List.length_append] at hplace
  rw [Result.code, hi] at hst
  obtain ⟨-, hlast⟩ := Resolver.stands_append _ |>.mp hst
  obtain ⟨⟨hword, -⟩, -⟩ := Resolver.stands_cons _ |>.mp hlast
  rw [List.length_append, List.length_singleton] at hword
  refine ⟨offset, _, _, m', d', hoffset, hleads, ?_, hword, ?_⟩
  · simp only [List.length_singleton] at hplace
    omega
  · rw [hrhs]
    exact heval _

end

end Laid

end Session
end CogolToolchain
