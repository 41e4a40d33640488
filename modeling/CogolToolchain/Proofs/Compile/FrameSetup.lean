import CogolToolchain.Proofs.Compile.Activation
import CogolToolchain.Proofs.Compile.Addressing
import CogolToolchain.Proofs.Compile.Blocks
import CogolToolchain.Proofs.Grammar.Call

/-!
Frames are set up by calls.

Where a call stands in a finished program, its code runs through to the body of the subroutine,
which then finds the frame as the call describes it.
-/

namespace CogolToolchain

open Memory Machine Work Attempt

/-! ### The code of a call is steady -/

namespace Reference

variable {scope : Scope} {role : Role} {b b' : Workbench} {a : Backed} {code : Code}

lemma adds_lowerElement {head : Head} {index : Backed}
    (h : (lowerElement scope head index).on b = ((a, code), b')) : ∀ i ∈ code, i.opcode = .add := by
  obtain ⟨shift, name, home⟩ := head
  simp only [lowerElement, headType, headOffset, frameAddress, Work.on_bind, Work.on_get,
    Work.on_pure] at h
  split at h <;>
    · simp only [Work.on_bind, Work.on_pure, Prod.mk.injEq] at h
      obtain ⟨⟨-, rfl⟩, -⟩ := h
      simp

lemma adds_lower {ref : Reference} (h : Yields (ref.lower scope role) b (a, code) b') :
    ∀ i ∈ code, i.opcode = .add := by
  induction ref generalizing role b b' a code with
  | numeral shift text value =>
    simp only [lower] at h
    split at h
    · simp at h
    · simp only [yields_bind, yields_pure, Prod.mk.injEq] at h
      obtain ⟨_, _, -, ⟨-, rfl⟩, -⟩ := h
      simp
  | plain head =>
    simp only [lower, yields_bind, yields_lift, yields_pure, Prod.exists, Prod.mk.injEq] at h
    obtain ⟨a', code', b₁, hplain, -, -, -, ⟨-, rfl⟩, -⟩ := h
    obtain ⟨b₂, -, -, -, hon⟩ := on_lowerPlain scope head b
    rw [hplain] at hon
    split at hon <;> cases hon <;> simp
  | field head name =>
    simp only [lower, yields_bind, yields_lift, yields_pure, Prod.exists, Prod.mk.injEq] at h
    obtain ⟨a', code', b₁, hfield, -, -, -, ⟨-, rfl⟩, -⟩ := h
    obtain ⟨b₂, -, -, -, hon⟩ := on_lowerField scope head name b
    have hon := hon _ rfl
    rw [hfield, Prod.mk.injEq, Prod.mk.injEq] at hon
    obtain ⟨⟨-, rfl⟩, -⟩ := hon
    split <;> simp
  | element head index ih =>
    simp only [lower, yields_bind, yields_lift, yields_pure, Prod.exists, Prod.mk.injEq] at h
    obtain ⟨i, before, b₁, hindex, a', code', b₂, helement, -, -, -, -, -, -, -, -, -,
      ⟨-, rfl⟩, -⟩ := h
    intro j hj
    exact (List.mem_append.mp hj).elim (ih hindex j) (adds_lowerElement helement j)

end Reference

namespace Call

lemma isSteady_copy (source dest : Operand) : (Instruction.copy source dest).IsSteady :=
  .inr ⟨rfl, rfl⟩

lemma steady_init (declarator : Declarator) (frame : Frame) (offset : Nat) :
    ∀ i ∈ declarator.init frame offset, i.IsSteady := by
  have hpoint : ∀ offset, (frame.pointCallAt offset).IsSteady := fun _ => .inl rfl
  have hstore : ∀ offset value, ∀ i ∈ frame.store offset value, i.IsSteady := by
    intro offset value i hi
    rcases List.mem_pair.mp hi with rfl | rfl
    · exact hpoint offset
    · exact isSteady_copy _ _
  cases declarator with
  | word => simp [Declarator.init]
  | wordWithDefault value => exact hstore offset value
  | array size values =>
    intro i hi
    rcases List.mem_append.mp hi with hi | hi
    · obtain ⟨x, -, hi⟩ := List.mem_flatMap.mp hi
      exact hstore _ _ i hi
    · rcases List.mem_pair.mp hi with rfl | rfl
      · exact hpoint offset
      · exact .inl rfl

lemma steady_initialCode {frame : Frame} {name : String} {params : List (String × Declarator)}
    (h : frame.Shaped name params) (supplied : List Nat) :
    ∀ i ∈ initialCode frame supplied, i.IsSteady := by
  obtain ⟨first, hdecl, hslots, -⟩ := h.declared
  have hslot : ∀ slot ∈ frame.slots, ∀ i ∈ slot.init, i.IsSteady := by
    intro slot hslot
    rw [hslots, hdecl.slots_eq, List.mem_append] at hslot
    rcases hslot with hslot | hslot
    · rcases List.mem_pair.mp hslot with rfl | rfl <;> simp
    · obtain ⟨x, -, rfl⟩ := List.mem_map.mp hslot
      exact steady_init _ _ _
  intro i hi
  obtain ⟨⟨slot, j⟩, hmem, hi⟩ := List.mem_flatMap.mp hi
  dsimp only at hi
  split at hi
  · simp at hi
  · exact hslot slot (List.fst_mem_of_mem_zipIdx hmem) i hi

lemma Arguments.adds {scope : Scope} {frame : Frame} {slot : Nat} {b b' : Workbench}
    {args : List Argument} (h : Arguments scope frame slot b args b') :
    ∀ a ∈ args, ∀ i ∈ a.code, i.opcode = .add := by
  induction h with
  | nil => simp
  | skip next rest ih => exact ih
  | cons next hslot hparam harray lowers rest ih =>
    obtain ⟨hread, hsource, -, -⟩ := lowers
    obtain ⟨-, ts, hlower⟩ := lower_of_read hread hsource
    exact List.forall_mem_cons.mpr ⟨Reference.adds_lower hlower, ih⟩

namespace Lowering

variable {scope : Scope} {site : CallSite} {b b' : Workbench} {p : Lowering scope site b b'}
  {name : String} {params : List (String × Declarator)}

lemma steady_entry (h : p.frame.Shaped name params) : ∀ i ∈ p.entry, i.IsSteady := by
  have hargs : ∀ a ∈ p.args, ∀ i ∈ a.stored p.frame p.pointer, i.IsSteady := by
    intro a ha i hi
    rcases List.mem_append.mp hi with hi | hi
    · exact .inl (p.arguments.adds a ha i hi)
    · rcases List.mem_pair.mp hi with rfl | rfl
      · exact .inl rfl
      · exact isSteady_copy _ _
  intro i hi
  simp only [entry, makeCode, enterCode, List.mem_append, List.mem_cons, List.not_mem_nil, or_false,
    List.mem_flatMap] at hi
  rcases hi with ((rfl | rfl | rfl) | ⟨a, ha, hi⟩) | ((rfl | rfl) | hi) | rfl | rfl
  · exact .inl rfl
  · exact isSteady_copy _ _
  · exact isSteady_copy _ _
  · exact hargs a ha i hi
  · exact isSteady_copy _ _
  · exact isSteady_copy _ _
  · exact steady_initialCode h _ i hi
  · exact isSteady_copy _ _
  · exact .inl rfl

lemma getLast?_entry : ∃ i, p.entry.getLast? = some i ∧ i.opcode = .add :=
  ⟨_, by rw [entry, enterCode, ← List.append_assoc, List.getLast?_append]; rfl, rfl⟩

end Lowering
end Call

/-! ### The cells that a call works on -/

lemma Resolver.word_of_base? {r : Resolver} {mode : Mode} {symbol : Symbol} {n : Nat}
    (h : r.base? symbol = some n) : r.word ⟨mode, .symbolic ⟨symbol, 0⟩⟩ =
    ⟨mode, UInt16.ofNat n⟩ := by
  rw [r.word_symbolic h, Int.add_zero, Word.ofInt_natCast]

namespace Session

open Statement Build

section

variable {s : Session} {call own : Nat} {name : String} {frame : Frame} {top : Word}

lemma word_slot {param : String} {n : Nat} (hframe : s.scope.frame? name = some frame)
    (hparam : frame.table.address? param = some n) :
    s.resolver.word (.slot name param) = ⟨.constant, UInt16.ofNat n⟩ := by
  refine Resolver.word_of_base? ?_
  show (s.scope.frame? name).bind _ = _
  rw [hframe]
  exact hparam

lemma fits_declareCallStack (hs : s.Fine) (hsmall : s.bench.globals.nextFree < 65536) :
    (declareCallStack.on s).2.bench.scratch.Fits
      (declareCallStack.on s).2.bench.scratch.hidden where
  zero := .inl rfl
  scratch t ht := .inr ⟨t, ht, rfl⟩
  small t ht := by
    have ht : t ∈ s.bench.scratch.addresses := ht
    have := hs.sane.two_le ht
    have := hs.sane.lt_nextFree ht
    omega

lemma Arranged.ground (h : s.Arranged) (hs : s.Fine) (hl : s.Linked)
    (hframe : s.scope.frame? name = some frame)
    (hcall : (declareCallStack.on s).2.bench.globals.address? callStackName = some call)
    (hown : (declareCallStack.on s).2.bench.globals.address? name = some own)
    (hsmall : call < 65536)
    (hroom : ∀ i < frame.size, frameCell top i ∉ (declareCallStack.on s).2.bench.scratch.hidden ∧
      frameCell top i ≠ UInt16.ofNat call ∧ frameCell top i ≠ UInt16.ofNat own) :
    Call.Ground (declareCallStack.on s).2.bench.scratch.hidden (declareCallStack.on s).2.resolver
      frame (UInt16.ofNat call) (UInt16.ofNat own) top := by
  set t' := (declareCallStack.on s).2.bench.globals with ht'
  have hfits := fits_declareCallStack hs (Option.some.inj (hcall.symm.trans
    (SymbolTable.address?_declareArray _ _ _ _)) ▸ hsmall)
  obtain ⟨hcontains, -, hfree⟩ := hl.frames name frame hframe
  have htidy : t'.Tidy :=
    h.bench.tidy.declareArray (h.bench.callStack_new hs.sane) (.inr (by decide)) _ _
  have hname : frame.name = name := (hl.sound name frame hframe).name_eq
  -- the frame pointer was declared before the call stack
  have hold : s.bench.globals.address? name = some own := by
    obtain ⟨a, ha⟩ := Option.isSome_iff_exists.mp hcontains
    have hsame := htidy.address?_of_extends (SymbolTable.extends_declareArray _ _ _ _) ha
    rw [ha, ← hsame, hown]
  have hcell : s.bench.globals.cells[own]? = some name := h.bench.tidy.address?_eq.mp hold
  have hlast : call = s.bench.globals.nextFree :=
    Option.some.inj (hcall.symm.trans (SymbolTable.address?_declareArray _ _ _ _))
  have hlt : own < call := hlast ▸ SymbolTable.lt_nextFree_of_address? hold
  have hvisible : ∀ a < 65536, a ≠ 0 → a ∉ s.bench.scratch.addresses →
      UInt16.ofNat a ∉ (declareCallStack.on s).2.bench.scratch.hidden := by
    rintro a ha hne hscratch (h0 | ⟨t, ht, heq⟩)
    · exact hne (Word.ofNat_inj (b := 0) ha (by decide) h0)
    · obtain rfl := Word.ofNat_inj ha (hfits.small t ht).2 heq
      exact hscratch ht
  refine ⟨.inl rfl, fun mode => Resolver.word_of_base? hcall, fun mode => ?_, ?_, ?_, ?_, hroom⟩
  · rw [hname]
    exact Resolver.word_of_base? hown
  · refine hvisible call hsmall (by omega) fun hmem => ?_
    have := hs.sane.lt_nextFree hmem
    omega
  · refine hvisible own (by omega) ?_ fun hmem => ?_
    · rintro rfl
      have hcounter := Option.some.inj (hcell.symm.trans hs.sane.counter)
      rw [hcounter] at hfree
      exact absurd hfree (by decide)
    · obtain ⟨n, hn⟩ := hs.sane.mem_addresses_iff.mp hmem
      have hscratch := Option.some.inj (hcell.symm.trans hn)
      rw [hscratch, isReserved_scratchName] at hfree
      exact absurd hfree (by decide)
  · intro heq
    have := Word.ofNat_inj hsmall (by omega) heq
    omega

end
end Session

/-! ### Calls in the finished program -/

def Grammar.CallStatement.arguments (st : CallStatement) (scope : Scope) (globals : SymbolTable) :
    List (Option Reference) :=
  st.args.map fun arg => arg.bind fun r => r.resolve? (scope.home? globals)

namespace Call

/-- The call `st`, as it is lowered after all statements, when the workbench was `last`, and as it
is placed in the program of `s`, from the place `first` on. -/
structure Placed (s : Session) (scope : Scope) (last : Workbench) (first : Nat)
    (st : Grammar.CallStatement) where
  site : CallSite
  start : Workbench
  left : Workbench
  lowering : Lowering scope site (bench site start) left
  sane : start.Sane
  grows : last.Grows start
  scratch : left.scratch.addresses <+: s.bench.scratch.addresses
  reads : st.Reads last.globals lowering
  enriches : Enriches (lowering.code.map .instruction) ((s.joined.drop first).map .instruction)

/-- A call in the program of `s`, from the place `first` on, to the subroutine whose frame has the
parameters `params` and whose frame pointer is in the cell `own`. It jumps from its code with one
instruction more, after which comes `landing`. -/
structure Jumps (s : Session) (scope : Scope) (last : Workbench) (first : Nat)
    (st : Grammar.CallStatement) (frame : Frame) (params : List (String × Declarator))
    (own landing : Nat) : Prop where
  frame?_eq : scope.frame? st.name = some frame
  shaped : frame.Shaped st.name params
  address?_eq : s.bench.globals.address? st.name = some own
  landing_eq : ∃ tags, first + 2 ≤ landing ∧ s.joined[landing - 2]? =
    some { Instruction.jump (.label (.begin frame.block) 1) with tags }
  /-- Every argument has a parameter, which is no array. -/
  args : ∀ (j : Nat) r, st.args[j]? = some (some r) → ∃ ref name d,
    r.resolve? (scope.home? last.globals) = some ref ∧ params[j]? = some (name, d) ∧
      frame.isArray name = false

/-- What the body of a subroutine finds in memory when it is called with the arguments `args`, which
have the words that they mean in `σ` as long as none of `cells` is read for them: `landing` is the
place that control returns to, and `previous` the frame that was active before. -/
structure SetUp (frame : Frame) (params : List (String × Declarator))
    (args : List (Option Reference)) (L : Layout) (cells : Set Word) (call own top : Word)
    (landing : Nat) (previous : Word) (σ m : Memory) : Prop where
  own : m.read own = top
  landing : m.read (frameCell top 0) = UInt16.ofNat landing
  previous : m.read (frameCell top 1) = previous
  supplied : ∀ (j : Nat) ref, args[j]? = some (some ref) → Readable L σ cells ref →
    m.read (frameCell top (paramOffset params j)) = ref.meaning L σ .source
  omitted : ∀ (j : Nat) name d, params[j]? = some (name, d) → (∀ ref, args[j]? ≠ some (some ref)) →
    ∀ entry ∈ d.contents top (paramOffset params j), m.read (frameCell top entry.1) = entry.2
  call : m.read call = frameCell top frame.size

namespace Placed

variable {s : Session} {scope : Scope} {last : Workbench} {first body : Nat}
  {st : Grammar.CallStatement} {params : List (String × Declarator)} {call own top : Word}
  (x : Placed s scope last first st)

/-- The subroutine is there, its body behind the place `body`, and there is room for a frame at
`top`. -/
structure Ready (params : List (String × Declarator)) (body : Nat)
    (call own top : Word) : Prop where
  shaped : x.lowering.frame.Shaped st.name params
  nodup : x.lowering.frame.table.cells.toList.Nodup
  frame?_eq : s.scope.frame? st.name = some x.lowering.frame
  begins : s.resolver.labels.lookup (.begin x.lowering.frame.block) = some body
  fits : s.bench.scratch.Fits s.bench.scratch.hidden
  ground : Ground s.bench.scratch.hidden s.resolver x.lowering.frame call own top

lemma arguments_iff {j : Nat} {ref : Reference} :
    (st.arguments scope last.globals)[j]? = some (some ref) ↔
      ∃ a ∈ x.lowering.args, a.slot = 2 + j ∧ a.ref = ref := by
  rw [x.reads.mem_args_iff, Grammar.CallStatement.arguments, List.getElem?_map]
  rcases st.args[j]? with _ | _ | r <;> simp

lemma enriches_prefix {part rest : Code} (h : x.lowering.code = part ++ rest) :
    Enriches (part.map .instruction) ((s.joined.drop first).map .instruction) := by
  intro j i hj
  refine x.enriches j i ?_
  rw [h, List.map_append, List.getElem?_append_left (List.getElem?_eq_some_iff.mp hj).1]
  exact hj

def landing : Nat := first + x.lowering.address.length + x.lowering.entry.length

lemma jumps {own : Nat} (hshape : x.lowering.frame.Shaped st.name params)
    (hown : s.bench.globals.address? st.name = some own) :
    Jumps s scope last first st x.lowering.frame params own x.landing := by
  -- the last two instructions are the jump and the one in its delay slot
  obtain ⟨front, final, hentry⟩ : ∃ front final, x.lowering.entry =
      front ++ [Instruction.jump (.label (.begin x.lowering.frame.block) 1), final] :=
    ⟨_, _, by rw [Lowering.entry, enterCode, ← List.append_assoc]⟩
  have hlength : x.lowering.entry.length = front.length + 2 := by simp [hentry]
  have hget : (x.lowering.code.map Item.instruction)[x.lowering.address.length + front.length]? =
      some (.instruction (.jump (.label (.begin x.lowering.frame.block) 1))) := by
    rw [x.lowering.code_eq_entry, hentry]
    simp
  obtain ⟨labels, hlabels⟩ := x.enriches _ _ hget
  have hplace : x.landing - 2 = first + (x.lowering.address.length + front.length) := by
    rw [landing]
    omega
  refine ⟨x.reads.frame, hshape, hown, ⟨labels, ?_, ?_⟩, fun j r hr => ?_⟩
  · rw [landing]
    omega
  · rw [hplace]
    simpa [Item.tag, Instruction.jump, Instruction.copy] using hlabels
  · obtain ⟨a, ha, hslot, href⟩ := x.reads.exists_arg hr
    obtain ⟨slot, hget, hparam, harray⟩ := x.lowering.arguments.slot_of_mem a ha
    rw [hslot] at hget
    obtain ⟨d, hd⟩ := hshape.param_of_slot hget
    exact ⟨a.ref, slot.name, d, href, hd, hparam ▸ harray⟩

/-- Where the code of the call stands that enters the subroutine, it runs through to the body. `c`
is the cell that keeps the address of the frame. -/
lemma leads {c : Word} {prog : List WordInstruction} {k : Nat} {m σ : Memory}
    (h : x.Ready params body call own top)
    (hbusy : ∀ t ∈ x.lowering.pointer.cells, x.lowering.placed.scratch.Busy t)
    (hmode : x.lowering.pointer.mode ≠ .doubleDeref)
    (hst : s.resolver.Stands prog k x.lowering.entry) (htop : m.read call = top)
    (hpointer : m.Shows (covered s.bench.scratch.hidden top x.lowering.frame.size)
      x.lowering.pointer.own (s.resolver.word x.lowering.pointer.toOperand) c)
    (hc : c ≠ 0 ∧ c ≠ frameCell top 1)
    (hpath : c ∉ m.path (s.resolver.word x.lowering.pointer.toOperand))
    (hvisible : c ∈ x.lowering.pointer.own ∨
      c ∉ covered s.bench.scratch.hidden top x.lowering.frame.size)
    (hσ : EqOff (covered s.bench.scratch.hidden top x.lowering.frame.size) σ (m.write c top))
    (d : Array Word) :
    ∃ steps m' d', Leads prog steps ⟨k, m, d⟩ ⟨(body + 1) % 65536, m', d'⟩ ∧
      SetUp x.lowering.frame params (st.arguments scope last.globals)
        (.of s.resolver scope last.globals)
        (covered s.bench.scratch.hidden top x.lowering.frame.size) call own top
        (k + x.lowering.entry.length) (m.read own) σ m' ∧
      EqOff (covered s.bench.scratch.hidden top x.lowering.frame.size ∪ {call, own}) σ m' := by
  have hsane := (grows_bench x.site x.sane).1
  have hd : (Layout.of s.resolver scope last.globals).Describes s.resolver scope
      x.lowering.opened.globals :=
    (Layout.describes_of _ _ _).grows
      ((x.grows.trans (grows_bench x.site x.sane).2).trans (x.lowering.grows_toOpened hsane))
  have hclosed : x.lowering.closed.scratch.Fits s.bench.scratch.hidden :=
    h.fits.of_prefix (((x.lowering.grows_entered hsane).2.trans
      (x.lowering.grows_left hsane).2).scratch.trans x.scratch)
  have hoffset : ∀ param n, x.lowering.frame.table.address? param = some n →
      s.resolver.word (.slot x.lowering.frame.name param) = ⟨.constant, UInt16.ofNat n⟩ := by
    intro param n hparam
    rw [h.shaped.name_eq]
    exact Session.word_slot h.frame?_eq hparam
  obtain ⟨hslots, hapart⟩ := x.reads.slots
  obtain ⟨steps, m', d', hleads, henters, hoff⟩ :=
    x.lowering.leads_entry hsane h.shaped h.nodup h.ground hoffset h.begins hd hclosed hbusy hmode
      hslots hapart hst htop hpointer hc hpath hvisible hσ d
  refine ⟨steps, m', d', hleads, ⟨henters.own, henters.landing, henters.previous,
    fun j ref href hread => ?_, fun j name d hparam hnone entry hentry => ?_, henters.call⟩, hoff⟩
  · obtain ⟨a, ha, hslot, rfl⟩ := x.arguments_iff.mp href
    have harg := henters.args a ha hread
    rwa [hslot, Nat.add_sub_cancel_left] at harg
  · refine henters.inits entry (mem_initialContents.mpr ⟨j, name, d, hparam,
      fun hmem => ?_, hentry⟩)
    obtain ⟨a, ha, hslot⟩ := List.mem_map.mp hmem
    exact hnone a.ref (x.arguments_iff.mpr ⟨a, ha, hslot, rfl⟩)

/-- A call that gives its destination a field of the finished frame, or has none, keeps the address
of the new frame in a scratch cell. -/
lemma exists_scratch (hresult : st.dest?.isSome = st.field?.isSome) : x.lowering.address = [] ∧
    ∃ t, x.lowering.pointer = .scratch t ∧ x.lowering.placed.scratch.Busy t := by
  rcases framePointer_cases x.lowering.on_framePointer with
    ⟨assign, hdest, hreturns, -⟩ | ⟨-, haddress, t, halloc, hpointer⟩
  · exfalso
    rw [x.reads.returns, Option.isNone_iff_eq_none] at hreturns
    rw [hreturns, Option.isSome_none, Option.isSome_eq_false_iff,
      Option.isNone_iff_eq_none] at hresult
    rw [x.reads.none hresult] at hdest
    cases hdest
  · refine ⟨haddress, t, hpointer, ?_⟩
    have hnamed := (x.lowering.grows_named (grows_bench x.site x.sane).1).1
    have htakes := takes_allocScratch
      (b := { x.lowering.named with tokens := Tokens.rest x.lowering.named.tokens })
      (hnamed.congr rfl rfl)
    rw [halloc] at htakes
    exact (htakes.busy t).mpr (.inr rfl)

/-- A call that keeps the address of the new frame in a scratch cell sets up the frame. The
arguments have the words that they had before. -/
lemma leads_scratch (h : x.Ready params body call own top)
    (hresult : st.dest?.isSome = st.field?.isSome) {prog : List WordInstruction}
    {k : Nat} {m : Memory} (hst : s.resolver.Stands prog k x.lowering.entry)
    (htop : m.read call = top) (d : Array Word) :
    ∃ steps m' d', Leads prog steps ⟨k, m, d⟩ ⟨(body + 1) % 65536, m', d'⟩ ∧
      SetUp x.lowering.frame params (st.arguments scope last.globals)
        (.of s.resolver scope last.globals)
        (covered s.bench.scratch.hidden top x.lowering.frame.size) call own top
        (k + x.lowering.entry.length) (m.read own) m m' ∧
      EqOff (covered s.bench.scratch.hidden top x.lowering.frame.size ∪ {call, own}) m m' := by
  obtain ⟨-, t, hpointer, hbusy⟩ := x.exists_scratch hresult
  have hsane := (grows_bench x.site x.sane).1
  obtain ⟨-, hmaking, hclosed, hleft⟩ := x.lowering.scratch_subset hsane
  have ht : t ∈ s.bench.scratch.addresses :=
    x.scratch.subset (hleft (hclosed (hmaking hbusy.mem_addresses)))
  have hhidden := h.fits.scratch t ht
  have hword : s.resolver.word x.lowering.pointer.toOperand = ⟨.constant, UInt16.ofNat t⟩ := by
    rw [hpointer]
    exact Resolver.word_cellDest _ t
  refine x.leads h (c := UInt16.ofNat t) ?_ ?_ hst htop ?_ ⟨h.fits.ne_zero ht, ?_⟩ ?_ (.inl ?_)
    (EqOff.write_self m (.inl hhidden) top) d
  · rw [hpointer]
    intro u hu
    rwa [List.mem_singleton.mp hu]
  · rw [hpointer]
    exact Mode.noConfusion
  · rw [hword, hpointer]
    exact ⟨rfl, by simp⟩
  · intro heq
    exact (h.ground.apart 1 h.shaped.one_lt_size).1 (heq ▸ hhidden)
  · rw [hword]
    simp
  · rw [hpointer]
    exact List.mem_cons_self

end Placed
end Call

namespace Session

section

variable {call own : Nat} {name : String} {frame : Frame} {top : Word}

lemma grounds {settings : Settings} {source : String} (hquote : '"' ∉ source.toList)
    (hc : (compiled settings source).bench.Clean)
    (hframe : (compiled settings source).scope.frame? name = some frame)
    (hcall : (compiled settings source).bench.globals.address? callStackName = some call)
    (hsmall : call < 65536)
    (hown : (compiled settings source).bench.globals.address? name = some own)
    (hroom : ∀ i < frame.size, frameCell top i ∉ (compiled settings source).bench.scratch.hidden ∧
      frameCell top i ≠ UInt16.ofNat call ∧ frameCell top i ≠ UInt16.ofNat own) :
    (compiled settings source).bench.scratch.Fits (compiled settings source).bench.scratch.hidden ∧
      Call.Ground (compiled settings source).bench.scratch.hidden
        (compiled settings source).resolver frame (UInt16.ofNat call) (UInt16.ofNat own) top ∧
      frame.table.cells.toList.Nodup := by
  obtain ⟨hs, harranged⟩ := arranged_expanded settings hquote
  have hlinked := (linked_expanded hc).1
  rw [compiled_eq_expanded] at hframe hcall hown hroom ⊢
  generalize expanded settings source = s at *
  have hlast : s.bench.globals.nextFree = call :=
    Option.some.inj ((SymbolTable.address?_declareArray _ _ _ _).symm.trans hcall)
  exact ⟨fits_declareCallStack hs (hlast ▸ hsmall),
    harranged.ground hs hlinked hframe hcall hown hsmall hroom,
    (harranged.frames _ (Scope.mem_of_frame? hframe)).1.nodup⟩

end


/-- The scope of the call that is statement number `n`, which is lowered after all statements. -/
def callScope (settings : Settings) (source : String) (n : Nat) : Scope :=
  { (stated settings source).scope with enclosing := (after settings source n).scope.enclosing }

def callLayout (settings : Settings) (source : String) (n : Nat) : Layout :=
  .of (compiled settings source).resolver (callScope settings source n)
    (stated settings source).bench.globals

def callArguments (settings : Settings) (source : String) (n : Nat) (st : Grammar.CallStatement) :
    List (Option Reference) :=
  st.arguments (callScope settings source n) (stated settings source).bench.globals

variable {settings : Settings} {source : String} {blocks : List Code} {n : Nat}
  {st : Grammar.CallStatement}

lemma frame?_callScope (settings : Settings) (source : String) (n : Nat) (name : String) :
    (callScope settings source n).frame? name = (stated settings source).scope.frame? name := by
  unfold callScope
  generalize stated settings source = s
  rfl

/-- Every call in a program without errors is lowered and placed. -/
theorem exists_placed (hc : (compiled settings source).bench.Clean)
    (hblocks : Blocks settings source blocks) (hst : st.IsValid)
    (hwritten : (Tokens.splitStatement (after settings source n).bench.tokens).1 = st.tokens) :
    ∃ x : Call.Placed (compiled settings source) (callScope settings source n)
      (stated settings source).bench (place settings source blocks n) st,
      place settings source blocks (n + 1) = place settings source blocks n +
      x.lowering.code.length := by
  have hnext : Tokens.peek (after settings source n).bench.tokens = "call" := by
    rw [← Tokens.splitThrough_append [";"] (after settings source n).bench.tokens]
    change Tokens.peek ((Tokens.splitStatement _).1 ++ _) = _
    rw [hwritten]
    rfl
  obtain ⟨c, htokens, henclosing, b, b₁, p, hsane, hgrows, hleft, hplace, henriches⟩ :=
    hblocks.call (clean_expanded hc) hnext
  have hscope : Call.scope c (stated settings source).scope = callScope settings source n := by
    rw [Call.scope, callScope, henclosing]
  revert p
  rw [hscope]
  intro p hplace henriches
  exact ⟨{
    site := c, start := b, left := b₁, lowering := p, sane := hsane, grows := hgrows
    scratch := by rw [scratch_compiled]; exact hleft.scratch
    reads := Grammar.CallStatement.reads_lowering hst (htokens.trans hwritten) p
      (Call.grows_bench c hsane).1 rfl
      fun name hname => (Grammar.SameNames.of_pads hgrows.globals name hname).symm
    enriches := henriches }, hplace⟩

/-- The subroutine of a call in a program without errors is there. -/
theorem exists_ready (hquote : '"' ∉ source.toList) (hc : (compiled settings source).bench.Clean)
    (hblocks : Blocks settings source blocks)
    (x : Call.Placed (compiled settings source) (callScope settings source n)
      (stated settings source).bench (place settings source blocks n) st) {call : Nat}
    (hcall : (compiled settings source).bench.globals.address? callStackName = some call)
    (hsmall : call < 65536) : ∃ params own k entry,
      x.lowering.frame.Shaped st.name params ∧
      (compiled settings source).bench.globals.address? st.name = some own ∧
      Declares settings source k st.name ∧
      Statement.WrittenParams (after settings source k) params ∧
      entry + 1 = place settings source blocks (k + 1) ∧
      ∀ top : Word, (∀ i < x.lowering.frame.size,
        frameCell top i ∉ (compiled settings source).bench.scratch.hidden ∧
        frameCell top i ≠ UInt16.ofNat call ∧ frameCell top i ≠ UInt16.ofNat own) →
        x.Ready params entry (UInt16.ofNat call) (UInt16.ofNat own) top := by
  have hstated := x.reads.frame
  rw [frame?_callScope] at hstated
  have hframe : (compiled settings source).scope.frame? st.name = some x.lowering.frame := by
    rw [scope_compiled hc, hstated]
  have hcomplete := complete_compiled hc
  obtain ⟨own, hown⟩ := hcomplete.lookup_cell (.inr (hcomplete.linked.frames _ _ hframe).1)
  obtain ⟨k, entry, hdeclares, hbegins, hentry, params, hshape, hparams⟩ := hblocks.body hc hstated
  refine ⟨params, own, k, entry, hshape, hown, hdeclares, hparams, hentry, fun top hroom => ?_⟩
  obtain ⟨hfits, hground, hnodup⟩ := grounds hquote hc hframe hcall hsmall hown hroom
  exact ⟨hshape, hnodup, hframe, hbegins, hfits, hground⟩

/-- In a program without errors, optimized or not, a call that has no destination or stores a field
sets up the frame of its subroutine. -/
theorem calls_set_up_frames (settings : Settings) (source : String) (hquote : '"' ∉ source.toList)
    (hc : ∀ d ∈ (compiled settings source).bench.diagnostics, d.isError = false)
    (hblocks : Blocks settings source blocks) (hst : st.IsValid)
    (hwritten : (Tokens.splitStatement (after settings source n).bench.tokens).1 = st.tokens)
    (hresult : st.dest?.isSome = st.field?.isSome) {call : Nat}
    (hcall : (compiled settings source).bench.globals.address? callStackName = some call)
    (hsmall : call < 65536) :
    ∃ frame params own k landing,
      Call.Jumps (compiled settings source) (callScope settings source n)
        (stated settings source).bench (place settings source blocks n) st frame params own
        landing ∧
      landing ≤ place settings source blocks (n + 1) ∧ Declares settings source k st.name ∧
      Statement.WrittenParams (after settings source k) params ∧
      ∀ (m : Memory) (d : Array Word) (top : Word), m.read (UInt16.ofNat call) = top →
        (∀ i < frame.size, frameCell top i ∉ (compiled settings source).bench.scratch.hidden ∧
          frameCell top i ≠ UInt16.ofNat call ∧ frameCell top i ≠ UInt16.ofNat own) →
        ∃ steps m' d', Leads (compile settings source).words steps
            ⟨place settings source blocks n, m, d⟩
            ⟨place settings source blocks (k + 1) % 65536, m', d'⟩ ∧
          Call.SetUp frame params (callArguments settings source n st)
            (callLayout settings source n)
            (Call.covered (compiled settings source).bench.scratch.hidden top frame.size)
            (UInt16.ofNat call) (UInt16.ofNat own) top landing (m.read (UInt16.ofNat own)) m m' ∧
          EqOff (Call.covered (compiled settings source).bench.scratch.hidden top frame.size ∪
            {UInt16.ofNat call, UInt16.ofNat own}) m m' := by
  obtain ⟨x, hplace⟩ := exists_placed hc hblocks hst hwritten
  obtain ⟨params, own, k, entry, hshape, hown, hdeclares, hparams, hentry, hready⟩ :=
    exists_ready hquote hc hblocks x hcall hsmall
  obtain ⟨haddress, -⟩ := x.exists_scratch hresult
  have hcode : x.lowering.code = x.lowering.entry ++ x.lowering.result := by
    rw [x.lowering.code_eq_entry, haddress, List.nil_append]
  have hlanding : x.landing = place settings source blocks n + x.lowering.entry.length := by
    rw [Call.Placed.landing, haddress, List.length_nil, Nat.add_zero]
  obtain ⟨prog, hstands, hsame⟩ := (complete_compiled hc).exists_stands (x.enriches_prefix hcode)
    (Call.Lowering.steady_entry hshape) Call.Lowering.getLast?_entry
  refine ⟨x.lowering.frame, params, own, k, x.landing, x.jumps hshape hown, ?_, hdeclares,
    hparams, fun m d top htop hroom => ?_⟩
  · rw [hplace, hlanding, hcode, List.length_append]
    omega
  · obtain ⟨steps, m', d', hleads, hsetUp, hoff⟩ :=
      x.leads_scratch (hready top hroom) hresult hstands htop d
    rw [hlanding, ← hentry]
    exact ⟨steps, m', d', hleads.congr hsame, hsetUp, hoff⟩

/-- A subroutine that calls itself with one of its own parameters. -/
def recursive : String := "sub f(a, b = 7, c[2] = \x7b3\x7d) \x7b call f(b); \x7d"

def recursiveHeading : Grammar.Heading where
  name := "f"
  params := [(.word "a", ","), (.value "b" (.number [] "7"), ","),
    (.list "c" "2" (.number [] "3") [], ")")]

def recursiveCall : Grammar.CallStatement := ⟨none, "f", [some (.named [] "b")], none⟩

/-- A memory in which the active frame of `f` is at 10, with 42 for `b`, and the next one will be at
17. -/
def nested : Memory := ((Memory.zero.write 3 10).write 13 42).write 6 17

/-- The frame of the inner call is set up. Its argument is read through the frame of the outer one,
and the parameters without an argument have the values of the heading. -/
theorem calls_set_up_frames_recursive :
    '"' ∉ recursive.toList ∧ recursiveCall.IsValid ∧
    (∀ d ∈ (compiled {} recursive).bench.diagnostics, d.isError = false) ∧
    (compiled {} recursive).bench.globals.address? callStackName = some 6 ∧ nested.read 6 = 17 ∧
    ∃ blocks k steps m' d', Blocks {} recursive blocks ∧ Declares {} recursive k "f" ∧
      Leads (compile {} recursive).words steps ⟨place {} recursive blocks 1, nested, #[]⟩
        ⟨place {} recursive blocks (k + 1) % 65536, m', d'⟩ ∧
      m'.read 3 = 17 ∧ m'.read (frameCell 17 1) = 10 ∧ m'.read (frameCell 17 2) = 42 ∧
      m'.read (frameCell 17 3) = 7 ∧ m'.read (frameCell 17 4) = frameCell 17 5 ∧
      m'.read (frameCell 17 5) = 3 ∧ m'.read 6 = frameCell 17 7 := by
  have hcompiled : (∀ d ∈ (compiled {} recursive).bench.diagnostics, d.isError = false) ∧
      (compiled {} recursive).bench.globals.address? callStackName = some 6 ∧
      (compiled {} recursive).bench.globals.address? recursiveCall.name = some 3 ∧
      (compiled {} recursive).bench.scratch.addresses = [2, 4, 5] := by decide +kernel
  have hsite :
      (Tokens.splitStatement (after {} recursive 1).bench.tokens).1 = recursiveCall.tokens ∧
      ((callScope {} recursive 1).frame? recursiveCall.name).map Frame.size = some 7 ∧
      (callArguments {} recursive 1 recursiveCall)[0]? = some (some (.plain ⟨0, "b", .frame "f"⟩)) ∧
      (callArguments {} recursive 1 recursiveCall).length = 1 ∧
      (Reference.plain ⟨0, "b", .frame "f"⟩).reads (callLayout {} recursive 1) nested .source =
        [3, 13] ∧
      (Reference.plain ⟨0, "b", .frame "f"⟩).meaning (callLayout {} recursive 1) nested .source =
        42 := by
    decide +kernel
  obtain ⟨hc, hcall, haddress, hpool⟩ := hcompiled
  obtain ⟨hwritten, hsize, harg, harity, hreads, hmeaning⟩ := hsite
  have hquote : '"' ∉ recursive.toList := by decide
  have htop : nested.read 6 = 17 ∧ nested.read 3 = 10 := by decide +kernel
  have hst : recursiveCall.IsValid := by
    refine ⟨by simp [recursiveCall], by decide, ?_, by simp [recursiveCall]⟩
    intro r hr
    obtain rfl : r = .named [] "b" := by simpa [recursiveCall] using hr
    exact ⟨by decide +kernel, by decide, by decide⟩
  obtain ⟨blocks, hblocks⟩ := exists_blocks {} recursive
  obtain ⟨frame, params, own, k, landing, hjumps, -, hdeclares, hparams, hrun⟩ :=
    calls_set_up_frames {} recursive hquote hc hblocks hst hwritten rfl hcall (by decide)
  -- the parameters of the heading
  obtain rfl : k = 0 := hdeclares.eq_of_frames (by decide +kernel)
  have hheading : recursiveHeading.IsValid ∧
      (after {} recursive 0).bench.tokens = recursiveHeading.tokens ++
      ["call", "f", "(", "b", ")", ";", "\x7d"] ∧
      recursiveHeading.declared? (after {} recursive 0).scope
        ((after {} recursive 0).bench.globals.declareWord "f") (after {} recursive 0).bench.nextId =
          some [("a", .word), ("b", .wordWithDefault 7), ("c", .array 2 [3])] := by decide +kernel
  obtain rfl := hparams recursiveHeading _ _ hheading.1 hheading.2.1 hheading.2.2
  rw [hjumps.frame?_eq, Option.map_some, Option.some.injEq] at hsize
  obtain rfl : own = 3 := Option.some.inj (hjumps.address?_eq.symm.trans haddress)
  have hhidden : ∀ w : Word, w ∈ (compiled {} recursive).bench.scratch.hidden →
      w ∈ ([0, 2, 4, 5] : List Word) := by
    rintro w (rfl | ⟨t, ht, rfl⟩)
    · decide
    · rw [hpool] at ht
      revert t
      decide
  have hroom : ∀ i < 7, frameCell 17 i ∉ (compiled {} recursive).bench.scratch.hidden ∧
      frameCell 17 i ≠ 6 ∧ frameCell 17 i ≠ 3 := by
    have hcells : ∀ i < 7, frameCell 17 i ∉ ([0, 2, 4, 5] : List Word) ∧ frameCell 17 i ≠ 6 ∧
        frameCell 17 i ≠ 3 := by decide
    exact fun i hi => ⟨fun h => (hcells i hi).1 (hhidden _ h), (hcells i hi).2⟩
  have hreadable : Call.Readable (callLayout {} recursive 1) nested
      (Call.covered (compiled {} recursive).bench.scratch.hidden 17 7)
      (.plain ⟨0, "b", .frame "f"⟩) := by
    have hcells : ∀ w ∈ ([3, 13] : List Word), w ∉ ([0, 2, 4, 5] : List Word) ∧
        ∀ i < 7, w ≠ frameCell 17 i := List.all_iff_forall_prop.mp (by decide)
    refine ⟨by decide, fun w hw => ?_⟩
    rw [hreads] at hw
    rintro (h | ⟨i, hi, heq⟩)
    · exact (hcells w hw).1 (hhidden w h)
    · exact (hcells w hw).2 i hi heq
  obtain ⟨steps, m', d', hleads, hsetUp, -⟩ := hrun nested #[] 17 htop.1 (hsize ▸ hroom)
  rw [hsize] at hsetUp
  have hb := hsetUp.omitted 1 "b" _ rfl (by simp [harity])
  have hd := hsetUp.omitted 2 "c" _ rfl (by simp [harity])
  refine ⟨hquote, hst, hc, hcall, htop.1, blocks, 0, steps, m', d', hblocks, hdeclares, hleads,
    hsetUp.own, hsetUp.previous.trans htop.2, ?_, ?_, ?_, ?_, ?_⟩
  · exact (hsetUp.supplied 0 _ harg hreadable).trans hmeaning
  · exact hb (3, 7) (by decide)
  · exact hd (4, frameCell 17 5) (by decide)
  · exact hd (5, 3) (by decide)
  · exact hsize ▸ hsetUp.call

/-- A program that moves its call stack over the display and a scratch cell. -/
def overlapping : String := "my r; sub f() \x7b r = $2; \x7d $6 = 1; call f();"

/-- A frame over a scratch cell does not keep the frame that was active before. -/
theorem frame_over_scratch_cell :
    '"' ∉ overlapping.toList ∧
    (∀ d ∈ (compiled {} overlapping).bench.diagnostics, d.isError = false) ∧
    (Tokens.splitStatement (after {} overlapping 5).bench.tokens).1 =
      Grammar.CallStatement.tokens ⟨none, "f", [], none⟩ ∧
    Declares {} overlapping 1 "f" ∧
    (compiled {} overlapping).bench.globals.address? callStackName = some 6 ∧
    (compiled {} overlapping).bench.globals.address? "f" = some 4 ∧
    ∃ blocks m, Blocks {} overlapping blocks ∧ Memory.read m 6 = 1 ∧ m.read 4 = 0 ∧
      let final := (standing (compile {} overlapping).words ⟨place {} overlapping blocks 5,
      m, #[]⟩ 0).run 7
      final.next = place {} overlapping blocks 2 + 1 ∧ final.pending = none ∧
        final.memory.read (frameCell 1 1) ≠ m.read 4 := by
  have hcompiled : (∀ d ∈ (compiled {} overlapping).bench.diagnostics, d.isError = false) ∧
      (compiled {} overlapping).bench.globals.address? callStackName = some 6 ∧
      (compiled {} overlapping).bench.globals.address? "f" = some 4 ∧
      (compiled {} overlapping).preamble.length = 0 := by decide +kernel
  have hafter : (Tokens.splitStatement (after {} overlapping 5).bench.tokens).1 =
        Grammar.CallStatement.tokens ⟨none, "f", [], none⟩ ∧
      (after {} overlapping 5).calls = [] ∧ (after {} overlapping 5).program.length = 9 ∧
      (after {} overlapping 2).calls = [] ∧ (after {} overlapping 2).program.length = 3 ∧
      (after {} overlapping 1).scope.frame? "f" = none ∧
      ((after {} overlapping 2).scope.frame? "f").isSome = true := by decide +kernel
  have hrun : let final :=
    (standing (compile {} overlapping).words ⟨9, Memory.zero.write 6 1, #[]⟩ 0).run 7
      final.next = 4 ∧ final.pending = none ∧
        final.memory.read (frameCell 1 1) ≠ (Memory.zero.write 6 1).read 4 := by decide +kernel
  obtain ⟨hc, hcall, hown, hpreamble⟩ := hcompiled
  obtain ⟨hwritten, hcalls, hlength, hcalls', hlength', hdeclares⟩ := hafter
  obtain ⟨blocks, hblocks⟩ := exists_blocks {} overlapping
  have hplace : place {} overlapping blocks 5 = 9 := by
    rw [hblocks.place_eq hcalls, hpreamble, hlength]
  have hbody : place {} overlapping blocks 2 = 3 := by
    rw [hblocks.place_eq hcalls', hpreamble, hlength']
  refine ⟨by decide, hc, hwritten, hdeclares, hcall, hown, blocks, Memory.zero.write 6 1, hblocks,
    by decide +kernel, by decide +kernel, ?_⟩
  rw [hplace, hbody]
  exact hrun

end Session
end CogolToolchain
