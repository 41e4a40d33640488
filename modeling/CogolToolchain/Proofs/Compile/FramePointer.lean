import CogolToolchain.Proofs.Compile.FrameSetup

/-!
Calls that return a pointer to their frame.

The destination of such a call gets the address of the new frame before the arguments are worked
out. An argument that reads the destination therefore sees the new frame, and all others have the
words that they had before the call.
-/

namespace CogolToolchain

open Memory Machine Work Attempt

/-! ### References to cells that did not change -/

namespace Reference

variable {L : Layout} {m m' : Memory} {ref : Reference}

lemma start_congr (h : ∀ c ∈ ref.startReads L m, m'.read c = m.read c) :
    ref.start L m' = ref.start L m ∧ ref.startReads L m' = ref.startReads L m := by
  have horigin : ∀ home, (∀ c ∈ L.originReads home, m'.read c = m.read c) →
      L.origin m' home = L.origin m home := by
    intro home hreads
    cases home with
    | global => rfl
    | frame owner => exact hreads _ List.mem_cons_self
  have hcell : ∀ head : Head, (∀ c ∈ L.originReads head.home, m'.read c = m.read c) →
      L.cell m' head = L.cell m head := by
    intro head hreads
    rw [Layout.cell, Layout.cell, horigin head.home hreads]
  induction ref with
  | numeral => exact ⟨rfl, rfl⟩
  | plain head => exact ⟨hcell head h, rfl⟩
  | field head name =>
    simp only [startReads, List.mem_append, List.mem_singleton] at h
    have hsame := hcell head fun c hc => h c (.inl hc)
    simp only [start, startReads, hsame, h _ (.inr rfl), and_self]
  | element head index ih =>
    simp only [startReads, List.mem_append] at h
    obtain ⟨hstart, hreads⟩ := ih fun c hc => h c (by tauto)
    have hsame := hcell head fun c hc => h c (by tauto)
    have htail : ∀ c ∈ m.trail index.depth.toNat (index.start L m), m'.read c = m.read c :=
      fun c hc => h c (by tauto)
    have hfollow := follow_congr htail
    have htrail := trail_congr htail
    by_cases harray : L.type head.home head.name = .array
    · simp only [start, startReads, harray, if_true, hsame, hstart, hreads, hfollow,
        htrail, and_self]
    · have hbase := h (L.cell m head) (.inr (by simp [harray]))
      simp only [start, startReads, harray, if_false, hsame, hstart, hreads, hfollow, htrail, hbase,
        and_self]

lemma meaning_congr {role : Role} (h : ∀ c ∈ ref.reads L m role, m'.read c = m.read c) :
    ref.meaning L m' role = ref.meaning L m role ∧ ref.reads L m' role = ref.reads L m role := by
  simp only [reads, List.mem_append] at h
  obtain ⟨hstart, hreads⟩ := start_congr fun c hc => h c (.inl hc)
  rw [meaning, meaning, reads, reads, hstart, hreads, follow_congr fun c hc => h c (.inr hc),
    trail_congr fun c hc => h c (.inr hc)]
  exact ⟨rfl, rfl⟩

end Reference

namespace Call

lemma Readable.write {L : Layout} {m : Memory} {cells : Set Word} {ref : Reference} {c : Word}
    (h : Readable L m (cells ∪ {c}) ref) (w : Word) : Readable L (m.write c w) cells ref ∧
      ref.meaning L (m.write c w) .source = ref.meaning L m .source := by
  have hsame : ∀ a ∈ ref.reads L m .source, (m.write c w).read a = m.read a := by
    intro a ha
    refine read_write_ne _ _ ?_
    rintro rfl
    exact h.2 c ha (.inr rfl)
  obtain ⟨hmeaning, hreads⟩ := Reference.meaning_congr hsame
  refine ⟨⟨h.1, fun a ha hmem => ?_⟩, hmeaning⟩
  rw [hreads] at ha
  exact h.2 a ha (.inl hmem)

namespace Placed

variable {s : Session} {scope : Scope} {last : Workbench} {first body : Nat}
  {st : Grammar.CallStatement} {params : List (String × Declarator)} {call own top : Word}
  (x : Placed s scope last first st) {dest : Grammar.Ref} {op : Token} {ref : Reference}

lemma lower_destination (hdest : st.dest? = some (dest, op)) (hfield : st.field? = none)
    (hresolve : dest.resolve? (scope.home? last.globals) = some ref) : ref.Proper scope ∧ ∃ b₁ ts,
      Yields (ref.lower scope .destination) { bench x.site x.start with tokens := ts }
        (x.lowering.pointer, x.lowering.address) b₁ ∧ x.lowering.placed.scratch = b₁.scratch := by
  obtain ⟨ref', a, code, b₁, ts, hresolve', hproper, hlower, hsome, hnamed⟩ :=
    x.reads.some dest op hdest
  obtain rfl := Option.some.inj (hresolve.symm.trans hresolve')
  have hreturns : x.site.returnsPointer = true := by rw [x.reads.returns, hfield]; rfl
  rcases framePointer_cases x.lowering.on_framePointer with
    ⟨assign, hpointer, -, hplaced⟩ | ⟨hnone | hfalse, -⟩
  · obtain ⟨rfl, rfl, -⟩ : a = x.lowering.pointer ∧ code = x.lowering.address ∧ op = assign := by
      simpa using hsome.symm.trans hpointer
    exact ⟨hproper, b₁, ts, hlower, by rw [hplaced, hnamed]⟩
  · rw [hnone] at hsome
    cases hsome
  · rw [hreturns] at hfalse
    cases hfalse

lemma steady_pointer (hdest : st.dest? = some (dest, op)) (hfield : st.field? = none)
    (hresolve : dest.resolve? (scope.home? last.globals) = some ref)
    (hshape : x.lowering.frame.Shaped st.name params) :
    ∀ i ∈ x.lowering.address ++ x.lowering.entry, i.IsSteady := by
  obtain ⟨-, b₁, ts, hlower, -⟩ := x.lower_destination hdest hfield hresolve
  intro i hi
  rcases List.mem_append.mp hi with hi | hi
  · exact .inl (Reference.adds_lower hlower i hi)
  · exact Lowering.steady_entry hshape i hi

/-- A call that returns a pointer sets up the frame. The arguments have the words that they mean
once the destination, the cell `c`, points to the new frame. -/
lemma leads_pointer (h : x.Ready params body call own top)
    (hdest : st.dest? = some (dest, op)) (hfield : st.field? = none)
    (hresolve : dest.resolve? (scope.home? last.globals) = some ref)
    {prog : List WordInstruction} {k : Nat} {m : Memory} {c : Word}
    (hst : s.resolver.Stands prog k (x.lowering.address ++ x.lowering.entry))
    (htop : m.read call = top) (hground : ref.isGrounded .destination = true)
    (hmeaning : ref.meaning (.of s.resolver scope last.globals) m .destination = c)
    (hc : c ∉ covered s.bench.scratch.hidden top x.lowering.frame.size)
    (hreads : ∀ w ∈ ref.reads (.of s.resolver scope last.globals) m .destination,
      w ∉ covered s.bench.scratch.hidden top x.lowering.frame.size ∪ {c}) (d : Array Word) :
    ∃ steps m' d', Leads prog steps ⟨k, m, d⟩ ⟨(body + 1) % 65536, m', d'⟩ ∧
      SetUp x.lowering.frame params (st.arguments scope last.globals)
        (.of s.resolver scope last.globals)
        (covered s.bench.scratch.hidden top x.lowering.frame.size) call own top
        (k + x.lowering.address.length + x.lowering.entry.length) (m.read own) (m.write c top) m' ∧
      EqOff (covered s.bench.scratch.hidden top x.lowering.frame.size ∪ {call, own})
        (m.write c top) m' := by
  obtain ⟨hproper, b₁, ts, hlower, hplaced⟩ := x.lower_destination hdest hfield hresolve
  have hbench := grows_bench x.site x.sane
  have hsane := hbench.1
  obtain ⟨-, hmaking, hclosed, hleft⟩ := x.lowering.scratch_subset hsane
  have hfits : b₁.scratch.Fits s.bench.scratch.hidden := by
    refine ⟨h.fits.zero, fun t ht => h.fits.scratch t ?_, fun t ht => h.fits.small t ?_⟩
    all_goals
      rw [← hplaced] at ht
      exact x.scratch.subset (hleft (hclosed (hmaking ht)))
  -- what the destination reads is neither written by the call nor the destination itself
  have hfits' : b₁.scratch.Fits (covered s.bench.scratch.hidden top x.lowering.frame.size ∪ {c}) :=
    ⟨.inl (.inl hfits.zero), fun t ht => .inl (.inl (hfits.scratch t ht)), hfits.small⟩
  have hd : (Layout.of s.resolver scope last.globals).Describes s.resolver scope
      (bench x.site x.start).globals :=
    (Layout.describes_of _ _ _).grows (x.grows.trans hbench.2)
  have hcomputes := Reference.computes_of_lower hlower (hsane.congr rfl rfl) hproper hd hfits'
  obtain ⟨hst₁, hst₂⟩ := s.resolver.stands_append.mp hst
  have hquiet := quiet_words (r := s.resolver) hfits hcomputes.lowers.quiet
  have hleads₁ := Leads.of_quiet hst₁.sits (fun i hi => (hquiet i hi).1) m d
  have heq₁ := (eqOff_after_words (r := s.resolver) hfits hcomputes.lowers.quiet (k + ·) m).mono
    hfits.spare_subset
  have hshows := hcomputes.shows (k + ·) m m (EqOff.refl _ m) hground hreads
  rw [s.resolver.length_words] at hleads₁
  rw [hmeaning] at hshows
  generalize after (k + ·) (s.resolver.words x.lowering.address) m = m₁ at hleads₁ heq₁ hshows
  obtain ⟨n, hn⟩ := hcomputes.lowers.known
  rw [← s.resolver.word_of_known hn] at hshows
  have hown : ∀ w ∈ x.lowering.pointer.own, w ∈ s.bench.scratch.hidden := by
    intro w hw
    obtain ⟨t, ht, rfl⟩ := List.mem_map.mp hw
    exact hfits.scratch t (hcomputes.lowers.own_mem ht).mem_addresses
  have hpath : c ∉ m₁.path (s.resolver.word x.lowering.pointer.toOperand) := by
    intro hmem
    rcases hshows.path c hmem with hw | hw
    · exact hc (.inl (hown c hw))
    · exact hw (.inr rfl)
  have hpointer : m₁.Shows (covered s.bench.scratch.hidden top x.lowering.frame.size)
      x.lowering.pointer.own (s.resolver.word x.lowering.pointer.toOperand) c :=
    ⟨hshows.eval_eq, fun w hw => (hshows.path w hw).imp_right fun hnot hmem => hnot (.inl hmem)⟩
  have hbusy : ∀ t ∈ x.lowering.pointer.cells, x.lowering.placed.scratch.Busy t := by
    intro t ht
    rw [hplaced]
    exact hcomputes.lowers.own_mem ht
  have hc' : c ≠ 0 ∧ c ≠ frameCell top 1 := by
    constructor
    · rintro rfl
      exact hc (.inl h.fits.zero)
    · rintro rfl
      exact hc (cell_mem_covered h.shaped.one_lt_size)
  obtain ⟨steps, m', d', hleads, hsetUp, hoff⟩ :=
    x.leads h hbusy (Reference.mode_of_lower hlower) hst₂
      ((heq₁ call h.ground.call_notMem).trans htop) hpointer hc' hpath (.inr hc)
    ((heq₁.mono Set.subset_union_left).write c top) d
  rw [heq₁ own h.ground.own_notMem] at hsetUp
  exact ⟨_, m', d', hleads₁.trans hleads, hsetUp, hoff⟩

end Placed
end Call

namespace Session

variable {blocks : List Code} {n : Nat} {st : Grammar.CallStatement}

/-- In a program without errors, optimized or not, a call that returns a pointer sets up the frame
of its subroutine. The destination, the cell `c`, has the address of the frame when the arguments
are worked out. The arguments that do not read it have the words that they had before the call. -/
theorem pointer_calls_set_up_frames (settings : Settings) (source : String)
    (hquote : '"' ∉ source.toList)
    (hc : ∀ d ∈ (compiled settings source).bench.diagnostics, d.isError = false)
    (hblocks : Blocks settings source blocks) (hst : st.IsValid)
    (hwritten : (Tokens.splitStatement (after settings source n).bench.tokens).1 = st.tokens)
    {dest : Grammar.Ref} {op : Token} (hdest : st.dest? = some (dest, op))
    (hfield : st.field? = none) {call : Nat}
    (hcall : (compiled settings source).bench.globals.address? callStackName = some call)
    (hsmall : call < 65536) :
    ∃ frame params own k landing target,
      Call.Jumps (compiled settings source) (callScope settings source n)
        (stated settings source).bench (place settings source blocks n) st frame params own
        landing ∧
      landing ≤ place settings source blocks (n + 1) ∧ Declares settings source k st.name ∧
      Statement.WrittenParams (after settings source k) params ∧
      dest.resolve? ((callScope settings source n).home? (stated settings source).bench.globals) =
        some target ∧
      ∀ (m : Memory) (d : Array Word) (top c : Word), m.read (UInt16.ofNat call) = top →
        (∀ i < frame.size, frameCell top i ∉ (compiled settings source).bench.scratch.hidden ∧
          frameCell top i ≠ UInt16.ofNat call ∧ frameCell top i ≠ UInt16.ofNat own) →
        target.isGrounded .destination = true →
        target.meaning (callLayout settings source n) m .destination = c →
        c ∉ Call.covered (compiled settings source).bench.scratch.hidden top frame.size →
        (∀ w ∈ target.reads (callLayout settings source n) m .destination,
          w ∉ Call.covered (compiled settings source).bench.scratch.hidden top frame.size ∪ {c}) →
        ∃ steps m' d', Leads (compile settings source).words steps
            ⟨place settings source blocks n, m, d⟩
            ⟨place settings source blocks (k + 1) % 65536, m', d'⟩ ∧
          Call.SetUp frame params (callArguments settings source n st)
            (callLayout settings source n)
            (Call.covered (compiled settings source).bench.scratch.hidden top frame.size)
            (UInt16.ofNat call) (UInt16.ofNat own) top landing (m.read (UInt16.ofNat own))
            (m.write c top) m' ∧
          (∀ (j : Nat) ref, (callArguments settings source n st)[j]? = some (some ref) →
            Call.Readable (callLayout settings source n) m
              (Call.covered (compiled settings source).bench.scratch.hidden top frame.size ∪ {c})
              ref →
            m'.read (frameCell top (paramOffset params j)) =
              ref.meaning (callLayout settings source n) m .source) ∧
          EqOff (Call.covered (compiled settings source).bench.scratch.hidden top frame.size ∪
            {UInt16.ofNat call, UInt16.ofNat own}) (m.write c top) m' := by
  obtain ⟨x, hplace⟩ := exists_placed hc hblocks hst hwritten
  obtain ⟨params, own, k, entry, hshape, hown, hdeclares, hparams, hentry, hready⟩ :=
    exists_ready hquote hc hblocks x hcall hsmall
  obtain ⟨target, -, -, -, -, hresolve, -⟩ := x.reads.some dest op hdest
  have hlast : ∃ i, (x.lowering.address ++ x.lowering.entry).getLast? = some i ∧
      i.opcode = .add := by
    obtain ⟨i, hi, hadd⟩ := Call.Lowering.getLast?_entry (p := x.lowering)
    exact ⟨i, by rw [List.getLast?_append, hi]; rfl, hadd⟩
  obtain ⟨prog, hstands, hsame⟩ := (complete_compiled hc).exists_stands
    (x.enriches_prefix x.lowering.code_eq_entry) (x.steady_pointer hdest hfield hresolve hshape)
    hlast
  refine ⟨x.lowering.frame, params, own, k, x.landing, target, x.jumps hshape hown, ?_, hdeclares,
    hparams, hresolve, fun m d top c htop hroom hground hmeaning hc hreads => ?_⟩
  · rw [hplace, x.lowering.code_eq_entry, Call.Placed.landing, List.length_append,
      List.length_append]
    omega
  · obtain ⟨steps, m', d', hleads, hsetUp, hoff⟩ :=
      x.leads_pointer (hready top hroom) hdest hfield hresolve hstands htop hground
        hmeaning hc hreads d
    rw [← hentry]
    refine ⟨steps, m', d', hleads.congr hsame, hsetUp, fun j ref href hreadable => ?_, hoff⟩
    obtain ⟨hread, hword⟩ := hreadable.write top
    exact (hsetUp.supplied j ref href hread).trans hword

/-- A call whose destination is one of its arguments. -/
def aliased : String := "my p = 5; my q = 6; sub f(a, b) \x7b \x7d call p = f(q, p);"

def aliasedCall : Grammar.CallStatement :=
  ⟨some (.named [] "p", "="), "f", [some (.named [] "q"), some (.named [] "p")], none⟩

/-- The memory before that call: the variables are at 3 and 4, and the frame will be at 7. -/
def unaliased : Memory := ((Memory.zero.write 3 5).write 4 6).write 6 7

/-- The first argument has its word. The second one has the address of the frame, and not the word 5
that it had before the call. -/
theorem pointer_calls_set_up_frames_aliased :
    '"' ∉ aliased.toList ∧ aliasedCall.IsValid ∧
    (∀ d ∈ (compiled {} aliased).bench.diagnostics, d.isError = false) ∧
    (compiled {} aliased).bench.globals.address? callStackName = some 6 ∧ unaliased.read 6 = 7 ∧
    unaliased.read 3 = 5 ∧ ∃ blocks k steps m' d', Blocks {} aliased blocks ∧
    Declares {} aliased k "f" ∧
      Leads (compile {} aliased).words steps ⟨place {} aliased blocks 4, unaliased, #[]⟩
        ⟨place {} aliased blocks (k + 1) % 65536, m', d'⟩ ∧
      m'.read (frameCell 7 2) = 6 ∧ m'.read (frameCell 7 3) = 7 := by
  have hcompiled : (∀ d ∈ (compiled {} aliased).bench.diagnostics, d.isError = false) ∧
      (compiled {} aliased).bench.globals.address? callStackName = some 6 ∧
      (compiled {} aliased).bench.globals.address? aliasedCall.name = some 5 ∧
      (compiled {} aliased).bench.scratch.addresses = [2] := by decide +kernel
  have hsite : (Tokens.splitStatement (after {} aliased 4).bench.tokens).1 = aliasedCall.tokens ∧
      (∀ frame ∈ (callScope {} aliased 4).frame? aliasedCall.name, frame.size = 4 ∧
        frame.slots[3]?.map Slot.name = some "b" ∧ frame.table.address? "b" = some 3 ∧
        frame.table.cells.toList.Nodup) ∧
      Grammar.Ref.resolve? ((callScope {} aliased 4).home? (stated {} aliased).bench.globals)
        (.named [] "p") = some (.plain ⟨0, "p", .global⟩) ∧
      callArguments {} aliased 4 aliasedCall =
        [some (.plain ⟨0, "q", .global⟩), some (.plain ⟨0, "p", .global⟩)] ∧
      (callLayout {} aliased 4).offset .global "p" = 3 ∧
      (callLayout {} aliased 4).offset .global "q" = 4 := by decide +kernel
  obtain ⟨hc, hcall, haddress, hpool⟩ := hcompiled
  obtain ⟨hwritten, hframe, hresolve, hargs, hp, hq⟩ := hsite
  have hquote : '"' ∉ aliased.toList := by decide
  have hread : unaliased.read 6 = 7 ∧ unaliased.read 3 = 5 ∧ unaliased.read 4 = 6 := by
    decide +kernel
  have hst : aliasedCall.IsValid := by
    have hargs : ∀ r, some r ∈ aliasedCall.args → r = .named [] "q" ∨ r = .named [] "p" := by
      simp [aliasedCall]
    refine ⟨?_, by decide, fun r hr => ?_, by simp [aliasedCall]⟩
    · rintro dest op hdest
      obtain ⟨rfl, rfl⟩ : dest = .named [] "p" ∧ op = "=" := by
        simpa [aliasedCall, eq_comm] using hdest
      exact ⟨by decide +kernel, by decide, by decide⟩
    · rcases hargs r hr with rfl | rfl <;> exact ⟨by decide +kernel, by decide, by decide⟩
  obtain ⟨blocks, hblocks⟩ := exists_blocks {} aliased
  obtain ⟨frame, params, own, k, landing, target, hjumps, -, hdeclares, -, htarget, hrun⟩ :=
    pointer_calls_set_up_frames {} aliased hquote hc hblocks hst hwritten rfl rfl hcall (by decide)
  obtain ⟨hsize, hname, hb, hnodup⟩ := hframe frame hjumps.frame?_eq
  obtain rfl : own = 5 := Option.some.inj (hjumps.address?_eq.symm.trans haddress)
  obtain rfl := Option.some.inj (hresolve.symm.trans htarget)
  -- the second parameter is in the fourth cell
  have hoffset : paramOffset params 1 = 3 := by
    obtain ⟨slot, hslot, hname⟩ := Option.map_eq_some_iff.mp hname
    obtain ⟨d, hd⟩ := hjumps.shaped.param_of_slot (j := 1) hslot
    have hcell := hjumps.shaped.address?_param hnodup hd
    rw [hname, hb] at hcell
    exact (Option.some.inj hcell).symm
  have hhidden : ∀ w : Word, w ∈ (compiled {} aliased).bench.scratch.hidden →
      w ∈ ([0, 2] : List Word) := by
    rintro w (rfl | ⟨t, ht, rfl⟩)
    · decide
    · rw [hpool] at ht
      revert t
      decide
  have hcells :
      (∀ i < 4, frameCell 7 i ∉ ([0, 2] : List Word) ∧ frameCell 7 i ≠ 6 ∧ frameCell 7 i ≠ 5) ∧
      ∀ i < 4, (3 : Word) ≠ frameCell 7 i ∧ (4 : Word) ≠ frameCell 7 i := by decide
  have hp' : (3 : Word) ∉ Call.covered (compiled {} aliased).bench.scratch.hidden 7 4 := by
    rintro (h | ⟨i, hi, heq⟩)
    · exact absurd (hhidden _ h) (by decide)
    · exact (hcells.2 i hi).1 heq
  have hq' : (4 : Word) ∉ Call.covered (compiled {} aliased).bench.scratch.hidden 7 4 ∪ {3} := by
    rintro ((h | ⟨i, hi, heq⟩) | h)
    · exact absurd (hhidden _ h) (by decide)
    · exact (hcells.2 i hi).2 heq
    · exact absurd h (by decide)
  -- a plain global variable is its cell, and reads it as a source
  have hdest : (Reference.plain ⟨0, "p", .global⟩).meaning (callLayout {} aliased 4) unaliased
        .destination = 3 ∧
      (Reference.plain ⟨0, "p", .global⟩).reads (callLayout {} aliased 4) unaliased .destination =
      [] := by
    simp [Reference.meaning, Reference.reads, Reference.level, Reference.depth, Role.drop,
      Reference.start, Reference.startReads, Layout.cell, Layout.origin, Layout.originReads, hp,
      follow,
      trail]
  have hsource : ∀ (name : String) (a : Word) (m : Memory),
      UInt16.ofNat ((callLayout {} aliased 4).offset .global name) = a →
      (Reference.plain ⟨0, name, .global⟩).meaning (callLayout {} aliased 4) m .source = m.read a ∧
      (Reference.plain ⟨0, name, .global⟩).reads (callLayout {} aliased 4) m .source = [a] := by
    rintro name a m rfl
    simp [Reference.meaning, Reference.reads, Reference.level, Reference.depth, Role.drop,
      Reference.start, Reference.startReads, Layout.cell, Layout.origin, Layout.originReads, follow,
      trail]
  obtain ⟨steps, m', d', hleads, hsetUp, hkept, -⟩ := hrun unaliased #[] 7 3 hread.1
    (fun i hi => by
      rw [hsize] at hi
      exact ⟨fun h => (hcells.1 i hi).1 (hhidden _ h), (hcells.1 i hi).2⟩)
    (by decide) hdest.1 (hsize ▸ hp') (by rw [hdest.2]; simp)
  rw [hsize, hargs] at hsetUp hkept
  refine ⟨hquote, hst, hc, hcall, hread.1, hread.2.1, blocks, k, steps, m', d', hblocks,
    hdeclares, hleads, ?_, ?_⟩
  · obtain ⟨hmeaning, hreads⟩ := hsource "q" 4 unaliased (by rw [hq]; rfl)
    have hword := hkept 0 _ rfl ⟨by decide, by rw [hreads]; simpa using hq'⟩
    rw [hmeaning, hread.2.2] at hword
    exact hword
  · obtain ⟨hmeaning, hreads⟩ := hsource "p" 3 (unaliased.write 3 7) (by rw [hp]; rfl)
    have hword := hsetUp.supplied 1 _ rfl ⟨by decide, by rw [hreads]; simpa using hp'⟩
    rw [hmeaning, read_write_self, hoffset] at hword
    exact hword

end Session
end CogolToolchain
