import CogolToolchain.Proofs.Compile.Call

/-!
The calls that wait are put in their places.

Calls are compiled after all statements, the latest first. Each step puts the code of one call in
the place of its item (`Session.items_expand`), so that what holds of a program with calls that wait
holds of the finished one if every step keeps it (`Session.compileCalls_induction`).
-/

namespace CogolToolchain

open Work Attempt

/-! ### One call -/

namespace Call

def bench (call : CallSite) (b : Workbench) : Workbench :=
  { b with tokens := call.tokens, scratch := b.scratch.releaseAll }

def scope (call : CallSite) (scope : Scope) : Scope := { scope with enclosing := call.enclosing }

lemma grows_bench (call : CallSite) {b : Workbench} (hb : b.Sane) :
    (bench call b).Sane ∧ b.Grows (bench call b) := by
  obtain ⟨hs, hg⟩ := Workbench.pool_keeps hb (p := b.scratch.releaseAll) (by simp)
  exact ⟨hs.congr rfl rfl, hg.trans (Workbench.grows_tokens _ _)⟩

lemma code_ne_nil {scope : Scope} {call : CallSite} {b b' : Workbench}
    (p : Lowering scope call b b') : p.code ≠ [] := by
  simp [Lowering.code, makeCode]

/-- The code of a call that waited: that of the call, or one instruction that does nothing if the
call is wrong. The last instruction gets the labels of the call. -/
inductive Compiles (scope : Scope) (call : CallSite) (b : Workbench) : Code → Workbench → Prop
  | lowered {b₁ : Workbench} (p : Lowering (Call.scope call scope) call (bench call b) b₁) :
      Compiles scope call b (Code.tagLast call.tags p.code) { b₁ with tokens := b.tokens }
  | rejected {b₁ : Workbench} (hsane : b.Sane → b₁.Sane ∧ b.Grows b₁) (hfault : ¬ b₁.Clean) :
      Compiles scope call b (Code.tagLast call.tags [.nop]) { b₁ with tokens := b.tokens }

lemma on_compile (scope : Scope) (call : CallSite) (b : Workbench) : (compile scope call).on b =
    (Code.tagLast call.tags
      (match ((lower (Call.scope call scope) call).on (bench call b)).1.getD [] with
        | [] => [.nop]
        | code => code),
      { ((lower (Call.scope call scope) call).on (bench call b)).2 with tokens := b.tokens }) := rfl

theorem compiles_compile (scope : Scope) (call : CallSite) (b : Workbench) :
    Compiles scope call b ((compile scope call).on b).1 ((compile scope call).on b).2 := by
  have hsafe := safe_lower (Call.scope call scope) call
  rw [on_compile]
  rcases hon : (lower (Call.scope call scope) call).on (bench call b) with ⟨_ | code, b₁⟩
  · refine .rejected (fun hb => ?_) ?_
    · obtain ⟨hs₀, hg₀⟩ := grows_bench call hb
      obtain ⟨hs, hg⟩ := (hsafe.on (bench call b)).1 hs₀
      rw [hon] at hs hg
      exact ⟨hs, hg₀.trans hg⟩
    · have hfault := (hsafe.on (bench call b)).2 (by rw [hon])
      rwa [hon] at hfault
  · obtain ⟨p, rfl⟩ := exists_lowering hon
    have hcode : (match p.code with
        | [] => [.nop]
        | code => code) = p.code := by
      split
      · exact absurd ‹_› (code_ne_nil p)
      · rfl
    simp only [Option.getD_some, hcode]
    exact .lowered p

variable {scope : Scope} {call : CallSite} {b b' : Workbench} {code : Code}

lemma Compiles.grows (h : Compiles scope call b code b') (hb : b.Sane) : b'.Sane ∧ b.Grows b' := by
  obtain ⟨hs₀, hg₀⟩ := grows_bench call hb
  cases h with
  | @lowered b₁ p =>
    have hg := ((p.grows_toOpened hs₀).trans (p.grows_closed hs₀).2).trans
      ((p.grows_entered hs₀).2.trans (p.grows_left hs₀).2)
    exact ⟨(p.grows_left hs₀).1.congr rfl rfl, (hg₀.trans hg).trans (b₁.grows_tokens _)⟩
  | @rejected b₁ hsane hfault =>
    obtain ⟨hs, hg⟩ := hsane hb
    exact ⟨hs.congr rfl rfl, hg.trans (b₁.grows_tokens _)⟩

lemma tags_tagLast (labels : List Label) {p : Code} (hp : p ≠ []) :
    Code.tags (Code.tagLast labels p) = Code.tags p ++ labels := by
  rcases List.eq_nil_or_concat p with rfl | ⟨q, i, rfl⟩
  · exact absurd rfl hp
  · rw [List.concat_eq_append, tagLast_concat]
    simp

lemma Compiles.labels (h : Compiles scope call b code b') (hb : b.Sane) {pool : List Nat}
    (hsound : ∀ name frame, scope.frame? name = some frame → frame.Sound pool name) :
    ∃ new, NewLabels b.nextId b'.nextId new ∧ Code.tags code = new ++ call.tags ∧
      ∀ ref ∈ Code.refs code, scope.Offers ref.symbol ∨ ref.symbol = .cell callStackName ∨
        (∃ name frame, scope.frame? name = some frame ∧
          (ref.symbol = .cell name ∨ ref.symbol = .label (.begin frame.block))) ∨
        ∃ l ∈ new, ref.symbol = .label l := by
  cases h with
  | @lowered b₁ p =>
    obtain ⟨hs₀, -⟩ := grows_bench call hb
    have hframe : scope.frame? (Tokens.peek p.named.tokens) = some p.frame := p.frame?_eq
    have hf := hsound _ _ hframe
    refine ⟨[p.back], .singleton rfl (p.nextId_le hs₀).1 (p.nextId_le hs₀).2, ?_,
      fun ref href => ?_⟩
    · rw [tags_tagLast _ (code_ne_nil p), p.tags_code hs₀ hf]
    · rw [refs_tagLast] at href
      rcases p.refers_code hs₀ hf ref href with hoffers | huses
      · exact .inl hoffers
      · rcases ref with ⟨name | ⟨owner, name⟩ | l, offset⟩
        · rcases huses with rfl | rfl
          · exact .inr (.inr (.inl ⟨_, p.frame, hframe, .inl (by rw [hf.name_eq])⟩))
          · exact .inr (.inl rfl)
        · exact .inl trivial
        · rcases huses with rfl | rfl
          · exact .inr (.inr (.inr ⟨_, List.mem_singleton_self _, rfl⟩))
          · exact .inr (.inr (.inl ⟨_, p.frame, hframe, .inr rfl⟩))
  | rejected hsane hfault =>
    refine ⟨[], .nil _ _, ?_, fun ref href => ?_⟩
    · rw [tags_tagLast _ (by simp)]
      rfl
    · rw [refs_tagLast] at href
      simp at href

end Call

/-! ### All calls -/

namespace Session

def expand (c : CallSite) (calls : List CallSite) (s : Session) : Session :=
  { s with
    bench := ((Call.compile s.scope c).on s.bench).2
    program := s.program.take c.position ++ ((Call.compile s.scope c).on s.bench).1 ++
      s.program.drop c.position
    calls }

lemma compileCalls_induction {P : Session → Prop}
    (step : ∀ s c calls, s.calls = c :: calls → P s → P (s.expand c calls))
    {s : Session} (h : P s) : P (compileCalls.on s).2 := by
  have hrun : ∀ (calls : List CallSite) (s : Session), P { s with calls } →
      P ((calls.forM insertCall).on { s with calls := [] }).2 := by
    intro calls
    induction calls with
    | nil => exact fun s hs => hs
    | cons c calls ih =>
      intro s hs
      exact ih (s.expand c []) (step { s with calls := c :: calls } c calls rfl hs)
  exact hrun s.calls s h

section

variable {s : Session} {c : CallSite} {calls : List CallSite}

lemma refs_subset_of_sublist {p q : Code} (h : p.Sublist q) : Code.refs p ⊆ Code.refs q := by
  intro ref href
  obtain ⟨i, hi, hmem⟩ := Code.mem_refs.mp href
  exact Code.mem_refs.mpr ⟨i, h.subset hi, hmem⟩

lemma items_expand (hs : s.Fine) (hcalls : s.calls = c :: calls) : ∃ before after,
    s.items = before ++ [.call c] ++ after ∧ (s.expand c calls).items =
      before ++ ((Call.compile s.scope c).on s.bench).1.map .instruction ++ after := by
  have hplaced := hs.placed
  rw [hcalls] at hplaced
  have hlength : (s.program.take c.position).length = c.position := by
    rw [List.length_take, Nat.min_eq_left hplaced.1]
  refine ⟨itemsOf (s.program.take c.position) calls, (s.program.drop c.position).map .instruction,
    ?_, ?_⟩
  · rw [items, hcalls, itemsOf, List.append_assoc]
    rfl
  · rw [items, expand, List.append_assoc, itemsOf_append (by rw [hlength]; exact hplaced.2),
      List.map_append, List.append_assoc]

lemma fine_expand (hs : s.Fine) (hcalls : s.calls = c :: calls) : (s.expand c calls).Fine := by
  have hplaced := hs.placed
  rw [hcalls] at hplaced
  refine ⟨((Call.compiles_compile s.scope c s.bench).grows hs.sane).1, hplaced.2.mono ?_⟩
  simp only [expand, List.length_append, List.length_take, Nat.min_eq_left hplaced.1]
  omega

lemma Linked.expand (h : s.Linked) (hs : s.Fine) (hcalls : s.calls = c :: calls) :
    (s.expand c calls).Linked := by
  obtain ⟨before, after, hitems, hitems'⟩ := items_expand hs hcalls
  have hcompiles := Call.compiles_compile s.scope c s.bench
  obtain ⟨-, hg⟩ := hcompiles.grows hs.sane
  obtain ⟨new, hnew, htags, hrefs⟩ := hcompiles.labels hs.sane h.sound
  have hcount : ∀ l, (s.expand c calls).marks.count l = s.marks.count l + new.count l := by
    intro l
    have hcode : (((Call.compile s.scope c).on s.bench).1.map Item.instruction).flatMap Item.tags =
        Code.tags ((Call.compile s.scope c).on s.bench).1 := by
      rw [List.flatMap_map]
      rfl
    simp only [marks, hitems, hitems', List.flatMap_append, hcode, htags, List.flatMap_singleton,
      Item.tags, List.count_append]
    have hblocks : (s.expand c calls).blocks = s.blocks := rfl
    rw [hblocks]
    omega
  have hadds : Adds s (s.expand c calls) := ⟨new, hnew, hcount⟩
  refine h.of_adds hadds hg.globals.cells hg.scratch.subset hg.nextId ?_ (fun ref href => ?_)
    (fun b hb ref href => .inl (h.trailers b hb ref href)) (fun b hb _ => .inl hb)
    (fun name frame hframe => .inl ⟨frame, hframe, rfl, fun _ => id⟩) h.preamble
  · have hstarted := List.length_pos_iff.mpr h.started
    apply List.ne_nil_of_length_pos
    simp only [Session.expand, List.length_append, List.length_take, List.length_drop]
    omega
  · simp only [Session.expand, Code.refs_append, List.mem_append] at href
    rcases href with (href | href) | href
    · exact .inl (h.program ref (refs_subset_of_sublist (List.take_sublist _ _) href))
    · rcases hrefs ref href with hoffers | hcall | ⟨name, frame, hframe, hcell | hlabel⟩ | ⟨l,
        hl, hlabel⟩
      · exact .inl (h.knows_of_offers hoffers)
      · rw [hcall]
        exact .inl (.inl rfl)
      · rw [hcell]
        exact .inl (.inr (h.frames name frame hframe).1)
      · rw [hlabel]
        exact .inl (h.frames name frame hframe).2.1
      · right
        rw [hlabel]
        have hpos := List.count_pos_iff.mpr hl
        have hl' := hcount l
        exact List.count_pos_iff.mp (by omega)
    · exact .inl (h.program ref (refs_subset_of_sublist (List.drop_sublist _ _) href))

end

/-! ### The whole compilation -/

lemma toList_cells_scratch (t : SymbolTable) (numbers : List Nat) :
    (numbers.foldl (fun t n => t.declareWord (scratchName n)) t).cells.toList =
      t.cells.toList ++ numbers.map scratchName := by
  induction numbers generalizing t with
  | nil => simp
  | cons n numbers ih =>
    rw [List.foldl_cons, ih]
    simp [SymbolTable.declareWord]

lemma sane_new (settings : Settings) : (Session.new settings).bench.Sane := by
  have hcells := toList_cells_scratch
    ((({} : SymbolTable).declareWord programCounterName).declareWord displayName)
    (List.range settings.initialScratchCells)
  have hget : ∀ a : Nat, (Session.new settings).bench.globals.cells[a]? =
      (programCounterName :: displayName ::
        (List.range settings.initialScratchCells).map scratchName)[a]? := by
    intro a
    rw [← Array.getElem?_toList]
    exact congrArg (fun l : List String => l[a]?) hcells
  have haddresses : (Session.new settings).bench.scratch.addresses =
      (List.range settings.initialScratchCells).map (2 + ·) := by
    simp [Session.new, ScratchPool.addresses, SymbolTable.nextFree, SymbolTable.declareWord]
  refine ⟨fun {n a} h => ?_, fun {n a} h => ?_, hget 0, hget 1⟩
  · rw [haddresses, List.getElem?_map, Option.map_eq_some_iff] at h
    obtain ⟨m, hm, rfl⟩ := h
    obtain ⟨hlt, rfl⟩ := List.getElem?_eq_some_iff.mp hm
    rw [List.length_range] at hlt
    rw [hget, List.getElem_range, Nat.add_comm]
    simp [hlt]
  · rw [hget] at h
    rcases a with _ | _ | m
    · exact absurd (Option.some.inj h) (programCounterName_ne_scratchName n)
    · exact absurd (Option.some.inj h) (ne_scratchName (by decide) n)
    · rw [List.getElem?_cons_succ, List.getElem?_cons_succ, List.getElem?_map,
        Option.map_eq_some_iff] at h
      obtain ⟨k, hk, -⟩ := h
      obtain ⟨hlt, -⟩ := List.getElem?_eq_some_iff.mp hk
      rw [List.length_range] at hlt
      rw [haddresses, List.mem_map]
      exact ⟨m, List.mem_range.mpr hlt, Nat.add_comm _ _⟩

def started (settings : Settings) (source : String) : Session :=
  let s := Session.new settings
  { s with
    bench := { s.bench with
      tokens := (Lexer.tokenize source).1, diagnostics := (Lexer.tokenize source).2 }
    program := [preloadCallStack] }

def stated (settings : Settings) (source : String) : Session :=
  ((Statement.compileAll (Lexer.tokenize source).1.length).on (started settings source)).2

def compiled (settings : Settings) (source : String) : Session :=
  ((compileSource source).on (new settings)).2

lemma compile_eq_finish (settings : Settings) (source : String) :
    compile settings source = (compiled settings source).finish := rfl

lemma compiled_eq (settings : Settings) (source : String) :
    compiled settings source = (declareCallStack.on
      (compileCalls.on (reportOpenBlocks.on (stated settings source)).2).2).2 := by
  have hstarted : ((Build.emit [preloadCallStack]).on ((Build.work (modify fun b =>
      { b with tokens := (Lexer.tokenize source).1 })).on
        ((addDiagnostics (Lexer.tokenize source).2).on (new settings)).2).2).2 =
      started settings source := rfl
  rw [stated, ← hstarted]
  simp only [compiled, compileSource, compileTokens, Build.on_bind]

lemma fine_started (settings : Settings) (source : String) : (started settings source).Fine :=
  ⟨(sane_new settings).congr rfl rfl, trivial⟩

lemma fine_stated (settings : Settings) (source : String) : (stated settings source).Fine :=
  (Statement.keeps_compileAll _ _ (fine_started settings source)).1

lemma linked_started (settings : Settings) (source : String) :
    (started settings source).Linked where
  started := by simp [started]
  nodup := by
    simp [started, marks, items, itemsOf, Session.new, preloadCallStack, Instruction.tagged,
      Instruction.copy, Item.tags]
  ids := by simp [started, marks, items, itemsOf, Session.new, preloadCallStack, Instruction.tagged,
    Instruction.copy, Item.tags, Label.id?]
  program := by simp [started, preloadCallStack, callStackPointer, Knows]
  trailers := by simp [started, Session.new]
  opened := by simp [started, Session.new]
  sound := by simp [started, Session.new, Scope.frame?]
  frames := by simp [started, Session.new, Scope.frame?]
  preamble := ⟨rfl, rfl⟩

lemma keeps_reportBlocks (blocks : List OpenBlock) : Build.Keeps
    (blocks.forM fun b => Build.work (Work.report (.unclosedBlock b.block.name))) := by
  induction blocks with
  | nil => exact (Build.advances_pure ()).keeps
  | cons block blocks ih => exact (Build.advances_work (advances_report _)).keeps.bind fun _ => ih

lemma on_reportBlocks (blocks : List OpenBlock) {s : Session} (hs : s.bench.Sane) : ∃ b,
    ((blocks.forM fun b => Build.work (Work.report (.unclosedBlock b.block.name))).on s).2 =
      { s with bench := b } ∧ b.Sane ∧ s.bench.Grows b := by
  induction blocks generalizing s with
  | nil => exact ⟨s.bench, rfl, hs, .refl _⟩
  | cons block blocks ih =>
    obtain ⟨hs₁, hg₁⟩ := (advances_report (.unclosedBlock block.block.name) s.bench).keeps hs
    obtain ⟨b, hon, hs₂, hg₂⟩ := ih (s := { s with
      bench := ((Work.report (.unclosedBlock block.block.name)).on s.bench).2 }) hs₁
    exact ⟨b, hon, hs₂, hg₁.trans hg₂⟩

lemma on_reportOpenBlocks {s : Session} (hs : s.Fine) (hc : (reportOpenBlocks.on s).2.bench.Clean) :
    s.blocks = [] ∧ (reportOpenBlocks.on s).2 = s := by
  have hon : (reportOpenBlocks.on s).2 = ((s.blocks.forM fun b =>
      Build.work (Work.report (.unclosedBlock b.block.name))).on s).2 := rfl
  rcases hblocks : s.blocks with _ | ⟨block, blocks⟩
  · exact ⟨rfl, by rw [hon, hblocks]; rfl⟩
  · rw [hon, hblocks] at hc
    have hreport := ((Build.advances_work (advances_report (.unclosedBlock block.block.name))).keeps
      s hs).1
    have hgrows := (keeps_reportBlocks blocks _ hreport).2
    exact absurd (hgrows.clean (hc :))
      (not_clean_report (p := .unclosedBlock block.block.name) rfl s.bench "")

lemma calls_compileCalls (s : Session) : (compileCalls.on s).2.calls = [] := by
  have hrun : ∀ (calls : List CallSite) (s : Session),
      ((calls.forM insertCall).on s).2.calls = s.calls := by
    intro calls
    induction calls with
    | nil => exact fun s => rfl
    | cons c calls ih => exact fun s => ih _
  exact hrun s.calls _

/-- The session when all calls are in their places. The call stack is declared then. -/
def expanded (settings : Settings) (source : String) : Session :=
  (compileCalls.on (reportOpenBlocks.on (stated settings source)).2).2

lemma compiled_eq_expanded (settings : Settings) (source : String) :
    compiled settings source = (declareCallStack.on (expanded settings source)).2 :=
  compiled_eq settings source

/-- What holds after the last statement of a program without errors, and is kept when calls are put
in their places, holds when all calls are in their places. -/
lemma expanded_induction {P : Session → Prop} {settings : Settings} {source : String}
    (hc : (expanded settings source).bench.Clean)
    (hstated : (stated settings source).bench.Clean → (stated settings source).blocks = [] →
      P (stated settings source))
    (hstep : ∀ s c calls, s.Fine → s.calls = c :: calls → P s → P (s.expand c calls)) :
    (expanded settings source).Fine ∧ (expanded settings source).calls = [] ∧
      P (expanded settings source) := by
  unfold expanded at hc ⊢
  have hfine := fine_stated settings source
  generalize stated settings source = s at *
  have hgrows : ∀ s : Session, s.Fine → s.bench.Grows (compileCalls.on s).2.bench ∧
      (compileCalls.on s).2.Fine := fun s hs => by
    refine compileCalls_induction (P := fun s' => s.bench.Grows s'.bench ∧ s'.Fine)
      (fun s' c calls hcalls h => ?_) ⟨.refl _, hs⟩
    exact ⟨h.1.trans ((Call.compiles_compile s'.scope c s'.bench).grows h.2.sane).2,
      fine_expand h.2 hcalls⟩
  have hreported : (reportOpenBlocks.on s).2.bench.Clean :=
    (hgrows _ (keeps_reportBlocks s.blocks s hfine).1).1.clean hc
  obtain ⟨hblocks, hsame⟩ := on_reportOpenBlocks hfine hreported
  rw [hsame] at hreported ⊢
  refine ⟨(hgrows s hfine).2, calls_compileCalls s, ?_⟩
  exact (compileCalls_induction (P := fun s => s.Fine ∧ P s) (fun s' c calls hcalls h =>
    ⟨fine_expand h.1 hcalls, hstep s' c calls h.1 hcalls h.2⟩)
    ⟨hfine, hstated hreported hblocks⟩).2

lemma clean_expanded {settings : Settings} {source : String}
    (hc : (compiled settings source).bench.Clean) : (expanded settings source).bench.Clean := by
  rw [compiled_eq_expanded] at hc
  generalize expanded settings source = s at hc ⊢
  exact hc

lemma clean_stated {settings : Settings} {source : String}
    (hc : (compiled settings source).bench.Clean) : (stated settings source).bench.Clean :=
  (expanded_induction (P := fun _ => (stated settings source).bench.Clean) (clean_expanded hc)
    (fun h _ => h) (fun _ _ _ _ _ h => h)).2.2

lemma scope_compiled {settings : Settings} {source : String}
    (hc : (compiled settings source).bench.Clean) :
    (compiled settings source).scope = (stated settings source).scope := by
  have hscope : (expanded settings source).scope = (stated settings source).scope :=
    (expanded_induction (P := fun s => s.scope = (stated settings source).scope) (clean_expanded hc)
      (fun _ _ => rfl) (fun _ _ _ _ _ h => h)).2.2
  rw [compiled_eq_expanded, ← hscope]
  generalize expanded settings source = s
  rfl

lemma scratch_compiled (settings : Settings) (source : String) :
    (compiled settings source).bench.scratch = (expanded settings source).bench.scratch := by
  rw [compiled_eq_expanded]
  generalize expanded settings source = s
  rfl

lemma compiled_induction {P : Session → Prop} {settings : Settings} {source : String}
    (hc : (compiled settings source).bench.Clean)
    (hstated : (stated settings source).bench.Clean → (stated settings source).blocks = [] →
      P (stated settings source))
    (hstep : ∀ s c calls, s.Fine → s.calls = c :: calls → P s → P (s.expand c calls)) :
    ∃ s, s.Fine ∧ s.calls = [] ∧ P s ∧ compiled settings source = (declareCallStack.on s).2 := by
  obtain ⟨hfine, hcalls, hP⟩ := expanded_induction (clean_expanded hc) hstated hstep
  exact ⟨_, hfine, hcalls, hP, compiled_eq_expanded settings source⟩

/-- What every statement keeps holds after the last one. The words of the statements are those of
the source. -/
lemma compileAll_induction {P : Session → Prop} {words : List Token}
    (hbench : ∀ s b, s.Fine → b.Sane → s.bench.Grows b → P s → P { s with bench := b })
    (hstatement : ∀ s s', s.Fine → s'.Fine → s.Grows s' → s.bench.tokens ⊆ words →
      Statement.Effect s s' → P s → P s') (rounds : Nat) {s : Session} (hs : s.Fine)
    (hwords : s.bench.tokens ⊆ words) (h : P s) : P ((Statement.compileAll rounds).on s).2 := by
  induction rounds generalizing s with
  | zero => exact h
  | succ rounds ih =>
    rw [on_compileAll_succ]
    split
    · exact h
    · obtain ⟨hs', hg⟩ := Statement.keeps_compile s hs
      have htokens := (Statement.tokens_compile s).trans (Tokens.rest_suffix s.bench.tokens)
      have hrested := Statement.fine_rested hs
      refine ih hs' (List.Subset.trans htokens.subset hwords) (hstatement _ _ hrested hs'
        hg.from_rested hwords (Statement.effect_compile hs) ?_)
      exact hbench s _ hs hrested.sane (Workbench.pool_keeps hs.sane
        (ScratchPool.addresses_releaseAll _)).2 h

/-- What holds at the start and is kept by every statement, right or wrong, and when calls are put
in their places, holds when all calls are in their places. -/
lemma compiled_invariant {P : Session → Prop} {settings : Settings} {source : String}
    (hstart : P (started settings source))
    (hbench : ∀ s b, s.Fine → b.Sane → s.bench.Grows b → P s → P { s with bench := b })
    (hstatement : ∀ s s', s.Fine → s'.Fine → s.Grows s' →
      s.bench.tokens ⊆ (Lexer.tokenize source).1 → Statement.Effect s s' → P s → P s')
    (hcall : ∀ s c calls, s.Fine → s.calls = c :: calls → P s → P (s.expand c calls)) :
    (expanded settings source).Fine ∧ P (expanded settings source) := by
  have hstated : (stated settings source).Fine ∧ P (stated settings source) :=
    ⟨fine_stated settings source,
      compileAll_induction hbench hstatement _ (fine_started settings source)
        (List.Subset.refl _) hstart⟩
  rw [expanded]
  generalize stated settings source = s at hstated
  obtain ⟨hs, h⟩ := hstated
  obtain ⟨b, hreport, hsane, hgrows⟩ := on_reportBlocks s.blocks hs.sane
  change (reportOpenBlocks.on s).2 = { s with bench := b } at hreport
  rw [hreport]
  have hreported : Fine { s with bench := b } ∧ P { s with bench := b } :=
    ⟨⟨hsane, hs.placed⟩, hbench s b hs hsane hgrows h⟩
  exact compileCalls_induction (P := fun s => s.Fine ∧ P s)
    (fun s' c calls hcalls h => ⟨fine_expand h.1 hcalls, hcall s' c calls h.1 hcalls h.2⟩) hreported

end Session
end CogolToolchain
