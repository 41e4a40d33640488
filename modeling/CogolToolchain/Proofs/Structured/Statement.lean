import CogolToolchain.Proofs.Compile.Linking
import CogolToolchain.Proofs.Structured.Simulation

/-!
What the statements of a structured program add to a session, and what their code does.

The session that compiles a program goes from statement to statement until it has no tokens left. A
session on the way has no errors yet if the last one has none. Labels are put on code that is
already there, so what is said about the code of a statement is said of the program as it stands at
the end.
-/

namespace CogolToolchain

lemma Resolver.Stands.of_tagLast {r : Resolver} {prog : List WordInstruction}
    {k : Nat} {code : Code} {label : Label} (h : r.Stands prog k (Code.tagLast [label] code))
    (hcode : code ≠ []) : r.Stands prog k code ∧ r.word (.label label 1) =
    ⟨.constant, UInt16.ofNat (k + code.length)⟩ := by
  obtain ⟨p, i, rfl⟩ := (List.eq_nil_or_concat' code).resolve_left hcode
  rw [tagLast_concat, r.stands_append] at h
  obtain ⟨hi, hlabel⟩ := h.2.of_tagged (i := i)
  refine ⟨r.stands_append.mpr ⟨h.1, hi⟩, ?_⟩
  rw [r.word_label hlabel, List.length_append, List.length_singleton, ← Word.ofInt_natCast]
  congr 2

namespace Structured

open Grammar Work Attempt Build Statement ScratchPool

/-- The session `s` leads to the session `f` in at most `n` statements. -/
structure Heads (f : Session) (n : Nat) (s : Session) : Prop where
  run : ((compileAll n).on s).2 = f
  enough : s.bench.tokens.length ≤ n
  fine : s.Fine

section Heads

variable {f s : Session} {n : Nat}

lemma Heads.grows (h : Heads f n s) : s.Grows f := h.run ▸ (keeps_compileAll n s h.fine).2

lemma Heads.step (h : Heads f n s) (hne : s.bench.tokens ≠ []) :
    Heads f (n - 1) (Statement.compile.on s).2 := by
  have henough := h.enough
  have hlt := (tokens_compile s).length_le
  obtain ⟨token, ts, hts⟩ := List.exists_cons_of_ne_nil hne
  rw [hts, List.length_cons] at henough
  rw [hts, Tokens.rest] at hlt
  obtain ⟨n, rfl⟩ : ∃ n', n = n' + 1 := ⟨n - 1, by omega⟩
  refine ⟨?_, by omega, (keeps_compile s h.fine).1⟩
  rw [← h.run, compileAll]
  simp [hts]

end Heads

/-- The session `s` is on its way to `f`: the tokens `ts` are left, the variables are those of `t`,
and there are no subroutines and no calls. -/
structure Reaches (f : Session) (t : SymbolTable) (ts : List Token) (s : Session) : Prop where
  heads : ∃ n, Heads f n s
  tokens : s.bench.tokens = ts
  pads : t.Pads s.bench.globals
  program : s.program ≠ []
  scope : s.scope = {}
  calls : s.calls = []

section Reaches

variable {f s s' : Session} {t : SymbolTable} {ts : List Token}

lemma Reaches.fine (h : Reaches f t ts s) : s.Fine := by
  obtain ⟨n, hn⟩ := h.heads
  exact hn.fine

lemma Reaches.grows (h : Reaches f t ts s) : s.Grows f := by
  obtain ⟨n, hn⟩ := h.heads
  exact hn.grows

lemma Reaches.step (h : Reaches f t ts s) (hne : ts ≠ []) (t' : SymbolTable) (ts' : List Token) :
    s.Grows (Statement.compile.on s).2 ∧ (Statement.compile.on s).2.Grows f ∧
      ((Statement.compile.on s).2.bench.tokens = ts' →
        t'.Pads (Statement.compile.on s).2.bench.globals →
        (Statement.compile.on s).2.scope = s.scope → (Statement.compile.on s).2.calls = s.calls →
        Reaches f t' ts' (Statement.compile.on s).2) := by
  obtain ⟨n, hn⟩ := h.heads
  have hstep := hn.step (h.tokens ▸ hne)
  have hgrow := (keeps_compile s hn.fine).2
  refine ⟨hgrow, hstep.grows, fun htokens hpads hscope hcalls =>
    ⟨⟨_, hstep⟩, htokens, hpads, ?_, hscope.trans h.scope, hcalls.trans h.calls⟩⟩
  have hlen := hgrow.items.length_le
  rw [Session.items, Session.items, hcalls, h.calls] at hlen
  have hpos := List.length_pos_iff.mpr h.program
  simp only [itemsOf, List.length_map] at hlen
  exact List.ne_nil_of_length_pos (by omega)

lemma stands_of_grows {R : Resolver} {prog : List WordInstruction} {k : Nat} (h : s.Grows s')
    (hcalls : s.calls = []) (hcalls' : s'.calls = []) (hst : R.Stands prog k s'.program) :
    R.Stands prog k s.program := by
  have hitems := h.items
  rw [Session.items, Session.items, hcalls, hcalls'] at hitems
  exact hst.of_enriches hitems

end Reaches

/-! ### What statements add -/

def presetCode (presets : List Preset) : Code := presets.flatMap fun (a, n) => initialCode a n

/-- The session `f` ends a compilation without errors; `map` is the memory map of the program, and
`R` resolves its symbols. -/
structure Ends (f : Session) (map : Array String) (R : Resolver) : Prop where
  clean : f.bench.Clean
  cells : f.bench.globals.cells.toList <+: map.toList
  size : map.size < 65536
  slot : ∀ owner name, R.word (.slot owner name) = ⟨.constant, 0⟩

/-- From `s` to `s'` a session adds the presets, and code that does what `F` says. The code is that
of the program in the end, with all labels on it. -/
structure Adds (map : Array String) (R : Resolver) (s s' : Session) (presets : List Preset)
    (F : Nat → State → Outcome) : Prop where
  grows : s.Grows s'
  blocks : s'.blocks = s.blocks
  preamble : s'.preamble = s.preamble ++ presetCode presets
  simulates : ∀ prog k, prog.length < 65536 → R.Stands prog k s'.program →
    Simulates prog (hidden map) (k + s.program.length) (k + s'.program.length) F

section Adds

variable {f s s' s'' : Session} {map : Array String} {R : Resolver} {t t' : SymbolTable}
  {ts : List Token} {F G : Nat → State → Outcome} {p q : List Preset}

lemma Ends.fits (h : Ends f map R) (hs : s.Fine) (hg : s.Grows f) :
    s.bench.scratch.Fits (hidden map) :=
  fits_hidden hs.sane (List.IsPrefix.trans hg.globals h.cells) h.size

lemma Adds.trans (h : Adds map R s s' p F) (h' : Adds map R s' s'' q G) (hcalls : s'.calls = [])
    (hcalls' : s''.calls = []) :
    Adds map R s s'' (p ++ q) fun fuel st => (F fuel st).bind (G fuel) where
  grows := h.grows.trans h'.grows
  blocks := h'.blocks.trans h.blocks
  preamble := by simp [h'.preamble, h.preamble, presetCode]
  simulates := fun prog k hsmall hst =>
    (h.simulates prog k hsmall (stands_of_grows h'.grows hcalls hcalls' hst)).bind
      (h'.simulates prog k hsmall hst)

lemma exists_empty (h : Reaches f t (";" :: ts) s) :
    ∃ s', Reaches f t ts s' ∧ Adds map R s s' [] fun _ st => .done st := by
  obtain ⟨hgrow, -, hreach⟩ := h.step (by simp) t ts
  have hrun : Statement.compile.on s = ((), { rested s with
      bench := { (rested s).bench with tokens := ts } }) := by
    rw [on_compile, h.tokens]
    simp [Tokens.peek, rested, h.tokens, Tokens.rest]
  rw [hrun] at hgrow hreach
  exact ⟨_, hreach rfl h.pads rfl rfl, hgrow, rfl, by simp [rested, presetCode],
    fun prog k _ _ => simulates_refl prog _ _⟩

lemma exists_assign (hf : Ends f map R) {a : Assign} (h : Reaches f t (a.tokens ++ ts) s)
    (ha : a.IsValid) :
    ∃ s', Reaches f t ts s' ∧ Adds map R s s' [] fun _ st => .ofOption (a.exec? map t st) := by
  have hpeek : Tokens.peek (a.tokens ++ ts) = Tokens.peek a.dest.tokens := by
    rw [Assign.tokens, List.append_assoc, peek_append (Ref.tokens_ne_nil _)]
  have hne : a.tokens ++ ts ≠ [] := by simp [Assign.tokens, Ref.tokens_ne_nil]
  obtain ⟨hgrow, hgrow', hreach⟩ := h.step hne t ts
  have hkeyword := ha.2.1
  have hrun : Statement.compile.on s = assignment.on (rested s) := by
    rw [on_compile, h.tokens, hpeek]
    split <;> simp_all [Assign.keywords]
  rw [hrun, on_assignment] at hgrow hgrow' hreach
  have hscope : (rested s).scope = {} := h.scope
  have hsane : (rested s).bench.Sane := (fine_rested h.fine).sane
  rw [hscope] at hgrow hgrow' hreach
  rcases hlower : (Assignment.lower {}).on (rested s).bench with ⟨_ | code, b⟩
  · rw [hlower] at hgrow'
    have hfault := (Assignment.careful_lower {}).safe.fault (rested s).bench
    rw [hlower] at hfault
    exact absurd (hgrow'.clean hf.clean) (hfault rfl)
  · rw [hlower] at hgrow hgrow' hreach
    obtain ⟨hsane', hgrows⟩ := (Assignment.careful_lower {}).grows hsane hlower
    obtain ⟨hperforms, htokens⟩ := performs_lower hlower h.tokens ha hf.slot hsane h.pads
      (fits_hidden hsane' (List.IsPrefix.trans hgrow'.globals hf.cells) hf.size)
    refine ⟨_, hreach htokens (h.pads.trans hgrows.globals) h.scope.symm rfl, hgrow, rfl,
      by simp [rested, presetCode], fun prog k hsmall hst => ?_⟩
    obtain ⟨-, hcode⟩ := R.stands_append.mp hst
    have hsim := simulates_of_performs hperforms hcode hsmall
    rwa [Nat.add_assoc, ← List.length_append] at hsim

/-! ### The start of a block -/

/-- From `s` to `s'` a session opens or closes blocks. -/
structure Turns (s s' : Session) (program : Code) (blocks : List OpenBlock) : Prop where
  grows : s.Grows s'
  program : s'.program = program
  blocks : s'.blocks = blocks
  preamble : s'.preamble = s.preamble

lemma rest_dropWhile {suffix : List Token} (h : "\x7b" ∉ suffix) (ts : List Token) :
    Tokens.rest ((opening suffix ++ ts).dropWhile (· != "\x7b")) = ts := by
  rw [opening, List.append_assoc, List.dropWhile_append_of_pos, List.singleton_append,
    List.dropWhile_cons_of_neg (by simp), Tokens.rest]
  intro word hword
  have hne : word ≠ "\x7b" := by
    rintro rfl
    exact h hword
  simpa using hne

lemma on_blockStart (hf : Ends f map R) {keyword : Token} {guard : Guard} {suffix : List Token}
    (h : Reaches f t (keyword :: (guard.tokens ++ (opening suffix ++ ts))) s)
    (hguard : guard.IsValid) (hsuffix : "\x7b" ∉ suffix)
    (hgrow : (blockStart.on (rested s)).2.Grows f) : ∃ b c code block, b.Sane ∧ b.tokens = ts ∧
    t.Pads b.globals ∧
      block.kind = (if keyword = "while" then BlockKind.whileLoop else .ifThen) ∧
      blockStart.on (rested s) = (if keyword = "while" then openWhile block c code
        else openIf block c code).on { rested s with bench := b } ∧
      Reads map R t guard (rested s).bench.scratch c code b.scratch := by
  have hscope : Condition.read (rested s).scope = Condition.read {} := congrArg _ h.scope
  have htokens : (rested s).bench.tokens = _ := h.tokens
  simp only [blockStart, Build.on_bind, on_work, Build.on_get, on_pop, on_attempt,
    on_takeId, htokens, Tokens.peek, Tokens.rest, hscope] at hgrow ⊢
  generalize hb : ({ (rested s).bench with
    tokens := guard.tokens ++ (opening suffix ++ ts), nextId := (rested s).bench.nextId + 1 } :
    Workbench) = b at hgrow ⊢
  have hsane : b.Sane := hb ▸ (fine_rested h.fine).sane.congr rfl rfl
  have hpads : t.Pads b.globals := hb ▸ h.pads
  rcases hread : (Condition.read {}).on b with ⟨_ | ⟨c, code⟩, b₁⟩
  · have hfault := (Condition.careful_read {}).safe.fault b
    rw [hread] at hfault hgrow
    rw [on_blockSuffix] at hgrow
    exact absurd (hgrow.clean hf.clean) (hfault rfl)
  · obtain ⟨hsane₁, hgrow₁⟩ := (Condition.careful_read {}).grows hsane hread
    rw [hread, on_blockSuffix] at hgrow
    rw [on_blockSuffix]
    generalize hts : Tokens.rest (b₁.tokens.dropWhile (· != "\x7b")) = ts' at hgrow ⊢
    generalize hblock : Block.mk (if keyword = "while" then .whileLoop else .ifThen)
      (rested s).bench.nextId _ = block at hgrow ⊢
    have hfine : Session.Fine { rested s with bench := { b₁ with tokens := ts' } } :=
      ⟨hsane₁.congr rfl rfl, h.fine.placed⟩
    have hkeeps : Build.Keeps (if keyword = "while" then openWhile block c code
        else openIf block c code) := by
      split
      · exact (advances_openWhile block c code).keeps
      · exact (advances_openIf block c code).keeps
    have hfits := hf.fits hfine ((hkeeps _ hfine).2.trans hgrow)
    obtain ⟨hreads, htokens₁⟩ := reads_of_read hf.slot hguard (by rw [← hb]) hsane hpads hread hfits
    rw [htokens₁, rest_dropWhile hsuffix] at hts
    refine ⟨_, c, code, block, hfine.sane, hts.symm, hpads.trans hgrow₁.globals, by rw [← hblock],
      rfl, ?_⟩
    rwa [← hb] at hreads

lemma exists_openIf (hf : Ends f map R) {guard : Guard} {suffix : List Token}
    (h : Reaches f t ("if" :: (guard.tokens ++ (opening suffix ++ ts))) s) (hguard : guard.IsValid)
    (hsuffix : "\x7b" ∉ suffix) : ∃ s' block skip code p p', Reaches f t ts s' ∧
      Turns s s' (s.program ++ (code ++ branchTo skip (.label (.finish block) 1)))
        ({ block := block } :: s.blocks) ∧
      block.kind = .ifThen ∧ p'.Fits (hidden map) ∧
      Judges (hidden map) R p skip code p' fun σ => (guard.eval? map t σ).map (!·) := by
  obtain ⟨hgrow, hgrow', hreach⟩ := h.step (by simp) t ts
  have hrun : Statement.compile.on s = blockStart.on (rested s) := by
    simp [on_compile, h.tokens, Tokens.peek]
  rw [hrun] at hgrow hgrow' hreach
  obtain ⟨b, c, before, block, hsane, htokens, hpads, hkind, hstart, hreads⟩ :=
    on_blockStart hf h hguard hsuffix hgrow'
  rcases hlower : (Condition.lower { c with op := c.op.negated }).on b with ⟨⟨skip, test⟩, b'⟩
  rw [if_neg (by decide), openIf] at hstart
  simp only [Build.on_bind, on_work, hlower, on_emit, on_openBlock] at hstart
  rw [hstart] at hgrow hgrow' hreach
  obtain ⟨hsane', hgrows⟩ := (Condition.advances_lower { c with op := c.op.negated } b).keeps hsane
  have htokens' := Condition.tokens_lower { c with op := c.op.negated } b
  rw [hlower] at hsane' hgrows htokens'
  have hfits : b'.scratch.Fits (hidden map) :=
    fits_hidden hsane' (List.IsPrefix.trans hgrow'.globals hf.cells) hf.size
  exact ⟨_, block, skip, before ++ test, _, _,
    hreach (htokens'.trans htokens) (hpads.trans hgrows.globals) rfl rfl, ⟨hgrow, rfl, rfl, rfl⟩,
    hkind,
    hfits, hreads.judges_negated hsane hlower hfits⟩

lemma exists_openWhile (hf : Ends f map R) {guard : Guard} {suffix : List Token}
    (h : Reaches f t ("while" :: (guard.tokens ++ (opening suffix ++ ts))) s)
    (hguard : guard.IsValid) (hsuffix : "\x7b" ∉ suffix) :
    ∃ s' block branch code slot bottom p p', Reaches f t ts s' ∧
      Turns s s'
        (s.program ++ [(Instruction.jump (.label (.finish block) 0)).tagged (.begin block), slot])
        ({ block := block, trailer := bottom } :: s.blocks) ∧
      block.kind = .whileLoop ∧ p'.Fits (hidden map) ∧
      loopBottom block code ((branch.jump? (.label (.begin block) 2)).getD .nop) = (slot, bottom) ∧
      Judges (hidden map) R p branch code p' (guard.eval? map t) := by
  obtain ⟨hgrow, hgrow', hreach⟩ := h.step (by simp) t ts
  have hrun : Statement.compile.on s = blockStart.on (rested s) := by
    simp [on_compile, h.tokens, Tokens.peek]
  rw [hrun] at hgrow hgrow' hreach
  obtain ⟨b, c, before, block, hsane, htokens, hpads, hkind, hstart, hreads⟩ :=
    on_blockStart hf h hguard hsuffix hgrow'
  rcases hlower : c.lower.on b with ⟨⟨branch, test⟩, b'⟩
  rw [if_pos rfl, openWhile] at hstart
  simp only [Build.on_bind, on_work, hlower, on_emit, on_openBlock] at hstart
  rw [hstart] at hgrow hgrow' hreach
  obtain ⟨hsane', hgrows⟩ := (Condition.advances_lower c b).keeps hsane
  have htokens' := Condition.tokens_lower c b
  rw [hlower] at hsane' hgrows htokens'
  have hfits : b'.scratch.Fits (hidden map) :=
    fits_hidden hsane' (List.IsPrefix.trans hgrow'.globals hf.cells) hf.size
  exact ⟨_, block, branch, before ++ test, _, _, _, _,
    hreach (htokens'.trans htokens) (hpads.trans hgrows.globals) rfl rfl, ⟨hgrow, rfl, rfl, rfl⟩,
    hkind,
    hfits, rfl, hreads.judges hsane hlower hfits⟩

lemma exists_openDo {suffix : List Token} (h : Reaches f t ("do" :: (opening suffix ++ ts)) s)
    (hsuffix : "\x7b" ∉ suffix) : ∃ s' block, Reaches f t ts s' ∧
      Turns s s' (Code.tagLast [.begin block] s.program) ({ block := block } :: s.blocks) ∧
      block.kind = .doWhile := by
  obtain ⟨hgrow, -, hreach⟩ := h.step (by simp) t ts
  have hrun : Statement.compile.on s = doStart.on (rested s) := by
    simp [on_compile, h.tokens, Tokens.peek]
  have htokens : Tokens.rest (rested s).bench.tokens = opening suffix ++ ts :=
    congrArg Tokens.rest h.tokens
  simp only [doStart, Build.on_bind, on_discard, on_work, on_pop, on_takeId,
    on_blockSuffix, htokens, rest_dropWhile hsuffix] at hrun
  rw [on_tagLast_of_nil _ (by exact h.calls), on_openBlock] at hrun
  rw [hrun] at hgrow hreach
  exact ⟨_, _, hreach rfl h.pads rfl rfl, ⟨hgrow, rfl, rfl, rfl⟩, rfl⟩

/-! ### The end of a block -/

section End

variable {block : Block} {trailer : Code} {blocks : List OpenBlock}

lemma on_brace (h : Reaches f t ("\x7d" :: ts) s)
    (hblocks : s.blocks = { block := block, trailer } :: blocks) :
    Statement.compile.on s = Build.on (do
      afterBrace block
      if block.kind ≠ .whileLoop then tagLast (.finish block)) { rested s with
        bench := { (rested s).bench with tokens := ts }
        blocks
        program := s.program ++ trailer } := by
  have hrun : Statement.compile.on s = blockEnd.on (rested s) := by
    simp [on_compile, h.tokens, Tokens.peek]
  have htokens : (rested s).bench.tokens = _ := h.tokens
  have hblocks' : (rested s).blocks = _ := hblocks
  rw [hrun, blockEnd]
  simp only [Build.on_bind, on_discard, on_work, on_pop, Build.on_get, htokens,
    hblocks', Tokens.rest, on_emit, Build.on_modify]
  rfl

lemma exists_closeIf (h : Reaches f t ("\x7d" :: ts) s)
    (hblocks : s.blocks = { block := block } :: blocks)
    (hkind : block.kind = .elseThen ∨ block.kind = .ifThen ∧ Tokens.peek ts ≠ "else") :
    ∃ s', Reaches f t ts s' ∧ Turns s s' (Code.tagLast [.finish block] s.program) blocks := by
  obtain ⟨hgrow, -, hreach⟩ := h.step (by simp) t ts
  have hrun := on_brace h hblocks
  have hafter : (afterBrace block).on { rested s with
        bench := { (rested s).bench with tokens := ts }
        blocks
        program := s.program ++ [] } = ((), { rested s with
        bench := { (rested s).bench with tokens := ts }
        blocks }) := by
    rcases hkind with hkind | ⟨hkind, helse⟩
    · simp [afterBrace, hkind, rested]
    · simp [afterBrace, hkind, openElse, on_eat_of_ne, helse, rested]
  have hloop : block.kind ≠ .whileLoop := by
    rcases hkind with hkind | ⟨hkind, -⟩ <;> simp [hkind]
  rw [Build.on_bind, hafter, if_pos hloop, on_tagLast_of_nil _ (by exact h.calls)] at hrun
  rw [hrun] at hgrow hreach
  exact ⟨_, hreach rfl h.pads rfl rfl, hgrow, rfl, rfl, rfl⟩

lemma exists_openElse {suffix : List Token}
    (h : Reaches f t ("\x7d" :: "else" :: (opening suffix ++ ts)) s) (hsuffix : "\x7b" ∉ suffix)
    (hblocks : s.blocks = { block := block } :: blocks) (hkind : block.kind = .ifThen) :
    ∃ s' other, Reaches f t ts s' ∧ other.kind = .elseThen ∧
      Turns s s' (Code.tagLast [.finish block] (s.program ++
        [(Instruction.jump (.label (.finish other) 1)).tagged (.begin other), .nop]))
        ({ block := other } :: blocks) := by
  obtain ⟨hgrow, -, hreach⟩ := h.step (by simp) t ts
  have hrun := on_brace h hblocks
  rw [Build.on_bind, afterBrace, hkind] at hrun
  dsimp only at hrun
  rw [openElse, Build.on_bind, on_work, on_eat_of_eq rfl] at hrun
  simp only [↓reduceIte, Build.on_bind, on_work, on_takeId, on_blockSuffix, on_emit, on_openBlock,
    rest_dropWhile hsuffix, List.append_nil] at hrun
  rw [if_pos (by simp), on_tagLast_of_nil _ (by exact h.calls)] at hrun
  rw [hrun] at hgrow hreach
  exact ⟨_, _, hreach rfl h.pads rfl rfl, rfl, hgrow, rfl, rfl, rfl⟩

lemma exists_closeWhile (h : Reaches f t ("\x7d" :: ts) s)
    (hblocks : s.blocks = { block := block, trailer } :: blocks) (hkind : block.kind = .whileLoop) :
    ∃ s', Reaches f t ts s' ∧ Turns s s' (s.program ++ trailer) blocks := by
  obtain ⟨hgrow, -, hreach⟩ := h.step (by simp) t ts
  have hrun := on_brace h hblocks
  rw [Build.on_bind, afterBrace, hkind] at hrun
  dsimp only at hrun
  rw [Build.on_pure, if_neg (by simp), Build.on_pure] at hrun
  rw [hrun] at hgrow hreach
  exact ⟨_, hreach rfl h.pads rfl rfl, hgrow, rfl, rfl, rfl⟩

lemma reads_of_doCondition (hf : Ends f map R) {guard : Guard} {b b' : Workbench} {c : Condition}
    {code : Code} (ht : b.tokens = "while" :: (guard.tokens ++ ";" :: ts)) (hguard : guard.IsValid)
    (hb : b.Sane) (hpads : t.Pads b.globals) (hfits : b'.scratch.Fits (hidden map))
    (h : Yields (doCondition {}) b (c, code) b') :
    Reads map R t guard b.scratch c code b'.scratch ∧ b'.tokens = ts := by
  simp only [doCondition, yields_bind, yields_lift, on_eat_of_eq ht, Prod.mk.injEq] at h
  obtain ⟨_, _, ⟨rfl, rfl⟩, h⟩ := h
  simp only [↓reduceIte, yields_bind, yields_pure] at h
  obtain ⟨_, b₁, hread, _, b₂, hexpect, rfl, rfl⟩ := h
  have hsane : Workbench.Sane { b with tokens := guard.tokens ++ ";" :: ts } := hb.congr rfl rfl
  obtain ⟨hsane₁, -⟩ := (Condition.careful_read {}).grows hsane hread
  have hgrows := ((careful_expect ";").grows hsane₁ hexpect).2
  obtain ⟨hreads, htokens⟩ := reads_of_read hf.slot hguard rfl hsane hpads hread
    (hfits.of_prefix hgrows.scratch)
  obtain rfl := (yields_expect htokens).mp hexpect
  exact ⟨hreads, rfl⟩

lemma exists_closeDo (hf : Ends f map R) {guard : Guard}
    (h : Reaches f t ("\x7d" :: "while" :: (guard.tokens ++ ";" :: ts)) s) (hguard : guard.IsValid)
    (hblocks : s.blocks = { block := block } :: blocks) (hkind : block.kind = .doWhile) :
    ∃ s' branch code p p', Reaches f t ts s' ∧ p'.Fits (hidden map) ∧
      Turns s s' (Code.tagLast [.finish block]
        (s.program ++ (code ++ branchTo branch (.label (.begin block) 1)))) blocks ∧
      Judges (hidden map) R p branch code p' (guard.eval? map t) := by
  obtain ⟨hgrow, hgrow', hreach⟩ := h.step (by simp) t ts
  have hrun := on_brace h hblocks
  rw [Build.on_bind, afterBrace, hkind] at hrun
  dsimp only at hrun
  have hscope : doCondition (rested s).scope = doCondition {} := congrArg _ h.scope
  rw [closeDo, Build.on_bind, Build.on_get, Build.on_bind, on_attempt, if_pos (by simp)] at hrun
  dsimp only at hrun
  rw [hscope, List.append_nil] at hrun
  generalize hb : ({ (rested s).bench with tokens := "while" :: (guard.tokens ++ ";" :: ts) } :
    Workbench) = b at hrun
  have hsane : b.Sane := hb ▸ (fine_rested h.fine).sane.congr rfl rfl
  rcases hread : (doCondition {}).on b with ⟨_ | ⟨c, before⟩, b₁⟩
  · have hfault := (careful_doCondition {}).safe.fault b
    rw [hread] at hfault hrun
    rw [hrun, Build.on_pure, on_tagLast_of_nil _ (by exact h.calls)] at hgrow'
    exact absurd (hgrow'.clean hf.clean) (hfault rfl)
  · rcases hlower : c.lower.on b₁ with ⟨⟨branch, test⟩, b'⟩
    simp only [hread, Build.on_bind, on_work, hlower, on_emit] at hrun
    rw [on_tagLast_of_nil _ (by exact h.calls)] at hrun
    rw [hrun] at hgrow hgrow' hreach
    obtain ⟨hsane₁, hgrow₁⟩ := (careful_doCondition {}).grows hsane hread
    obtain ⟨hsane', hgrows⟩ := (Condition.advances_lower c b₁).keeps hsane₁
    have htokens' := Condition.tokens_lower c b₁
    rw [hlower] at hsane' hgrows htokens'
    have hfits : b'.scratch.Fits (hidden map) :=
      fits_hidden hsane' (List.IsPrefix.trans hgrow'.globals hf.cells) hf.size
    have hpads : t.Pads b.globals := hb ▸ h.pads
    obtain ⟨hreads, htokens⟩ := reads_of_doCondition hf (by rw [← hb]) hguard hsane hpads
      (hfits.of_prefix hgrows.scratch) hread
    exact ⟨_, branch, before ++ test, _, _,
      hreach (htokens'.trans htokens) ((hpads.trans hgrow₁.globals).trans hgrows.globals) rfl rfl,
      hfits, ⟨hgrow, rfl, rfl, rfl⟩, hreads.judges hsane₁ hlower hfits⟩

end End
end Adds
end Structured
end CogolToolchain
