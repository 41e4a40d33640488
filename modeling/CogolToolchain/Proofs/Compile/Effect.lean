import CogolToolchain.Proofs.Compile.Plain
import CogolToolchain.Proofs.Grammar.Declarator

/-!
What a statement can do to a session.

`Statement.Effect` lists the sessions that a statement can lead to, for right statements and for
wrong ones, and `Statement.effect_compile` says that there are no others. What holds of every
session on the way of a compilation is then shown by going through the list.
-/

namespace CogolToolchain

open Work Attempt

lemma Workbench.grows_tokens (b : Workbench) (ts : List Token) : b.Grows { b with tokens := ts } :=
  ⟨.refl _, List.prefix_refl _, Nat.le_refl _, List.prefix_refl _⟩

def Block.Spelt (block : Block) (tokens : List Token) : Prop :=
  ∃ words ⊆ tokens, block.suffix = String.join (words.map ("_" ++ ·))

lemma Block.Spelt.mono {block : Block} {ts ts' : List Token} (h : block.Spelt ts)
    (hts : ts <:+ ts') : block.Spelt ts' :=
  let ⟨words, hwords, hsuffix⟩ := h
  ⟨words, fun _ hw => hts.subset (hwords hw), hsuffix⟩

def Session.nextCall (s : Session) : CallSite :=
  { position := s.program.length
    tokens := (Tokens.splitStatement s.bench.tokens).1
    enclosing := s.scope.enclosing }

/-- The code stores constants in cells from `base` on, before `limit`. -/
def Code.Sets (base limit : Nat) (code : Code) : Prop :=
  ∀ i ∈ code, ∃ (value : Int) (a : Nat), (base ≤ a ∧ a < limit) ∧
    i = .copy (.constant value) (.cellDest a)

namespace Declarator

variable (d : Declarator) (name : String) (t : SymbolTable)

def enter : SymbolTable :=
  match d with
  | .word | .wordWithDefault _ => t.declareWord name
  | .array size values => t.declareArray name size values.length

/-- The code that sets the initial values of a variable whose first cell is `base`. -/
def stores (base : Nat) : Code :=
  match d with
  | .word => []
  | .wordWithDefault value => Statement.initialCode base value
  | .array _ values =>
    (values.zipIdx.flatMap fun (value, i) => Statement.initialCode (base + 1 + i) value) ++
      [.copy (.constant (Numeral.wrap32 (base + 1))) (.cellDest base)]

lemma sets_initialCode {base limit address : Nat} (h : base ≤ address ∧ address < limit)
    (value : Int) : Code.Sets base limit (Statement.initialCode address value) := by
  intro i hi
  unfold Statement.initialCode at hi
  split at hi
  · simp at hi
  · exact ⟨value, address, h, List.mem_singleton.mp hi⟩

lemma sets_stores : Code.Sets t.nextFree (d.enter name t).nextFree (d.stores t.nextFree) := by
  cases d with
  | word => simp [stores, Code.Sets]
  | wordWithDefault value => exact sets_initialCode (by simp [enter]) value
  | array size values =>
    intro i hi
    rw [enter, SymbolTable.nextFree_declareArray]
    rcases List.mem_append.mp hi with hi | hi
    · obtain ⟨⟨value, k⟩, hmem, hi⟩ := List.mem_flatMap.mp hi
      have hk := List.snd_lt_of_mem_zipIdx hmem
      exact sets_initialCode (by dsimp only at hk ⊢; omega) value i hi
    · exact ⟨_, _, by omega, List.mem_singleton.mp hi⟩

end Declarator

namespace Statement

open Build Grammar

lemma on_declareGlobal (name : Token) (d : Declarator) (s : Session) :
    ((declareGlobal name d).on s).2 = { s with
      bench := { s.bench with globals := d.enter name s.bench.globals }
      preamble := s.preamble ++ d.stores s.bench.globals.nextFree } := by
  cases d with
  | word =>
    rw [Declarator.stores, List.append_nil]
    rfl
  | wordWithDefault value => rfl
  | array size values =>
    rw [Declarator.stores, ← List.append_assoc]
    rfl

/-- Variables may have got other types. -/
structure Retypes (s : Session) (globals : SymbolTable) (scope : Scope) : Prop where
  cells : globals.cells = s.bench.globals.cells
  enclosing : scope.enclosing = s.scope.enclosing
  frames : ∀ name, scope.frame? name = s.scope.frame? name ∨ ∃ first param type,
    s.scope.frame? name = some first ∧
    scope.frame? name = some { first with table := first.table.setType param type }
  entries : ∀ entry ∈ scope.subroutines, entry ∈ s.scope.subroutines ∨
    ∃ name first param type, (name, first) ∈ s.scope.subroutines ∧
      entry.2 = { first with table := first.table.setType param type }

lemma setPointerType_eq (call : CallSite) (s : Session) : ∃ globals scope,
    ((setPointerType call).on s).2 = { s with bench := { s.bench with globals }, scope } ∧
      Retypes s globals scope := by
  have hsame : Retypes s s.bench.globals s.scope :=
    ⟨rfl, rfl, fun _ => .inl rfl, fun _ => .inl⟩
  unfold setPointerType
  split
  · rename_i pointer sub _ _ _
    rw [Build.on_modify]
    split
    · rename_i owner _
      refine ⟨_, _, rfl, ?_⟩
      unfold Scope.modifyFrame
      split
      · rename_i first hfirst
        refine ⟨rfl, rfl, fun name => ?_, fun entry hentry => ?_⟩
        · rw [Scope.frame?_insert]
          split
          · rename_i heq
            subst heq
            exact .inr ⟨first, pointer, .pointer sub, hfirst, rfl⟩
          · exact .inl rfl
        · rcases Scope.mem_insertAssoc hentry with rfl | hentry
          · exact .inr ⟨owner, first, pointer, .pointer sub, Scope.mem_of_frame? hfirst, rfl⟩
          · exact .inl hentry
      · exact hsame
    · exact ⟨_, _, rfl, SymbolTable.cells_setType _, rfl, hsame.frames, hsame.entries⟩
  · exact ⟨_, _, rfl, hsame⟩

/-- The session behind the closing brace of a block and what belongs to it. -/
def closed (block : Block) (s : Session) : Session :=
  if block.kind = .whileLoop then s else ((tagLast (.finish block)).on s).2

lemma closed_eq (block : Block) (s : Session) : ∃ program calls,
    closed block s = { s with program, calls } := by
  unfold closed
  split
  · exact ⟨_, _, rfl⟩
  · obtain ⟨program, calls, hon, -⟩ := on_tagLast (.finish block) s
    exact ⟨program, calls, congrArg Prod.snd hon⟩

/-- The condition behind a `do` block. -/
structure Repeats (s : Session) where
  condition : Condition
  code : Code
  test : Code
  branch : Branch
  middle : Workbench
  left : Workbench
  read : Yields (doCondition s.scope) s.bench (condition, code) middle
  lower : condition.lower.on middle = ((branch, test), left)

/-- What follows the closing brace of a block can do to a session. -/
inductive After (block : Block) (s : Session) : Session → Prop
  /-- Nothing belongs to the block, or what does is wrong. -/
  | done {b : Workbench} (grows : s.bench.Grows b) (hkind : block.kind ≠ .sub)
      (hdo : block.kind = .doWhile → ¬ b.Clean) : After block s { s with bench := b }
  | orElse {other : Block} {b : Workbench} (grows : s.bench.Grows b) (hkind : block.kind = .ifThen)
      (hother : other.kind = .elseThen) (hid : other.id = s.bench.nextId)
      (hnext : s.bench.nextId < b.nextId) (hsuffix : other.Spelt s.bench.tokens) :
      After block s { s with
        bench := b
        program := s.program ++
          [(Instruction.jump (.label (.finish other) 1)).tagged (.begin other), .nop]
        blocks := { block := other } :: s.blocks }
  | again (r : Repeats s) (hkind : block.kind = .doWhile) :
      After block s { s with
        bench := r.left
        program := s.program ++
          (r.code ++ r.test ++ branchTo r.branch (.label (.begin block) 1)) }
  | leave (hkind : block.kind = .sub) :
      After block s { s with scope := { s.scope with enclosing := s.scope.enclosing.tail } }

/-- The parameters are those of the heading that is written, where that has constants for all
initial values. -/
def WrittenParams (s : Session) (params : List (String × Declarator)) : Prop :=
  ∀ (heading : Heading) (rest : List Token) (written : List (String × Declarator)),
    heading.IsValid → s.bench.tokens = heading.tokens ++ rest →
    heading.declared? s.scope (s.bench.globals.declareWord heading.name) s.bench.nextId =
      some written → params = written

def startsAssignment (token : Token) : Bool :=
  token ∉ [";", "call", "my", "if", "while", "do", "\x7d", "sub", "return"]

structure Introduces (s : Session) where
  name : String
  declarator : Declarator
  bench : Workbench
  grows : s.bench.Grows bench
  sane : bench.Sane
  free : isReserved name = false
  new : s.bench.globals.contains name = false
  word : name ∈ "" :: s.bench.tokens

/-- A block that is opened with a condition. It is tested with the comparison `op`. -/
structure Opening (s : Session) where
  block : Block
  condition : Condition
  op : Comparison
  code : Code
  test : Code
  branch : Branch
  start : List Token
  rest : List Token
  middle : Workbench
  left : Workbench
  id : block.id = s.bench.nextId
  spelt : block.Spelt s.bench.tokens
  start_suffix : start <:+ s.bench.tokens
  rest_suffix : rest <:+ middle.tokens
  read : Yields (Condition.read s.scope)
    { s.bench with tokens := start, nextId := s.bench.nextId + 1 } (condition, code) middle
  lower : (Condition.lower { condition with op }).on { middle with tokens := rest } =
    ((branch, test), left)

structure OpensIf (s : Session) extends Opening s where
  kind : block.kind = .ifThen
  op_eq : op = condition.op.negated

structure OpensWhile (s : Session) extends Opening s where
  slot : Instruction
  bottom : Code
  kind : block.kind = .whileLoop
  op_eq : op = condition.op
  layout : loopBottom block (code ++ test)
    ((branch.jump? (.label (.begin block) 2)).getD .nop) = (slot, bottom)

structure OpensDo (s : Session) where
  block : Block
  left : Workbench
  program : Code
  calls : List CallSite
  grows : s.bench.Grows left
  kind : block.kind = .doWhile
  id : block.id = s.bench.nextId
  next : s.bench.nextId < left.nextId
  spelt : block.Spelt s.bench.tokens
  tagged : ((tagLast (.begin block)).on { s with bench := left }).2 =
    { s with bench := left, program, calls }

/-- The session behind the closing brace of a block, before what belongs to the block. -/
abbrev braced (s : Session) (rest : List Token) (blocks : List OpenBlock) (trailer : Code) :
    Session :=
  { s with bench := { s.bench with tokens := rest }, blocks, program := s.program ++ trailer }

structure Closes (s : Session) where
  block : Block
  trailer : Code
  blocks : List OpenBlock
  rest : List Token
  inner : Session
  program : Code
  calls : List CallSite
  open_eq : s.blocks = { block, trailer } :: blocks
  tokens : rest <:+ s.bench.tokens
  after : After block (braced s rest blocks trailer) inner
  tagged : closed block inner = { inner with program, calls }

def subBlock (s : Session) (name : String) : Block :=
  { kind := .sub, id := s.bench.nextId, suffix := "_" ++ name }

structure OpensSub (s : Session) where
  name : String
  params : List (String × Declarator)
  frame : Frame
  code : Code
  globals : SymbolTable
  middle : Workbench
  left : Workbench
  declared : frame.Declared name (subBlock s name) params
  -- the frame pointer is declared, or that is an error
  fresh : (isReserved name = false ∧ s.scope.frame? name = none ∧
    s.bench.globals.contains name = false ∧ globals = s.bench.globals.declareWord name) ∨
    (globals = s.bench.globals ∧ ¬ middle.Clean)
  grows : Workbench.Grows { s.bench with globals, nextId := s.bench.nextId + 1 } middle
  sane : middle.Sane
  epilogue : (epilogue name).on middle = (code, left)
  word : name ∈ "" :: s.bench.tokens
  words : ∀ param ∈ params, param.1 ∈ "" :: s.bench.tokens
  written : middle.Clean → WrittenParams s params

structure Queues (s : Session) where
  globals : SymbolTable
  scope : Scope
  next : Tokens.peek s.bench.tokens = "call"
  retypes : Retypes s globals scope
  typed : ((setPointerType s.nextCall).on { s with
    bench := { s.bench with tokens := (Tokens.splitStatement s.bench.tokens).2 } }).2 =
      { s with bench := { s.bench with
        tokens := (Tokens.splitStatement s.bench.tokens).2, globals }, scope }

section

variable {s : Session}

abbrev Introduces.session (d : Introduces s) : Session := { s with
  bench := { d.bench with globals := d.declarator.enter d.name d.bench.globals }
  preamble := s.preamble ++ d.declarator.stores d.bench.globals.nextFree }

abbrev OpensIf.session (o : OpensIf s) : Session := { s with
  bench := o.left
  program := s.program ++ (o.code ++ o.test ++ branchTo o.branch (.label (.finish o.block) 1))
  blocks := { block := o.block } :: s.blocks }

abbrev OpensWhile.session (o : OpensWhile s) : Session := { s with
  bench := o.left
  program := s.program ++
    [(Instruction.jump (.label (.finish o.block) 0)).tagged (.begin o.block), o.slot]
  blocks := { block := o.block, trailer := o.bottom } :: s.blocks }

abbrev OpensDo.session (o : OpensDo s) : Session := { s with
  bench := o.left, program := o.program, calls := o.calls
  blocks := { block := o.block } :: s.blocks }

abbrev Closes.session (c : Closes s) : Session :=
  { c.inner with program := c.program, calls := c.calls }

abbrev OpensSub.block (o : OpensSub s) : Block := subBlock s o.name

abbrev OpensSub.session (o : OpensSub s) : Session := { s with
  bench := o.left
  scope := s.scope.within o.name { o.frame with epilogue := o.code }
  program := s.program ++
    [.jump (.label (.finish o.block) 1), Instruction.nop.tagged (.begin o.block)]
  blocks := { block := o.block, trailer := o.code } :: s.blocks }

abbrev Queues.session (q : Queues s) : Session := { s with
  bench := { s.bench with
    tokens := (Tokens.splitStatement s.bench.tokens).2, globals := q.globals }
  scope := q.scope, calls := s.nextCall :: s.calls }

end

inductive Effect (s : Session) : Session → Prop
  | idle {b : Workbench} (grows : s.bench.Grows b) : Effect s { s with bench := b }
  | declare (d : Introduces s) : Effect s d.session
  | assign {code : Code} {b : Workbench}
      (hnext : startsAssignment (Tokens.peek s.bench.tokens) = true)
      (lower : Yields (Assignment.lower s.scope) s.bench code b) :
      Effect s { s with bench := b, program := s.program ++ code }
  | openFaulty {block : Block} {b : Workbench} (grows : s.bench.Grows b) (hfaulty : ¬ b.Clean)
      (hsuffix : block.Spelt s.bench.tokens) :
      Effect s { s with bench := b, blocks := { block := block } :: s.blocks }
  | openIf (o : OpensIf s) : Effect s o.session
  | openWhile (o : OpensWhile s) : Effect s o.session
  | openDo (o : OpensDo s) : Effect s o.session
  | close (c : Closes s) : Effect s c.session
  | subroutine (o : OpensSub s) : Effect s o.session
  | leave {name : String} {names : List String} {b : Workbench} (grows : s.bench.Grows b)
      (henclosing : s.scope.enclosing = name :: names) :
      Effect s { s with
        bench := b, program := s.program ++ ((s.scope.frame? name).map Frame.epilogue).getD [] }
  | call (q : Queues s) : Effect s q.session

section

variable {s : Session}

lemma effect_declaration (hs : s.Fine) : Effect s (declaration.on s).2 := by
  simp only [declaration, Build.on_bind, on_discard, on_work, Build.on_get, on_pop]
  generalize hb : ({ s.bench with tokens := Tokens.rest (Tokens.rest s.bench.tokens) } :
    Workbench) = b
  have hg : s.bench.Grows b := hb ▸ s.bench.grows_tokens _
  have hsane : b.Sane := hb ▸ hs.sane.congr rfl rfl
  have hword : Tokens.peek (Tokens.rest s.bench.tokens) ∈ "" :: s.bench.tokens :=
    Tokens.peek_rest_mem s.bench.tokens
  generalize Tokens.peek (Tokens.rest s.bench.tokens) = name at hword
  split
  · exact .idle (hg.trans ((advances_reportStatement _ b).keeps hsane).2)
  · rename_i hfree
    split
    · exact .idle (hg.trans ((advances_reportStatement _ b).keeps hsane).2)
    · rename_i hnew
      simp only [Build.on_bind, on_attempt]
      obtain ⟨hsane', hg'⟩ := (Declarator.careful_read s.scope name [";"]).safe.keeps b hsane
      split
      · rw [on_declareGlobal]
        exact .declare ⟨name, _, _, hg.trans hg', hsane', by simpa using hfree,
          by simpa using hnew, hword⟩
      · exact .idle (hg.trans hg')

lemma on_assignment (s : Session) : assignment.on s =
    match (Assignment.lower s.scope).on s.bench with
    | (some code, b) => ((), { s with bench := b, program := s.program ++ code })
    | (none, b) => ((), { s with bench := b }) := by
  rw [assignment]
  simp only [Build.on_bind, Build.on_get, on_attempt]
  rcases (Assignment.lower s.scope).on s.bench with ⟨_ | code, b⟩ <;> rfl

lemma effect_assignment (hs : s.Fine)
    (hnext : startsAssignment (Tokens.peek s.bench.tokens) = true) :
    Effect s (assignment.on s).2 := by
  rw [on_assignment]
  have hg := ((Assignment.careful_lower s.scope).safe.keeps s.bench hs.sane).2
  rcases h : (Assignment.lower s.scope).on s.bench with ⟨_ | code, b⟩
  · rw [show (Assignment.lower s.scope).run.on s.bench = (none, b) from h] at hg
    exact .idle hg
  · exact .assign hnext h

lemma spelt_blockSuffix (s : Session) : ∃ suffix ts,
    blockSuffix.on s = (suffix, { s with bench := { s.bench with tokens := ts } }) ∧
      ∀ kind id, Block.Spelt { kind, id, suffix } s.bench.tokens :=
  ⟨_, _, on_blockSuffix s, fun _ _ => ⟨_, List.takeWhile_subset _, rfl⟩⟩

lemma effect_blockStart (hs : s.Fine) : Effect s (blockStart.on s).2 := by
  simp only [blockStart, Build.on_bind, on_work, Build.on_get, on_pop, on_attempt, on_takeId]
  generalize Tokens.peek s.bench.tokens = keyword
  generalize hb : ({ s.bench with
    tokens := Tokens.rest s.bench.tokens, nextId := s.bench.nextId + 1 } : Workbench) = b
  have hg : s.bench.Grows b :=
    hb ▸ ⟨.refl _, List.prefix_refl _, Nat.le_succ _, List.prefix_refl _⟩
  have hsane : b.Sane := hb ▸ hs.sane.congr rfl rfl
  have htokens : ((Condition.read s.scope).on b).2.tokens <:+ s.bench.tokens :=
    ((Condition.careful_read s.scope).absorbs b).tokens.trans
      (hb ▸ Tokens.rest_suffix s.bench.tokens)
  obtain ⟨-, hg₁⟩ := (Condition.careful_read s.scope).safe.keeps b hsane
  have hfault := (Condition.careful_read s.scope).safe.fault b
  change b.Grows ((Condition.read s.scope).on b).2 at hg₁
  rcases hread : (Condition.read s.scope).on b with ⟨_ | ⟨condition, code⟩, b₁⟩
  · rw [hread] at hg₁ hfault htokens
    obtain ⟨suffix, ts, hsuffix, hspelt⟩ := spelt_blockSuffix { s with bench := b₁ }
    rw [hsuffix]
    exact .openFaulty (hg.trans (hg₁.trans (b₁.grows_tokens ts))) (hfault rfl)
      ((hspelt _ _).mono htokens)
  · rw [hread] at htokens
    obtain ⟨suffix, ts, hsuffix, hspelt⟩ := spelt_blockSuffix { s with bench := b₁ }
    have hts := advances_blockSuffix.consumes { s with bench := b₁ }
    rw [hsuffix] at hts ⊢
    let opening (kind : BlockKind) (op : Comparison) : Opening s :=
      { block := ⟨kind, s.bench.nextId, suffix⟩, condition, op, code, test := _, branch := _
        start := Tokens.rest s.bench.tokens, rest := ts, middle := b₁, left := _, id := rfl
        spelt := (hspelt _ _).mono htokens, start_suffix := Tokens.rest_suffix _
        rest_suffix := hts, read := by rw [hb]; exact hread, lower := rfl }
    dsimp only
    split
    · exact .openWhile ⟨opening .whileLoop condition.op, _, _, rfl, rfl, rfl⟩
    · exact .openIf ⟨opening .ifThen condition.op.negated, rfl, rfl⟩

lemma effect_doStart : Effect s (doStart.on s).2 := by
  simp only [doStart, Build.on_bind, on_discard, on_work, on_pop, on_takeId]
  obtain ⟨suffix, ts, hsuffix, hspelt⟩ := spelt_blockSuffix { s with bench :=
    { s.bench with tokens := Tokens.rest s.bench.tokens, nextId := s.bench.nextId + 1 } }
  rw [hsuffix]
  dsimp only
  let b : Workbench := { s.bench with nextId := s.bench.nextId + 1, tokens := ts }
  obtain ⟨program, calls, hon, -⟩ :=
    on_tagLast (.begin ⟨.doWhile, s.bench.nextId, suffix⟩) { s with bench := b }
  rw [hon]
  exact .openDo ⟨_, b, program, calls,
    ⟨.refl _, List.prefix_refl _, Nat.le_succ _, List.prefix_refl _⟩, rfl, rfl,
    Nat.lt_succ_self _, (hspelt _ _).mono (Tokens.rest_suffix _), congrArg Prod.snd hon⟩

lemma after_openElse {block : Block} (hkind : block.kind = .ifThen) (s : Session) :
    After block s (openElse.on s).2 := by
  simp only [openElse, Build.on_bind, on_work]
  have hdo : block.kind = .doWhile → ¬ s.bench.Clean := by simp [hkind]
  rw [on_eat]
  rcases heat : Tokens.eat? "else" s.bench.tokens with _ | rest
  · exact .done (.refl _) (by simp [hkind]) hdo
  · simp only [if_true, Build.on_bind, on_work, on_takeId]
    obtain ⟨suffix, ts, hsuffix, hspelt⟩ := spelt_blockSuffix { s with bench :=
      { s.bench with tokens := rest, nextId := s.bench.nextId + 1 } }
    rw [hsuffix]
    exact .orElse (b := { s.bench with nextId := s.bench.nextId + 1, tokens := ts })
      ⟨.refl _, List.prefix_refl _, Nat.le_succ _, List.prefix_refl _⟩ hkind rfl rfl
      (Nat.lt_succ_self _) ((hspelt _ _).mono (Tokens.eat?_suffix heat))

lemma after_closeDo {block : Block} (hkind : block.kind = .doWhile) (hs : s.Fine) :
    After block s ((closeDo block).on s).2 := by
  simp only [closeDo, Build.on_bind, Build.on_get, on_attempt]
  have hg := ((careful_doCondition s.scope).safe.keeps s.bench hs.sane).2
  change s.bench.Grows ((doCondition s.scope).on s.bench).2 at hg
  have hfault := (careful_doCondition s.scope).safe.fault s.bench
  rcases hread : (doCondition s.scope).on s.bench with ⟨_ | ⟨condition, code⟩, b₁⟩
  · rw [hread] at hg hfault
    exact .done hg (by simp [hkind]) fun _ => hfault rfl
  · exact .again ⟨_, _, _, _, _, _, hread, rfl⟩ hkind

lemma after_afterBrace (block : Block) (hs : s.Fine) :
    After block s ((afterBrace block).on s).2 := by
  unfold afterBrace
  split
  · exact after_openElse ‹_› s
  · exact after_closeDo ‹_› hs
  · exact .leave ‹_›
  · exact .done (.refl _) (by simp [*]) (by simp [*])
  · exact .done (.refl _) (by simp [*]) (by simp [*])

lemma effect_blockEnd (hs : s.Fine) : Effect s (blockEnd.on s).2 := by
  simp only [blockEnd, Build.on_bind, on_discard, on_work, on_pop, Build.on_get]
  split
  · exact .idle ((s.bench.grows_tokens _).trans ((advances_report .strayBrace
      { s.bench with tokens := Tokens.rest s.bench.tokens }).keeps (hs.sane.congr rfl rfl)).2)
  · rename_i block trailer blocks hblocks
    simp only [Build.on_bind, Build.on_modify, on_emit]
    have hs₁ : Session.Fine { s with
        bench := { s.bench with tokens := Tokens.rest s.bench.tokens }
        blocks, program := s.program ++ trailer } :=
      ⟨hs.sane.congr rfl rfl, hs.placed.mono (by simp)⟩
    have hafter := after_afterBrace block hs₁
    generalize ((afterBrace block).on _).2 = inner at hafter ⊢
    obtain ⟨program, calls, hclosed⟩ := closed_eq block inner
    have heffect : Effect s (closed block inner) := by
      rw [hclosed]
      exact .close ⟨_, _, _, _, _, _, _, hblocks, Tokens.rest_suffix _, hafter, hclosed⟩
    by_cases hkind : block.kind = .whileLoop
    · simpa [closed, hkind] using heffect
    · simpa [closed, hkind] using heffect

/-- If a parameter is written in the tokens of `b`, with constants for its initial values, it is
read. -/
def TakesParam (scope : Scope) (b b' : Workbench) (P : Decl → Declarator → Prop) : Prop :=
  ∀ (d : Decl) (sep : Token) (ts : List Token) (t : SymbolTable) (x : Declarator),
    IsParam (d, sep) → b.tokens = d.name :: (d.form ++ sep :: ts) → t.Pads b.globals →
    d.declarator? (Ref.constant? scope t) = some x → P d x ∧ b'.tokens = ts

lemma on_param {scope : Scope} {name : String} {block : Block} {frame : Frame}
    {params : List (String × Declarator)} (hs : s.Fine) (hscope : s.scope = scope.within name frame)
    (declared : frame.Declared name block params) : ∃ b frame' params',
      ((param name).on s).2 = { s with bench := b, scope := scope.within name frame' } ∧
      s.bench.Grows b ∧ b.Sane ∧ frame'.Declared name block params' ∧
      (∀ p ∈ params', p ∈ params ∨ p.1 ∈ "" :: s.bench.tokens) ∧
      (b.Clean → TakesParam (scope.within name frame) s.bench b fun d x =>
        frame' = frame.declare d.name x ∧ params' = params ++ [(d.name, x)]) := by
  simp only [param, Build.on_bind, on_work, on_pop, Build.on_get]
  generalize hb : ({ s.bench with tokens := Tokens.rest s.bench.tokens } : Workbench) = b
  have hg : s.bench.Grows b := hb ▸ s.bench.grows_tokens _
  have hsane : b.Sane := hb ▸ hs.sane.congr rfl rfl
  -- what is wrong adds nothing to the frame
  have hfault : ∀ b', b.Grows b' → b'.Sane → ¬ b'.Clean → ∃ b'' frame' params',
      ({ s with bench := b' } : Session) =
        { s with bench := b'', scope := scope.within name frame' } ∧
      s.bench.Grows b'' ∧ b''.Sane ∧ frame'.Declared name block params' ∧
      (∀ p ∈ params', p ∈ params ∨ p.1 ∈ "" :: s.bench.tokens) ∧
      (b''.Clean → TakesParam (scope.within name frame) s.bench b'' fun d x =>
        frame' = frame.declare d.name x ∧ params' = params ++ [(d.name, x)]) :=
    fun b' hg' hs' hfaulty => ⟨b', frame, params, by rw [← hscope], hg.trans hg', hs', declared,
      fun _ => .inl, fun hc => absurd hc hfaulty⟩
  have hword := Tokens.peek_mem s.bench.tokens
  split
  · obtain ⟨h1, h2⟩ := (advances_reportThrough [",", ")"]
      (.redeclaredParameter (Tokens.peek s.bench.tokens) name) b).keeps hsane
    exact hfault _ h2 h1 (not_clean_report
      (show (Problem.redeclaredParameter (Tokens.peek s.bench.tokens) name).IsFatal from rfl) _ _)
  · rename_i hnew
    split
    · obtain ⟨h1, h2⟩ := (advances_reportThrough [",", ")"]
        (.reservedParameter (Tokens.peek s.bench.tokens) name) b).keeps hsane
      exact hfault _ h2 h1 (not_clean_report
        (show (Problem.reservedParameter (Tokens.peek s.bench.tokens) name).IsFatal from rfl) _ _)
    · rename_i hfree
      simp only [Build.on_bind, on_attempt]
      obtain ⟨hs', hg'⟩ := (Declarator.careful_read s.scope (Tokens.peek s.bench.tokens)
        [",", ")"]).safe.keeps b hsane
      split
      · rename_i d hread
        rw [hscope, Scope.frame?_within, if_pos rfl] at hnew
        refine ⟨_, frame.declare (Tokens.peek s.bench.tokens) d, _, ?_, hg.trans hg', hs',
          declared.declare d (by simpa using hnew) (by simpa using hfree), fun q hq => ?_, ?_⟩
        · simp only [declareParam, Build.on_modify, hscope, Scope.modifyFrame_within]
          cases d <;> rfl
        · rcases List.mem_append.mp hq with hq | hq
          · exact .inl hq
          · rw [List.mem_singleton.mp hq]
            exact .inr hword
        · intro hclean d' sep ts t x hparam htokens hpads hx
          have hrest : b.tokens = d'.form ++ sep :: ts := by rw [← hb, htokens]; rfl
          have hpads' : t.Pads b.globals := hb ▸ hpads
          obtain ⟨rfl, hleft⟩ := Decl.declarator?_of_read hparam.1 (hscope ▸ hx) hparam.2.2
            (by decide) hrest hsane hpads' hclean (Prod.ext hread rfl)
          have hnext : Tokens.peek s.bench.tokens = d'.name := by rw [htokens]; rfl
          exact ⟨⟨by rw [hnext], by rw [hnext]⟩, hleft⟩
      · rename_i hread
        exact hfault _ hg' hs' ((Declarator.careful_read _ _ _).safe.fault b hread)

lemma on_params {scope : Scope} {name : String} {block : Block} (rounds : Nat) {frame : Frame}
    {params : List (String × Declarator)} (hs : s.Fine) (hscope : s.scope = scope.within name frame)
    (declared : frame.Declared name block params) : ∃ b frame' params',
      ((Statement.params name rounds).on s).2 =
        { s with bench := b, scope := scope.within name frame' } ∧
      s.bench.Grows b ∧ b.Sane ∧ frame'.Declared name block params' ∧
      (∀ p ∈ params', p ∈ params ∨ p.1 ∈ "" :: s.bench.tokens) ∧
      (b.Clean → ∀ (ds : List (Decl × Token)) (ts : List Token) (t : SymbolTable)
        (written : List (String × Declarator)), (∀ p ∈ ds, IsParam p) → ds.length ≤ rounds →
        s.bench.tokens = paramTokens ds ++ "\x7b" :: ts → t.Pads s.bench.globals →
        declaredParams? scope t name frame ds = some written → params' = params ++ written) := by
  induction rounds generalizing s frame params with
  | zero =>
    refine ⟨s.bench, frame, params, by rw [← hscope]; rfl, .refl _, hs.sane, declared,
      fun _ => .inl, ?_⟩
    intro _ ds ts t written _ hrounds _ _ hwritten
    obtain rfl := List.eq_nil_of_length_eq_zero (Nat.le_zero.mp hrounds)
    obtain rfl : [] = written := Option.some.inj hwritten
    rw [List.append_nil]
  | succ rounds ih =>
    simp only [Statement.params, Build.on_bind, Build.on_get]
    split
    · rename_i hstop
      refine ⟨s.bench, frame, params, by rw [← hscope]; rfl, .refl _, hs.sane, declared,
        fun _ => .inl, ?_⟩
      intro _ ds ts t written hds _ htokens _ hwritten
      cases ds with
      | nil =>
        obtain rfl : [] = written := Option.some.inj hwritten
        rw [List.append_nil]
      | cons p ds =>
        obtain ⟨d, sep⟩ := p
        have hname := (hds (d, sep) (by simp)).2.1
        simp [htokens, paramTokens_cons, Tokens.peek] at hstop
        simp [hstop] at hname
    · rename_i hmore
      obtain ⟨b, frame', params', hon, hg, hsane, declared', hwords, hread⟩ :=
        on_param hs hscope declared
      have hconsumes := (progresses_param name).advances.consumes s
      rw [hon] at hconsumes
      rw [Build.on_bind, hon]
      obtain ⟨b', frame'', params'', hon', hg', hsane', declared'', hwords', hread'⟩ :=
        ih (s := { s with bench := b, scope := scope.within name frame' }) ⟨hsane, hs.placed⟩ rfl
          declared'
      refine ⟨b', frame'', params'', hon', hg.trans hg', hsane', declared'', fun p hp => ?_, ?_⟩
      · rcases hwords' p hp with hold | hnew
        · exact hwords p hold
        · exact .inr (List.cons_subset_cons _ hconsumes.subset hnew)
      · intro hclean ds ts t written hds hrounds htokens hpads hwritten
        cases ds with
        | nil => simp [htokens, paramTokens, Tokens.peek] at hmore
        | cons p ds =>
          obtain ⟨d, sep⟩ := p
          simp only [declaredParams?, Option.bind_eq_bind, Option.bind_eq_some_iff, Option.pure_def,
            Option.some.injEq] at hwritten
          obtain ⟨x, hx, others, hothers, rfl⟩ := hwritten
          rw [paramTokens_cons, List.cons_append, List.append_assoc, List.cons_append] at htokens
          obtain ⟨⟨rfl, rfl⟩, hleft⟩ :=
            hread (hg'.clean hclean) d sep _ t x (hds (d, sep) (by simp)) htokens hpads hx
          rw [hread' hclean ds ts t others (fun p hp => hds p (by simp [hp]))
            (Nat.le_of_succ_le_succ hrounds) hleft (hpads.trans hg.globals) hothers]
          simp

lemma on_declareFramePointer (name : String) (hs : s.Fine) : ∃ b g,
    ((declareFramePointer name).on s).2 = { s with bench := b } ∧ b.Sane ∧
      Workbench.Grows { s.bench with globals := g } b ∧ b.nextId = s.bench.nextId ∧
      b.tokens = s.bench.tokens ∧
      ((isReserved name = false ∧ s.scope.frame? name = none ∧
        s.bench.globals.contains name = false ∧ g = s.bench.globals.declareWord name) ∨
        (g = s.bench.globals ∧ ¬ b.Clean)) := by
  simp only [declareFramePointer, Build.on_bind, Build.on_get]
  have hfault : ∀ p : Problem, p.IsFatal → ∃ b g,
      ((work (Work.report p)).on s).2 = { s with bench := b } ∧ b.Sane ∧
      Workbench.Grows { s.bench with globals := g } b ∧ b.nextId = s.bench.nextId ∧
      b.tokens = s.bench.tokens ∧
      ((isReserved name = false ∧ s.scope.frame? name = none ∧
        s.bench.globals.contains name = false ∧ g = s.bench.globals.declareWord name) ∨
        (g = s.bench.globals ∧ ¬ b.Clean)) := fun p hp => by
    obtain ⟨h1, h2⟩ := (advances_report p s.bench).keeps hs.sane
    exact ⟨_, _, rfl, h1, h2, rfl, rfl, .inr ⟨rfl, not_clean_report hp s.bench ""⟩⟩
  split
  · exact hfault _ rfl
  · rename_i hfree
    have hfree : isReserved name = false := by simpa using hfree
    split
    · exact hfault _ rfl
    · rename_i hframe
      split
      · exact hfault _ rfl
      · rename_i hnew
        refine ⟨_, _, rfl, hs.sane.declareWord (ne_scratchName hfree), .refl _, rfl, rfl,
          .inl ⟨hfree, ?_⟩⟩
        exact ⟨by simpa using hframe, by simpa using hnew, rfl⟩

lemma tokens_of_heading {heading : Heading} {b : Workbench} {rest : List Token}
    (hvalid : heading.IsValid)
    (ht : b.tokens = (heading.tokens ++ rest).drop 2) :
    ((Work.eat ")").on ((expect "(").on b).2).2.tokens =
      paramTokens heading.params ++ "\x7b" :: rest := by
  obtain ⟨name, params⟩ := heading
  cases params with
  | nil =>
    replace ht : b.tokens = "(" :: ")" :: "\x7b" :: rest := ht
    rw [show (expect "(").on b = (some (), _) from (yields_expect ht).mpr rfl, on_eat_of_eq rfl]
    rfl
  | cons p params =>
    obtain ⟨d, sep⟩ := p
    replace ht : b.tokens = "(" :: (paramTokens ((d, sep) :: params) ++ "\x7b" :: rest) := by
      simpa [Heading.tokens] using ht
    have hname : d.name ≠ ")" := by
      rintro hclose
      exact (hvalid (d, sep) (by simp)).2.1 (by simp [hclose])
    rw [show (expect "(").on b = (some (), _) from (yields_expect ht).mpr rfl, on_eat_of_ne]
    simpa [paramTokens_cons, Tokens.peek] using hname

lemma effect_subroutine (hs : s.Fine) : Effect s (subroutine.on s).2 := by
  simp only [subroutine, Build.on_bind, on_discard, on_work, on_pop]
  have hword := Tokens.peek_rest_mem s.bench.tokens
  generalize hsecond : Tokens.peek (Tokens.rest s.bench.tokens) = name at hword
  have hts : Tokens.rest (Tokens.rest s.bench.tokens) <:+ s.bench.tokens :=
    (Tokens.rest_suffix _).trans (Tokens.rest_suffix _)
  generalize hrest : Tokens.rest (Tokens.rest s.bench.tokens) = ts at hts
  obtain ⟨b₁, g, hon, hsane₁, hg₁, hnext₁, htokens₁, hname⟩ := on_declareFramePointer name
    (s := { s with bench := { s.bench with tokens := ts } }) ⟨hs.sane.congr rfl rfl, hs.placed⟩
  rw [hon]
  dsimp only at hg₁ hnext₁ htokens₁ hname
  simp only [on_takeId, Build.on_modify, on_attempt, hnext₁]
  generalize hblock : ({ kind := .sub, id := s.bench.nextId, suffix := "_" ++ name } : Block) =
    block
  -- from the opening brace on
  have htail : ∀ (b₂ : Workbench) (frame : Frame) (params : List (String × Declarator)),
      { b₁ with nextId := s.bench.nextId + 1 }.Grows b₂ → b₂.Sane →
      frame.Declared name block params → (∀ p ∈ params, p.1 ∈ "" :: s.bench.tokens) →
      (b₂.Clean → WrittenParams s params) → Effect s ((do
        discard (work (Work.eat "\x7b"))
        emit [.jump (.label (.finish block) 1), Instruction.nop.tagged (.begin block)]
        let code ← work (Statement.epilogue name)
        modify fun s => { s with
          scope := s.scope.modifyFrame name fun f => { f with epilogue := code } }
        openBlock block code : Build Unit).on
          { s with bench := b₂, scope := s.scope.within name frame }).2 := by
    intro b₂ frame params hg₂ hsane₂ declared hparams hwritten
    simp only [Build.on_bind, on_discard, on_work, on_emit, Build.on_modify, on_openBlock,
      Scope.modifyFrame_within]
    obtain ⟨hsane₃, hg₃⟩ := (advances_eat "\x7b" b₂).keeps hsane₂
    have hgrows := hg₂.trans hg₃
    subst hblock
    refine .subroutine ⟨_, _, _, _, _, _, _, declared,
      hname.imp_right fun h => ⟨h.1, fun hc => h.2 ?_⟩,
      ⟨hg₁.globals.trans hgrows.globals, hg₁.scratch.trans hgrows.scratch, hgrows.nextId,
        hg₁.diagnostics.trans hgrows.diagnostics⟩, hsane₃, rfl, hword, hparams,
      fun hc => hwritten (hg₃.clean hc)⟩
    exact fun d hd => hc d (hgrows.diagnostics.subset hd)
  have hsane₂ : Workbench.Sane { b₁ with nextId := s.bench.nextId + 1 } := hsane₁.congr rfl rfl
  obtain ⟨hsane₃, hg₃⟩ := (careful_expect "(").safe.keeps _ hsane₂
  split
  · simp only [Build.on_bind, on_discard, on_work, Build.on_get]
    obtain ⟨hsane₄, hg₄⟩ := (advances_eat ")" _).keeps hsane₃
    have hgrows := hg₃.trans hg₄
    change Workbench.Grows _ ((Work.eat ")").on ((expect "(").on _).2).2 at hgrows
    change Workbench.Sane ((Work.eat ")").on ((expect "(").on _).2).2 at hsane₄
    have htokens₄ : ((Work.eat ")").on ((expect "(").on
        { b₁ with nextId := s.bench.nextId + 1 }).2).2.tokens <:+ s.bench.tokens :=
      ((advances_eat ")").consumes _).tokens.trans
        (((careful_expect "(").absorbs _).tokens.trans (htokens₁ ▸ hts))
    have hheading : ∀ (heading : Heading) (rest : List Token), heading.IsValid →
        s.bench.tokens = heading.tokens ++ rest →
        ((Work.eat ")").on ((expect "(").on
          { b₁ with nextId := s.bench.nextId + 1 }).2).2.tokens =
            paramTokens heading.params ++ "\x7b" :: rest := by
      intro heading rest hvalid htokens
      refine tokens_of_heading hvalid ?_
      show b₁.tokens = _
      rw [htokens₁, ← hrest, htokens]
      rfl
    generalize ((Work.eat ")").on ((expect "(").on
      { b₁ with nextId := s.bench.nextId + 1 }).2).2 = b₄ at hgrows hsane₄ htokens₄ hheading ⊢
    let s₄ : Session := { s with bench := b₄, scope := s.scope.within name (.new name block) }
    obtain ⟨b₅, frame, params, hon₅, hg₅, hsane₅, declared, hwords, hread⟩ :=
      on_params b₄.tokens.length (s := s₄) ⟨hsane₄, hs.placed⟩ rfl .new
    have hparams : ∀ p ∈ params, p.1 ∈ "" :: s.bench.tokens := fun p hp => by
      rcases hwords p hp with hold | hnew
      · simp at hold
      · exact List.cons_subset_cons _ htokens₄.subset hnew
    have hwritten : b₅.Clean → WrittenParams s params := by
      intro hclean heading rest written hvalid htokens hdeclared
      have hleft := hheading heading rest hvalid htokens
      obtain rfl : heading.name = name := by
        rw [← hsecond, htokens]
        rfl
      obtain ⟨-, -, -, rfl⟩ := hname.resolve_right fun h => h.2 ((hgrows.trans hg₅).clean hclean)
      refine hread hclean heading.params rest _ written hvalid ?_ hleft
        (hg₁.globals.trans hgrows.globals) (hblock ▸ hdeclared)
      rw [hleft, List.length_append]
      exact (length_le_paramTokens _).trans (Nat.le_add_right _ _)
    have heffect := htail b₅ frame params (hgrows.trans hg₅) hsane₅ declared hparams hwritten
    rw [← hon₅] at heffect
    exact heffect
  · rename_i hfail
    refine htail _ _ _ hg₃ hsane₃ .new (by simp) fun hclean => absurd hclean ?_
    exact (careful_expect "(").safe.fault _ (by simpa using hfail)

lemma effect_returnStatement (hs : s.Fine) : Effect s (returnStatement.on s).2 := by
  simp only [returnStatement, Build.on_bind, on_discard, on_work, on_pop, Build.on_get]
  generalize hb : ({ s.bench with tokens := Tokens.rest s.bench.tokens } : Workbench) = b
  have hg : s.bench.Grows b := hb ▸ s.bench.grows_tokens _
  have hsane : b.Sane := hb ▸ hs.sane.congr rfl rfl
  split
  · exact .idle (hg.trans ((advances_reportStatement _ b).keeps hsane).2)
  · rename_i name names henclosing
    simp only [Build.on_bind, on_work]
    obtain ⟨hsane₁, hg₁⟩ := (advances_eat ";" b).keeps hsane
    split
    · exact .leave (hg.trans hg₁) henclosing
    · exact .idle ((hg.trans hg₁).trans ((advances_reportStatement _ _).keeps hsane₁).2)

lemma exists_queues (hnext : Tokens.peek s.bench.tokens = "call") :
    ∃ q : Queues s, (queueCall.on s).2 = q.session := by
  let s₀ : Session :=
    { s with bench := { s.bench with tokens := (Tokens.splitStatement s.bench.tokens).2 } }
  obtain ⟨globals, scope, hon, hcells, henclosing, hframes, hentries⟩ :=
    setPointerType_eq s.nextCall s₀
  have hqueue : (queueCall.on s).2 = { ((setPointerType s.nextCall).on s₀).2 with
    calls := s.nextCall :: ((setPointerType s.nextCall).on s₀).2.calls } := rfl
  refine ⟨⟨globals, scope, hnext, ⟨hcells, henclosing, hframes, hentries⟩, hon⟩, ?_⟩
  rw [hqueue, hon]

/-- A call only waits. -/
lemma exists_compile_call (hnext : Tokens.peek s.bench.tokens = "call") :
    ∃ q : Queues (rested s), (Statement.compile.on s).2 = q.session := by
  rw [on_compile, hnext]
  exact exists_queues hnext

lemma fine_rested (hs : s.Fine) : (rested s).Fine :=
  ⟨(Workbench.pool_keeps hs.sane (ScratchPool.addresses_releaseAll _)).1, hs.placed⟩

/-- A statement does one of the things listed. -/
theorem effect_compile (hs : s.Fine) : Effect (rested s) (Statement.compile.on s).2 := by
  have hs₀ := fine_rested hs
  rw [on_compile]
  split
  · exact .idle ((rested s).bench.grows_tokens _)
  · rename_i hnext
    obtain ⟨q, hq⟩ := exists_queues (s := rested s) hnext
    rw [hq]
    exact .call q
  · exact effect_declaration hs₀
  · exact effect_blockStart hs₀
  · exact effect_blockStart hs₀
  · exact effect_doStart
  · exact effect_blockEnd hs₀
  · exact effect_subroutine hs₀
  · exact effect_returnStatement hs₀
  · rename_i h₁ h₂ h₃ h₄ h₅ h₆ h₇ h₈ h₉
    exact effect_assignment hs₀
      (by simpa [startsAssignment, rested] using ⟨h₁, h₂, h₃, h₄, h₅, h₆, h₇, h₈, h₉⟩)

end
end Statement
end CogolToolchain
