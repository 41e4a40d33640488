import CogolToolchain.Proofs.Compile.Labelling
import CogolToolchain.Proofs.Compile.MemoryMap
import CogolToolchain.Proofs.Compile.Numbers
import CogolToolchain.Proofs.Compile.Progress

/-!
The books of a compilation are in order between any two statements.

A `Ledger` is a session with two records of its history: which call ended the program last, and what
has taken a number so far. The records are kept by looking at what a statement or a call does; the
session is that of the compilation itself. Whatever the tokens are, and however many lists of them
have been compiled before, the ledger is in order after every statement
(`Ledger.ordered_between_statements`): the subroutines around the next statement are those whose
blocks are open, every frame starts with its two cells of bookkeeping, the calls that wait stand in
the order of the program, the last call is the one that a label would go on, and every number below
the counter belongs to one block, product or call.
-/

namespace CogolToolchain

open Statement

/-! ### What has a number -/

inductive Numbered where
  | block (block : Block)
  | product (id : Nat)
  | call (site : CallSite) (id : Nat)

namespace Numbered

def id : Numbered → Nat
  | block b => b.id
  | product id => id
  | call _ id => id

/-- The label is one that the block, product or call puts into the program. -/
def Owns : Numbered → Label → Prop
  | block b, l => l ∈ blockLabels b
  | product id, l => l = .multiplyEnd id
  | call _ id, l => ∃ sub, l = .callReturn id sub

/-- The label belongs to something in the list, or else it is the one that every program starts
with. -/
def Belongs (log : List Numbered) (l : Label) : Prop :=
  l = .preloadCallStack ∨ ∃ x ∈ log, x.Owns l

def ofLabel? : Label → Option Numbered
  | .multiplyEnd id => some (product id)
  | _ => none

/-- What is listed takes the next number, if there is anything; the counter goes from `n` to
`n'`. -/
def TakesNext (taken : List Numbered) (n n' : Nat) : Prop :=
  (taken = [] ∧ n' = n) ∨ ∃ x, taken = [x] ∧ x.id = n ∧ n' = n + 1

variable {log taken : List Numbered} {n n' : Nat}

lemma Belongs.append {l : Label} (h : Belongs log l) (taken : List Numbered) :
    Belongs (log ++ taken) l :=
  h.imp_right fun ⟨x, hx, howns⟩ => ⟨x, List.mem_append_left _ hx, howns⟩

lemma TakesNext.range (h : TakesNext taken n n') (hlog : log.map id = List.range n) :
    (log ++ taken).map id = List.range n' := by
  rw [List.map_append, hlog]
  rcases h with ⟨rfl, rfl⟩ | ⟨x, rfl, hid, rfl⟩
  · exact List.append_nil _
  · rw [List.map_singleton, hid, List.range_succ]

end Numbered

/-- The blocks that are open in the second session and were not in the first one. -/
def Session.newBlocks (s s' : Session) : List Block :=
  (s'.blocks.map OpenBlock.block).filter (· ∉ s.blocks.map OpenBlock.block)

/-- What a statement gives a number to: the blocks that it opens, and the product of an
assignment. -/
def Statement.numbered (s : Session) : List Numbered :=
  let s' := (compile.on s).2
  let code := if startsAssignment (Tokens.peek s.bench.tokens) then s'.program.drop
    s.program.length else []
  (s.newBlocks s').map .block ++ (Code.tags code).filterMap Numbered.ofLabel?

def Call.numbered (c : CallSite) (s : Session) : List Numbered :=
  if ((compile s.scope c).on s.bench).2.nextId =
    s.bench.nextId then [] else [.call c s.bench.nextId]

/-- What takes a number when the calls that wait are put in their places. -/
def Session.numberedCalls : List CallSite → Session → List Numbered
  | [], _ => []
  | c :: calls, s => Call.numbered c s ++ numberedCalls calls (s.expand c calls)

/-! ### Ledgers -/

structure Ledger where
  session : Session
  /-- The call that ends the program, by its place among those that wait. -/
  lastCall : Option Nat := none
  /-- Everything that has taken a number, in this order. -/
  numbered : List Numbered := []

namespace Ledger

def new (settings : Settings) : Ledger := { session := .new settings }

def load (tokens : List Token) (l : Ledger) : Ledger :=
  { l with session := l.session.loaded tokens }

/-- The next statement is compiled. A call ends the program until a statement adds code. -/
def statement (l : Ledger) : Ledger :=
  let s := l.session
  let s' := (Statement.compile.on s).2
  { session := s'
    lastCall :=
      if Tokens.peek s.bench.tokens = "call" then some (s'.calls.length - 1)
      else if s.program.length < s'.program.length then none
      else l.lastCall
    numbered := l.numbered ++ Statement.numbered s }

def statements : Nat → Ledger → Ledger
  | 0, l => l
  | n + 1, l => if l.session.bench.tokens.isEmpty then l else statements n l.statement

/-- The compilation of the tokens is ended: the calls that wait are put in their places. -/
def close (l : Ledger) : Ledger :=
  let reported := (Session.reportOpenBlocks.on l.session).2
  { session := (Session.closing.on l.session).2
    numbered := l.numbered ++ reported.numberedCalls reported.calls }

def pass (l : Ledger) (tokens : List Token) : Ledger :=
  ((l.load tokens).statements tokens.length).close

def compiled (settings : Settings) (passes : List (List Token)) : Ledger :=
  passes.foldl pass (new settings)

structure Ordered (l : Ledger) : Prop where
  /-- The subroutines around the next statement are those whose blocks are open. -/
  enclosing : l.session.scope.enclosing.map ("_" ++ ·) = OpenBlock.subs l.session.blocks
  declared : ∀ name ∈ l.session.scope.enclosing, ∃ frame, (name, frame) ∈
    l.session.scope.subroutines
  /-- The slots of a frame are the rows of two lists that its parameters have built: every parameter
  has its initial code, and the first two are those of the bookkeeping. -/
  frames : ∀ entry ∈ l.session.scope.subroutines, ∃ params : List (String × Declarator),
    let c := Columns.declareAll entry.2 params
    entry.2.slots = List.zipWith Slot.mk c.params c.inits ∧ c.params.length = c.inits.length ∧
      c.params = Frame.returnSlot :: Frame.previousSlot :: params.map Prod.fst ∧
      [[], []] <+: c.inits
  lastCall : ∀ k, l.lastCall = some k ↔ ∃ c calls, l.session.calls = c :: calls ∧
    c.position = l.session.program.length ∧ k = calls.length
  /-- The calls that wait, the first one first, stand in the order of the program. -/
  positions : (l.session.calls.reverse.map CallSite.position).Pairwise (· ≤ ·)
  position_le : ∀ c ∈ l.session.calls, c.position ≤ l.session.program.length
  /-- Every number below the counter is taken once. -/
  numbers : l.numbered.map Numbered.id = List.range l.session.bench.nextId
  blocks : ∀ o ∈ l.session.blocks, .block o.block ∈ l.numbered
  labels : ∀ label ∈ Code.tags l.session.program, Numbered.Belongs l.numbered label

end Ledger

/-! ### The invariant of a session -/

def Frame.HasColumns (frame : Frame) : Prop :=
  ∃ params : List (String × Declarator), frame.columns = .declareAll frame params

lemma Frame.HasColumns.setType {frame : Frame} (h : frame.HasColumns) (param : String)
    (type : VarType) : HasColumns { frame with table := frame.table.setType param type } := by
  obtain ⟨params, hparams⟩ := h
  refine ⟨params, Eq.trans ?_ hparams⟩
  unfold SymbolTable.setType
  split <;> rfl

namespace Session

open Numbered OpenBlock

/-- What is in order in a session at any time, if `log` is what has taken a number so far. -/
structure Books (log : List Numbered) (s : Session) : Prop where
  fine : s.Fine
  enclosing : s.scope.enclosing.map ("_" ++ ·) = subs s.blocks
  framed : ∀ name ∈ s.scope.enclosing, (s.scope.frame? name).isSome
  frames : ∀ entry ∈ s.scope.subroutines, entry.2.HasColumns
  numbers : log.map Numbered.id = List.range s.bench.nextId
  blocks : ∀ o ∈ s.blocks, .block o.block ∈ log
  labels : s.Labelled (Belongs log)

section

variable {s s' : Session} {log : List Numbered}

lemma Books.id_lt (h : s.Books log) {o : OpenBlock} (ho : o ∈ s.blocks) :
    o.block.id < s.bench.nextId := by
  rw [← List.mem_range, ← h.numbers]
  exact List.mem_map_of_mem (f := Numbered.id) (h.blocks o ho)

lemma Books.on_bench (h : s.Books log) {b : Workbench} (hsane : b.Sane)
    (hscratch : s.bench.scratch.addresses ⊆ b.scratch.addresses)
    (hnext : b.nextId = s.bench.nextId) : Books log { s with bench := b } where
  fine := ⟨hsane, h.fine.placed⟩
  enclosing := h.enclosing
  framed := h.framed
  frames := h.frames
  numbers := h.numbers.trans (by rw [hnext])
  blocks := h.blocks
  labels := h.labels.on_bench hscratch

lemma Books.rested (h : s.Books log) : (rested s).Books log :=
  h.on_bench (fine_rested h.fine).sane (by simp) rfl

/-! ### What a statement takes -/

lemma newBlocks_of_subset (h : ∀ o ∈ s'.blocks, o ∈ s.blocks) : s.newBlocks s' = [] := by
  rw [newBlocks, List.filter_eq_nil_iff]
  intro block hblock
  obtain ⟨o, ho, rfl⟩ := List.mem_map.mp hblock
  simpa using ⟨o, h o ho, rfl⟩

lemma newBlocks_of_cons {o : OpenBlock} {blocks : List OpenBlock}
    (hblocks : s'.blocks = o :: blocks) (hold : ∀ x ∈ blocks, x ∈ s.blocks)
    (hid : ∀ x ∈ s.blocks, x.block.id < o.block.id) : s.newBlocks s' = [o.block] := by
  have hrest : s.newBlocks { s' with blocks } = [] := newBlocks_of_subset hold
  have hnew : o.block ∉ s.blocks.map OpenBlock.block := fun hmem => by
    obtain ⟨x, hx, heq⟩ := List.mem_map.mp hmem
    exact absurd (hid x hx) (by rw [heq]; exact Nat.lt_irrefl _)
  rw [newBlocks] at hrest ⊢
  rw [hblocks, List.map_cons, List.filter_cons, hrest]
  simp [hnew]

lemma on_compile_assignment (h : startsAssignment (Tokens.peek s.bench.tokens) = true) :
    Statement.compile.on s = assignment.on (Statement.rested s) := by
  rw [on_compile]
  split <;> simp_all [startsAssignment]

lemma numbered_assignment {code : Code} {b : Workbench}
    (hstart : startsAssignment (Tokens.peek s.bench.tokens) = true)
    (hon : (Statement.compile.on s).2 = { s with bench := b, program := s.program ++ code }) :
    Statement.numbered s = (Code.tags code).filterMap ofLabel? := by
  have hblocks : s.newBlocks { s with bench := b, program := s.program ++ code } = [] :=
    newBlocks_of_subset fun o ho => ho
  rw [Statement.numbered, hon, hblocks, if_pos hstart, List.drop_left]
  rfl

lemma on_compile_yields {code : Code} {b : Workbench}
    (hstart : startsAssignment (Tokens.peek s.bench.tokens) = true)
    (h : Attempt.Yields (Assignment.lower s.scope) (Statement.rested s).bench code b) :
    (Statement.compile.on s).2 = { s with bench := b, program := s.program ++ code } := by
  rw [on_compile_assignment hstart, on_assignment,
    show (Assignment.lower (Statement.rested s).scope).on (Statement.rested s).bench =
    (some code, b) from h]
  rfl

lemma takesNext_assignment (hs : s.Fine)
    (hstart : startsAssignment (Tokens.peek s.bench.tokens) = true) :
    TakesNext (Statement.numbered s) s.bench.nextId (Statement.compile.on s).2.bench.nextId := by
  rcases hlower : (Assignment.lower s.scope).on (Statement.rested s).bench with ⟨_ | code, b⟩
  · have hon : (Statement.compile.on s).2 = { s with bench := b, program := s.program ++ [] } := by
      rw [on_compile_assignment hstart, on_assignment, List.append_nil, show (Assignment.lower
        (Statement.rested s).scope).on (Statement.rested s).bench = (none, b) from hlower]
      rfl
    have hnext : b.nextId = s.bench.nextId := (Assignment.nextId_of_reject hlower :)
    rw [numbered_assignment hstart hon, hon]
    exact .inl ⟨rfl, hnext⟩
  · have hon := on_compile_yields hstart hlower
    rw [numbered_assignment hstart hon, hon]
    rcases Assignment.tags_of_lower (fine_rested hs).sane
      hlower with ⟨htags, hnext⟩ | ⟨htags, hnext⟩
    · rw [htags]
      exact .inl ⟨rfl, hnext⟩
    · rw [htags]
      exact .inr ⟨_, rfl, rfl, hnext⟩

lemma takesNext_moves (h : s.Books log)
    (hstart : startsAssignment (Tokens.peek s.bench.tokens) = false) :
    TakesNext (Statement.numbered s) s.bench.nextId (Statement.compile.on s).2.bench.nextId := by
  have hlisted : Statement.numbered s =
      (s.newBlocks (Statement.compile.on s).2).map Numbered.block := by
    rw [Statement.numbered, hstart]
    exact List.append_nil _
  have hkept : (∀ o ∈ (Statement.compile.on s).2.blocks, o ∈ s.blocks) →
      Statement.numbered s = [] :=
    fun hold => by rw [hlisted, newBlocks_of_subset hold]; rfl
  have hclosed : ∀ {o blocks}, s.blocks = o :: blocks → (Statement.compile.on s).2.blocks = blocks →
      Statement.numbered s = [] := fun hblocks hrest => hkept fun x hx => by
    rw [hblocks]
    exact List.mem_cons_of_mem _ (hrest ▸ hx)
  have hopened : ∀ {o blocks}, (Statement.compile.on s).2.blocks = o :: blocks →
      (∀ x ∈ blocks, x ∈ s.blocks) → o.block.id = s.bench.nextId →
      Statement.numbered s = [.block o.block] := fun hblocks hold hid => by
    rw [hlisted, newBlocks_of_cons hblocks hold fun x hx => hid ▸ h.id_lt hx]
    rfl
  cases moves_compile hstart with
  | stays stays =>
    have hsame : (Statement.compile.on s).2.blocks = s.blocks := stays.blocks
    exact .inl ⟨hkept fun o ho => hsame ▸ ho, stays.nextId⟩
  | opens opened =>
    exact .inr ⟨_, hopened opened.blocks (fun _ hx => hx) opened.id, opened.id, opened.nextId⟩
  | enters hblock hblocks _ hnext =>
    have hid := congrArg Block.id hblock
    exact .inr ⟨_, hopened hblocks (fun _ hx => hx) hid, hid, hnext⟩
  | closes _ hblocks stays => exact .inl ⟨hclosed hblocks stays.blocks, stays.nextId⟩
  | turns _ hblocks opened =>
    refine .inr ⟨_, hopened opened.blocks (fun x hx => ?_) opened.id, opened.id, opened.nextId⟩
    rw [show s.blocks = _ from hblocks]
    exact List.mem_cons_of_mem _ hx
  | leaves _ hblocks stays => exact .inl ⟨hclosed hblocks stays.blocks, stays.nextId⟩

lemma takesNext_statement (h : s.Books log) : TakesNext (Statement.numbered s) s.bench.nextId
    (Statement.compile.on s).2.bench.nextId := by
  rcases hstart : startsAssignment (Tokens.peek s.bench.tokens) with _ | _
  · exact takesNext_moves h hstart
  · exact takesNext_assignment h.fine hstart

/-! ### Subroutines -/

lemma enclosing_moves (h : s.scope.enclosing.map ("_" ++ ·) = subs s.blocks) (hm : Moves s s') :
    s'.scope.enclosing.map ("_" ++ ·) = subs s'.blocks := by
  cases hm with
  | stays stays => rw [stays.enclosing, stays.blocks, h]
  | opens opened => rw [opened.enclosing, opened.blocks, subs_cons_other opened.kind, h]
  | enters hblock hblocks henclosing =>
    rw [henclosing, hblocks, subs_cons_sub (by rw [hblock]), hblock, List.map_cons, h]
  | closes hkind hblocks stays =>
    rw [hblocks, subs_cons_other hkind] at h
    rw [stays.enclosing, stays.blocks, h]
  | turns hkind hblocks opened =>
    rw [hblocks, subs_cons_other hkind] at h
    rw [opened.enclosing, opened.blocks, subs_cons_other opened.kind, h]
  | leaves hkind hblocks stays =>
    rw [hblocks, subs_cons_sub hkind] at h
    rw [stays.enclosing, stays.blocks, List.map_tail, h, List.tail_cons]

lemma enclosing_statement (h : s.Books log) :
    (Statement.compile.on s).2.scope.enclosing.map ("_" ++ ·) =
    subs (Statement.compile.on s).2.blocks := by
  rcases hstart : startsAssignment (Tokens.peek s.bench.tokens) with _ | _
  · exact enclosing_moves h.rested.enclosing (moves_compile hstart)
  · rw [on_compile_assignment hstart, on_assignment]
    split <;> exact h.enclosing

lemma framed_effect (h : ∀ name ∈ s.scope.enclosing, (s.scope.frame? name).isSome)
    (he : Effect s s') : ∀ name ∈ s'.scope.enclosing, (s'.scope.frame? name).isSome := by
  cases he with
  | idle | declare | assign | openFaulty | openIf | openWhile | openDo | leave => exact h
  | close c =>
    show ∀ name ∈ c.inner.scope.enclosing, (c.inner.scope.frame? name).isSome
    generalize c.inner = inner, c.after = after
    cases after with
    | done | orElse | again => exact h
    | leave => exact fun name hname => h name (List.mem_of_mem_tail hname)
  | subroutine o =>
    intro name hname
    rw [Scope.frame?_within]
    split
    · rfl
    · rename_i hne
      exact h name ((List.mem_cons.mp hname).resolve_left hne)
  | call q =>
    intro name hname
    have hframe := h name (q.retypes.enclosing ▸ hname)
    rcases q.retypes.frames name with heq | ⟨first, param, type, -, hretyped⟩
    · exact heq ▸ hframe
    · exact hretyped ▸ rfl

lemma columns_effect (h : ∀ entry ∈ s.scope.subroutines, entry.2.HasColumns) (hs : s.Fine)
    (he : Effect s s') : ∀ entry ∈ s'.scope.subroutines, entry.2.HasColumns := by
  cases he with
  | idle | declare | assign | openFaulty | openIf | openWhile | openDo | leave => exact h
  | close c => exact (c.after.grows (c.fine_braced hs).sane).2 ▸ h
  | subroutine o =>
    intro entry hentry
    rcases Scope.mem_insertAssoc hentry with rfl | hentry
    · exact ⟨_, o.declared.columns⟩
    · exact h entry hentry
  | call q =>
    intro entry hentry
    rcases q.retypes.entries entry hentry with hentry | ⟨name, first, param, type, hfirst, heq⟩
    · exact h entry hentry
    · exact heq ▸ (h _ hfirst).setType param type

/-! ### Statements -/

/-- Every statement keeps the books in order. -/
theorem Books.statement (h : s.Books log) :
    (Statement.compile.on s).2.Books (log ++ Statement.numbered s) := by
  have hs := h.fine
  have he := effect_compile hs
  have hblocks : ∀ o ∈ (Statement.compile.on s).2.blocks, .block o.block ∈ log ++
      Statement.numbered s := by
    intro o ho
    by_cases hold : o.block ∈ s.blocks.map OpenBlock.block
    · obtain ⟨x, hx, heq⟩ := List.mem_map.mp hold
      exact List.mem_append_left _ (heq ▸ h.blocks x hx)
    · have hnew : o.block ∈ s.newBlocks (Statement.compile.on s).2 :=
        List.mem_filter.mpr ⟨List.mem_map_of_mem ho, by simpa using hold⟩
      exact List.mem_append_right _ (List.mem_append_left _ (List.mem_map_of_mem hnew))
  refine ⟨(keeps_compile s hs).1, enclosing_statement h, framed_effect h.rested.framed he,
    columns_effect h.rested.frames (fine_rested hs) he, (takesNext_statement h).range h.numbers,
    hblocks, ?_⟩
  have hold : (Statement.rested s).Labelled (Belongs (log ++ Statement.numbered s)) :=
    h.rested.labels.mono fun l hl => hl.append _
  refine hold.effect (fine_rested hs) he (fun code b hstart lower l hl => ?_)
    fun o ho l hl => .inr ⟨_, hblocks o ho, hl⟩
  replace hstart : startsAssignment (Tokens.peek s.bench.tokens) = true := hstart
  have hlisted := numbered_assignment hstart (on_compile_yields hstart lower)
  rcases Assignment.tags_of_lower (fine_rested hs).sane lower with ⟨htags, -⟩ | ⟨htags, -⟩
  · rw [htags] at hl
    simp at hl
  · rw [htags] at hlisted hl
    refine .inr ⟨.product s.bench.nextId, List.mem_append_right _ ?_, List.mem_singleton.mp hl⟩
    rw [hlisted]
    exact List.mem_singleton_self _

/-! ### The start and the end of a list of tokens -/

lemma books_new (settings : Settings) : (new settings).Books [] where
  fine := ⟨sane_new settings, trivial⟩
  enclosing := rfl
  framed := by simp [new]
  frames := by simp [new]
  numbers := rfl
  blocks := by simp [new]
  labels :=
    ⟨by simp [new, Code.Labelled], by simp [new], by simp [new], by simp [new, Scope.frame?]⟩

lemma Books.loaded (h : s.Books log) (tokens : List Token) : (s.loaded tokens).Books log where
  fine := ⟨h.fine.sane.congr rfl rfl, h.fine.placed.mono (by simp [Session.loaded])⟩
  enclosing := h.enclosing
  framed := h.framed
  frames := h.frames
  numbers := h.numbers
  blocks := h.blocks
  labels :=
    (h.labels.on_bench (b := { s.bench with tokens }) (List.Subset.refl _)).emit fun l hl =>
      .inl (by simpa [preloadCallStack, Instruction.copy] using hl)

lemma takesNext_call (c : CallSite) (s : Session) : TakesNext (Call.numbered c s) s.bench.nextId
    ((Call.compile s.scope c).on s.bench).2.nextId := by
  unfold Call.numbered
  rcases Call.nextId_compile s.scope c s.bench with hnext | hnext
  · rw [if_pos hnext]
    exact .inl ⟨rfl, hnext⟩
  · rw [if_neg (by omega)]
    exact .inr ⟨_, rfl, rfl, hnext⟩

lemma Books.expand (h : s.Books log) {c : CallSite} {calls : List CallSite}
    (hcalls : s.calls = c :: calls) : (s.expand c calls).Books (log ++ Call.numbered c s) where
  fine := fine_expand h.fine hcalls
  enclosing := h.enclosing
  framed := h.framed
  frames := h.frames
  numbers := (takesNext_call c s).range h.numbers
  blocks o ho := List.mem_append_left _ (h.blocks o ho)
  labels := by
    refine (h.labels.mono fun l hl => hl.append _).expand h.fine hcalls
      fun name frame id _ hlo hhi => ?_
    have hmoved : ((Call.compile s.scope c).on s.bench).2.nextId ≠ s.bench.nextId := by omega
    have hnext := (Call.nextId_compile s.scope c s.bench).resolve_left hmoved
    refine .inr ⟨.call c s.bench.nextId, List.mem_append_right _ ?_, frame.name, ?_⟩
    · rw [Call.numbered, if_neg hmoved]
      exact List.mem_singleton_self _
    · rw [show id = s.bench.nextId by omega]

lemma Books.compileCalls (h : s.Books log) :
    (compileCalls.on s).2.Books (log ++ s.numberedCalls s.calls) := by
  -- what has taken a number so far, together with what will do so
  obtain ⟨log', hbooks, hlog⟩ := compileCalls_induction (s := s)
    (P := fun r => ∃ log', r.Books log' ∧ log' ++ r.numberedCalls r.calls = log ++
    s.numberedCalls s.calls)
    (fun r c calls hcalls ⟨log', hbooks, hlog⟩ => by
      refine ⟨_, hbooks.expand hcalls, ?_⟩
      rw [← hlog, hcalls, numberedCalls, List.append_assoc]
      rfl) ⟨log, h, rfl⟩
  rw [calls_compileCalls, numberedCalls, List.append_nil] at hlog
  exact hlog ▸ hbooks

lemma Books.reported (h : s.Books log) : (reportOpenBlocks.on s).2.Books log := by
  have hnext := (still_reportOpenBlocks s).nextId
  obtain ⟨b, hon, hsane, hgrows⟩ := on_reportBlocks s.blocks h.fine.sane
  change (reportOpenBlocks.on s).2 = { s with bench := b } at hon
  rw [hon] at hnext ⊢
  exact h.on_bench hsane hgrows.scratch.subset hnext

lemma Books.declareCallStack (h : s.Books log) : (declareCallStack.on s).2.Books log :=
  h.on_bench (h.fine.sane.declareArray Workbench.callStackName_ne_scratchName _ _)
    (List.Subset.refl _) rfl

end

/-! ### The last call -/

/-- The last one of the calls that wait stands at the end of the program, and `k` is its place among
them. -/
def EndsInCall (s : Session) (k : Nat) : Prop :=
  ∃ c calls, s.calls = c :: calls ∧ c.position = s.program.length ∧ k = calls.length

section

variable {s s' : Session} {k : Nat}

lemma endsInCall_iff : s.EndsInCall k ↔
    ∃ ps, s.calls.map CallSite.position = s.program.length :: ps ∧ k = ps.length := by
  constructor
  · rintro ⟨c, calls, hcalls, hposition, rfl⟩
    exact ⟨calls.map CallSite.position, by rw [hcalls, List.map_cons, hposition], by simp⟩
  · rintro ⟨ps, hps, rfl⟩
    obtain ⟨c, calls, hcalls, hposition, rfl⟩ := List.map_eq_cons_iff.mp hps
    exact ⟨c, calls, hcalls, hposition, by simp⟩

lemma positions_tagLast (label : Label) (s : Session) :
    ((Build.tagLast label).on s).2.calls.map CallSite.position = s.calls.map CallSite.position ∧
      ((Build.tagLast label).on s).2.program.length = s.program.length := by
  obtain ⟨program, calls, hon, hlength, hpositions⟩ := Build.on_tagLast label s
  rw [hon]
  exact ⟨hpositions, hlength⟩

lemma positions_effect (he : Effect s s') (hne : Tokens.peek s.bench.tokens ≠ "call") :
    s'.calls.map CallSite.position = s.calls.map CallSite.position ∧
      s.program.length ≤ s'.program.length := by
  cases he with
  | idle | declare | openFaulty => exact ⟨rfl, Nat.le_refl _⟩
  | assign | openIf | openWhile | subroutine | leave => exact ⟨rfl, by simp⟩
  | openDo o =>
    obtain ⟨hpositions, hlength⟩ := positions_tagLast (.begin o.block) { s with bench := o.left }
    rw [o.tagged] at hpositions hlength
    exact ⟨hpositions, hlength.ge⟩
  | close c =>
    have hinner : c.inner.calls = s.calls ∧ s.program.length ≤ c.inner.program.length := by
      generalize c.inner = inner, c.after = after
      cases after with
      | done | orElse | again | leave => exact ⟨rfl, by simp⟩
    have hclosed : c.session.calls.map CallSite.position = c.inner.calls.map CallSite.position ∧
        c.session.program.length = c.inner.program.length := by
      rw [show c.session = closed c.block c.inner from c.tagged.symm, closed]
      split
      · exact ⟨rfl, rfl⟩
      · exact positions_tagLast _ _
    rw [hclosed.1, hclosed.2, hinner.1]
    exact ⟨rfl, hinner.2⟩
  | call q => exact absurd q.next hne

lemma endsInCall_call (hcall : Tokens.peek s.bench.tokens = "call") :
    (Statement.compile.on s).2.EndsInCall k ↔ k = s.calls.length := by
  obtain ⟨hprogram, hcalls⟩ := program_compile_call hcall
  constructor
  · rintro ⟨c, calls, hcons, -, rfl⟩
    rw [hcalls, List.cons.injEq] at hcons
    rw [hcons.2]
  · rintro rfl
    exact ⟨s.nextCall, s.calls, hcalls, by rw [hprogram]; rfl, rfl⟩

lemma endsInCall_congr (hpositions : s'.calls.map CallSite.position = s.calls.map CallSite.position)
    (hlength : s'.program.length = s.program.length) : s'.EndsInCall k ↔ s.EndsInCall k := by
  rw [endsInCall_iff, endsInCall_iff, hpositions, hlength]

lemma not_endsInCall (hs : s.Fine)
    (hpositions : s'.calls.map CallSite.position = s.calls.map CallSite.position)
    (hgrown : s.program.length < s'.program.length) : ¬ s'.EndsInCall k := by
  intro hends
  obtain ⟨ps, hps, -⟩ := endsInCall_iff.mp hends
  obtain ⟨c, calls, hcalls, hposition, -⟩ := List.map_eq_cons_iff.mp (hpositions.symm.trans hps)
  have hplaced := hs.placed
  rw [hcalls] at hplaced
  exact absurd hplaced.1 (by omega)

lemma PlacedBelow.pairwise {n : Nat} {calls : List CallSite} (h : PlacedBelow n calls) :
    (∀ c ∈ calls, c.position ≤ n) ∧ (calls.map CallSite.position).Pairwise (· ≥ ·) := by
  induction calls generalizing n with
  | nil => exact ⟨by simp, List.Pairwise.nil⟩
  | cons c calls ih =>
    obtain ⟨hle, hpairwise⟩ := ih h.2
    refine ⟨List.forall_mem_cons.mpr ⟨h.1, fun c' hc' => (hle c' hc').trans h.1⟩, ?_⟩
    rw [List.map_cons, List.pairwise_cons]
    refine ⟨fun p hp => ?_, hpairwise⟩
    obtain ⟨c', hc', rfl⟩ := List.mem_map.mp hp
    exact hle c' hc'

end
end Session

/-! ### Compilations -/

namespace Ledger

open Session

structure Kept (l : Ledger) : Prop where
  books : l.session.Books l.numbered
  lastCall : ∀ k, l.lastCall = some k ↔ l.session.EndsInCall k

variable {l : Ledger}

lemma Kept.ordered (h : l.Kept) : l.Ordered where
  enclosing := h.books.enclosing
  declared name hname := by
    obtain ⟨frame, hframe⟩ := Option.isSome_iff_exists.mp (h.books.framed name hname)
    exact ⟨frame, Scope.mem_of_frame? hframe⟩
  frames entry hentry := by
    obtain ⟨params, hparams⟩ := h.books.frames entry hentry
    exact ⟨params, by rw [← hparams, Frame.zipWith_columns], Columns.declareAll_spec entry.2 params⟩
  lastCall := h.lastCall
  positions := by
    rw [List.map_reverse, List.pairwise_reverse]
    exact (PlacedBelow.pairwise h.books.fine.placed).2
  position_le := (PlacedBelow.pairwise h.books.fine.placed).1
  numbers := h.books.numbers
  blocks := h.books.blocks
  labels := h.books.labels.program

lemma kept_new (settings : Settings) : (new settings).Kept := by
  refine ⟨books_new settings, fun k => iff_of_false (by simp [new]) ?_⟩
  rintro ⟨c, calls, hcalls, -⟩
  cases hcalls

lemma Kept.lastCall_eq_none (h : l.Kept) (hcalls : l.session.calls = []) : l.lastCall = none := by
  refine Option.eq_none_iff_forall_ne_some.mpr fun k hk => ?_
  obtain ⟨c, calls, hcons, -⟩ := (h.lastCall k).mp hk
  simp [hcalls] at hcons

lemma Kept.load (h : l.Kept) (hcalls : l.session.calls = []) (tokens : List Token) :
    (l.load tokens).Kept := by
  refine ⟨h.books.loaded tokens, fun k => iff_of_false ?_ ?_⟩
  · rw [show (l.load tokens).lastCall = none from h.lastCall_eq_none hcalls]
    simp
  · rintro ⟨c, calls, hcons, -⟩
    exact absurd (hcalls.symm.trans hcons) (by simp)

lemma Kept.statement (h : l.Kept) : l.statement.Kept := by
  refine ⟨h.books.statement, fun k => ?_⟩
  simp only [Ledger.statement]
  by_cases hcall : Tokens.peek l.session.bench.tokens = "call"
  · rw [if_pos hcall, endsInCall_call hcall, (program_compile_call hcall).2, Option.some.injEq,
      List.length_cons, Nat.add_sub_cancel, eq_comm]
  · obtain ⟨hpositions, hle⟩ := positions_effect (effect_compile h.books.fine) hcall
    rw [if_neg hcall]
    split
    · rename_i hgrown
      exact iff_of_false (by simp) (not_endsInCall h.books.fine hpositions hgrown)
    · rename_i hsame
      rw [h.lastCall k]
      exact (endsInCall_congr hpositions (Nat.le_antisymm (Nat.le_of_not_lt hsame) hle)).symm

lemma Kept.statements (h : l.Kept) (n : Nat) : (l.statements n).Kept := by
  induction n generalizing l with
  | zero => exact h
  | succ n ih =>
    rw [Ledger.statements]
    split
    · exact h
    · exact ih h.statement

lemma Kept.close (h : l.Kept) : l.close.Kept ∧ l.close.session.calls = [] := by
  have hcalls : l.close.session.calls = [] := calls_compileCalls _
  refine ⟨⟨h.books.reported.compileCalls.declareCallStack, fun k =>
    iff_of_false (by simp [Ledger.close]) ?_⟩, hcalls⟩
  rintro ⟨c, calls, hcons, -⟩
  exact absurd (hcalls.symm.trans hcons) (by simp)

lemma Kept.pass (h : l.Kept) (hcalls : l.session.calls = []) (tokens : List Token) :
    (l.pass tokens).Kept ∧ (l.pass tokens).session.calls = [] :=
  ((h.load hcalls tokens).statements tokens.length).close

lemma kept_compiled (settings : Settings) (passes : List (List Token)) :
    (compiled settings passes).Kept ∧ (compiled settings passes).session.calls = [] := by
  have hrun : ∀ (l : Ledger), l.Kept → l.session.calls = [] →
      (passes.foldl Ledger.pass l).Kept ∧ (passes.foldl Ledger.pass l).session.calls = [] := by
    induction passes with
    | nil => exact fun l h hcalls => ⟨h, hcalls⟩
    | cons tokens passes ih =>
      intro l h hcalls
      obtain ⟨h', hcalls'⟩ := h.pass hcalls tokens
      exact ih _ h' hcalls'
  exact hrun _ (kept_new settings) rfl

/-! ### The sessions of a ledger -/

lemma session_statements (n : Nat) (l : Ledger) :
    (l.statements n).session = ((Statement.compileAll n).on l.session).2 := by
  induction n generalizing l with
  | zero => rfl
  | succ n ih =>
    rw [statements, on_compileAll_succ]
    split
    · rfl
    · exact ih l.statement

lemma session_pass (l : Ledger) (tokens : List Token) :
    (l.pass tokens).session = ((compileTokens tokens).on l.session).2 := by
  rw [on_compileTokens, pass, close, session_statements]
  rfl

lemma session_compiled (settings : Settings) (passes : List (List Token)) :
    (compiled settings passes).session = ((passes.forM compileTokens).on (.new settings)).2 := by
  have hrun : ∀ l : Ledger, (passes.foldl pass l).session =
      ((passes.forM compileTokens).on l.session).2 := by
    induction passes with
    | nil => exact fun l => rfl
    | cons tokens passes ih =>
      intro l
      rw [List.foldl_cons, ih, session_pass]
      rfl
  exact hrun (new settings)

/-- Whatever the tokens are, the ledger is in order at the start, after every list of tokens, and
after every statement of another one. Its session is that of the compilation. -/
theorem ordered_between_statements (settings : Settings) (passes : List (List Token))
    (tokens : List Token) (n : Nat) :
    let before := compiled settings passes
    let now := (before.load tokens).statements n
    (before.session = ((passes.forM compileTokens).on (.new settings)).2 ∧ before.Ordered) ∧
      now.session = ((Statement.compileAll n).on (before.session.loaded tokens)).2 ∧
      now.Ordered := by
  obtain ⟨h, hcalls⟩ := kept_compiled settings passes
  exact ⟨⟨session_compiled settings passes, h.ordered⟩, session_statements n _,
    ((h.load hcalls tokens).statements n).ordered⟩

-- The call is the last thing in the program, and stands in `f`; the block of `f` and the product
-- have numbers.
example :
    let l := ((new {}).load ["my", "a", ";", "sub", "f", "(", ")", "\x7b", "a", "=",
    "a", "*", "a", ";",
      "call", "f", "(", ")", ";", "if", "(", "a", ")", "\x7b", "\x7d"]).statements 4
    l.lastCall = some 0 ∧ l.numbered.map Numbered.id = [0, 1] ∧
    l.session.scope.enclosing = ["f"] := by
  decide +kernel

end Ledger
end CogolToolchain
