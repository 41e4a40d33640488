import CogolToolchain.Proofs.Compile.Atomicity
import CogolToolchain.Proofs.Compile.Nesting

/-!
Which steps of a compilation take a number.

Blocks, products and calls are told apart by numbers, which all come from one counter. Other work
leaves the counter alone (`Work.Advances false`). So a statement takes a number exactly if it opens
a block (`Statement.moves_compile`) or is an assignment of a product (`Assignment.tags_of_lower`),
and a call that waited takes one at most (`Call.nextId_compile`).
-/

namespace CogolToolchain

open Work Attempt

/-! ### Attempts that take a number -/

namespace Attempt

def TakesOne {α : Type} (x : Attempt α) : Prop :=
  ∀ b, (x.on b).2.nextId = b.nextId ∨ (x.on b).2.nextId = b.nextId + 1

section

variable {α β : Type} {x : Attempt α} {f : α → Attempt β}

lemma takesOne_bind (h : Work.Advances false x.run) (hf : ∀ a, TakesOne (f a)) :
    TakesOne (x >>= f) := by
  intro b
  have hx : (x.on b).2.nextId = b.nextId := (h b).nextId rfl
  rw [on_bind]
  generalize x.on b = r at hx
  obtain ⟨_ | a, b'⟩ := r
  · exact .inl hx
  · have hnext := hf a b'
    rwa [hx] at hnext

lemma TakesOne.bind (h : TakesOne x) (hf : ∀ a, Careful false (f a)) : TakesOne (x >>= f) := by
  intro b
  have hx := h b
  rw [on_bind]
  generalize x.on b = r at hx
  obtain ⟨_ | a, b'⟩ := r
  · exact hx
  · have hnext : ((f a).on b').2.nextId = b'.nextId := ((hf a).advances b').nextId rfl
    dsimp only at hx ⊢
    rwa [hnext]

end
end Attempt

/-! ### Assignments -/

namespace Assignment

def Counts (b : Workbench) (code : Code) (b' : Workbench) : Prop :=
  b'.nextId = b.nextId + (Code.tags code).length

variable {b b' b'' : Workbench} {code address : Code}

lemma counts_of_tags (h : b'.nextId = b.nextId) (htags : Code.tags code = []) :
    Counts b code b' := by
  rw [Counts, h, htags]
  rfl

lemma Counts.after (h : Counts b' code b'') (hb : b.Proceeds b') {p : ScratchPool}
    (haddress : Code.IsAddressing p address) : Counts b (address ++ code) b'' := by
  have htags : Code.tags address = [] := List.flatMap_eq_nil_iff.mpr fun i hi => (haddress i hi).2.1
  rw [Counts, Code.tags_append, htags, List.nil_append, h, hb.nextId]

lemma tags_test (test : Test) (b : Workbench) : Code.tags (test.lower.on b).1.2 = [] := by
  have hdistance : ∀ x y, Code.tags ((Test.distance x y).on b).1.2 = [] := fun x y => by
    unfold Test.distance
    split
    · rfl
    · split <;> rfl
  cases test with
  | less x y =>
    rw [Test.lower]
    split <;> rfl
  | lessEq x y => rfl
  | equal x y =>
    show Code.tags (((Test.distance x y).on b).1.2 ++ _) = []
    rw [Code.tags_append, hdistance]
    rfl
  | differ x y => exact hdistance x y

lemma counts_condition (c : Condition) (source dest : Operand) :
    Counts b ((c.lower.on b).1.2 ++ ((c.lower.on b).1.1.move? source dest).toList)
      (c.lower.on b).2 := by
  refine counts_of_tags ((Condition.advances_lower c b).nextId rfl) ?_
  have hmove : ∀ branch : Branch, Code.tags (branch.move? source dest).toList = [] :=
    fun branch => by
    cases branch <;> rfl
  rw [Code.tags_append, hmove, List.append_nil]
  unfold Condition.lower
  split
  · rfl
  · exact tags_test _ b

lemma meets_counts_conditional (scope : Scope) (source dest : Backed) (b : Workbench) :
    Meets (conditional scope source dest) b (Counts b) := by
  refine (brings_reference scope .source b).bind_meets fun x b₁ h₁ hx => ?_
  refine (Attempt.brings_lift (brings_pop b₁)).bind_meets fun t b₂ h₂ _ => ?_
  refine (Condition.brings_readOperator t b₂).bind_meets fun op b₃ h₃ _ => ?_
  refine (brings_reference scope .source b₃).bind_meets fun y b₄ h₄ hy => ?_
  refine (brings_expect (by decide) b₄).bind_meets fun _ b₅ h₅ _ => ?_
  have h₁₅ := h₂.trans (h₃.trans (h₄.trans h₅))
  have haddress : Code.IsAddressing b₅.scratch (x.2 ++ y.2) :=
    (hx.code.mono h₁₅.pool).append (hy.code.mono h₅.pool)
  have hcounts := (counts_condition (b := b₅) { a := x.1, op := op, b := y.1 } source.toOperand
    dest.toOperand).after (h₁.trans h₁₅) haddress
  rw [← List.append_assoc] at hcounts
  exact hcounts

lemma counts_multiply (lhs rhs dest : Backed) (b : Workbench) :
    Counts b ((multiply lhs rhs dest).on b).1 ((multiply lhs rhs dest).on b).2 := by
  have hcounter := (brings_reuseScratchExcept lhs dest { b with nextId := b.nextId + 1 }).1
  exact ((brings_reuseScratchExcept rhs dest _).1.nextId.trans hcounter.nextId :)

lemma meets_counts_binary (scope : Scope) (lhs : Backed) (op : Token) (dest : Backed)
    (b : Workbench) : Meets (binary scope lhs op dest) b (Counts b) := by
  refine (brings_reference scope .source b).bind_meets fun x b₁ h₁ hx => ?_
  refine (Attempt.brings_lift (brings_checkBounds _ _ b₁)).bind_meets fun _ b₂ h₂ _ => ?_
  refine (brings_expect (by decide) b₂).bind_meets fun _ b₃ h₃ _ => ?_
  have h₁₃ := h₁.trans (h₂.trans h₃)
  split
  · exact (counts_multiply lhs x.1 dest b₃).after h₁₃ hx.code
  · split
    · exact (counts_of_tags (b := b₃) rfl rfl).after h₁₃ hx.code
    · exact meets_failHere rfl

lemma meets_counts_operation (scope : Scope) (lhs : Backed) (op : Token) (dest : Backed)
    (b : Workbench) : Meets (operation scope lhs op dest) b (Counts b) := by
  refine (Attempt.brings_lift (brings_checkBounds _ _ b)).bind_meets fun _ b₁ h₁ _ => ?_
  have hafter : ∀ code b', Counts b₁ code b' → Counts b code b' := fun code b' hcounts => by
    rwa [Counts, ← h₁.nextId]
  split
  · exact meets_pure (counts_of_tags h₁.nextId rfl)
  · split
    · exact (meets_counts_conditional scope lhs dest b₁).mono hafter
    · exact (meets_counts_binary scope lhs op dest b₁).mono hafter

lemma meets_counts_afterOperator (scope : Scope) (dest : Backed) (eq : Token)
    (haddress : Code.IsAddressing b.scratch address) :
    Meets (afterOperator scope dest address eq) b (Counts b) := by
  unfold afterOperator
  split
  · refine (brings_firstOperand scope b).bind_meets fun x b₁ h₁ hx => ?_
    refine (Attempt.brings_lift (brings_pop b₁)).bind_meets fun op b₂ h₂ _ => ?_
    refine (meets_counts_operation scope x.1 op dest b₂).map fun code b' hcounts => ?_
    exact hcounts.after (h₁.trans h₂) ((haddress.mono h₁.pool).append hx.code)
  · split
    · refine (brings_expect (by decide) b).bind_meets fun _ b₁ h₁ _ => meets_pure ?_
      exact (counts_of_tags (b := b₁) rfl rfl).after h₁ haddress
    · split
      · exact (meets_counts_operation scope _ _ dest b).map fun code b' hcounts =>
          hcounts.after (.refl b) haddress
      · exact meets_failStatement rfl

lemma meets_counts_lower (scope : Scope) (b : Workbench) : Meets (lower scope) b (Counts b) := by
  rw [lower_eq]
  refine (brings_reference scope .destination b).bind_meets fun x b₁ h₁ hx => ?_
  refine (Attempt.brings_lift (brings_checkBounds _ _ b₁)).bind_meets fun _ b₂ h₂ _ => ?_
  refine (Attempt.brings_lift (brings_pop b₂)).bind_meets fun eq b₃ h₃ _ => ?_
  have h₂₃ := h₂.trans h₃
  refine (meets_counts_afterOperator scope x.1 eq (hx.code.mono h₂₃.pool)).mono
    fun code b' hcounts => ?_
  rwa [Counts, ← (h₁.trans h₂₃).nextId]

lemma nextId_of_reject {scope : Scope} (h : (lower scope).on b = (none, b')) :
    b'.nextId = b.nextId := by
  have hmeets := meets_counts_lower scope b
  rw [Meets, h] at hmeets
  exact hmeets.nextId

lemma tags_of_lower {scope : Scope} (hb : b.Sane) (h : Yields (lower scope) b code b') :
    (Code.tags code = [] ∧ b'.nextId = b.nextId) ∨
      (Code.tags code = [.multiplyEnd b.nextId] ∧ b'.nextId = b.nextId + 1) := by
  have hcounts : Counts b code b' := by
    have hmeets := meets_counts_lower scope b
    rwa [Meets, show (lower scope).on b = (some code, b') from h] at hmeets
  obtain ⟨dest, address, b₁, middle, last, -, rfl, hmiddle, hlast⟩ := ending_of_lower hb h
  have htags : Code.tags (middle ++ last) = Code.tags last := by
    rw [Code.tags_append, hmiddle.tags, List.nil_append]
  rw [Counts, htags] at hcounts
  rw [htags]
  cases hlast with
  | nothing => exact .inl ⟨rfl, hcounts⟩
  | store _ hnone =>
    rw [Code.tags_cons, hnone] at hcounts ⊢
    exact .inl ⟨rfl, hcounts⟩
  | @product lhs rhs target counter addend id _ _ _ _ _ hlo hhi =>
    have hlabel : Code.tags (productCode lhs rhs target counter addend (.multiplyEnd id)) =
        [.multiplyEnd id] := rfl
    rw [hlabel] at hcounts ⊢
    obtain rfl : id = b.nextId := by
      rw [hcounts, List.length_singleton] at hhi
      omega
    exact .inr ⟨rfl, hcounts⟩

end Assignment

/-! ### Calls -/

namespace Call

variable (scope : Scope) (call : CallSite)

lemma takesOne_enter (frame : Frame) (pointer : Backed) (supplied : List Nat) :
    TakesOne (enter frame pointer supplied : Attempt Code) := fun _ => .inr rfl

lemma takesOne_lower : TakesOne (lower scope call) := by
  refine takesOne_bind careful_discard_pop.advances fun _ =>
    takesOne_bind (careful_destination scope call).advances fun dest? =>
    takesOne_bind (careful_callee scope).advances fun frame =>
    takesOne_bind (careful_lift (advances_framePointer call dest?)).advances fun pointer =>
    takesOne_bind (careful_lift (advances_makeFrame frame pointer.1)).advances fun make =>
    takesOne_bind (careful_expect _).advances fun _ =>
    takesOne_bind (careful_lift advances_get).advances fun b =>
    takesOne_bind (advances_arguments scope frame pointer.1 _ 2) fun args =>
    (takesOne_enter frame pointer.1 args.1).bind fun entry =>
      (careful_lift advances_pop).bind fun next => ?_
  split
  · exact (careful_fieldResult frame dest?).bind fun _ => careful_pure _
  · exact careful_pure _

lemma nextId_compile (b : Workbench) : ((compile scope call).on b).2.nextId = b.nextId ∨
    ((compile scope call).on b).2.nextId = b.nextId + 1 := by
  rw [on_compile]
  exact takesOne_lower (Call.scope call scope) call (bench call b)

end Call

/-! ### Statements -/

/-- The same blocks are open in both sessions, and no number is taken in between. -/
structure Session.Stays (s s' : Session) : Prop where
  blocks : s'.blocks = s.blocks
  enclosing : s'.scope.enclosing = s.scope.enclosing
  nextId : s'.bench.nextId = s.bench.nextId

lemma Session.Stays.trans {s s' s'' : Session} (h : s.Stays s') (h' : s'.Stays s'') : s.Stays s'' :=
  ⟨h'.blocks.trans h.blocks, h'.enclosing.trans h.enclosing, h'.nextId.trans h.nextId⟩

/-- The block `o` is opened in between, which is not that of a subroutine, and takes the next
number. -/
structure Session.Opened (o : OpenBlock) (s s' : Session) : Prop where
  kind : o.block.kind ≠ .sub
  id : o.block.id = s.bench.nextId
  blocks : s'.blocks = o :: s.blocks
  enclosing : s'.scope.enclosing = s.scope.enclosing
  nextId : s'.bench.nextId = s.bench.nextId + 1

lemma Session.Stays.opened {o : OpenBlock} {s s' s'' : Session} (h : s.Stays s')
    (h' : Session.Opened o s' s'') : Session.Opened o s s'' :=
  ⟨h'.kind, h'.id.trans h.nextId, h'.blocks.trans (by rw [h.blocks]),
    h'.enclosing.trans h.enclosing, h'.nextId.trans (by rw [h.nextId])⟩

lemma Session.Opened.stays {o : OpenBlock} {s s' s'' : Session} (h : Session.Opened o s s')
    (h' : s'.Stays s'') : Session.Opened o s s'' :=
  ⟨h.kind, h.id, h'.blocks.trans h.blocks, h'.enclosing.trans h.enclosing, h'.nextId.trans h.nextId⟩

lemma Scope.enclosing_modifyFrame (scope : Scope) (name : String) (f : Frame → Frame) :
    (scope.modifyFrame name f).enclosing = scope.enclosing := by
  unfold modifyFrame
  split <;> rfl

namespace Build

def Still {α : Type} (x : Build α) : Prop := ∀ s : Session, s.Stays (x.on s).2

/-- A step that takes no number and opens one block, one that satisfies `P`. -/
def Opens {α : Type} (P : Block → Prop) (x : Build α) : Prop :=
  ∀ s : Session, ∃ o : OpenBlock, P o.block ∧
  (x.on s).2.blocks = o :: s.blocks ∧ (x.on s).2.scope.enclosing = s.scope.enclosing ∧
  (x.on s).2.bench.nextId = s.bench.nextId

section

variable {α β : Type} {x : Build α} {f : α → Build β} {P : Block → Prop}

lemma Still.bind (h : Still x) (hf : ∀ a, Still (f a)) : Still (x >>= f) := fun s =>
  (h s).trans (hf (x.on s).1 _)

lemma Still.discard (h : Still x) : Still (discard x) := h

lemma still_pure (a : α) : Still (pure a) := fun _ => ⟨rfl, rfl, rfl⟩

lemma still_get : Still get := fun _ => ⟨rfl, rfl, rfl⟩

lemma still_work {w : Work α} (h : Work.Advances false w) : Still (work w) := fun s =>
  ⟨rfl, rfl, (h s.bench).nextId rfl⟩

lemma still_attempt {y : Attempt α} (h : Careful false y) : Still (attempt y) :=
  still_work h.advances

lemma still_emit (code : Code) : Still (emit code) := fun _ => ⟨rfl, rfl, rfl⟩

lemma still_tagLast (label : Label) : Still (tagLast label) := fun s => by
  obtain ⟨program, calls, hon, -⟩ := on_tagLast label s
  rw [hon]
  exact ⟨rfl, rfl, rfl⟩

lemma still_modifyFrame (name : String) (g : Frame → Frame) :
    Still (modify fun s => { s with scope := s.scope.modifyFrame name g }) := fun s =>
  ⟨rfl, s.scope.enclosing_modifyFrame name g, rfl⟩

lemma still_blockSuffix : Still blockSuffix := fun s => by
  rw [on_blockSuffix]
  exact ⟨rfl, rfl, rfl⟩

lemma opens_openBlock {block : Block} (h : P block) (trailer : Code) :
    Opens P (openBlock block trailer) :=
  fun _ => ⟨⟨block, trailer⟩, h, rfl, rfl, rfl⟩

lemma Still.bind_opens (h : Still x) (hf : ∀ a, Opens P (f a)) : Opens P (x >>= f) := by
  intro s
  have hx := h s
  obtain ⟨o, ho, hblocks, henclosing, hnext⟩ := hf (x.on s).1 (x.on s).2
  exact ⟨o, ho, hblocks.trans (by rw [hx.blocks]), henclosing.trans hx.enclosing,
    hnext.trans hx.nextId⟩

end
end Build

namespace Statement

open Build

/-- How a statement changes the open blocks, the subroutines around it and the counter. -/
inductive Moves (s s' : Session) : Prop
  | stays (stays : s.Stays s')
  | opens {o : OpenBlock} (opened : Session.Opened o s s')
  | enters {o : OpenBlock} {name : String}
      (hblock : o.block = { kind := .sub, id := s.bench.nextId, suffix := "_" ++ name })
      (hblocks : s'.blocks = o :: s.blocks)
      (henclosing : s'.scope.enclosing = name :: s.scope.enclosing)
      (hnext : s'.bench.nextId = s.bench.nextId + 1)
  | closes {o : OpenBlock} {blocks : List OpenBlock} (hkind : o.block.kind ≠ .sub)
      (hblocks : s.blocks = o :: blocks) (stays : Session.Stays { s with blocks } s')
  /-- One block is closed, and another one is opened. -/
  | turns {o o' : OpenBlock} {blocks : List OpenBlock} (hkind : o.block.kind ≠ .sub)
      (hblocks : s.blocks = o :: blocks) (opened : Session.Opened o' { s with blocks } s')
  | leaves {o : OpenBlock} {blocks : List OpenBlock} (hkind : o.block.kind = .sub)
      (hblocks : s.blocks = o :: blocks) (stays : Session.Stays
        { s with blocks, scope := { s.scope with enclosing := s.scope.enclosing.tail } } s')

lemma still_discard_pop : Still (discard (work Work.pop)) := (still_work advances_pop).discard

lemma still_declaration : Still declaration := by
  refine still_discard_pop.bind fun _ => (still_work advances_pop).bind fun name =>
    still_get.bind fun s => ?_
  split
  · exact still_work (advances_reportStatement _)
  · split
    · exact still_work (advances_reportStatement _)
    · refine (still_attempt (Declarator.careful_read s.scope name _)).bind fun d => ?_
      split
      · rename_i d
        intro s
        rw [on_declareGlobal]
        exact ⟨rfl, rfl, rfl⟩
      · exact still_pure _

lemma still_returnStatement : Still returnStatement := by
  refine still_discard_pop.bind fun _ => still_get.bind fun s => ?_
  dsimp only
  split
  · exact still_work (advances_reportStatement _)
  · refine (still_work (advances_eat ";")).bind fun eaten => ?_
    split
    · exact still_emit _
    · exact still_work (advances_reportStatement _)

lemma still_closeDo (block : Block) : Still (closeDo block) := by
  refine still_get.bind fun s => (still_attempt (careful_doCondition s.scope)).bind fun r => ?_
  split
  · exact still_pure _
  · exact (still_work (Condition.advances_lower _)).bind fun _ => still_emit _

lemma opens_openWhile {P : Block → Prop} {block : Block} (h : P block)
    (c : Condition) (code : Code) : Opens P (openWhile block c code) :=
  (still_work (Condition.advances_lower c)).bind_opens fun _ => (still_emit _).bind_opens fun _ =>
    opens_openBlock h _

lemma opens_openIf {P : Block → Prop} {block : Block} (h : P block) (c : Condition) (code : Code) :
    Opens P (openIf block c code) :=
  (still_work (Condition.advances_lower _)).bind_opens fun _ => (still_emit _).bind_opens fun _ =>
    opens_openBlock h _

lemma opened_of_opens {α : Type} {s : Session} {ts : List Token} {x : Build α}
    (h : Opens (fun block => block.id = s.bench.nextId ∧ block.kind ≠ .sub) x) :
    ∃ o, Session.Opened o s
      (x.on { s with bench := { s.bench with tokens := ts, nextId := s.bench.nextId + 1 } }).2 := by
  obtain ⟨o, ⟨hid, hkind⟩, hblocks, henclosing, hnext⟩ :=
    h { s with bench := { s.bench with tokens := ts, nextId := s.bench.nextId + 1 } }
  exact ⟨o, hkind, hid, hblocks, henclosing, hnext⟩

lemma opened_blockStart (s : Session) : ∃ o, s.Opened o (blockStart.on s).2 := by
  rw [blockStart, Build.on_bind, on_work, on_pop, Build.on_bind, on_work, on_takeId]
  refine opened_of_opens (still_get.bind_opens fun s' => ?_)
  refine (still_attempt (Condition.careful_read s'.scope)).bind_opens fun condition? =>
    still_blockSuffix.bind_opens fun suffix => ?_
  dsimp only
  split
  · exact opens_openBlock ⟨rfl, by dsimp only; split <;> simp⟩ _
  · split
    · exact opens_openWhile ⟨rfl, by simp⟩ _ _
    · exact opens_openIf ⟨rfl, by simp⟩ _ _

lemma opened_doStart (s : Session) : ∃ o, s.Opened o (doStart.on s).2 := by
  rw [doStart, Build.on_bind, on_discard, on_work, on_pop, Build.on_bind, on_work, on_takeId]
  exact opened_of_opens (still_blockSuffix.bind_opens fun suffix =>
    (still_tagLast _).bind_opens fun _ =>
    opens_openBlock ⟨rfl, by simp⟩ _)

lemma openElse_cases (s : Session) :
    s.Stays (openElse.on s).2 ∨ ∃ o, s.Opened o (openElse.on s).2 := by
  rw [openElse, Build.on_bind, on_work, on_eat]
  rcases Tokens.eat? "else" s.bench.tokens with _ | rest
  · exact .inl ⟨rfl, rfl, rfl⟩
  · right
    dsimp only
    rw [if_pos rfl, Build.on_bind, on_work, on_takeId]
    exact opened_of_opens (still_blockSuffix.bind_opens fun suffix =>
      (still_emit _).bind_opens fun _ =>
      opens_openBlock ⟨rfl, by simp⟩ _)

lemma afterBrace_cases (block : Block) (s : Session) :
    (block.kind ≠ .sub ∧ (s.Stays ((afterBrace block).on s).2 ∨
      ∃ o, s.Opened o ((afterBrace block).on s).2)) ∨
    (block.kind = .sub ∧ Session.Stays
      { s with scope := { s.scope with enclosing := s.scope.enclosing.tail } }
      ((afterBrace block).on s).2) := by
  unfold afterBrace
  split
  · exact .inl ⟨by simp [*], openElse_cases s⟩
  · exact .inl ⟨by simp [*], .inl (still_closeDo block s)⟩
  · exact .inr ⟨‹_›, rfl, rfl, rfl⟩
  · exact .inl ⟨by simp [*], .inl (still_pure () s)⟩
  · exact .inl ⟨by simp [*], .inl (still_pure () s)⟩

lemma still_tagEnd (block : Block) :
    Still (if block.kind ≠ .whileLoop then tagLast (.finish block) else pure ()) := by
  split
  · exact still_tagLast _
  · exact still_pure _

lemma moves_blockEnd (s : Session) : Moves s (blockEnd.on s).2 := by
  rw [blockEnd, Build.on_bind, on_discard, on_work, on_pop, Build.on_bind, Build.on_get]
  dsimp only
  split
  · exact .stays ⟨rfl, rfl, rfl⟩
  · rename_i block trailer blocks hblocks
    rw [Build.on_bind, Build.on_modify, Build.on_bind, on_emit, Build.on_bind]
    -- the session without the block, when its trailer is in the program
    have hpopped : Session.Stays { s with blocks } { s with
        bench := { s.bench with tokens := Tokens.rest s.bench.tokens }
        blocks := blocks, program := s.program ++ trailer } := ⟨rfl, rfl, rfl⟩
    have htagged := still_tagEnd block
    rcases afterBrace_cases block { s with
        bench := { s.bench with tokens := Tokens.rest s.bench.tokens }
        blocks := blocks, program := s.program ++ trailer } with
      ⟨hkind, hstays | ⟨o, opened⟩⟩ | ⟨hkind, hstays⟩
    · exact .closes hkind hblocks (hpopped.trans (hstays.trans (htagged _)))
    · exact .turns hkind hblocks (hpopped.opened (opened.stays (htagged _)))
    · refine .leaves hkind hblocks (Session.Stays.trans ?_ (hstays.trans (htagged _)))
      exact ⟨rfl, rfl, rfl⟩

lemma still_param (sub : Token) : Still (param sub) := by
  refine (still_work advances_pop).bind fun name => still_get.bind fun s => ?_
  dsimp only
  split
  · exact still_work (advances_reportThrough _ _)
  · split
    · exact still_work (advances_reportThrough _ _)
    · refine (still_attempt (Declarator.careful_read s.scope name _)).bind fun d => ?_
      split
      · exact still_modifyFrame _ _
      · exact still_pure _

lemma still_params (sub : Token) (rounds : Nat) : Still (params sub rounds) := by
  induction rounds with
  | zero => exact still_pure _
  | succ rounds ih =>
    refine still_get.bind fun s => ?_
    dsimp only
    split
    · exact still_pure _
    · exact (still_param sub).bind fun _ => ih

lemma still_declareFramePointer (name : Token) : Still (declareFramePointer name) := by
  refine still_get.bind fun s => ?_
  split
  · exact still_work (advances_report _)
  · split
    · exact still_work (advances_report _)
    · split
      · exact still_work (advances_report _)
      · exact fun _ => ⟨rfl, rfl, rfl⟩

lemma moves_of_enters {α : Type} {s : Session} (s₁ : Session) {scope : Scope}
    {name : String} {x : Build α} (h₁ : s.Stays s₁)
    (hscope : scope.enclosing = name :: s₁.scope.enclosing)
    (h : Opens (· = { kind := .sub, id := s.bench.nextId, suffix := "_" ++ name }) x) : Moves s
      (x.on { s₁ with bench := { s₁.bench with nextId := s.bench.nextId + 1 }, scope }).2 := by
  obtain ⟨o, hblock, hblocks, henclosing, hnext⟩ :=
    h { s₁ with bench := { s₁.bench with nextId := s.bench.nextId + 1 }, scope }
  refine .enters hblock (hblocks.trans (by rw [h₁.blocks])) ?_ hnext
  rw [henclosing, hscope, h₁.enclosing]

lemma moves_subroutine (s : Session) : Moves s (subroutine.on s).2 := by
  rw [subroutine, Build.on_bind, on_discard, on_work, on_pop, Build.on_bind, on_work, on_pop]
  dsimp only
  generalize Tokens.peek (Tokens.rest s.bench.tokens) = name
  have hpointer := still_declareFramePointer name { s with
    bench := { s.bench with tokens := Tokens.rest (Tokens.rest s.bench.tokens) } }
  rw [Build.on_bind]
  generalize (declareFramePointer name).on _ = r at hpointer
  obtain ⟨_, s₁⟩ := r
  replace hpointer : s.Stays s₁ := ⟨hpointer.blocks, hpointer.enclosing, hpointer.nextId⟩
  rw [Build.on_bind, on_work, on_takeId, Build.on_bind, Build.on_modify, hpointer.nextId]
  -- from the opening brace on
  have hrest : ∀ block : Block, Opens (· = block) (do
      discard (work (Work.eat "\x7b"))
      emit [.jump (.label (.finish block) 1), Instruction.nop.tagged (.begin block)]
      let code ← work (epilogue name)
      modify fun s => { s with
        scope := s.scope.modifyFrame name fun f => { f with epilogue := code } }
      openBlock block code) := fun block =>
    (still_work (advances_eat "\x7b")).discard.bind_opens fun _ =>
      (still_emit _).bind_opens fun _ =>
      (still_work (advances_epilogue name)).bind_opens fun _ =>
        (still_modifyFrame _ _).bind_opens fun _ =>
        opens_openBlock (P := (· = block)) rfl _
  refine moves_of_enters s₁ hpointer rfl ?_
  refine (still_attempt (careful_expect _)).bind_opens fun opened => ?_
  split
  · exact (still_work (advances_eat ")")).discard.bind_opens fun _ => still_get.bind_opens fun s =>
      (still_params name _).bind_opens fun _ => hrest _
  · exact hrest _

lemma still_reportOpenBlocks : Still Session.reportOpenBlocks := by
  refine still_get.bind fun s => ?_
  induction s.blocks with
  | nil => exact still_pure _
  | cons o blocks ih => exact (still_work (advances_report _)).bind fun _ => ih

/-- A statement other than an assignment takes a number exactly if it opens a block. -/
theorem moves_compile {s : Session} (h : startsAssignment (Tokens.peek s.bench.tokens) = false) :
    Moves (rested s) (Statement.compile.on s).2 := by
  rw [on_compile]
  split
  · exact .stays ⟨rfl, rfl, rfl⟩
  · rename_i hnext
    obtain ⟨q, hq⟩ := exists_queues (s := rested s) hnext
    rw [hq]
    exact .stays ⟨rfl, q.retypes.enclosing, rfl⟩
  · exact .stays (still_declaration _)
  · exact .opens (opened_blockStart _).choose_spec
  · exact .opens (opened_blockStart _).choose_spec
  · exact .opens (opened_doStart _).choose_spec
  · exact moves_blockEnd _
  · exact moves_subroutine _
  · exact .stays (still_returnStatement _)
  · rename_i h₁ h₂ h₃ h₄ h₅ h₆ h₇ h₈ h₉
    have hstarts : startsAssignment (Tokens.peek s.bench.tokens) = true := by
      simpa [startsAssignment] using ⟨h₁, h₂, h₃, h₄, h₅, h₆, h₇, h₈, h₉⟩
    simp [hstarts] at h

end Statement
end CogolToolchain
