import CogolToolchain.Proofs.Compile.Expansion

/-!
Where the code of each statement stands in the program.

A statement other than a call adds code to the end of the program, and some statements put a label
on what ends the program then. The code of a call is put in its place only when all statements are
done. `Session.laid_out_in_order` says that the program is nevertheless what one gets by laying out
the code of all statements, calls included, one after the other, with every label on the last
instruction that is laid out when the label is given.
-/

namespace CogolToolchain

open Work Attempt

/-! ### Steps that add code -/

namespace Build

/-- A step that adds code to the end of the program and leaves the calls alone. -/
def Lays {α : Type} (x : Build α) : Prop :=
  ∀ s, ∃ code, (x.on s).2.program = s.program ++ code ∧ (x.on s).2.calls = s.calls

section

variable {α β : Type}

lemma Lays.bind {x : Build α} {f : α → Build β} (h : Lays x) (hf : ∀ a, Lays (f a)) :
    Lays (x >>= f) := by
  intro s
  obtain ⟨code, hprogram, hcalls⟩ := h s
  obtain ⟨code', hprogram', hcalls'⟩ := hf (x.on s).1 (x.on s).2
  refine ⟨code ++ code', ?_, hcalls'.trans hcalls⟩
  rw [on_bind, hprogram', hprogram, List.append_assoc]

lemma lays_work (w : Work α) : Lays (work w) := fun _ => ⟨[], by simp⟩

lemma lays_attempt (x : Attempt α) : Lays (attempt x) := lays_work x.run

lemma Lays.discard {x : Build α} (h : Lays x) : Lays (discard x) := h

lemma lays_pure (a : α) : Lays (pure a) := fun _ => ⟨[], by simp⟩

lemma lays_get : Lays get := fun _ => ⟨[], by simp⟩

lemma lays_emit (code : Code) : Lays (emit code) := fun _ => ⟨code, rfl, rfl⟩

lemma lays_modify {f : Session → Session} (hprogram : ∀ s, (f s).program = s.program)
    (hcalls : ∀ s, (f s).calls = s.calls) : Lays (modify f) := fun s =>
  ⟨[], by rw [on_modify, hprogram, List.append_nil], hcalls s⟩

lemma lays_openBlock (block : Block) (trailer : Code) : Lays (openBlock block trailer) :=
  lays_modify (fun _ => rfl) fun _ => rfl

lemma lays_modify_scope (f : Session → Scope) : Lays (modify fun s => { s with scope := f s }) :=
  lays_modify (fun _ => rfl) fun _ => rfl

lemma lays_blockSuffix : Lays blockSuffix := lays_work _

end

lemma on_tagLast_congr (label : Label) {s s' : Session} (hprogram : s'.program = s.program)
    (hcalls : s'.calls = s.calls) :
    ((tagLast label).on s').2.program = ((tagLast label).on s).2.program ∧
      ((tagLast label).on s').2.calls = ((tagLast label).on s).2.calls := by
  simp only [tagLast, on_modify, hprogram, hcalls]
  split
  · split <;> simp
  · simp

end Build

namespace Statement

open Build

lemma lays_declaration : Lays declaration := by
  refine (lays_work _).discard.bind fun _ => (lays_work _).bind fun name =>
    lays_get.bind fun s => ?_
  split
  · exact lays_work _
  · split
    · exact lays_work _
    · refine (lays_attempt _).bind fun d => ?_
      split
      · rename_i d
        cases d <;> exact lays_modify (fun _ => rfl) fun _ => rfl
      · exact lays_pure _

lemma lays_assignment : Lays assignment := by
  refine lays_get.bind fun s => (lays_attempt _).bind fun code => ?_
  split
  · exact lays_emit _
  · exact lays_pure _

lemma lays_blockStart : Lays blockStart := by
  refine (lays_work _).bind fun keyword => (lays_work _).bind fun id => lays_get.bind fun s => ?_
  refine (lays_attempt _).bind fun r => lays_blockSuffix.bind fun suffix => ?_
  dsimp only
  split
  · exact lays_openBlock _ _
  · split
    · exact (lays_work _).bind fun _ => (lays_emit _).bind fun _ => lays_openBlock _ _
    · exact (lays_work _).bind fun _ => (lays_emit _).bind fun _ => lays_openBlock _ _

lemma lays_afterBrace (block : Block) : Lays (afterBrace block) := by
  unfold afterBrace
  split
  · refine (lays_work _).bind fun eaten => ?_
    split
    · exact (lays_work _).bind fun _ => lays_blockSuffix.bind fun _ =>
        (lays_emit _).bind fun _ => lays_openBlock _ _
    · exact lays_pure _
  · refine lays_get.bind fun s => (lays_attempt _).bind fun r => ?_
    split
    · exact lays_pure _
    · exact (lays_work _).bind fun _ => lays_emit _
  · exact lays_modify_scope _
  · exact lays_pure _
  · exact lays_pure _

lemma lays_params (sub : Token) (rounds : Nat) : Lays (params sub rounds) := by
  induction rounds with
  | zero => exact lays_pure _
  | succ rounds ih =>
    refine lays_get.bind fun s => ?_
    dsimp only
    split
    · exact lays_pure _
    · refine Lays.bind ?_ fun _ => ih
      refine (lays_work _).bind fun name => lays_get.bind fun s => ?_
      dsimp only
      split
      · exact lays_work _
      · split
        · exact lays_work _
        · refine (lays_attempt _).bind fun d => ?_
          split
          · exact lays_modify_scope _
          · exact lays_pure _

lemma lays_declareFramePointer (name : Token) : Lays (declareFramePointer name) := by
  refine lays_get.bind fun s => ?_
  split
  · exact lays_work _
  · split
    · exact lays_work _
    · split <;> exact lays_work _

lemma lays_subroutine : Lays subroutine := by
  refine (lays_work _).discard.bind fun _ => (lays_work _).bind fun name =>
    (lays_declareFramePointer name).bind fun _ => (lays_work _).bind fun id =>
    (lays_modify_scope _).bind fun _ => (lays_attempt _).bind fun _ => ?_
  have hrest : ∀ block : Block, Lays (do
      discard (work (Work.eat "\x7b"))
      emit [.jump (.label (.finish block) 1), Instruction.nop.tagged (.begin block)]
      let code ← work (epilogue name)
      modify fun s =>
        { s with scope := s.scope.modifyFrame name fun f => { f with epilogue := code } }
      openBlock block code) := fun block =>
    (lays_work _).discard.bind fun _ => (lays_emit _).bind fun _ => (lays_work _).bind fun _ =>
      (lays_modify_scope _).bind fun _ => lays_openBlock _ _
  dsimp only
  split
  · exact (lays_work _).discard.bind fun _ => lays_get.bind fun s =>
      (lays_params name _).bind fun _ => hrest _
  · exact hrest _

lemma lays_returnStatement : Lays returnStatement := by
  refine (lays_work _).discard.bind fun _ => lays_get.bind fun s => ?_
  dsimp only
  split
  · exact lays_work _
  · refine (lays_work _).bind fun eaten => ?_
    split
    · exact lays_emit _
    · exact lays_work _

end Statement

/-! ### What a statement adds -/

/-- The session with more code at the end of the program, and then labels on what ends it. -/
def Session.appended (s : Session) (code : Code) (labels : List Label) : Session :=
  ((labels.forM Build.tagLast).on { s with program := s.program ++ code }).2

lemma Session.appended_congr {s s' : Session} (hprogram : s'.program = s.program)
    (hcalls : s'.calls = s.calls) (code : Code) (labels : List Label) :
    (s'.appended code labels).program = (s.appended code labels).program ∧
      (s'.appended code labels).calls = (s.appended code labels).calls := by
  have hlabels : ∀ s s' : Session, s'.program = s.program → s'.calls = s.calls →
      ((labels.forM Build.tagLast).on s').2.program = ((labels.forM Build.tagLast).on s).2.program ∧
      ((labels.forM Build.tagLast).on s').2.calls = ((labels.forM Build.tagLast).on s).2.calls := by
    induction labels with
    | nil => exact fun s s' hp hc => ⟨hp, hc⟩
    | cons label labels ih =>
      intro s s' hp hc
      obtain ⟨hp', hc'⟩ := Build.on_tagLast_congr label hp hc
      exact ih _ _ hp' hc'
  exact hlabels _ _ (by simp [hprogram]) hcalls

namespace Statement

open Build

/-- The label of the instruction before the body of a `do` block that starts here. -/
def doLabel (s : Session) : Label := .begin
  { kind := .doWhile
    id := s.bench.nextId
    suffix := String.join
      (((Tokens.rest s.bench.tokens).takeWhile (· != "\x7b")).map ("_" ++ ·)) }

/-- The label that a closing brace puts on what ends the program, if any: a `while` block has its
end marked already. -/
def endLabel : List OpenBlock → List Label
  | [] => []
  | b :: _ => if b.block.kind = .whileLoop then [] else [.finish b.block]

def given (s : Session) : List Label :=
  if Tokens.peek s.bench.tokens = "do" then [doLabel s]
  else if Tokens.peek s.bench.tokens = "\x7d" then endLabel s.blocks
  else []

lemma program_doStart (s : Session) :
    (doStart.on s).2.program = (s.appended [] [doLabel s]).program ∧
      (doStart.on s).2.calls = (s.appended [] [doLabel s]).calls := by
  simp only [doStart, Build.on_bind, on_discard, on_work, on_pop, on_takeId, on_blockSuffix,
    on_openBlock]
  exact on_tagLast_congr (doLabel s) (by simp) rfl

lemma program_blockEnd (s : Session) : ∃ code,
    (blockEnd.on s).2.program = (s.appended code (endLabel s.blocks)).program ∧
      (blockEnd.on s).2.calls = (s.appended code (endLabel s.blocks)).calls := by
  simp only [blockEnd, Build.on_bind, on_discard, on_work, on_pop, Build.on_get]
  split
  · rename_i hblocks
    exact ⟨[], by simp [hblocks, endLabel, Session.appended]⟩
  · rename_i block trailer blocks hblocks
    simp only [Build.on_bind, Build.on_modify, on_emit]
    obtain ⟨code, hprogram, hcalls⟩ := lays_afterBrace block { s with
      bench := { s.bench with tokens := Tokens.rest s.bench.tokens }
      blocks, program := s.program ++ trailer }
    refine ⟨trailer ++ code, ?_⟩
    by_cases hkind : block.kind = .whileLoop
    · simp [hblocks, endLabel, hkind, Session.appended, hprogram, hcalls]
    · rw [hblocks, endLabel, if_neg hkind, if_pos hkind]
      exact on_tagLast_congr (.finish block) (by rw [hprogram, List.append_assoc]) hcalls

lemma appended_rested (s : Session) (code : Code) (labels : List Label) :
    ((rested s).appended code labels).program = (s.appended code labels).program ∧
      ((rested s).appended code labels).calls = (s.appended code labels).calls := by
  apply Session.appended_congr <;> rfl

/-- A statement other than a call adds code, and then puts its labels on what ends the program. -/
theorem program_compile {s : Session} (hnext : Tokens.peek s.bench.tokens ≠ "call") : ∃ code,
    (Statement.compile.on s).2.program = (s.appended code (given s)).program ∧
      (Statement.compile.on s).2.calls = (s.appended code (given s)).calls := by
  have hlays : ∀ x : Build Unit, Lays x → ∃ code,
      (x.on (rested s)).2.program = (s.appended code []).program ∧
        (x.on (rested s)).2.calls = (s.appended code []).calls := fun x hx => hx (rested s)
  have hdo : Tokens.peek s.bench.tokens = "do" → given s = [doLabel s] := fun h => if_pos h
  have hbrace : Tokens.peek s.bench.tokens = "\x7d" → given s = endLabel s.blocks := fun h => by
    simp [given, h]
  have hother : Tokens.peek s.bench.tokens ≠ "do" → Tokens.peek s.bench.tokens ≠ "\x7d" →
      given s = [] := fun h h' => by simp [given, h, h']
  rw [on_compile]
  split
  · rw [hother (by simp [*]) (by simp [*])]
    exact hlays _ (lays_work _).discard
  · exact absurd ‹_› hnext
  · rw [hother (by simp [*]) (by simp [*])]
    exact hlays _ lays_declaration
  · rw [hother (by simp [*]) (by simp [*])]
    exact hlays _ lays_blockStart
  · rw [hother (by simp [*]) (by simp [*])]
    exact hlays _ lays_blockStart
  · rw [hdo ‹_›]
    obtain ⟨hprogram, hcalls⟩ := program_doStart (rested s)
    obtain ⟨hp, hc⟩ := appended_rested s [] [doLabel s]
    exact ⟨[], hprogram.trans hp, hcalls.trans hc⟩
  · rw [hbrace ‹_›]
    obtain ⟨code, hprogram, hcalls⟩ := program_blockEnd (rested s)
    obtain ⟨hp, hc⟩ := appended_rested s code (endLabel s.blocks)
    exact ⟨code, hprogram.trans hp, hcalls.trans hc⟩
  · rw [hother (by simp [*]) (by simp [*])]
    exact hlays _ lays_subroutine
  · rw [hother (by simp [*]) (by simp [*])]
    exact hlays _ lays_returnStatement
  · rw [hother ‹_› ‹_›]
    exact hlays _ lays_assignment

lemma program_compile_call {s : Session} (hnext : Tokens.peek s.bench.tokens = "call") :
    (Statement.compile.on s).2.program = s.program ∧
      (Statement.compile.on s).2.calls = s.nextCall :: s.calls := by
  obtain ⟨q, hq⟩ := exists_compile_call hnext
  rw [hq]
  exact ⟨rfl, rfl⟩

lemma items_compile_call {s : Session} (hnext : Tokens.peek s.bench.tokens = "call") :
    (Statement.compile.on s).2.items = s.items ++ [.call s.nextCall] := by
  obtain ⟨hprogram, hcalls⟩ := program_compile_call hnext
  rw [Session.items, hprogram, hcalls, itemsOf_cons_end rfl]
  rfl

end Statement

/-! ### Labels on what is laid out -/

section Labels

variable {xs : List Item} {p q : List Label} {code : Code} {i : Instruction} {n : Nat}

@[simp] lemma tagLastItem_nil (xs : List Item) : tagLastItem [] xs = xs := by
  rcases List.eq_nil_or_concat xs with rfl | ⟨ys, y, rfl⟩
  · rfl
  · rw [List.concat_eq_append, tagLastItem_concat, Item.tag_nil]

lemma tagLastItem_tagLastItem (p q : List Label) (xs : List Item) :
    tagLastItem q (tagLastItem p xs) = tagLastItem (p ++ q) xs := by
  rcases List.eq_nil_or_concat xs with rfl | ⟨ys, y, rfl⟩
  · rfl
  · simp only [List.concat_eq_append, tagLastItem_concat, Item.tag_tag]

@[simp] lemma Code.tagLast_nil (code : Code) : Code.tagLast [] code = code := by
  rcases List.eq_nil_or_concat code with rfl | ⟨ys, y, rfl⟩
  · rfl
  · rw [List.concat_eq_append, tagLast_concat, List.append_nil]

lemma Code.tagLast_tagLast (p q : List Label) (code : Code) :
    Code.tagLast q (Code.tagLast p code) = Code.tagLast (p ++ q) code := by
  rcases List.eq_nil_or_concat code with rfl | ⟨ys, y, rfl⟩
  · rfl
  · simp only [List.concat_eq_append, tagLast_concat, List.append_assoc]

lemma Code.tagLast_append (p : List Label) (before : Code) (hne : code ≠ []) :
    Code.tagLast p (before ++ code) = before ++ Code.tagLast p code := by
  rcases List.eq_nil_or_concat code with rfl | ⟨ys, y, rfl⟩
  · exact absurd rfl hne
  · rw [List.concat_eq_append, ← List.append_assoc, tagLast_concat, tagLast_concat,
      List.append_assoc]

lemma Code.exists_getElem?_tagLast (p : List Label) (h : code[n]? = some i) :
    ∃ i', (Code.tagLast p code)[n]? = some i' ∧ i.tags ⊆ i'.tags := by
  rcases List.eq_nil_or_concat code with rfl | ⟨ys, y, rfl⟩
  · simp at h
  · rw [List.concat_eq_append] at h ⊢
    rw [tagLast_concat]
    rcases Nat.lt_or_ge n ys.length with hlt | hge
    · rw [List.getElem?_append_left hlt] at h ⊢
      exact ⟨i, h, List.Subset.refl _⟩
    · rw [List.getElem?_append_right hge] at h ⊢
      have hn : n - ys.length = 0 := Nat.lt_one_iff.mp (List.getElem?_eq_some_iff.mp h).1
      rw [hn] at h ⊢
      obtain rfl : y = i := Option.some.inj h
      exact ⟨_, rfl, List.subset_append_left _ _⟩

end Labels

/-! ### Calls in their places -/

/-- The code of a call that is lowered on the workbench `b`, without the labels it gets: one
instruction that does nothing if the call is wrong. -/
def Call.body (scope : Scope) (c : CallSite) (b : Workbench) : Code :=
  match ((Call.lower (Call.scope c scope) c).on (Call.bench c b)).1 with
  | some code => code
  | none => [.nop]

lemma Call.body_ne_nil (scope : Scope) (c : CallSite) (b : Workbench) :
    Call.body scope c b ≠ [] := by
  rw [Call.body]
  rcases hon : (Call.lower (Call.scope c scope) c).on (Call.bench c b) with ⟨_ | code, b₁⟩
  · simp
  · obtain ⟨p, rfl⟩ := exists_lowering hon
    exact Call.code_ne_nil p

lemma Call.compile_eq_body (scope : Scope) (c : CallSite) (b : Workbench) :
    ((Call.compile scope c).on b).1 = Code.tagLast c.tags (Call.body scope c b) := by
  have hne := Call.body_ne_nil scope c b
  rw [Call.on_compile]
  rw [Call.body] at hne ⊢
  rcases hresult : ((Call.lower (Call.scope c scope) c).on (Call.bench c b)).1 with
    _ | _ | ⟨i, code⟩
  · rfl
  · simp [hresult] at hne
  · rfl

/-- The code that an item of the program becomes when the calls are compiled. `last` is the
workbench after the last statement, and `final` the one after the last call. -/
inductive Item.Becomes (scope : Scope) (last final : Workbench) : Item → Code → Prop
  | instruction (i : Instruction) : Becomes scope last final (.instruction i) [i]
  | call (c : CallSite) {b : Workbench} (hsane : b.Sane) (hgrows : last.Grows b)
      (hleft : ((Call.compile scope c).on b).2.Grows final) :
      Becomes scope last final (.call c) (Code.tagLast c.tags (Call.body scope c b))

section Becomes

variable {scope : Scope} {last final : Workbench} {x : Item} {xs : List Item} {code : Code}
  {blocks : List Code} {labels : List Label}

lemma Item.Becomes.ne_nil (h : x.Becomes scope last final code) : code ≠ [] := by
  cases h with
  | instruction i => simp
  | call c hsane hgrows hleft =>
    intro hnil
    have hlength := congrArg List.length hnil
    rw [length_tagLast] at hlength
    exact Call.body_ne_nil scope c _ (List.eq_nil_of_length_eq_zero hlength)

lemma Item.Becomes.of_tag (h : (x.tag labels).Becomes scope last final code) :
    ∃ code', x.Becomes scope last final code' ∧ code = Code.tagLast labels code' := by
  cases x with
  | instruction i =>
    cases h
    exact ⟨[i], .instruction i, rfl⟩
  | call c =>
    cases h with
    | @call _ b hsane hgrows hleft =>
      exact ⟨_, .call c hsane hgrows hleft, (Code.tagLast_tagLast c.tags labels _).symm⟩

lemma becomes_code (code : Code) :
    List.Forall₂ (Item.Becomes scope last final) (code.map .instruction) (code.map ([·])) := by
  induction code with
  | nil => exact .nil
  | cons i code ih => exact .cons (.instruction i) ih

lemma flatten_of_becomes_code (h : List.Forall₂ (Item.Becomes scope last final)
    (code.map .instruction) blocks) : blocks.flatten = code := by
  induction code generalizing blocks with
  | nil =>
    cases h
    rfl
  | cons i code ih =>
    cases h with
    | cons hi h =>
      cases hi
      rw [List.flatten_cons, ih h]
      rfl

lemma becomes_append {ys : List Item}
    (h : List.Forall₂ (Item.Becomes scope last final) (xs ++ ys) blocks) : ∃ blocks₁ blocks₂,
      List.Forall₂ (Item.Becomes scope last final) xs blocks₁ ∧
      List.Forall₂ (Item.Becomes scope last final) ys blocks₂ ∧ blocks = blocks₁ ++ blocks₂ :=
  ⟨_, _, (List.forall₂_take_append _ _ _ h.flip).flip, (List.forall₂_drop_append _ _ _ h.flip).flip,
    (List.take_append_drop _ _).symm⟩

lemma becomes_singleton (h : List.Forall₂ (Item.Becomes scope last final) [x] blocks) :
    ∃ code, x.Becomes scope last final code ∧ blocks = [code] := by
  cases h with
  | cons hcode hnil =>
    cases hnil
    exact ⟨_, hcode, rfl⟩

lemma becomes_of_tagLastItem
    (h : List.Forall₂ (Item.Becomes scope last final) (tagLastItem labels xs) blocks) :
    ∃ blocks', List.Forall₂ (Item.Becomes scope last final) xs blocks' ∧
      blocks.flatten = Code.tagLast labels blocks'.flatten := by
  rcases List.eq_nil_or_concat xs with rfl | ⟨ys, y, rfl⟩
  · cases h
    exact ⟨[], .nil, rfl⟩
  · rw [List.concat_eq_append] at h ⊢
    rw [tagLastItem_concat] at h
    obtain ⟨blocks₁, blocks₂, hblocks₁, hblocks₂, rfl⟩ := becomes_append h
    obtain ⟨code, hcode, rfl⟩ := becomes_singleton hblocks₂
    obtain ⟨code', hcode', rfl⟩ := hcode.of_tag
    refine ⟨blocks₁ ++ [code'], List.rel_append hblocks₁ (.cons hcode' .nil), ?_⟩
    simp only [List.flatten_append, List.flatten_singleton]
    exact (Code.tagLast_append labels _ hcode'.ne_nil).symm

end Becomes

namespace Session

open Statement

lemma on_insertCall (c : CallSite) (s : Session) : ((insertCall c).on s).2 = { s with
    bench := ((Call.compile s.scope c).on s.bench).2
    program := s.program.take c.position ++ ((Call.compile s.scope c).on s.bench).1 ++
      s.program.drop c.position } := rfl

lemma grows_insertCalls (calls : List CallSite) {s : Session} (hs : s.bench.Sane) :
    ((calls.forM insertCall).on s).2.bench.Sane ∧
      s.bench.Grows ((calls.forM insertCall).on s).2.bench := by
  induction calls generalizing s with
  | nil => exact ⟨hs, .refl _⟩
  | cons c calls ih =>
    obtain ⟨hs₁, hg₁⟩ := (Call.compiles_compile s.scope c s.bench).grows hs
    obtain ⟨hs₂, hg₂⟩ := ih (s := ((insertCall c).on s).2) hs₁
    exact ⟨hs₂, hg₁.trans hg₂⟩

/-- The calls are put in their places, the latest first: each item becomes code, in the order in
which the items stand. `rest` is what comes after the calls that still wait. -/
lemma becomes_insertCalls {last : Workbench} (calls : List CallSite) {s : Session}
    {program rest : Code} (hsane : s.bench.Sane) (hgrows : last.Grows s.bench)
    (hplaced : PlacedBelow program.length calls) (hprogram : s.program = program ++ rest) :
    ∃ blocks,
      List.Forall₂ (Item.Becomes s.scope last ((calls.forM insertCall).on s).2.bench)
        (itemsOf program calls) blocks ∧
      ((calls.forM insertCall).on s).2.program = blocks.flatten ++ rest := by
  induction calls generalizing s program rest with
  | nil =>
    refine ⟨program.map ([·]), becomes_code program, ?_⟩
    rw [flatten_of_becomes_code (@becomes_code s.scope last s.bench program)]
    exact hprogram
  | cons c calls ih =>
    have hc : c.position ≤ program.length := hplaced.1
    have hcompiles := Call.compiles_compile s.scope c s.bench
    obtain ⟨hsane', hgrows'⟩ := hcompiles.grows hsane
    have hlength : (program.take c.position).length = c.position := by
      rw [List.length_take, Nat.min_eq_left hc]
    have hplaced' : PlacedBelow (program.take c.position).length calls := by
      rw [hlength]
      exact hplaced.2
    have hprogram' : ((insertCall c).on s).2.program = program.take c.position ++
        (((Call.compile s.scope c).on s.bench).1 ++ (program.drop c.position ++ rest)) := by
      rw [on_insertCall, hprogram, List.take_append_of_le_length hc,
        List.drop_append_of_le_length hc, List.append_assoc]
    obtain ⟨blocks, hblocks, hon⟩ := ih hsane' (hgrows.trans hgrows') hplaced' hprogram'
    refine ⟨blocks ++ [((Call.compile s.scope c).on s.bench).1] ++
      (program.drop c.position).map ([·]), ?_, ?_⟩
    · rw [itemsOf, List.append_assoc, ← List.singleton_append]
      refine List.rel_append hblocks (List.rel_append (.cons ?_ .nil) (becomes_code _))
      rw [Call.compile_eq_body]
      exact .call c hsane hgrows (grows_insertCalls calls (s := ((insertCall c).on s).2) hsane').2
    · have hdrop := flatten_of_becomes_code
        (@becomes_code s.scope last s.bench (program.drop c.position))
      have hstep : (((c :: calls).forM insertCall).on s).2 =
          ((calls.forM insertCall).on ((insertCall c).on s).2).2 := rfl
      rw [hstep, hon, List.flatten_append, List.flatten_append, hdrop, List.flatten_singleton]
      simp only [List.append_assoc]

end Session

/-! ### The pieces of a program -/

/-- What one statement adds to the program: its code, and the labels that it then puts on the last
instruction. -/
structure Piece where
  code : Code
  labels : List Label

namespace Piece

def layOut (start : Code) (pieces : List Piece) : Code :=
  pieces.foldl (fun program piece => Code.tagLast piece.labels (program ++ piece.code)) start

variable {start : Code} {pieces : List Piece} {piece : Piece} {i : Instruction} {n : Nat}

lemma layOut_append (start : Code) (pieces more : List Piece) :
    layOut start (pieces ++ more) = layOut (layOut start pieces) more := List.foldl_append

lemma length_layOut (start : Code) (pieces : List Piece) :
    (layOut start pieces).length = (start ++ pieces.flatMap Piece.code).length := by
  induction pieces generalizing start with
  | nil => simp [layOut]
  | cons piece pieces ih =>
    rw [layOut, List.foldl_cons, ← layOut, ih]
    simp [Nat.add_assoc]

lemma getElem?_layOut (pieces : List Piece) (h : start[n]? = some i) :
    ∃ i', (layOut start pieces)[n]? = some i' ∧ i.tags ⊆ i'.tags := by
  induction pieces generalizing start i with
  | nil => exact ⟨i, h, List.Subset.refl _⟩
  | cons piece pieces ih =>
    have happend : (start ++ piece.code)[n]? = some i := by
      rw [List.getElem?_append_left (List.getElem?_eq_some_iff.mp h).1, h]
    obtain ⟨i₁, hi₁, hsub₁⟩ := Code.exists_getElem?_tagLast piece.labels happend
    obtain ⟨i₂, hi₂, hsub₂⟩ := ih hi₁
    exact ⟨i₂, hi₂, List.Subset.trans hsub₁ hsub₂⟩

lemma label_layOut (hstart : start ≠ []) (hpiece : pieces[n]? = some piece) {label : Label}
    (hlabel : label ∈ piece.labels) : ∃ i,
      (layOut start pieces)[(start ++ (pieces.take (n + 1)).flatMap Piece.code).length - 1]? =
      some i ∧
        label ∈ i.tags := by
  have htake : pieces.take (n + 1) = pieces.take n ++ [piece] := by
    rw [List.take_add_one, hpiece]
    rfl
  have hlength := length_layOut start (pieces.take (n + 1))
  -- the instruction when the label is put on it
  obtain ⟨program, last, hlast⟩ : ∃ program last,
      layOut start (pieces.take n) ++ piece.code = program ++ [last] := by
    rcases List.eq_nil_or_concat (layOut start (pieces.take n) ++ piece.code) with hnil | ⟨q, i, hq⟩
    · have hzero := length_layOut start (pieces.take n)
      rw [(List.append_eq_nil_iff.mp hnil).1] at hzero
      exact absurd (List.append_eq_nil_iff.mp (List.length_eq_zero_iff.mp hzero.symm)).1 hstart
    · exact ⟨q, i, by rw [hq, List.concat_eq_append]⟩
  have hlaid : layOut start (pieces.take (n + 1)) =
      program ++ [{ last with tags := last.tags ++ piece.labels }] := by
    rw [htake, layOut_append, ← tagLast_concat, ← hlast]
    rfl
  have hend : (start ++ (pieces.take (n + 1)).flatMap Piece.code).length - 1 = program.length := by
    rw [← hlength, hlaid, List.length_append, List.length_singleton, Nat.add_sub_cancel]
  rw [hend, ← List.take_append_drop (n + 1) pieces, layOut_append, hlaid]
  have hcarries : (program ++ [{ last with tags := last.tags ++ piece.labels }])[program.length]? =
      some { last with tags := last.tags ++ piece.labels } := List.getElem?_concat_length
  obtain ⟨i, hi, hsub⟩ := getElem?_layOut (pieces.drop (n + 1)) hcarries
  exact ⟨i, hi, hsub (List.mem_append_right _ hlabel)⟩

end Piece

namespace Statement

open Build

/-- The piece is what the next statement adds to the program: the code that the statement appends
and the labels that it puts on what ends the program, or the code of its call, which is lowered when
all statements are done. `last` is the session then. -/
structure Contributes (last s : Session) (piece : Piece) : Prop where
  labels : piece.labels = given s
  main : Tokens.peek s.bench.tokens ≠ "call" →
    (Statement.compile.on s).2.program = (s.appended piece.code piece.labels).program ∧
      (Statement.compile.on s).2.calls = (s.appended piece.code piece.labels).calls
  call : Tokens.peek s.bench.tokens = "call" → piece.code ≠ [] ∧
    ∃ b, b.Sane ∧ last.bench.Grows b ∧ piece.code = Call.body last.scope s.nextCall b

/-- The sessions in which the statements start, in the order of the source. -/
def starts : Nat → Session → List Session
  | 0, _ => []
  | rounds + 1, s =>
    if s.bench.tokens.isEmpty then [] else s :: starts rounds (Statement.compile.on s).2

lemma items_appended {s : Session} (hs : s.Fine) (code : Code) (labels : List Label) :
    (s.appended code labels).items = tagLastItem labels (s.items ++ code.map .instruction) := by
  have hlabels : ∀ (labels : List Label) (s : Session), s.Fine →
      ((labels.forM tagLast).on s).2.items = tagLastItem labels s.items := by
    intro labels
    induction labels with
    | nil => exact fun s _ => (tagLastItem_nil s.items).symm
    | cons label labels ih =>
      intro s hs
      have hstep := ih _ ((advances_tagLast label).keeps s hs).1
      rw [items_tagLast label hs, tagLastItem_tagLastItem] at hstep
      exact hstep
  have hitems := hlabels labels _ ((advances_emit code).keeps s hs).1
  have hemit : ((emit code).on s).2.items = s.items ++ code.map .instruction :=
    itemsOf_append hs.placed
  rw [hemit] at hitems
  exact hitems

/-- What the items after a statement become is what those before it become, and the piece of the
statement laid out after that. -/
lemma contributes_of_becomes {last s : Session} {final : Workbench} (hs : s.Fine)
    {blocks : List Code}
    (h : List.Forall₂ (Item.Becomes last.scope last.bench final) (Statement.compile.on s).2.items
      blocks) :
    ∃ blocks' piece, List.Forall₂ (Item.Becomes last.scope last.bench final) s.items blocks' ∧
      Contributes last s piece ∧
      blocks.flatten = Code.tagLast piece.labels (blocks'.flatten ++ piece.code) := by
  -- the items that the statement adds
  obtain ⟨new, hitems, hnew⟩ : ∃ new : List Item,
      (Statement.compile.on s).2.items = tagLastItem (given s) (s.items ++ new) ∧
      ∀ blocks, List.Forall₂ (Item.Becomes last.scope last.bench final) new blocks →
        Contributes last s ⟨blocks.flatten, given s⟩ := by
    by_cases hnext : Tokens.peek s.bench.tokens = "call"
    · have hgiven : given s = [] := by simp [given, hnext]
      refine ⟨[.call s.nextCall], ?_, fun blocks hblocks => ⟨rfl, absurd hnext, fun _ => ?_⟩⟩
      · rw [hgiven, tagLastItem_nil, items_compile_call hnext]
      · obtain ⟨code, hcode, rfl⟩ := becomes_singleton hblocks
        rw [List.flatten_singleton]
        refine ⟨hcode.ne_nil, ?_⟩
        cases hcode with
        | @call _ b hsane hgrows _ => exact ⟨b, hsane, hgrows, Code.tagLast_nil _⟩
    · obtain ⟨code, hprogram, hcalls⟩ := program_compile hnext
      refine ⟨code.map .instruction, ?_, fun blocks hblocks =>
        ⟨rfl, fun _ => ?_, fun h => absurd h hnext⟩⟩
      · rw [← items_appended hs, Session.items, hprogram, hcalls]
        rfl
      · rw [flatten_of_becomes_code hblocks]
        exact ⟨hprogram, hcalls⟩
  rw [hitems] at h
  obtain ⟨blocks', hblocks', hflatten⟩ := becomes_of_tagLastItem h
  obtain ⟨blocks₁, blocks₂, hblocks₁, hblocks₂, rfl⟩ := becomes_append hblocks'
  exact ⟨blocks₁, _, hblocks₁, hnew blocks₂ hblocks₂, by rw [hflatten, List.flatten_append]⟩

lemma pieces_of_becomes (last : Session) {final : Workbench} (rounds : Nat)
    {s : Session} (hs : s.Fine) {blocks : List Code}
    (h : List.Forall₂ (Item.Becomes last.scope last.bench final)
      ((Statement.compileAll rounds).on s).2.items blocks) :
    ∃ blocks' pieces, List.Forall₂ (Item.Becomes last.scope last.bench final) s.items blocks' ∧
      List.Forall₂ (Contributes last) (starts rounds s) pieces ∧
      blocks.flatten = Piece.layOut blocks'.flatten pieces := by
  induction rounds generalizing s with
  | zero => exact ⟨blocks, [], h, .nil, rfl⟩
  | succ rounds ih =>
    rw [Session.on_compileAll_succ] at h
    rw [starts]
    by_cases hempty : s.bench.tokens.isEmpty
    · rw [if_pos hempty] at h ⊢
      exact ⟨blocks, [], h, .nil, rfl⟩
    · rw [if_neg hempty] at h ⊢
      obtain ⟨blocks₁, pieces, hblocks₁, hpieces, hflatten⟩ := ih (keeps_compile s hs).1 h
      obtain ⟨blocks', piece, hblocks', hpiece, hflatten'⟩ := contributes_of_becomes hs hblocks₁
      exact ⟨blocks', piece :: pieces, hblocks',
        .cons hpiece hpieces, by rw [hflatten, hflatten']; rfl⟩

lemma tokens_compileAll (rounds : Nat) (s : Session) (h : s.bench.tokens.length ≤ rounds) :
    ((Statement.compileAll rounds).on s).2.bench.tokens = [] := by
  induction rounds generalizing s with
  | zero => exact List.eq_nil_of_length_eq_zero (Nat.le_zero.mp h)
  | succ rounds ih =>
    rw [Session.on_compileAll_succ]
    split
    · exact List.isEmpty_iff.mp ‹_›
    · refine ih _ ?_
      have hle := (tokens_compile s).length_le
      rcases htokens : s.bench.tokens with _ | ⟨t, ts⟩
      · simp_all
      · rw [htokens] at h hle
        rw [List.length_cons] at h
        exact hle.trans (Nat.le_of_succ_le_succ h)

end Statement

namespace Session

open Statement

def opening (settings : Settings) (tokens : List Token) : Session :=
  let s := new settings
  { s with bench := { s.bench with tokens }, program := [preloadCallStack] }

/-- The program is made of the code of the statements, in the order of the source: what a statement
adds to it, and for a call the code of the call. Every label that a statement gives stands on the
last instruction of the code of the statements through that one. -/
theorem laid_out_in_order (settings : Settings) (tokens : List Token) :
    let first := opening settings tokens
    let last := ((Statement.compileAll tokens.length).on first).2
    let final := ((compileTokens tokens).on (new settings)).2
    ∃ pieces : List Piece, List.Forall₂ (Contributes last) (starts tokens.length first) pieces ∧
      last.bench.tokens = [] ∧ final.calls = [] ∧
      final.program = Piece.layOut [preloadCallStack] pieces ∧
      ∀ n piece label, pieces[n]? = some piece → label ∈ piece.labels → ∃ i,
        final.program[(preloadCallStack :: (pieces.take (n + 1)).flatMap Piece.code).length - 1]? =
          some i ∧ label ∈ i.tags := by
  intro first last final
  have hfirst : first.Fine := ⟨(sane_new settings).congr rfl rfl, trivial⟩
  have hlast : last.Fine := (keeps_compileAll tokens.length first hfirst).1
  obtain ⟨b, hreport, hsane, hgrows⟩ := on_reportBlocks last.blocks hlast.sane
  have hfinal : final = (declareCallStack.on (compileCalls.on { last with bench := b }).2).2 := by
    rw [← hreport]
    rfl
  have hcalls : final.calls = [] := by
    rw [hfinal]
    exact calls_compileCalls _
  have happend : ({ last with bench := b, calls := [] } : Session).program = last.program ++ [] :=
    (List.append_nil _).symm
  obtain ⟨blocks, hblocks, hprogram⟩ :=
    becomes_insertCalls last.calls hsane hgrows hlast.placed happend
  obtain ⟨blocks₀, pieces, hblocks₀, hpieces, hflatten⟩ :=
    pieces_of_becomes last tokens.length hfirst hblocks
  have hlaid : final.program = Piece.layOut [preloadCallStack] pieces := by
    have hstart : blocks₀.flatten = [preloadCallStack] :=
      flatten_of_becomes_code hblocks₀
    rw [← hstart, ← hflatten, ← List.append_nil blocks.flatten, ← hprogram, hfinal]
    rfl
  refine ⟨pieces, hpieces, tokens_compileAll _ _ (Nat.le_refl _), hcalls, hlaid, ?_⟩
  intro n piece label hpiece hlabel
  rw [hlaid]
  exact Piece.label_layOut (List.cons_ne_nil _ _) hpiece hlabel

end Session
end CogolToolchain
