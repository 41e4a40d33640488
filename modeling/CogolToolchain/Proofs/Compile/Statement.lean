import CogolToolchain.Proofs.Compile.Session

/-!
Every statement, right or wrong, only adds to the session.
-/

namespace CogolToolchain

open Work Attempt

/-! ### Declarators -/

namespace Declarator

variable (scope : Scope) (name : Token) (stops : List Token)

lemma careful_readElement (index : Nat) : Careful false (readElement scope name index) := by
  refine (careful_reference scope .source).bind fun a => ?_
  dsimp only
  split
  · exact careful_pure _
  · exact (careful_lift (advances_report _)).bind fun _ => careful_pure _

lemma advances_readElements (rounds : Nat) (values : List Int) :
    Advances false (readElements scope name stops rounds values) := by
  induction rounds generalizing values with
  | zero => exact advances_pure _
  | succ rounds ih =>
    refine Advances.bind (careful_readElement scope name _).advances fun value? => ?_
    split
    · exact advances_pure _
    · refine advances_pop.bind fun next => ?_
      split
      · exact ih _
      · dsimp only
        split
        · refine advances_peek.bind fun _ => ?_
          split
          · exact Advances.bind (advances_pop.bind fun _ => advances_pure _) fun _ =>
              advances_pure _
          · exact (advances_reportThrough _ _).bind fun _ => advances_pure _
        · exact (advances_reportThrough _ _).bind fun _ => advances_pure _

lemma advances_readSize : Advances false (readSize name) := by
  refine advances_pop.bind fun text => ?_
  split
  · exact advances_pure _
  · exact (advances_report _).bind fun _ => advances_pure _

lemma advances_readArray (size : Nat) : Advances false (readArray scope name stops size) := by
  refine (advances_eat _).bind fun _ => ?_
  split
  · refine advances_pop.bind fun _ => ?_
    split
    · exact advances_pure _
    · split
      · refine (advances_eat _).bind fun _ => ?_
        split
        · exact advances_get.bind fun _ => (advances_readElements scope name stops _ _).bind
            fun _ =>
            advances_pure _
        · exact (advances_reportThrough _ _).bind fun _ => advances_pure _
      · exact (advances_reportThrough _ _).bind fun _ => advances_pure _
  · exact (advances_reportThrough _ _).bind fun _ => advances_pure _

lemma careful_readDefault : Careful false (readDefault scope name stops) := by
  refine (careful_reference scope .source).bind fun a =>
    (careful_lift advances_peek).bind fun next => ?_
  split
  · exact (careful_lift advances_pop).bind fun _ => careful_pure _
  · exact (careful_lift (advances_reportThrough _ _)).bind fun _ => careful_pure _

lemma careful_read : Careful false (read scope name stops) := by
  refine (careful_lift advances_pop).bind fun next => ?_
  split
  · exact careful_pure _
  · split
    · exact careful_readDefault scope name stops
    · split
      · exact (careful_lift (advances_readSize name)).bind fun size =>
          careful_lift (advances_readArray scope name stops size)
      · exact careful_failThrough rfl

end Declarator

/-! ### Declared cells -/

namespace Workbench

variable {b : Workbench}

lemma Sane.extend (hb : b.Sane) {t : SymbolTable} (h : b.globals.Extends t)
    (hnew : ∀ a n, b.globals.nextFree ≤ a → t.cells[a]? ≠ some (scratchName n)) :
    Sane { b with globals := t } where
  named := fun ha => h.getElem?_eq_some (hb.named ha)
  pooled := fun {n a} ha => by
    rcases Nat.lt_or_ge a b.globals.nextFree with hlt | hge
    · exact hb.pooled (by rwa [← h.getElem? hlt])
    · exact absurd ha (hnew a n hge)
  counter := h.getElem?_eq_some hb.counter
  display := h.getElem?_eq_some hb.display

lemma Sane.declareWord (hb : b.Sane) {name : String} (h : ∀ n, name ≠ scratchName n) :
    Sane { b with globals := b.globals.declareWord name } := by
  refine hb.extend (SymbolTable.extends_declareWord _ _) fun a n ha hcell => ?_
  exact h n (SymbolTable.getElem?_declareWord_ge ha hcell).2.symm

lemma Sane.declareArray (hb : b.Sane) {name : String} (h : ∀ n, name ≠ scratchName n)
    (size initialized : Nat) :
    Sane { b with globals := b.globals.declareArray name size initialized } := by
  refine hb.extend (SymbolTable.extends_declareArray _ _ _ _) fun a n ha hcell => ?_
  rcases Nat.lt_or_ge b.globals.nextFree a with hlt | hge
  · obtain ⟨i, -, -, hi⟩ := SymbolTable.getElem?_declareArray_gt hlt hcell
    exact ne_scratchName (isReserved_elementName name i) n hi.symm
  · obtain rfl : a = b.globals.nextFree := by omega
    rw [SymbolTable.getElem?_declareArray, Option.some.injEq] at hcell
    exact h n hcell

end Workbench

/-! ### Statements -/

namespace Statement

open Build

lemma advances_declareGlobal {name : Token} (h : isReserved name = false) (d : Declarator) :
    Build.Advances (declareGlobal name d) := by
  refine ⟨fun s hs => ?_, fun s => by cases d <;> exact List.suffix_refl _⟩
  have hword := hs.sane.declareWord (ne_scratchName h)
  have hext := SymbolTable.extends_declareWord s.bench.globals name
  cases d with
  | word =>
    exact ⟨⟨hword, hs.placed⟩, hext, List.prefix_refl _, Nat.le_refl _, List.prefix_refl _,
      List.prefix_refl _, .refl _⟩
  | wordWithDefault value =>
    exact ⟨⟨hword, hs.placed⟩, hext, List.prefix_refl _, Nat.le_refl _, List.prefix_refl _,
      List.prefix_append _ _, .refl _⟩
  | array size values =>
    exact ⟨⟨hs.sane.declareArray (ne_scratchName h) _ _, hs.placed⟩,
      SymbolTable.extends_declareArray _ _ _ _, List.prefix_refl _, Nat.le_refl _,
      List.prefix_refl _,
      (List.prefix_append _ _).trans (List.prefix_append _ _), .refl _⟩

lemma progresses_declaration : Build.Progresses declaration := by
  refine progresses_discard <| (advances_work advances_pop).bind fun name =>
    Build.advances_get.bind fun s => ?_
  split
  · exact advances_work (advances_reportStatement _)
  · split
    · exact advances_work (advances_reportStatement _)
    · refine (advances_attempt (Declarator.careful_read s.scope name [";"])).bind fun d? => ?_
      split
      · exact advances_declareGlobal (by simpa using ‹¬ isReserved name = true›) _
      · exact Build.advances_pure _

lemma progresses_assignment : Build.Progresses assignment := by
  have hadvances : Build.Advances assignment := by
    refine Build.advances_get.bind fun s =>
      (advances_attempt (Assignment.careful_lower s.scope)).bind fun code? => ?_
    split
    · exact advances_emit _
    · exact Build.advances_pure _
  refine ⟨hadvances.keeps, fun s => ?_⟩
  have htokens := Assignment.tokens_lower s.scope s.bench
  simp only [assignment, Build.on_bind, Build.on_get, on_attempt]
  split <;> exact htokens

lemma advances_openWhile (block : Block) (c : Condition) (code : Code) :
    Build.Advances (openWhile block c code) :=
  (advances_work (Condition.advances_lower c)).bind fun _ => (advances_emit _).bind fun _ =>
    advances_openBlock _ _

lemma advances_openIf (block : Block) (c : Condition) (code : Code) :
    Build.Advances (openIf block c code) :=
  (advances_work (Condition.advances_lower _)).bind fun _ => (advances_emit _).bind fun _ =>
    advances_openBlock _ _

lemma progresses_blockStart : Build.Progresses blockStart := by
  refine progresses_pop fun keyword => (advances_work advances_takeId).bind fun id =>
    Build.advances_get.bind fun s => (advances_attempt (Condition.careful_read s.scope)).bind
      fun c? =>
    advances_blockSuffix.bind fun suffix => ?_
  dsimp only
  split
  · exact advances_openBlock _ _
  · split
    · exact advances_openWhile _ _ _
    · exact advances_openIf _ _ _

lemma progresses_doStart : Build.Progresses doStart :=
  progresses_discard <| (advances_work advances_takeId).bind fun _ =>
    advances_blockSuffix.bind fun _ => (advances_tagLast _).bind fun _ => advances_openBlock _ _

lemma careful_doCondition (scope : Scope) : Careful false (doCondition scope) := by
  refine (careful_lift (advances_eat _)).bind fun _ => ?_
  split
  · exact (Condition.careful_read scope).bind fun _ => (careful_expect _).bind fun _ =>
      careful_pure _
  · exact (careful_lift advances_peek).bind fun _ => careful_failStatement rfl

lemma advances_closeDo (block : Block) : Build.Advances (closeDo block) := by
  refine Build.advances_get.bind fun s => (advances_attempt (careful_doCondition s.scope)).bind
    fun c? => ?_
  split
  · exact Build.advances_pure _
  · exact (advances_work (Condition.advances_lower _)).bind fun _ => advances_emit _

lemma advances_openElse : Build.Advances openElse := by
  refine (advances_work (advances_eat _)).bind fun _ => ?_
  split
  · exact (advances_work advances_takeId).bind fun _ => advances_blockSuffix.bind fun _ =>
      (advances_emit _).bind fun _ => advances_openBlock _ _
  · exact Build.advances_pure _

lemma advances_modify_blocks (f : Session → List OpenBlock) :
    Build.Advances (modify fun s => { s with blocks := f s }) :=
  advances_modify (fun _ => rfl) (fun _ => rfl) (fun _ => rfl) fun _ => rfl

lemma advances_modify_scope (f : Session → Scope) :
    Build.Advances (modify fun s => { s with scope := f s }) :=
  advances_modify (fun _ => rfl) (fun _ => rfl) (fun _ => rfl) fun _ => rfl

lemma advances_afterBrace (block : Block) : Build.Advances (afterBrace block) := by
  unfold afterBrace
  split
  · exact advances_openElse
  · exact advances_closeDo block
  · exact advances_modify_scope _
  · exact Build.advances_pure _
  · exact Build.advances_pure _

lemma progresses_blockEnd : Build.Progresses blockEnd := by
  refine progresses_discard <| Build.advances_get.bind fun s => ?_
  split
  · exact advances_work (advances_report _)
  · refine (advances_modify_blocks fun _ => _).bind fun _ =>
      (advances_emit _).bind fun _ => (advances_afterBrace _).bind fun _ => ?_
    split
    · exact advances_tagLast _
    · exact Build.advances_pure _

lemma advances_epilogue (name : String) : Advances false (epilogue name) :=
  advances_allocScratch.bind fun _ => (advances_releaseCell _).bind fun _ => advances_pure _

lemma progresses_param (sub : Token) : Build.Progresses (param sub) := by
  refine progresses_pop fun name => Build.advances_get.bind fun s => ?_
  dsimp only
  split
  · exact advances_work (advances_reportThrough _ _)
  · split
    · exact advances_work (advances_reportThrough _ _)
    · refine (advances_attempt (Declarator.careful_read _ _ _)).bind fun d? => ?_
      split
      · exact advances_modify_scope _
      · exact Build.advances_pure _

lemma advances_params (sub : Token) (rounds : Nat) : Build.Advances (params sub rounds) := by
  induction rounds with
  | zero => exact Build.advances_pure _
  | succ rounds ih =>
    refine Build.advances_get.bind fun s => ?_
    dsimp only
    split
    · exact Build.advances_pure _
    · exact (progresses_param sub).advances.bind fun _ => ih

lemma advances_declareFramePointer (name : Token) : Build.Advances (declareFramePointer name) := by
  refine Build.advances_get.bind fun s => ?_
  split
  · exact advances_work (advances_report _)
  · split
    · exact advances_work (advances_report _)
    · split
      · exact advances_work (advances_report _)
      · refine ⟨fun s hs => ?_, fun _ => List.suffix_refl _⟩
        have hname : isReserved name = false := by simpa using ‹¬ isReserved name = true›
        exact ⟨⟨hs.sane.declareWord (ne_scratchName hname), hs.placed⟩,
          SymbolTable.extends_declareWord _ _, List.prefix_refl _, Nat.le_refl _,
          List.prefix_refl _,
          List.prefix_refl _, .refl _⟩

lemma progresses_subroutine : Build.Progresses subroutine := by
  refine progresses_discard <| (advances_work advances_pop).bind fun name =>
    (advances_declareFramePointer name).bind fun _ => (advances_work advances_takeId).bind fun id =>
    (advances_modify_scope _).bind fun _ => (advances_attempt (careful_expect _)).bind fun _ => ?_
  have hrest : Build.Advances (do
      discard (work (Work.eat "\x7b"))
      emit [.jump (.label (.finish ⟨.sub, id, "_" ++ name⟩) 1),
        Instruction.nop.tagged (.begin ⟨.sub, id, "_" ++ name⟩)]
      let code ← work (epilogue name)
      modify fun s =>
        { s with scope := s.scope.modifyFrame name fun f => { f with epilogue := code } }
      openBlock ⟨.sub, id, "_" ++ name⟩ code) :=
    (advances_work (advances_eat _)).discard.bind fun _ => (advances_emit _).bind fun _ =>
      (advances_work (advances_epilogue name)).bind fun _ => (advances_modify_scope _).bind fun _ =>
      advances_openBlock _ _
  dsimp only
  split
  · exact (advances_work (advances_eat _)).discard.bind fun _ => Build.advances_get.bind fun s =>
      (advances_params name _).bind fun _ => hrest
  · exact hrest

lemma progresses_returnStatement : Build.Progresses returnStatement := by
  refine progresses_discard <| Build.advances_get.bind fun s => ?_
  dsimp only
  split
  · exact advances_work (advances_reportStatement _)
  · refine (advances_work (advances_eat _)).bind fun _ => ?_
    split
    · exact advances_emit _
    · exact advances_work (advances_reportStatement _)

lemma advances_setType (pointer sub : String) : Build.Advances (modify fun s => { s with
    bench := { s.bench with globals := s.bench.globals.setType pointer (.pointer sub) } }) := by
  refine ⟨fun s hs => ?_, fun _ => List.suffix_refl _⟩
  have hcells : (s.bench.globals.setType pointer (.pointer sub)).cells = s.bench.globals.cells := by
    unfold SymbolTable.setType
    split <;> rfl
  have hsane : Workbench.Sane { s.bench with
      globals := s.bench.globals.setType pointer (.pointer sub) } := by
    refine hs.sane.extend ?_ fun a n ha => ?_
    · rw [SymbolTable.Extends, hcells]
    · rw [hcells, Array.getElem?_eq_none ha]
      simp
  refine ⟨⟨hsane, hs.placed⟩, ?_, List.prefix_refl _, Nat.le_refl _, List.prefix_refl _,
    List.prefix_refl _, .refl _⟩
  show s.bench.globals.Extends (s.bench.globals.setType pointer (.pointer sub))
  rw [SymbolTable.Extends, hcells]

lemma tokens_setPointerType (call : CallSite) (s : Session) :
    ((setPointerType call).on s).2.bench.tokens = s.bench.tokens := by
  unfold setPointerType
  split
  · rw [Build.on_modify]
    split <;> rfl
  · rfl

lemma advances_setPointerType (call : CallSite) : Build.Advances (setPointerType call) := by
  refine ⟨?_, fun s => by rw [tokens_setPointerType]⟩
  unfold setPointerType
  split
  · intro s hs
    rw [Build.on_modify]
    split
    · exact (advances_modify_scope fun s => s.scope.modifyFrame _ _).keeps s hs
    · exact (advances_setType _ _).keeps s hs
  · exact (Build.advances_pure _).keeps

lemma program_setPointerType (call : CallSite) (s : Session) :
    ((setPointerType call).on s).2.program = s.program ∧
      ((setPointerType call).on s).2.calls = s.calls := by
  unfold setPointerType
  split
  · rw [Build.on_modify]
    split <;> exact ⟨rfl, rfl⟩
  · exact ⟨rfl, rfl⟩

lemma keeps_addCall {call : CallSite} {s : Session} (hs : s.Fine)
    (hc : call.position = s.program.length) :
    Session.Fine { s with calls := call :: s.calls } ∧
      s.Grows { s with calls := call :: s.calls } := by
  refine ⟨⟨hs.sane, hc.le, hc ▸ hs.placed⟩, .refl _, List.prefix_refl _, Nat.le_refl _,
    List.prefix_refl _, List.prefix_refl _, ?_⟩
  show Enriches s.items (itemsOf s.program (call :: s.calls))
  rw [itemsOf_cons_end hc]
  exact enriches_append _ _

lemma progresses_queueCall : Build.Progresses queueCall := by
  refine ⟨fun s hs => ?_, fun s => ?_⟩
  · let parts := Tokens.splitStatement s.bench.tokens
    let call : CallSite :=
      { position := s.program.length, tokens := parts.1, enclosing := s.scope.enclosing }
    have htokens := keeps_work (keeps_tokens fun _ => parts.2) s hs
    let s₁ : Session := { s with bench := { s.bench with tokens := parts.2 } }
    have htype := (advances_setPointerType call).keeps s₁ htokens.1
    obtain ⟨hprogram, -⟩ := program_setPointerType call s₁
    have hadd := keeps_addCall htype.1 (show call.position = _ by rw [hprogram])
    exact ⟨hadd.1, (htokens.2.trans htype.2).trans hadd.2⟩
  · exact ((advances_setPointerType _).consumes { s with
      bench := { s.bench with tokens := (Tokens.splitStatement s.bench.tokens).2 } }).trans
        (Tokens.splitStatement_suffix _)

/-- The session with all scratch cells free, as every statement finds it. -/
def rested (s : Session) : Session :=
  { s with bench := { s.bench with scratch := s.bench.scratch.releaseAll } }

lemma on_compile (s : Session) : Statement.compile.on s =
    Build.on (match Tokens.peek s.bench.tokens with
      | ";" => discard (work Work.pop)
      | "call" => queueCall
      | "my" => declaration
      | "if" | "while" => blockStart
      | "do" => doStart
      | "\x7d" => blockEnd
      | "sub" => subroutine
      | "return" => returnStatement
      | _ => assignment) (rested s) := rfl

lemma progresses_compile : Build.Progresses Statement.compile := by
  have hstatement : ∀ s : Session, Build.Progresses (match Tokens.peek s.bench.tokens with
      | ";" => discard (work Work.pop)
      | "call" => queueCall
      | "my" => declaration
      | "if" | "while" => blockStart
      | "do" => doStart
      | "\x7d" => blockEnd
      | "sub" => subroutine
      | "return" => returnStatement
      | _ => assignment) := fun s => by
    split
    · exact ⟨(advances_work advances_pop).discard.keeps, fun s => List.suffix_refl _⟩
    · exact progresses_queueCall
    · exact progresses_declaration
    · exact progresses_blockStart
    · exact progresses_blockStart
    · exact progresses_doStart
    · exact progresses_blockEnd
    · exact progresses_subroutine
    · exact progresses_returnStatement
    · exact progresses_assignment
  refine ⟨fun s hs => ?_, fun s => (hstatement s).tokens (rested s)⟩
  have hrelease : Work.Keeps (modify fun b => { b with scratch := b.scratch.releaseAll }) :=
    fun _ hb => Workbench.pool_keeps hb (ScratchPool.addresses_releaseAll _)
  obtain ⟨hfine, hgrows⟩ := keeps_work hrelease s hs
  exact ((hstatement s).keeps (rested s) hfine).imp_right hgrows.trans

lemma keeps_compile : Build.Keeps Statement.compile := progresses_compile.keeps

lemma tokens_compile (s : Session) :
    (Statement.compile.on s).2.bench.tokens <:+ Tokens.rest s.bench.tokens :=
  progresses_compile.tokens s

/-- All statements of a program only add to the session. -/
theorem keeps_compileAll (rounds : Nat) : Build.Keeps (compileAll rounds) := by
  induction rounds with
  | zero => exact (Build.advances_pure _).keeps
  | succ rounds ih =>
    refine Build.advances_get.keeps.bind fun s => ?_
    split
    · exact (Build.advances_pure _).keeps
    · exact keeps_compile.bind fun _ => ih

end Statement

end CogolToolchain
