import CogolToolchain.Proofs.Compile.Expansion

/-!
What all labels of a compilation have in common.

Labels belong to blocks, products and calls. If those of the blocks that are opened, of products and
of calls have a property, all labels in the program have it, those on the calls that wait and in the
trailers of open blocks included, whether there are errors or not (`Session.Labelled.effect`,
`Session.Labelled.expand`).
-/

namespace CogolToolchain

open Work Attempt

def Code.Labelled (P : Label → Prop) (code : Code) : Prop := ∀ l ∈ Code.tags code, P l

section

variable {P : Label → Prop} {p q : Code}

lemma Code.Labelled.append (hp : Code.Labelled P p) (hq : Code.Labelled P q) :
    Code.Labelled P (p ++ q) := fun l hl => by
  rw [Code.tags_append, List.mem_append] at hl
  exact hl.elim (hp l) (hq l)

lemma Code.labelled_of_tags_eq_nil (h : Code.tags p = []) :
    Code.Labelled P p := by simp [Labelled, h]

lemma Code.Labelled.of_sublist (hq : Code.Labelled P q) (h : p.Sublist q) : Code.Labelled P p :=
  fun l hl => by
    obtain ⟨i, hi, hmem⟩ := List.mem_flatMap.mp hl
    exact hq l (List.mem_flatMap.mpr ⟨i, h.subset hi, hmem⟩)

lemma Code.Labelled.tagLast (hp : Code.Labelled P p) {labels : List Label}
    (hlabels : ∀ l ∈ labels, P l) : Code.Labelled P (Code.tagLast labels p) := by
  rcases p with _ | ⟨i, p⟩
  · exact hp
  · intro l hl
    rw [Call.tags_tagLast labels (List.cons_ne_nil i p), List.mem_append] at hl
    exact hl.elim (hp l) (hlabels l)

end

namespace Session

open Statement Build

/-- All labels of the session have the property `P`: those in the program and on the calls that
wait, those of the open blocks and those in their trailers. The frames of the subroutines are sound,
so that there are no labels in their code. -/
structure Labelled (P : Label → Prop) (s : Session) : Prop where
  program : Code.Labelled P s.program
  calls : ∀ c ∈ s.calls, ∀ l ∈ c.tags, P l
  blocks : ∀ o ∈ s.blocks, (∀ l ∈ blockLabels o.block, P l) ∧ Code.Labelled P o.trailer
  frames : ∀ name frame, s.scope.frame? name = some frame →
    frame.Sound s.bench.scratch.addresses name

section

variable {P : Label → Prop} {s s' : Session}

lemma Labelled.mono {Q : Label → Prop} (h : s.Labelled P) (hPQ : ∀ l, P l → Q l) :
    s.Labelled Q where
  program l hl := hPQ l (h.program l hl)
  calls c hc l hl := hPQ l (h.calls c hc l hl)
  blocks o ho := ⟨fun l hl => hPQ l ((h.blocks o ho).1 l hl), fun l hl =>
    hPQ l ((h.blocks o ho).2 l hl)⟩
  frames := h.frames

lemma Labelled.on_bench (h : s.Labelled P) {b : Workbench}
    (hscratch : s.bench.scratch.addresses ⊆ b.scratch.addresses) :
    Labelled P { s with bench := b } :=
  ⟨h.program, h.calls, h.blocks, fun name frame hframe =>
    (h.frames name frame hframe).mono hscratch⟩

lemma Labelled.emit (h : s.Labelled P) {code : Code} (hcode : Code.Labelled P code) :
    Labelled P { s with program := s.program ++ code } :=
  ⟨h.program.append hcode, h.calls, h.blocks, h.frames⟩

lemma Labelled.openBlock (h : s.Labelled P) {block : Block} {trailer : Code}
    (hblock : ∀ l ∈ blockLabels block, P l) (htrailer : Code.Labelled P trailer) :
    Labelled P { s with blocks := { block := block, trailer } :: s.blocks } :=
  ⟨h.program, h.calls, List.forall_mem_cons.mpr ⟨⟨hblock, htrailer⟩, h.blocks⟩, h.frames⟩

lemma Labelled.tagLast (h : s.Labelled P) {label : Label} (hlabel : P label) :
    ((Build.tagLast label).on s).2.Labelled P := by
  have hlabels : ∀ l ∈ [label], P l := by simpa using hlabel
  rw [Build.tagLast, Build.on_modify]
  split
  · rename_i call calls hcalls
    have hold := h.calls
    rw [hcalls, List.forall_mem_cons] at hold
    split
    · refine ⟨h.program, List.forall_mem_cons.mpr ⟨fun l hl => ?_, hold.2⟩, h.blocks, h.frames⟩
      exact (List.mem_append.mp hl).elim (hold.1 l) (hlabels l)
    · exact ⟨h.program.tagLast hlabels, h.calls, h.blocks, h.frames⟩
  · exact ⟨h.program.tagLast hlabels, h.calls, h.blocks, h.frames⟩

lemma Labelled.openIf (h : s.Labelled P) (hs : s.Fine) (o : OpensIf s)
    (hblock : ∀ l ∈ blockLabels o.block, P l) : o.session.Labelled P := by
  obtain ⟨hg, -, -, hskip, hplain⟩ := o.plain hs
  refine ((h.on_bench hg.scratch.subset).emit (Code.labelled_of_tags_eq_nil ?_)).openBlock hblock
    (Code.labelled_of_tags_eq_nil rfl)
  rw [Code.tags_append, hplain.tags, tags_branchTo hskip]
  rfl

lemma Labelled.openWhile (h : s.Labelled P) (hs : s.Fine) (o : OpensWhile s)
    (hblock : ∀ l ∈ blockLabels o.block, P l) : o.session.Labelled P := by
  obtain ⟨hg, -, -, hbranch, hplain⟩ := o.plain hs
  obtain ⟨hslot, hbottom, -, -⟩ :=
    loopBottom_eq hplain (back_eq hbranch (.begin o.block) 2).1 o.layout
  refine ((h.on_bench hg.scratch.subset).emit fun l hl => ?_).openBlock hblock fun l hl => ?_
  · obtain rfl : l = .begin o.block := by
      simpa [hslot, Instruction.jump, Instruction.copy] using hl
    exact hblock _ (by simp [blockLabels])
  · obtain rfl : l = .finish o.block := by simpa [hbottom] using hl
    exact hblock _ (by simp [blockLabels])

lemma Labelled.after (h : s.Labelled P) (hs : s.Fine) {block : Block} (after : After block s s')
    (hblocks : ∀ o ∈ s'.blocks, ∀ l ∈ blockLabels o.block, P l) : s'.Labelled P := by
  cases after with
  | done grows => exact h.on_bench grows.scratch.subset
  | @orElse other b grows =>
    have hother : ∀ l ∈ blockLabels other, P l := hblocks _ List.mem_cons_self
    refine ((h.on_bench grows.scratch.subset).emit fun l hl => ?_).openBlock hother
      (Code.labelled_of_tags_eq_nil rfl)
    obtain rfl : l = .begin other := by simpa [Instruction.jump, Instruction.copy] using hl
    exact hother _ (by simp [blockLabels])
  | again r =>
    obtain ⟨hg, -, hbranch, hplain⟩ := r.plain hs.sane
    refine (h.on_bench hg.scratch.subset).emit (Code.labelled_of_tags_eq_nil ?_)
    rw [Code.tags_append, hplain.tags, tags_branchTo hbranch]
    rfl
  | leave => exact ⟨h.program, h.calls, h.blocks, h.frames⟩

lemma Labelled.close (h : s.Labelled P) (hs : s.Fine) (c : Closes s)
    (hnew : ∀ o ∈ c.inner.blocks, ∀ l ∈ blockLabels o.block, P l) : c.session.Labelled P := by
  have hold := h.blocks
  rw [c.open_eq, List.forall_mem_cons] at hold
  have hbraced : (braced s c.rest c.blocks c.trailer).Labelled P :=
    ⟨h.program.append hold.1.2, h.calls, hold.2, h.frames⟩
  have hinner := hbraced.after (c.fine_braced hs) c.after hnew
  rw [show c.session = closed c.block c.inner from c.tagged.symm]
  unfold closed
  split
  · exact hinner
  · exact hinner.tagLast (hold.1.1 _ (by simp [blockLabels]))

lemma Labelled.subroutine (h : s.Labelled P) (o : OpensSub s)
    (hblock : ∀ l ∈ blockLabels o.block, P l) : o.session.Labelled P := by
  obtain ⟨temp, htemp, hcode⟩ := o.exists_temp
  have hscratch : s.bench.scratch.addresses ⊆ o.left.scratch.addresses :=
    List.Subset.trans o.grows.scratch.subset o.grows_left.1.scratch.subset
  have hskip : Code.Labelled P
      [.jump (.label (.finish o.block) 1), Instruction.nop.tagged (.begin o.block)] := by
    intro l hl
    obtain rfl : l = .begin o.block := by simpa [Instruction.jump, Instruction.copy] using hl
    exact hblock _ (by simp [blockLabels])
  have hbody := ((h.on_bench hscratch).emit hskip).openBlock hblock
    (Code.labelled_of_tags_eq_nil (p := o.code) (by rw [hcode]; rfl))
  refine ⟨hbody.program, hbody.calls, hbody.blocks, fun name frame hframe => ?_⟩
  rw [Scope.frame?_within] at hframe
  split at hframe
  · rename_i heq
    obtain rfl := Option.some.inj hframe
    subst heq
    obtain ⟨hname, hblock'⟩ := o.declared.name_eq
    exact ⟨hname, ⟨o.params, o.frame, hblock' ▸ o.declared, rfl, rfl⟩, temp, htemp, hcode⟩
  · exact hbody.frames name frame hframe

/-- A statement, right or wrong, keeps a property of labels that the products of assignments and the
blocks that are open after it have. -/
theorem Labelled.effect (h : s.Labelled P) (hs : s.Fine) (he : Effect s s')
    (hproduct : ∀ code b, startsAssignment (Tokens.peek s.bench.tokens) = true →
      Yields (Assignment.lower s.scope) s.bench code b → Code.Labelled P code)
    (hblocks : ∀ o ∈ s'.blocks, ∀ l ∈ blockLabels o.block, P l) : s'.Labelled P := by
  cases he with
  | idle grows => exact h.on_bench grows.scratch.subset
  | declare d =>
    exact ⟨h.program, h.calls, h.blocks, (h.on_bench d.grows.scratch.subset).frames⟩
  | assign hnext lower =>
    have hg := ((Assignment.careful_lower s.scope).grows hs.sane lower).2
    exact (h.on_bench hg.scratch.subset).emit (hproduct _ _ hnext lower)
  | openFaulty grows =>
    exact (h.on_bench grows.scratch.subset).openBlock (hblocks _ List.mem_cons_self)
      (Code.labelled_of_tags_eq_nil rfl)
  | openIf o => exact h.openIf hs o (hblocks _ List.mem_cons_self)
  | openWhile o => exact h.openWhile hs o (hblocks _ List.mem_cons_self)
  | openDo o =>
    have hblock : ∀ l ∈ blockLabels o.block, P l := hblocks _ List.mem_cons_self
    have htagged := (h.on_bench o.grows.scratch.subset).tagLast
      (hblock (.begin o.block) (by simp [blockLabels]))
    rw [o.tagged] at htagged
    exact htagged.openBlock hblock (Code.labelled_of_tags_eq_nil rfl)
  | close c => exact h.close hs c hblocks
  | subroutine o => exact h.subroutine o (hblocks _ List.mem_cons_self)
  | @leave name names b grows =>
    refine (h.on_bench grows.scratch.subset).emit (Code.labelled_of_tags_eq_nil ?_)
    rcases hframe : s.scope.frame? name with _ | frame
    · rfl
    · obtain ⟨temp, -, hepilogue⟩ := (h.frames name frame hframe).epilogue
      rw [Option.map_some, Option.getD_some, hepilogue]
      rfl
  | call q =>
    refine ⟨h.program, List.forall_mem_cons.mpr ⟨by simp [nextCall], h.calls⟩, h.blocks,
      fun name frame hframe => ?_⟩
    obtain ⟨first, hfirst, rfl | ⟨param, type, rfl⟩⟩ := q.frame? hframe
    · exact h.frames name _ hfirst
    · exact (h.frames name first hfirst).setType param type

lemma Labelled.expand (h : s.Labelled P) (hs : s.Fine) {c : CallSite} {calls : List CallSite}
    (hcalls : s.calls = c :: calls)
    (hreturn : ∀ name frame id, s.scope.frame? name = some frame → s.bench.nextId ≤ id →
      id < ((Call.compile s.scope c).on s.bench).2.nextId → P (.callReturn id frame.name)) :
    (s.expand c calls).Labelled P := by
  have hcompiles := Call.compiles_compile s.scope c s.bench
  obtain ⟨-, hg⟩ := hcompiles.grows hs.sane
  have hold := h.calls
  rw [hcalls, List.forall_mem_cons] at hold
  have hcode : Code.Labelled P ((Call.compile s.scope c).on s.bench).1 := by
    generalize (Call.compile s.scope c).on s.bench = r at hcompiles hreturn
    obtain ⟨code, b⟩ := r
    cases hcompiles with
    | lowered p =>
      obtain ⟨hs₀, -⟩ := Call.grows_bench c hs.sane
      have hframe : s.scope.frame? (Tokens.peek p.named.tokens) = some p.frame := p.frame?_eq
      refine Code.Labelled.tagLast (fun l hl => ?_) hold.1
      rw [p.tags_code hs₀ (h.frames _ _ hframe), List.mem_singleton] at hl
      rw [hl]
      exact hreturn _ _ _ hframe (p.nextId_le hs₀).1 (p.nextId_le hs₀).2
    | rejected => exact (Code.labelled_of_tags_eq_nil (p := [.nop]) rfl).tagLast hold.1
  refine ⟨?_, hold.2, h.blocks, (h.on_bench hg.scratch.subset).frames⟩
  exact ((h.program.of_sublist (List.take_sublist _ _)).append hcode).append
    (h.program.of_sublist (List.drop_sublist _ _))

end
end Session
end CogolToolchain
