import CogolToolchain.Proofs.Code.Listing
import CogolToolchain.Proofs.Compile.Labelling
import CogolToolchain.Proofs.Peephole.Threading
import CogolToolchain.Proofs.Source.Lexer

/-!
The labels of a compiled program go on one line each.

The text of a label is made of fixed words, numbers, and words of the source: the suffix of a block
or the name of a subroutine. No word of the source has a newline in it, so no label has one, whether
the source has errors or not. What is printed is therefore what is read back, labels apart
(`Listing.round_trip`).
-/

namespace CogolToolchain

open Work Attempt

/-! ### Labels on one line -/

lemma OneLine.append {p q : String} (hp : OneLine p) (hq : OneLine q) : OneLine (p ++ q) := by
  simpa [OneLine, String.toList_append] using ⟨hp, hq⟩

lemma oneLine_toString (n : Nat) : OneLine (toString n) := fun h =>
  (Listing.separators_of_isField (Listing.isField_toString (n : Int) _ h)).2.2.2 rfl

lemma oneLine_title (kind : BlockKind) : OneLine kind.title := by
  cases kind <;> simp [OneLine, BlockKind.title]

lemma Block.oneLine_name {block : Block} (h : OneLine block.suffix) : OneLine block.name :=
  ((oneLine_title block.kind).append (oneLine_toString block.id)).append h

lemma Label.isPlain_begin {block : Block} (h : OneLine block.suffix) : (begin block).IsPlain :=
  OneLine.append (by simp [OneLine]) (Block.oneLine_name h)

lemma Label.isPlain_finish {block : Block} (h : OneLine block.suffix) : (finish block).IsPlain :=
  OneLine.append (by simp [OneLine]) (Block.oneLine_name h)

lemma Label.isPlain_callReturn (id : Nat) {sub : String} (h : OneLine sub) :
    (callReturn id sub).IsPlain :=
  ((OneLine.append (by simp [OneLine]) (oneLine_toString id)).append (by simp [OneLine])).append h

lemma Label.isPlain_multiplyEnd (id : Nat) : (multiplyEnd id).IsPlain :=
  OneLine.append (by simp [OneLine]) (oneLine_toString id)

lemma Block.Spelt.oneLine {block : Block} {tokens : List Token} (h : block.Spelt tokens)
    (htokens : ∀ t ∈ tokens, OneLine t) : OneLine block.suffix := by
  obtain ⟨words, hwords, hsuffix⟩ := h
  intro hmem
  rw [hsuffix, String.toList_join, List.mem_flatMap] at hmem
  obtain ⟨_, hword, hmem⟩ := hmem
  obtain ⟨w, hw, rfl⟩ := List.mem_map.mp hword
  exact OneLine.append (by simp [OneLine]) (htokens w (hwords hw)) hmem

def Code.IsPlain (code : Code) : Prop := ∀ l ∈ Code.tags code, l.IsPlain

/-! ### Sessions -/

namespace Session

open Statement Build

/-- All labels, those of the open blocks and those of calls to come included, go on one line. -/
structure Printable (s : Session) : Prop where
  program : s.program.IsPlain
  calls : ∀ c ∈ s.calls, ∀ l ∈ c.tags, l.IsPlain
  blocks : ∀ b ∈ s.blocks, OneLine b.block.suffix ∧ b.trailer.IsPlain
  frames : ∀ name frame, s.scope.frame? name = some frame →
    OneLine name ∧ frame.Sound s.bench.scratch.addresses name
  preamble : Code.tags s.preamble = []

/-- The words of the source that labels are made of go on one line, and initial values have no
labels. -/
structure Worded (s : Session) : Prop where
  suffixes : ∀ o ∈ s.blocks, OneLine o.block.suffix
  names : ∀ name frame, s.scope.frame? name = some frame → OneLine name
  preamble : Code.tags s.preamble = []

section

variable {s s' : Session}

lemma Printable.on_bench (h : s.Printable) {b : Workbench}
    (hscratch : s.bench.scratch.addresses ⊆ b.scratch.addresses) :
    Printable { s with bench := b } :=
  ⟨h.program, h.calls, h.blocks, fun name frame hframe =>
    ⟨(h.frames name frame hframe).1, (h.frames name frame hframe).2.mono hscratch⟩, h.preamble⟩

lemma isPlain_blockLabels {block : Block} (h : OneLine block.suffix) :
    ∀ l ∈ blockLabels block, l.IsPlain := by
  simpa [blockLabels] using ⟨Label.isPlain_begin h, Label.isPlain_finish h⟩

lemma Printable.labelled (h : s.Printable) : s.Labelled Label.IsPlain where
  program := h.program
  calls := h.calls
  blocks o ho := ⟨isPlain_blockLabels (h.blocks o ho).1, (h.blocks o ho).2⟩
  frames name frame hframe := (h.frames name frame hframe).2

lemma Printable.worded (h : s.Printable) : s.Worded where
  suffixes o ho := (h.blocks o ho).1
  names name frame hframe := (h.frames name frame hframe).1
  preamble := h.preamble

lemma isPlain_assignment {code : Code} {b : Workbench} (hs : s.bench.Sane)
    (lower : Yields (Assignment.lower s.scope) s.bench code b) : code.IsPlain := by
  obtain ⟨dest, address, b₁, middle, last, -, rfl, hmiddle, hlast⟩ :=
    Assignment.ending_of_lower hs lower
  refine Code.Labelled.append (Code.labelled_of_tags_eq_nil hmiddle.tags) ?_
  cases hlast with
  | nothing => exact Code.labelled_of_tags_eq_nil rfl
  | store hdest htags => exact Code.labelled_of_tags_eq_nil (by simp [htags])
  | @product lhs rhs target counter addend id =>
    intro l hl
    obtain rfl : l = .multiplyEnd id := by
      simpa [Assignment.productCode, Instruction.copy, Instruction.jump] using hl
    exact Label.isPlain_multiplyEnd id

lemma Worded.after (h : s.Worded) (htokens : ∀ t ∈ s.bench.tokens, OneLine t) {block : Block}
    (after : After block s s') : s'.Worded := by
  cases after with
  | done | again | leave => exact ⟨h.suffixes, h.names, h.preamble⟩
  | orElse _ _ _ _ _ hsuffix =>
    exact ⟨List.forall_mem_cons.mpr ⟨hsuffix.oneLine htokens, h.suffixes⟩, h.names, h.preamble⟩

lemma Worded.effect (h : s.Worded) (htokens : ∀ t ∈ s.bench.tokens, OneLine t) (he : Effect s s') :
    s'.Worded := by
  have hopen : ∀ {block : Block}, block.Spelt s.bench.tokens →
      ∀ {trailer}, ∀ o ∈ { block := block, trailer } :: s.blocks, OneLine o.block.suffix :=
    fun hsuffix => List.forall_mem_cons.mpr ⟨hsuffix.oneLine htokens, h.suffixes⟩
  cases he with
  | idle | assign | leave => exact ⟨h.suffixes, h.names, h.preamble⟩
  | declare d =>
    exact ⟨h.suffixes, h.names, by simp [h.preamble, (d.declarator.sets_stores d.name _).tags]⟩
  | openFaulty _ _ hsuffix => exact ⟨hopen hsuffix, h.names, h.preamble⟩
  | openIf o => exact ⟨hopen o.spelt, h.names, h.preamble⟩
  | openWhile o => exact ⟨hopen o.spelt, h.names, h.preamble⟩
  | openDo o => exact ⟨hopen o.spelt, h.names, h.preamble⟩
  | close c =>
    have hold := h.suffixes
    rw [c.open_eq, List.forall_mem_cons] at hold
    have hbraced : (braced s c.rest c.blocks c.trailer).Worded := ⟨hold.2, h.names, h.preamble⟩
    have hinner := hbraced.after (fun t ht => htokens t (c.tokens.subset ht)) c.after
    exact ⟨hinner.suffixes, hinner.names, hinner.preamble⟩
  | subroutine o =>
    have hname : OneLine o.name :=
      (List.mem_cons.mp o.word).elim (fun heq => by simp [heq, OneLine]) (htokens o.name)
    have hsuffix : OneLine o.block.suffix := OneLine.append (by simp [OneLine]) hname
    refine ⟨List.forall_mem_cons.mpr ⟨hsuffix, h.suffixes⟩, fun name frame hframe => ?_,
      h.preamble⟩
    rw [Scope.frame?_within] at hframe
    split at hframe
    · rename_i heq
      exact heq ▸ hname
    · exact h.names name frame hframe
  | call q =>
    refine ⟨h.suffixes, fun name frame hframe => ?_, h.preamble⟩
    obtain ⟨first, hfirst, -⟩ := q.frame? hframe
    exact h.names name first hfirst

/-- A statement, right or wrong, adds labels that go on one line. -/
theorem Printable.effect (h : s.Printable) (hs : s.Fine) (htokens : ∀ t ∈ s.bench.tokens, OneLine t)
    (he : Effect s s') : s'.Printable := by
  have hwords := h.worded.effect htokens he
  have hlabels := h.labelled.effect hs he (fun code b _ lower => isPlain_assignment hs.sane lower)
    fun o ho => isPlain_blockLabels (hwords.suffixes o ho)
  exact ⟨hlabels.program, hlabels.calls,
    fun o ho => ⟨hwords.suffixes o ho, (hlabels.blocks o ho).2⟩,
    fun name frame hframe => ⟨hwords.names name frame hframe, hlabels.frames name frame hframe⟩,
    hwords.preamble⟩

lemma Printable.expand (h : s.Printable) (hs : s.Fine) {c : CallSite} {calls : List CallSite}
    (hcalls : s.calls = c :: calls) : (s.expand c calls).Printable := by
  have hlabels := h.labelled.expand hs hcalls fun name frame id hframe _ _ =>
    Label.isPlain_callReturn id
      ((h.frames name frame hframe).2.name_eq ▸ (h.frames name frame hframe).1)
  exact ⟨hlabels.program, hlabels.calls, h.blocks,
    fun name frame hframe => ⟨(h.frames name frame hframe).1, hlabels.frames name frame hframe⟩,
    h.preamble⟩

end

lemma printable_started (settings : Settings) (source : String) :
    (started settings source).Printable where
  program := by
    intro l hl
    obtain rfl : l = .preloadCallStack := by
      simpa [started, new, preloadCallStack, Instruction.copy] using hl
    decide
  calls := by simp [started, new]
  blocks := by simp [started, new]
  frames := by simp [started, new, Scope.frame?]
  preamble := rfl

/-- The labels of a compilation go on one line, whatever the source is. -/
theorem isPlain_compiled (settings : Settings) (source : String) :
    (compiled settings source).joined.IsPlain := by
  obtain ⟨-, h⟩ := compiled_invariant (printable_started settings source)
    (fun s b _ _ hg h => h.on_bench hg.scratch.subset)
    (fun s s' hs _ _ hwords he h =>
      h.effect hs (fun t ht => Lexer.oneLine_tokenize source t (hwords ht)) he)
    (fun s c calls hs hcalls h => h.expand hs hcalls)
  rw [compiled_eq_expanded]
  generalize expanded settings source = s at h ⊢
  exact Code.Labelled.append (Code.labelled_of_tags_eq_nil h.preamble) h.program

end Session

/-! ### The finished program -/

lemma Resolver.tags_code (r : Resolver) (code : Code) :
    (r.code code).map Instruction.tags = code.map Instruction.tags := by
  rw [Resolver.code, List.map_map]
  rfl

namespace Peephole

lemma tags_step (t : Threading) (k i : Nat) :
    (t.step i).code[k]?.map Instruction.tags = t.code[k]?.map Instruction.tags := by
  rcases t.step_cases i with heq | ⟨n, tags, slot, landing, -, -, hjump, hslot, -, -, heq⟩
  · rw [heq]
  · rw [heq]
    simp only [Array.getElem?_setIfInBounds]
    split
    · rename_i hk
      subst hk
      split <;> simp_all
    · split
      · rename_i hk
        subst hk
        split <;> simp_all
      · rfl

lemma tags_optimize (code : Code) (landings : List Nat) :
    (optimize code landings).map Instruction.tags = code.map Instruction.tags := by
  have hrun : ∀ (places : List Nat) (t : Threading) (k : Nat),
      (places.foldl Threading.step t).code[k]?.map Instruction.tags =
        t.code[k]?.map Instruction.tags := by
    intro places
    induction places with
    | nil => exact fun _ _ => rfl
    | cons i places ih => exact fun t k => (ih (t.step i) k).trans (tags_step t k i)
  refine List.ext_getElem? fun k => ?_
  rw [List.getElem?_map, optimize, Array.getElem?_toList, hrun]
  simp [Option.map_map, Function.comp_def]

end Peephole

/-- The labels of a compiled program go on one line. -/
theorem isPlain_compile (settings : Settings) (source : String) :
    ∀ i ∈ (compile settings source).code, ∀ tag ∈ i.tags, tag.IsPlain := by
  have hplain := Session.isPlain_compiled settings source
  generalize hs : Session.compiled settings source = s at hplain
  have hcode : (compile settings source).code = s.finish.code := by
    rw [← hs]
    rfl
  have htags : ∃ code, s.finish.code = .nop :: code ∧
      code.map Instruction.tags = s.joined.map Instruction.tags := by
    refine ⟨_, rfl, ?_⟩
    split
    · rw [Peephole.tags_optimize, Resolver.tags_code]
    · rw [Resolver.tags_code]
  obtain ⟨code, hfinish, hmap⟩ := htags
  intro i hi tag htag
  rw [hcode, hfinish, List.mem_cons] at hi
  rcases hi with rfl | hi
  · simp at htag
  · have hmem : i.tags ∈ s.joined.map Instruction.tags := hmap ▸ List.mem_map_of_mem hi
    obtain ⟨j, hj, heq⟩ := List.mem_map.mp hmem
    exact hplain tag (List.mem_flatMap.mpr ⟨j, hj, heq ▸ htag⟩)

/-- Code that is listed, with its labels or without them, is read back without labels, and the
machine that is about to run it is the same; the labels of a compiled program cannot get in the way;
and what is read from any text is read back when it is listed again. -/
theorem Listing.round_trip :
    (∀ (annotate : Bool) (code : Code), (∀ i ∈ code, i.Fits) →
      (∀ i ∈ code, ∀ tag ∈ i.tags, '\n' ∉ tag.text.toList) →
      read (render annotate code) = .ok (code.map Instruction.untagged) ∧
      ∃ machine, Machine.load (code.map Instruction.untagged) = .ok machine ∧
        Machine.load code = .ok machine) ∧
    (∀ (settings : Settings) (source : String), ∀ i ∈ (compile settings source).code,
      ∀ tag ∈ i.tags, '\n' ∉ tag.text.toList) ∧
    ∀ (text : String) (code : Code), read text = .ok code →
    read (render false code) = .ok code := by
  refine ⟨fun annotate code hfits htags =>
    ⟨read_render annotate hfits htags, Machine.boot code .zero, Machine.load_untagged hfits,
      Machine.load_eq fun i hi => (hfits i hi).isResolved⟩,
    isPlain_compile, fun text code hread => ?_⟩
  have hfits := fits_of_read hread
  have huntagged : code.map Instruction.untagged = code := by
    refine (List.map_congr_left fun i hi => ?_).trans (List.map_id code)
    rw [Instruction.untagged, ← (hfits i hi).2]
    rfl
  rw [read_render false (fun i hi => (hfits i hi).1)
    (fun i hi tag htag => by simp [(hfits i hi).2] at htag), huntagged]

/-- A loop whose block has a suffix in quotes, with a point, a semicolon and blanks in it. -/
def quotedSuffix : String := "my i; while (i < 2) \"a. b; \" \x7b i += 1; \x7d"

/-- There is a label with a semicolon in it, and the annotated listing is read back all the same. -/
theorem Listing.round_trip_quotedSuffix :
    (∃ i ∈ (compile {} quotedSuffix).code, ∃ tag ∈ i.tags, ';' ∈ tag.text.toList) ∧
    read (render true (compile {} quotedSuffix).code) =
      .ok ((compile {} quotedSuffix).code.map Instruction.untagged) := by
  refine ⟨by decide +kernel, ?_⟩
  exact (round_trip.1 true _ (by decide +kernel) (round_trip.2.1 {} quotedSuffix)).1

end CogolToolchain
