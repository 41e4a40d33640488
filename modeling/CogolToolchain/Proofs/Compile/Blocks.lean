import CogolToolchain.Proofs.Compile.Linking
import CogolToolchain.Proofs.Compile.MemoryMap
import CogolToolchain.Proofs.Peephole.Steady

/-!
The blocks that a finished program is made of.

Every item of the source becomes one block of the program (`Session.Blocks`), so that the code of a
call starts where the blocks before it end. In a program without errors the block of a call is its
lowered code (`Session.Blocks.call`). The peephole pass leaves such code in place, so it runs as it
was emitted (`Session.Complete.exists_stands`).
-/

namespace CogolToolchain

open Work Attempt Machine

/-- The program as the machine holds it, without the instruction that does nothing at its start. -/
def Program.words (p : Program) : List WordInstruction := p.code.tail.map Instruction.word

namespace Session

open Statement Build

/-! ### Blocks -/

/-- The program is made of these blocks, one for each item of the source. -/
structure Blocks (settings : Settings) (source : String) (blocks : List Code) : Prop where
  becomes : List.Forall₂ (Item.Becomes (stated settings source).scope (stated settings source).bench
    (expanded settings source).bench) (stated settings source).items blocks
  program : (compiled settings source).program = blocks.flatten

/-- The place in the program where statement number `n` starts. -/
def place (settings : Settings) (source : String) (blocks : List Code) (n : Nat) : Nat :=
  (compiled settings source).preamble.length +
    (blocks.take (after settings source n).items.length).flatten.length

variable {settings : Settings} {source : String} {blocks : List Code} {n : Nat}

lemma program_declareCallStack (s : Session) : (declareCallStack.on s).2.program = s.program := rfl

theorem exists_blocks (settings : Settings) (source : String) :
    ∃ blocks, Blocks settings source blocks := by
  have hstated := fine_stated settings source
  obtain ⟨b, hreport, hsane, hgrows⟩ := on_reportBlocks (stated settings source).blocks hstated.sane
  have hexpanded : expanded settings source = (((stated settings source).calls.forM insertCall).on
      { stated settings source with bench := b, calls := [] }).2 := by
    change (reportOpenBlocks.on (stated settings source)).2 = _ at hreport
    rw [expanded, hreport]
    rfl
  have hcompiled : (compiled settings source).program = (expanded settings source).program := by
    rw [compiled_eq_expanded, program_declareCallStack]
  rw [hexpanded] at hcompiled
  obtain ⟨blocks, hblocks, hprogram⟩ := becomes_insertCalls (stated settings source).calls
    (s := { stated settings source with bench := b, calls := [] }) hsane hgrows hstated.placed
    (List.append_nil _).symm
  refine ⟨blocks, ?_, ?_⟩
  · rw [hexpanded]
    exact hblocks
  · rw [hcompiled, hprogram, List.append_nil]

lemma exists_lowering_of_becomes {scope : Scope} {last final : Workbench}
    {c : CallSite} {code : Code} (h : (Item.call c).Becomes scope last final code)
    (hclean : final.Clean) :
    ∃ b b₁ : Workbench, ∃ p : Call.Lowering (Call.scope c scope) c (Call.bench c b) b₁,
      b.Sane ∧ last.Grows b ∧ b₁.Grows final ∧ code = Code.tagLast c.tags p.code := by
  cases h with
  | @call _ b hsane hgrows hleft =>
    have hcompiles := Call.compiles_compile scope c b
    rw [Call.compile_eq_body] at hcompiles
    generalize hcode : Code.tagLast c.tags (Call.body scope c b) = code at hcompiles
    generalize ((Call.compile scope c).on b).2 = b' at hcompiles hleft
    cases hcompiles with
    | @lowered b₁ p => exact ⟨b, b₁, p, hsane, hgrows, (b₁.grows_tokens _).trans hleft, rfl⟩
    | @rejected b₁ _ hfault =>
      exact absurd (((b₁.grows_tokens _).trans hleft).clean hclean) hfault

lemma enriches_tagLast (labels : List Label) (code rest : Code) :
    Enriches (code.map .instruction) ((Code.tagLast labels code ++ rest).map .instruction) := by
  rcases List.eq_nil_or_concat code with rfl | ⟨code, i, rfl⟩
  · exact fun n x hx => by simp at hx
  · rw [List.concat_eq_append, tagLast_concat, List.map_append, List.map_append, List.map_append]
    have htagged := enriches_tagLastItem labels (code.map Item.instruction ++ [.instruction i])
    rw [tagLastItem_concat] at htagged
    exact htagged.trans (enriches_append _ _)

lemma Blocks.getElem? (h : Blocks settings source blocks) {k : Nat} {x : Item}
    (hx : (after settings source n).items[k]? = some x) : ∃ labels code,
      (x.tag labels).Becomes (stated settings source).scope (stated settings source).bench
        (expanded settings source).bench code ∧ blocks[k]? = some code := by
  obtain ⟨labels, hlabels⟩ := (grows_stated n).items k x hx
  obtain ⟨hlength, hbecomes⟩ := List.forall₂_iff_get.mp h.becomes
  obtain ⟨hlt, hget⟩ := List.getElem?_eq_some_iff.mp hlabels
  have hblock := hbecomes _ hlt (hlength ▸ hlt)
  rw [List.get_eq_getElem, hget, List.get_eq_getElem] at hblock
  exact ⟨labels, _, hblock, List.getElem?_eq_getElem (hlength ▸ hlt)⟩

lemma Blocks.joined_drop (h : Blocks settings source blocks) (k : Nat) :
    (compiled settings source).joined.drop
      ((compiled settings source).preamble.length + (blocks.take k).flatten.length) =
      (blocks.drop k).flatten := by
  have hsplit : blocks.flatten = (blocks.take k).flatten ++ (blocks.drop k).flatten := by
    rw [← List.flatten_append, List.take_append_drop]
  rw [joined, h.program, List.drop_append, Nat.add_sub_cancel_left,
    List.drop_eq_nil_of_le (Nat.le_add_right _ _), List.nil_append, hsplit, List.drop_left]

lemma length_take_succ {k : Nat} {code : Code} (h : blocks[k]? = some code) :
    (blocks.take (k + 1)).flatten.length = (blocks.take k).flatten.length + code.length := by
  rw [List.take_add_one, h, Option.toList_some, List.flatten_append, List.length_append,
    List.flatten_singleton]

lemma Blocks.place_eq (h : Blocks settings source blocks)
    (hcalls : (after settings source n).calls = []) : place settings source blocks n =
      (compiled settings source).preamble.length + (after settings source n).program.length := by
  have hitems : (after settings source n).items =
      (after settings source n).program.map .instruction := by rw [items, hcalls, itemsOf]
  have htake : ∀ k ≤ (after settings source n).program.length,
      (blocks.take k).flatten.length = k := by
    intro k hk
    induction k with
    | zero => rfl
    | succ k ih =>
      obtain ⟨labels, code, hblock, hget⟩ := h.getElem? (n := n) (k := k)
        (by rw [hitems, List.getElem?_map, List.getElem?_eq_getElem hk]; rfl)
      cases hblock
      rw [length_take_succ hget, ih (by omega), List.length_singleton]
  rw [place, hitems, List.length_map, htake _ (Nat.le_refl _)]

/-- The block of a call in a program without errors is its lowered code. -/
theorem Blocks.call (h : Blocks settings source blocks)
    (hclean : (expanded settings source).bench.Clean)
    (hnext : Tokens.peek (after settings source n).bench.tokens = "call") :
    ∃ c : CallSite, c.tokens = (Tokens.splitStatement (after settings source n).bench.tokens).1 ∧
      c.enclosing = (after settings source n).scope.enclosing ∧ ∃ b b₁ : Workbench,
      ∃ p : Call.Lowering (Call.scope c (stated settings source).scope) c (Call.bench c b) b₁,
        b.Sane ∧ (stated settings source).bench.Grows b ∧
        b₁.Grows (expanded settings source).bench ∧
        place settings source blocks (n + 1) = place settings source blocks n + p.code.length ∧
        Enriches (p.code.map .instruction)
          (((compiled settings source).joined.drop (place settings source blocks n)).map
            .instruction) := by
  have hne : (after settings source n).bench.tokens.isEmpty = false := by
    rw [List.isEmpty_eq_false_iff]
    rintro hnil
    rw [hnil] at hnext
    exact absurd hnext (by decide)
  have hitems : (after settings source (n + 1)).items =
      (after settings source n).items ++ [.call (after settings source n).nextCall] := by
    rw [after_succ, hne, if_neg Bool.false_ne_true]
    exact items_compile_call hnext
  obtain ⟨labels, code, hblock, hget⟩ := h.getElem? (n := n + 1)
    (k := (after settings source n).items.length) (x := .call (after settings source n).nextCall)
    (by rw [hitems]; simp)
  obtain ⟨b, b₁, p, hsane, hgrows, hleft, rfl⟩ := exists_lowering_of_becomes hblock hclean
  refine ⟨_, rfl, rfl, b, b₁, p, hsane, hgrows, hleft, ?_, ?_⟩
  · rw [place, place, hitems, List.length_append, List.length_singleton, length_take_succ hget,
      length_tagLast, Nat.add_assoc]
  · obtain ⟨hlt, hget⟩ := List.getElem?_eq_some_iff.mp hget
    rw [place, h.joined_drop, List.drop_eq_getElem_cons hlt, List.flatten_cons, hget]
    exact enriches_tagLast _ _ _

/-! ### Where subroutines start -/

/-- Statement number `k` declares the subroutine `name`. -/
def Declares (settings : Settings) (source : String) (k : Nat) (name : String) : Prop :=
  (after settings source k).scope.frame? name = none ∧
    ((after settings source (k + 1)).scope.frame? name).isSome = true

lemma Declares.eq_of_frames {k m : Nat} {name : String} (h : Declares settings source k name)
    (hframes : ∀ j < (Lexer.tokenize source).1.length + 1,
      ((after settings source j).scope.frame? name).isSome = decide (m < j)) : k = m := by
  obtain ⟨hnone, hsome⟩ := h
  rcases Nat.lt_or_ge k (Lexer.tokenize source).1.length with hlt | hge
  · have hbefore := hframes k (by omega)
    have hafter := hframes (k + 1) (by omega)
    rw [hnone] at hbefore
    rw [hsome] at hafter
    have := of_decide_eq_true hafter.symm
    have := of_decide_eq_false hbefore.symm
    omega
  · -- the statements are at their end, and nothing is declared any more
    rw [after_eq_stated (Nat.le_succ_of_le hge), ← after_eq_stated hge, hnone] at hsome
    cases hsome

/-- A statement without errors leaves the subroutines as they are, but for the types of their
parameters, or declares a new one. -/
lemma frame?_effect {s s' : Session} (hs : s.Fine) (he : Effect s s') (hc : s'.bench.Clean)
    {name : String} {frame : Frame} (hframe : s'.scope.frame? name = some frame) :
    (∃ first, s.scope.frame? name = some first ∧ first.block = frame.block ∧
      ∀ params, first.Shaped name params → frame.Shaped name params) ∨
      (s.scope.frame? name = none ∧ s'.scope.enclosing = name :: s.scope.enclosing ∧
        (∃ i, s'.items.getLast? = some (.instruction i) ∧ .begin frame.block ∈ i.tags) ∧
        ∃ params, frame.Shaped name params ∧ WrittenParams s params) := by
  cases he with
  | idle | declare | assign | openFaulty | openIf | openWhile | openDo | leave =>
    exact .inl ⟨frame, hframe, rfl, fun _ => id⟩
  | close c =>
    have hsubs := (c.after.grows (c.fine_braced hs).sane).2
    exact .inl ⟨frame, (congrArg (List.lookup name) hsubs).symm.trans hframe, rfl, fun _ => id⟩
  | subroutine o =>
    obtain ⟨-, hnone, -, -⟩ := o.fresh_of_clean hc
    rw [Scope.frame?_within] at hframe
    split at hframe
    · rename_i heq
      obtain rfl := Option.some.inj hframe
      have hblock : o.frame.block = o.block := o.declared.name_eq.2
      refine .inr ⟨heq ▸ hnone, heq ▸ rfl, ⟨Instruction.nop.tagged (.begin o.block), ?_, ?_⟩,
        o.params, ?_, o.written (o.grows_left.1.clean hc)⟩
      · rw [items, itemsOf_append hs.placed]
        simp
      · show Label.begin o.frame.block ∈ _
        rw [hblock]
        exact List.mem_cons_self
      · subst heq
        exact ⟨o.declared.name_eq.1, o.frame, hblock ▸ o.declared, rfl, rfl⟩
    · exact .inl ⟨frame, hframe, rfl, fun _ => id⟩
  | call q =>
    obtain ⟨first, hfirst, rfl | ⟨param, type, rfl⟩⟩ := q.frame? hframe
    · exact .inl ⟨_, hfirst, rfl, fun _ => id⟩
    · exact .inl ⟨first, hfirst, rfl, fun _ h => h.setType param type⟩

/-- Every subroutine is declared by a statement, whose last instruction is where the subroutine
begins. It has the parameters that are written there. -/
lemma exists_declares (hc : (stated settings source).bench.Clean) {name : String} {frame : Frame}
    (hframe : (after settings source n).scope.frame? name = some frame) :
    ∃ k, Declares settings source k name ∧ (∃ i,
      (after settings source (k + 1)).items.getLast? = some (.instruction i) ∧
        .begin frame.block ∈ i.tags) ∧
      ∃ params, frame.Shaped name params ∧ WrittenParams (after settings source k) params := by
  induction n generalizing frame with
  | zero => cases hframe
  | succ n ih =>
    have hclean : (after settings source (n + 1)).bench.Clean := (grows_stated (n + 1)).clean hc
    have hnext := @after_succ settings source n
    by_cases hempty : (after settings source n).bench.tokens.isEmpty = true
    · rw [if_pos hempty] at hnext
      exact ih (hnext ▸ hframe)
    · rw [if_neg hempty] at hnext
      have heffect := effect_compile (@fine_after settings source n)
      rw [← hnext] at heffect
      rcases frame?_effect (fine_rested fine_after) heffect hclean hframe with
        ⟨first, hfirst, hblock, hshape⟩ | ⟨hnone, -, hbegin, params, hshape, hwritten⟩
      · obtain ⟨k, hdeclares, hbegin, params, hfirst, hwritten⟩ := ih hfirst
        exact ⟨k, hdeclares, hblock ▸ hbegin, params, hshape params hfirst, hwritten⟩
      · exact ⟨n, ⟨hnone, by rw [hframe]; rfl⟩, hbegin, params, hshape, hwritten⟩

/-- Control enters a subroutine at the code of the statement after its declaration. -/
theorem Blocks.body (h : Blocks settings source blocks)
    (hc : (compiled settings source).bench.Clean) {name : String} {frame : Frame}
    (hframe : (stated settings source).scope.frame? name = some frame) :
    ∃ k entry, Declares settings source k name ∧
      (compiled settings source).resolver.labels.lookup (.begin frame.block) = some entry ∧
      entry + 1 = place settings source blocks (k + 1) ∧
      ∃ params, frame.Shaped name params ∧ WrittenParams (after settings source k) params := by
  rw [← after_eq_stated (Nat.le_refl _)] at hframe
  obtain ⟨k, hdeclares, ⟨i, hlast, hbegin⟩, hparams⟩ := exists_declares (clean_stated hc) hframe
  rw [List.getLast?_eq_getElem?] at hlast
  generalize hj : (after settings source (k + 1)).items.length - 1 = j at hlast
  have hlength : (after settings source (k + 1)).items.length = j + 1 := by
    have := (List.getElem?_eq_some_iff.mp hlast).1
    omega
  obtain ⟨labels, code, hblock, hget⟩ := h.getElem? hlast
  cases hblock
  obtain ⟨hlt, hget'⟩ := List.getElem?_eq_some_iff.mp hget
  refine ⟨k, (compiled settings source).preamble.length + (blocks.take j).flatten.length, hdeclares,
    (complete_compiled hc).lookup_of_mem (i := { i with tags := i.tags ++ labels }) ?_ ?_, ?_,
    hparams⟩
  · rw [← Nat.add_zero (_ + _), ← List.getElem?_drop, h.joined_drop, List.drop_eq_getElem_cons hlt,
      hget', List.flatten_cons]
    rfl
  · exact List.mem_append_left _ hbegin
  · rw [place, hlength, length_take_succ hget, List.length_singleton, Nat.add_assoc]

/-! ### The code in the finished program -/

lemma words_finish (s : Session) : s.finish.words =
    if s.settings.optimize then
      (Peephole.optimize (s.resolver.code s.joined) (s.resolver.landings s.joined)).map
        Instruction.word
    else s.resolver.words s.joined := by
  rw [Program.words, finish]
  split <;> rfl

section

variable {s : Session} {part : Code} {k : Nat}

lemma Complete.stands_part (h : s.Complete)
    (hpart : Enriches (part.map .instruction) ((s.joined.drop k).map .instruction))
    (hne : part ≠ []) : s.resolver.Stands (s.resolver.words s.joined) k part := by
  have hlength : k ≤ s.joined.length := by
    have hle := hpart.length_le
    have hpos := List.length_pos_iff.mpr hne
    simp only [List.length_map, List.length_drop] at hle
    omega
  have hall := h.stands
  rw [← List.take_append_drop k s.joined, Resolver.stands_append] at hall
  have hstands := hall.2.of_enriches hpart
  rwa [List.length_take, Nat.min_eq_left hlength, Nat.zero_add, List.take_append_drop] at hstands

/-- Steady code that was emitted does in the finished program what it does where it stands. -/
theorem Complete.exists_stands (h : s.Complete)
    (hpart : Enriches (part.map .instruction) ((s.joined.drop k).map .instruction))
    (hsteady : ∀ i ∈ part, i.IsSteady)
    (hlast : ∃ i, part.getLast? = some i ∧ i.opcode = .add) :
    ∃ prog, s.resolver.Stands prog k part ∧ s.finish.words.map execute = prog.map execute := by
  obtain ⟨last, hlast, hadd⟩ := hlast
  have hne : part ≠ [] := by
    rintro rfl
    simp at hlast
  have hstands := h.stands_part hpart hne
  rw [words_finish]
  split
  · -- the instructions as they are in the program, with all their labels
    have hget : ∀ {j : Nat} {i}, part[j]? = some i →
        ∃ labels, s.joined[k + j]? = some { i with tags := i.tags ++ labels } := by
      intro j i hi
      obtain ⟨labels, hj⟩ := hpart j (.instruction i) (by simp [hi])
      rw [List.getElem?_map, Option.map_eq_some_iff, List.getElem?_drop] at hj
      obtain ⟨i', hi', heq⟩ := hj
      exact ⟨labels, by rw [hi', Item.instruction.inj heq]⟩
    have hwords : (((s.resolver.code s.joined).drop k).take part.length).map Instruction.word =
        s.resolver.words part := by
      rw [List.map_take, List.map_drop]
      have hprefix := hstands.sits
      rw [Sits, List.prefix_iff_eq_take, Resolver.length_words] at hprefix
      exact hprefix.symm
    have hslice : ∀ (j : Nat) x,
        (((s.resolver.code s.joined).drop k).take part.length)[j]? = some x →
        ∃ i, part[j]? = some i ∧ x.opcode = i.opcode ∧ x.lhs = s.resolver.operand i.lhs := by
      intro j x hx
      have hj : j < part.length := by
        have hlt := (List.getElem?_eq_some_iff.mp hx).1
        rw [List.length_take] at hlt
        omega
      have hi : part[j]? = some part[j] := List.getElem?_eq_getElem hj
      obtain ⟨labels, hjoined⟩ := hget hi
      rw [List.getElem?_take_of_lt hj, List.getElem?_drop, Resolver.code, List.getElem?_map,
        hjoined] at hx
      cases hx
      exact ⟨_, hi, rfl, rfl⟩
    obtain ⟨prog, hsits, hprog⟩ := Peephole.exists_sits_optimize (s.resolver.landings s.joined)
      (List.take_prefix part.length ((s.resolver.code s.joined).drop k))
      (fun x hx => by
        obtain ⟨j, hj⟩ := List.getElem?_of_mem hx
        obtain ⟨i, hi, hop, hlhs⟩ := hslice j x hj
        rcases hsteady i (List.mem_of_getElem? hi) with hadd | ⟨hmlz, hconst⟩
        · exact .inl (hop.trans hadd)
        · exact .inr ⟨hop.trans hmlz, by rw [hlhs, hconst]; rfl⟩)
      (fun x hx => by
        rw [List.getLast?_eq_getElem?] at hx hlast
        have hlength := congrArg List.length hwords
        rw [List.length_map, Resolver.length_words] at hlength
        rw [hlength] at hx
        obtain ⟨i, hi, hop, -⟩ := hslice _ x hx
        rw [hop, ← hadd, Option.some.inj (hi.symm.trans hlast)])
    exact ⟨prog, ⟨hwords ▸ hsits, hstands.labels⟩, hprog⟩
  · exact ⟨_, hstands, rfl⟩

end

end Session
end CogolToolchain
