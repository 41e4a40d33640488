import CogolToolchain.Proofs.Compile.FrameSetup
import CogolToolchain.Proofs.Compile.Landing
import CogolToolchain.Proofs.Compile.Nesting

/-!
The flow of control in a finished program.

Every statement has its stretch of the program (`Session.Emitted`). Outside calls and returns the
code stays in the subroutine it belongs to: every jump of a statement goes to a place of the same
subroutine (`Session.Calm.lands`).
-/

namespace CogolToolchain

@[simp] lemma length_tagLastItem (labels : List Label) (xs : List Item) :
    (tagLastItem labels xs).length = xs.length := by
  rcases List.eq_nil_or_concat xs with rfl | ⟨ys, y, rfl⟩
  · rfl
  · simp [List.concat_eq_append, tagLastItem_concat]

lemma Item.Becomes.exists_last {scope : Scope} {last final : Workbench} {x : Item} {code : Code}
    (h : x.Becomes scope last final code) {l : Label} (hl : l ∈ x.tags) :
    ∃ front i, code = front ++ [i] ∧ l ∈ i.tags := by
  cases h with
  | instruction i => exact ⟨[], i, rfl, hl⟩
  | @call c b _ _ _ =>
    obtain ⟨front, i, hbody⟩ := (List.eq_nil_or_concat (Call.body scope c b)).resolve_left
      (Call.body_ne_nil scope c b)
    rw [hbody, List.concat_eq_append, tagLast_concat]
    exact ⟨front, _, rfl, List.mem_append_right _ hl⟩

lemma Statement.leaves_returnStatement {s : Session} (hs : s.Fine)
    (hc : (returnStatement.on s).2.bench.Clean) : ∃ name names b, s.bench.Grows b ∧
      s.scope.enclosing = name :: names ∧ (returnStatement.on s).2 = { s with
        bench := b
        program := s.program ++ ((s.scope.frame? name).map Frame.epilogue).getD [] } := by
  simp only [returnStatement, Build.on_bind, Build.on_discard, Build.on_work, Work.on_pop,
    Build.on_get] at hc ⊢
  generalize hb : ({ s.bench with tokens := Tokens.rest s.bench.tokens } : Workbench) = b at hc ⊢
  have hg : s.bench.Grows b := hb ▸ s.bench.grows_tokens _
  have hsane : b.Sane := hb ▸ hs.sane.congr rfl rfl
  split at hc
  · exact absurd hc (Attempt.not_clean_report (p := .returnOutside) rfl _ _)
  · rename_i name names henclosing
    simp only [henclosing]
    simp only [Build.on_bind, Build.on_work] at hc ⊢
    obtain ⟨-, hg₁⟩ := (Work.advances_eat ";" b).keeps hsane
    split at hc
    · rename_i heaten
      rw [if_pos heaten]
      exact ⟨name, names, _, hg.trans hg₁, rfl, rfl⟩
    · exact absurd hc (Attempt.not_clean_report (p := .returnValue) rfl _ _)

namespace Session

open Statement Build OpenBlock

variable {settings : Settings} {source : String} {blocks : List Code} {n : Nat}

/-! ### The sessions on the way -/

def around (settings : Settings) (source : String) (n : Nat) : List String :=
  (after settings source n).scope.enclosing

lemma effect_after (hne : (after settings source n).bench.tokens.isEmpty = false) :
    Effect (rested (after settings source n)) (after settings source (n + 1)) := by
  rw [after_succ, hne, if_neg Bool.false_ne_true]
  exact effect_compile fine_after

lemma nested_started (settings : Settings) (source : String) :
    (started settings source).Nested where
  trails := by simp [started, new]
  enclosing := rfl
  framed := by simp [started, new]

section

variable (hc : (stated settings source).bench.Clean)
include hc

lemma linked_after (n : Nat) : (after settings source n).Linked :=
  (linked_started settings source).compileAll n (fine_started settings source)
    ((grows_stated n).clean hc)

lemma linked_rested (n : Nat) : (rested (after settings source n)).Linked :=
  (linked_after hc n).idle (grows_rested _)

lemma nested_after (n : Nat) : (after settings source n).Nested := by
  induction n with
  | zero => exact nested_started settings source
  | succ n ih =>
    have hnested : (rested (after settings source n)).Nested :=
      ih.stay (grows_rested _).scratch (fun o ho => .inl ho) rfl rfl fun _ => id
    rcases hempty : (after settings source n).bench.tokens.isEmpty with _ | _
    · exact nested_effect (fine_rested fine_after) hnested (effect_after hempty)
        grows_after_succ.from_rested ((grows_stated _).clean hc)
    · rwa [after_succ, hempty, if_pos rfl]

lemma stacks_after_succ (n : Nat) :
    Stacks (rested (after settings source n)) (after settings source (n + 1)) := by
  rcases hempty : (after settings source n).bench.tokens.isEmpty with _ | _
  · exact stacks_effect (fine_rested fine_after) fine_after (linked_rested hc n)
      (effect_after hempty) ((grows_stated _).clean hc)
  · rw [after_succ, hempty, if_pos rfl]
    exact .keep rfl

lemma restacks_after (n : Nat) :
    Restacks (after settings source n).blocks (after settings source (n + 1)).blocks :=
  (stacks_after_succ hc n).restacks

lemma turns_after_succ (n : Nat) :
    Turns (stated settings source).bench.scratch.addresses
      (destination? (after settings source n)) (rested (after settings source n))
      (after settings source (n + 1)) := by
  rcases hempty : (after settings source n).bench.tokens.isEmpty with _ | _
  · have hnested : (rested (after settings source n)).Nested :=
      (nested_after hc n).stay (grows_rested _).scratch (fun o ho => .inl ho) rfl rfl fun _ => id
    refine (turns_effect (fine_rested fine_after) fine_after (linked_rested hc n) hnested
      (effect_after hempty) ((grows_stated _).clean hc) fun hnext => ?_).mono
      (grows_stated (n + 1)).scratch.subset
    exact if_pos hnext
  · rw [after_succ, hempty, if_pos rfl]
    exact .inner [] [] (by simp; rfl) rfl Code.tame_nil

lemma around_of_declares {name : String} (h : Declares settings source n name) :
    around settings source (n + 1) = name :: around settings source n := by
  obtain ⟨hnone, hsome⟩ := h
  rcases hempty : (after settings source n).bench.tokens.isEmpty with _ | _
  · obtain ⟨frame, hframe⟩ := Option.isSome_iff_exists.mp hsome
    rcases frame?_effect (fine_rested fine_after) (effect_after hempty) ((grows_stated _).clean hc)
      hframe with ⟨first, hfirst, -⟩ | ⟨-, henclosing, -⟩
    · have hfirst' : (after settings source n).scope.frame? name = some first := hfirst
      rw [hnone] at hfirst'
      cases hfirst'
    · exact henclosing
  · rw [after_succ, hempty, if_pos rfl, hnone] at hsome
    cases hsome

lemma around_eq {k m : Nat}
    (h : subs (after settings source k).blocks = subs (after settings source m).blocks) :
    around settings source k = around settings source m :=
  (nested_after hc k).enclosing_eq (nested_after hc m) h

end

lemma blocks_stated (hc : (compiled settings source).bench.Clean) :
    (stated settings source).blocks = [] :=
  (expanded_induction (P := fun _ => (stated settings source).blocks = []) (clean_expanded hc)
    (fun _ h => h) (fun _ _ _ _ _ h => h)).2.2

lemma grows_expanded (hc : (compiled settings source).bench.Clean) :
    (stated settings source).bench.Grows (expanded settings source).bench :=
  (expanded_induction (P := fun s => (stated settings source).bench.Grows s.bench)
    (clean_expanded hc) (fun _ _ => .refl _) (fun s c _ hs _ h =>
      h.trans ((Call.compiles_compile s.scope c s.bench).grows hs.sane).2)).2.2

/-! ### The stretches of the program -/

/-- The code of statement number `n` is its stretch of the program. -/
structure Emitted (settings : Settings) (source : String) (blocks : List Code)
    (n : Nat) (code : Code) : Prop where
  place_succ : place settings source blocks (n + 1) = place settings source blocks n + code.length
  enriches : Enriches (code.map .instruction)
    (((compiled settings source).joined.drop (place settings source blocks n)).map .instruction)

lemma Blocks.instruction (h : Blocks settings source blocks) {k : Nat} {i : Instruction}
    (hi : (after settings source n).items[k]? = some (.instruction i)) :
    ∃ labels, blocks[k]? = some [{ i with tags := i.tags ++ labels }] := by
  obtain ⟨labels, code, hbecomes, hget⟩ := h.getElem? hi
  cases hbecomes
  exact ⟨labels, hget⟩

lemma Blocks.emitted (h : Blocks settings source blocks) {code : Code} (labels : List Label)
    (hitems : (after settings source (n + 1)).items =
      tagLastItem labels ((after settings source n).items ++ code.map .instruction)) :
    Emitted settings source blocks n code := by
  have hlength : (after settings source (n + 1)).items.length =
      (after settings source n).items.length + code.length := by
    rw [hitems, length_tagLastItem, List.length_append, List.length_map]
  -- every instruction of the code is a block
  have hblock : ∀ {j : Nat} {i}, code[j]? = some i → ∃ tags,
      blocks[(after settings source n).items.length + j]? =
      some [{ i with tags := i.tags ++ tags }] := by
    intro j i hi
    obtain ⟨more, hmore⟩ := enriches_tagLastItem labels
      ((after settings source n).items ++ code.map .instruction)
      ((after settings source n).items.length + j) (.instruction i)
      (by rw [List.getElem?_append_right (Nat.le_add_right _ _), Nat.add_sub_cancel_left,
        List.getElem?_map, hi, Option.map_some])
    rw [← hitems] at hmore
    obtain ⟨tags, htags⟩ := h.instruction hmore
    exact ⟨more ++ tags, by rw [htags, List.append_assoc]⟩
  have htake : ∀ j ≤ code.length,
      (blocks.take ((after settings source n).items.length + j)).flatten.length =
        (blocks.take (after settings source n).items.length).flatten.length + j := by
    intro j hj
    induction j with
    | zero => rfl
    | succ j ih =>
      obtain ⟨tags, htags⟩ := hblock (List.getElem?_eq_getElem hj)
      rw [← Nat.add_assoc, length_take_succ htags, ih (by omega), List.length_singleton,
        Nat.add_assoc]
  refine ⟨?_, fun j x hx => ?_⟩
  · rw [place, hlength, htake _ (Nat.le_refl _), place, Nat.add_assoc]
  · rw [List.getElem?_map, Option.map_eq_some_iff] at hx
    obtain ⟨i, hi, rfl⟩ := hx
    obtain ⟨hlt, -⟩ := List.getElem?_eq_some_iff.mp hi
    obtain ⟨tags, htags⟩ := hblock hi
    obtain ⟨hlt', hget⟩ := List.getElem?_eq_some_iff.mp htags
    have hdrop := h.joined_drop ((after settings source n).items.length + j)
    rw [htake j hlt.le, List.drop_eq_getElem_cons hlt', hget, List.flatten_cons] at hdrop
    refine ⟨tags, ?_⟩
    rw [List.getElem?_map, List.getElem?_drop, place, Nat.add_assoc, ← List.head?_drop, hdrop]
    rfl

lemma Emitted.lookup {code : Code} (h : Emitted settings source blocks n code)
    (hc : (compiled settings source).bench.Clean) {j : Nat} {i : Instruction}
    (hi : code[j]? = some i) {l : Label} (hl : l ∈ i.tags) :
    (compiled settings source).resolver.labels.lookup l =
    some (place settings source blocks n + j) := by
  obtain ⟨tags, htags⟩ := h.enriches j (.instruction i)
    (by rw [List.getElem?_map, hi, Option.map_some])
  rw [List.getElem?_map, Option.map_eq_some_iff, List.getElem?_drop] at htags
  obtain ⟨i', hi', heq⟩ := htags
  refine (complete_compiled hc).lookup_of_mem hi' ?_
  rw [Item.instruction.inj heq]
  exact List.mem_append_left _ hl

lemma Blocks.lookup_last (h : Blocks settings source blocks)
    (hc : (compiled settings source).bench.Clean) {x : Item}
    (hx : (after settings source n).items.getLast? = some x) {l : Label} (hl : l ∈ x.tags) :
    ∃ v, (compiled settings source).resolver.labels.lookup l = some v ∧
      v + 1 = place settings source blocks n := by
  rw [List.getLast?_eq_getElem?] at hx
  generalize hj : (after settings source n).items.length - 1 = j at hx
  have hlength : (after settings source n).items.length = j + 1 := by
    have := (List.getElem?_eq_some_iff.mp hx).1
    omega
  obtain ⟨labels, code, hbecomes, hget⟩ := h.getElem? hx
  obtain ⟨front, i, rfl, hi⟩ := hbecomes.exists_last (l := l)
    (by rw [Item.tags_tag]; exact List.mem_append_left _ hl)
  obtain ⟨hlt, hget'⟩ := List.getElem?_eq_some_iff.mp hget
  refine ⟨(compiled settings source).preamble.length + (blocks.take j).flatten.length +
    front.length, (complete_compiled hc).lookup_of_mem (i := i) ?_ hi, ?_⟩
  · rw [← List.getElem?_drop, h.joined_drop, List.drop_eq_getElem_cons hlt, hget',
      List.flatten_cons, List.append_assoc, List.getElem?_append_right (Nat.le_refl _),
      Nat.sub_self]
    rfl
  · rw [place, hlength, length_take_succ hget, List.length_append, List.length_singleton]
    omega

/-- The call that is statement number `n`, as it is lowered after all statements and laid out in the
program. -/
structure Laid (settings : Settings) (source : String) (blocks : List Code) (n : Nat) where
  site : CallSite
  start : Workbench
  left : Workbench
  lowering : Call.Lowering (callScope settings source n) site (Call.bench site start) left
  next : Tokens.peek (after settings source n).bench.tokens = "call"
  tokens : site.tokens = (Tokens.splitStatement (after settings source n).bench.tokens).1
  sane : start.Sane
  grows : (stated settings source).bench.Grows start
  leaves : left.Grows (expanded settings source).bench
  emitted : Emitted settings source blocks n lowering.code

def Aims (settings : Settings) (source : String) (blocks : List Code) (n : Nat) (a : Operand) :
    Prop :=
  destination? (after settings source n) = some a ∨
    ∃ x : Laid settings source blocks n, (x.lowering.dest?.map fun dest => dest.1.toOperand) =
    some a

/-! ### Where control stays -/

/-- The stretch of statement number `n` is tame from the part `rest` on. -/
structure Calm (settings : Settings) (source : String) (blocks : List Code) (n : Nat)
    (front rest : Code) (dest? : Option Operand) : Prop where
  emitted : Emitted settings source blocks n (front ++ rest)
  around_succ : around settings source (n + 1) = around settings source n
  aims : ∀ a, dest? = some a → Aims settings source blocks n a
  tame : rest.Tame (compiled settings source).bench.scratch.addresses dest?
    (Goes (rested (after settings source n)) (after settings source (n + 1)) rest)

/-- The place is one of the code of the subroutine that is innermost in `names`: a statement starts
there, or a stretch is tame there. -/
inductive Within (settings : Settings) (source : String) (blocks : List Code) (names : List String)
    (v : Nat) : Prop
  | start {n : Nat} (hv : v = place settings source blocks n)
      (haround : around settings source n = names)
  | inside {n : Nat} {front rest : Code} {dest? : Option Operand}
      (hcalm : Calm settings source blocks n front rest dest?)
      (hlo : place settings source blocks n + front.length ≤ v)
      (hhi : v < place settings source blocks (n + 1)) (haround : around settings source n = names)

section

variable (hc : (compiled settings source).bench.Clean) {o : OpenBlock} {rest : List OpenBlock}
include hc

lemma exists_closing (hblocks : (after settings source (n + 1)).blocks = o :: rest) : ∃ m,
    (after settings source m).blocks = o :: rest ∧
      subs (after settings source (m + 1)).blocks = subs rest ∧
      Finishes o (rested (after settings source m)) (after settings source (m + 1)) := by
  have hstated := clean_stated hc
  obtain ⟨m, -, -, hm, hnot⟩ := Restacks.exists_pop (restacks_after hstated)
    (m := n + 1 + (Lexer.tokenize source).1.length) hblocks (Nat.le_add_right _ _)
    (by rw [after_eq_stated (Nat.le_add_left _ _), blocks_stated hc]; simp)
  refine ⟨m, hm, ?_⟩
  have hhead : ∀ {o' rest'}, (rested (after settings source m)).blocks = o' :: rest' →
      o' = o ∧ rest' = rest := fun heq => List.cons.inj (heq.symm.trans hm)
  cases stacks_after_succ hstated m with
  | keep heq => exact absurd (by rw [heq]; exact hm ▸ List.suffix_refl _) hnot
  | opens heq => exact absurd (by rw [heq]; exact hm ▸ List.suffix_cons _ _) hnot
  | closes hold hnew hfinishes =>
    obtain ⟨rfl, rfl⟩ := hhead hold
    exact ⟨by rw [hnew], hfinishes⟩
  | swaps hold hnew hkind hfinishes =>
    obtain ⟨rfl, rfl⟩ := hhead hold
    exact ⟨by rw [hnew, subs_cons_other (by simp [hkind])], hfinishes⟩

lemma exists_opening (hblocks : (after settings source n).blocks = o :: rest)
    (hkind : o.block.kind ≠ .elseThen) : ∃ k,
    (after settings source (k + 1)).blocks = o :: rest ∧
      Begins o (rested (after settings source k)) (after settings source (k + 1)) := by
  have hstated := clean_stated hc
  obtain ⟨k, -, hk, hnot⟩ := Restacks.exists_push (restacks_after hstated)
    (by simp [after, Statement.compileAll, started, new])
    (show o :: rest <:+ (after settings source n).blocks from hblocks ▸ List.suffix_refl _)
  refine ⟨k, hk, ?_⟩
  cases stacks_after_succ hstated k with
  | keep heq => exact absurd (by rw [← hk, heq]; exact List.suffix_refl _) hnot
  | opens heq hbegins =>
    obtain ⟨rfl, -⟩ := List.cons.inj (heq.symm.trans hk)
    exact hbegins
  | closes hold hnew =>
    have hold' : (after settings source k).blocks = _ := hold
    exact absurd (by rw [← hk, hnew, hold']; exact List.suffix_cons _ _) hnot
  | swaps _ hnew helse =>
    obtain ⟨rfl, -⟩ := List.cons.inj (hnew.symm.trans hk)
    exact absurd helse hkind

variable (h : Blocks settings source blocks)
include h

lemma lands_past (hblocks : (after settings source (n + 1)).blocks = o :: rest)
    (hkind : o.block.kind ≠ .whileLoop)
    (hsubs : subs rest = subs (after settings source n).blocks) : ∃ v,
    (compiled settings source).resolver.labels.lookup (.finish o.block) = some v ∧
      Within settings source blocks (around settings source n) (v + 1) := by
  obtain ⟨m, -, hsubs', hfinishes⟩ := exists_closing hc hblocks
  obtain ⟨x, hx, hmem⟩ := hfinishes.last hkind
  obtain ⟨v, hv, hplace⟩ := h.lookup_last hc hx hmem
  exact ⟨v, hv, .start hplace (around_eq (clean_stated hc) (hsubs'.trans hsubs))⟩

lemma calm_bottom {m : Nat} (hm : (after settings source m).blocks = o :: rest)
    (hkind : o.block.kind = .whileLoop)
    (hsubs : subs (after settings source (m + 1)).blocks = subs rest)
    (hitems : (after settings source (m + 1)).items =
      (after settings source m).items ++ o.trailer.map .instruction) :
    Calm settings source blocks m [] o.trailer none ∧
      ∃ (j : Nat) (i : Instruction), o.trailer[j]? = some i ∧ .finish o.block ∈ i.tags := by
  have hstated := clean_stated hc
  have htrails := (nested_after hstated m).trails o (by rw [hm]; exact List.mem_cons_self)
  have hloops : Loops (after settings source m).bench.scratch.addresses o.block o.trailer := by
    cases htrails with
    | sub hsub => exact absurd (hkind.symm.trans hsub) (by decide)
    | loop _ hloops => exact hloops
    | plain _ hloop => exact absurd hkind hloop
  have hpool : (after settings source m).bench.scratch.addresses ⊆
      (compiled settings source).bench.scratch.addresses := by
    rw [scratch_compiled]
    exact List.Subset.trans (grows_stated m).scratch.subset (grows_expanded hc).scratch.subset
  refine ⟨⟨h.emitted [] (by rw [tagLastItem_nil, List.nil_append, hitems]), ?_, by simp, ?_⟩,
    hloops.finish⟩
  · exact around_eq hstated (by rw [hsubs, hm, subs_cons_other (by simp [hkind])])
  · refine hloops.tame.mono hpool (by simp) fun l offset hl => ?_
    exact .back (show (rested (after settings source m)).blocks = _ from hm) hl.1
      (.inl ⟨hkind, hl.2⟩)

lemma lands_bottom (hblocks : (after settings source (n + 1)).blocks = o :: rest)
    (hkind : o.block.kind = .whileLoop) (hrest : rest = (after settings source n).blocks) : ∃ v,
    (compiled settings source).resolver.labels.lookup (.finish o.block) = some v ∧
      Within settings source blocks (around settings source n) v := by
  obtain ⟨m, hm, hsubs, hfinishes⟩ := exists_closing hc hblocks
  obtain ⟨hcalm, j, i, hj, hi⟩ := calm_bottom hc h hm hkind hsubs (hfinishes.loop hkind)
  have hlookup := hcalm.emitted.lookup hc (j := j) (i := i) (by rwa [List.nil_append]) hi
  refine ⟨_, hlookup, .inside hcalm (by simp) ?_ ?_⟩
  · rw [hcalm.emitted.place_succ, List.nil_append]
    have := (List.getElem?_eq_some_iff.mp hj).1
    omega
  · exact around_eq (clean_stated hc) (by rw [hm, subs_cons_other (by simp [hkind]), hrest])

lemma lands_back (hblocks : (after settings source n).blocks = o :: rest) (offset : Nat)
    (hkind : o.block.kind = .whileLoop ∧ offset = 2 ∨ o.block.kind = .doWhile ∧ offset = 1) : ∃ v,
    (compiled settings source).resolver.labels.lookup (.begin o.block) = some v ∧
      Within settings source blocks (around settings source n) (v + offset) := by
  obtain ⟨k, hk, hbegins⟩ :=
    exists_opening hc hblocks (by rcases hkind with hk | hk <;> simp [hk.1])
  have haround : around settings source (k + 1) = around settings source n :=
    around_eq (clean_stated hc) (by rw [hk, hblocks])
  rcases hkind with ⟨hloop, rfl⟩ | ⟨hdo, rfl⟩
  · obtain ⟨i, slot, hi, hitems⟩ := hbegins.loop hloop
    have hemitted : Emitted settings source blocks k [i, slot] :=
      h.emitted [] (by rw [tagLastItem_nil, hitems]; rfl)
    refine ⟨_, hemitted.lookup hc (j := 0) rfl hi, .start ?_ haround⟩
    rw [hemitted.place_succ]
    rfl
  · obtain ⟨x, hx, hmem⟩ := hbegins.afterLast hdo
    obtain ⟨v, hv, hplace⟩ := h.lookup_last hc hx hmem
    exact ⟨v, hv, .start hplace haround⟩

/-- The jumps of a statement stay in its subroutine. -/
theorem Calm.lands {front code : Code} {dest? : Option Operand}
    (hcalm : Calm settings source blocks n front code dest?) {l : Label} {offset : Int}
    (hgoes : Goes (rested (after settings source n)) (after settings source (n + 1))
      code l offset) :
    ∃ v w : Nat, (compiled settings source).resolver.labels.lookup l = some w ∧
      (w : Int) + offset = v ∧ Within settings source blocks (around settings source n) v := by
  cases hgoes with
  | @own before i hoffset hcode hlength hl =>
    have hplace := hcalm.emitted.place_succ
    have hget : (front ++ code)[front.length + before.length]? = some i := by
      rw [hcode, List.getElem?_append_right (Nat.le_add_right _ _), Nat.add_sub_cancel_left,
        List.getElem?_append_right (Nat.le_refl _), Nat.sub_self]
      rfl
    rw [List.length_append, hcode, List.length_append, List.length_singleton] at hplace
    refine ⟨(place settings source blocks n + (front.length + before.length) + offset).toNat, _,
      hcalm.emitted.lookup hc hget hl, by omega, .inside hcalm (by omega) (by omega) rfl⟩
  | past hblocks hkind hsubs hl hoffset =>
    obtain ⟨v, hv, hwithin⟩ := lands_past hc h hblocks hkind hsubs
    exact ⟨v + 1, v, hl ▸ hv, by omega, hwithin⟩
  | bottom hblocks hkind hl hoffset =>
    obtain ⟨v, hv, hwithin⟩ := lands_bottom hc h hblocks hkind rfl
    exact ⟨v, v, hl ▸ hv, by omega, hwithin⟩
  | @back o rest hblocks hl hkind =>
    obtain ⟨k, rfl⟩ : ∃ k : Nat, offset = k := by
      rcases hkind with hk | hk
      · exact ⟨2, hk.2⟩
      · exact ⟨1, hk.2⟩
    obtain ⟨v, hv, hwithin⟩ := lands_back hc h hblocks k
      (hkind.imp (fun hk => ⟨hk.1, by exact_mod_cast hk.2⟩) fun hk =>
        ⟨hk.1, by exact_mod_cast hk.2⟩)
    exact ⟨v + k, v, hl ▸ hv, by omega, hwithin⟩

end

/-- The stretch of statement number `n` ends the subroutine `name`, as a closing brace and `return`
do. -/
structure Ends (settings : Settings) (source : String) (blocks : List Code) (n : Nat)
    (name : String) : Prop where
  emitted : ∃ temp ∈ (compiled settings source).bench.scratch.addresses,
    Emitted settings source blocks n (epilogueCode name temp)
  around : (around settings source n).head? = some name

inductive Shape (settings : Settings) (source : String) (blocks : List Code) (n : Nat) : Prop
  | call (hnext : Tokens.peek (after settings source n).bench.tokens = "call")
      (haround : around settings source (n + 1) = around settings source n)
  | calm {code : Code} (hcalm : Calm settings source blocks n [] code
      (destination? (after settings source n)))
  | skip {block : Block} {name : String} {v : Nat}
      (hemitted : Emitted settings source blocks n
        [.jump (.label (.finish block) 1), Instruction.nop.tagged (.begin block)])
      (hlookup : (compiled settings source).resolver.labels.lookup (.finish block) = some v)
      (hwithin : Within settings source blocks (around settings source n) (v + 1))
      (haround : around settings source (n + 1) = name :: around settings source n)
  | ends {name : String} (hends : Ends settings source blocks n name)

/-- What every statement of a program without errors looks like. -/
theorem Blocks.shape (h : Blocks settings source blocks)
    (hc : (compiled settings source).bench.Clean) (n : Nat) : Shape settings source blocks n := by
  have hstated := clean_stated hc
  have hpool : (stated settings source).bench.scratch.addresses ⊆
      (compiled settings source).bench.scratch.addresses := by
    rw [scratch_compiled]
    exact (grows_expanded hc).scratch.subset
  cases (turns_after_succ hstated n).mono hpool with
  | call hnext haround => exact .call hnext haround
  | inner _ labels hitems haround htame =>
    exact .calm ⟨h.emitted labels hitems, haround, fun _ => .inl, htame⟩
  | @skip o name hitems hblocks hkind haround =>
    obtain ⟨v, hv, hwithin⟩ := lands_past hc h hblocks (by simp [hkind]) rfl
    refine .skip (h.emitted [] ?_) hv hwithin haround
    rw [tagLastItem_nil]
    exact hitems
  | ends _ _ labels hitems haround htemp =>
    exact .ends ⟨⟨_, htemp, h.emitted labels hitems⟩, haround⟩

lemma Blocks.ends_of_closes (h : Blocks settings source blocks)
    (hc : (compiled settings source).bench.Clean) {o : OpenBlock} {rest : List OpenBlock}
    (hold : (after settings source n).blocks = o :: rest) (hkind : o.block.kind = .sub)
    (hnew : (after settings source (n + 1)).blocks = rest) :
    ∃ name, Ends settings source blocks n name := by
  have hstated := clean_stated hc
  -- there is one subroutine less around the next statement
  have hlength : (around settings source n).length =
      (around settings source (n + 1)).length + 1 := by
    have hbefore := congrArg List.length (nested_after hstated n).enclosing
    have hafter := congrArg List.length (nested_after hstated (n + 1)).enclosing
    rw [hold, subs_cons_sub hkind, List.length_map, List.length_cons] at hbefore
    rw [hnew, List.length_map] at hafter
    rw [around, around, hbefore, hafter]
  cases h.shape hc n with
  | call _ haround =>
    rw [haround] at hlength
    omega
  | calm hcalm =>
    rw [hcalm.around_succ] at hlength
    omega
  | skip _ _ _ haround =>
    rw [haround, List.length_cons] at hlength
    omega
  | ends hends => exact ⟨_, hends⟩

lemma Blocks.ends_of_return (h : Blocks settings source blocks)
    (hc : (compiled settings source).bench.Clean)
    (hnext : Tokens.peek (after settings source n).bench.tokens = "return") :
    ∃ name, Ends settings source blocks n name := by
  have hstated := clean_stated hc
  have hclean : (after settings source (n + 1)).bench.Clean := (grows_stated _).clean hstated
  have hne : (after settings source n).bench.tokens.isEmpty = false := by
    rw [List.isEmpty_eq_false_iff]
    rintro hnil
    rw [hnil] at hnext
    exact absurd hnext (by decide)
  have hnextSession : after settings source (n + 1) =
      (returnStatement.on (rested (after settings source n))).2 := by
    rw [after_succ, hne, if_neg Bool.false_ne_true, on_compile, hnext]
    rfl
  rw [hnextSession] at hclean
  obtain ⟨name, names, b, hgrows, henclosing, hon⟩ :=
    leaves_returnStatement (fine_rested fine_after) hclean
  obtain ⟨frame, hframe⟩ := Option.isSome_iff_exists.mp
    ((nested_after hstated n).framed name (by
      rw [show (after settings source n).scope.enclosing = _ from henclosing]
      exact List.mem_cons_self))
  obtain ⟨temp, htemp, hepilogue⟩ := ((linked_after hstated n).sound name frame hframe).epilogue
  refine ⟨name, ⟨temp, ?_, h.emitted [] ?_⟩, ?_⟩
  · rw [scratch_compiled]
    exact (grows_expanded hc).scratch.subset ((grows_stated n).scratch.subset htemp)
  · have hsame : (rested (after settings source n)).scope.frame? name = some frame := hframe
    rw [tagLastItem_nil, hnextSession, hon, hsame, Option.map_some, Option.getD_some, hepilogue]
    exact itemsOf_append fine_after.placed
  · exact congrArg List.head? henclosing

/-! ### Places in order -/

lemma place_le {k m : Nat} (hkm : k ≤ m) :
    place settings source blocks k ≤ place settings source blocks m := by
  refine monotone_nat_of_le_succ (f := place settings source blocks) (fun n => ?_) hkm
  have hgrows : (after settings source n).Grows (after settings source (n + 1)) := grows_after_succ
  have hle := hgrows.items.length_le
  obtain ⟨more, hmore⟩ := List.take_prefix_take_left (l := blocks) hle
  rw [place, place, ← hmore, List.flatten_append, List.length_append]
  omega

lemma eq_of_place {k m v : Nat} (hk : place settings source blocks k ≤ v)
    (hk' : v < place settings source blocks (k + 1)) (hm : place settings source blocks m ≤ v)
    (hm' : v < place settings source blocks (m + 1)) : k = m := by
  rcases Nat.lt_trichotomy k m with hlt | heq | hgt
  · have : place settings source blocks (k + 1) ≤ place settings source blocks m := place_le hlt
    omega
  · exact heq
  · have : place settings source blocks (m + 1) ≤ place settings source blocks k := place_le hgt
    omega

section

variable (h : Blocks settings source blocks) (hc : (compiled settings source).bench.Clean)
include h

lemma Blocks.place_last (hn : (Lexer.tokenize source).1.length ≤ n) :
    place settings source blocks n = (compiled settings source).joined.length := by
  rw [place, after_eq_stated hn, h.becomes.length_eq, List.take_length, joined, List.length_append,
    h.program]

include hc

lemma Blocks.place_lt_of_call
    (hnext : Tokens.peek (after settings source n).bench.tokens = "call") :
    place settings source blocks n < place settings source blocks (n + 1) := by
  obtain ⟨c, -, -, b, b₁, p, -, -, -, hplace, -⟩ := h.call (clean_expanded hc) hnext
  have := List.length_pos_iff.mpr (Call.code_ne_nil p)
  omega

lemma Blocks.exists_start (n : Nat) :
    (place settings source blocks n = (compiled settings source).joined.length ∧
      around settings source n = []) ∨
    ∃ m, place settings source blocks m = place settings source blocks n ∧
      place settings source blocks m < place settings source blocks (m + 1) ∧
      around settings source m = around settings source n := by
  -- induction on the number of statements that are left
  induction hk : (Lexer.tokenize source).1.length - n generalizing n with
  | zero =>
    have hlast : (Lexer.tokenize source).1.length ≤ n := by omega
    refine .inl ⟨h.place_last hlast, ?_⟩
    have hnested := (nested_after (clean_stated hc) n).enclosing
    rw [after_eq_stated hlast, blocks_stated hc] at hnested
    rw [around, after_eq_stated hlast]
    exact List.map_eq_nil_iff.mp hnested
  | succ k ih =>
    by_cases hlt : place settings source blocks n < place settings source blocks (n + 1)
    · exact .inr ⟨n, rfl, hlt, rfl⟩
    · have hplace : place settings source blocks (n + 1) = place settings source blocks n :=
        Nat.le_antisymm (Nat.not_lt.mp hlt) (place_le (Nat.le_succ n))
      have haround : around settings source (n + 1) = around settings source n := by
        cases h.shape hc n with
        | call hnext haround => exact haround
        | calm hcalm => exact hcalm.around_succ
        | skip hemitted =>
          have := hemitted.place_succ
          simp only [List.length_cons, List.length_nil] at this
          omega
        | ends hends =>
          obtain ⟨temp, -, hemitted⟩ := hends.emitted
          have := hemitted.place_succ
          simp only [epilogueCode, List.length_cons, List.length_nil] at this
          omega
      have hnext := ih (n + 1) (by omega)
      rwa [hplace, haround] at hnext

lemma Within.located {names : List String} {v : Nat} (hw : Within settings source blocks names v) :
    (v = (compiled settings source).joined.length ∧ names = []) ∨
    ∃ n, place settings source blocks n ≤ v ∧ v < place settings source blocks (n + 1) ∧
      around settings source n = names ∧ (v = place settings source blocks n ∨
        ∃ front rest dest?, Calm settings source blocks n front rest dest? ∧
          place settings source blocks n + front.length ≤ v) := by
  cases hw with
  | start hv haround =>
    subst hv haround
    rcases h.exists_start hc _ with hend | ⟨m, hplace, hlt, haround⟩
    · exact .inl hend
    · exact .inr ⟨m, hplace.le, hplace ▸ hlt, haround, .inl hplace.symm⟩
  | inside hcalm hlo hhi haround =>
    exact .inr ⟨_, by omega, hhi, haround, .inr ⟨_, _, _, hcalm, hlo⟩⟩

end

end Session
end CogolToolchain
