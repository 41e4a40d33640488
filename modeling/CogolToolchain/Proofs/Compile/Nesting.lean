import CogolToolchain.Proofs.Compile.Placement
import CogolToolchain.Proofs.Compile.Tame

/-!
How blocks are nested, and where the jumps of a statement go.

The open blocks of a session are a stack (`Restacks`), and the subroutines around a statement are
those whose blocks are open (`Session.Nested`). A statement without errors is a call, ends a
subroutine, skips the body of one, or has tame code with jumps that stay in the same subroutine
(`Statement.Turns`).
-/

namespace CogolToolchain

/-! ### Stacks -/

/-- The second stack comes from the first one by a change at its top. -/
inductive Restacks {α : Type} : List α → List α → Prop
  | keep (xs : List α) : Restacks xs xs
  | push (x : α) (xs : List α) : Restacks xs (x :: xs)
  | pop (x : α) (xs : List α) : Restacks (x :: xs) xs
  | swap (x y : α) (xs : List α) : Restacks (x :: xs) (y :: xs)

namespace Restacks

variable {α : Type} {f : Nat → List α} {x : α} {xs : List α} {k m : Nat}

lemma exists_pop (hf : ∀ n, Restacks (f n) (f (n + 1))) (hk : f k = x :: xs) (hkm : k ≤ m)
    (hm : ¬ x :: xs <:+ f m) :
    ∃ n, k ≤ n ∧ n < m ∧ f n = x :: xs ∧ ¬ x :: xs <:+ f (n + 1) := by
  induction m, hkm using Nat.le_induction with
  | base => exact absurd (hk ▸ List.suffix_refl _) hm
  | succ m hkm ih =>
    by_cases hsuffix : x :: xs <:+ f m
    · refine ⟨m, hkm, Nat.lt_succ_self m, ?_, hm⟩
      have hstep := hf m
      generalize f m = old at hstep hsuffix
      generalize f (m + 1) = new at hstep hm
      cases hstep with
      | keep => exact absurd hsuffix hm
      | push y => exact absurd (hsuffix.trans (List.suffix_cons y _)) hm
      | pop y =>
        exact ((List.suffix_cons_iff.mp hsuffix).resolve_right hm).symm
      | swap y z ys =>
        refine ((List.suffix_cons_iff.mp hsuffix).resolve_right fun h => hm ?_).symm
        exact h.trans (List.suffix_cons z _)
    · obtain ⟨n, hkn, hnm, hn⟩ := ih hsuffix
      exact ⟨n, hkn, by omega, hn⟩

lemma exists_push (hf : ∀ n, Restacks (f n) (f (n + 1))) (h0 : ¬ x :: xs <:+ f 0)
    (hm : x :: xs <:+ f m) : ∃ n < m, f (n + 1) = x :: xs ∧ ¬ x :: xs <:+ f n := by
  induction m with
  | zero => exact absurd hm h0
  | succ m ih =>
    by_cases hsuffix : x :: xs <:+ f m
    · obtain ⟨n, hnm, hn⟩ := ih hsuffix
      exact ⟨n, by omega, hn⟩
    · refine ⟨m, Nat.lt_succ_self m, ?_, hsuffix⟩
      have hstep := hf m
      generalize f m = old at hstep hsuffix
      generalize f (m + 1) = new at hstep hm
      cases hstep with
      | keep => exact absurd hm hsuffix
      | push y => exact ((List.suffix_cons_iff.mp hm).resolve_right hsuffix).symm
      | pop y => exact absurd (hm.trans (List.suffix_cons y _)) hsuffix
      | swap y z ys =>
        refine ((List.suffix_cons_iff.mp hm).resolve_right fun h => hsuffix ?_).symm
        exact h.trans (List.suffix_cons y _)

end Restacks

/-! ### Open blocks -/

namespace OpenBlock

open Statement

inductive Trails (pool : List Nat) (o : OpenBlock) : Prop
  | sub {name : String} {temp : Nat} (hkind : o.block.kind = .sub)
      (hsuffix : o.block.suffix = "_" ++ name) (htemp : temp ∈ pool)
      (htrailer : o.trailer = epilogueCode name temp)
  | loop (hkind : o.block.kind = .whileLoop) (hloops : Loops pool o.block o.trailer)
  | plain (hsub : o.block.kind ≠ .sub) (hloop : o.block.kind ≠ .whileLoop)
      (htrailer : o.trailer = [])

def subs (blocks : List OpenBlock) : List String :=
  (blocks.filter fun o => o.block.kind = .sub).map fun o => o.block.suffix

variable {o : OpenBlock} {blocks : List OpenBlock} {pool pool' : List Nat}

lemma subs_cons_sub (h : o.block.kind = .sub) : subs (o :: blocks) = o.block.suffix ::
    subs blocks := by
  simp [subs, h]

lemma subs_cons_other (h : o.block.kind ≠ .sub) : subs (o :: blocks) = subs blocks := by
  simp [subs, h]

lemma Trails.trailer_eq (h : o.Trails pool) (hsub : o.block.kind ≠ .sub)
    (hloop : o.block.kind ≠ .whileLoop) : o.trailer = [] := by
  cases h with
  | sub hkind => exact absurd hkind hsub
  | loop hkind => exact absurd hkind hloop
  | plain _ _ htrailer => exact htrailer

lemma Trails.mono (h : o.Trails pool) (hpool : pool ⊆ pool') : o.Trails pool' := by
  cases h with
  | sub hkind hsuffix htemp htrailer => exact .sub hkind hsuffix (hpool htemp) htrailer
  | loop hkind hloops =>
    exact .loop hkind ⟨hloops.tame.mono hpool (fun _ => id) fun _ _ => id, hloops.finish⟩
  | plain hsub hloop htrailer => exact .plain hsub hloop htrailer

end OpenBlock

namespace Session

open OpenBlock

/-- The subroutines around the next statement are those whose blocks are open. -/
structure Nested (s : Session) : Prop where
  trails : ∀ o ∈ s.blocks, o.Trails s.bench.scratch.addresses
  enclosing : s.scope.enclosing.map ("_" ++ ·) = subs s.blocks
  framed : ∀ name ∈ s.scope.enclosing, (s.scope.frame? name).isSome

lemma append_injective : Function.Injective ("_" ++ · : String → String) := fun a b h =>
  String.ext (by simpa using congrArg String.toList h)

lemma Nested.enclosing_eq {s s' : Session} (h : s.Nested) (h' : s'.Nested)
    (hsubs : subs s.blocks = subs s'.blocks) : s.scope.enclosing = s'.scope.enclosing :=
  List.map_injective_iff.mpr append_injective
    (h.enclosing.trans (hsubs.trans h'.enclosing.symm))

end Session

/-! ### Statements -/

namespace Statement

open Session OpenBlock Build

/-- Where the code of a statement may jump: into itself, past the end of a block that it opens, to
the bottom of a loop that it opens, or back to the start of a block that it closes. -/
inductive Goes (s s' : Session) (code : Code) (l : Label) (offset : Int) : Prop
  | own {front : Code} {i : Instruction} (hoffset : offset = -1 ∨ offset = -2)
      (hcode : code = front ++ [i]) (hlength : 2 ≤ front.length) (hl : l ∈ i.tags)
  | past {o : OpenBlock} {rest : List OpenBlock} (hblocks : s'.blocks = o :: rest)
      (hkind : o.block.kind ≠ .whileLoop) (hsubs : subs rest = subs s.blocks)
      (hl : l = .finish o.block) (hoffset : offset = 1)
  | bottom {o : OpenBlock} (hblocks : s'.blocks = o :: s.blocks) (hkind : o.block.kind = .whileLoop)
      (hl : l = .finish o.block) (hoffset : offset = 0)
  | back {o : OpenBlock} {rest : List OpenBlock} (hblocks : s.blocks = o :: rest)
      (hl : l = .begin o.block)
      (hkind : o.block.kind = .whileLoop ∧ offset = 2 ∨ o.block.kind = .doWhile ∧ offset = 1)

/-- What the code of a statement does to the flow of control. -/
inductive Turns (pool : List Nat) (dest? : Option Operand) (s s' : Session) : Prop
  | call (hnext : Tokens.peek s.bench.tokens = "call")
      (henclosing : s'.scope.enclosing = s.scope.enclosing)
  /-- The statement stays in the same subroutine. -/
  | inner (code : Code) (labels : List Label)
      (hitems : s'.items = tagLastItem labels (s.items ++ code.map .instruction))
      (henclosing : s'.scope.enclosing = s.scope.enclosing)
      (htame : code.Tame pool dest? (Goes s s' code))
  | skip (o : OpenBlock) (name : String)
      (hitems : s'.items = s.items ++ List.map .instruction
        [.jump (.label (.finish o.block) 1), Instruction.nop.tagged (.begin o.block)])
      (hblocks : s'.blocks = o :: s.blocks) (hkind : o.block.kind = .sub)
      (henclosing : s'.scope.enclosing = name :: s.scope.enclosing)
  | ends (name : String) (temp : Nat) (labels : List Label)
      (hitems : s'.items =
        tagLastItem labels (s.items ++ (epilogueCode name temp).map .instruction))
      (henclosing : s.scope.enclosing.head? = some name) (htemp : temp ∈ pool)

lemma Turns.mono {pool pool' : List Nat} {dest? : Option Operand} {s s' : Session}
    (h : Turns pool dest? s s') (hpool : pool ⊆ pool') : Turns pool' dest? s s' := by
  cases h with
  | call hnext henclosing => exact .call hnext henclosing
  | inner code labels hitems henclosing htame =>
    exact .inner code labels hitems henclosing (htame.mono hpool (fun _ => id) fun _ _ => id)
  | skip o name hitems hblocks hkind henclosing =>
    exact .skip o name hitems hblocks hkind henclosing
  | ends name temp labels hitems henclosing htemp =>
    exact .ends name temp labels hitems henclosing (hpool htemp)

section

variable {s s' s₁ : Session} {dest? : Option Operand} {block : Block} {pool : List Nat}

@[simp] lemma scope_closed (block : Block) (s : Session) : (closed block s).scope = s.scope := by
  obtain ⟨_, _, h⟩ := closed_eq block s
  rw [h]

@[simp] lemma blocks_closed (block : Block) (s : Session) : (closed block s).blocks = s.blocks := by
  obtain ⟨_, _, h⟩ := closed_eq block s
  rw [h]

lemma items_closed (hs : s.Fine) (block : Block) : ∃ labels,
    (closed block s).items = tagLastItem labels s.items ∧
      (block.kind ≠ .whileLoop → labels = [.finish block]) := by
  unfold closed
  split
  · exact ⟨[], (tagLastItem_nil _).symm, fun h => absurd ‹_› h⟩
  · exact ⟨[.finish block], items_tagLast _ hs, fun _ => rfl⟩

lemma turns_emit (hs : s.Fine) {b : Workbench} {code : Code} {blocks : List OpenBlock}
    (htame : code.Tame pool dest?
      (Goes s { s with bench := b, program := s.program ++ code, blocks } code)) :
    Turns pool dest? s { s with bench := b, program := s.program ++ code, blocks } :=
  .inner code [] (by rw [tagLastItem_nil]; exact itemsOf_append hs.placed) rfl htame

lemma turns_closed (hs : s.Fine) (b : Workbench) (code : Code) (blocks : List OpenBlock)
    (hs₁ : s₁ = { s with bench := b, program := s.program ++ code, blocks }) (hsane : b.Sane)
    (htame : code.Tame pool dest? (Goes s (closed block s₁) code)) :
    Turns pool dest? s (closed block s₁) := by
  have hfine : s₁.Fine := by
    rw [hs₁]
    exact ⟨hsane, hs.placed.mono (by simp)⟩
  obtain ⟨labels, hitems, -⟩ := items_closed hfine block
  refine .inner code labels ?_ (by rw [scope_closed, hs₁]) htame
  rw [hitems, hs₁]
  exact congrArg _ (itemsOf_append hs.placed)

lemma turns_after (hs : s.Fine) (hn : s.Nested) {trailer : Code} {blocks : List OpenBlock}
    {rest : List Token} (hblocks : s.blocks = { block := block, trailer } :: blocks)
    (after : After block (braced s rest blocks trailer) s₁) (hsane : s₁.bench.Sane) :
    Turns s₁.bench.scratch.addresses dest? s (closed block s₁) := by
  have htrails := hn.trails { block := block, trailer } (by rw [hblocks]; exact List.mem_cons_self)
  have hsane₀ : (braced s rest blocks trailer).bench.Sane := hs.sane.congr rfl rfl
  cases after with
  | @done b grows hsub hdo =>
    refine turns_closed hs b _ _ rfl hsane ?_
    cases htrails with
    | sub hkind => exact absurd hkind hsub
    | loop hkind hloops =>
      refine hloops.tame.mono grows.scratch.subset (by simp) fun l offset hl => ?_
      exact .back hblocks hl.1 (.inl ⟨hkind, hl.2⟩)
    | plain _ _ htrailer =>
      obtain rfl : trailer = [] := htrailer
      exact Code.tame_nil
  | @orElse other b grows hkind hother =>
    obtain rfl : trailer = [] := htrails.trailer_eq (by simp [hkind]) (by simp [hkind])
    refine turns_closed hs b [(Instruction.jump (.label (.finish other) 1)).tagged
      (.begin other), .nop] ({ block := other } :: blocks)
      (by simp only [List.append_nil]) hsane ?_
    have hsubs : subs s.blocks = subs blocks := by
      rw [hblocks]
      exact subs_cons_other (by simp [hkind])
    refine .jump ((Instruction.jumps_jump _ _).tagged _) ?_ (Instruction.mild_nop _ _) Code.tame_nil
    exact .past (o := { block := other }) (blocks_closed _ _) (by simp [hother]) hsubs.symm rfl rfl
  | again r hkind =>
    obtain rfl : trailer = [] := htrails.trailer_eq (by simp [hkind]) (by simp [hkind])
    obtain ⟨-, -, -, hplain⟩ := r.plain hsane₀
    refine turns_closed hs r.left
      (r.code ++ r.test ++ branchTo r.branch (.label (.begin block) 1)) blocks
      (by simp only [List.append_nil]) hsane (hplain.tame.append (tame_branchTo r.branch ?_))
    exact .back hblocks rfl (.inr ⟨hkind, rfl⟩)
  | leave hkind =>
    cases htrails with
    | loop hloop => exact absurd (hkind.symm.trans hloop) (by decide)
    | plain hsub => exact absurd hkind hsub
    | @sub name temp _ hsuffix htemp htrailer =>
      obtain rfl : trailer = epilogueCode name temp := htrailer
      have hfine : Session.Fine { braced s rest blocks (epilogueCode name temp) with
          scope := { s.scope with enclosing := s.scope.enclosing.tail } } :=
        ⟨hsane₀, hs.placed.mono (by simp)⟩
      obtain ⟨labels, hitems, -⟩ := items_closed hfine block
      refine .ends name temp labels ?_ ?_ htemp
      · rw [hitems]
        exact congrArg _ (itemsOf_append hs.placed)
      · have henclosing := hn.enclosing
        rw [hblocks, subs_cons_sub hkind, hsuffix] at henclosing
        obtain ⟨name', names, heq, hname, -⟩ := List.map_eq_cons_iff.mp henclosing
        rw [heq, append_injective hname]
        rfl

/-- What a statement without errors does to the flow of control. -/
theorem turns_effect (hs : s.Fine) (hs' : s'.Fine) (hl : s.Linked) (hn : s.Nested)
    (he : Effect s s') (hc : s'.bench.Clean)
    (hdest : startsAssignment (Tokens.peek s.bench.tokens) = true →
      dest? = ((reference s.scope .destination).on s.bench).1.map fun r => r.1.toOperand) :
    Turns s'.bench.scratch.addresses dest? s s' := by
  cases he with
  | idle | declare => exact .inner [] [] (by simp; rfl) rfl Code.tame_nil
  | @assign code b hnext lower =>
    refine turns_emit (b := b) hs ?_
    obtain ⟨dest, address, b₁, middle, last, hyields, rfl, hplain, hlast⟩ :=
      Assignment.ending_of_lower hs.sane lower
    have hknown := (lowered_reference s.scope [] .destination _ _ _ hs.sane (List.nil_subset _)
      hyields).known
    have hdest? : dest? = some dest.toOperand := by
      rw [hdest hnext, show ((reference s.scope .destination).on s.bench).1 =
        some (dest, address) from congrArg Prod.fst hyields]
      rfl
    rw [hdest?]
    refine hplain.tame.append ((hlast.tame hknown).mono (List.Subset.refl _) (fun _ => id) ?_)
    rintro l offset ⟨hoffset, front, i, rfl, hlength, hi⟩
    refine .own hoffset (List.append_assoc middle front [i]).symm ?_ hi
    rw [List.length_append]
    omega
  | openFaulty _ hfaulty => exact absurd hc hfaulty
  | openIf o =>
    obtain ⟨-, -, -, -, hplain⟩ := o.plain hs
    refine turns_emit (b := o.left) hs (hplain.tame.append (tame_branchTo o.branch ?_))
    exact .past rfl (by simp [o.kind]) rfl rfl rfl
  | openWhile o =>
    obtain ⟨-, -, -, -, hplain⟩ := o.plain hs
    obtain ⟨hslot, -⟩ := loops_loopBottom hplain o.layout
    refine turns_emit (b := o.left) hs ?_
    refine .jump ((Instruction.jumps_jump _ _).tagged _) ?_
      (hslot.mono (List.Subset.refl _) (by simp)) Code.tame_nil
    exact .bottom rfl o.kind rfl rfl
  | openDo o =>
    have hfine : Session.Fine { s with bench := o.left } := ⟨hs'.sane, hs.placed⟩
    refine .inner [] [.begin o.block] ?_ rfl Code.tame_nil
    rw [List.map_nil, List.append_nil]
    exact (congrArg Session.items o.tagged).symm.trans (items_tagLast _ hfine)
  | close c =>
    have hturns : Turns _ dest? s _ := turns_after hs hn c.open_eq c.after hs'.sane
    rw [c.tagged] at hturns
    exact hturns
  | subroutine o =>
    exact .skip { block := o.block, trailer := o.code } o.name (itemsOf_append hs.placed) rfl rfl
      rfl
  | @leave name names b grows henclosing =>
    obtain ⟨frame, hframe⟩ := Option.isSome_iff_exists.mp
      (hn.framed name (by rw [henclosing]; exact List.mem_cons_self))
    obtain ⟨temp, htemp, hepilogue⟩ := (hl.sound name frame hframe).epilogue
    rw [hframe, Option.map_some, Option.getD_some, hepilogue]
    refine .ends name temp [] ?_ (by rw [henclosing]; rfl) ?_
    · rw [tagLastItem_nil]
      exact itemsOf_append hs.placed
    · exact grows.scratch.subset htemp
  | call q => exact .call q.next q.retypes.enclosing

end

end Statement

/-! ### Every statement keeps the blocks nested -/

namespace Session

open Statement OpenBlock Build

section

variable {s s' : Session}

lemma Nested.stay (h : s.Nested)
    (hscratch : s.bench.scratch.addresses <+: s'.bench.scratch.addresses)
    (hblocks : ∀ o ∈ s'.blocks, o ∈ s.blocks ∨ o.Trails s'.bench.scratch.addresses)
    (hsubs : subs s'.blocks = subs s.blocks)
    (henclosing : s'.scope.enclosing = s.scope.enclosing)
    (hframes : ∀ name, (s.scope.frame? name).isSome → (s'.scope.frame? name).isSome) :
    s'.Nested where
  trails o ho := (hblocks o ho).elim (fun hmem => (h.trails o hmem).mono hscratch.subset) id
  enclosing := by rw [henclosing, hsubs, h.enclosing]
  framed name hname := hframes name (h.framed name (henclosing ▸ hname))

lemma Nested.push (h : s.Nested) (hscratch : s.bench.scratch.addresses <+:
    s'.bench.scratch.addresses) {o : OpenBlock} (hblocks : s'.blocks = o :: s.blocks)
    (hkind : o.block.kind ≠ .sub) (ho : o.Trails s'.bench.scratch.addresses)
    (hscope : s'.scope = s.scope) : s'.Nested := by
  refine h.stay hscratch (fun o' ho' => ?_) (by rw [hblocks, subs_cons_other hkind])
    (by rw [hscope]) (by simp [hscope])
  rw [hblocks, List.mem_cons] at ho'
  exact ho'.elim (fun heq => .inr (heq ▸ ho)) .inl

lemma Nested.after (h : s.Nested) {block : Block} {trailer : Code} {blocks : List OpenBlock}
    {rest : List Token} (hblocks : s.blocks = { block := block, trailer } :: blocks)
    (after : After block (braced s rest blocks trailer) s')
    (hscratch : s.bench.scratch.addresses <+: s'.bench.scratch.addresses) : s'.Nested := by
  have hmem : ∀ o ∈ blocks, o ∈ s.blocks := fun o ho => by
    rw [hblocks]
    exact List.mem_cons_of_mem _ ho
  have hother : block.kind ≠ .sub → subs blocks = subs s.blocks := fun hkind => by
    rw [hblocks, subs_cons_other hkind]
  cases after with
  | done _ hkind =>
    exact h.stay hscratch (fun o ho => .inl (hmem o ho)) (hother hkind) rfl fun _ => id
  | @orElse other b _ hkind helse =>
    have hsubs : subs ({ block := other } :: blocks) = subs s.blocks := by
      rw [subs_cons_other (by simp [helse]), hother (by simp [hkind])]
    refine h.stay hscratch (fun o ho => ?_) hsubs rfl fun _ => id
    rcases List.mem_cons.mp ho with rfl | ho
    · exact .inr (.plain (by simp [helse]) (by simp [helse]) rfl)
    · exact .inl (hmem o ho)
  | again _ hkind =>
    exact h.stay hscratch (fun o ho => .inl (hmem o ho)) (hother (by simp [hkind])) rfl fun _ => id
  | leave hkind =>
    have henclosing := congrArg List.tail h.enclosing
    rw [hblocks, subs_cons_sub hkind, ← List.map_tail, List.tail_cons] at henclosing
    exact ⟨fun o ho => h.trails o (hmem o ho), henclosing,
      fun name hname => h.framed name (List.mem_of_mem_tail hname)⟩

theorem nested_effect (hs : s.Fine) (h : s.Nested) (he : Effect s s') (hg : s.Grows s')
    (hc : s'.bench.Clean) : s'.Nested := by
  have hsame : s'.blocks = s.blocks → s'.scope.enclosing = s.scope.enclosing →
      (∀ name, (s.scope.frame? name).isSome → (s'.scope.frame? name).isSome) → s'.Nested :=
    fun hblocks henclosing hframes =>
      h.stay hg.scratch (fun o ho => .inl (hblocks ▸ ho)) (by rw [hblocks]) henclosing hframes
  cases he with
  | idle | declare | assign | leave => exact hsame rfl rfl fun _ => id
  | openFaulty _ hfaulty => exact absurd hc hfaulty
  | openIf o =>
    exact h.push hg.scratch rfl (by simp [o.kind])
      (.plain (by simp [o.kind]) (by simp [o.kind]) rfl) rfl
  | openWhile o =>
    obtain ⟨-, -, -, -, hplain⟩ := o.plain hs
    obtain ⟨-, hloops⟩ := loops_loopBottom hplain o.layout
    exact h.push hg.scratch rfl (by simp [o.kind]) (.loop o.kind hloops) rfl
  | openDo o =>
    exact h.push hg.scratch rfl (by simp [o.kind])
      (.plain (by simp [o.kind]) (by simp [o.kind]) rfl) rfl
  | close c =>
    have hnested := h.after c.open_eq c.after hg.scratch
    exact ⟨hnested.trails, hnested.enclosing, hnested.framed⟩
  | subroutine o =>
    obtain ⟨temp, htemp, hcode⟩ := o.exists_temp
    refine ⟨fun o' ho => ?_, ?_, fun name hname => ?_⟩
    · rcases List.mem_cons.mp ho with rfl | ho
      · exact .sub rfl rfl htemp hcode
      · exact (h.trails o' ho).mono hg.scratch.subset
    · show ("_" ++ o.name) :: s.scope.enclosing.map ("_" ++ ·) = _
      rw [h.enclosing, subs_cons_sub rfl]
      rfl
    · rw [Scope.frame?_within]
      split
      · rfl
      · rename_i hne
        exact h.framed name ((List.mem_cons.mp hname).resolve_left hne)
  | call q =>
    refine hsame rfl q.retypes.enclosing fun name hframe => ?_
    rcases q.retypes.frames name with heq | ⟨first, param, type, -, hframe'⟩
    · exact heq ▸ hframe
    · exact hframe' ▸ rfl

end

/-! ### Where blocks start and end -/

/-- Where the code of the block starts, if there are jumps back to it. -/
structure Begins (o : OpenBlock) (s s' : Session) : Prop where
  afterLast : o.block.kind = .doWhile → ∃ x, s'.items.getLast? = some x ∧ .begin o.block ∈ x.tags
  loop : o.block.kind = .whileLoop → ∃ i slot, .begin o.block ∈ i.tags ∧
    s'.items = s.items ++ [.instruction i, .instruction slot]

structure Finishes (o : OpenBlock) (s s' : Session) : Prop where
  last : o.block.kind ≠ .whileLoop → ∃ x, s'.items.getLast? = some x ∧ .finish o.block ∈ x.tags
  loop : o.block.kind = .whileLoop → s'.items = s.items ++ o.trailer.map .instruction

/-- What a statement does to the stack of open blocks. -/
inductive Stacks (s s' : Session) : Prop
  | keep (hblocks : s'.blocks = s.blocks)
  | opens {o : OpenBlock} (hblocks : s'.blocks = o :: s.blocks) (hbegins : Begins o s s')
  | closes {o : OpenBlock} {rest : List OpenBlock} (hblocks : s.blocks = o :: rest)
      (hrest : s'.blocks = rest) (hfinishes : Finishes o s s')
  /-- A block is closed and its `else` block is opened. -/
  | swaps {o other : OpenBlock} {rest : List OpenBlock} (hblocks : s.blocks = o :: rest)
      (hrest : s'.blocks = other :: rest) (hkind : other.block.kind = .elseThen)
      (hfinishes : Finishes o s s')

section

variable {s s' s₁ : Session} {block : Block}

lemma Stacks.restacks (h : Stacks s s') : Restacks s.blocks s'.blocks := by
  cases h with
  | keep hblocks => exact hblocks ▸ .keep _
  | opens hblocks => exact hblocks ▸ .push _ _
  | closes hblocks hrest => exact hblocks ▸ hrest ▸ .pop _ _
  | swaps hblocks hrest => exact hblocks ▸ hrest ▸ .swap _ _ _

lemma exists_getLast?_tagLastItem (labels : List Label) {xs : List Item} (h : xs ≠ []) :
    ∃ x, (tagLastItem labels xs).getLast? = some x ∧ labels ⊆ x.tags := by
  obtain ⟨ys, y, rfl⟩ := (List.eq_nil_or_concat xs).resolve_left h
  rw [List.concat_eq_append, tagLastItem_concat]
  exact ⟨y.tag labels, by simp, by simp⟩

lemma begins_of_kind (s s' : Session) {o : OpenBlock} (hdo : o.block.kind ≠ .doWhile)
    (hloop : o.block.kind ≠ .whileLoop) : Begins o s s' :=
  ⟨fun h => absurd h hdo, fun h => absurd h hloop⟩

lemma finishes_closed (hs : s.Fine) (hl : s.Linked) (trailer code : Code)
    {b : Workbench} (scope : Scope) {blocks : List OpenBlock} (hsane : b.Sane)
    (hs₁ : s₁ = { s with bench := b, scope, program := s.program ++ trailer ++ code, blocks })
    (hcode : block.kind = .whileLoop → code = []) :
    Finishes { block := block, trailer } s (closed block s₁) := by
  have hfine : s₁.Fine := by
    rw [hs₁]
    exact ⟨hsane, hs.placed.mono (by simp)⟩
  refine ⟨fun hkind => ?_, fun hkind => ?_⟩
  · obtain ⟨labels, hitems, hlabels⟩ := items_closed hfine block
    have hne : s₁.items ≠ [] := by
      rw [hs₁]
      exact itemsOf_ne_nil (by simp [hl.started]) _
    obtain ⟨x, hx, hmem⟩ := exists_getLast?_tagLastItem labels hne
    exact ⟨x, hitems ▸ hx, hmem (by simp [hlabels hkind])⟩
  · have hkind' : block.kind = .whileLoop := hkind
    rw [closed, if_pos hkind', hs₁, hcode hkind, List.append_nil]
    exact itemsOf_append hs.placed

lemma stacks_after (hs : s.Fine) (hl : s.Linked) {trailer : Code} {blocks : List OpenBlock}
    {rest : List Token} (hblocks : s.blocks = { block := block, trailer } :: blocks)
    (after : After block (braced s rest blocks trailer) s₁) (hsane : s₁.bench.Sane) :
    Stacks s (closed block s₁) := by
  cases after with
  | @done b =>
    exact .closes hblocks (blocks_closed _ _) (finishes_closed hs hl _ [] s.scope
      hsane (by rw [List.append_nil]) fun _ => rfl)
  | @orElse other b _ hkind hother =>
    exact .swaps hblocks (blocks_closed _ _) hother (finishes_closed hs hl _ _ s.scope
      hsane rfl (by simp [hkind]))
  | again r hkind =>
    exact .closes hblocks (blocks_closed _ _) (finishes_closed hs hl _ _ s.scope
      hsane rfl (by simp [hkind]))
  | leave hkind =>
    exact .closes hblocks (blocks_closed _ _) (finishes_closed hs hl _ [] _ hsane
      (by rw [List.append_nil]) fun _ => rfl)

theorem stacks_effect (hs : s.Fine) (hs' : s'.Fine) (hl : s.Linked) (he : Effect s s')
    (hc : s'.bench.Clean) : Stacks s s' := by
  cases he with
  | idle | declare | assign | leave | call => exact .keep rfl
  | openFaulty _ hfaulty => exact absurd hc hfaulty
  | openIf o => exact .opens rfl (begins_of_kind _ _ (by simp [o.kind]) (by simp [o.kind]))
  | openWhile o =>
    refine .opens rfl ⟨fun h => absurd (o.kind.symm.trans h) (by decide), fun _ =>
      ⟨_, o.slot, ?_, itemsOf_append hs.placed⟩⟩
    simp
  | openDo o =>
    have hitems := items_tagLast (s := { s with bench := o.left }) (.begin o.block)
      ⟨hs'.sane, hs.placed⟩
    rw [o.tagged] at hitems
    obtain ⟨x, hx, hmem⟩ := exists_getLast?_tagLastItem [.begin o.block]
      (itemsOf_ne_nil hl.started s.calls)
    exact .opens rfl ⟨fun _ => ⟨x, hitems ▸ hx, hmem (List.mem_singleton_self _)⟩, fun h =>
      absurd (o.kind.symm.trans h) (by decide)⟩
  | close c =>
    have hstacks := stacks_after hs hl c.open_eq c.after hs'.sane
    rw [c.tagged] at hstacks
    exact hstacks
  | subroutine o =>
    exact .opens rfl (begins_of_kind _ _ (by simp [subBlock]) (by simp [subBlock]))

end

end Session
end CogolToolchain
