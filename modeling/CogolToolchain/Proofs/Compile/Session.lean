import CogolToolchain.Compile.Program
import CogolToolchain.Proofs.Compile.Assignment

/-!
What the statements of a program can do to a session.

Nothing that was there goes away: instructions and calls that wait keep their order and their
labels, and cells, numbers and diagnostics are only added. `Statement.keeps_compileAll` says so of
all statements, right or wrong ones.
-/

namespace CogolToolchain

/-! ### The program with its calls -/

/-- A part of a program: an instruction, or a call that waits. -/
inductive Item where
  | instruction (i : Instruction)
  | call (c : CallSite)

namespace Item

def tags : Item → List Label
  | instruction i => i.tags
  | call c => c.tags

def tag (labels : List Label) : Item → Item
  | instruction i => instruction { i with tags := i.tags ++ labels }
  | call c => call { c with tags := c.tags ++ labels }

@[simp] lemma tag_nil (x : Item) : x.tag [] = x := by cases x <;> simp [tag]

@[simp] lemma tag_tag (x : Item) (p q : List Label) : (x.tag p).tag q = x.tag (p ++ q) := by
  cases x <;> simp [tag]

@[simp] lemma tags_tag (x : Item) (p : List Label) : (x.tag p).tags = x.tags ++ p := by
  cases x <;> rfl

end Item

/-- The items of a program, with the calls where they stand. The calls are given latest first. -/
def itemsOf : Code → List CallSite → List Item
  | program, [] => program.map .instruction
  | program, c :: calls =>
    itemsOf (program.take c.position) calls ++
      .call c :: (program.drop c.position).map .instruction

def PlacedBelow : Nat → List CallSite → Prop
  | _, [] => True
  | n, c :: calls => c.position ≤ n ∧ PlacedBelow c.position calls

def Enriches (xs ys : List Item) : Prop :=
  ∀ (n : Nat) (x : Item), xs[n]? = some x → ∃ labels, ys[n]? = some (x.tag labels)

section Items

variable {xs ys zs : List Item} {program code : Code} {calls : List CallSite} {n k : Nat}

lemma Enriches.refl (xs : List Item) : Enriches xs xs := fun n x h => ⟨[], by simpa using h⟩

lemma Enriches.trans (h : Enriches xs ys) (h' : Enriches ys zs) : Enriches xs zs := by
  intro n x hx
  obtain ⟨p, hp⟩ := h n x hx
  obtain ⟨q, hq⟩ := h' n _ hp
  exact ⟨p ++ q, by rw [hq, Item.tag_tag]⟩

lemma enriches_append (xs ys : List Item) : Enriches xs (xs ++ ys) := fun n x h =>
  ⟨[], by rw [List.getElem?_append_left (List.getElem?_eq_some_iff.mp h).1, h, Item.tag_nil]⟩

lemma Enriches.length_le (h : Enriches xs ys) : xs.length ≤ ys.length := by
  by_contra hlt
  obtain ⟨p, hp⟩ := h ys.length _ (List.getElem?_eq_getElem (by omega))
  simp at hp

lemma PlacedBelow.mono (h : PlacedBelow n calls) (hnk : n ≤ k) : PlacedBelow k calls := by
  cases calls with
  | nil => trivial
  | cons c calls => exact ⟨h.1.trans hnk, h.2⟩

lemma placedBelow_congr {calls' : List CallSite}
    (h : calls.map CallSite.position = calls'.map CallSite.position) (hp : PlacedBelow n calls) :
    PlacedBelow n calls' := by
  induction calls generalizing n calls' with
  | nil =>
    obtain rfl : calls' = [] := by simpa using h.symm
    trivial
  | cons c calls ih =>
    cases calls' with
    | nil => simp at h
    | cons c' calls' =>
      simp only [List.map_cons, List.cons.injEq] at h
      exact ⟨h.1 ▸ hp.1, ih h.2 (h.1 ▸ hp.2)⟩

lemma itemsOf_append (h : PlacedBelow program.length calls) :
    itemsOf (program ++ code) calls = itemsOf program calls ++ code.map .instruction := by
  cases calls with
  | nil => simp [itemsOf]
  | cons c calls =>
    rw [itemsOf, itemsOf, List.take_append_of_le_length h.1, List.drop_append_of_le_length h.1]
    simp

lemma itemsOf_cons_end {c : CallSite} (hc : c.position = program.length) :
    itemsOf program (c :: calls) = itemsOf program calls ++ [.call c] := by
  rw [itemsOf, hc, List.take_length, List.drop_length, List.map_nil]

def tagLastItem (labels : List Label) : List Item → List Item
  | [] => []
  | [x] => [x.tag labels]
  | x :: y :: rest => x :: tagLastItem labels (y :: rest)

lemma tagLastItem_concat (labels : List Label) (xs : List Item) (x : Item) :
    tagLastItem labels (xs ++ [x]) = xs ++ [x.tag labels] := by
  induction xs with
  | nil => rfl
  | cons y xs ih =>
    cases xs with
    | nil => rfl
    | cons z xs => rw [List.cons_append, List.cons_append, tagLastItem, ← List.cons_append, ih]; rfl

lemma enriches_tagLastItem (labels : List Label) (xs : List Item) :
    Enriches xs (tagLastItem labels xs) := by
  rcases List.eq_nil_or_concat xs with rfl | ⟨ys, y, rfl⟩
  · exact Enriches.refl _
  · rw [List.concat_eq_append, tagLastItem_concat]
    intro n x hx
    rw [List.getElem?_append] at hx ⊢
    split at hx
    · rename_i hn
      exact ⟨[], by rw [if_pos hn, hx, Item.tag_nil]⟩
    · rename_i hn
      rw [if_neg hn]
      rw [List.getElem?_singleton] at hx ⊢
      split at hx
      · rename_i h0
        obtain rfl := Option.some.inj hx
        exact ⟨labels, by rw [if_pos h0]⟩
      · simp at hx

lemma tagLast_concat (labels : List Label) (p : Code) (i : Instruction) :
    Code.tagLast labels (p ++ [i]) = p ++ [{ i with tags := i.tags ++ labels }] := by
  induction p with
  | nil => rfl
  | cons j p ih =>
    cases p with
    | nil => rfl
    | cons k p => rw [List.cons_append, List.cons_append, Code.tagLast, ← List.cons_append, ih]; rfl

@[simp] lemma length_tagLast (labels : List Label) (p : Code) :
    (Code.tagLast labels p).length = p.length := by
  rcases List.eq_nil_or_concat p with rfl | ⟨q, i, rfl⟩
  · rfl
  · simp [List.concat_eq_append, tagLast_concat]

lemma itemsOf_tagLast (labels : List Label) (h : PlacedBelow program.length calls)
    (hend : ∀ c ∈ calls.head?, c.position ≠ program.length) :
    itemsOf (Code.tagLast labels program) calls = tagLastItem labels (itemsOf program calls) := by
  rcases List.eq_nil_or_concat program with rfl | ⟨p, i, rfl⟩
  · cases calls with
    | nil => rfl
    | cons c calls => exact absurd (Nat.le_zero.mp h.1) (hend c rfl)
  · rw [List.concat_eq_append] at h hend ⊢
    have hp : PlacedBelow p.length calls := by
      cases calls with
      | nil => trivial
      | cons c calls =>
        have hle := h.1
        have hne := hend c rfl
        rw [List.length_append, List.length_singleton] at hle hne
        exact ⟨by omega, h.2⟩
    rw [tagLast_concat, itemsOf_append hp, itemsOf_append hp, List.map_singleton,
      List.map_singleton, tagLastItem_concat]
    rfl

end Items

/-! ### Sessions -/

namespace Session

def items (s : Session) : List Item := itemsOf s.program s.calls

/-- The cells are in order, and every call has a place in the program. -/
structure Fine (s : Session) : Prop where
  sane : s.bench.Sane
  placed : PlacedBelow s.program.length s.calls

/-- What was there in the first session is still there in the second one. -/
structure Grows (s s' : Session) : Prop where
  globals : s.bench.globals.Extends s'.bench.globals
  scratch : s.bench.scratch.addresses <+: s'.bench.scratch.addresses
  nextId : s.bench.nextId ≤ s'.bench.nextId
  diagnostics : s.bench.diagnostics <+: s'.bench.diagnostics
  preamble : s.preamble <+: s'.preamble
  items : Enriches s.items s'.items

lemma Grows.refl (s : Session) : s.Grows s where
  globals := .refl _
  scratch := List.prefix_refl _
  nextId := Nat.le_refl _
  diagnostics := List.prefix_refl _
  preamble := List.prefix_refl _
  items := .refl _

lemma Grows.trans {s s' s'' : Session} (h : s.Grows s') (h' : s'.Grows s'') : s.Grows s'' where
  globals := h.globals.trans h'.globals
  scratch := h.scratch.trans h'.scratch
  nextId := h.nextId.trans h'.nextId
  diagnostics := h.diagnostics.trans h'.diagnostics
  preamble := h.preamble.trans h'.preamble
  items := h.items.trans h'.items

lemma Grows.clean {s s' : Session} (h : s.Grows s') (hc : s'.bench.Clean) : s.bench.Clean :=
  fun d hd => hc d (h.diagnostics.subset hd)

end Session

namespace Build

open Session

def on {α : Type} (x : Build α) (s : Session) : α × Session := x.run s

def Keeps {α : Type} (x : Build α) : Prop :=
  ∀ s, s.Fine → (x.on s).2.Fine ∧ s.Grows (x.on s).2

def Consumes {α : Type} (x : Build α) : Prop := ∀ s, (x.on s).2.bench.tokens <:+ s.bench.tokens

/-- A step that only adds to a session and takes tokens from the front only. -/
structure Advances {α : Type} (x : Build α) : Prop where
  keeps : Keeps x
  consumes : Consumes x

structure Progresses {α : Type} (x : Build α) : Prop where
  keeps : Keeps x
  tokens : ∀ s, (x.on s).2.bench.tokens <:+ Tokens.rest s.bench.tokens

section

variable {α β : Type}

@[simp] lemma on_pure (a : α) (s : Session) : (pure a : Build α).on s = (a, s) := (rfl)

@[simp] lemma on_bind (x : Build α) (f : α → Build β) (s : Session) :
    (x >>= f).on s = (f (x.on s).1).on (x.on s).2 := (rfl)

@[simp] lemma on_map (f : α → β) (x : Build α) (s : Session) :
    (f <$> x).on s = (f (x.on s).1, (x.on s).2) := (rfl)

@[simp] lemma on_discard (x : Build α) (s : Session) : (discard x).on s = ((), (x.on s).2) := (rfl)

@[simp] lemma on_get (s : Session) : (get : Build Session).on s = (s, s) := (rfl)

@[simp] lemma on_modify (f : Session → Session) (s : Session) :
    (modify f : Build Unit).on s = ((), f s) := (rfl)

@[simp] lemma on_work (w : Work α) (s : Session) :
    (work w).on s = ((w.on s.bench).1, { s with bench := (w.on s.bench).2 }) := (rfl)

@[simp] lemma on_attempt (x : Attempt α) (s : Session) :
    (attempt x).on s = ((x.on s.bench).1, { s with bench := (x.on s.bench).2 }) := (rfl)

@[simp] lemma on_emit (code : Code) (s : Session) :
    (emit code).on s = ((), { s with program := s.program ++ code }) := (rfl)

@[simp] lemma on_openBlock (block : Block) (trailer : Code) (s : Session) :
    (openBlock block trailer).on s =
      ((), { s with blocks := { block := block, trailer } :: s.blocks }) := (rfl)

lemma advances_pure (a : α) : Advances (pure a) :=
  ⟨fun s hs => ⟨hs, .refl s⟩, fun _ => List.suffix_refl _⟩

lemma advances_get : Advances get := ⟨fun s hs => ⟨hs, .refl s⟩, fun _ => List.suffix_refl _⟩

lemma Keeps.bind {x : Build α} {f : α → Build β} (h : Keeps x) (hf : ∀ a, Keeps (f a)) :
    Keeps (x >>= f) := by
  intro s hs
  obtain ⟨hs₁, hg⟩ := h s hs
  obtain ⟨hs₂, hg'⟩ := hf (x.on s).1 _ hs₁
  exact ⟨hs₂, hg.trans hg'⟩

lemma Advances.bind {x : Build α} {f : α → Build β} (h : Advances x) (hf : ∀ a, Advances (f a)) :
    Advances (x >>= f) :=
  ⟨h.keeps.bind fun a => (hf a).keeps, fun s => ((hf (x.on s).1).consumes _).trans (h.consumes s)⟩

lemma Advances.discard {x : Build α} (h : Advances x) : Advances (discard x) :=
  ⟨h.keeps, h.consumes⟩

lemma keeps_work {w : Work α} (h : Work.Keeps w) : Keeps (work w) := by
  intro s hs
  obtain ⟨hsane, hgrow⟩ := h s.bench hs.sane
  exact ⟨⟨hsane, hs.placed⟩, hgrow.globals.cells, hgrow.scratch, hgrow.nextId, hgrow.diagnostics,
    List.prefix_refl _, .refl _⟩

lemma advances_work {n : Bool} {w : Work α} (h : Work.Advances n w) : Advances (work w) :=
  ⟨keeps_work h.keeps, fun s => (h s.bench).consumed.tokens⟩

lemma advances_attempt {n : Bool} {x : Attempt α} (h : Attempt.Careful n x) :
    Advances (attempt x) :=
  advances_work h.advances

lemma Progresses.advances {x : Build α} (h : Progresses x) : Advances x :=
  ⟨h.keeps, fun s => (h.tokens s).trans (Tokens.rest_suffix _)⟩

lemma progresses_pop {f : Token → Build α} (hf : ∀ t, Advances (f t)) :
    Progresses (work Work.pop >>= f) :=
  ⟨((advances_work Work.advances_pop).bind hf).keeps, fun s => (hf _).consumes
    { s with bench := { s.bench with tokens := Tokens.rest s.bench.tokens } }⟩

lemma progresses_discard {f : Unit → Build α} (hf : Advances (f ())) :
    Progresses (discard (work Work.pop) >>= f) :=
  ⟨((advances_work Work.advances_pop).discard.bind fun _ => hf).keeps, fun s => hf.consumes
    { s with bench := { s.bench with tokens := Tokens.rest s.bench.tokens } }⟩

lemma advances_modify {f : Session → Session} (hb : ∀ s, (f s).bench = s.bench)
    (hp : ∀ s, (f s).preamble = s.preamble) (hcode : ∀ s, (f s).program = s.program)
    (hcalls : ∀ s, (f s).calls = s.calls) : Advances (modify f) := by
  refine ⟨fun s hs => ?_, fun s => by rw [on_modify, hb]⟩
  have hitems : (f s).items = s.items := by rw [items, items, hcode, hcalls]
  rw [on_modify]
  refine ⟨⟨by rw [hb]; exact hs.sane, by rw [hcode, hcalls]; exact hs.placed⟩, ?_⟩
  refine ⟨?_, ?_, ?_, ?_, ?_, ?_⟩
  · rw [hb]; exact .refl _
  · rw [hb]
  · rw [hb]
  · rw [hb]
  · rw [hp]
  · rw [hitems]; exact .refl _

lemma advances_emit (code : Code) : Advances (emit code) := by
  refine ⟨fun s hs => ?_, fun _ => List.suffix_refl _⟩
  refine ⟨⟨hs.sane, hs.placed.mono (by simp)⟩, .refl _, List.prefix_refl _, Nat.le_refl _,
    List.prefix_refl _, List.prefix_refl _, ?_⟩
  show Enriches s.items (itemsOf (s.program ++ code) s.calls)
  rw [itemsOf_append hs.placed]
  exact enriches_append _ _

lemma advances_openBlock (block : Block) (trailer : Code) : Advances (openBlock block trailer) :=
  advances_modify (fun _ => rfl) (fun _ => rfl) (fun _ => rfl) fun _ => rfl

lemma on_tagLast (label : Label) (s : Session) : ∃ program calls,
    (tagLast label).on s = ((), { s with program, calls }) ∧
      program.length = s.program.length ∧
      calls.map CallSite.position = s.calls.map CallSite.position := by
  rw [tagLast, on_modify]
  split
  · rename_i c calls hcalls
    split
    · exact ⟨_, _, rfl, rfl, by simp [hcalls]⟩
    · exact ⟨_, _, rfl, length_tagLast _ _, rfl⟩
  · exact ⟨_, _, rfl, length_tagLast _ _, rfl⟩

lemma on_tagLast_of_nil (label : Label) {s : Session} (h : s.calls = []) :
    (tagLast label).on s = ((), { s with program := Code.tagLast [label] s.program }) := by
  rw [tagLast, on_modify, h]

lemma items_tagLast (label : Label) {s : Session} (hs : s.Fine) :
    ((tagLast label).on s).2.items = tagLastItem [label] s.items := by
  rcases hcalls : s.calls with _ | ⟨c, calls⟩
  · rw [on_tagLast_of_nil label hcalls]
    exact itemsOf_tagLast [label] hs.placed (by simp [hcalls])
  · rw [tagLast, on_modify, hcalls]
    by_cases hc : c.position = s.program.length
    · have hitems : s.items = itemsOf s.program calls ++ [.call c] := by
        rw [items, hcalls, itemsOf_cons_end hc]
      rw [hitems, tagLastItem_concat]
      simp only [if_pos hc]
      exact itemsOf_cons_end hc
    · simp only [if_neg hc, ← hcalls]
      exact itemsOf_tagLast [label] hs.placed (by simpa [hcalls] using hc)

lemma advances_tagLast (label : Label) : Advances (tagLast label) := by
  refine ⟨fun s hs => ?_, fun s => ?_⟩
  · have hitems := items_tagLast label hs
    obtain ⟨program, calls, hon, hlength, hpositions⟩ := on_tagLast label s
    rw [hon] at hitems ⊢
    refine ⟨⟨hs.sane, ?_⟩, .refl _, List.prefix_refl _, Nat.le_refl _, List.prefix_refl _,
      List.prefix_refl _, ?_⟩
    · exact placedBelow_congr hpositions.symm (hlength ▸ hs.placed)
    · rw [hitems]
      exact enriches_tagLastItem _ _
  · obtain ⟨program, calls, hon, -⟩ := on_tagLast label s
    rw [hon]

lemma on_blockSuffix (s : Session) : blockSuffix.on s =
    (String.join ((s.bench.tokens.takeWhile (· != "\x7b")).map ("_" ++ ·)),
      { s with bench := { s.bench with
          tokens := Tokens.rest (s.bench.tokens.dropWhile (· != "\x7b")) } }) := by
  rw [blockSuffix, on_work]
  simp only [Work.on_bind, Work.on_get, List.span_eq_takeWhile_dropWhile, Work.on_set, Work.on_pure]

lemma advances_blockSuffix : Advances blockSuffix := by
  refine ⟨keeps_work (Work.keeps_of_tokens fun _ => ⟨_, rfl⟩), fun s => ?_⟩
  rw [on_blockSuffix]
  exact (Tokens.rest_suffix _).trans (List.dropWhile_suffix _)

end
end Build

end CogolToolchain
