import CogolToolchain.Proofs.Compile.Effect

/-!
Every label is carried by one instruction, and every symbol in the code means something.

Labels are numbered, and a new number is taken for each block, product and call. So the labels that
a statement adds are new ones. A block puts its labels into the program when it is opened and when
it is closed; between the two, its last label is pending. `Session.Linked` says that the labels in
the program and the pending ones are different, and that code refers to these and to declared
variables only. Every statement keeps it (`Session.Linked.effect`).
-/

namespace CogolToolchain

open Work Attempt

/-! ### New labels -/

def Label.id? : Label → Option Nat
  | begin block | finish block => some block.id
  | callReturn id _ | multiplyEnd id => some id
  | preloadCallStack => none

/-- The labels are different ones, with numbers from `lo` on and below `hi`. -/
structure NewLabels (lo hi : Nat) (labels : List Label) : Prop where
  nodup : labels.Nodup
  ids : ∀ l ∈ labels, ∃ id, l.id? = some id ∧ lo ≤ id ∧ id < hi

section NewLabels

variable {lo hi : Nat} {p : List Label}

lemma NewLabels.nil (lo hi : Nat) : NewLabels lo hi [] := ⟨List.nodup_nil, by simp⟩

lemma NewLabels.singleton {l : Label} {id : Nat} (hid : l.id? = some id) (hlo : lo ≤ id)
    (hhi : id < hi) : NewLabels lo hi [l] :=
  ⟨List.nodup_singleton l, by simpa using ⟨id, hid, hlo, hhi⟩⟩

def blockLabels (block : Block) : List Label := [.begin block, .finish block]

lemma NewLabels.block {block : Block} (hlo : lo ≤ block.id) (hhi : block.id < hi)
    (hsub : p.Sublist (blockLabels block)) : NewLabels lo hi p := by
  refine ⟨hsub.nodup (by simp [blockLabels]), fun l hl => ?_⟩
  have hmem := hsub.subset hl
  simp only [blockLabels, List.mem_cons, List.not_mem_nil, or_false] at hmem
  rcases hmem with rfl | rfl <;> exact ⟨block.id, rfl, hlo, hhi⟩

end NewLabels

/-! ### Frames -/

namespace Statement

def epilogueCode (name : String) (temp : Nat) : Code := [
  .copy (.named .address name) callStackPointer,
  { opcode := .add, lhs := .constant 1, rhs := .named .address name, dest := .cellDest temp },
  .jump (.named .deref name),
  .copy (.through temp) (.named .constant name)]

lemma epilogue_eq {name : String} {b b' : Workbench} {code : Code} (hb : b.Sane)
    (h : (epilogue name).on b = (code, b')) :
    ∃ temp ∈ b'.scratch.addresses, code = epilogueCode name temp := by
  have hmem := (takes_allocScratch hb).mem
  simp only [epilogue, Work.on_bind, Work.on_pure, on_releaseCell, Prod.mk.injEq] at h
  obtain ⟨rfl, rfl⟩ := h
  exact ⟨_, by simpa using hmem, rfl⟩

end Statement

/-- The code names no other symbols than the global variables `names`. -/
def Code.Names (names : List String) (code : Code) : Prop :=
  ∀ ref ∈ Code.refs code, ∃ name ∈ names, ref.symbol = .cell name

lemma Code.Names.append {names : List String} {p q : Code} (hp : Code.Names names p)
    (hq : Code.Names names q) : Code.Names names (p ++ q) := fun ref href => by
  rw [Code.refs_append] at href
  exact (List.mem_append.mp href).elim (hp ref) (hq ref)

lemma Code.Sets.tags {base limit : Nat} {code : Code} (h : Code.Sets base limit code) :
    Code.tags code = [] :=
  List.flatMap_eq_nil_iff.mpr fun i hi => by
    obtain ⟨_, _, -, rfl⟩ := h i hi
    rfl

lemma Code.Sets.refs {base limit : Nat} {code : Code} (h : Code.Sets base limit code) :
    Code.refs code = [] :=
  List.flatMap_eq_nil_iff.mpr fun i hi => by
    obtain ⟨_, _, -, rfl⟩ := h i hi
    rfl

namespace Frame

/-- The code that initializes a parameter of `name`: it writes the call stack pointer and the cell
that it points to. -/
structure Initializes (name : String) (code : Code) : Prop where
  tags : Code.tags code = []
  names : Code.Names [name, callStackName] code
  dest : ∀ i ∈ code, i.dest = callStackPointer ∨ i.dest = callStackTarget

section

variable {name : String} {p q : Code}

lemma initializes_nil (name : String) : Initializes name [] := ⟨rfl, by simp [Code.Names], by simp⟩

lemma Initializes.append (hp : Initializes name p) (hq : Initializes name q) :
    Initializes name (p ++ q) := by
  refine ⟨by rw [Code.tags_append, hp.tags, hq.tags]; rfl, hp.names.append hq.names, fun i hi => ?_⟩
  exact (List.mem_append.mp hi).elim (hp.dest i) (hq.dest i)

lemma initializes_store (frame : Frame) (offset : Nat) (value : Int) :
    Initializes frame.name (frame.store offset value) := by
  refine ⟨rfl, fun ref href => ?_, fun i hi => ?_⟩
  · simp only [store, pointCallAt, base, Code.mem_refs, List.mem_cons, List.not_mem_nil, or_false,
      Instruction.mem_refs] at href
    obtain ⟨i, rfl | rfl, href⟩ := href <;>
      simp [Operand.named, Operand.constant, Value.ref?, Instruction.copy, callStackPointer,
        callStackTarget] at href <;> aesop
  · simp only [store, List.mem_cons, List.not_mem_nil, or_false] at hi
    rcases hi with rfl | rfl
    · exact .inl rfl
    · exact .inr rfl

lemma initializes_declareArray (frame : Frame) (values : List Int) :
    Initializes frame.name ((values.zipIdx.flatMap fun (value, i) =>
      frame.store (frame.size + 1 + i) value) ++ [frame.pointCallAt frame.size,
        { opcode := .add, lhs := callStackPointer.read, rhs := .constant 1,
          dest := callStackTarget }]) := by
  have helements : ∀ entries : List (Int × Nat), Initializes frame.name
      (entries.flatMap fun (value, i) => frame.store (frame.size + 1 + i) value) := by
    intro entries
    induction entries with
    | nil => exact initializes_nil _
    | cons entry entries ih =>
      rw [List.flatMap_cons]
      exact (initializes_store frame _ _).append ih
  refine (helements _).append ⟨rfl, fun ref href => ?_, fun i hi => ?_⟩
  · simp only [pointCallAt, base, Code.mem_refs, List.mem_cons, List.not_mem_nil, or_false,
      Instruction.mem_refs] at href
    obtain ⟨i, rfl | rfl, href⟩ := href <;>
      simp [Operand.named, Operand.constant, Value.ref?, callStackPointer, callStackTarget,
        Operand.read] at href <;> aesop
  · simp only [List.mem_cons, List.not_mem_nil, or_false] at hi
    rcases hi with rfl | rfl
    · exact .inl rfl
    · exact .inr rfl

variable {frame : Frame} {block : Block} {params : List (String × Declarator)}

lemma Declared.name_eq (h : frame.Declared name block params) :
    frame.name = name ∧ frame.block = block := by
  induction h with
  | new => exact ⟨rfl, rfl⟩
  | declare declarator _ _ _ ih => cases declarator <;> exact ih

lemma Declared.initializes (h : frame.Declared name block params) :
    ∀ slot ∈ frame.slots, Initializes name slot.init := by
  induction h with
  | new =>
    intro slot hslot
    simp only [Frame.new, Frame.declareWord, List.nil_append, List.cons_append, List.mem_cons,
      List.not_mem_nil, or_false] at hslot
    rcases hslot with rfl | rfl <;> exact initializes_nil _
  | @declare params frame param declarator h _ _ ih =>
    obtain ⟨rfl, -⟩ := h.name_eq
    intro slot hslot
    cases declarator with
    | word =>
      rcases List.mem_append.mp hslot with hslot | hslot
      · exact ih slot hslot
      · obtain rfl := List.mem_singleton.mp hslot
        exact initializes_nil _
    | wordWithDefault value =>
      rcases List.mem_append.mp hslot with hslot | hslot
      · exact ih slot hslot
      · obtain rfl := List.mem_singleton.mp hslot
        exact initializes_store frame _ _
    | array size values =>
      rcases List.mem_append.mp hslot with hslot | hslot
      · exact ih slot hslot
      · obtain rfl := List.mem_singleton.mp hslot
        exact initializes_declareArray frame values

/-- The frame of the subroutine `name`, whose epilogue uses one of the cells `pool`. The types of
its parameters may have changed since they were declared. -/
structure Sound (pool : List Nat) (name : String) (frame : Frame) : Prop where
  name_eq : frame.name = name
  declared : ∃ params first, Declared name frame.block params first ∧ frame.slots = first.slots ∧
    frame.table.cells = first.table.cells
  epilogue : ∃ temp ∈ pool, frame.epilogue = Statement.epilogueCode name temp

variable {pool pool' : List Nat}

lemma Sound.mono (h : frame.Sound pool name) (hpool : pool ⊆ pool') : frame.Sound pool' name := by
  obtain ⟨temp, hmem, htemp⟩ := h.epilogue
  exact ⟨h.name_eq, h.declared, temp, hpool hmem, htemp⟩

lemma Sound.setType (h : frame.Sound pool name) (param : String) (type : VarType) :
    Sound pool name { frame with table := frame.table.setType param type } := by
  obtain ⟨params, first, declared, hslots, hcells⟩ := h.declared
  refine ⟨h.name_eq, ⟨params, first, declared, hslots, ?_⟩, h.epilogue⟩
  rw [← hcells]
  unfold SymbolTable.setType
  split <;> rfl

lemma Sound.initializes (h : frame.Sound pool name) :
    ∀ slot ∈ frame.slots, Initializes name slot.init := by
  obtain ⟨params, first, declared, hslots, -⟩ := h.declared
  rw [hslots]
  exact declared.initializes

end
end Frame

/-! ### Sessions whose symbols mean something -/

/-- The labels that the end of a block puts into the program. That of a `while` block is in its
trailer. -/
def OpenBlock.marks (b : OpenBlock) : List Label :=
  Code.tags b.trailer ++ if b.block.kind = .whileLoop then [] else [.finish b.block]

namespace Session

/-- The labels in the program and those that the open blocks will put there. -/
def marks (s : Session) : List Label :=
  s.items.flatMap Item.tags ++ s.blocks.flatMap OpenBlock.marks

def Adds (s s' : Session) : Prop :=
  ∃ new, NewLabels s.bench.nextId s'.bench.nextId new ∧
    ∀ l, s'.marks.count l = s.marks.count l + new.count l

/-- The symbol means something, or will do so at the end: the call stack is declared last, and the
slots of frames are looked up then. -/
def Knows (s : Session) : Symbol → Prop
  | .cell name => name = callStackName ∨ s.bench.globals.contains name = true
  | .slot _ _ => True
  | .label l => l ∈ s.marks

/-- Every label stands in one place, and the symbols in the code mean something. -/
structure Linked (s : Session) : Prop where
  started : s.program ≠ []
  nodup : s.marks.Nodup
  ids : ∀ l ∈ s.marks, ∀ id, l.id? = some id → id < s.bench.nextId
  program : ∀ ref ∈ Code.refs s.program, s.Knows ref.symbol
  trailers : ∀ b ∈ s.blocks, ∀ ref ∈ Code.refs b.trailer, s.Knows ref.symbol
  opened : ∀ b ∈ s.blocks, b.block.kind = .doWhile → .begin b.block ∈ s.marks
  sound : ∀ name frame, s.scope.frame? name = some frame →
    frame.Sound s.bench.scratch.addresses name
  frames : ∀ name frame, s.scope.frame? name = some frame →
    s.bench.globals.contains name = true ∧ .begin frame.block ∈ s.marks ∧ isReserved name = false
  preamble : Code.tags s.preamble = [] ∧ Code.refs s.preamble = []

section

variable {s s' : Session} {l : Label}

lemma Adds.mem (h : Adds s s') (hl : l ∈ s.marks) : l ∈ s'.marks := by
  obtain ⟨new, -, hcount⟩ := h
  have := hcount l
  have := List.count_pos_iff.mpr hl
  exact List.count_pos_iff.mp (by omega)

lemma Adds.nodup (h : Adds s s') (hs : s.marks.Nodup)
    (hids : ∀ l ∈ s.marks, ∀ id, l.id? = some id → id < s.bench.nextId)
    (hle : s.bench.nextId ≤ s'.bench.nextId) :
    s'.marks.Nodup ∧ ∀ l ∈ s'.marks, ∀ id, l.id? = some id → id < s'.bench.nextId := by
  obtain ⟨new, hnew, hcount⟩ := h
  have hold : ∀ l ∈ s.marks, l ∉ new := fun l hl hmem => by
    obtain ⟨id, hid, hlo, -⟩ := hnew.ids l hmem
    have := hids l hl id hid
    omega
  refine ⟨List.nodup_iff_count_le_one.mpr fun l => ?_, fun l hl id hid => ?_⟩
  · have h1 := List.nodup_iff_count_le_one.mp hs l
    have h2 := List.nodup_iff_count_le_one.mp hnew.nodup l
    rw [hcount l]
    by_cases hl : l ∈ s.marks
    · rw [List.count_eq_zero_of_not_mem (hold l hl)]
      omega
    · rw [List.count_eq_zero_of_not_mem hl]
      omega
  · have hpos := List.count_pos_iff.mpr hl
    rw [hcount l] at hpos
    by_cases hmem : l ∈ s.marks
    · exact (hids l hmem id hid).trans_le hle
    · rw [List.count_eq_zero_of_not_mem hmem, Nat.zero_add] at hpos
      obtain ⟨id', hid', -, hlt⟩ := hnew.ids l (List.count_pos_iff.mp hpos)
      rw [hid, Option.some.injEq] at hid'
      omega

lemma Knows.mono {symbol : Symbol} (h : s.Knows symbol) (hadds : Adds s s')
    (hglobals : s.bench.globals.Extends s'.bench.globals) : s'.Knows symbol := by
  cases symbol with
  | cell name => exact h.imp_right hglobals.contains
  | slot => trivial
  | label l => exact hadds.mem h

lemma Linked.of_adds (h : s.Linked) (hadds : Adds s s')
    (hglobals : s.bench.globals.Extends s'.bench.globals)
    (hscratch : s.bench.scratch.addresses ⊆ s'.bench.scratch.addresses)
    (hnextId : s.bench.nextId ≤ s'.bench.nextId) (hstarted : s'.program ≠ [])
    (hprogram : ∀ ref ∈ Code.refs s'.program, s.Knows ref.symbol ∨ s'.Knows ref.symbol)
    (htrailers : ∀ b ∈ s'.blocks, ∀ ref ∈ Code.refs b.trailer,
      s.Knows ref.symbol ∨ s'.Knows ref.symbol)
    (hopened : ∀ b ∈ s'.blocks, b.block.kind = .doWhile → b ∈ s.blocks ∨ .begin b.block ∈ s'.marks)
    (hframes : ∀ name frame, s'.scope.frame? name = some frame →
      (∃ first, s.scope.frame? name = some first ∧ frame.block = first.block ∧
        ∀ pool, first.Sound pool name → frame.Sound pool name) ∨
      (frame.Sound s'.bench.scratch.addresses name ∧ s'.bench.globals.contains name = true ∧
        .begin frame.block ∈ s'.marks ∧ isReserved name = false))
    (hpreamble : Code.tags s'.preamble = [] ∧ Code.refs s'.preamble = []) : s'.Linked := by
  obtain ⟨hnodup, hids⟩ := hadds.nodup h.nodup h.ids hnextId
  have hknows : ∀ {symbol}, s.Knows symbol ∨ s'.Knows symbol → s'.Knows symbol :=
    fun hor => hor.elim (fun hk => hk.mono hadds hglobals) id
  refine ⟨hstarted, hnodup, hids, fun ref href => hknows (hprogram ref href),
    fun b hb ref href => hknows (htrailers b hb ref href), fun b hb hkind => ?_,
    fun name frame hframe => ?_, fun name frame hframe => ?_, hpreamble⟩
  · rcases hopened b hb hkind with hmem | hmem
    · exact hadds.mem (h.opened b hmem hkind)
    · exact hmem
  · rcases hframes name frame hframe with ⟨first, hfirst, -, hsound⟩ | ⟨hsound, -⟩
    · exact hsound _ ((h.sound name first hfirst).mono hscratch)
    · exact hsound
  · rcases hframes name frame hframe with ⟨first, hfirst, hblock, -⟩ | ⟨-, hknown⟩
    · obtain ⟨hcontains, hbegin, hfree⟩ := h.frames name first hfirst
      exact ⟨hglobals.contains hcontains, hblock ▸ hadds.mem hbegin, hfree⟩
    · exact hknown

lemma Linked.step (h : s.Linked) (hadds : Adds s s') (hg : s.Grows s') (hstarted : s'.program ≠ [])
    (hprogram : ∀ ref ∈ Code.refs s'.program, s.Knows ref.symbol ∨ s'.Knows ref.symbol)
    (htrailers : ∀ b ∈ s'.blocks, ∀ ref ∈ Code.refs b.trailer,
      s.Knows ref.symbol ∨ s'.Knows ref.symbol)
    (hopened : ∀ b ∈ s'.blocks, b.block.kind = .doWhile → b ∈ s.blocks ∨ .begin b.block ∈ s'.marks)
    (hframes : ∀ name frame, s'.scope.frame? name = some frame →
      (∃ first, s.scope.frame? name = some first ∧ frame.block = first.block ∧
        ∀ pool, first.Sound pool name → frame.Sound pool name) ∨
      (frame.Sound s'.bench.scratch.addresses name ∧ s'.bench.globals.contains name = true ∧
        .begin frame.block ∈ s'.marks ∧ isReserved name = false))
    (hpreamble : Code.tags s'.preamble = [] ∧ Code.refs s'.preamble = []) : s'.Linked :=
  h.of_adds hadds hg.globals hg.scratch.subset hg.nextId hstarted hprogram htrailers hopened hframes
    hpreamble

lemma Linked.knows_of_offers (h : s.Linked) {symbol : Symbol} (ho : s.scope.Offers symbol) :
    s.Knows symbol := by
  cases symbol with
  | cell owner =>
    obtain ⟨frame, hframe⟩ := Option.isSome_iff_exists.mp ho
    exact .inr (h.frames owner frame hframe).1
  | slot => trivial
  | label l => exact ho.elim

end
end Session

/-! ### How the labels change -/

lemma itemsOf_ne_nil {program : Code} (h : program ≠ []) (calls : List CallSite) :
    itemsOf program calls ≠ [] := by
  cases calls with
  | nil => simpa [itemsOf] using h
  | cons c calls => simp [itemsOf]

lemma count_itemsOf_append {program code : Code} {calls : List CallSite}
    (h : PlacedBelow program.length calls) (l : Label) :
    ((itemsOf (program ++ code) calls).flatMap Item.tags).count l =
      ((itemsOf program calls).flatMap Item.tags).count l + (Code.tags code).count l := by
  have htags : (code.map Item.instruction).flatMap Item.tags = Code.tags code := by
    rw [List.flatMap_map]
    rfl
  rw [itemsOf_append h, List.flatMap_append, htags, List.count_append]

lemma refs_tagLast (labels : List Label) (p : Code) :
    Code.refs (Code.tagLast labels p) = Code.refs p := by
  rcases List.eq_nil_or_concat p with rfl | ⟨q, i, rfl⟩
  · rfl
  · rw [List.concat_eq_append, tagLast_concat, Code.refs_append, Code.refs_append]
    rfl

namespace Build

variable {s : Session}

lemma count_tagLast (label : Label) (hs : s.Fine) (hne : s.program ≠ []) (l : Label) :
    ((tagLast label).on s).2.marks.count l = s.marks.count l + [label].count l := by
  have hblocks : ((tagLast label).on s).2.blocks = s.blocks := by
    obtain ⟨program, calls, hon, -⟩ := on_tagLast label s
    rw [hon]
  rw [Session.marks, hblocks, items_tagLast label hs, Session.marks]
  rcases List.eq_nil_or_concat s.items with hnil | ⟨xs, x, hx⟩
  · exact absurd hnil (itemsOf_ne_nil hne _)
  · rw [hx, List.concat_eq_append, tagLastItem_concat]
    simp only [List.flatMap_append, List.flatMap_singleton, Item.tags_tag, List.count_append]
    omega

lemma tagLast_eq (label : Label) (s : Session) : ∃ program calls,
    ((tagLast label).on s).2 = { s with program, calls } ∧ Code.refs program = Code.refs s.program ∧
      program.length = s.program.length := by
  rw [tagLast, on_modify]
  split
  · split
    · exact ⟨_, _, rfl, rfl, rfl⟩
    · exact ⟨_, _, rfl, refs_tagLast _ _, length_tagLast _ _⟩
  · exact ⟨_, _, rfl, refs_tagLast _ _, length_tagLast _ _⟩

end Build

namespace Session

variable {s s' : Session}

lemma Linked.idle (h : s.Linked) {b : Workbench} (hg : s.Grows { s with bench := b }) :
    Linked { s with bench := b } :=
  h.step ⟨[], .nil _ _, fun _ => rfl⟩ hg h.started (fun ref href => .inl (h.program ref href))
    (fun b hb ref href => .inl (h.trailers b hb ref href)) (fun _ hb _ => .inl hb)
    (fun _ frame hframe => .inl ⟨frame, hframe, rfl, fun _ => id⟩) h.preamble

end Session

/-! ### The code of blocks -/

namespace Statement

section

variable {scope : Scope} {pool : List Nat} {branch : Branch} {l : Label} {offset : Int}

lemma refs_transfer {o : Opcode} {lhs : Operand} {tags : List Label} (h : lhs.IsKnown) :
    Instruction.refs { opcode := o, lhs, rhs := .label l offset, dest := .programCounter, tags } =
      [⟨.label l, offset⟩] := by
  simp only [Instruction.refs, Instruction.operands, List.filterMap_cons,
    show lhs.value.ref? = none from h]
  rfl

lemma jump?_eq_some (h : branch.IsKnown) {i : Instruction}
    (hi : branch.jump? (.label l offset) = some i) :
    i.tags = [] ∧ i.dest = .programCounter ∧ i.rhs = .label l offset ∧
      i.refs = [⟨.label l, offset⟩] := by
  cases branch with
  | never => simp [Branch.jump?, Branch.move?] at hi
  | always =>
    obtain rfl := Option.some.inj hi
    exact ⟨rfl, rfl, rfl, refs_transfer (Operand.known_constant _)⟩
  | ifNegative | ifNonZero =>
    obtain rfl := Option.some.inj hi
    exact ⟨rfl, rfl, rfl, refs_transfer h⟩

lemma tags_branchTo (h : branch.IsKnown) : Code.tags (branchTo branch (.label l offset)) = [] := by
  unfold branchTo
  split
  · rename_i jump hjump
    simp [(jump?_eq_some h hjump).1]
  · rfl

lemma refs_branchTo (h : branch.IsKnown) :
    ∀ ref ∈ Code.refs (branchTo branch (.label l offset)), ref = ⟨.label l, offset⟩ := by
  unfold branchTo
  split
  · rename_i jump hjump
    simp [(jump?_eq_some h hjump).2.2.2]
  · simp

lemma back_eq (h : branch.IsKnown) (l : Label) (offset : Int) :
    ((branch.jump? (.label l offset)).getD .nop).tags = [] ∧
      ∀ ref ∈ ((branch.jump? (.label l offset)).getD .nop).refs, ref = ⟨.label l, offset⟩ := by
  rcases hjump : branch.jump? (.label l offset) with _ | i
  · simp
  · obtain ⟨htags, -, -, hrefs⟩ := jump?_eq_some h hjump
    exact ⟨htags, by simp [hrefs]⟩

lemma loopBottom_eq {block : Block} {condition bottom : Code} {back slot : Instruction}
    (hc : scope.Plain pool condition) (hback : back.tags = [])
    (h : loopBottom block condition back = (slot, bottom)) :
    slot.tags = [] ∧ Code.tags bottom = [.finish block] ∧
      (∀ ref ∈ slot.refs, ref ∈ Code.refs condition) ∧
      ∀ ref ∈ Code.refs bottom, ref ∈ Code.refs condition ∨ ref ∈ back.refs := by
  have htags := hc.tags
  rcases condition with _ | ⟨first, _ | ⟨second, rest⟩⟩
  · obtain ⟨rfl, rfl⟩ := Prod.mk.inj h
    simp [hback]
  · obtain ⟨rfl, rfl⟩ := Prod.mk.inj h
    simp_all
  · obtain ⟨rfl, rfl⟩ := Prod.mk.inj h
    simp only [Code.tags_cons, List.append_eq_nil_iff] at htags
    simp only [Code.tags_cons, Code.tags_append, Code.refs_cons, Code.refs_append,
      Instruction.tags_tagged, Instruction.refs_tagged, htags, hback]
    refine ⟨trivial, by simp, fun ref href => by simp [href], fun ref href => ?_⟩
    simpa [or_assoc] using href

end

lemma tested_of_lower (scope : Scope) {condition : Condition} {code test : Code} {branch : Branch}
    {b b' : Workbench} (hb : b.Sane) (hk : condition.IsKnown b.scratch.addresses)
    (hcode : scope.Plain b.scratch.addresses code)
    (h : condition.lower.on b = ((branch, test), b')) :
    b.Grows b' ∧ b'.Sane ∧ branch.IsKnown ∧ scope.Plain b'.scratch.addresses (code ++ test) := by
  obtain ⟨hs, hg⟩ := (Condition.advances_lower condition b).keeps hb
  obtain ⟨hknown, hplain⟩ :=
    Condition.tested_lower scope b.scratch.addresses hk b hb (List.Subset.refl _)
  rw [h] at hs hg hknown hplain
  exact ⟨hg, hs, hknown, Scope.plain_append.mpr ⟨hcode.mono hg.scratch.subset, hplain⟩⟩

section

variable {s : Session}

lemma Opening.plain (o : Opening s) (hs : s.Fine) :
    s.bench.Grows o.left ∧ o.left.Sane ∧ s.bench.nextId < o.left.nextId ∧ o.branch.IsKnown ∧
      s.scope.Plain o.left.scratch.addresses (o.code ++ o.test) := by
  have hsane : Workbench.Sane { s.bench with tokens := o.start, nextId := s.bench.nextId + 1 } :=
    hs.sane.congr rfl rfl
  obtain ⟨hs₁, hg₁⟩ := (Condition.careful_read s.scope).grows hsane o.read
  obtain ⟨hknown, hcode⟩ :=
    Condition.plain_read s.scope [] _ _ o.middle hsane (List.nil_subset _) o.read
  have hs₁' : Workbench.Sane { o.middle with tokens := o.rest } := hs₁.congr rfl rfl
  have hknown' : Condition.IsKnown o.middle.scratch.addresses { o.condition with op := o.op } :=
    hknown
  obtain ⟨hg₂, hs₂, hbranch, hplain⟩ := tested_of_lower s.scope hs₁' hknown' hcode o.lower
  have hid : s.bench.nextId < o.left.nextId := hg₁.nextId.trans hg₂.nextId
  exact ⟨⟨hg₁.globals.trans hg₂.globals, hg₁.scratch.trans hg₂.scratch, hid.le,
    hg₁.diagnostics.trans hg₂.diagnostics⟩, hs₂, hid, hbranch, hplain⟩

lemma plain_doCondition (scope : Scope) (pool : List Nat) :
    Attempt.Gives (fun pool' r => r.1.IsKnown pool' ∧ scope.Plain pool' r.2) pool
      (doCondition scope) := by
  refine Attempt.gives_bind (careful_lift (advances_eat _)) fun _ _ _ => ?_
  split
  · exact (Condition.plain_read scope _).bind (Condition.careful_read scope) fun _ _ _ h =>
      Attempt.gives_bind (careful_expect _) fun _ _ h₁ => Attempt.gives_pure fun _ h₂ =>
        ⟨h.1.mono (List.Subset.trans h₁ h₂), h.2.mono (List.Subset.trans h₁ h₂)⟩
  · exact Attempt.gives_bind (careful_lift advances_peek) fun _ _ _ => Attempt.gives_failStatement _

lemma Repeats.plain (r : Repeats s) (hs : s.bench.Sane) :
    s.bench.Grows r.left ∧ r.left.Sane ∧ r.branch.IsKnown ∧
      s.scope.Plain r.left.scratch.addresses (r.code ++ r.test) := by
  obtain ⟨hs₁, hg₁⟩ := (careful_doCondition s.scope).grows hs r.read
  obtain ⟨hknown, hcode⟩ := plain_doCondition s.scope [] _ _ r.middle hs (List.nil_subset _) r.read
  obtain ⟨hg₂, hs₂, htested⟩ := tested_of_lower s.scope hs₁ hknown hcode r.lower
  exact ⟨hg₁.trans hg₂, hs₂, htested⟩

lemma After.grows {block : Block} {s' : Session} (after : After block s s') (hs : s.bench.Sane) :
    s.bench.Grows s'.bench ∧ s'.scope.subroutines = s.scope.subroutines := by
  cases after with
  | done grows => exact ⟨grows, rfl⟩
  | orElse grows => exact ⟨grows, rfl⟩
  | again r => exact ⟨(r.plain hs).1, rfl⟩
  | leave => exact ⟨.refl _, rfl⟩

lemma Closes.fine_braced (c : Closes s) (hs : s.Fine) :
    (braced s c.rest c.blocks c.trailer).Fine :=
  ⟨hs.sane.congr rfl rfl, hs.placed.mono (by simp)⟩

lemma OpensSub.grows_left (o : OpensSub s) : o.middle.Grows o.left ∧ o.left.Sane := by
  obtain ⟨hs, hg⟩ := (advances_epilogue o.name o.middle).keeps o.sane
  rw [o.epilogue] at hs hg
  exact ⟨hg, hs⟩

lemma OpensSub.exists_temp (o : OpensSub s) :
    ∃ temp ∈ o.left.scratch.addresses, o.code = epilogueCode o.name temp :=
  epilogue_eq o.sane o.epilogue

lemma OpensSub.fresh_of_clean (o : OpensSub s) (hc : o.left.Clean) : isReserved o.name = false ∧
    s.scope.frame? o.name = none ∧ s.bench.globals.contains o.name = false ∧
      o.globals = s.bench.globals.declareWord o.name :=
  o.fresh.resolve_right fun hfault => hfault.2 (o.grows_left.1.clean hc)

lemma Queues.frame? (q : Queues s) {name : String} {frame : Frame}
    (h : q.scope.frame? name = some frame) : ∃ first, s.scope.frame? name = some first ∧
      (frame = first ∨ ∃ param type,
        frame = { first with table := first.table.setType param type }) := by
  rcases q.retypes.frames name with hsame | ⟨first, param, type, hfirst, hretyped⟩
  · exact ⟨frame, hsame ▸ h, .inl rfl⟩
  · exact ⟨first, hfirst, .inr ⟨param, type, Option.some.inj (h.symm.trans hretyped)⟩⟩

end

lemma names_epilogueCode (name : String) (temp : Nat) :
    Code.Names [name, callStackName] (epilogueCode name temp) := by
  intro ref href
  simp only [epilogueCode, Code.mem_refs, List.mem_cons, List.not_mem_nil, or_false,
    Instruction.mem_refs] at href
  obtain ⟨i, rfl | rfl | rfl | rfl, href⟩ := href <;>
    simp [Operand.named, Operand.constant, Operand.cellDest, Operand.through, Value.ref?,
      Instruction.copy, Instruction.jump, Operand.programCounter, callStackPointer] at href <;>
      aesop

end Statement

lemma Assignment.Ending.labels {dest : Operand} {pool : List Nat} {lo hi : Nat} {last : Code}
    (h : Ending dest pool lo hi last) (hd : dest.IsKnown) : NewLabels lo hi (Code.tags last) ∧
      ∀ ref ∈ Code.refs last, ∃ l ∈ Code.tags last, ref.symbol = .label l := by
  cases h with
  | nothing => exact ⟨.nil _ _, by simp⟩
  | store hdest htags hlhs hrhs =>
    have hrefs := Instruction.refs_eq_nil hlhs hrhs (hdest ▸ hd)
    refine ⟨?_, by simp [hrefs]⟩
    rw [Code.tags_cons, htags]
    exact .nil _ _
  | @product lhs rhs target counter addend id hdest hlhs hrhs _ _ hlo hhi =>
    have htags : Code.tags (productCode lhs rhs target counter addend (.multiplyEnd id)) =
        [.multiplyEnd id] := rfl
    have hd : target.IsKnown := by rwa [hdest]
    have hread : target.read.IsKnown := hd
    have hrefs : ∀ ref ∈ Code.refs (productCode lhs rhs target counter addend (.multiplyEnd id)),
        ref.symbol = .label (.multiplyEnd id) := by
      have hknown : ∀ {o : Opcode} {x y z : Operand} {tags : List Label}, x.IsKnown → y.IsKnown →
          z.IsKnown → Instruction.refs { opcode := o, lhs := x, rhs := y, dest := z, tags } = [] :=
        fun hx hy hz => Instruction.refs_eq_nil hx hy hz
      have hc := Operand.known_constant
      have ht := Operand.known_cell
      have hdest := Operand.known_cellDest
      simp only [productCode, Code.refs_cons, Instruction.jump, Instruction.copy,
        Statement.refs_transfer (ht _), Statement.refs_transfer (hc _),
        hknown (hc 0) hlhs (hdest _), hknown (hc 0) hrhs (hdest _), hknown (hc (-1)) (hc 0) hd,
        hknown (hc 0) (ht _) (hdest _), hknown hread (ht _) hd, hknown (ht _) (hc 1) (hdest _)]
      simp
    rw [htags]
    exact ⟨.singleton rfl hlo hhi, fun ref href => ⟨_, by simp, hrefs ref href⟩⟩

/-! ### Every statement keeps the symbols -/

namespace Session

open Statement Build

variable {s s' : Session}

lemma Linked.emit (h : s.Linked) (hs : s.Fine) {b : Workbench} {code : Code}
    (new : List OpenBlock)
    (hg : s.Grows { s with bench := b, program := s.program ++ code, blocks := new ++ s.blocks })
    (hnew : NewLabels s.bench.nextId b.nextId (Code.tags code ++ new.flatMap OpenBlock.marks))
    (hrefs : ∀ ref ∈ Code.refs code, s.Knows ref.symbol ∨
      ∃ l ∈ Code.tags code ++ new.flatMap OpenBlock.marks, ref.symbol = .label l)
    (htrailers : ∀ o ∈ new, ∀ ref ∈ Code.refs o.trailer, s.Knows ref.symbol ∨
      ∃ l ∈ Code.tags code ++ new.flatMap OpenBlock.marks, ref.symbol = .label l)
    (hopened : ∀ o ∈ new, o.block.kind ≠ .doWhile) :
    Linked { s with bench := b, program := s.program ++ code, blocks := new ++ s.blocks } := by
  have hcount : ∀ l, (Session.marks { s with
      bench := b, program := s.program ++ code, blocks := new ++ s.blocks }).count l =
      s.marks.count l + (Code.tags code ++ new.flatMap OpenBlock.marks).count l := by
    intro l
    simp only [marks, items, List.count_append, List.flatMap_append, count_itemsOf_append hs.placed]
    omega
  have hknows : ∀ {symbol : Symbol},
      (∃ l ∈ Code.tags code ++ new.flatMap OpenBlock.marks, symbol = .label l) →
      Session.Knows { s with
        bench := b, program := s.program ++ code, blocks := new ++ s.blocks } symbol := by
    rintro symbol ⟨l, hl, rfl⟩
    have hpos := List.count_pos_iff.mpr hl
    have := hcount l
    exact List.count_pos_iff.mp (by omega)
  refine h.step ⟨_, hnew, hcount⟩ hg (by simp [h.started]) (fun ref href => ?_)
    (fun o ho ref href => ?_) (fun o ho hkind => ?_)
    (fun _ frame hframe => .inl ⟨frame, hframe, rfl, fun _ => id⟩) h.preamble
  · rw [Code.refs_append, List.mem_append] at href
    rcases href with href | href
    · exact .inl (h.program ref href)
    · exact (hrefs ref href).imp_right hknows
  · rcases List.mem_append.mp ho with ho | ho
    · exact (htrailers o ho ref href).imp_right hknows
    · exact .inl (h.trailers o ho ref href)
  · rcases List.mem_append.mp ho with ho | ho
    · exact absurd hkind (hopened o ho)
    · exact .inl ho

lemma Linked.assign (h : s.Linked) (hs : s.Fine) {code : Code} {b : Workbench}
    (lower : Yields (Assignment.lower s.scope) s.bench code b)
    (hg : s.Grows { s with bench := b, program := s.program ++ code }) :
    Linked { s with bench := b, program := s.program ++ code } := by
  obtain ⟨dest, address, b₁, middle, last, hdest, rfl, hplain, hlast⟩ :=
    Assignment.ending_of_lower hs.sane lower
  have hknown := (lowered_reference s.scope [] .destination _ _ _ hs.sane (List.nil_subset _)
    hdest).known
  have hmiddle : ∀ ref ∈ Code.refs middle, s.Knows ref.symbol := fun ref href =>
    h.knows_of_offers (hplain.offers ref href)
  have htags : Code.tags (middle ++ last) = Code.tags last := by
    rw [Code.tags_append, hplain.tags]
    rfl
  obtain ⟨hnew, hrefs⟩ := hlast.labels hknown
  refine h.emit hs [] hg (by simpa [htags] using hnew) (fun ref href => ?_) (by simp) (by simp)
  rw [Code.refs_append, List.mem_append] at href
  rcases href with href | href
  · exact .inl (hmiddle ref href)
  · exact .inr (by simpa [htags] using hrefs ref href)

lemma Linked.openIf (h : s.Linked) (hs : s.Fine) (o : OpensIf s) (hg : s.Grows o.session) :
    o.session.Linked := by
  obtain ⟨-, -, hid, hskip, hplain⟩ := o.plain hs
  have htags : Code.tags (o.code ++ o.test ++ branchTo o.branch (.label (.finish o.block) 1)) =
      [] := by
    rw [Code.tags_append, hplain.tags, tags_branchTo hskip]
    rfl
  have hmarks : OpenBlock.marks { block := o.block } = [.finish o.block] := by
    simp [OpenBlock.marks, o.kind]
  refine h.emit hs [{ block := o.block }] hg ?_ (fun ref href => ?_) (by simp) (by simp [o.kind])
  · simp only [htags, List.flatMap_singleton, hmarks, List.nil_append]
    exact .singleton rfl o.id.ge (o.id.trans_lt hid)
  · rw [Code.refs_append, List.mem_append] at href
    rcases href with href | href
    · exact .inl (h.knows_of_offers (hplain.offers ref href))
    · obtain rfl := refs_branchTo hskip ref href
      exact .inr ⟨_, by simp [hmarks], rfl⟩

lemma Linked.openWhile (h : s.Linked) (hs : s.Fine) (o : OpensWhile s) (hg : s.Grows o.session) :
    o.session.Linked := by
  obtain ⟨-, -, hid, hbranch, hplain⟩ := o.plain hs
  obtain ⟨hbacktags, hback⟩ := back_eq hbranch (.begin o.block) 2
  obtain ⟨hslot, hbottom, hslotrefs, hbottomrefs⟩ := loopBottom_eq hplain hbacktags o.layout
  have hmarks : OpenBlock.marks { block := o.block, trailer := o.bottom } = [.finish o.block] := by
    simp [OpenBlock.marks, o.kind, hbottom]
  have htags : Code.tags
      [(Instruction.jump (.label (.finish o.block) 0)).tagged (.begin o.block), o.slot] =
      [.begin o.block] := by
    simp [hslot, Instruction.jump, Instruction.copy]
  refine h.emit hs [{ block := o.block, trailer := o.bottom }] hg ?_ (fun ref href => ?_)
    (fun o' ho ref href => ?_) (by simp [o.kind])
  · simp only [htags, List.flatMap_singleton, hmarks]
    exact .block o.id.ge (o.id.trans_lt hid) (List.Sublist.refl _)
  · have hjump : Instruction.refs (.jump (.label (.finish o.block) 0)) =
        [⟨.label (.finish o.block), 0⟩] := refs_transfer (Operand.known_constant _)
    simp only [Code.refs_cons, Instruction.refs_tagged, hjump, Code.refs_nil, List.append_nil,
      List.mem_append, List.mem_singleton] at href
    rcases href with rfl | href
    · exact .inr ⟨.finish o.block, by simp [hmarks], rfl⟩
    · exact .inl (h.knows_of_offers (hplain.offers ref (hslotrefs ref href)))
  · obtain rfl := List.mem_singleton.mp ho
    rcases hbottomrefs ref href with href | href
    · exact .inl (h.knows_of_offers (hplain.offers ref href))
    · obtain rfl := hback ref href
      exact .inr ⟨.begin o.block, by simp [htags], rfl⟩

lemma Linked.openDo (h : s.Linked) (hs : s.Fine) (o : OpensDo s) (hsane : o.left.Sane)
    (hg : s.Grows o.session) : o.session.Linked := by
  have hcount := count_tagLast (s := { s with bench := o.left }) (.begin o.block)
    ⟨hsane, hs.placed⟩ h.started
  obtain ⟨program, calls, hon, hrefs, hlength⟩ :=
    tagLast_eq (.begin o.block) { s with bench := o.left }
  obtain rfl : program = o.program := congrArg Session.program (hon.symm.trans o.tagged)
  rw [o.tagged] at hcount
  have hmarks : OpenBlock.marks { block := o.block } = [.finish o.block] := by
    simp [OpenBlock.marks, o.kind]
  have hadds : ∀ l, o.session.marks.count l = s.marks.count l + (blockLabels o.block).count l := by
    intro l
    have h1 := hcount l
    simp only [marks, items, List.flatMap_cons, hmarks, List.count_append] at h1 ⊢
    have h2 : (blockLabels o.block).count l =
        ([Label.begin o.block] ++ [Label.finish o.block]).count l := rfl
    rw [List.count_append] at h2
    omega
  have hbegin : Label.begin o.block ∈ o.session.marks := by
    have h1 := hadds (.begin o.block)
    have h2 : 0 < (blockLabels o.block).count (Label.begin o.block) :=
      List.count_pos_iff.mpr (by simp [blockLabels])
    exact List.count_pos_iff.mp (by omega)
  refine h.step ⟨_, .block o.id.ge (o.id.trans_lt o.next) (List.Sublist.refl _), hadds⟩ hg ?_
    (fun ref href => .inl (h.program ref (hrefs ▸ href))) (fun o' ho ref href => ?_)
    (fun o' ho _ => ?_) (fun _ frame hframe => .inl ⟨frame, hframe, rfl, fun _ => id⟩) h.preamble
  · exact List.ne_nil_of_length_pos (hlength ▸ List.length_pos_iff.mpr h.started)
  · rcases List.mem_cons.mp ho with rfl | ho
    · simp at href
    · exact .inl (h.trailers o' ho ref href)
  · rcases List.mem_cons.mp ho with rfl | ho
    · exact .inr hbegin
    · exact .inl ho

/-- What follows the closing brace of a block adds code and blocks with new labels. -/
lemma labels_after {block : Block} (after : After block s s') (hs : s.bench.Sane) :
    ∃ extra new, s' = { s with
      bench := s'.bench, scope := s'.scope
      program := s.program ++ extra, blocks := new ++ s.blocks } ∧
      (∀ name, s'.scope.frame? name = s.scope.frame? name) ∧
      NewLabels s.bench.nextId s'.bench.nextId (Code.tags extra ++ new.flatMap OpenBlock.marks) ∧
      (∀ ref ∈ Code.refs extra, s.scope.Offers ref.symbol ∨
        block.kind = .doWhile ∧ ref.symbol = .label (.begin block) ∨
        ∃ l ∈ Code.tags extra ++ new.flatMap OpenBlock.marks, ref.symbol = .label l) ∧
      ∀ o ∈ new, o.trailer = [] ∧ o.block.kind ≠ .doWhile := by
  cases after with
  | done | leave =>
    exact ⟨[], [], by rw [List.append_nil]; rfl, fun _ => rfl, .nil _ _, by simp, by simp⟩
  | @orElse other b _ _ hother hid hnext =>
    have hmarks : OpenBlock.marks { block := other } = [.finish other] := by
      simp [OpenBlock.marks, hother]
    have hjump : Instruction.refs (.jump (.label (.finish other) 1)) =
        [⟨.label (.finish other), 1⟩] := refs_transfer (Operand.known_constant _)
    refine ⟨_, [{ block := other }], rfl, fun _ => rfl, ?_, fun ref href => .inr (.inr ?_),
      by simp [hother]⟩
    · simp only [List.flatMap_singleton, hmarks]
      exact .block hid.ge (hid.trans_lt hnext) (List.Sublist.refl _)
    · simp only [Code.refs_cons, Instruction.refs_tagged, hjump, Instruction.refs_nop,
        Code.refs_nil, List.append_nil, List.mem_singleton] at href
      subst href
      exact ⟨.finish other, by simp [hmarks], rfl⟩
  | again r hkind =>
    obtain ⟨-, -, hbranch, hplain⟩ := r.plain hs
    refine ⟨_, [], rfl, fun _ => rfl, ?_, fun ref href => ?_, by simp⟩
    · rw [Code.tags_append, hplain.tags, tags_branchTo hbranch]
      exact .nil _ _
    · rw [Code.refs_append, List.mem_append] at href
      rcases href with href | href
      · exact .inl (hplain.offers ref href)
      · obtain rfl := refs_branchTo hbranch ref href
        exact .inr (.inl ⟨hkind, rfl⟩)

lemma refs_closed (c : Closes s) : Code.refs c.program = Code.refs c.inner.program ∧
    c.program.length = c.inner.program.length := by
  have htagged := c.tagged
  unfold closed at htagged
  split at htagged
  · have hprogram : c.inner.program = c.program := congrArg Session.program htagged
    rw [hprogram]
    exact ⟨rfl, rfl⟩
  · obtain ⟨program, calls, hon, hrefs, hlength⟩ := tagLast_eq (.finish c.block) c.inner
    obtain rfl : program = c.program := congrArg Session.program (hon.symm.trans htagged)
    exact ⟨hrefs, hlength⟩

lemma Linked.close (h : s.Linked) (hs : s.Fine) (c : Closes s) (hsane : c.inner.bench.Sane)
    (hg : s.Grows c.session) : c.session.Linked := by
  obtain ⟨extra, new, hinner, hscope, hnew, hrefs, hnone⟩ :=
    labels_after c.after (c.fine_braced hs).sane
  have hopen : { block := c.block, trailer := c.trailer } ∈ s.blocks := by
    rw [c.open_eq]
    exact List.mem_cons_self
  have hrest : ∀ o ∈ c.blocks, o ∈ s.blocks := fun o ho => by
    rw [c.open_eq]
    exact List.mem_cons_of_mem _ ho
  have hblocks : c.inner.blocks = new ++ c.blocks := congrArg Session.blocks hinner
  have hinnerProgram : c.inner.program = s.program ++ c.trailer ++ extra :=
    congrArg Session.program hinner
  have hstarted : c.inner.program ≠ [] := by simp [hinnerProgram, h.started]
  have hfine : c.inner.Fine := by
    refine ⟨hsane, ?_⟩
    rw [hinner]
    exact hs.placed.mono (by simp)
  -- the labels of the block were counted as pending before
  have hcount : ∀ l, c.session.marks.count l =
      s.marks.count l + (Code.tags extra ++ new.flatMap OpenBlock.marks).count l := by
    intro l
    have hplain : c.inner.marks.count l + (if c.block.kind = .whileLoop then [] else
        [Label.finish c.block]).count l =
        s.marks.count l + (Code.tags extra ++ new.flatMap OpenBlock.marks).count l := by
      rw [hinner]
      simp only [marks, items, c.open_eq, List.flatMap_append, List.flatMap_cons, OpenBlock.marks,
        List.append_assoc, count_itemsOf_append hs.placed, List.count_append, Code.tags_append]
      omega
    rw [← hplain, show c.session = closed c.block c.inner from c.tagged.symm, closed]
    split
    · simp
    · exact count_tagLast (.finish c.block) hfine hstarted l
  have hknows : ∀ {symbol : Symbol},
      (∃ l ∈ Code.tags extra ++ new.flatMap OpenBlock.marks, symbol = .label l) →
      c.session.Knows symbol := by
    rintro symbol ⟨l, hl, rfl⟩
    have hpos := List.count_pos_iff.mpr hl
    have := hcount l
    exact List.count_pos_iff.mp (by omega)
  obtain ⟨hprogram, hlength⟩ := refs_closed c
  refine h.step ⟨_, hnew, hcount⟩ hg ?_ (fun ref href => ?_) (fun o ho ref href => ?_)
    (fun o ho hkind => ?_)
    (fun name frame hframe => .inl ⟨frame, hscope name ▸ hframe, rfl, fun _ => id⟩) ?_
  · exact List.ne_nil_of_length_pos (hlength ▸ List.length_pos_iff.mpr hstarted)
  · simp only [hprogram, hinnerProgram, Code.refs_append, List.mem_append] at href
    rcases href with (href | href) | href
    · exact .inl (h.program ref href)
    · exact .inl (h.trailers _ hopen ref href)
    · rcases hrefs ref href with hoffers | ⟨hdo, hbegin⟩ | hlabel
      · exact .inl (h.knows_of_offers hoffers)
      · exact .inl (hbegin ▸ h.opened _ hopen hdo)
      · exact .inr (hknows hlabel)
  · rcases List.mem_append.mp (hblocks ▸ ho) with ho | ho
    · simp [(hnone o ho).1] at href
    · exact .inl (h.trailers o (hrest o ho) ref href)
  · rcases List.mem_append.mp (hblocks ▸ ho) with ho | ho
    · exact absurd hkind (hnone o ho).2
    · exact .inl (hrest o ho)
  · show Code.tags c.inner.preamble = [] ∧ Code.refs c.inner.preamble = []
    rw [hinner]
    exact h.preamble

lemma Linked.subroutine (h : s.Linked) (hs : s.Fine) (o : OpensSub s) (hg : s.Grows o.session)
    (hc : o.left.Clean) : o.session.Linked := by
  obtain ⟨temp, htemp, hcode⟩ := o.exists_temp
  obtain ⟨hfree, -, -, hglobals⟩ := o.fresh_of_clean hc
  obtain ⟨hg₁, -⟩ := o.grows_left
  have hcontains : o.left.globals.contains o.name = true := by
    have hdeclared : o.globals.contains o.name = true := by
      simp [hglobals, SymbolTable.contains, SymbolTable.address?_declareWord]
    exact hg₁.globals.cells.contains (o.grows.globals.cells.contains hdeclared)
  have hmarks : OpenBlock.marks { block := o.block, trailer := o.code } = [.finish o.block] := by
    rw [hcode]
    rfl
  have hcount : ∀ l, o.session.marks.count l = s.marks.count l + (blockLabels o.block).count l := by
    intro l
    simp only [marks, items, List.flatMap_cons, hmarks, List.count_append,
      count_itemsOf_append hs.placed]
    have h2 : (blockLabels o.block).count l =
        ([Label.begin o.block] ++ [Label.finish o.block]).count l := rfl
    have h3 : Code.tags [.jump (.label (.finish o.block) 1),
        Instruction.nop.tagged (.begin o.block)] = [.begin o.block] := rfl
    rw [List.count_append] at h2
    rw [h3]
    omega
  have hmem : ∀ l ∈ blockLabels o.block, l ∈ o.session.marks := by
    intro l hl
    have h1 := hcount l
    have h2 := List.count_pos_iff.mpr hl
    exact List.count_pos_iff.mp (by omega)
  have hcall : Knows o.session (.cell callStackName) := .inl rfl
  have hown : Knows o.session (.cell o.name) := .inr hcontains
  refine h.step ⟨_, .block (Nat.le_refl _) ?_ (List.Sublist.refl _), hcount⟩ hg (by simp)
    (fun ref href => ?_) (fun o' ho ref href => ?_) (fun o' ho hdo => ?_)
    (fun name frame hframe => ?_) h.preamble
  · exact (Nat.lt_succ_self _).trans_le (o.grows.nextId.trans hg₁.nextId)
  · have hjump : Instruction.refs (.jump (.label (.finish o.block) 1)) =
        [⟨.label (.finish o.block), 1⟩] := refs_transfer (Operand.known_constant _)
    simp only [Code.refs_append, Code.refs_cons, Instruction.refs_tagged, hjump,
      Instruction.refs_nop, Code.refs_nil, List.append_nil, List.mem_append, List.mem_singleton]
      at href
    rcases href with href | rfl
    · exact .inl (h.program ref href)
    · exact .inr (hmem (.finish o.block) (by simp [blockLabels]))
  · rcases List.mem_cons.mp ho with rfl | ho
    · obtain ⟨n, hn, hsymbol⟩ := names_epilogueCode o.name temp ref (hcode ▸ href)
      right
      rw [hsymbol]
      simp only [List.mem_cons, List.not_mem_nil, or_false] at hn
      rcases hn with rfl | rfl
      · exact hown
      · exact hcall
    · exact .inl (h.trailers o' ho ref href)
  · rcases List.mem_cons.mp ho with rfl | ho
    · cases hdo
    · exact .inl ho
  · rw [Scope.frame?_within] at hframe
    split at hframe
    · rename_i heq
      obtain rfl := Option.some.inj hframe
      subst heq
      obtain ⟨hname, hblock⟩ := o.declared.name_eq
      refine .inr ⟨⟨hname, ⟨o.params, o.frame, hblock ▸ o.declared, rfl, rfl⟩, temp, htemp, hcode⟩,
        hcontains, hmem _ ?_, hfree⟩
      simp [blockLabels, hblock]
    · exact .inl ⟨frame, hframe, rfl, fun _ => id⟩

lemma Linked.leave (h : s.Linked) (hs : s.Fine) {name : String} {b : Workbench}
    (hg : s.Grows { s with
      bench := b, program := s.program ++ ((s.scope.frame? name).map Frame.epilogue).getD [] }) :
    Linked { s with
      bench := b, program := s.program ++ ((s.scope.frame? name).map Frame.epilogue).getD [] } := by
  have hcode : Code.tags (((s.scope.frame? name).map Frame.epilogue).getD []) = [] ∧
      ∀ ref ∈ Code.refs (((s.scope.frame? name).map Frame.epilogue).getD []),
        s.Knows ref.symbol := by
    rcases hframe : s.scope.frame? name with _ | frame
    · simp
    · obtain ⟨temp, -, hepilogue⟩ := (h.sound name frame hframe).epilogue
      simp only [Option.map_some, Option.getD_some, hepilogue]
      refine ⟨rfl, fun ref href => ?_⟩
      obtain ⟨n, hn, hsymbol⟩ := names_epilogueCode name temp ref href
      rw [hsymbol]
      simp only [List.mem_cons, List.not_mem_nil, or_false] at hn
      rcases hn with rfl | rfl
      · exact .inr (h.frames n frame hframe).1
      · exact .inl rfl
  refine h.emit hs [] hg ?_ (fun ref href => .inl (hcode.2 ref href)) (by simp) (by simp)
  rw [hcode.1]
  exact .nil _ _

lemma Linked.declare (h : s.Linked) (d : Introduces s) (hg : s.Grows d.session) :
    d.session.Linked := by
  have hsets := d.declarator.sets_stores d.name d.bench.globals
  refine h.step ⟨[], .nil _ _, fun _ => rfl⟩ hg h.started
    (fun ref href => .inl (h.program ref href))
    (fun b hb ref href => .inl (h.trailers b hb ref href)) (fun _ hb _ => .inl hb)
    (fun _ frame hframe => .inl ⟨frame, hframe, rfl, fun _ => id⟩) ?_
  simp [h.preamble, hsets.tags, hsets.refs]

lemma Linked.call (h : s.Linked) (q : Queues s) (hg : s.Grows q.session) : q.session.Linked := by
  have hcount : ∀ l, q.session.marks.count l = s.marks.count l := by
    intro l
    have hposition : s.nextCall.position = s.program.length := rfl
    simp only [marks, items, itemsOf_cons_end hposition, List.flatMap_append,
      List.flatMap_singleton, Item.tags, show s.nextCall.tags = [] from rfl, List.append_nil]
  refine h.step ⟨[], .nil _ _, hcount⟩ hg h.started (fun ref href => .inl (h.program ref href))
    (fun b hb ref href => .inl (h.trailers b hb ref href)) (fun _ hb _ => .inl hb)
    (fun name frame hframe => .inl ?_) h.preamble
  obtain ⟨first, hfirst, rfl | ⟨param, type, rfl⟩⟩ := q.frame? hframe
  · exact ⟨_, hfirst, rfl, fun _ => id⟩
  · exact ⟨first, hfirst, rfl, fun _ hsound => hsound.setType param type⟩

/-- A statement without errors keeps the symbols and the labels in order. -/
theorem Linked.effect (h : s.Linked) (hs : s.Fine) (he : Effect s s') (hg : s.Grows s')
    (hs' : s'.Fine) (hc : s'.bench.Clean) : s'.Linked := by
  cases he with
  | idle => exact h.idle hg
  | declare d => exact h.declare d hg
  | assign _ lower => exact h.assign hs lower hg
  | openFaulty _ hfaulty => exact absurd hc hfaulty
  | openIf o => exact h.openIf hs o hg
  | openWhile o => exact h.openWhile hs o hg
  | openDo o => exact h.openDo hs o hs'.sane hg
  | close c => exact h.close hs c hs'.sane hg
  | subroutine o => exact h.subroutine hs o hg hc
  | leave => exact h.leave hs hg
  | call q => exact h.call q hg

lemma grows_rested (s : Session) : s.Grows (rested s) := by
  refine ⟨.refl _, ?_, Nat.le_refl _, List.prefix_refl _, List.prefix_refl _, .refl _⟩
  rw [rested, ScratchPool.addresses_releaseAll]

lemma Grows.from_rested (h : s.Grows s') : (rested s).Grows s' := by
  refine ⟨h.globals, ?_, h.nextId, h.diagnostics, h.preamble, h.items⟩
  rw [rested, ScratchPool.addresses_releaseAll]
  exact h.scratch

lemma on_compileAll_succ (rounds : Nat) (s : Session) : (Statement.compileAll (rounds + 1)).on s =
    if s.bench.tokens.isEmpty then ((), s)
    else (Statement.compileAll rounds).on (Statement.compile.on s).2 := by
  rw [Statement.compileAll, Build.on_bind, Build.on_get]
  split <;> rfl

/-- The statements of a program without errors keep the symbols and the labels in order. -/
theorem Linked.compileAll (rounds : Nat) (h : s.Linked) (hs : s.Fine)
    (hc : ((Statement.compileAll rounds).on s).2.bench.Clean) :
    ((Statement.compileAll rounds).on s).2.Linked := by
  induction rounds generalizing s with
  | zero => exact h
  | succ rounds ih =>
    rw [on_compileAll_succ] at hc ⊢
    split
    · exact h
    · rename_i hne
      rw [if_neg hne] at hc
      have hs₀ := fine_rested hs
      obtain ⟨hs₁, hg₁⟩ := keeps_compile s hs
      obtain ⟨-, hg₂⟩ := keeps_compileAll rounds _ hs₁
      have h₀ : (rested s).Linked := h.idle (grows_rested s)
      exact ih (h₀.effect hs₀ (effect_compile hs) hg₁.from_rested hs₁ (hg₂.clean hc)) hs₁ hc

end Session

/-! ### Looking up labels -/

namespace Resolver

lemma lookup_of_mem {labels : List (Label × Nat)} {l : Label} {n : Nat}
    (hnodup : (labels.map Prod.fst).Nodup) (h : (l, n) ∈ labels) : labels.lookup l = some n := by
  obtain ⟨p, q, rfl⟩ := List.append_of_mem h
  refine List.lookup_eq_some_iff.mpr ⟨p, q, rfl, fun entry hentry => ?_⟩
  rw [List.map_append, List.nodup_append'] at hnodup
  have hne : l ≠ entry.1 := by
    rintro rfl
    exact hnodup.2.2 (List.mem_map_of_mem hentry) (by simp)
  simpa using hne

lemma mem_labelsOf {code : Code} {i : Instruction} {j : Nat} {l : Label} (hi : code[j]? = some i)
    (hl : l ∈ i.tags) : (l, j) ∈ labelsOf code := by
  rw [labelsOf, List.mem_reverse, List.mem_flatMap]
  exact ⟨(i, j), List.mk_mem_zipIdx_iff_getElem?.mpr hi, List.mem_map_of_mem hl⟩

lemma map_fst_labelsOf (code : Code) : (labelsOf code).map Prod.fst = (Code.tags code).reverse := by
  rw [labelsOf, List.map_reverse, List.map_flatMap, Code.tags]
  congr 1
  have htags : ∀ n, (code.zipIdx n).flatMap
      (fun entry => (entry.1.tags.map fun tag => (tag, entry.2)).map Prod.fst) =
      code.flatMap Instruction.tags := by
    induction code with
    | nil => intro n; rfl
    | cons i code ih =>
      intro n
      rw [List.zipIdx_cons, List.flatMap_cons, List.flatMap_cons, ih, List.map_map]
      exact congrArg (· ++ _) (List.map_id _)
  exact htags 0

lemma lookup_labelsOf {code : Code} (hnodup : (Code.tags code).Nodup) {i : Instruction} {j : Nat}
    {l : Label} (hi : code[j]? = some i) (hl : l ∈ i.tags) : (labelsOf code).lookup l = some j := by
  refine lookup_of_mem ?_ (mem_labelsOf hi hl)
  rw [map_fst_labelsOf]
  exact List.nodup_reverse.mpr hnodup

end Resolver
end CogolToolchain
