import CogolToolchain.Proofs.Compile.Denotation
import CogolToolchain.Proofs.Compile.Resolution
import CogolToolchain.Proofs.Compile.Work

/-!
Lowering a reference computes what the reference means.

The code of a reference writes scratch cells that were free. After it, the operand stands for the
meaning of the reference and is read through scratch cells of its own alone, provided that the
reference itself reads no hidden cell.
-/

namespace CogolToolchain

open Memory Machine Work Attempt

namespace ScratchPool

/-- The hidden cells are the program counter and at least the scratch cells, and every scratch cell
has an address of its own. -/
structure Fits (p : ScratchPool) (hidden : Set Word) : Prop where
  zero : 0 ∈ hidden
  scratch : ∀ t ∈ p.addresses, UInt16.ofNat t ∈ hidden
  small : ∀ t ∈ p.addresses, 2 ≤ t ∧ t < 65536

/-- What work may write that finds the pool `p` and leaves `p'`: the program counter and the scratch
cells that were free. -/
def spare (p p' : ScratchPool) : Set Word :=
  {w | w = 0 ∨ ∃ t ∈ p'.addresses, ¬ p.Busy t ∧ w = UInt16.ofNat t}

variable {p p' p'' : ScratchPool} {hidden : Set Word} {t t' : Nat}

lemma Fits.of_prefix (h : p'.Fits hidden) (hp : p.addresses <+: p'.addresses) : p.Fits hidden :=
  ⟨h.zero, fun t ht => h.scratch t (hp.subset ht), fun t ht => h.small t (hp.subset ht)⟩

lemma Fits.ofNat_inj (h : p.Fits hidden) (ht : t ∈ p.addresses) (ht' : t' ∈ p.addresses)
    (heq : UInt16.ofNat t = UInt16.ofNat t') : t = t' :=
  Word.ofNat_inj (h.small t ht).2 (h.small t' ht').2 heq

lemma Fits.ne_zero (h : p.Fits hidden) (ht : t ∈ p.addresses) : UInt16.ofNat t ≠ 0 := by
  have hsmall := h.small t ht
  exact Word.ofNat_ne_of_lt (b := 0) (by omega) hsmall.2

lemma Fits.ne_one (h : p.Fits hidden) (ht : t ∈ p.addresses) : UInt16.ofNat t ≠ 1 := by
  have hsmall := h.small t ht
  exact Word.ofNat_ne_of_lt (b := 1) (by omega) hsmall.2

lemma Fits.spare_subset (h : p'.Fits hidden) : spare p p' ⊆ hidden := by
  rintro w (rfl | ⟨t, ht, -, rfl⟩)
  · exact h.zero
  · exact h.scratch t ht

lemma Fits.notMem_spare (h : p'.Fits hidden) (hp : p.addresses <+: p'.addresses) (ht : p.Busy t) :
    UInt16.ofNat t ∉ spare p p' := by
  have hmem := hp.subset ht.mem_addresses
  rintro (h0 | ⟨t', ht', hfree, heq⟩)
  · exact h.ne_zero hmem h0
  · obtain rfl := h.ofNat_inj hmem ht' heq
    exact hfree ht

lemma Fits.pair_subset (h : p.Fits hidden) (ht : t ∈ p.addresses) :
    ({0, UInt16.ofNat t} : Set Word) ⊆ hidden := by
  rintro c (rfl | rfl)
  · exact h.zero
  · exact h.scratch t ht

section Cells

variable {cells : List Nat}

lemma Fits.zero_notMem_map (h : p.Fits hidden) (hcells : ∀ u ∈ cells, u ∈ p.addresses) :
    0 ∉ cells.map UInt16.ofNat := by
  intro h0
  obtain ⟨u, hu, heq⟩ := List.mem_map.mp h0
  exact h.ne_zero (hcells u hu) heq

lemma Fits.notMem_map (h : p.Fits hidden) (hcells : ∀ u ∈ cells, u ∈ p.addresses)
    (ht : t ∈ p.addresses) (hnot : t ∉ cells) : UInt16.ofNat t ∉ cells.map UInt16.ofNat := by
  intro hmem
  obtain ⟨u, hu, heq⟩ := List.mem_map.mp hmem
  obtain rfl := h.ofNat_inj (hcells u hu) ht heq
  exact hnot hu

end Cells

end ScratchPool

open ScratchPool

def Backed.own (a : Backed) : List Word := a.cells.map UInt16.ofNat

lemma Backed.own_notMem_pair {a : Backed} {p : ScratchPool} {hidden : Set Word} {t : Nat}
    (hf : p.Fits hidden) (ha : ∀ u ∈ a.cells, u ∈ p.addresses) (ht : t ∈ p.addresses)
    (hta : t ∉ a.cells) : ∀ c ∈ a.own, c ∉ ({0, UInt16.ofNat t} : Set Word) := by
  intro c hc
  obtain ⟨u, hu, rfl⟩ := List.mem_map.mp hc
  rintro (h0 | heq)
  · exact hf.ne_zero (ha u hu) h0
  · obtain rfl := hf.ofNat_inj (ha u hu) ht heq
    exact hta hu

/-- The layout says what the compiler knows and what symbols are resolved to. -/
structure Layout.Describes (L : Layout) (r : Resolver) (scope : Scope) (globals : SymbolTable) :
    Prop where
  type : ∀ {home name}, isReserved name = false → scope.type globals home name = L.type home name
  offset : ∀ {home name}, isReserved name = false →
    scope.offset globals home name = L.offset home name
  frame : ∀ {owner}, (scope.frame? owner).isSome →
    r.word (Reference.frameBase owner) = ⟨.address, L.frame owner⟩
  slot : ∀ owner name, r.word (.slot owner name) = ⟨.constant, L.slot owner name⟩

lemma Layout.Describes.pads {L : Layout} {r : Resolver} {scope : Scope} {g g' : SymbolTable}
    (h : L.Describes r scope g) (hg : g.Pads g') : L.Describes r scope g' where
  type := fun {home name} hname => by
    rw [← h.type hname]
    cases home with
    | global => simp only [Scope.type, Scope.table, hg.types hname]
    | frame owner => rfl
  offset := fun {home name} hname => by
    rw [← h.offset hname]
    cases home with
    | global => simp only [Scope.offset, Scope.table, hg.address? hname]
    | frame owner => rfl
  frame := h.frame
  slot := h.slot

lemma Layout.Describes.grows {L : Layout} {r : Resolver} {scope : Scope} {b b' : Workbench}
    (h : L.Describes r scope b.globals) (hg : b.Grows b') : L.Describes r scope b'.globals :=
  h.pads hg.globals

/-- What names stand for in code that is worked out on `globals` and resolved with `r` in the end:
variables are where they are declared, the cell of the active frame of a subroutine has its name,
and fields are where the frame has them. -/
def Layout.of (r : Resolver) (scope : Scope) (globals : SymbolTable) : Layout where
  type := scope.type globals
  offset := scope.offset globals
  frame owner := UInt16.ofNat ((r.globals.address? owner).getD 0)
  slot owner x := UInt16.ofNat (((r.scope.frame? owner).bind fun f => f.table.address? x).getD 0)

lemma Layout.describes_of (r : Resolver) (scope : Scope) (globals : SymbolTable) :
    (Layout.of r scope globals).Describes r scope globals where
  type _ := rfl
  offset _ := rfl
  frame {owner} _ := by
    have hframe : (Layout.of r scope globals).frame owner =
        UInt16.ofNat ((r.base? (.cell owner)).getD 0) := rfl
    rw [hframe, Reference.frameBase, Operand.named]
    cases haddress : r.base? (.cell owner) with
    | none => exact r.word_unknown haddress 0
    | some n => rw [r.word_symbolic haddress, Int.add_zero, Word.ofInt_natCast, Option.getD_some]
  slot owner x := by
    have hslot : (Layout.of r scope globals).slot owner x =
        UInt16.ofNat ((r.base? (.slot owner x)).getD 0) := rfl
    rw [hslot, Operand.slot]
    cases haddress : r.base? (.slot owner x) with
    | none => exact r.word_unknown haddress 0
    | some n => rw [r.word_symbolic haddress, Int.add_zero, Word.ofInt_natCast, Option.getD_some]

/-- The variable is not reserved, and lives in a frame only if there is one. -/
def Scope.Knows (scope : Scope) (h : Head) : Prop :=
  isReserved h.name = false ∧ ∀ owner, h.home = .frame owner → (scope.frame? owner).isSome

def Reference.Proper (scope : Scope) : Reference → Prop
  | numeral .. => True
  | plain h | field h _ => scope.Knows h
  | element h index => scope.Knows h ∧ index.Proper scope

/-- The code of an operand writes scratch cells that were free, and those that the operand owns are
the only ones still in use. -/
structure Lowers (p : ScratchPool) (a : Backed) (code : Code) (p' : ScratchPool) : Prop where
  quiet : ∀ i ∈ code, ∃ t ∈ p'.addresses, i.dest = .cellDest t ∧ ¬ p.Busy t
  busy : ∀ t, p'.Busy t ↔ p.Busy t ∨ t ∈ a.cells
  own : ∀ t ∈ a.cells, ¬ p.Busy t
  known : ∃ n, a.value = .known n

def Backed.Locates (m : Memory) (a : Backed) (w : Word) : Prop :=
  (a.cells = [] ∧ a.mode = .address ∧ a.word.value = w) ∨
    ∃ t, a = .through t ∧ m.read (UInt16.ofNat t) = w

lemma Backed.word_withMode_through (t : Nat) (mode : Mode) :
    ((Backed.through t).withMode mode).word = ⟨mode, UInt16.ofNat t⟩ := by
  have hword : ∀ n : Int, (⟨mode, .known n⟩ : Operand).word = ⟨mode, UInt16.ofInt n⟩ := fun _ => rfl
  have hop : ((Backed.through t).withMode mode).toOperand = ⟨mode, .known (Numeral.wrap32 t)⟩ := rfl
  rw [hop, hword, Word.ofInt_wrap32, Word.ofInt_natCast]

section Lowers

variable {hidden : Set Word} {p p' p'' : ScratchPool} {a : Backed} {code : Code}

lemma quiet_words {r : Resolver} (hf : p'.Fits hidden)
    (hq : ∀ i ∈ code, ∃ t ∈ p'.addresses, i.dest = .cellDest t ∧ ¬ p.Busy t) :
    ∀ i ∈ r.words code, i.Quiet ∧ i.dest.value ∈ spare p p' := by
  intro i hi
  obtain ⟨j, hj, rfl⟩ := r.mem_words.mp hi
  obtain ⟨t, ht, hdest, hfree⟩ := hq j hj
  rw [hdest, r.word_cellDest]
  exact ⟨⟨rfl, hf.ne_zero ht, hf.ne_one ht⟩, .inr ⟨t, ht, hfree, rfl⟩⟩

lemma eqOff_after_words {r : Resolver} (hf : p'.Fits hidden)
    (hq : ∀ i ∈ code, ∃ t ∈ p'.addresses, i.dest = .cellDest t ∧ ¬ p.Busy t) (k : Nat → Nat)
    (m : Memory) : EqOff (spare p p') m (after k (r.words code) m) :=
  eqOff_after (.inl rfl) (fun i hi => (quiet_words hf hq i hi).1)
    (fun i hi => (quiet_words hf hq i hi).2) k m

lemma Lowers.own_mem (h : Lowers p a code p') {t : Nat} (ht : t ∈ a.cells) : p'.Busy t :=
  (h.busy t).mpr (.inr ht)

lemma Lowers.keeps (h : Lowers p a code p') {t : Nat} (ht : p.Busy t) : p'.Busy t :=
  (h.busy t).mpr (.inl ht)

lemma Lowers.zero_notMem_own (h : Lowers p a code p') (hf : p'.Fits hidden) : 0 ∉ a.own := by
  exact hf.zero_notMem_map fun t ht => (h.own_mem ht).mem_addresses

lemma Lowers.withMode (h : Lowers p a code p') (mode : Mode) : Lowers p (a.withMode mode) code p' :=
  ⟨h.quiet, h.busy, h.own, h.known⟩

lemma Lowers.eqOff_hidden {r : Resolver} {σ m : Memory} (h : Lowers p a code p')
    (hf : p'.Fits hidden) (hm : EqOff hidden σ m) (k : Nat → Nat) :
    EqOff hidden σ (after k (r.words code) m) :=
  hm.trans ((eqOff_after_words hf h.quiet k m).mono hf.spare_subset)

lemma own_notMem_spare (hf : p'.Fits hidden) (hp : p.addresses <+: p'.addresses)
    (hown : ∀ t ∈ a.cells, p.Busy t) : ∀ c ∈ a.own, c ∉ spare p p' := by
  intro c hc
  obtain ⟨t, ht, rfl⟩ := List.mem_map.mp hc
  exact hf.notMem_spare hp (hown t ht)

end Lowers

namespace Reference

def lowerVariable (scope : Scope) (head : Head) : Work (Backed × Code) := do
  let offset ← headOffset scope head
  match head.home with
  | .global => return (.cell offset, [])
  | .frame owner => do
    let (temp, code) ← frameAddress owner offset
    return (.through temp, code)

lemma lowerPlain_eq (scope : Scope) (head : Head) : lowerPlain scope head = (do
    if (← headType scope head) = .array then Work.report (.arrayAsValue head.name)
    lowerVariable scope head) := rfl

def lowered (scope : Scope) (role : Role) (result : Except Problem Reference) :
    Attempt (Backed × Code) :=
  match result with
  | .ok r => r.lower scope role
  | .error p => failStatement p

lemma on_reference (scope : Scope) (role : Role) (b : Workbench) : (reference scope role).on b =
    (lowered scope role (read (scope.home? b.globals) 0 b.tokens).1).on
      { b with tokens := (read (scope.home? b.globals) 0 b.tokens).2 } := rfl

/-! ### Reading takes tokens from the front -/

lemma readField_suffix (ts : List Token) : (readField ts).2 <:+ Tokens.rest ts := by
  fun_induction readField ts with
  | case1 => exact List.suffix_refl _
  | case2 t ts name rest hread ih =>
    rw [hread] at ih
    exact (ih.trans (Tokens.rest_suffix ts)).trans (List.suffix_cons _ _)
  | case3 t ts name rest hread ih =>
    rw [hread] at ih
    exact (((List.suffix_cons _ _).trans ih).trans (Tokens.rest_suffix ts)).trans
      (List.suffix_cons _ _)
  | case4 t ts name rest _ hread ih =>
    rw [hread] at ih
    exact (ih.trans (Tokens.rest_suffix ts)).trans (List.suffix_cons _ _)
  | case5 t ts => exact List.suffix_refl _

lemma read_suffix (home? : Token → Option Home) (shift : Int) (ts : List Token) :
    (read home? shift ts).2 <:+ Tokens.rest ts := by
  fun_induction read home? shift ts with
  | case1 | case2 | case5 | case6 | case7 | case10 => exact List.suffix_refl _
  | case3 shift ts ih | case4 shift ts hne ih => exact ih.trans (Tokens.rest_suffix ts)
  | case8 shift t _ _ _ _ home _ head inner index rest hread ih =>
    rw [hread] at ih
    exact (ih.trans (Tokens.rest_suffix inner)).trans (List.suffix_cons _ _)
  | case9 shift t _ _ _ _ home _ head inner name rest hread =>
    have hsuffix := readField_suffix inner
    rw [hread] at hsuffix
    exact (hsuffix.trans (Tokens.rest_suffix inner)).trans (List.suffix_cons _ _)

/-! ### Lowering only adds to the workbench -/

section Careful

variable (scope : Scope) (role : Role) (head : Head)

lemma advances_headType : Advances false (headType scope head) :=
  advances_get.bind fun _ => advances_pure _

lemma advances_headOffset : Advances false (headOffset scope head) :=
  advances_get.bind fun _ => advances_pure _

lemma advances_frameAddress (owner : String) (offset : Nat) :
    Advances false (frameAddress owner offset) :=
  advances_allocScratch.bind fun _ => advances_pure _

lemma advances_lowerVariable : Advances false (lowerVariable scope head) := by
  refine (advances_headOffset scope head).bind fun offset => ?_
  split
  · exact advances_pure _
  · exact (advances_frameAddress _ _).bind fun _ => advances_pure _

lemma advances_lowerPlain : Advances false (lowerPlain scope head) := by
  rw [lowerPlain_eq]
  refine (advances_headType scope head).bind fun type => ?_
  split
  · exact (advances_report _).bind fun _ => advances_lowerVariable scope head
  · exact advances_lowerVariable scope head

lemma advances_fieldOwner : Advances false (fieldOwner scope head) := by
  refine (advances_headType scope head).bind fun type => ?_
  split
  · exact advances_pure _
  · exact advances_pure _
  · exact (advances_report _).bind fun _ => advances_pure _

lemma advances_lowerField (name : String) : Advances false (lowerField scope head name) := by
  refine (advances_fieldOwner scope head).bind fun owner =>
    (advances_headOffset scope head).bind fun offset => ?_
  split
  · exact advances_allocScratch.bind fun _ => advances_pure _
  · exact (advances_frameAddress _ _).bind fun _ => advances_pure _

lemma advances_lowerElement (index : Backed) : Advances false (lowerElement scope head index) := by
  refine (advances_headType scope head).bind fun type =>
    (advances_headOffset scope head).bind fun offset => ?_
  dsimp only
  split
  · exact advances_pure _
  · exact (advances_reuseScratch _).bind fun _ => advances_pure _
  · exact (advances_reuseScratch _).bind fun _ => advances_pure _
  · exact advances_allocScratch.bind fun _ => advances_pure _
  · exact (advances_reuseScratch _).bind fun _ => advances_pure _
  · exact (advances_frameAddress _ _).bind fun _ => advances_pure _

lemma careful_applyShift (shift : Int) (a : Backed) : Careful false (applyShift role shift a) := by
  cases role
  all_goals
    unfold applyShift
    dsimp only
    split
    · split
      · exact careful_pure _
      · exact careful_failHere rfl
    · exact careful_failHere rfl

lemma careful_closeIndex (name : Token) : Careful false (closeIndex name) := by
  refine (careful_lift (advances_eat _)).bind fun eaten => ?_
  split
  · exact careful_pure _
  · exact (careful_lift advances_peek).bind fun _ => careful_failStatement rfl

lemma careful_lower (r : Reference) : Careful false (r.lower scope role) := by
  induction r generalizing role with
  | numeral shift text value =>
    unfold lower
    split
    · exact careful_failStatement rfl
    · exact (careful_applyShift role shift _).bind fun _ => careful_pure _
  | plain head =>
    exact (careful_lift (advances_lowerPlain scope head)).bind fun _ =>
      (careful_applyShift role _ _).bind fun _ => careful_pure _
  | field head name =>
    exact (careful_lift (advances_lowerField scope head name)).bind fun _ =>
      (careful_applyShift role _ _).bind fun _ => careful_pure _
  | element head index ih =>
    exact (ih .source).bind fun _ => (careful_lift (advances_lowerElement scope head _)).bind
      fun _ =>
      (careful_lift (advances_releaseCells _)).bind fun _ =>
        (careful_closeIndex head.name).bind fun _ =>
      (careful_applyShift role _ _).bind fun _ => careful_pure _

/-! ### Reading -/

lemma isFatal_of_read {home? : Token → Option Home} {shift : Int} {ts : List Token} {p : Problem}
    (h : (read home? shift ts).1 = .error p) : p.IsFatal := by
  fun_induction read home? shift ts with
  | case3 shift ts ih | case4 shift ts hne ih => exact ih h
  | case2 | case5 | case7 =>
    obtain rfl : _ = p := Except.error.inj h
    rfl
  | case8 shift t _ _ _ _ home _ head inner index rest hread ih =>
    rw [hread] at ih
    cases index with
    | error q => exact ih (by simpa [Except.map] using h)
    | ok r => simp [Except.map] at h
  | case1 | case6 | case9 | case10 => simp at h

lemma knows_of_home? {scope : Scope} {globals : SymbolTable} {shift : Int}
    {name : Token} {home : Home} (hname : isReserved name = false)
    (h : scope.home? globals name = some home) : scope.Knows { shift, name, home } := by
  refine ⟨hname, fun owner howner => ?_⟩
  simp only [Scope.home?] at h
  split at h
  · rename_i owner' hfind
    obtain rfl : owner' = owner := by
      rw [Option.some.injEq] at h
      exact Home.frame.inj (h.trans howner)
    have hparam := List.find?_some hfind
    simp only [Scope.hasParam, Option.any_eq_true] at hparam
    obtain ⟨frame, hframe, -⟩ := hparam
    rw [hframe, Option.isSome_some]
  · split at h
    · rw [Option.some.injEq] at h
      exact Home.noConfusion (h.trans howner)
    · simp at h

lemma proper_of_read {scope : Scope} {globals : SymbolTable} {shift : Int} {ts : List Token}
    {r : Reference} (h : (read (scope.home? globals) shift ts).1 = .ok r) : r.Proper scope := by
  fun_induction read (scope.home? globals) shift ts generalizing r with
  | case3 shift ts ih | case4 shift ts hne ih => exact ih h
  | case1 shift home hhome =>
    obtain rfl := Except.ok.inj h
    exact knows_of_home? (by decide) hhome
  | case6 =>
    obtain rfl := Except.ok.inj h
    trivial
  | case8 shift t _ _ hname _ home hhome head inner index rest hread =>
    rename_i ih
    rw [hread] at ih
    cases index with
    | error q => simp [Except.map] at h
    | ok i =>
      obtain rfl := Except.ok.inj h
      exact ⟨knows_of_home? (by simpa using hname) hhome, ih rfl⟩
  | case9 shift t | case10 shift t =>
    rename ¬ isReserved t = true => hname
    obtain rfl := Except.ok.inj h
    exact knows_of_home? (by simpa using hname) ‹scope.home? globals t = some _›
  | case2 | case5 | case7 => simp at h

end Careful

/-! ### Lowering computes the meaning -/

section Meaning

variable {hidden : Set Word} {L : Layout} {r : Resolver} {scope : Scope} {b b' : Workbench}
  {head : Head} {role : Role} {a a' : Backed} {code : Code} {σ m : Memory} {t : Nat}

lemma lowers_of_takes (h : Takes b t b') (hcode : ∀ i ∈ code, i.dest = .cellDest t) :
    Lowers b.scratch (.through t) code b'.scratch where
  quiet i hi := ⟨t, h.mem, hcode i hi, h.free⟩
  busy u := by simpa [Backed.through] using h.busy u
  own u hu := by
    obtain rfl : u = t := by simpa [Backed.through] using hu
    exact h.free
  known := ⟨_, rfl⟩

lemma shows_number (m : Memory) (hidden : Set Word) (n : Int) :
    m.Shows hidden [] (r.word (.constant n)) (UInt16.ofInt n) := shows_constant m hidden _

lemma shows_cell (h : EqOff hidden σ m) {w : Word} (hw : w ∉ hidden) :
    m.Shows hidden [] ⟨.address, w⟩ (σ.read w) :=
  shows_of_eqOff h (a := ⟨.address, w⟩) (by simpa [Memory.path, Mode.level, trail] using hw)

lemma after_op {o : Opcode} {lhs rhs : Operand} {own own' : List Word} {x y w : Word}
    {p : ScratchPool} (ho : o.apply x y = some w) (hf : p.Fits hidden) (ht : t ∈ p.addresses)
    (hl : m.Shows hidden own (r.word lhs) x) (hlo : 0 ∉ own)
    (hr : m.Shows hidden own' (r.word rhs) y) (hro : 0 ∉ own') (hm : EqOff hidden σ m)
    (k : Nat → Nat)
    {m' : Memory} (h : after k (r.words [{ opcode := o, lhs, rhs, dest := .cellDest t }]) m = m') :
    EqOff hidden σ m' ∧ EqOff {0, UInt16.ofNat t} m m' ∧ m'.read (UInt16.ofNat t) = w := by
  rw [← h, r.words_cons, r.words_nil, r.word_cellDest]
  obtain ⟨hread, heq⟩ :=
    after_singleton (i := ⟨o, r.word lhs, r.word rhs, ⟨.constant, UInt16.ofNat t⟩⟩)
      ⟨rfl, hf.ne_zero ht, hf.ne_one ht⟩ hf.zero k hl hlo hr hro ho
  exact ⟨hm.trans (heq.mono (hf.pair_subset ht)), heq, hread⟩

lemma after_frameAddress {owner : String} {p : ScratchPool} (hf : p.Fits hidden)
    (ht : t ∈ p.addresses) (hframe : r.word (frameBase owner) = ⟨.address, L.frame owner⟩)
    (hm : EqOff hidden σ m) (hread : L.frame owner ∉ hidden) (offset : Int) (k : Nat → Nat)
    {m' : Memory}
    (h : after k (r.words [{ opcode := .add, lhs := frameBase owner, rhs := .constant offset,
                             dest := .cellDest t }]) m = m') :
    EqOff hidden σ m' ∧ EqOff {0, UInt16.ofNat t} m m' ∧
      m'.read (UInt16.ofNat t) = σ.read (L.frame owner) + UInt16.ofInt offset := by
  have hl : m.Shows hidden [] (r.word (frameBase owner)) (σ.read (L.frame owner)) := by
    rw [hframe]
    exact shows_cell hm hread
  exact after_op rfl hf ht hl (by simp) (shows_number m hidden offset) (by simp) hm k h

lemma level_of_ofLevel? {n : Int} {mode : Mode} (h : Mode.ofLevel? n = some mode) :
    (mode.level : Int) = n := by
  unfold Mode.ofLevel? at h
  split at h <;> simp at h <;> subst h <;> rfl

lemma withMode_of_applyShift {shift : Int} (h : Yields (applyShift role shift a) b a' b') :
    b' = b ∧ ∃ mode : Mode, (mode.level : Int) = a.mode.level + shift - role.drop ∧
      a' = a.withMode mode := by
  cases role
  all_goals
    simp only [applyShift] at h
    split at h
    · rename_i mode hmode
      have hlevel := level_of_ofLevel? hmode
      split at h
      · rw [yields_pure] at h
        exact ⟨h.2, mode, by simp only [Role.drop]; omega, h.1⟩
      · simp at h
    · simp at h

lemma shows_of_applyShift {shift : Int} {w : Word} (hloc : a.Locates m w)
    (hshift : Yields (applyShift role shift a) b a' b') (hm : EqOff hidden σ m)
    (hlevel : 0 ≤ shift + 1 - role.drop)
    (hreads : ∀ c ∈ σ.trail (shift + 1 - role.drop).toNat w, c ∉ hidden) :
    m.Shows hidden a'.own a'.word (σ.follow (shift + 1 - role.drop).toNat w) := by
  obtain ⟨-, mode, hmode, rfl⟩ := withMode_of_applyShift hshift
  rcases hloc with ⟨hcells, haddr, hw⟩ | ⟨t, rfl, ht⟩
  · -- the cell itself
    have hlvl : mode.level = (shift + 1 - role.drop).toNat := by
      rw [haddr] at hmode
      simp only [Mode.level] at hmode ⊢
      omega
    have hword : (a.withMode mode).word = ⟨mode, w⟩ := by
      rw [← hw]
      rfl
    have hown : (a.withMode mode).own = [] := by simp [Backed.own, Backed.withMode, hcells]
    rw [hword, hown, ← hlvl]
    rw [← hlvl] at hreads
    exact shows_of_eqOff hm (a := ⟨mode, w⟩) hreads
  · -- through a scratch cell
    have hlvl : mode.level = (shift + 1 - role.drop).toNat + 1 := by
      simp only [Backed.through, Operand.through, Mode.level] at hmode ⊢
      omega
    rw [Backed.word_withMode_through]
    exact shows_through hlvl hm ht hreads

/-- The operand of `ref` without its marks is found by the code. -/
structure Finds (hidden : Set Word) (L : Layout) (r : Resolver) (role : Role) (ref : Reference)
    (p : ScratchPool) (a : Backed) (code : Code) (p' : ScratchPool) : Prop where
  lowers : Lowers p a code p'
  locates : ∀ k m σ, EqOff hidden σ m → ref.isGrounded role = true →
    (∀ c ∈ ref.startReads L σ, c ∉ hidden) → a.Locates (after k (r.words code) m) (ref.start L σ)

lemma on_lowerPlain (scope : Scope) (head : Head) (b : Workbench) :
    ∃ b₁ : Workbench, b₁.globals = b.globals ∧ b₁.scratch = b.scratch ∧ b₁.tokens = b.tokens ∧
      (lowerPlain scope head).on b = match head.home with
        | .global => ((.cell (scope.offset b.globals head.home head.name), []), b₁)
        | .frame owner => ((.through (allocScratch.on b₁).1,
            [{ opcode := .add, lhs := frameBase owner,
               rhs := .constant (Numeral.wrap32 (scope.offset b.globals head.home head.name)),
               dest := .cellDest (allocScratch.on b₁).1 }]), (allocScratch.on b₁).2) := by
  by_cases harray : scope.type b.globals head.home head.name = .array
  · refine ⟨((report (.arrayAsValue head.name)).on b).2, rfl, rfl, rfl, ?_⟩
    have hglobals : ((report (.arrayAsValue head.name)).on b).2.globals = b.globals := rfl
    simp only [lowerPlain, headType, headOffset, frameAddress, Work.on_bind, Work.on_get,
      Work.on_pure, harray, ↓reduceIte, hglobals]
    cases head.home <;> simp
  · refine ⟨b, rfl, rfl, rfl, ?_⟩
    simp only [lowerPlain, headType, headOffset, frameAddress, Work.on_bind, Work.on_get,
      Work.on_pure, harray, ↓reduceIte]
    cases head.home <;> simp

lemma finds_plain (hb : b.Sane) (hk : scope.Knows head) (hd : L.Describes r scope b.globals)
    (h : (lowerPlain scope head).on b = ((a, code), b')) (hf : b'.scratch.Fits hidden) :
    Finds hidden L r role (.plain head) b.scratch a code b'.scratch := by
  obtain ⟨b₁, hglobals, hscratch, -, hrun⟩ := on_lowerPlain scope head b
  rw [h, hd.offset hk.1] at hrun
  rw [← hscratch]
  have hsane : b₁.Sane := hb.congr hglobals hscratch
  obtain ⟨shift, name, home⟩ := head
  cases home with
  | global =>
    simp only [Prod.mk.injEq] at hrun
    obtain ⟨⟨rfl, rfl⟩, rfl⟩ := hrun
    refine ⟨⟨by simp, by simp [Backed.cell, Backed.ofOperand], by simp [Backed.cell,
      Backed.ofOperand], ⟨_, rfl⟩⟩, fun k m σ hm _ hreads => .inl ⟨rfl, rfl, ?_⟩⟩
    have hword := r.word_cell (L.offset .global name)
    rw [r.word_of_known rfl] at hword
    show (Operand.cell _).word.value = _
    rw [hword]
    simp [start, Layout.cell, Layout.origin]
  | frame owner =>
    have htakes := takes_allocScratch hsane
    simp only [Prod.mk.injEq] at hrun
    obtain ⟨⟨rfl, rfl⟩, rfl⟩ := hrun
    refine ⟨lowers_of_takes htakes (by simp), fun k m σ hm _ hreads => .inr ⟨_, rfl, ?_⟩⟩
    obtain ⟨-, -, hread⟩ := after_frameAddress hf htakes.mem (hd.frame (hk.2 owner rfl)) hm
      (hreads _ (by simp [startReads, Layout.originReads]))
      (Numeral.wrap32 (L.offset (.frame owner) name)) k rfl
    rw [hread, Word.ofInt_wrap32, Word.ofInt_natCast]
    rfl

lemma shows_own_cell {w : Word} (hm : EqOff hidden σ m) (hread : m.read (UInt16.ofNat t) = w) :
    m.Shows hidden [UInt16.ofNat t] (r.word (.cell t)) w := by
  rw [r.word_cell]
  exact shows_through (n := 0) rfl hm hread (by simp [trail])

lemma shows_through_cell {w : Word} (hm : EqOff hidden σ m)
    (hread : m.read (UInt16.ofNat t) = w) (hw : w ∉ hidden) :
    m.Shows hidden [UInt16.ofNat t] (r.word (.through t)) (σ.read w) := by
  rw [r.word_through]
  exact shows_through (n := 1) rfl hm hread (by simpa [trail] using hw)

lemma on_lowerField (scope : Scope) (head : Head) (name : String) (b : Workbench) :
    ∃ b₁ : Workbench, b₁.globals = b.globals ∧ b₁.scratch = b.scratch ∧ b₁.tokens = b.tokens ∧
      ∀ owner, owner = (match scope.type b.globals head.home head.name with
        | .pointer sub => sub
        | _ => head.name) →
      (lowerField scope head name).on b = ((.through (allocScratch.on b₁).1, match head.home with
        | .global => [{ opcode := .add, rhs := .slot owner name,
                        lhs := .cell (scope.offset b.globals head.home head.name),
                        dest := .cellDest (allocScratch.on b₁).1 }]
        | .frame sub => [{ opcode := .add, lhs := frameBase sub,
                           rhs :=
                           .constant (Numeral.wrap32 (scope.offset b.globals head.home head.name)),
                           dest := .cellDest (allocScratch.on b₁).1 },
                         { opcode := .add, lhs := .through (allocScratch.on b₁).1,
                           rhs := .slot owner name,
                           dest := .cellDest (allocScratch.on b₁).1 }]),
        (allocScratch.on b₁).2) := by
  rcases htype : scope.type b.globals head.home head.name with _ | _ | sub
  · refine ⟨b, rfl, rfl, rfl, ?_⟩
    rintro owner rfl
    simp only [lowerField, fieldOwner, headType, headOffset, frameAddress,
      Work.on_bind, Work.on_get, Work.on_pure, htype]
    cases head.home <;> simp
  · refine ⟨((report (.fieldOfArray head.name)).on b).2, rfl, rfl, rfl, ?_⟩
    rintro owner rfl
    have hglobals : ((report (.fieldOfArray head.name)).on b).2.globals = b.globals := rfl
    simp only [lowerField, fieldOwner, headType, headOffset, frameAddress,
      Work.on_bind, Work.on_get, Work.on_pure, htype, hglobals]
    cases head.home <;> simp
  · refine ⟨b, rfl, rfl, rfl, ?_⟩
    rintro owner rfl
    simp only [lowerField, fieldOwner, headType, headOffset, frameAddress,
      Work.on_bind, Work.on_get, Work.on_pure, htype]
    cases head.home <;> simp

lemma finds_field {name : String} (hb : b.Sane) (hk : scope.Knows head)
    (hd : L.Describes r scope b.globals)
    (h : (lowerField scope head name).on b = ((a, code), b')) (hf : b'.scratch.Fits hidden) :
    Finds hidden L r role (.field head name) b.scratch a code b'.scratch := by
  obtain ⟨b₁, hglobals, hscratch, -, hrun⟩ := on_lowerField scope head name b
  have howner : L.fieldOwner head = (match scope.type b.globals head.home head.name with
      | .pointer sub => sub
      | _ => head.name) := by
    rw [hd.type hk.1]
    rfl
  replace hrun := hrun _ howner
  rw [h, hd.offset hk.1] at hrun
  rw [← hscratch]
  have htakes := takes_allocScratch (hb.congr hglobals hscratch)
  have hslot : ∀ m : Memory, m.Shows hidden [] (r.word (.slot (L.fieldOwner head) name))
      (L.slot (L.fieldOwner head) name) := fun m => by
    rw [hd.slot]
    exact shows_constant m hidden _
  obtain ⟨shift, var, home⟩ := head
  cases home with
  | global =>
    simp only [Prod.mk.injEq] at hrun
    obtain ⟨⟨rfl, rfl⟩, rfl⟩ := hrun
    refine ⟨lowers_of_takes htakes (by simp), fun k m σ hm _ hreads => .inr ⟨_, rfl, ?_⟩⟩
    have hcell : UInt16.ofNat (L.offset .global var) ∉ hidden := hreads _ (by
      simp [startReads, Layout.cell, Layout.origin])
    have hl : m.Shows hidden [] (r.word (.cell (L.offset .global var)))
        (σ.read (UInt16.ofNat (L.offset .global var))) := by
      rw [r.word_cell]
      exact shows_cell hm hcell
    rw [(after_op rfl hf htakes.mem hl (by simp) (hslot m) (by simp) hm k rfl).2.2]
    simp [start, Layout.cell, Layout.origin]
  | frame owner =>
    simp only [Prod.mk.injEq] at hrun
    obtain ⟨⟨rfl, rfl⟩, rfl⟩ := hrun
    refine ⟨lowers_of_takes htakes (by simp), fun k m σ hm _ hreads => .inr ⟨_, rfl, ?_⟩⟩
    rw [r.words_cons_eq, after_append]
    obtain ⟨hm', -, hread⟩ := after_frameAddress hf htakes.mem (hd.frame (hk.2 owner rfl)) hm
      (hreads _ (by simp [startReads, Layout.originReads]))
      (Numeral.wrap32 (L.offset (.frame owner) var)) k rfl
    rw [Word.ofInt_wrap32, Word.ofInt_natCast] at hread
    have hl := shows_through_cell (r := r) hm' hread (hreads _ (by
      simp [startReads, Layout.cell, Layout.origin]))
    rw [(after_op rfl hf htakes.mem hl (by simpa using (hf.ne_zero htakes.mem).symm)
      (hslot _) (by simp) hm' _ rfl).2.2]
    simp [start, Layout.cell, Layout.origin]

def Reuses (b : Workbench) (i : Backed) (t : Nat) (b' : Workbench) : Prop :=
  (t ∈ i.cells ∧ b' = b) ∨ Takes b t b'

lemma reuses_reuseScratch (hb : b.Sane) (i : Backed) :
    Reuses b i ((reuseScratch i).on b).1 ((reuseScratch i).on b).2 := by
  unfold reuseScratch
  split
  · rename_i address rest hcells
    exact .inl ⟨by simp [hcells], rfl⟩
  · exact .inr (takes_allocScratch hb)

lemma lowers_element {i : Backed} {before : Code} {b₁ : Workbench} (hb₁ : b₁.Sane)
    (hi : Lowers b.scratch i before b₁.scratch) (hreuse : Reuses b₁ i t b')
    (hcode : ∀ j ∈ code, j.dest = .cellDest t) :
    Lowers b.scratch (.through t) (before ++ code)
      ((i.cells.filter fun u => !(Backed.through t).cells.contains u).foldl
        release b'.scratch) := by
  have hmem : t ∈ b'.scratch.addresses ∧ ¬ b.scratch.Busy t ∧
      b₁.scratch.addresses <+: b'.scratch.addresses ∧ b'.Sane := by
    rcases hreuse with ⟨ht, rfl⟩ | ht
    · exact ⟨(hi.own_mem ht).mem_addresses, hi.own t ht, List.prefix_refl _, hb₁⟩
    · exact ⟨ht.mem, fun hbusy => ht.free (hi.keeps hbusy), ht.grows.scratch, ht.sane⟩
  obtain ⟨hmem, hfree, hprefix, hsane⟩ := hmem
  refine ⟨fun j hj => ?_, fun u => ?_, fun u hu => ?_, ⟨_, rfl⟩⟩
  · rw [addresses_foldl_release]
    rcases List.mem_append.mp hj with hj | hj
    · obtain ⟨u, hu, hdest, hnot⟩ := hi.quiet j hj
      exact ⟨u, hprefix.subset hu, hdest, hnot⟩
    · exact ⟨t, hmem, hcode j hj, hfree⟩
  · have hown := hi.own u
    have hbusy := hi.busy u
    rw [busy_foldl_release hsane.nodup]
    simp only [Backed.through, List.mem_filter, List.contains_eq_mem, List.mem_singleton,
      Bool.not_eq_eq_eq_not, Bool.not_true, decide_eq_false_iff_not]
    rcases hreuse with ⟨ht, rfl⟩ | ht
    · by_cases hut : u = t
      · subst hut
        tauto
      · tauto
    · have htake := ht.busy u
      by_cases hut : u = t
      · subst hut
        have := ht.free
        tauto
      · tauto
  · obtain rfl : u = t := by simpa [Backed.through] using hu
    exact hfree

lemma eq_of_constant? {i : Backed} {n : Int} {x : Word} {own : List Word} (h : i.constant? = some n)
    (hx : m.Shows hidden own i.word x) : x = UInt16.ofInt n := by
  obtain ⟨⟨mode, value⟩, cells⟩ := i
  cases mode <;> simp [Operand.constant?] at h
  rw [← hx.eval_eq]
  simp [Operand.word, h, Memory.eval, Mode.level, follow]

inductive ElementCode (L : Layout) (b : Workbench) (head : Head) (i : Backed) :
    Backed → Code → Workbench → Prop
  | direct {n : Int} (hhome : head.home = .global) (hn : i.constant? = some n)
      (harray : L.type head.home head.name = .array) :
      ElementCode L b head i
        (.ofOperand ⟨.address, .known (Numeral.wrap32 (L.offset head.home head.name + 1 + n))⟩) [] b
  | indexed {t : Nat} {b' : Workbench} (hhome : head.home = .global) (hn : i.constant? = none)
      (harray : L.type head.home head.name = .array) (ht : Reuses b i t b') :
      ElementCode L b head i (.through t)
        [{ opcode := .add, lhs := .constant (Numeral.wrap32 (L.offset head.home head.name + 1)),
           rhs := i.toOperand, dest := .cellDest t }] b'
  | pointed {t : Nat} {b' : Workbench} (hhome : head.home = .global)
      (harray : L.type head.home head.name ≠ .array) (ht : Reuses b i t b') :
      ElementCode L b head i (.through t)
        [{ opcode := .add, lhs := .cell (L.offset head.home head.name), rhs := i.toOperand,
           dest := .cellDest t }] b'
  | frameDirect {owner : String} {n : Int} {t : Nat} {b' : Workbench}
      (hhome : head.home = .frame owner) (hn : i.constant? = some n)
      (harray : L.type head.home head.name = .array) (ht : Takes b t b') :
      ElementCode L b head i (.through t)
        [{ opcode := .add, lhs := frameBase owner, dest := .cellDest t,
           rhs := .constant (Numeral.wrap32 (L.offset head.home head.name + 1 + n)) }] b'
  | frameIndexed {owner : String} {t : Nat} {b' : Workbench} (hhome : head.home = .frame owner)
      (harray : L.type head.home head.name = .array) (ht : Reuses b i t b') :
      ElementCode L b head i (.through t)
        [{ opcode := .add, lhs := frameBase owner, rhs := i.toOperand, dest := .cellDest t },
         { opcode := .add, lhs := .cell t, dest := .cellDest t,
           rhs := .constant (Numeral.wrap32 (L.offset head.home head.name + 1)) }] b'
  | framePointed {owner : String} {t : Nat} {b' : Workbench} (hhome : head.home = .frame owner)
      (harray : L.type head.home head.name ≠ .array) (ht : Takes b t b') :
      ElementCode L b head i (.through t)
        [{ opcode := .add, lhs := frameBase owner, dest := .cellDest t,
           rhs := .constant (Numeral.wrap32 (L.offset head.home head.name)) },
         { opcode := .add, lhs := .through t, rhs := i.toOperand, dest := .cellDest t }] b'

lemma elementCode_of_lowerElement {i : Backed} (hb : b.Sane) (hk : scope.Knows head)
    (hd : L.Describes r scope b.globals) (h : (lowerElement scope head i).on b = ((a, code), b')) :
    ElementCode L b head i a code b' := by
  simp only [lowerElement, headType, headOffset, Work.on_bind, Work.on_get, Work.on_pure,
    hd.type hk.1, hd.offset hk.1] at h
  split at h
  · rename_i hhome harray hn
    simp only [Work.on_pure, Prod.mk.injEq] at h
    obtain ⟨⟨rfl, rfl⟩, rfl⟩ := h
    exact .direct hhome hn (by simpa using harray)
  · rename_i hhome harray hn
    simp only [Work.on_bind, Work.on_pure, Prod.mk.injEq] at h
    obtain ⟨⟨rfl, rfl⟩, rfl⟩ := h
    exact .indexed hhome hn (by simpa using harray) (reuses_reuseScratch hb i)
  · rename_i hhome harray
    simp only [Work.on_bind, Work.on_pure, Prod.mk.injEq] at h
    obtain ⟨⟨rfl, rfl⟩, rfl⟩ := h
    exact .pointed hhome (by simpa using harray) (reuses_reuseScratch hb i)
  · rename_i owner n hhome harray hn
    simp only [Work.on_bind, Work.on_pure, Prod.mk.injEq] at h
    obtain ⟨⟨rfl, rfl⟩, rfl⟩ := h
    exact .frameDirect hhome hn (by simpa using harray) (takes_allocScratch hb)
  · rename_i owner hhome harray hn
    simp only [Work.on_bind, Work.on_pure, Prod.mk.injEq] at h
    obtain ⟨⟨rfl, rfl⟩, rfl⟩ := h
    exact .frameIndexed hhome (by simpa using harray) (reuses_reuseScratch hb i)
  · rename_i owner hhome harray
    simp only [frameAddress, Work.on_bind, Work.on_pure, Prod.mk.injEq] at h
    obtain ⟨⟨rfl, rfl⟩, rfl⟩ := h
    exact .framePointed hhome (by simpa using harray) (takes_allocScratch hb)

/-- Where the elements of a variable start: behind an array, or where a pointer points. -/
def elementBase (L : Layout) (σ : Memory) (head : Head) : Word :=
  if L.type head.home head.name = .array then L.cell σ head + 1 else σ.read (L.cell σ head)

lemma ElementCode.lowers {i : Backed} {before : Code} {b₁ b₂ : Workbench}
    (h : ElementCode L b₁ head i a code b₂) (hb₁ : b₁.Sane)
    (hi : Lowers b.scratch i before b₁.scratch) :
    Lowers b.scratch a (before ++ code)
      ((i.cells.filter fun u => !a.cells.contains u).foldl release b₂.scratch) := by
  cases h with
  | direct =>
    have hcells : i.cells.filter (fun u => !([] : List Nat).contains u) = i.cells := by simp
    rw [List.append_nil]
    refine ⟨fun j hj => ?_, fun u => ?_, by simp [Backed.ofOperand], ⟨_, rfl⟩⟩
    · rw [addresses_foldl_release]
      exact hi.quiet j hj
    · have hown := hi.own u
      have hbusy := hi.busy u
      rw [busy_foldl_release hb₁.nodup]
      simp only [Backed.ofOperand, hcells, List.not_mem_nil, or_false]
      tauto
  | indexed _ _ _ ht | pointed _ _ ht | frameIndexed _ _ ht =>
    exact lowers_element hb₁ hi ht (by simp)
  | frameDirect _ _ _ ht | framePointed _ _ ht => exact lowers_element hb₁ hi (.inr ht) (by simp)

lemma Reuses.mem {i : Backed} {before : Code} {b₁ b₂ : Workbench} (ht : Reuses b₁ i t b₂)
    (hi : Lowers b.scratch i before b₁.scratch) : t ∈ b₂.scratch.addresses := by
  rcases ht with ⟨ht, rfl⟩ | ht
  · exact (hi.own_mem ht).mem_addresses
  · exact ht.mem

lemma ElementCode.locates {i : Backed} {before : Code} {b₁ b₂ : Workbench} {x : Word}
    (h : ElementCode L b₁ head i a code b₂) (hk : scope.Knows head)
    (hd : L.Describes r scope b₁.globals) (hi : Lowers b.scratch i before b₁.scratch)
    (hgrow : b₁.scratch.addresses <+: b₂.scratch.addresses) (hf : b₂.scratch.Fits hidden)
    (hm : EqOff hidden σ m) (hx : m.Shows hidden i.own i.word x)
    (horigin : ∀ c ∈ L.originReads head.home, c ∉ hidden)
    (hcell : L.type head.home head.name ≠ .array → L.cell σ head ∉ hidden) (k : Nat → Nat) :
    a.Locates (after k (r.words code) m) (elementBase L σ head + x) := by
  have hzero : 0 ∉ i.own := hi.zero_notMem_own (hf.of_prefix hgrow)
  obtain ⟨n, hn⟩ := hi.known
  have hx' : m.Shows hidden i.own (r.word i.toOperand) x := by
    rw [r.word_of_known hn]
    exact hx
  obtain ⟨shift, name, home⟩ := head
  cases h with
  | direct hhome hconst harray =>
    subst hhome
    refine .inl ⟨rfl, rfl, ?_⟩
    have hword : ∀ n : Int, (⟨.address, .known n⟩ : Operand).word.value = UInt16.ofInt n :=
      fun _ => rfl
    show (⟨.address, .known _⟩ : Operand).word.value = _
    rw [hword, eq_of_constant? hconst hx, Word.ofInt_wrap32]
    simp [elementBase, harray, Layout.cell, Layout.origin, Word.ofInt_natCast]
  | indexed hhome _ harray ht =>
    subst hhome
    refine .inr ⟨_, rfl, ?_⟩
    rw [(after_op rfl hf (ht.mem hi) (shows_number m hidden _) (by simp) hx' hzero hm k rfl).2.2]
    simp [elementBase, harray, Layout.cell, Layout.origin, Word.ofInt_natCast]
  | pointed hhome harray ht =>
    subst hhome
    refine .inr ⟨_, rfl, ?_⟩
    have hl : m.Shows hidden [] (r.word (.cell (L.offset .global name)))
        (σ.read (UInt16.ofNat (L.offset .global name))) := by
      rw [r.word_cell]
      exact shows_cell hm (by simpa [Layout.cell, Layout.origin] using hcell harray)
    rw [(after_op rfl hf (ht.mem hi) hl (by simp) hx' hzero hm k rfl).2.2]
    simp [elementBase, harray, Layout.cell, Layout.origin]
  | frameDirect hhome hconst harray ht =>
    subst hhome
    refine .inr ⟨_, rfl, ?_⟩
    rw [(after_frameAddress hf ht.mem (hd.frame (hk.2 _ rfl)) hm
      (horigin _ (by simp [Layout.originReads])) _ k rfl).2.2, eq_of_constant? hconst hx]
    simp [elementBase, harray, Layout.cell, Layout.origin, Word.ofInt_natCast, UInt16.add_assoc]
  | @frameIndexed owner t _ hhome harray ht =>
    subst hhome
    refine .inr ⟨_, rfl, ?_⟩
    rw [r.words_cons_eq, after_append]
    have hl : m.Shows hidden [] (r.word (frameBase owner)) (σ.read (L.frame owner)) := by
      rw [hd.frame (hk.2 _ rfl)]
      exact shows_cell hm (horigin _ (by simp [Layout.originReads]))
    obtain ⟨hm', -, hread⟩ :=
      after_op (o := .add) rfl hf (ht.mem hi) hl (by simp) hx' hzero hm k rfl
    have hl' := shows_own_cell (r := r) hm' hread
    rw [(after_op rfl hf (ht.mem hi) hl' (by simpa using (hf.ne_zero (ht.mem hi)).symm)
      (shows_number _ hidden _) (by simp) hm' _ rfl).2.2]
    simp only [elementBase, harray, ↓reduceIte, Layout.cell, Layout.origin, Word.ofInt_wrap32,
      UInt16.ofInt_add, Word.ofInt_natCast, UInt16.ofInt_one]
    ac_rfl
  | @framePointed owner t _ hhome harray ht =>
    subst hhome
    refine .inr ⟨_, rfl, ?_⟩
    rw [r.words_cons_eq, after_append]
    obtain ⟨hm', hchanged, hread⟩ := after_frameAddress hf ht.mem (hd.frame (hk.2 _ rfl)) hm
      (horigin _ (by simp [Layout.originReads]))
      (Numeral.wrap32 (L.offset (.frame owner) name)) k rfl
    rw [Word.ofInt_wrap32, Word.ofInt_natCast] at hread
    -- the cell of the index is not the one that the address is computed in
    have hown := Backed.own_notMem_pair hf (fun u hu => hgrow.subset (hi.own_mem hu).mem_addresses)
      ht.mem fun hu => ht.free (hi.own_mem hu)
    have hl := shows_through_cell (r := r) hm' hread (by
      simpa [Layout.cell, Layout.origin] using hcell harray)
    rw [(after_op rfl hf ht.mem hl (by simpa using (hf.ne_zero ht.mem).symm)
      (hx'.congr hchanged (hf.pair_subset ht.mem) hown) hzero hm' _ rfl).2.2]
    simp [elementBase, harray, Layout.cell, Layout.origin]

lemma eat?_of_closeIndex {name : Token} {u : Unit} (h : Yields (closeIndex name) b u b') :
    ∃ rest, Tokens.eat? "]" b.tokens = some rest ∧ b' = { b with tokens := rest } := by
  simp only [closeIndex, yields_bind, yields_lift, on_eat] at h
  obtain ⟨eaten, b₁, heat, h⟩ := h
  split at heat
  · rename_i rest hrest
    obtain ⟨rfl, rfl⟩ := Prod.mk.inj heat
    simp only [↓reduceIte, yields_pure] at h
    exact ⟨rest, hrest, h.2⟩
  · obtain ⟨rfl, rfl⟩ := Prod.mk.inj heat
    simp at h

/-- The code of `ref` and its operand compute what `ref` means. -/
structure Computes (hidden : Set Word) (L : Layout) (r : Resolver) (role : Role) (ref : Reference)
    (p : ScratchPool) (a : Backed) (code : Code) (p' : ScratchPool) : Prop where
  lowers : Lowers p a code p'
  shows : ∀ k m σ, EqOff hidden σ m → ref.isGrounded role = true →
    (∀ c ∈ ref.reads L σ role, c ∉ hidden) →
    (after k (r.words code) m).Shows hidden a.own a.word (ref.meaning L σ role)

lemma Finds.computes {ref : Reference} {p p' : ScratchPool} {shift : Int}
    (h : Finds hidden L r role ref p a code p') (hf : p'.Fits hidden)
    (hshift : Yields (applyShift role shift a) b a' b') (hdepth : ref.depth = shift + 1)
    (hground : ref.isGrounded role = true → 0 ≤ ref.level role) :
    Computes hidden L r role ref p a' code p' := by
  refine ⟨?_, fun k m σ hm hg hreads => ?_⟩
  · obtain ⟨-, mode, -, rfl⟩ := withMode_of_applyShift hshift
    exact h.lowers.withMode mode
  · have hlevel : ref.level role = shift + 1 - role.drop := by rw [level, hdepth]
    have hloc := h.locates k m σ hm hg fun c hc => hreads c (by simp [reads, hc])
    have hm' := h.lowers.eqOff_hidden (r := r) hf hm k
    rw [meaning, hlevel]
    refine shows_of_applyShift hloc hshift hm' (hlevel ▸ hground hg) fun c hc => hreads c ?_
    rw [reads, hlevel]
    exact List.mem_append_right _ hc

theorem computes_of_lower {ref : Reference} (h : Yields (ref.lower scope role) b (a, code) b')
    (hb : b.Sane) (hp : ref.Proper scope) (hd : L.Describes r scope b.globals)
    (hf : b'.scratch.Fits hidden) : Computes hidden L r role ref b.scratch a code b'.scratch := by
  induction ref generalizing role b b' a code with
  | numeral shift text value =>
    simp only [lower] at h
    split at h
    · simp at h
    · simp only [yields_bind, yields_pure, Prod.mk.injEq] at h
      obtain ⟨a', b₁, hshift, ⟨rfl, rfl⟩, rfl⟩ := h
      obtain ⟨rfl, mode, hmode, rfl⟩ := withMode_of_applyShift hshift
      refine ⟨⟨by simp, by simp [Backed.withMode, Backed.constant, Backed.ofOperand],
        by simp [Backed.withMode, Backed.constant, Backed.ofOperand], ⟨_, rfl⟩⟩,
        fun k m σ hm hg hreads => ?_⟩
      have hlevel : (mode.level : Int) = (numeral shift text value).level role := by
        have hzero : ((Backed.constant value).mode.level : Int) = 0 := rfl
        rw [hmode, hzero, level, depth]
        omega
      have htoNat : ((numeral shift text value).level role).toNat = mode.level := by omega
      rw [meaning, htoNat]
      exact shows_of_eqOff hm (a := ⟨mode, UInt16.ofInt value⟩) fun c hc =>
        hreads c (by rw [reads, htoNat]; exact List.mem_append_right _ hc)
  | plain head =>
    simp only [lower, yields_bind, yields_lift, yields_pure, Prod.exists, Prod.mk.injEq] at h
    obtain ⟨a₀, code₀, b₁, hrun, a', b₂, hshift, ⟨rfl, rfl⟩, rfl⟩ := h
    obtain ⟨rfl, -⟩ := withMode_of_applyShift hshift
    exact (finds_plain hb hp hd hrun hf).computes hf hshift rfl (by simp [isGrounded])
  | field head name =>
    simp only [lower, yields_bind, yields_lift, yields_pure, Prod.exists, Prod.mk.injEq] at h
    obtain ⟨a₀, code₀, b₁, hrun, a', b₂, hshift, ⟨rfl, rfl⟩, rfl⟩ := h
    obtain ⟨rfl, -⟩ := withMode_of_applyShift hshift
    exact (finds_field hb hp hd hrun hf).computes hf hshift rfl (by simp [isGrounded])
  | element head index ih =>
    simp only [lower, yields_bind, yields_lift, yields_pure, Prod.exists, Prod.mk.injEq] at h
    obtain ⟨i, before, b₁, hindex, a₀, code₀, b₂, hrun, _, b₃, hrelease, _, b₄, hclose, a', b₅,
      hshift, ⟨rfl, rfl⟩, rfl⟩ := h
    obtain ⟨rfl, -⟩ := withMode_of_applyShift hshift
    obtain ⟨rest, -, rfl⟩ := eat?_of_closeIndex hclose
    obtain rfl := (Prod.mk.inj ((on_releaseCells _ _).symm.trans hrelease)).2
    obtain ⟨hb₁, hgrow⟩ := (careful_lower scope .source index).grows hb hindex
    have hgrow' : b₁.Grows b₂ := by
      have := (advances_lowerElement scope head i).keeps b₁ hb₁ |>.2
      rwa [hrun] at this
    have hf₂ : b₂.scratch.Fits hidden := hf.of_prefix (by simp)
    have hf₁ := hf₂.of_prefix hgrow'.scratch
    have hind := ih hindex hb hp.2 hd hf₁
    have helement := elementCode_of_lowerElement hb₁ hp.1 (hd.grows hgrow) hrun
    refine Finds.computes ⟨helement.lowers hb₁ hind.lowers, fun k m σ hm hg hreads => ?_⟩ hf
      hshift rfl (by simp only [isGrounded, Bool.and_eq_true, decide_eq_true_eq]; exact And.left)
    simp only [isGrounded, Bool.and_eq_true] at hg
    simp only [startReads, List.mem_append] at hreads
    have hshows := hind.shows k m σ hm hg.2 fun c hc => hreads c (by
      simp only [reads, level, Role.drop, Int.sub_zero, List.mem_append] at hc
      tauto)
    have hm' := hind.lowers.eqOff_hidden (r := r) hf₁ hm k
    rw [r.words_append, after_append]
    have hloc := helement.locates hp.1 (hd.grows hgrow) hind.lowers hgrow'.scratch hf₂ hm' hshows
      (fun c hc => hreads c (by tauto)) (fun harray => hreads _ (by simp [harray]))
      (fun n => k ((r.words before).length + n))
    simpa [start, elementBase, meaning, level, Role.drop] using hloc

lemma mode_of_applyShift {shift : Int} (h : Yields (applyShift .destination shift a) b a' b') :
    a'.mode ≠ .doubleDeref := by
  simp only [applyShift] at h
  split at h
  · rename_i mode hmode
    have hlevel := level_of_ofLevel? hmode
    split at h
    · rw [yields_pure] at h
      rw [h.1]
      rintro heq
      obtain rfl : mode = .doubleDeref := heq
      have hthree : Mode.doubleDeref.level = 3 := rfl
      omega
    · simp at h
  · simp at h

lemma mode_of_lower {ref : Reference} (h : Yields (ref.lower scope .destination) b (a, code) b') :
    a.mode ≠ .doubleDeref := by
  cases ref with
  | numeral shift text value =>
    simp only [lower] at h
    split at h
    · simp at h
    · simp only [yields_bind, yields_pure, Prod.mk.injEq] at h
      obtain ⟨a', b₁, hshift, ⟨rfl, rfl⟩, rfl⟩ := h
      exact mode_of_applyShift hshift
  | plain head =>
    simp only [lower, yields_bind, yields_lift, yields_pure, Prod.exists, Prod.mk.injEq] at h
    obtain ⟨a₀, code₀, b₁, hrun, a', b₂, hshift, ⟨rfl, rfl⟩, rfl⟩ := h
    exact mode_of_applyShift hshift
  | field head name =>
    simp only [lower, yields_bind, yields_lift, yields_pure, Prod.exists, Prod.mk.injEq] at h
    obtain ⟨a₀, code₀, b₁, hrun, a', b₂, hshift, ⟨rfl, rfl⟩, rfl⟩ := h
    exact mode_of_applyShift hshift
  | element head index =>
    simp only [lower, yields_bind, yields_lift, yields_pure, Prod.exists, Prod.mk.injEq] at h
    obtain ⟨i, before, b₁, hindex, a₀, code₀, b₂, hrun, _, b₃, hrelease, _, b₄, hclose, a', b₅,
      hshift, ⟨rfl, rfl⟩, rfl⟩ := h
    exact mode_of_applyShift hshift

lemma constant?_withMode (a : Backed) (mode : Mode) :
    (a.withMode mode).constant? = if (mode.level : Int) = 0 then a.value.number? else none := by
  cases mode <;> simp [Backed.withMode, Operand.constant?, Mode.level]

lemma constant?_through {mode : Mode} {shift : Int} (hmode : (mode.level : Int) =
    (Backed.through t).mode.level + shift - Role.source.drop) (hg : 0 ≤ shift + 1) :
    ((Backed.through t).withMode mode).constant? = none := by
  have htwo : ((Backed.through t).mode.level : Int) = 2 := rfl
  rw [htwo, Role.drop] at hmode
  rw [constant?_withMode, if_neg (by omega)]

lemma constant?_direct {mode : Mode} {shift n : Int} (hmode : (mode.level : Int) =
    (Backed.ofOperand ⟨.address, .known n⟩).mode.level + shift - Role.source.drop) :
    ((Backed.ofOperand ⟨.address, .known n⟩).withMode mode).constant? =
      if shift = -1 then some n else none := by
  have hone : ((Backed.ofOperand ⟨.address, .known n⟩).mode.level : Int) = 1 := rfl
  rw [hone, Role.drop] at hmode
  rw [constant?_withMode]
  by_cases hs : shift = -1
  · rw [if_pos hs, if_pos (by omega)]
    rfl
  · rw [if_neg hs, if_neg (by omega)]

lemma constant?_of_lower {ref : Reference} (h : Yields (ref.lower scope .source) b (a, code) b')
    (hb : b.Sane) (hp : ref.Proper scope) (hd : L.Describes r scope b.globals)
    (hg : ref.isGrounded .source = true) : a.constant? = ref.constant? L := by
  induction ref generalizing b b' a code with
  | numeral shift text value =>
    simp only [lower, reduceCtorEq, false_and, ↓reduceIte, yields_bind, yields_pure,
      Prod.mk.injEq] at h
    obtain ⟨a', b₁, hshift, ⟨rfl, rfl⟩, rfl⟩ := h
    obtain ⟨rfl, mode, hmode, rfl⟩ := withMode_of_applyShift hshift
    have hzero : ((Backed.constant value).mode.level : Int) = 0 := rfl
    rw [hzero, Role.drop] at hmode
    rw [constant?_withMode, constant?]
    by_cases hs : shift = 0
    · rw [if_pos hs, if_pos (by omega)]
      rfl
    · rw [if_neg hs, if_neg (by omega)]
  | plain head =>
    simp only [lower, yields_bind, yields_lift, yields_pure, Prod.exists, Prod.mk.injEq] at h
    obtain ⟨a₀, code₀, b₁, hrun, a', b₂, hshift, ⟨rfl, rfl⟩, rfl⟩ := h
    obtain ⟨rfl, mode, hmode, rfl⟩ := withMode_of_applyShift hshift
    obtain ⟨b₁, -, -, -, hrun'⟩ := on_lowerPlain scope head b
    rw [hrun, hd.offset hp.1] at hrun'
    simp only [isGrounded, level, depth, Role.drop, Int.sub_zero, decide_eq_true_eq] at hg
    obtain ⟨shift, name, home⟩ := head
    cases home with
    | global =>
      simp only [Prod.mk.injEq] at hrun'
      obtain ⟨⟨rfl, rfl⟩, rfl⟩ := hrun'
      rw [Backed.cell, Operand.cell, constant?_direct hmode]
      simp [constant?]
    | frame owner =>
      simp only [Prod.mk.injEq] at hrun'
      obtain ⟨⟨rfl, rfl⟩, rfl⟩ := hrun'
      rw [constant?_through hmode hg]
      simp [constant?]
  | field head name =>
    simp only [lower, yields_bind, yields_lift, yields_pure, Prod.exists, Prod.mk.injEq] at h
    obtain ⟨a₀, code₀, b₁, hrun, a', b₂, hshift, ⟨rfl, rfl⟩, rfl⟩ := h
    obtain ⟨rfl, mode, hmode, rfl⟩ := withMode_of_applyShift hshift
    obtain ⟨b₁, -, -, -, hrun'⟩ := on_lowerField scope head name b
    replace hrun' := hrun' _ rfl
    simp only [hrun, Prod.mk.injEq] at hrun'
    obtain ⟨⟨rfl, rfl⟩, rfl⟩ := hrun'
    simp only [isGrounded, level, depth, Role.drop, Int.sub_zero, decide_eq_true_eq] at hg
    rw [constant?_through hmode hg, constant?]
  | element head index ih =>
    simp only [lower, yields_bind, yields_lift, yields_pure, Prod.exists, Prod.mk.injEq] at h
    obtain ⟨i, before, b₁, hindex, a₀, code₀, b₂, hrun, _, b₃, hrelease, _, b₄, hclose, a', b₅,
      hshift, ⟨rfl, rfl⟩, rfl⟩ := h
    obtain ⟨rfl, mode, hmode, rfl⟩ := withMode_of_applyShift hshift
    simp only [isGrounded, level, depth, Role.drop, Int.sub_zero, Bool.and_eq_true,
      decide_eq_true_eq] at hg
    obtain ⟨hb₁, hgrow⟩ := (careful_lower scope .source index).grows hb hindex
    have hi := ih hindex hb hp.2 hd hg.2
    cases elementCode_of_lowerElement hb₁ hp.1 (hd.grows hgrow) hrun with
    | direct hhome hn harray =>
      rw [constant?_direct hmode, constant?, ← hi, hn]
      simp [hhome ▸ harray, hhome]
    | indexed hhome hn harray ht =>
      rw [constant?_through hmode hg.1, constant?, ← hi, hn]
      simp
    | pointed hhome harray ht =>
      rw [constant?_through hmode hg.1, constant?, if_neg (by tauto)]
    | frameDirect hhome hn harray ht | frameIndexed hhome harray ht
    | framePointed hhome harray ht =>
      rw [constant?_through hmode hg.1, constant?, if_neg (by simp [hhome])]

end Meaning
end Reference

lemma careful_reference (scope : Scope) (role : Role) : Careful false (reference scope role) := by
  refine careful_setTokens (f := fun b => (Reference.read (scope.home? b.globals) 0 b.tokens).2)
    (fun b => (Reference.read_suffix _ _ _).trans (Tokens.rest_suffix b.tokens)) fun b => ?_
  split
  · exact Reference.careful_lower scope role _
  · rename_i p hp
    exact careful_failStatement (Reference.isFatal_of_read hp)

lemma consumed_reference (scope : Scope) (role : Role) (b : Workbench) :
    ({ b with tokens := Tokens.rest b.tokens } : Workbench).Consumed
      ((reference scope role).on b).2 := by
  have hread := Reference.read_suffix (scope.home? b.globals) 0 b.tokens
  rw [Reference.on_reference]
  refine (Workbench.consumed_tokens hread).trans ?_
  unfold Reference.lowered
  split
  · exact (Reference.careful_lower scope role _).absorbs _
  · exact (careful_failStatement (Reference.isFatal_of_read ‹_›)).absorbs _

lemma tokens_of_reference {α : Type} (scope : Scope) (role : Role) {f : Backed × Code → Attempt α}
    (hf : ∀ x, Absorbs (f x)) (b : Workbench) :
    ((reference scope role >>= f).on b).2.tokens <:+ Tokens.rest b.tokens := by
  have hreference := (consumed_reference scope role b).tokens
  rw [Attempt.on_bind]
  generalize (reference scope role).on b = r at hreference
  obtain ⟨_ | x, b₁⟩ := r
  · exact hreference
  · exact (hf x b₁).tokens.trans hreference

section Read

variable {scope : Scope} {role : Role} {b b' : Workbench} {result : Backed × Code}

lemma exists_read (h : Yields (reference scope role) b result b') :
    ∃ ref, (Reference.read (scope.home? b.globals) 0 b.tokens).1 = .ok ref := by
  simp only [reference, yields_bind, yields_get, yields_set] at h
  obtain ⟨_, b, ⟨rfl, rfl⟩, _, _, rfl, h⟩ := h
  rcases hread : (Reference.read (scope.home? b.globals) 0 b.tokens).1 with _ | ref
  · simp [hread] at h
  · exact ⟨ref, rfl⟩

lemma lower_of_read {ref : Reference}
    (hread : (Reference.read (scope.home? b.globals) 0 b.tokens).1 = .ok ref)
    (h : Yields (reference scope role) b result b') :
    ref.Proper scope ∧ ∃ ts, Yields (ref.lower scope role) { b with tokens := ts } result b' := by
  simp only [reference, yields_bind, yields_get, yields_set] at h
  obtain ⟨_, b, ⟨rfl, rfl⟩, _, _, rfl, h⟩ := h
  rw [hread] at h
  exact ⟨Reference.proper_of_read hread, _, h⟩

end Read

end CogolToolchain
