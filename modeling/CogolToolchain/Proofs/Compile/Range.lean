import CogolToolchain.Proofs.Compile.Atomicity
import CogolToolchain.Proofs.Compile.Bounds
import CogolToolchain.Proofs.Compile.Flow
import CogolToolchain.Proofs.Compile.Marks

/-!
Operands in the range of the machine.

A number that is not in range is cut to a word when the program is loaded. Most operands are checked
where they are lowered (`checkBounds`), and the others are of a few kinds: `Overlooks` lists those
in the code of a statement. Whatever is lowered without a report has only operands that are in
range, that are symbols, or that are listed (`Workbench.Amid.each_lower`,
`Workbench.Amid.each_read`, `Workbench.Amid.each_assignment`).
-/

namespace CogolToolchain

open Work Attempt

/-! ### Code whose operands have a property -/

/-- Every operand of the code has the property `P` in its role. -/
def Code.Each (P : Role → Operand → Prop) (code : Code) : Prop :=
  ∀ i ∈ code, P .source i.lhs ∧ P .source i.rhs ∧ P .destination i.dest

section Each

variable {P Q : Role → Operand → Prop} {p q : Code}

lemma Code.each_nil : Code.Each P [] := by simp [Each]

lemma Code.Each.op {i : Instruction} (h : Code.Each P p) (hl : P .source i.lhs)
    (hr : P .source i.rhs) (hd : P .destination i.dest) : Code.Each P (i :: p) :=
  List.forall_mem_cons.mpr ⟨⟨hl, hr, hd⟩, h⟩

lemma Code.each_append : Code.Each P (p ++ q) ↔ Code.Each P p ∧ Code.Each P q :=
  List.forall_mem_append

lemma Code.Each.append (hp : Code.Each P p) (hq : Code.Each P q) : Code.Each P (p ++ q) :=
  each_append.mpr ⟨hp, hq⟩

lemma Code.Each.mono (h : Code.Each P p) (hPQ : ∀ role a, P role a → Q role a) : Code.Each Q p :=
  fun i hi => ⟨hPQ _ _ (h i hi).1, hPQ _ _ (h i hi).2.1, hPQ _ _ (h i hi).2.2⟩

lemma Code.Each.tagLast (h : Code.Each P p) (labels : List Label) :
    Code.Each P (Code.tagLast labels p) := by
  rcases List.eq_nil_or_concat p with rfl | ⟨ys, y, rfl⟩
  · exact h
  · rw [List.concat_eq_append] at h ⊢
    rw [tagLast_concat]
    obtain ⟨hys, hy⟩ := each_append.mp h
    obtain ⟨hl, hr, hd⟩ := hy y List.mem_cons_self
    exact .append hys (each_nil.op hl hr hd)

end Each

/-- The operand fits the machine when its symbol is resolved, unless it is an offset in a frame: a
known number is in range, and a symbol is used as it is or not far from it. -/
def Operand.Safe (role : Role) : Operand → Prop
  | ⟨mode, .known n⟩ => Operand.InRange role ⟨mode, .known n⟩
  | ⟨_, .symbolic ⟨.cell _, k⟩⟩ => 0 ≤ k ∧ k ≤ 1
  | ⟨mode, .symbolic ⟨.slot _ _, k⟩⟩ => role = .source ∧ mode = .constant ∧ k = 0
  | ⟨mode, .symbolic ⟨.label _, k⟩⟩ => role = .source ∧ mode = .constant ∧ -2 ≤ k ∧ k ≤ 2

/-- The operand fits the machine when its symbol is resolved, or it is known and has the property
`E`. -/
def Operand.Passes (E : Operand → Prop) (role : Role) (a : Operand) : Prop :=
  a.Safe role ∨ a.IsKnown ∧ E a

abbrev Code.Passes (E : Operand → Prop) : Code → Prop := Code.Each (Operand.Passes E)

section Passes

variable {E : Operand → Prop} {role : Role} {mode : Mode} {a : Operand}

lemma Operand.passes_of_inRange (ha : a.IsKnown) (h : a.InRange role) : a.Passes E role := by
  obtain ⟨mode, n | ref⟩ := a
  · exact .inl h
  · cases ha

lemma Operand.inRange_number {n : Int} (h₀ : 0 ≤ n) (h : n ≤ 65535) :
    Operand.InRange role ⟨mode, .known n⟩ := by
  intro m hm
  obtain rfl : n = m := Option.some.inj hm
  split <;> omega

lemma Operand.passes_number {n : Int} (h₀ : 0 ≤ n) (h : n ≤ 65535) :
    Operand.Passes E role ⟨mode, .known n⟩ := .inl (inRange_number h₀ h)

lemma Operand.passes_cell {t : Nat} (h : t < 65536) :
    Operand.Passes E role ⟨mode, .known (Numeral.wrap32 t)⟩ := by
  rw [Numeral.wrap32_of_fits (by constructor <;> omega)]
  exact passes_number (Int.natCast_nonneg t) (by omega)

lemma Operand.passes_named (name : String) : Operand.Passes E role (.named mode name) :=
  .inl ⟨Int.le_refl _, by decide⟩

lemma Operand.passes_slot (owner name : String) : Operand.Passes E .source (.slot owner name) :=
  .inl ⟨rfl, rfl, rfl⟩

lemma Operand.passes_label (l : Label) {k : Int} (h : -2 ≤ k ∧ k ≤ 2) :
    Operand.Passes E .source (.label l k) :=
  .inl ⟨rfl, rfl, h⟩

lemma Operand.passes_minusOne : Operand.Passes E .source (.constant (-1)) :=
  passes_of_inRange rfl (inRange_constant.mpr (by decide))

lemma Operand.passes_zero : Operand.Passes E role (.constant 0) :=
  passes_number (by decide) (by decide)

lemma Operand.passes_one : Operand.Passes E role (.constant 1) :=
  passes_number (by decide) (by decide)

end Passes

open Operand (passes_of_inRange inRange_number passes_number passes_cell passes_named passes_slot
  passes_label passes_minusOne passes_zero passes_one)

lemma Code.each_nop {E : Operand → Prop} : Code.Passes E [.nop] :=
  each_nil.op passes_zero passes_zero passes_zero

lemma Code.Each.copy {E : Operand → Prop} {p : Code} {a d : Operand} (h : Code.Passes E p)
    (ha : a.Passes E .source) (hd : d.Passes E .destination) : Code.Passes E (.copy a d :: p) :=
  h.op passes_minusOne ha hd

/-! ### Operands that no check looks at -/

def Token.opensComparison (t : Token) : Bool :=
  t ∈ ["(", "if", "if="] || (Comparison.ofToken? t).isSome

/-- In the statement that starts on `b` and ends before the tokens `left`, a reference stands behind
the token `t`, and `a` is its operand. -/
def Workbench.Finds (b : Workbench) (scope : Scope) (left : List Token) (t : Token) (role : Role)
    (a : Operand) (b₂ : Workbench) : Prop :=
  ∃ b₁ r, b.Grows b₁ ∧ t :: b₁.tokens <:+ b.tokens ∧ Yields (reference scope role) b₁ r b₂ ∧
    left <:+ b₂.tokens ∧ a = r.1.toOperand

/-- Operands in the code of the statement that starts on `b` and ends before the tokens `left`,
whose range is not checked. -/
inductive Overlooks (scope : Scope) (b : Workbench) (left : List Token) : Operand → Prop
  | index {a : Operand} {b₂ : Workbench} (h : b.Finds scope left "[" .source a b₂) :
      Overlooks scope b left a
  /-- The number of an element of an array in a frame. -/
  | element {b₂ : Workbench} {owner : String} {frame : Frame} {k : Nat} {n : Int}
      (hframe : scope.frame? owner = some frame) (hk : k ≤ frame.size + 1)
      (h : b.Finds scope left "[" .source (.constant n) b₂) :
      Overlooks scope b left (.constant (Numeral.wrap32 (k + n)))
  | offset {owner : String} {frame : Frame} {k : Nat} (hframe : scope.frame? owner = some frame)
      (hk : k ≤ frame.size + 1) : Overlooks scope b left (.constant (Numeral.wrap32 k))
  /-- A side of the comparison of an assignment. -/
  | compared {t : Token} {a : Operand} {b₂ : Workbench} (ht : t.opensComparison = true)
      (hfirst : Statement.startsAssignment (Tokens.peek b.tokens) = true)
      (h : b.Finds scope left t .source a b₂) : Overlooks scope b left a
  /-- What stands alone in the condition of a block. -/
  | alone {a : Operand} {b₂ : Workbench} (hfirst : Tokens.peek b.tokens ≠ "call")
      (h : b.Finds scope left "(" .source a b₂) (hnext : Tokens.peek b₂.tokens = ")") :
      Overlooks scope b left a
  /-- A side of a comparison that is moved by one. -/
  | moved {t : Token} {b₂ : Workbench} {n d : Int} (ht : t.opensComparison = true)
      (hfirst : Tokens.peek b.tokens ≠ "call")
      (h : b.Finds scope left t .source (.constant n) b₂) (hd : d = 1 ∨ d = -1) :
      Overlooks scope b left (.constant (n + d))
  /-- The destination of a call, which is written and read. -/
  | destination {a : Operand} {b₂ : Workbench} (hfirst : Tokens.peek b.tokens = "call")
      (h : b.Finds scope left "call" .destination a b₂) : Overlooks scope b left a
  | destinationRead {a : Operand} {b₂ : Workbench} (hfirst : Tokens.peek b.tokens = "call")
      (h : b.Finds scope left "call" .destination a b₂) : Overlooks scope b left a.read

/-- The operand fits the machine when its symbol is resolved, or no check looks at it. -/
abbrev Workbench.Lets (b : Workbench) (scope : Scope) (left : List Token) : Role → Operand → Prop :=
  Operand.Passes (Overlooks scope b left)

/-- A workbench on the way of a statement that starts on `b₀` and ends before the tokens `left`:
nothing has been reported, and the machine has all cells there are. -/
structure Workbench.Amid (b₀ : Workbench) (left : List Token) (b : Workbench) : Prop where
  sane : b.Sane
  grows : b₀.Grows b
  tokens : b.tokens <:+ b₀.tokens
  left : left <:+ b.tokens
  silent : b.diagnostics = []
  fits : b.globals.nextFree < 65536

section Amid

open Workbench

variable {scope : Scope} {role : Role} {b₀ b b' b'' : Workbench} {left : List Token} {m n : Bool}
  {a : Backed} {code : Code} {t : Nat}

lemma Workbench.Amid.between (h : Amid b₀ left b) (h'' : Amid b₀ left b'') (h₁ : b.Advances m b')
    (h₂ : b'.Advances n b'') : Amid b₀ left b' := by
  obtain ⟨hs, hg⟩ := h₁.keeps h.sane
  have hg' := (h₂.keeps hs).2
  refine ⟨hs, h.grows.trans hg, h₁.consumed.tokens.trans h.tokens,
    h''.left.trans h₂.consumed.tokens, ?_, (hg'.globals.cells.nextFree_le).trans_lt h''.fits⟩
  exact List.prefix_nil.mp (h''.silent ▸ hg'.diagnostics)

lemma Workbench.Amid.lt (h : Amid b₀ left b) (ht : t ∈ b.scratch.addresses) : t < 65536 :=
  (h.sane.lt_nextFree ht).trans h.fits

lemma Reference.read_element {home? : Token → Option Home} {shift : Int} {ts rest : List Token}
    {head : Head} {index : Reference}
    (h : read home? shift ts = (.ok (.element head index), rest)) :
    ∃ inner, "[" :: inner <:+ ts ∧ read home? 0 inner = (.ok index, rest) := by
  fun_induction read home? shift ts with
  | case3 shift ts ih | case4 shift ts hne ih =>
    obtain ⟨inner, hinner, hread⟩ := ih h
    exact ⟨inner, hinner.trans (List.suffix_cons _ _), hread⟩
  | case8 shift t _ _ _ _ home _ head' inner index' rest' hread ih =>
    refine ⟨inner, List.suffix_cons _ _, ?_⟩
    cases index' with
    | error p => simp [Except.map] at h
    | ok r =>
      simp only [Except.map, Prod.mk.injEq, Except.ok.injEq, element.injEq] at h
      obtain ⟨⟨-, rfl⟩, rfl⟩ := h
      exact hread
  | _ => simp at h

lemma Scope.offset_le {globals : SymbolTable} {owner : String} {frame : Frame}
    (h : scope.frame? owner = some frame) (name : String) :
    scope.offset globals (.frame owner) name ≤ frame.size := by
  rw [Scope.offset, Scope.table, h]
  cases haddress : frame.table.address? name with
  | none => simp [haddress]
  | some k => simpa [haddress, Frame.size] using (SymbolTable.lt_nextFree_of_address? haddress).le

lemma passes_offset {globals : SymbolTable} {head : Head} {owner : String} (hk : scope.Knows head)
    (hhome : head.home = .frame owner) {k : Nat}
    (h : k ≤ scope.offset globals head.home head.name + 1) :
    b₀.Lets scope left .source (.constant (Numeral.wrap32 k)) := by
  obtain ⟨frame, hframe⟩ := Option.isSome_iff_exists.mp (hk.2 owner hhome)
  rw [hhome] at h
  exact .inr ⟨rfl, .offset hframe (h.trans (Nat.succ_le_succ (Scope.offset_le hframe _)))⟩

lemma Workbench.Amid.each_element {head : Head} {i : Backed} {b₂ : Workbench} (h : Amid b₀ left b)
    (h' : Amid b₀ left b') (hk : scope.Knows head) (hcells : i.cells ⊆ b.scratch.addresses)
    (hfound : b₀.Finds scope left "[" .source i.toOperand b₂)
    (hi : b₀.Lets scope left .source i.toOperand)
    (hrun : (Reference.lowerElement scope head i).on b = ((a, code), b')) :
    Code.Each (b₀.Lets scope left) code := by
  have hreuses : ∀ {t}, Reference.Reuses b i t b' → t < 65536 := fun ht => by
    rcases ht with ⟨ht, -⟩ | ht
    · exact h.lt (hcells ht)
    · exact h'.lt ht.mem
  have hoffset : head.home = .global → scope.offset b.globals head.home head.name + 1 < 65536 :=
    fun hhome => by
      rw [hhome]
      exact Nat.lt_of_le_of_lt (Reference.offset_lt_nextFree h.sane head.name) h.fits
  cases Reference.elementCode_of_lowerElement h.sane hk
    (Layout.describes_of ⟨{}, {}, []⟩ scope b.globals) hrun with
  | direct => exact Code.each_nil
  | indexed hhome hn harray ht =>
    exact Code.each_nil.op (passes_cell (hoffset hhome)) hi (passes_cell (hreuses ht))
  | pointed hhome harray ht =>
    exact Code.each_nil.op (passes_cell (Nat.lt_of_succ_lt (hoffset hhome))) hi
      (passes_cell (hreuses ht))
  | @frameDirect owner n _ _ hhome hn harray ht =>
    obtain ⟨frame, hframe⟩ := Option.isSome_iff_exists.mp (hk.2 owner hhome)
    have hle : scope.offset b.globals head.home head.name + 1 ≤ frame.size + 1 := by
      rw [hhome]
      exact Nat.succ_le_succ (Scope.offset_le hframe _)
    rw [Operand.eq_constant hn] at hfound
    have helement : Overlooks scope b₀ left
        (.constant (Numeral.wrap32 (scope.offset b.globals head.home head.name + 1 + n))) :=
      .element hframe hle hfound
    exact Code.each_nil.op (passes_named _) (.inr ⟨rfl, helement⟩)
      (passes_cell (hreuses (.inr ht)))
  | frameIndexed hhome harray ht =>
    have htemp := hreuses ht
    exact (Code.each_nil.op (passes_cell htemp) (passes_offset hk hhome (Nat.le_refl _))
      (passes_cell htemp)).op (passes_named _) hi (passes_cell htemp)
  | framePointed hhome harray ht =>
    have htemp := hreuses (.inr ht)
    exact (Code.each_nil.op (passes_cell htemp) hi (passes_cell htemp)).op
      (passes_named _) (passes_offset hk hhome (Nat.le_succ _)) (passes_cell htemp)

lemma Workbench.Amid.each_lower {ref : Reference} {shift : Int} {ts : List Token}
    (h : Amid b₀ left b) (h' : Amid b₀ left b') (hts : ts <:+ b₀.tokens)
    (hread : Reference.read (scope.home? b.globals) shift ts = (.ok ref, b.tokens))
    (hy : Yields (ref.lower scope role) b (a, code) b') :
    Code.Each (b₀.Lets scope left) code := by
  have hproper : ref.Proper scope := Reference.proper_of_read (congrArg Prod.fst hread)
  induction ref generalizing role shift ts b b' a code with
  | numeral shift text value =>
    simp only [Reference.lower] at hy
    split at hy
    · simp at hy
    · simp only [yields_bind, yields_pure, Prod.mk.injEq] at hy
      obtain ⟨a', b₁, -, ⟨-, rfl⟩, -⟩ := hy
      exact Code.each_nil
  | plain head =>
    simp only [Reference.lower, yields_bind, yields_lift, yields_pure, Prod.exists,
      Prod.mk.injEq] at hy
    obtain ⟨a₀, code₀, b₁, hrun, a', b₂, hshift, ⟨-, rfl⟩, rfl⟩ := hy
    obtain ⟨rfl, -⟩ := Reference.withMode_of_applyShift hshift
    obtain ⟨b₁, hglobals, hscratch, -, hrun'⟩ := Reference.on_lowerPlain scope head b
    rw [hrun] at hrun'
    split at hrun'
    · simp only [Prod.mk.injEq] at hrun'
      rw [hrun'.1.2]
      exact Code.each_nil
    · rename_i owner hhome
      have htakes := takes_allocScratch (h.sane.congr hglobals hscratch)
      simp only [Prod.mk.injEq] at hrun'
      obtain ⟨⟨-, rfl⟩, rfl⟩ := hrun'
      exact Code.each_nil.op (passes_named _) (passes_offset hproper hhome (Nat.le_succ _))
        (passes_cell (h'.lt htakes.mem))
  | field head name =>
    simp only [Reference.lower, yields_bind, yields_lift, yields_pure, Prod.exists,
      Prod.mk.injEq] at hy
    obtain ⟨a₀, code₀, b₁, hrun, a', b₂, hshift, ⟨-, rfl⟩, rfl⟩ := hy
    obtain ⟨rfl, -⟩ := Reference.withMode_of_applyShift hshift
    obtain ⟨b₁, hglobals, hscratch, -, hrun'⟩ := Reference.on_lowerField scope head name b
    replace hrun' := hrun' _ rfl
    have htakes := takes_allocScratch (h.sane.congr hglobals hscratch)
    simp only [hrun, Prod.mk.injEq] at hrun'
    obtain ⟨⟨-, rfl⟩, rfl⟩ := hrun'
    have htemp := h'.lt htakes.mem
    split
    · rename_i hhome
      have hcell : scope.offset b.globals .global head.name < 65536 :=
        (Reference.offset_lt_nextFree h.sane head.name).trans h.fits
      exact Code.each_nil.op (passes_cell (hhome ▸ hcell)) (passes_slot _ _)
        (passes_cell htemp)
    · rename_i owner hhome
      exact (Code.each_nil.op (passes_cell htemp) (passes_slot _ _)
        (passes_cell htemp)).op (passes_named _)
        (passes_offset hproper hhome (Nat.le_succ _)) (passes_cell htemp)
  | element head index ih =>
    simp only [Reference.lower, yields_bind, yields_lift, yields_pure, Prod.exists,
      Prod.mk.injEq] at hy
    obtain ⟨i, before, b₁, hindex, a₀, code₀, b₂, hrun, _, b₃, hrelease, _, b₄, hclose, a', b₅,
      hshift, ⟨-, rfl⟩, rfl⟩ := hy
    have hadvance₁ := (Reference.careful_lower scope .source index).of_yields hindex
    have hadvance₂ := (Reference.advances_lowerElement scope head i).of_on hrun
    have hadvance₃ := ((advances_releaseCells _).of_on hrelease).trans
      (((Reference.careful_closeIndex _).of_yields hclose).trans
        ((Reference.careful_applyShift _ _ _).of_yields hshift))
    have h₂ := h.between h' (hadvance₁.trans hadvance₂) hadvance₃
    have h₁ := h.between h₂ hadvance₁ hadvance₂
    -- the index is read behind the bracket
    obtain ⟨inner, hinner, hreadIndex⟩ := Reference.read_element hread
    have hinner' := hinner.trans hts
    have hfound : b₀.Finds scope left "[" .source i.toOperand b₁ := by
      refine ⟨{ b with tokens := inner }, (i, before), h.grows.trans (b.grows_tokens _),
        hinner', ?_, h₁.left, rfl⟩
      rw [Yields, Reference.on_reference]
      dsimp only
      rw [hreadIndex]
      exact hindex
    have hlowered := Reference.lowered_lower [] .source hproper.2 b _ b₁ h.sane
      (List.nil_subset _) hindex
    have hpasses : b₀.Lets scope left .source i.toOperand :=
      .inr ⟨hlowered.known, .index hfound⟩
    refine .append (ih h h₁ ((List.suffix_cons _ _).trans hinner') hreadIndex hindex
      hproper.2) ?_
    exact h₁.each_element h₂ hproper.1 hlowered.cells hfound hpasses hrun

lemma Workbench.Amid.lowered_reference (h : Amid b₀ left b) (h' : Amid b₀ left b')
    (hy : Yields (reference scope role) b (a, code) b') :
    scope.Lowered b'.scratch.addresses (a, code) ∧ Code.Each (b₀.Lets scope left) code := by
  refine ⟨CogolToolchain.lowered_reference scope [] role b _ b' h.sane (List.nil_subset _) hy, ?_⟩
  obtain ⟨ref, hread⟩ := exists_read hy
  have hsuffix := (Reference.read_suffix (scope.home? b.globals) 0 b.tokens).trans
    (Tokens.rest_suffix b.tokens)
  rw [Yields, Reference.on_reference, hread] at hy
  have hall : Reference.read (scope.home? b.globals) 0 b.tokens = (.ok ref, _) := Prod.ext hread rfl
  exact (h.between h' (Workbench.advances_tokens hsuffix)
    ((Reference.careful_lower scope role ref).of_yields hy)).each_lower h' h.tokens hall hy

end Amid

/-! ### Conditions -/

/-- The operand passes as a side of a comparison, also if it is a constant that is moved by one. -/
def Operand.Comparable (E : Operand → Prop) (a : Operand) : Prop :=
  a.Passes E .source ∧
    ∀ n d : Int, a = .constant n → d = 1 ∨ d = -1 → (Operand.constant (n + d)).Passes E .source

/-- If the machine has the scratch cells `pool`, the code of a test passes, and so does a move that
depends on it. -/
def Branch.Passes (E : Operand → Prop) (pool : List Nat) (r : Branch × Code) : Prop :=
  (∀ t ∈ pool, t < 65536) → Code.Passes E r.2 ∧ ∀ source dest,
    Operand.Passes E .source source → Operand.Passes E .destination dest →
    Code.Passes E (r.1.move? source dest).toList

section Conditions

variable {E : Operand → Prop} {pool : List Nat} {a b : Backed}

lemma Test.passes_of (ha : a.Comparable E) (hb : b.Comparable E) (op : Comparison) :
    (Test.of a op b).left.Passes E .source ∧ (Test.of a op b).right.Passes E .source := by
  have hmoved : ∀ {x y : Backed} {d : Int}, x.Comparable E → (d = 1 ∨ d = -1) →
      adjusted? x d = some y → y.Passes E .source := by
    intro x y d hx hd h
    obtain ⟨n, hn, rfl⟩ := eq_constant_of_adjusted? h
    exact hx.2 n d (Operand.eq_constant hn) hd
  cases op with
  | lt | eq | ne => exact ⟨ha.1, hb.1⟩
  | gt => exact ⟨hb.1, ha.1⟩
  | le =>
    unfold Test.of
    dsimp only
    split
    · exact ⟨ha.1, hmoved hb (.inl rfl) ‹_›⟩
    · exact ⟨hmoved ha (.inr rfl) ‹_›, hb.1⟩
    · exact ⟨ha.1, hb.1⟩
  | ge =>
    unfold Test.of
    dsimp only
    split
    · exact ⟨hmoved hb (.inr rfl) ‹_›, ha.1⟩
    · exact ⟨hb.1, hmoved ha (.inl rfl) ‹_›⟩
    · exact ⟨hb.1, ha.1⟩

lemma Test.passes_difference (ha : a.Passes E .source) (hb : b.Passes E .source) :
    Work.Gives (fun pool r => (∀ t ∈ pool, t < 65536) →
      r.1.toOperand.Passes E .source ∧ Code.Passes E r.2) pool (difference a b) :=
  Work.gives_bind (advances_releaseCells _) fun _ _ _ =>
    Work.gives_bind (advances_releaseCells _) fun _ _ _ =>
    Work.gives_allocScratch.bind advances_allocScratch fun _ _ _ ht =>
    Work.gives_pure fun _ hpool hfits =>
      ⟨passes_cell (hfits _ (hpool ht)), Code.each_nil.op ha hb (passes_cell (hfits _ (hpool ht)))⟩

lemma Test.passes_distance (ha : a.Passes E .source) (hb : b.Passes E .source) :
    Work.Gives (fun pool r => (∀ t ∈ pool, t < 65536) →
      r.1.toOperand.Passes E .source ∧ Code.Passes E r.2) pool (distance a b) := by
  unfold distance
  split
  · exact Work.gives_pure fun _ _ _ => ⟨ha, Code.each_nil⟩
  · split
    · exact Work.gives_pure fun _ _ _ => ⟨hb, Code.each_nil⟩
    · exact passes_difference ha hb

lemma Test.passes_lower {test : Test} (hl : test.left.Passes E .source)
    (hr : test.right.Passes E .source) : Work.Gives (Branch.Passes E) pool test.lower := by
  cases test with
  | less a b =>
    rw [lower]
    split
    · exact Work.gives_pure fun _ _ _ => ⟨Code.each_nil, fun _ _ hs hd => Code.each_nil.op hl hs hd⟩
    · exact (passes_difference hl hr).bind (advances_difference a b) fun _ _ _ h => Work.gives_pure
        fun _ hpool hfits => by
          obtain ⟨htest, hcode⟩ := h fun t ht => hfits t (hpool ht)
          exact ⟨hcode, fun _ _ hs hd => Code.each_nil.op htest hs hd⟩
  | lessEq a b =>
    refine Work.gives_bind (advances_releaseCells _) fun _ _ _ =>
      Work.gives_allocScratch.bind advances_allocScratch fun t _ _ ht => Work.gives_pure
        fun _ hpool hfits => ?_
    have hcell : t < 65536 := hfits t (hpool ht)
    exact ⟨(Code.each_nil.op hl (passes_cell hcell) (passes_cell hcell)).op hr passes_one
      (passes_cell hcell),
      fun _ _ hs hd => Code.each_nil.op (passes_cell hcell) hs hd⟩
  | differ a b =>
    exact (passes_distance hl hr).bind (advances_distance a b) fun _ _ _ h => Work.gives_pure
      fun _ hpool hfits => by
        obtain ⟨htest, hcode⟩ := h fun t ht => hfits t (hpool ht)
        exact ⟨hcode, fun _ _ hs hd => Code.each_nil.op htest hs hd⟩
  | equal a b =>
    refine (passes_distance hl hr).bind (advances_distance a b) fun _ _ _ h =>
      Work.gives_allocScratch.bind advances_allocScratch fun t _ hpool₁ ht => Work.gives_pure
        fun _ hpool hfits => ?_
    obtain ⟨htest, hcode⟩ := h fun t ht => hfits t (hpool (hpool₁ ht))
    have hcell : t < 65536 := hfits t (hpool ht)
    exact ⟨.append hcode ((Code.each_nil.op (passes_cell hcell) htest
      (passes_cell hcell)).op htest passes_minusOne (passes_cell hcell)),
      fun _ _ hs hd => Code.each_nil.op (passes_cell hcell) hs hd⟩

lemma Condition.passes_lower {c : Condition} (ha : c.a.Comparable E) (hb : c.b.Comparable E) :
    Work.Gives (Branch.Passes E) [] c.lower := by
  unfold lower
  split
  · refine Work.gives_bind (advances_report _) fun _ _ _ => Work.gives_pure fun _ _ _ =>
      ⟨Code.each_nil, fun _ _ hs hd => ?_⟩
    dsimp only
    split
    · exact Code.each_nil.copy hs hd
    · exact Code.each_nil
  · obtain ⟨hl, hr⟩ := Test.passes_of ha hb c.op
    exact Test.passes_lower hl hr

end Conditions

/-! ### Statements -/

section Statements

open Workbench

variable {scope : Scope} {role : Role} {b₀ b b' : Workbench} {left : List Token}
  {a : Backed} {code : Code} {t : Token}

lemma Workbench.Amid.finds (h : Amid b₀ left b) (h' : Amid b₀ left b')
    (ht : t :: b.tokens <:+ b₀.tokens) (hy : Yields (reference scope role) b (a, code) b') :
    b₀.Finds scope left t role a.toOperand b' :=
  ⟨b, (a, code), h.grows, ht, hy, h'.left, rfl⟩

/-- A side of a comparison that stands behind the token `t`, where it may be looked at or not. -/
structure Workbench.Side (b₀ : Workbench) (scope : Scope) (left : List Token)
    (t : Token) (a : Backed) (b : Workbench) : Prop where
  known : a.IsKnown
  found : b₀.Finds scope left t .source a.toOperand b
  opens : t.opensComparison = true

lemma Workbench.Side.comparable (h : b₀.Side scope left t a b)
    (hfirst : Tokens.peek b₀.tokens ≠ "call") (ha : b₀.Lets scope left .source a.toOperand) :
    a.Comparable (Overlooks scope b₀ left) := by
  refine ⟨ha, fun n d hn hd => .inr ⟨rfl, ?_⟩⟩
  have hfound := h.found
  rw [hn] at hfound
  exact .moved h.opens hfirst hfound hd

lemma Condition.yields_readOperator {op : Comparison} (h : Yields (readOperator t) b op b') :
    Comparison.ofToken? t = some op ∧ b' = b := by
  unfold readOperator at h
  split at h
  · rename_i hop
    obtain ⟨rfl, rfl⟩ := yields_pure.mp h
    exact ⟨hop, rfl⟩
  · simp at h

lemma Workbench.Amid.side (h : Amid b₀ left b) (h' : Amid b₀ left b')
    (ht : t.opensComparison = true) (htokens : t :: b.tokens <:+ b₀.tokens)
    (hy : Yields (reference scope .source) b (a, code) b') :
    b₀.Side scope left t a b' ∧ Code.Each (b₀.Lets scope left) code :=
  have hlowered := h.lowered_reference h' hy
  ⟨⟨hlowered.1.known, h.finds h' htokens hy, ht⟩, hlowered.2⟩

lemma Workbench.Amid.sides {x y : Backed} {before after : Code} {op : Comparison}
    {b₁ b₂ : Workbench} {next : Token} (h : Amid b₀ left b) (h' : Amid b₀ left b')
    (ht : t.opensComparison = true) (htokens : t :: b.tokens <:+ b₀.tokens)
    (hx : Yields (reference scope .source) b (x, before) b₁) (hpop : Work.pop.on b₁ = (next, b₂))
    (hop : Comparison.ofToken? next = some op)
    (hy : Yields (reference scope .source) b₂ (y, after) b') :
    b₀.Side scope left t x b₁ ∧ b₀.Side scope left next y b' ∧
      Code.Each (b₀.Lets scope left) (before ++ after) := by
  have hto₁ := (careful_reference scope .source).of_yields hx
  have hadvance₂ := advances_pop.of_on hpop
  have h₂ := h.between h' (hto₁.trans hadvance₂) ((careful_reference scope .source).of_yields hy)
  have h₁ := h.between h₂ hto₁ hadvance₂
  obtain ⟨hxside, hxeach⟩ := h.side h₁ ht htokens hx
  obtain ⟨rfl, rfl⟩ := Prod.mk.inj ((on_pop b₁).symm.trans hpop)
  have hnext : Tokens.peek b₁.tokens ≠ "" :=
    fun hempty => by simp [hempty, Comparison.ofToken?] at hop
  have hbehind : Tokens.peek b₁.tokens :: Tokens.rest b₁.tokens <:+ b₀.tokens :=
    Tokens.eq_cons_of_peek hnext rfl ▸ h₁.tokens
  obtain ⟨hyside, hyeach⟩ := h₂.side h' (by simp [Token.opensComparison, hop]) hbehind hy
  exact ⟨hxside, hyside, .append hxeach hyeach⟩

lemma Workbench.Amid.of_checkBounds {x : Operand} {u : Unit} (h : Amid b₀ left b)
    (h' : Amid b₀ left b') (hcheck : (checkBounds role x).on b = (u, b')) :
    b' = b ∧ x.InRange role := by
  have hrange : x.InRange role :=
    inRange_of_on_checkBounds (b := b) (by rw [hcheck, h'.silent, h.silent])
  rw [on_checkBounds_of_inRange hrange, Prod.mk.injEq] at hcheck
  exact ⟨hcheck.2.symm, hrange⟩

lemma Workbench.Amid.passes_lower {c : Condition} {branch : Branch} {test : Code}
    (h : Amid b₀ left b) (h' : Amid b₀ left b') (ha : c.a.Comparable (Overlooks scope b₀ left))
    (hb : c.b.Comparable (Overlooks scope b₀ left)) (lower : c.lower.on b = ((branch, test), b')) :
    Code.Each (b₀.Lets scope left) test ∧ ∀ source dest, b₀.Lets scope left .source source →
      b₀.Lets scope left .destination dest →
      Code.Each (b₀.Lets scope left) (branch.move? source dest).toList := by
  have hpasses := Condition.passes_lower ha hb b h.sane (List.nil_subset _)
  rw [lower] at hpasses
  exact hpasses fun t ht => h'.lt ht

lemma Workbench.Amid.each_read {c : Condition} (h : Amid b₀ left b) (h' : Amid b₀ left b')
    (hfirst : Tokens.peek b₀.tokens ≠ "call") (hy : Yields (Condition.read scope) b (c, code) b') :
    c.a.Comparable (Overlooks scope b₀ left) ∧ c.b.Comparable (Overlooks scope b₀ left) ∧
      Code.Each (b₀.Lets scope left) code := by
  rw [Condition.read] at hy
  simp only [yields_bind, yields_lift, Prod.exists] at hy
  obtain ⟨_, b₁, hopen, x, before, b₂, hx, next, b₃, hpop, hy⟩ := hy
  have hto₁ := (careful_expect "(").of_yields hopen
  have hadvance₂ := (careful_reference scope .source).of_yields hx
  have hadvance₃ := advances_pop.of_on hpop
  have hbehind : "(" :: b₁.tokens <:+ b₀.tokens := by
    obtain ⟨ts, heat, rfl⟩ := yields_expect_iff.mp hopen
    exact Tokens.eq_cons_of_eat? (by decide) heat ▸ h.tokens
  split at hy
  · rename_i hnext
    obtain ⟨hpair, rfl⟩ := yields_pure.mp hy
    obtain ⟨rfl, rfl⟩ := Prod.mk.inj hpair
    have h₂ := h.between h' (hto₁.trans hadvance₂) hadvance₃
    obtain ⟨hside, heach⟩ := (h.between h₂ hto₁ hadvance₂).side h₂ (by decide) hbehind hx
    obtain ⟨rfl, -⟩ := Prod.mk.inj ((on_pop b₂).symm.trans hpop)
    refine ⟨hside.comparable hfirst (.inr ⟨hside.known, .alone hfirst hside.found hnext⟩),
      ⟨passes_zero, fun n d hn hd => ?_⟩, heach⟩
    obtain rfl : 0 = n := congrArg (fun x => (x.constant?).getD 0) hn
    exact passes_of_inRange rfl (Operand.inRange_constant.mpr (by omega))
  · simp only [yields_bind, yields_lift, Prod.exists] at hy
    obtain ⟨op, b₃, hop, y, after, b₄, hy', _, b₅, hcheck, _, b₆, hcheck', _, b₇, hclose, hpure⟩ :=
      hy
    obtain ⟨hpair, rfl⟩ := yields_pure.mp hpure
    obtain ⟨rfl, rfl⟩ := Prod.mk.inj hpair
    obtain ⟨htoken, rfl⟩ := Condition.yields_readOperator hop
    have hadvance₄ := (careful_reference scope .source).of_yields hy'
    have hto₄ := hto₁.trans (hadvance₂.trans (hadvance₃.trans hadvance₄))
    have hadvance₅ := (Condition.advances_checkBounds _ _).of_on hcheck
    have hadvance₆ := (Condition.advances_checkBounds _ _).of_on hcheck'
    have h₆ := h.between h' (hto₄.trans (hadvance₅.trans hadvance₆))
      ((careful_expect ")").of_yields hclose)
    have h₅ := h.between h₆ (hto₄.trans hadvance₅) hadvance₆
    have h₄ := h.between h₅ hto₄ hadvance₅
    have h₁ := h.between h₄ hto₁ (hadvance₂.trans (hadvance₃.trans hadvance₄))
    obtain ⟨hxside, hyside, heach⟩ := h₁.sides h₄ (by decide) hbehind hx hpop htoken hy'
    have hxrange := (h₄.of_checkBounds h₅ hcheck).2
    have hyrange := (h₅.of_checkBounds h₆ hcheck').2
    exact ⟨hxside.comparable hfirst (passes_of_inRange hxside.known hxrange),
      hyside.comparable hfirst (passes_of_inRange hyside.known hyrange), heach⟩

section Assignments

variable {lhs source dest : Backed} {op : Token}

lemma Operand.InRange.passes_written {E : Operand → Prop} {x : Operand} (h : x.InRange .destination)
    (hx : x.IsKnown) : x.Passes E .destination ∧ x.read.Passes E .source := by
  obtain ⟨mode, n | ref⟩ := x
  · have hn := h n rfl
    rw [if_neg (by simp)] at hn
    exact ⟨passes_number hn.1 hn.2, passes_number hn.1 hn.2⟩
  · cases hx

lemma Workbench.Amid.each_conditional (h : Amid b₀ left b) (h' : Amid b₀ left b')
    (hfirst : Statement.startsAssignment (Tokens.peek b₀.tokens) = true)
    (ht : t.opensComparison = true) (htokens : t :: b.tokens <:+ b₀.tokens)
    (hs : b₀.Lets scope left .source source.toOperand)
    (hd : b₀.Lets scope left .destination dest.toOperand)
    (hy : Yields (Assignment.conditional scope source dest) b code b') :
    Code.Each (b₀.Lets scope left) code := by
  rw [Assignment.conditional] at hy
  simp only [yields_bind, yields_lift, Prod.exists] at hy
  obtain ⟨x, before, b₁, hx, next, b₂, hpop, op, b₃, hop, y, after, b₄, hy', _, b₅, hend, branch,
    test, b₆, htest, hpure⟩ := hy
  obtain ⟨rfl, rfl⟩ := yields_pure.mp hpure
  obtain ⟨htoken, rfl⟩ := Condition.yields_readOperator hop
  have hto₄ := ((careful_reference scope .source).of_yields hx).trans
    ((advances_pop.of_on hpop).trans ((careful_reference scope .source).of_yields hy'))
  have hadvance₅ := (careful_expect ";").of_yields hend
  have hadvance₆ := (Condition.advances_lower _).of_on htest
  have h₅ := h.between h' (hto₄.trans hadvance₅) hadvance₆
  have h₄ := h.between h₅ hto₄ hadvance₅
  have hcall : Tokens.peek b₀.tokens ≠ "call" :=
    fun heq => by simp [heq, Statement.startsAssignment] at hfirst
  obtain ⟨hxside, hyside, heach⟩ := h.sides h₄ ht htokens hx hpop htoken hy'
  have hxpasses : b₀.Lets scope left .source x.toOperand :=
    .inr ⟨hxside.known, .compared hxside.opens hfirst hxside.found⟩
  have hypasses : b₀.Lets scope left .source y.toOperand :=
    .inr ⟨hyside.known, .compared hyside.opens hfirst hyside.found⟩
  obtain ⟨htestCode, hmove⟩ := h₅.passes_lower h' (hxside.comparable hcall hxpasses)
    (hyside.comparable hcall hypasses) htest
  exact .append (.append heach htestCode) (hmove _ _ hs hd)

lemma Assignment.each_productCode {E : Operand → Prop} {rhs : Backed} {counter addend : Nat}
    {done : Label} (hl : lhs.Passes E .source) (hr : rhs.Passes E .source)
    (hd : dest.Passes E .destination) (hread : dest.read.Passes E .source)
    (hcounter : counter < 65536) (haddend : addend < 65536) :
    Code.Passes E (productCode lhs rhs dest counter addend done) := by
  have hc : ∀ {role mode}, Operand.Passes E role ⟨mode, .known (Numeral.wrap32 counter)⟩ :=
    passes_cell hcounter
  have ha : ∀ {role mode}, Operand.Passes E role ⟨mode, .known (Numeral.wrap32 addend)⟩ :=
    passes_cell haddend
  have hjump : ∀ k : Int, -2 ≤ k ∧ k ≤ 2 → Operand.Passes E .source (.label done k) :=
    fun _ => passes_label done
  refine .op (.op (.op ?_ hc (hjump (-1) (by decide)) passes_zero) passes_zero hr ha)
    passes_zero hl hc
  refine .op (.op (.op (.op ?_ passes_zero ha ha) passes_minusOne (hjump (-1) (by decide))
    passes_zero) passes_zero hc hc) passes_minusOne passes_zero hd
  exact .op (.op (.op Code.each_nil hc passes_one hc) hc (hjump (-2) (by decide)) passes_zero)
    hread ha hd

lemma Workbench.Amid.each_binary (h : Amid b₀ left b) (h' : Amid b₀ left b')
    (hl : b₀.Lets scope left .source lhs.toOperand) (hlc : lhs.cells ⊆ b.scratch.addresses)
    (hd : b₀.Lets scope left .destination dest.toOperand)
    (hread : b₀.Lets scope left .source dest.read.toOperand)
    (hy : Yields (Assignment.binary scope lhs op dest) b code b') :
    Code.Each (b₀.Lets scope left) code := by
  rw [Assignment.binary] at hy
  simp only [yields_bind, yields_lift, Prod.exists] at hy
  obtain ⟨rhs, before, b₁, hr, _, b₂, hcheck, _, b₃, hend, hy⟩ := hy
  have hadvance₁ := (careful_reference scope .source).of_yields hr
  have hadvance₂ := (Condition.advances_checkBounds _ _).of_on hcheck
  have hadvance₃ := (careful_expect ";").of_yields hend
  have hto₃ := hadvance₁.trans (hadvance₂.trans hadvance₃)
  have hbefore : ∀ {n}, b₃.Advances n b' → Amid b₀ left b₃ ∧ rhs.cells ⊆ b₃.scratch.addresses ∧
      b₀.Lets scope left .source rhs.toOperand ∧ Code.Each (b₀.Lets scope left) before := by
    intro n hadvance₄
    have h₃ := h.between h' hto₃ hadvance₄
    have h₂ := h.between h₃ (hadvance₁.trans hadvance₂) hadvance₃
    have h₁ := h.between h₂ hadvance₁ hadvance₂
    obtain ⟨hlowered, heach⟩ := h.lowered_reference h₁ hr
    have hcells := ((hadvance₂.trans hadvance₃).keeps h₁.sane).2.scratch.subset
    exact ⟨h₃, List.Subset.trans hlowered.cells hcells,
      passes_of_inRange hlowered.known (h₁.of_checkBounds h₂ hcheck).2, heach⟩
  split at hy
  · simp only [yields_bind, yields_lift] at hy
    obtain ⟨product, b₄, hrun, hpure⟩ := hy
    obtain ⟨rfl, rfl⟩ := yields_pure.mp hpure
    obtain ⟨h₃, hrc, hrhs, heach⟩ := hbefore ((Assignment.advances_multiply _ _ _).of_on hrun)
    obtain ⟨counter, hcounter, addend, haddend, rfl, -⟩ :=
      Assignment.productCode_of_multiply h₃.sane
        (List.Subset.trans hlc (hto₃.keeps h.sane).2.scratch.subset) hrc hrun
    exact .append heach
      (Assignment.each_productCode hl hrhs hd hread (h'.lt hcounter) (h'.lt haddend))
  · split at hy
    · obtain ⟨rfl, rfl⟩ := yields_pure.mp hy
      obtain ⟨-, -, hrhs, heach⟩ := hbefore (Workbench.Advances.refl _)
      exact .append heach (Code.each_nil.op hl hrhs hd)
    · simp at hy

lemma Workbench.Amid.each_operation (h : Amid b₀ left b) (h' : Amid b₀ left b')
    (hfirst : Statement.startsAssignment (Tokens.peek b₀.tokens) = true)
    (hop : op = "if" → ∃ t, t.opensComparison = true ∧ t :: b.tokens <:+ b₀.tokens)
    (hl : lhs.IsKnown) (hlc : lhs.cells ⊆ b.scratch.addresses)
    (hd : b₀.Lets scope left .destination dest.toOperand)
    (hread : b₀.Lets scope left .source dest.read.toOperand)
    (hy : Yields (Assignment.operation scope lhs op dest) b code b') :
    Code.Each (b₀.Lets scope left) code := by
  rw [Assignment.operation] at hy
  simp only [yields_bind, yields_lift] at hy
  obtain ⟨_, b₁, hcheck, hy⟩ := hy
  have hadvance₁ := (Condition.advances_checkBounds _ _).of_on hcheck
  split at hy
  · obtain ⟨rfl, rfl⟩ := yields_pure.mp hy
    exact Code.each_nil.copy (passes_of_inRange hl (h.of_checkBounds h' hcheck).2) hd
  split at hy
  · rename_i hif
    have h₁ := h.between h' hadvance₁ ((Assignment.careful_conditional _ _ _).of_yields hy)
    obtain ⟨t, ht, htokens⟩ := hop hif
    obtain ⟨rfl, hrange⟩ := h.of_checkBounds h₁ hcheck
    exact h₁.each_conditional h' hfirst ht htokens (passes_of_inRange hl hrange) hd hy
  · have h₁ := h.between h' hadvance₁ ((Assignment.careful_binary _ _ _ _).of_yields hy)
    obtain ⟨rfl, hrange⟩ := h.of_checkBounds h₁ hcheck
    exact h₁.each_binary h' (passes_of_inRange hl hrange) hlc hd hread hy

lemma Workbench.Amid.each_afterOperator {eq : Token} {address : Code} (h : Amid b₀ left b)
    (h' : Amid b₀ left b') (hfirst : Statement.startsAssignment (Tokens.peek b₀.tokens) = true)
    (heq : eq = "if=" → eq :: b.tokens <:+ b₀.tokens)
    (haddress : Code.Each (b₀.Lets scope left) address)
    (hd : b₀.Lets scope left .destination dest.toOperand)
    (hread : b₀.Lets scope left .source dest.read.toOperand) (hknown : dest.IsKnown)
    (hy : Yields (Assignment.afterOperator scope dest address eq) b code b') :
    Code.Each (b₀.Lets scope left) code := by
  unfold Assignment.afterOperator at hy
  split at hy
  -- an assignment, then a step up or down, then an operator with `=`
  · simp only [yields_bind, yields_lift, Prod.exists] at hy
    obtain ⟨lhs, before, b₁, hl, op, b₂, hpop, rest, b₃, hrest, hpure⟩ := hy
    obtain ⟨rfl, rfl⟩ := yields_pure.mp hpure
    have hadvance₁ := (Assignment.careful_firstOperand scope).of_yields hl
    have hadvance₂ := advances_pop.of_on hpop
    have h₂ := h.between h' (hadvance₁.trans hadvance₂)
      ((Assignment.careful_operation _ _ _ _).of_yields hrest)
    have h₁ := h.between h₂ hadvance₁ hadvance₂
    have hlowered := Assignment.lowered_firstOperand scope [] b _ b₁ h.sane (List.nil_subset _) hl
    have hbefore : Code.Each (b₀.Lets scope left) before := by
      simp only [Assignment.firstOperand, yields_bind, yields_lift] at hl
      obtain ⟨_, _, hpeek, hl⟩ := hl
      obtain ⟨rfl, rfl⟩ := Prod.mk.inj ((on_peek b).symm.trans hpeek)
      split at hl
      · obtain ⟨hpair, -⟩ := yields_pure.mp hl
        rw [(Prod.mk.inj hpair).2]
        exact Code.each_nil
      · exact (h.lowered_reference h₁ hl).2
    refine .append (.append haddress hbefore) (h₂.each_operation h' hfirst (fun hif => ?_)
      hlowered.known (List.Subset.trans hlowered.cells (hadvance₂.keeps h₁.sane).2.scratch.subset)
      hd hread hrest)
    obtain ⟨rfl, rfl⟩ := Prod.mk.inj ((on_pop b₁).symm.trans hpop)
    refine ⟨"if", by decide, ?_⟩
    have hcons := Tokens.eq_cons_of_peek (by decide) hif
    exact hcons ▸ h₁.tokens
  split at hy
  · simp only [yields_bind] at hy
    obtain ⟨_, _, -, hpure⟩ := hy
    obtain ⟨rfl, rfl⟩ := yields_pure.mp hpure
    refine .append haddress (Code.each_nil.op hread ?_ hd)
    dsimp only
    split
    · exact passes_one
    · exact passes_minusOne
  · split at hy
    · rename_i op hop
      simp only [yields_bind] at hy
      obtain ⟨rest, _, hrest, hpure⟩ := hy
      obtain ⟨rfl, rfl⟩ := yields_pure.mp hpure
      have hlhs : (Backed.ofOperand dest.read.toOperand).IsKnown := hknown
      refine .append haddress (h.each_operation h' hfirst (fun hif => ?_) hlhs (List.nil_subset _)
        hd hread hrest)
      obtain rfl : eq = "if=" := by rw [Assignment.eq_of_compound? hop, hif]; rfl
      exact ⟨"if=", by decide, heq rfl⟩
    · simp at hy

lemma Workbench.Amid.each_assignment (h : Amid b₀ left b₀) (h' : Amid b₀ left b')
    (hfirst : Statement.startsAssignment (Tokens.peek b₀.tokens) = true)
    (hy : Yields (Assignment.lower scope) b₀ code b') : Code.Each (b₀.Lets scope left) code := by
  rw [Assignment.lower_eq] at hy
  simp only [yields_bind, yields_lift, Prod.exists] at hy
  obtain ⟨dest, address, b₁, hdest, _, b₂, hcheck, eq, b₃, hpop, hy⟩ := hy
  have hadvance₁ := (careful_reference scope .destination).of_yields hdest
  have hadvance₂ := (Condition.advances_checkBounds _ _).of_on hcheck
  have hadvance₃ := advances_pop.of_on hpop
  have h₃ := h.between h' (hadvance₁.trans (hadvance₂.trans hadvance₃))
    ((Assignment.careful_afterOperator _ _ _ _).of_yields hy)
  have h₂ := h.between h₃ (hadvance₁.trans hadvance₂) hadvance₃
  have h₁ := h.between h₂ hadvance₁ hadvance₂
  obtain ⟨hlowered, haddress⟩ := h.lowered_reference h₁ hdest
  obtain ⟨rfl, hrange⟩ := h₁.of_checkBounds h₂ hcheck
  obtain ⟨hd, hread⟩ := hrange.passes_written hlowered.known
  refine h₃.each_afterOperator h' hfirst (fun hif => ?_) haddress hd hread hlowered.known hy
  obtain ⟨rfl, rfl⟩ := Prod.mk.inj ((on_pop b₂).symm.trans hpop)
  rw [hif]
  exact Tokens.eq_cons_of_peek (by decide) hif ▸ h₁.tokens

end Assignments

end Statements

end CogolToolchain
