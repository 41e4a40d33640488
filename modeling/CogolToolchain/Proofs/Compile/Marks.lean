import CogolToolchain.Proofs.Compile.Addressing
import CogolToolchain.Proofs.Compile.Plain

/-!
Marks and scratch cells.

The operand of a global variable names its cell. A variable of a frame, a field, and an element
whose place depends on the run are held: a scratch cell holds their address, and the operand reads
through it. Marks are judged by the level of the operand, which is one higher for what is held, so
that one mark more can be taken away from it. What is left then is no cell of the program any more,
but the scratch cell (`Session.marks_uncover_scratch_cells`).
-/

namespace CogolToolchain

open Work Attempt

/-- The operand is a scratch cell itself: as a source it is its address, as a destination the
cell. -/
def Operand.IsScratch (p : ScratchPool) (a : Operand) : Prop := ∃ t ∈ p.addresses, a = .cellDest t

instance (p : ScratchPool) (a : Operand) : Decidable (a.IsScratch p) :=
  inferInstanceAs (Decidable (∃ t ∈ p.addresses, a = .cellDest t))

namespace Reference

/-! ### References without their marks -/

def shift : Reference → Int
  | numeral shift _ _ => shift
  | plain h | field h _ | element h _ => h.shift

/-- Whether the operand of the reference names its cell; otherwise the reference is held. An element
of a global array is named if its index is constant. -/
def isDirect (scope : Scope) (globals : SymbolTable) : Reference → Bool
  | numeral .. => true
  | plain h => decide (h.home = .global)
  | field .. => false
  | element h index => decide (h.home = .global) &&
      decide (scope.type globals h.home h.name = .array) &&
      decide (index.depth + (if index.isDirect scope globals then 0 else 1) = 0)

def height (scope : Scope) (globals : SymbolTable) (role : Role) (ref : Reference) : Int :=
  ref.level role + if ref.isDirect scope globals then 0 else 1

/-- The operand names what is written in the source: a number, a variable, or a cell counted from an
array. -/
def Names (scope : Scope) (globals : SymbolTable) (a : Operand) : Reference → Prop
  | numeral _ _ value => a = .constant value
  | plain h => a = .cell (scope.offset globals h.home h.name)
  | field .. => False
  | element h _ =>
    ∃ n : Int, a = ⟨.address, .known (Numeral.wrap32 (scope.offset globals h.home h.name + 1 + n))⟩

def IsAssignedNumber (role : Role) : Reference → Prop
  | numeral shift _ _ => role = .destination ∧ shift = 0
  | _ => False

def unmarked (scope : Scope) : Reference → Attempt (Backed × Code)
  | numeral _ _ value => return (.constant value, [])
  | plain head => lowerPlain scope head
  | field head name => lowerField scope head name
  | element head index => do
    let (i, before) ← lower scope .source index
    let (a, code) ← lowerElement scope head i
    Work.releaseCells (i.cells.filter fun address => !a.cells.contains address)
    closeIndex head.name
    return (a, before ++ code)

section

variable {scope : Scope} {role : Role} {b b' : Workbench} {a a' : Backed} {code : Code}
  {ref : Reference} {globals : SymbolTable} {pool : List Nat}

lemma lower_eq (h : ¬ ref.IsAssignedNumber role) : ref.lower scope role = (do
    let (a, code) ← ref.unmarked scope
    return (← applyShift role ref.shift a, code)) := by
  cases ref with
  | numeral shift text value =>
    have hnumber : ¬ (role = .destination ∧ shift = 0) := h
    rw [lower, if_neg hnumber, unmarked, pure_bind]
    rfl
  | plain head => rfl
  | field head name => rfl
  | element head index =>
    simp only [lower, unmarked, shift, bind_assoc, pure_bind]

lemma applyShift_eq {mode : Mode} {shift : Int}
    (hmode : (mode.level : Int) = a.mode.level + shift - role.drop)
    (hle : (mode.level : Int) ≤ 3 - role.drop) :
    applyShift role shift a = pure (a.withMode mode) := by
  have hof : Mode.ofLevel? mode.level = some mode := by cases mode <;> rfl
  cases role with
  | source =>
    simp only [Role.drop, Int.sub_zero] at hmode hle
    simp only [applyShift]
    rw [← hmode, hof]
    simp [hle]
  | destination =>
    simp only [Role.drop] at hmode hle
    simp only [applyShift]
    rw [← hmode, hof]
    simp [show (mode.level : Int) ≤ 2 by omega]

lemma applyShift_eq_failHere {shift : Int}
    (h : ¬ (0 ≤ a.mode.level + shift - role.drop ∧
      a.mode.level + shift - role.drop ≤ 3 - role.drop)) :
    applyShift role shift a =
      Attempt.failHere (.invalidMode (a.mode.level + shift - role.drop) a.text) := by
  cases role
  all_goals
    simp only [Role.drop, Int.sub_zero] at h ⊢
    simp only [applyShift]
    split
    · rename_i mode hmode
      have hlevel := level_of_ofLevel? hmode
      rw [if_neg (by omega)]
    · rfl

/-- The operand of a reference without its marks names what is written, or is read through a scratch
cell. -/
def Shaped (scope : Scope) (globals : SymbolTable) (pool : List Nat) (ref : Reference)
    (a : Backed) : Prop :=
  if ref.isDirect scope globals then a.cells = [] ∧ ref.Names scope globals a.toOperand
  else ∃ t ∈ pool, a = .through t

lemma Shaped.level (h : ref.Shaped scope globals pool a) (role : Role) :
    a.mode.level + ref.shift - role.drop = ref.height scope globals role := by
  rw [Shaped] at h
  rw [height, Reference.level]
  split at h
  · rename_i hdirect
    rw [if_pos hdirect]
    obtain ⟨-, hnames⟩ := h
    cases ref with
    | numeral shift text value =>
      rw [show a.toOperand = .constant value from hnames]
      simp [Operand.constant, Mode.level, Reference.shift, depth]
    | plain head =>
      rw [show a.toOperand = .cell _ from hnames]
      simp only [Operand.cell, Mode.level, Reference.shift, depth]
      omega
    | field head name => exact hnames.elim
    | element head index =>
      obtain ⟨n, hn⟩ := hnames
      rw [hn]
      simp only [Mode.level, Reference.shift, depth]
      omega
  · rename_i hdirect
    rw [if_neg hdirect]
    obtain ⟨t, -, rfl⟩ := h
    have htwo : ((Backed.through t).mode.level : Int) = 2 := rfl
    cases ref with
    | numeral shift text value => simp [isDirect] at hdirect
    | plain head | field head name | element head index =>
      simp only [htwo, Reference.shift, depth]
      omega

lemma constant?_isSome_iff {i : Backed} (hknown : i.IsKnown) :
    i.constant?.isSome ↔ (i.mode.level : Int) = 0 := by
  obtain ⟨⟨mode, value⟩, cells⟩ := i
  cases value with
  | known n => cases mode <;> simp [Operand.constant?, Mode.level, Value.number?]
  | symbolic ref => exact absurd hknown (by simp [Operand.IsKnown, Value.ref?])

lemma constant?_isSome_of_lower {i : Backed} {index : Reference} (hb : b.Sane)
    (hp : index.Proper scope) (h : Yields (index.lower scope .source) b (i, code) b')
    (hshape : ∀ a₀ code₀ b₀, Yields (index.unmarked scope) b (a₀, code₀) b₀ →
      index.Shaped scope b.globals b₀.scratch.addresses a₀) :
    i.constant?.isSome ↔ index.height scope b.globals .source = 0 := by
  have hlowered := lowered_lower [] .source hp b _ b' hb (List.nil_subset _) h
  have hsource : ¬ index.IsAssignedNumber .source := by
    cases index <;> simp [IsAssignedNumber]
  rw [lower_eq hsource] at h
  simp only [yields_bind, yields_pure, Prod.exists, Prod.mk.injEq] at h
  obtain ⟨a₀, code₀, b₀, hunmarked, a', b₁, hshift, ⟨rfl, rfl⟩, rfl⟩ := h
  have hlevel := (hshape a₀ code b₀ hunmarked).level .source
  obtain ⟨-, mode, hmode, rfl⟩ := withMode_of_applyShift hshift
  rw [constant?_isSome_iff hlowered.known, ← hlevel, ← hmode]
  rfl

lemma shaped_of_unmarked (hb : b.Sane) (hp : ref.Proper scope)
    (h : Yields (ref.unmarked scope) b (a, code) b') :
    ref.Shaped scope b.globals b'.scratch.addresses a := by
  induction ref generalizing b b' a code with
  | numeral shift text value =>
    obtain ⟨h, -⟩ := yields_pure.mp h
    obtain ⟨rfl, -⟩ := Prod.mk.inj h
    exact ⟨rfl, rfl⟩
  | plain head =>
    rw [unmarked, yields_lift] at h
    obtain ⟨b₁, hglobals, hscratch, -, hrun⟩ := on_lowerPlain scope head b
    rw [h] at hrun
    obtain ⟨shift, name, home⟩ := head
    cases home with
    | global =>
      obtain ⟨h', rfl⟩ := Prod.mk.inj hrun
      obtain ⟨rfl, rfl⟩ := Prod.mk.inj h'
      exact ⟨rfl, rfl⟩
    | frame owner =>
      obtain ⟨h', rfl⟩ := Prod.mk.inj hrun
      obtain ⟨rfl, rfl⟩ := Prod.mk.inj h'
      exact ⟨_, (takes_allocScratch (hb.congr hglobals hscratch)).mem, rfl⟩
  | field head name =>
    rw [unmarked, yields_lift] at h
    obtain ⟨b₁, hglobals, hscratch, -, hrun⟩ := on_lowerField scope head name b
    have hrun := hrun _ rfl
    rw [h] at hrun
    obtain ⟨h', rfl⟩ := Prod.mk.inj hrun
    obtain ⟨rfl, -⟩ := Prod.mk.inj h'
    exact ⟨_, (takes_allocScratch (hb.congr hglobals hscratch)).mem, rfl⟩
  | element head index ih =>
    simp only [unmarked, yields_bind, yields_lift, yields_pure, Prod.exists, Prod.mk.injEq] at h
    obtain ⟨i, before, b₁, hindex, a₀, code₀, b₂, hrun, _, b₃, hrelease, _, b₄, hclose, ⟨rfl, rfl⟩,
      rfl⟩ := h
    obtain ⟨hb₁, hgrow⟩ := (careful_lower scope .source index).grows hb hindex
    have hlowered := lowered_lower [] .source hp.2 b _ b₁ hb (List.nil_subset _) hindex
    have hconstant := constant?_isSome_of_lower hb hp.2 hindex fun a₀ code₀ b₀ h =>
      ih hb hp.2 h
    have hheld : ∀ t ∈ b₂.scratch.addresses, t ∈ b'.scratch.addresses := by
      have hb₂ := (advances_lowerElement scope head i b₁).keeps hb₁
      rw [hrun] at hb₂
      have hb₃ :=
        (advances_releaseCells (i.cells.filter fun u => !a.cells.contains u) b₂).keeps hb₂.1
      rw [hrelease] at hb₃
      have hb₄ := (careful_closeIndex head.name).grows hb₃.1 hclose
      exact fun t ht => (hb₃.2.trans hb₄.2).scratch.subset ht
    have hreuses : ∀ t b₂, Reuses b₁ i t b₂ → t ∈ b₂.scratch.addresses := by
      rintro t b₂ (⟨ht, rfl⟩ | ht)
      · exact hlowered.cells ht
      · exact ht.mem
    have hdescribes := (Layout.describes_of ⟨{}, {}, []⟩ scope b.globals).grows hgrow
    have hdirect : (element head index).isDirect scope b.globals = true ↔ head.home = .global ∧
        scope.type b.globals head.home head.name = .array ∧ i.constant?.isSome := by
      rw [hconstant]
      simp only [isDirect, height, level, Role.drop, Int.sub_zero, Bool.and_eq_true,
        decide_eq_true_eq, and_assoc]
    have hframe : ∀ owner, head.home = .frame owner →
        ¬ (element head index).isDirect scope b.globals = true := by
      intro owner hhome h
      simpa [hhome] using (hdirect.mp h).1
    rw [Shaped]
    cases elementCode_of_lowerElement hb₁ hp.1 hdescribes hrun with
    | direct hhome hn harray =>
      rw [if_pos (hdirect.mpr ⟨hhome, harray, by rw [hn]; rfl⟩)]
      exact ⟨rfl, _, rfl⟩
    | @indexed t _ hhome hn harray ht =>
      rw [if_neg fun h => by simpa [hn] using (hdirect.mp h).2.2]
      exact ⟨t, hheld t (hreuses t _ ht), rfl⟩
    | @pointed t _ hhome harray ht =>
      rw [if_neg fun h => harray (hdirect.mp h).2.1]
      exact ⟨t, hheld t (hreuses t _ ht), rfl⟩
    | @frameDirect _ _ t _ hhome hn harray ht =>
      rw [if_neg (hframe _ hhome)]
      exact ⟨t, hheld t ht.mem, rfl⟩
    | @frameIndexed _ t _ hhome harray ht =>
      rw [if_neg (hframe _ hhome)]
      exact ⟨t, hheld t (hreuses t _ ht), rfl⟩
    | @framePointed _ t _ hhome harray ht =>
      rw [if_neg (hframe _ hhome)]
      exact ⟨t, hheld t ht.mem, rfl⟩

/-! ### Scratch cells in operands -/

lemma exists_mode {n : Int} (hlow : 0 ≤ n) (hhigh : n ≤ 3) :
    ∃ mode : Mode, (mode.level : Int) = n := by
  have hcases : n = 0 ∨ n = 1 ∨ n = 2 ∨ n = 3 := by omega
  rcases hcases with rfl | rfl | rfl | rfl
  · exact ⟨.constant, rfl⟩
  · exact ⟨.address, rfl⟩
  · exact ⟨.deref, rfl⟩
  · exact ⟨.doubleDeref, rfl⟩

lemma mode_eq_constant_iff {mode : Mode} : mode = .constant ↔ (mode.level : Int) = 0 := by
  cases mode <;> simp [Mode.level]

lemma offset_notMem_scratch (hb : b.Sane) {name : Token} (hname : isReserved name = false) :
    scope.offset b.globals .global name ∉ b.scratch.addresses := by
  intro hmem
  obtain ⟨n, hn⟩ := hb.mem_addresses_iff.mp hmem
  have htwo := hb.two_le hmem
  rw [Scope.offset, Scope.table] at hn htwo
  cases haddress : b.globals.address? name with
  | none => simp [haddress] at htwo
  | some address =>
    rw [haddress, Option.getD_some, SymbolTable.getElem?_of_address? haddress,
      Option.some.injEq] at hn
    exact ne_scratchName hname n hn

lemma offset_lt_nextFree (hb : b.Sane) (name : Token) :
    scope.offset b.globals .global name < b.globals.nextFree := by
  rw [Scope.offset, Scope.table]
  cases haddress : b.globals.address? name with
  | none => exact (Array.getElem?_eq_some_iff.mp hb.counter).1
  | some address => exact SymbolTable.lt_nextFree_of_address? haddress

/-- The operand `a` that a reference has with its marks. -/
structure Judged (scope : Scope) (role : Role) (b : Workbench) (ref : Reference) (a : Backed)
    (b' : Workbench) : Prop where
  level : (a.mode.level : Int) = ref.height scope b.globals role
  /-- What is held is the scratch cell itself if one mark too many is taken away. -/
  held : ref.isDirect scope b.globals = false → (a.IsScratch b'.scratch ↔ ref.level role = -1)
  /-- What is named is a scratch cell only as the number of one. -/
  named : ref.isDirect scope b.globals = true → a.cells = [] ∧ (a.IsScratch b'.scratch ↔
    ref.level role = 0 ∧ ∃ t ∈ b'.scratch.addresses, a.value = .known (Numeral.wrap32 t))
  global : ∀ head, ref = .plain head → head.home = .global → b'.globals.nextFree ≤ 4294967296 →
    ¬ a.IsScratch b'.scratch

lemma on_reference_of_read (hread : (read (scope.home? b.globals) 0 b.tokens).1 = .ok ref) :
    (reference scope role).on b = (ref.lower scope role).on
      { b with tokens := (read (scope.home? b.globals) 0 b.tokens).2 } := by
  rw [on_reference, hread, lowered]

lemma isScratch_withMode {p : ScratchPool} {mode : Mode} : (a.withMode mode).IsScratch p ↔
    (mode.level : Int) = 0 ∧ ∃ t ∈ p.addresses, a.value = .known (Numeral.wrap32 t) := by
  rw [← mode_eq_constant_iff]
  constructor
  · rintro ⟨t, ht, heq⟩
    exact ⟨congrArg Operand.mode heq, t, ht, congrArg Operand.value heq⟩
  · rintro ⟨rfl, t, ht, hvalue⟩
    refine ⟨t, ht, ?_⟩
    rw [Operand.cellDest, ← hvalue]
    rfl

lemma value_ne_of_global {head : Head} (hb : b.Sane) (hk : scope.Knows head)
    (hhome : head.home = .global) (h : (lowerPlain scope head).on b = ((a, code), b'))
    (hcells : b'.globals.nextFree ≤ 4294967296) {t : Nat} (ht : t ∈ b'.scratch.addresses) :
    a.value ≠ .known (Numeral.wrap32 t) := by
  obtain ⟨hsane, hgrow⟩ : b'.Sane ∧ b.Grows b' := by
    have hkeeps := (advances_lowerPlain scope head b).keeps hb
    rwa [h] at hkeeps
  obtain ⟨b₁, -, -, -, hrun⟩ := on_lowerPlain scope head b
  obtain ⟨shift, name, home⟩ := head
  obtain rfl : home = .global := hhome
  rw [h] at hrun
  obtain ⟨h', -⟩ := Prod.mk.inj hrun
  obtain ⟨rfl, -⟩ := Prod.mk.inj h'
  have hoffset : scope.offset b'.globals .global name = scope.offset b.globals .global name := by
    simp only [Scope.offset, Scope.table, hgrow.globals.address? hk.1]
  intro hvalue
  have hlt : scope.offset b'.globals .global name < b'.globals.nextFree :=
    offset_lt_nextFree hsane name
  have hlt' := hsane.lt_nextFree ht
  rw [hoffset] at hlt
  have heq : scope.offset b.globals .global name = t :=
    Numeral.wrap32_inj (by omega) (by omega) (Value.known.inj hvalue)
  have hnot : scope.offset b'.globals .global name ∉ b'.scratch.addresses :=
    offset_notMem_scratch hsane hk.1
  rw [hoffset, heq] at hnot
  exact hnot ht

lemma judged_of_shaped {mode : Mode} (hshaped : ref.Shaped scope b.globals b'.scratch.addresses a)
    (hmode : (mode.level : Int) = ref.height scope b.globals role)
    (hglobal : ∀ head, ref = .plain head → head.home = .global → b'.globals.nextFree ≤ 4294967296 →
      ∀ t ∈ b'.scratch.addresses, a.value ≠ .known (Numeral.wrap32 t)) :
    ref.Judged scope role b (a.withMode mode) b' := by
  refine ⟨hmode, fun hdirect => ?_, fun hdirect => ?_, fun head hplain hhome hcells => ?_⟩
  · rw [Shaped, if_neg (by simp [hdirect])] at hshaped
    obtain ⟨t, ht, rfl⟩ := hshaped
    rw [isScratch_withMode, hmode, height, hdirect]
    constructor
    · rintro ⟨hzero, -⟩
      simp only [Bool.false_eq_true, ↓reduceIte] at hzero
      omega
    · intro hone
      exact ⟨by simp [hone], t, ht, rfl⟩
  · rw [Shaped, if_pos hdirect] at hshaped
    refine ⟨hshaped.1, ?_⟩
    rw [isScratch_withMode, hmode, height, hdirect]
    simp [Backed.withMode]
  · rw [isScratch_withMode]
    rintro ⟨-, t, ht, hvalue⟩
    exact hglobal head hplain hhome hcells t ht hvalue

lemma not_assignedNumber_of_lower (h : Yields (ref.lower scope role) b (a, code) b') :
    ¬ ref.IsAssignedNumber role := by
  intro hnumber
  cases ref with
  | numeral shift text value =>
    have hassigned : role = .destination ∧ shift = 0 := hnumber
    rw [lower, if_pos hassigned] at h
    exact not_yields_failStatement h
  | plain head | field head name | element head index => exact hnumber

lemma judged_of_reference (hb : b.Sane)
    (hread : (read (scope.home? b.globals) 0 b.tokens).1 = .ok ref)
    (h : Yields (reference scope role) b (a, code) b') : ref.Judged scope role b a b' := by
  have hproper := proper_of_read hread
  have hb₀ : Workbench.Sane { b with tokens := (read (scope.home? b.globals) 0 b.tokens).2 } :=
    hb.congr rfl rfl
  have hlower : Yields (ref.lower scope role)
      { b with tokens := (read (scope.home? b.globals) 0 b.tokens).2 } (a, code) b' :=
    (on_reference_of_read hread).symm.trans h
  rw [lower_eq (not_assignedNumber_of_lower hlower)] at hlower
  simp only [yields_bind, yields_pure, Prod.exists, Prod.mk.injEq] at hlower
  obtain ⟨a₀, code₀, b₁, hunmarked, a', b₂, hshift, ⟨rfl, rfl⟩, rfl⟩ := hlower
  have hshaped := shaped_of_unmarked hb₀ hproper hunmarked
  have hlevel := hshaped.level role
  obtain ⟨rfl, mode, hmode, rfl⟩ := withMode_of_applyShift hshift
  refine judged_of_shaped hshaped (hmode.trans hlevel) fun head hplain hhome hcells t ht => ?_
  subst hplain
  rw [unmarked, yields_lift] at hunmarked
  exact value_ne_of_global hb₀ hproper hhome hunmarked hcells ht

/-- A reference is accepted exactly if its operand has a level that the role allows; otherwise the
mode is invalid. -/
lemma on_reference_of_unmarked (hb : b.Sane)
    (hread : (read (scope.home? b.globals) 0 b.tokens).1 = .ok ref)
    (hnumber : ¬ ref.IsAssignedNumber role)
    (h : Yields (ref.unmarked scope)
      { b with tokens := (read (scope.home? b.globals) 0 b.tokens).2 } (a, code) b') :
    if 0 ≤ ref.height scope b.globals role ∧ ref.height scope b.globals role ≤ 3 - role.drop then
      ∃ mode, Yields (reference scope role) b (a.withMode mode, code) b'
    else (reference scope role).on b =
      (none, ((report (.invalidMode (ref.height scope b.globals role) a.text)).on b').2) := by
  have hproper := proper_of_read hread
  have hb₀ : Workbench.Sane { b with tokens := (read (scope.home? b.globals) 0 b.tokens).2 } :=
    hb.congr rfl rfl
  have hlevel := (shaped_of_unmarked hb₀ hproper h).level role
  have hon : (reference scope role).on b = (do
      return (← applyShift role ref.shift a, code) : Attempt (Backed × Code)).on b' := by
    rw [on_reference_of_read hread, lower_eq hnumber, Attempt.on_bind, h]
  split
  · rename_i hrange
    have hhigh : ref.height scope b.globals role ≤ 3 := by
      have hdrop : 0 ≤ role.drop := by cases role <;> simp [Role.drop]
      omega
    obtain ⟨mode, hmode⟩ := exists_mode hrange.1 hhigh
    refine ⟨mode, hon.trans ?_⟩
    rw [applyShift_eq (hmode.trans hlevel.symm) (by rw [hmode]; exact hrange.2), pure_bind,
      Attempt.on_pure]
  · rename_i hrange
    rw [hon, applyShift_eq_failHere (by rw [hlevel]; exact hrange), hlevel]
    rfl

end
end Reference

namespace Session

/-- On every workbench of a compilation, the marks of a reference are judged by the level of its
operand, as a source and as a destination. If the mode is invalid, the reference is rejected. But
what is held in a scratch cell has one level more, and if exactly that one is left, the reference is
accepted and its operand is the scratch cell itself. The operand of a global variable never is; that
of a numeral or of an element with a constant index only if the number of the cell is the one that
is written. An assignment stores in its destination at the end, or adds to it in a product. -/
theorem marks_uncover_scratch_cells (settings : Settings) (source : String) {scope : Scope}
    {b : Workbench} (hb : Reached settings source b) :
    (∀ role ref a code b', (Reference.read (scope.home? b.globals) 0 b.tokens).1 = .ok ref →
      Yields (reference scope role) b (a, code) b' → ref.Judged scope role b a b') ∧
    (∀ role ref a code b', (Reference.read (scope.home? b.globals) 0 b.tokens).1 = .ok ref →
      ¬ ref.IsAssignedNumber role →
      Yields (ref.unmarked scope)
        { b with tokens := (Reference.read (scope.home? b.globals) 0 b.tokens).2 } (a, code) b' →
      if 0 ≤ ref.height scope b.globals role ∧ ref.height scope b.globals role ≤ 3 - role.drop then
        ∃ mode, Yields (reference scope role) b (a.withMode mode, code) b'
      else (reference scope role).on b =
        (none, ((report (.invalidMode (ref.height scope b.globals role) a.text)).on b').2)) ∧
    (∀ code b', Yields (Assignment.lower scope) b code b' → ∃ dest address b₁ middle last,
      Yields (reference scope .destination) b (dest, address) b₁ ∧ code = middle ++ last ∧
      scope.Plain b'.scratch.addresses middle ∧
      Assignment.Ending dest.toOperand b'.scratch.addresses b.nextId b'.nextId last) :=
  ⟨fun _ _ _ _ _ => Reference.judged_of_reference hb.sane,
    fun _ _ _ _ _ => Reference.on_reference_of_unmarked hb.sane,
    fun _ _ => Assignment.ending_of_lower hb.sane⟩

/-- One mark is taken away from a parameter and from a global variable. -/
def markedLocal : String := "my x; sub f(a) \x7b \\a = 5; \\x = 5; \x7d"

lemma read_of_toOption {r : Except Problem Reference} {ref : Reference}
    (h : r.toOption = some ref) : r = .ok ref := by
  cases r with
  | error p => simp [Except.toOption] at h
  | ok ref' => simpa [Except.toOption] using h

/-- The parameter becomes the scratch cell 2, and the assignment is accepted; the global variable is
rejected. -/
theorem marks_uncover_scratch_cells_local :
    let s := Statement.rested (after {} markedLocal 2)
    let s' := Statement.rested (after {} markedLocal 3)
    (∃ a code b', Yields (reference s.scope .destination) s.bench (a, code) b' ∧
      a.toOperand = .cellDest 2 ∧ a.IsScratch b'.scratch) ∧
    (∃ code b', Yields (Assignment.lower s.scope) s.bench code b' ∧
      code.getLast? = some (.copy (.constant 5) (.cellDest 2))) ∧
    ∃ b', (reference s'.scope .destination).on s'.bench =
      (none, ((report (.invalidMode (-1) "A3")).on b').2) := by
  intro s s'
  refine ⟨?_, ?_, ?_⟩
  · have hread : (Reference.read (s.scope.home? s.bench.globals) 0 s.bench.tokens).1 =
        .ok (.plain ⟨-1, "a", .frame "f"⟩) := read_of_toOption (by decide +kernel)
    have hvalue : ((reference s.scope .destination).on s.bench).1.map (fun x => x.1.toOperand) =
        some (.cellDest 2) := by decide +kernel
    obtain ⟨⟨a, code⟩, hsome, ha⟩ := Option.map_eq_some_iff.mp hvalue
    have hyields := yields_of_on hsome
    have hjudged := (marks_uncover_scratch_cells {} markedLocal (.statement 2)).1
      _ _ _ _ _ hread hyields
    exact ⟨a, code, _, hyields, ha, (hjudged.held (by simp [Reference.isDirect])).mpr rfl⟩
  · have hvalue : ((Assignment.lower s.scope).on s.bench).1.map List.getLast? =
        some (some (.copy (.constant 5) (.cellDest 2))) := by decide +kernel
    obtain ⟨code, hsome, hlast⟩ := Option.map_eq_some_iff.mp hvalue
    exact ⟨code, _, yields_of_on hsome, hlast⟩
  · have hread : (Reference.read (s'.scope.home? s'.bench.globals) 0 s'.bench.tokens).1 =
        .ok (.plain ⟨-1, "x", .global⟩) := read_of_toOption (by decide +kernel)
    have hvalue : ((Reference.unmarked s'.scope (.plain ⟨-1, "x", .global⟩)).on
        { s'.bench with tokens := (Reference.read (s'.scope.home? s'.bench.globals) 0
        s'.bench.tokens).2 }).1 =
        some (.cell 3, []) := by decide +kernel
    have hrejected := (marks_uncover_scratch_cells {} markedLocal (.statement 3)).2.1
      .destination _ _ _ _ hread (by simp [Reference.IsAssignedNumber]) (yields_of_on hvalue)
    exact ⟨_, hrejected⟩

end Session
end CogolToolchain
