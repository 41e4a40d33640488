import CogolToolchain.Proofs.Compile.Scope
import CogolToolchain.Proofs.Compile.Statement

/-!
What the code of a statement looks like, whatever the workbench it was worked out on.

The code of an operand or of a condition is plain: it carries no labels, it writes cells at known
addresses, and the symbols in it are frame pointers and slots. The code of an assignment is plain up
to its last part, which is one instruction or a product.
-/

namespace CogolToolchain

open Work Attempt

/-! ### What results look like -/

/-- On every workbench that has the scratch cells `pool`, the result has the property; the property
may depend on the scratch cells there are then. -/
def Work.Gives {α : Type} (P : List Nat → α → Prop) (pool : List Nat) (w : Work α) : Prop :=
  ∀ b, b.Sane → pool ⊆ b.scratch.addresses → P (w.on b).2.scratch.addresses (w.on b).1

/-- On every workbench that has the scratch cells `pool`, the result has the property if there is
one. -/
def Attempt.Gives {α : Type} (P : List Nat → α → Prop) (pool : List Nat) (x : Attempt α) : Prop :=
  ∀ b a b', b.Sane → pool ⊆ b.scratch.addresses → Yields x b a b' → P b'.scratch.addresses a

section Gives

variable {α β : Type} {P : List Nat → α → Prop} {Q : List Nat → β → Prop} {pool : List Nat}

lemma Work.gives_pure {a : α} (h : ∀ pool', pool ⊆ pool' → P pool' a) :
    Work.Gives P pool (pure a) :=
  fun _ _ hpool => h _ hpool

lemma Work.Gives.bind {w : Work α} {f : α → Work β} (h : Work.Gives P pool w)
    {n : Bool} (hk : Advances n w)
    (hf : ∀ a pool', pool ⊆ pool' → P pool' a → Work.Gives Q pool' (f a)) :
    Work.Gives Q pool (w >>= f) := by
  intro b hb hpool
  obtain ⟨hs, hg⟩ := (hk b).keeps hb
  exact hf _ _ (List.Subset.trans hpool hg.scratch.subset) (h b hb hpool) _ hs (List.Subset.refl _)

lemma Work.gives_bind {n : Bool} {w : Work α} {f : α → Work β} (hk : Advances n w)
    (hf : ∀ a pool', pool ⊆ pool' → Work.Gives Q pool' (f a)) : Work.Gives Q pool (w >>= f) :=
  Work.Gives.bind (P := fun _ _ => True) (fun _ _ _ => trivial) hk fun a pool' h _ => hf a pool' h

lemma Work.gives_allocScratch : Work.Gives (fun pool' t => t ∈ pool') pool allocScratch :=
  fun _ hb _ => (takes_allocScratch hb).mem

lemma Work.gives_reuseScratch {a : Backed} (ha : a.cells ⊆ pool) :
    Work.Gives (fun pool' t => t ∈ pool') pool (reuseScratch a) := by
  unfold reuseScratch
  split
  · rename_i t ts hcells
    exact Work.gives_pure fun _ h => h (ha (by simp [hcells]))
  · exact Work.gives_allocScratch

lemma Work.gives_reuseScratchExcept {a : Backed} (keep : Backed) (ha : a.cells ⊆ pool) :
    Work.Gives (fun pool' t => t ∈ pool') pool (reuseScratchExcept a keep) := by
  unfold reuseScratchExcept
  split
  · rename_i t ts hcells
    split
    · exact Work.gives_allocScratch
    · exact Work.gives_pure fun _ h => h (ha (by simp [hcells]))
  · exact Work.gives_allocScratch

lemma Attempt.gives_pure {a : α} (h : ∀ pool', pool ⊆ pool' → P pool' a) :
    Attempt.Gives P pool (pure a) := by
  intro b a' b' _ hpool hy
  obtain ⟨rfl, rfl⟩ := yields_pure.mp hy
  exact h _ hpool

lemma Attempt.Gives.bind {x : Attempt α} {f : α → Attempt β} (h : Attempt.Gives P pool x)
    {n : Bool} (hx : Careful n x)
    (hf : ∀ a pool', pool ⊆ pool' → P pool' a → Attempt.Gives Q pool' (f a)) :
    Attempt.Gives Q pool (x >>= f) := by
  intro b r b' hb hpool hy
  obtain ⟨a, b₁, hy₁, hy₂⟩ := yields_bind.mp hy
  obtain ⟨hs, hg⟩ := hx.grows hb hy₁
  exact hf a _ (List.Subset.trans hpool hg.scratch.subset) (h b a b₁ hb hpool hy₁) b₁ r b' hs
    (List.Subset.refl _) hy₂

lemma Attempt.gives_bind {n : Bool} {x : Attempt α} {f : α → Attempt β} (hx : Careful n x)
    (hf : ∀ a pool', pool ⊆ pool' → Attempt.Gives Q pool' (f a)) : Attempt.Gives Q pool (x >>= f) :=
  Attempt.Gives.bind (P := fun _ _ => True) (fun _ _ _ _ _ _ => trivial) hx
    fun a pool' h _ => hf a pool' h

lemma Attempt.gives_lift {w : Work α} (h : Work.Gives P pool w) :
    Attempt.Gives P pool (liftM w) := by
  intro b a b' hb hpool hy
  rw [yields_lift] at hy
  have := h b hb hpool
  rwa [hy] at this

lemma Attempt.gives_failStatement (p : Problem) : Attempt.Gives P pool (failStatement p) :=
  fun _ _ _ _ _ hy => absurd hy not_yields_failStatement

end Gives

/-! ### Symbols in code -/

def Value.ref? : Value → Option SymbolRef
  | known _ => none
  | symbolic ref => some ref

def Operand.IsKnown (a : Operand) : Prop := a.value.ref? = none

def Instruction.refs (i : Instruction) : List SymbolRef :=
  i.operands.filterMap fun a => a.value.ref?

def Code.refs (code : Code) : List SymbolRef := code.flatMap Instruction.refs

def Code.tags (code : Code) : List Label := code.flatMap Instruction.tags

section Symbols

variable {i : Instruction} {p q : Code} {ref : SymbolRef}

lemma Instruction.mem_refs : ref ∈ i.refs ↔
    i.lhs.value.ref? = some ref ∨ i.rhs.value.ref? = some ref ∨ i.dest.value.ref? = some ref := by
  simp [refs, operands]

lemma Instruction.refs_eq_nil (hl : i.lhs.IsKnown) (hr : i.rhs.IsKnown) (hd : i.dest.IsKnown) :
    i.refs = [] := by
  rw [List.eq_nil_iff_forall_not_mem]
  intro ref href
  rw [mem_refs, hl, hr, hd] at href
  simp at href

@[simp] lemma Instruction.refs_tags (tags : List Label) : refs { i with tags := tags } = i.refs :=
  rfl

@[simp] lemma Instruction.refs_tagged (l : Label) : (i.tagged l).refs = i.refs := rfl

@[simp] lemma Instruction.tags_tagged (l : Label) : (i.tagged l).tags = i.tags ++ [l] := rfl

@[simp] lemma Instruction.refs_nop : nop.refs = [] := rfl

@[simp] lemma Instruction.tags_nop : nop.tags = [] := rfl

@[simp] lemma Instruction.refs_mk (o : Opcode) (l r d : Operand) (tags : List Label) :
    Instruction.refs ⟨o, l, r, d, tags⟩ =
      l.value.ref?.toList ++ (r.value.ref?.toList ++ d.value.ref?.toList) := by
  simp only [refs, operands, List.filterMap_cons, List.filterMap_nil]
  rcases l.value.ref? with _ | _ <;> rcases r.value.ref? with _ | _ <;>
    rcases d.value.ref? with _ | _ <;> rfl

@[simp] lemma Instruction.refs_copy (a d : Operand) :
    (copy a d).refs = a.value.ref?.toList ++ d.value.ref?.toList := refs_mk _ _ _ _ _

@[simp] lemma Instruction.refs_jump (a : Operand) : (jump a).refs = a.value.ref?.toList := by
  rw [jump, refs_copy]
  exact List.append_nil _

@[simp] lemma Operand.ref?_named (mode : Mode) (name : String) (offset : Int) :
    (Operand.named mode name offset).value.ref? = some ⟨.cell name, offset⟩ := rfl

@[simp] lemma Operand.ref?_slot (owner name : String) :
    (Operand.slot owner name).value.ref? = some ⟨.slot owner name, 0⟩ := rfl

@[simp] lemma Operand.ref?_label (l : Label) (offset : Int) :
    (Operand.label l offset).value.ref? = some ⟨.label l, offset⟩ := rfl

@[simp] lemma Operand.ref?_constant (n : Int) : (Operand.constant n).value.ref? = none := rfl

@[simp] lemma Operand.ref?_cell (t : Nat) : (Operand.cell t).value.ref? = none := rfl

@[simp] lemma Operand.ref?_cellDest (t : Nat) : (Operand.cellDest t).value.ref? = none := rfl

@[simp] lemma Operand.ref?_through (t : Nat) : (Operand.through t).value.ref? = none := rfl

@[simp] lemma Operand.ref?_read (a : Operand) : a.read.value.ref? = a.value.ref? := rfl

@[simp] lemma Code.refs_nil : Code.refs [] = [] := rfl

@[simp] lemma Code.refs_cons : Code.refs (i :: p) = i.refs ++ Code.refs p := rfl

@[simp] lemma Code.refs_append : Code.refs (p ++ q) = Code.refs p ++ Code.refs q := by
  simp [Code.refs]

@[simp] lemma Code.tags_nil : Code.tags [] = [] := rfl

@[simp] lemma Code.tags_cons (i : Instruction) (p : Code) :
    Code.tags (i :: p) = i.tags ++ Code.tags p := rfl

@[simp] lemma Code.tags_append (p q : Code) : Code.tags (p ++ q) = Code.tags p ++ Code.tags q := by
  simp [Code.tags]

lemma Code.mem_refs : ref ∈ Code.refs p ↔ ∃ i ∈ p, ref ∈ i.refs := List.mem_flatMap

end Symbols

/-! ### Plain code -/

/-- The symbol is the frame pointer of a subroutine of the scope, or a slot. -/
def Scope.Offers (scope : Scope) : Symbol → Prop
  | .cell owner => (scope.frame? owner).isSome
  | .slot _ _ => True
  | .label _ => False

/-- The instructions carry no labels, each of them writes one of the cells `pool`, and their symbols
are those that the scope offers. -/
def Scope.Plain (scope : Scope) (pool : List Nat) (code : Code) : Prop :=
  ∀ i ∈ code, i.tags = [] ∧ (∃ t ∈ pool, i.dest = .cellDest t) ∧
    ∀ ref ∈ i.refs, scope.Offers ref.symbol

/-- An operand whose value is known, held by scratch cells, and plain code. -/
structure Scope.Lowered (scope : Scope) (pool : List Nat) (r : Backed × Code) : Prop where
  known : r.1.IsKnown
  cells : r.1.cells ⊆ pool
  plain : scope.Plain pool r.2

section Plain

variable {scope : Scope} {pool pool' : List Nat} {i : Instruction} {p q : Code}

lemma Scope.plain_nil : scope.Plain pool [] := by simp [Plain]

lemma Scope.plain_append : scope.Plain pool (p ++ q) ↔ scope.Plain pool p ∧ scope.Plain pool q := by
  simp only [Plain, List.forall_mem_append]

lemma Scope.Plain.mono (h : scope.Plain pool p) (hpool : pool ⊆ pool') : scope.Plain pool' p :=
  fun i hi => by
    obtain ⟨htags, ⟨t, ht, hdest⟩, hrefs⟩ := h i hi
    exact ⟨htags, ⟨t, hpool ht, hdest⟩, hrefs⟩

lemma Scope.Lowered.mono {r : Backed × Code} (h : scope.Lowered pool r) (hpool : pool ⊆ pool') :
    scope.Lowered pool' r := ⟨h.known, List.Subset.trans h.cells hpool, h.plain.mono hpool⟩

lemma Scope.Plain.op (h : scope.Plain pool p) {o : Opcode} {lhs rhs : Operand} {t : Nat}
    (ht : t ∈ pool) (hl : ∀ ref, lhs.value.ref? = some ref → scope.Offers ref.symbol)
    (hr : ∀ ref, rhs.value.ref? = some ref → scope.Offers ref.symbol) :
    scope.Plain pool ({ opcode := o, lhs := lhs, rhs := rhs, dest := .cellDest t } :: p) := by
  intro i hi
  rcases List.mem_cons.mp hi with rfl | hi
  · refine ⟨rfl, ⟨t, ht, rfl⟩, fun ref href => ?_⟩
    rw [Instruction.mem_refs] at href
    rcases href with href | href | href
    · exact hl ref href
    · exact hr ref href
    · simp [Operand.cellDest, Value.ref?] at href
  · exact h i hi

lemma Operand.IsKnown.offers {a : Operand} (h : a.IsKnown) (ref : SymbolRef)
    (href : a.value.ref? = some ref) : scope.Offers ref.symbol := by
  rw [h] at href
  simp at href

lemma Operand.known_constant (n : Int) : (Operand.constant n).IsKnown := rfl

lemma Operand.known_cell (t : Nat) : (Operand.cell t).IsKnown := rfl

lemma Operand.known_cellDest (t : Nat) : (Operand.cellDest t).IsKnown := rfl

lemma Operand.known_through (t : Nat) : (Operand.through t).IsKnown := rfl

lemma Scope.offers_frameBase {owner : String} (h : (scope.frame? owner).isSome) (ref : SymbolRef)
    (href : (Reference.frameBase owner).value.ref? = some ref) : scope.Offers ref.symbol := by
  obtain rfl := Option.some.inj href
  exact h

lemma Scope.offers_slot (owner name : String) (ref : SymbolRef)
    (href : (Operand.slot owner name).value.ref? = some ref) : scope.Offers ref.symbol := by
  obtain rfl := Option.some.inj href
  trivial

lemma Scope.Plain.tags (h : scope.Plain pool p) : Code.tags p = [] := by
  rw [Code.tags, List.flatMap_eq_nil_iff]
  exact fun i hi => (h i hi).1

lemma Scope.Plain.offers (h : scope.Plain pool p) :
    ∀ ref ∈ Code.refs p, scope.Offers ref.symbol := by
  intro ref href
  obtain ⟨i, hi, hmem⟩ := Code.mem_refs.mp href
  exact (h i hi).2.2 ref hmem

end Plain

section

variable (scope : Scope) (pool : List Nat)

namespace Reference

variable {scope} {head : Head}

lemma lowered_frameAddress {owner : String} (offset : Nat) (h : (scope.frame? owner).isSome) :
    Work.Gives (fun pool' r => r.1 ∈ pool' ∧ scope.Plain pool' r.2) pool
      (frameAddress owner offset) :=
  Work.gives_allocScratch.bind advances_allocScratch fun _ _ _ ht => Work.gives_pure
    fun _ hpool => ⟨hpool ht, Scope.plain_nil.op (hpool ht) (Scope.offers_frameBase h)
      (Operand.known_constant _).offers⟩

lemma lowered_lowerVariable (hk : scope.Knows head) :
    Work.Gives scope.Lowered pool (lowerVariable scope head) := by
  refine Work.gives_bind (advances_headOffset scope head) fun offset pool' _ => ?_
  split
  · exact Work.gives_pure fun _ _ => ⟨rfl, List.nil_subset _, Scope.plain_nil⟩
  · rename_i owner hhome
    exact (lowered_frameAddress _ offset (hk.2 owner hhome)).bind (advances_frameAddress _ _)
      fun _ _ _ h => Work.gives_pure fun _ hpool =>
        ⟨rfl, by simpa [Backed.through] using hpool h.1, h.2.mono hpool⟩

lemma lowered_lowerPlain (hk : scope.Knows head) :
    Work.Gives scope.Lowered pool (lowerPlain scope head) := by
  rw [lowerPlain_eq]
  refine Work.gives_bind (advances_headType scope head) fun type pool' _ => ?_
  split
  · exact Work.gives_bind (advances_report _) fun _ pool'' _ => lowered_lowerVariable pool'' hk
  · exact lowered_lowerVariable pool' hk

lemma lowered_lowerField (hk : scope.Knows head) (field : String) :
    Work.Gives scope.Lowered pool (lowerField scope head field) := by
  refine Work.gives_bind (advances_fieldOwner scope head) fun owner pool₁ _ =>
    Work.gives_bind (advances_headOffset scope head) fun offset pool₂ _ => ?_
  split
  · exact Work.gives_allocScratch.bind advances_allocScratch fun t _ _ ht => Work.gives_pure
      fun _ hpool => ⟨rfl, by simpa [Backed.through] using hpool ht, Scope.plain_nil.op (hpool ht)
        (Operand.known_cell _).offers (Scope.offers_slot _ _)⟩
  · rename_i sub hhome
    refine (lowered_frameAddress _ offset (hk.2 sub hhome)).bind (advances_frameAddress _ _)
      fun r _ _ hr => Work.gives_pure fun _ hpool =>
        ⟨rfl, by simpa [Backed.through] using hpool hr.1, ?_⟩
    exact Scope.plain_append.mpr ⟨hr.2.mono hpool, Scope.plain_nil.op (hpool hr.1)
      (Operand.known_through _).offers (Scope.offers_slot _ _)⟩

lemma lowered_lowerElement (hk : scope.Knows head) {index : Backed} (hi : index.IsKnown)
    (hcells : index.cells ⊆ pool) :
    Work.Gives scope.Lowered pool (lowerElement scope head index) := by
  refine Work.gives_bind (advances_headType scope head) fun type pool₁ hpool₁ =>
    Work.gives_bind (advances_headOffset scope head) fun offset pool₂ hpool₂ => ?_
  have hcells₂ : index.cells ⊆ pool₂ := List.Subset.trans hcells (List.Subset.trans hpool₁ hpool₂)
  -- the element is reached through a cell that the index gave up or that was free
  have hreuse : ∀ {o : Opcode} {lhs : Operand}, lhs.IsKnown → Work.Gives scope.Lowered pool₂ (do
      let temp ← Work.reuseScratch index
      return (.through temp, [{ opcode := o, lhs := lhs, rhs := index.toOperand,
                                dest := .cellDest temp }])) := fun hl =>
    (Work.gives_reuseScratch hcells₂).bind (advances_reuseScratch index) fun t _ _ ht =>
      Work.gives_pure fun _ hpool => ⟨rfl, by simpa [Backed.through] using hpool ht,
        Scope.plain_nil.op (hpool ht) hl.offers hi.offers⟩
  dsimp only
  split
  · exact Work.gives_pure fun _ _ => ⟨rfl, List.nil_subset _, Scope.plain_nil⟩
  · exact hreuse (Operand.known_constant _)
  · exact hreuse (Operand.known_cell _)
  · rename_i owner _ hhome _ _
    exact Work.gives_allocScratch.bind advances_allocScratch fun t _ _ ht => Work.gives_pure
      fun _ hpool => ⟨rfl, by simpa [Backed.through] using hpool ht, Scope.plain_nil.op (hpool ht)
        (Scope.offers_frameBase (hk.2 owner hhome)) (Operand.known_constant _).offers⟩
  · rename_i owner hhome _ _
    exact (Work.gives_reuseScratch hcells₂).bind (advances_reuseScratch index) fun t _ _ ht =>
      Work.gives_pure fun _ hpool => ⟨rfl, by simpa [Backed.through] using hpool ht,
        (Scope.plain_nil.op (hpool ht) (Operand.known_cell _).offers
          (Operand.known_constant _).offers).op (hpool ht)
          (Scope.offers_frameBase (hk.2 owner hhome)) hi.offers⟩
  · rename_i owner hhome _
    exact (lowered_frameAddress _ offset (hk.2 owner hhome)).bind (advances_frameAddress _ _)
      fun r _ _ hr => Work.gives_pure fun _ hpool =>
        ⟨rfl, by simpa [Backed.through] using hpool hr.1, Scope.plain_append.mpr ⟨hr.2.mono hpool,
          Scope.plain_nil.op (hpool hr.1) (Operand.known_through _).offers hi.offers⟩⟩

lemma lowered_applyShift (role : Role) (shift : Int) {a : Backed} {code : Code}
    (h : scope.Lowered pool (a, code)) :
    Attempt.Gives (fun pool' a' => scope.Lowered pool' (a', code)) pool
      (applyShift role shift a) := by
  intro b a' b' _ hpool hy
  obtain ⟨rfl, mode, -, rfl⟩ := withMode_of_applyShift hy
  exact ⟨h.known, List.Subset.trans h.cells hpool, h.plain.mono hpool⟩

lemma lowered_shift (role : Role) (shift : Int) {a : Backed} {code : Code}
    (h : scope.Lowered pool (a, code)) : Attempt.Gives scope.Lowered pool (do
      return (← applyShift role shift a, code)) :=
  (lowered_applyShift pool role shift h).bind (careful_applyShift role shift a)
    fun _ _ _ h' => Attempt.gives_pure fun _ hpool => h'.mono hpool

lemma lowered_lower (role : Role) {r : Reference} (hr : r.Proper scope) :
    Attempt.Gives scope.Lowered pool (r.lower scope role) := by
  induction r generalizing role pool with
  | numeral shift text value =>
    rw [lower]
    split
    · exact Attempt.gives_failStatement _
    · exact lowered_shift pool role shift ⟨rfl, List.nil_subset _, Scope.plain_nil⟩
  | plain head =>
    exact (Attempt.gives_lift (lowered_lowerPlain pool hr)).bind
      (careful_lift (advances_lowerPlain scope head)) fun _ _ _ h =>
        lowered_shift _ role head.shift h
  | field head name =>
    exact (Attempt.gives_lift (lowered_lowerField pool hr name)).bind
      (careful_lift (advances_lowerField scope head name)) fun _ _ _ h =>
        lowered_shift _ role head.shift h
  | element head index ih =>
    refine (ih pool .source hr.2).bind (careful_lower scope .source index) fun i _ _ h =>
      (Attempt.gives_lift (lowered_lowerElement _ hr.1 h.known h.cells)).bind
        (careful_lift (advances_lowerElement scope head _)) fun a _ hpool₂ h' =>
      Attempt.gives_bind (careful_lift (advances_releaseCells _)) fun _ _ hpool₃ =>
      Attempt.gives_bind (careful_closeIndex _) fun _ _ hpool₄ => lowered_shift _ role head.shift ?_
    have hpool := List.Subset.trans hpool₃ hpool₄
    have hall := h'.mono hpool
    exact ⟨hall.known, hall.cells, Scope.plain_append.mpr
      ⟨h.plain.mono (List.Subset.trans hpool₂ hpool), hall.plain⟩⟩

end Reference

lemma lowered_reference (role : Role) :
    Attempt.Gives scope.Lowered pool (reference scope role) := by
  intro b r b' hb hpool hy
  simp only [reference, yields_bind, yields_get, yields_set] at hy
  obtain ⟨b₀, b₁, ⟨rfl, rfl⟩, -, b₂, rfl, hy⟩ := hy
  split at hy
  · rename_i ref href
    refine Reference.lowered_lower pool role (Reference.proper_of_read href) _ r b' ?_ ?_ hy
    · exact hb.congr rfl rfl
    · exact hpool
  · exact absurd hy not_yields_failStatement

def Branch.IsKnown : Branch → Prop
  | .always | .never => True
  | .ifNegative test | .ifNonZero test => Operand.IsKnown test.toOperand

/-- A branch on an operand whose value is known, and plain code. -/
structure Scope.Tested (scope : Scope) (pool : List Nat) (r : Branch × Code) : Prop where
  known : r.1.IsKnown
  plain : scope.Plain pool r.2

namespace Test

variable {a b : Backed}

lemma lowered_difference (ha : a.IsKnown) (hb : b.IsKnown) :
    Work.Gives scope.Lowered pool (difference a b) :=
  Work.gives_bind (advances_releaseCells _) fun _ _ _ =>
    Work.gives_bind (advances_releaseCells _) fun _ _ _ =>
    Work.gives_allocScratch.bind advances_allocScratch fun _ _ _ ht =>
      Work.gives_pure fun _ hpool =>
      ⟨rfl, by simpa [Backed.scratchCell] using hpool ht,
        Scope.plain_nil.op (hpool ht) ha.offers hb.offers⟩

lemma lowered_distance (ha : a.IsKnown) (hb : b.IsKnown) (hac : a.cells ⊆ pool)
    (hbc : b.cells ⊆ pool) : Work.Gives scope.Lowered pool (distance a b) := by
  unfold distance
  split
  · exact Work.gives_pure fun _ hpool => ⟨ha, List.Subset.trans hac hpool, Scope.plain_nil⟩
  · split
    · exact Work.gives_pure fun _ hpool => ⟨hb, List.Subset.trans hbc hpool, Scope.plain_nil⟩
    · exact lowered_difference scope pool ha hb

/-- The operands of the test have known values and are held by scratch cells. -/
def IsKnown (pool : List Nat) : Test → Prop
  | less a b | lessEq a b | equal a b | differ a b =>
    (Operand.IsKnown a.toOperand ∧ a.cells ⊆ pool) ∧ Operand.IsKnown b.toOperand ∧ b.cells ⊆ pool

lemma known_of (ha : a.IsKnown ∧ a.cells ⊆ pool) (hb : b.IsKnown ∧ b.cells ⊆ pool)
    (op : Comparison) : (Test.of a op b).IsKnown pool := by
  have hadjusted : ∀ {x y : Backed} {delta : Int}, adjusted? x delta = some y →
      y.IsKnown ∧ y.cells ⊆ pool := by
    intro x y delta h
    simp only [adjusted?, Option.bind_eq_some_iff, Option.map_eq_some_iff] at h
    obtain ⟨n, -, m, -, rfl⟩ := h
    exact ⟨rfl, List.nil_subset _⟩
  cases op with
  | lt | gt | eq | ne => exact ⟨by assumption, by assumption⟩
  | le =>
    unfold Test.of
    dsimp only
    split
    · exact ⟨ha, hadjusted ‹_›⟩
    · exact ⟨hadjusted ‹_›, hb⟩
    · exact ⟨ha, hb⟩
  | ge =>
    unfold Test.of
    dsimp only
    split
    · exact ⟨hadjusted ‹_›, ha⟩
    · exact ⟨hb, hadjusted ‹_›⟩
    · exact ⟨hb, ha⟩

lemma tested_lower {t : Test} (ht : t.IsKnown pool) : Work.Gives scope.Tested pool t.lower := by
  cases t with
  | less a b =>
    rw [lower]
    split
    · exact Work.gives_pure fun _ _ => ⟨ht.1.1, Scope.plain_nil⟩
    · exact (lowered_difference scope pool ht.1.1 ht.2.1).bind (advances_difference a b)
        fun _ _ _ h => Work.gives_pure fun _ hpool => ⟨h.known, h.plain.mono hpool⟩
  | lessEq a b =>
    exact Work.gives_bind (advances_releaseCells _) fun _ _ _ =>
      Work.gives_allocScratch.bind advances_allocScratch fun _ _ _ hmem => Work.gives_pure
        fun _ hpool => ⟨rfl, (Scope.plain_nil.op (hpool hmem) ht.1.1.offers
          (Operand.known_cell _).offers).op (hpool hmem) ht.2.1.offers
          (Operand.known_constant _).offers⟩
  | equal a b =>
    refine (lowered_distance scope pool ht.1.1 ht.2.1 ht.1.2 ht.2.2).bind
      (advances_distance a b) fun r _ _ h =>
      Work.gives_allocScratch.bind advances_allocScratch fun _ _ hpool₁ hmem => Work.gives_pure
        fun _ hpool => ⟨rfl, Scope.plain_append.mpr
          ⟨h.plain.mono (List.Subset.trans hpool₁ hpool), ?_⟩⟩
    exact (Scope.plain_nil.op (hpool hmem) (Operand.known_cell _).offers h.known.offers).op
      (hpool hmem) h.known.offers (Operand.known_constant _).offers
  | differ a b =>
    exact (lowered_distance scope pool ht.1.1 ht.2.1 ht.1.2 ht.2.2).bind
      (advances_distance a b) fun _ _ _ h => Work.gives_pure fun _ hpool =>
        ⟨h.known, h.plain.mono hpool⟩

end Test

namespace Condition

/-- The operands of the condition have known values and are held by scratch cells. -/
def IsKnown (pool : List Nat) (c : Condition) : Prop :=
  (Operand.IsKnown c.a.toOperand ∧ c.a.cells ⊆ pool) ∧
    Operand.IsKnown c.b.toOperand ∧ c.b.cells ⊆ pool

lemma IsKnown.mono {pool pool' : List Nat} {c : Condition} (h : c.IsKnown pool)
    (hp : pool ⊆ pool') : c.IsKnown pool' :=
  ⟨⟨h.1.1, List.Subset.trans h.1.2 hp⟩, h.2.1, List.Subset.trans h.2.2 hp⟩

lemma tested_lower {c : Condition} (hc : c.IsKnown pool) :
    Work.Gives scope.Tested pool c.lower := by
  unfold lower
  split
  · refine Work.gives_bind (advances_report _) fun _ _ _ => Work.gives_pure fun _ _ =>
      ⟨?_, Scope.plain_nil⟩
    dsimp only
    split <;> trivial
  · exact Test.tested_lower scope pool (Test.known_of pool hc.1 hc.2 c.op)

lemma plain_read : Attempt.Gives (fun pool' r => r.1.IsKnown pool' ∧ scope.Plain pool' r.2) pool
    (read scope) := by
  refine Attempt.gives_bind (careful_expect _) fun _ _ _ =>
    (lowered_reference scope _ .source).bind (careful_reference scope .source) fun r _ _ hr =>
    Attempt.gives_bind (careful_lift advances_pop) fun next _ hpool₁ => ?_
  dsimp only
  split
  · refine Attempt.gives_pure fun _ hpool => ?_
    have h := hr.mono (List.Subset.trans hpool₁ hpool)
    exact ⟨⟨⟨h.known, h.cells⟩, rfl, List.nil_subset _⟩, h.plain⟩
  · refine Attempt.gives_bind (careful_readOperator _) fun _ _ hpool₂ =>
      (lowered_reference scope _ .source).bind (careful_reference scope .source)
        fun r' _ hpool₃ hr' =>
      Attempt.gives_bind (careful_lift (advances_checkBounds _ _)) fun _ _ hpool₄ =>
      Attempt.gives_bind (careful_lift (advances_checkBounds _ _)) fun _ _ hpool₅ =>
      Attempt.gives_bind (careful_expect _) fun _ _ hpool₆ => Attempt.gives_pure fun _ hpool => ?_
    have hlast := List.Subset.trans hpool₄ (List.Subset.trans hpool₅
      (List.Subset.trans hpool₆ hpool))
    have h := hr.mono (List.Subset.trans hpool₁ (List.Subset.trans hpool₂
      (List.Subset.trans hpool₃ hlast)))
    have h' := hr'.mono hlast
    exact ⟨⟨⟨h.known, h.cells⟩, h'.known, h'.cells⟩, Scope.plain_append.mpr ⟨h.plain, h'.plain⟩⟩

end Condition
end

/-! ### Assignments -/

namespace Assignment

/-- The last part of the code of an assignment to `dest`: nothing, one instruction, or a product,
whose number is from `lo` on and below `hi`. -/
inductive Ending (dest : Operand) (pool : List Nat) (lo hi : Nat) : Code → Prop
  | nothing : Ending dest pool lo hi []
  | store {i : Instruction} (hdest : i.dest = dest) (htags : i.tags = []) (hlhs : i.lhs.IsKnown)
      (hrhs : i.rhs.IsKnown) : Ending dest pool lo hi [i]
  | product {lhs rhs target : Backed} {counter addend id : Nat} (hdest : target.toOperand = dest)
      (hlhs : lhs.IsKnown) (hrhs : rhs.IsKnown) (hcounter : counter ∈ pool)
      (haddend : addend ∈ pool)
      (hlo : lo ≤ id) (hhi : id < hi) :
      Ending dest pool lo hi (productCode lhs rhs target counter addend (.multiplyEnd id))

def Ends (scope : Scope) (dest : Operand) (pool : List Nat) (x : Attempt Code) : Prop :=
  ∀ b code b', b.Sane → pool ⊆ b.scratch.addresses → Yields x b code b' → ∃ middle last,
    code = middle ++ last ∧ scope.Plain b'.scratch.addresses middle ∧
      Ending dest b'.scratch.addresses b.nextId b'.nextId last

section

variable {scope : Scope} {dest : Operand} {pool : List Nat} {x : Attempt Code} {code : Code}

lemma Ending.mono {lo lo' hi : Nat} (h : Ending dest pool lo hi code) (hlo : lo' ≤ lo) :
    Ending dest pool lo' hi code := by
  cases h with
  | nothing => exact .nothing
  | store hdest htags hlhs hrhs => exact .store hdest htags hlhs hrhs
  | product hdest hlhs hrhs hcounter haddend hlo' hhi =>
    exact .product hdest hlhs hrhs hcounter haddend (hlo.trans hlo') hhi

lemma ends_store {p : Code} {i : Instruction} (hp : scope.Plain pool p) (hdest : i.dest = dest)
    (htags : i.tags = []) (hlhs : i.lhs.IsKnown) (hrhs : i.rhs.IsKnown) :
    Ends scope dest pool (pure (p ++ [i])) := by
  intro b code b' _ hpool hy
  obtain ⟨rfl, rfl⟩ := yields_pure.mp hy
  exact ⟨p, [i], rfl, hp.mono hpool, .store hdest htags hlhs hrhs⟩

lemma Ends.bind {α : Type} {y : Attempt α} {f : α → Attempt Code} {P : List Nat → α → Prop}
    (hP : Attempt.Gives P pool y) {n : Bool} (hy : Careful n y)
    (hf : ∀ a pool', pool ⊆ pool' → P pool' a → Ends scope dest pool' (f a)) :
    Ends scope dest pool (y >>= f) := by
  intro b code b' hb hpool h
  obtain ⟨a, b₁, hy₁, hy₂⟩ := yields_bind.mp h
  obtain ⟨hs, hg⟩ := hy.grows hb hy₁
  obtain ⟨middle, last, hcode, hplain, hlast⟩ := hf a _ (List.Subset.trans hpool hg.scratch.subset)
    (hP b a b₁ hb hpool hy₁) b₁ code b' hs (List.Subset.refl _) hy₂
  exact ⟨middle, last, hcode, hplain, hlast.mono hg.nextId⟩

lemma Ends.bind_any {α : Type} {n : Bool} {y : Attempt α} {f : α → Attempt Code} (hy : Careful n y)
    (hf : ∀ a pool', pool ⊆ pool' → Ends scope dest pool' (f a)) :
    Ends scope dest pool (y >>= f) :=
  Ends.bind (P := fun _ _ => True) (fun _ _ _ _ _ _ => trivial) hy fun a pool' h _ => hf a pool' h

lemma Ends.prepend (h : Ends scope dest pool x) {p : Code} (hp : scope.Plain pool p)
    {n : Bool} (hx : Careful n x) :
    Ends scope dest pool (do return p ++ (← x)) := by
  intro b code b' hb hpool hy
  obtain ⟨code', b₁, hy₁, hy₂⟩ := yields_bind.mp hy
  obtain ⟨rfl, rfl⟩ := yields_pure.mp hy₂
  obtain ⟨middle, last, rfl, hplain, hlast⟩ := h b code' b' hb hpool hy₁
  have hsub := List.Subset.trans hpool (hx.grows hb hy₁).2.scratch.subset
  exact ⟨p ++ middle, last, by simp, Scope.plain_append.mpr ⟨hp.mono hsub, hplain⟩, hlast⟩

lemma productCode_of_multiply {lhs rhs target : Backed} {b b' : Workbench} (hb : b.Sane)
    (hlc : lhs.cells ⊆ b.scratch.addresses) (hrc : rhs.cells ⊆ b.scratch.addresses)
    (h : (multiply lhs rhs target).on b = (code, b')) : ∃ counter ∈ b'.scratch.addresses,
      ∃ addend ∈ b'.scratch.addresses,
        code = productCode lhs rhs target counter addend (.multiplyEnd b.nextId) ∧
        b.nextId < b'.nextId := by
  obtain ⟨hs, -⟩ := (advances_takeId b).keeps hb
  obtain ⟨hs₁, hg₁⟩ := (advances_reuseScratchExcept lhs target _).keeps hs
  obtain ⟨-, hg₂⟩ := (advances_reuseScratchExcept rhs target _).keeps hs₁
  have hcounter := Work.gives_reuseScratchExcept target hlc _ hs (List.Subset.refl _)
  have haddend := Work.gives_reuseScratchExcept target hrc _ hs₁ hg₁.scratch.subset
  have hid := hg₁.nextId.trans hg₂.nextId
  simp only [multiply, Work.on_bind, Work.on_pure, Prod.mk.injEq] at h
  obtain ⟨rfl, rfl⟩ := h
  exact ⟨_, hg₂.scratch.subset hcounter, _, haddend, rfl, hid⟩

lemma ends_multiply {lhs rhs : Backed} (target : Backed) (hl : lhs.IsKnown) (hr : rhs.IsKnown)
    (hlc : lhs.cells ⊆ pool) (hrc : rhs.cells ⊆ pool) :
    Ends scope target.toOperand pool (liftM (multiply lhs rhs target)) := by
  intro b code b' hb hpool hy
  obtain ⟨_, hcounter, _, haddend, rfl, hid⟩ :=
    productCode_of_multiply hb (List.Subset.trans hlc hpool) (List.Subset.trans hrc hpool)
      (yields_lift.mp hy)
  exact ⟨[], _, rfl, Scope.plain_nil, .product rfl hl hr hcounter haddend (Nat.le_refl _) hid⟩

end

section

variable (scope : Scope) {pool : List Nat} {lhs : Backed} (target : Backed) (op : Token)

lemma ends_conditional (hl : lhs.IsKnown) :
    Ends scope target.toOperand pool (conditional scope lhs target) := by
  refine Ends.bind (lowered_reference scope pool .source) (careful_reference scope .source)
    fun a _ _ ha => Ends.bind_any (careful_lift advances_pop) fun _ _ h₁ =>
    Ends.bind_any (Condition.careful_readOperator _) fun _ _ h₂ =>
    Ends.bind (lowered_reference scope _ .source) (careful_reference scope .source) fun b _ h₃ hb =>
    Ends.bind_any (careful_expect _) fun _ pool' h₄ => ?_
  have ha' := ha.mono (List.Subset.trans h₁ (List.Subset.trans h₂ (List.Subset.trans h₃ h₄)))
  have hb' := hb.mono h₄
  refine Ends.bind (Attempt.gives_lift (Condition.tested_lower scope pool'
    ⟨⟨ha'.known, ha'.cells⟩, hb'.known, hb'.cells⟩)) (careful_lift (Condition.advances_lower _))
    fun r pool'' h₅ hr => ?_
  have hplain : scope.Plain pool'' (a.2 ++ b.2 ++ r.2) := Scope.plain_append.mpr
    ⟨Scope.plain_append.mpr ⟨ha'.plain.mono h₅, hb'.plain.mono h₅⟩, hr.plain⟩
  obtain ⟨branch, test⟩ := r
  have hknown := hr.known
  cases branch with
  | always => exact ends_store hplain rfl rfl (Operand.known_constant _) hl
  | never =>
    intro b code b' _ hpool hy
    obtain ⟨rfl, rfl⟩ := yields_pure.mp hy
    exact ⟨_, [], rfl, hplain.mono hpool, .nothing⟩
  | ifNegative => exact ends_store hplain rfl rfl hknown hl
  | ifNonZero => exact ends_store hplain rfl rfl hknown hl

lemma ends_binary (hl : lhs.IsKnown) (hlc : lhs.cells ⊆ pool) :
    Ends scope target.toOperand pool (binary scope lhs op target) := by
  refine Ends.bind (lowered_reference scope pool .source) (careful_reference scope .source)
    fun a _ h₀ ha => Ends.bind_any (careful_lift (Condition.advances_checkBounds _ _)) fun _ _ h₁ =>
    Ends.bind_any (careful_expect _) fun _ pool' h₂ => ?_
  have ha' := ha.mono (List.Subset.trans h₁ h₂)
  have hlc' := List.Subset.trans hlc (List.Subset.trans h₀ (List.Subset.trans h₁ h₂))
  split
  · exact (ends_multiply target hl ha'.known hlc' ha'.cells).prepend ha'.plain
      (careful_lift (advances_multiply _ _ _))
  · split
    · exact ends_store ha'.plain rfl rfl hl ha'.known
    · exact fun _ _ _ _ _ hy => absurd hy not_yields_failHere

lemma ends_operation (hl : lhs.IsKnown) (hlc : lhs.cells ⊆ pool) :
    Ends scope target.toOperand pool (operation scope lhs op target) := by
  refine Ends.bind_any (careful_lift (Condition.advances_checkBounds _ _)) fun _ pool' h => ?_
  split
  · exact ends_store (p := []) Scope.plain_nil rfl rfl (Operand.known_constant _) hl
  · split
    · exact ends_conditional scope target hl
    · exact ends_binary scope target op hl (List.Subset.trans hlc h)

lemma lowered_firstOperand (pool : List Nat) :
    Attempt.Gives scope.Lowered pool (firstOperand scope) := by
  refine Attempt.gives_bind (careful_lift advances_peek) fun _ _ _ => ?_
  split
  · exact Attempt.gives_pure fun _ _ => ⟨rfl, List.nil_subset _, Scope.plain_nil⟩
  · exact lowered_reference scope _ .source

lemma ends_afterDestination {dest : Backed} {address : Code}
    (hd : scope.Lowered pool (dest, address)) : Ends scope dest.toOperand pool (do
      checkBounds .destination dest.toOperand
      afterOperator scope dest address (← Work.pop)) := by
  have hread : (Backed.ofOperand dest.read.toOperand).IsKnown := hd.known
  refine Ends.bind_any (careful_lift (Condition.advances_checkBounds _ _)) fun _ _ h₁ =>
    Ends.bind_any (careful_lift advances_pop) fun eq _ h₂ => ?_
  have hplain := hd.plain.mono (List.Subset.trans h₁ h₂)
  dsimp only at hplain
  unfold afterOperator
  split
  · refine Ends.bind (lowered_firstOperand scope _) (careful_firstOperand scope) fun a _ h₃ ha =>
      Ends.bind_any (careful_lift advances_pop) fun op _ h₄ => ?_
    have ha' := ha.mono h₄
    exact (ends_operation scope dest op ha'.known ha'.cells).prepend (Scope.plain_append.mpr
      ⟨hplain.mono (List.Subset.trans h₃ h₄), ha'.plain⟩) (careful_operation scope _ _ _)
  · split
    · exact Ends.bind_any (careful_expect _) fun _ _ h₃ =>
        ends_store (hplain.mono h₃) rfl rfl hread (Operand.known_constant _)
    · split
      · exact (ends_operation scope dest _ hread (List.nil_subset _)).prepend hplain
          (careful_operation scope _ _ _)
      · exact fun _ _ _ _ _ hy => absurd hy not_yields_failStatement

end

lemma ending_of_lower {scope : Scope} {b b' : Workbench} {code : Code} (hb : b.Sane)
    (h : Yields (lower scope) b code b') : ∃ dest address b₁ middle last,
      Yields (reference scope .destination) b (dest, address) b₁ ∧ code = middle ++ last ∧
      scope.Plain b'.scratch.addresses middle ∧
      Ending dest.toOperand b'.scratch.addresses b.nextId b'.nextId last := by
  obtain ⟨⟨dest, address⟩, b₁, hdest, h⟩ := yields_bind.mp h
  obtain ⟨hs, hg⟩ := (careful_reference scope .destination).grows hb hdest
  have hd := lowered_reference scope [] .destination b _ b₁ hb (List.nil_subset _) hdest
  obtain ⟨middle, last, hcode, hmiddle, hlast⟩ := ends_afterDestination scope hd b₁ code b' hs
    (List.Subset.refl _) h
  exact ⟨dest, address, b₁, middle, last, hdest, hcode, hmiddle, hlast.mono hg.nextId⟩

end Assignment

end CogolToolchain
