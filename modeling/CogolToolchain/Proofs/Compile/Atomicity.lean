import CogolToolchain.Proofs.Compile.Containment
import CogolToolchain.Proofs.Compile.Marks

/-!
An assignment is compiled completely or not at all.

Whatever the session and the tokens are, an assignment that is rejected reports an error and leaves
the program alone, and one that is accepted reports none and adds code. Only a conditional
assignment whose condition never holds may add nothing, or no more than the code that computes
addresses (`Statement.assignment_all_or_nothing`).

Operands are compiled by work that proceeds: it reports remarks at most and takes no number
(`Workbench.Proceeds`). So up to the last step of an assignment nothing has to be taken back.
-/

namespace CogolToolchain

open Work Attempt

def Diagnostic.IsRemark (d : Diagnostic) : Prop := d.kind = .typeMismatch ∨ d.kind = .outOfRange

lemma Diagnostic.IsRemark.isError {d : Diagnostic} (h : d.IsRemark) : d.isError = false := by
  rcases h with h | h <;> simp [Diagnostic.isError, Diagnostic.severity, DiagnosticKind.severity, h]

def Code.IsAddressing (p : ScratchPool) (code : Code) : Prop :=
  ∀ i ∈ code, i.opcode = .add ∧ i.tags = [] ∧ i.dest.IsScratch p

namespace Workbench

/-- Only remarks have been reported in between, no number has been taken, and no scratch cell is
gone. -/
structure Proceeds (b b' : Workbench) : Prop where
  diagnostics : ∃ ds, b'.diagnostics = b.diagnostics ++ ds ∧ ∀ d ∈ ds, d.IsRemark
  nextId : b'.nextId = b.nextId
  pool : b.scratch.addresses ⊆ b'.scratch.addresses

/-- An error has been reported in between, and no number has been taken. -/
structure Fails (b b' : Workbench) : Prop where
  diagnostics : ∃ ds, b'.diagnostics = b.diagnostics ++ ds ∧ ∃ d ∈ ds, d.isError = true
  nextId : b'.nextId = b.nextId

variable {b b' b'' : Workbench}

lemma Proceeds.refl (b : Workbench) : b.Proceeds b :=
  ⟨⟨[], by simp, by simp⟩, rfl, List.Subset.refl _⟩

lemma Proceeds.trans (h : b.Proceeds b') (h' : b'.Proceeds b'') : b.Proceeds b'' := by
  obtain ⟨⟨ds, hds, hremarks⟩, hid, hpool⟩ := h
  obtain ⟨⟨ds', hds', hremarks'⟩, hid', hpool'⟩ := h'
  refine ⟨⟨ds ++ ds', by rw [hds', hds, List.append_assoc], ?_⟩, hid'.trans hid,
    List.Subset.trans hpool hpool'⟩
  rw [List.forall_mem_append]
  exact ⟨hremarks, hremarks'⟩

lemma Proceeds.fails (h : b.Proceeds b') (h' : b'.Fails b'') : b.Fails b'' := by
  obtain ⟨⟨ds, hds, -⟩, hid, -⟩ := h
  obtain ⟨⟨ds', hds', d, hd, herror⟩, hid'⟩ := h'
  exact ⟨⟨ds ++ ds', by rw [hds', hds, List.append_assoc], d, List.mem_append_right _ hd, herror⟩,
    hid'.trans hid⟩

lemma proceeds_of_eq (hd : b'.diagnostics = b.diagnostics) (hid : b'.nextId = b.nextId)
    (hp : b.scratch.addresses ⊆ b'.scratch.addresses) : b.Proceeds b' :=
  ⟨⟨[], by simp [hd], by simp⟩, hid, hp⟩

lemma proceeds_tokens (b : Workbench) (ts : List Token) : b.Proceeds { b with tokens := ts } :=
  proceeds_of_eq rfl rfl (List.Subset.refl _)

end Workbench

/-! ### Work that proceeds -/

namespace Work

/-- The work proceeds on `b`, with a result and a workbench that satisfy `Q`. -/
def Brings {α : Type} (w : Work α) (b : Workbench) (Q : α → Workbench → Prop) : Prop :=
  b.Proceeds (w.on b).2 ∧ Q (w.on b).1 (w.on b).2

section

variable {α β : Type} {w : Work α} {f : α → Work β} {b : Workbench} {P : α → Workbench → Prop}
  {Q : β → Workbench → Prop}

lemma brings_pure {a : α} (h : P a b) : Brings (pure a) b P := ⟨.refl b, h⟩

lemma Brings.bind (h : Brings w b P)
    (hf : ∀ a b', b.Proceeds b' → P a b' → Brings (f a) b' Q) : Brings (w >>= f) b Q :=
  have hnext := hf _ _ h.1 h.2
  ⟨h.1.trans hnext.1, hnext.2⟩

lemma brings_peek (b : Workbench) : Brings peek b fun t b' => t = Tokens.peek b.tokens ∧ b' = b :=
  ⟨.refl b, rfl, rfl⟩

lemma brings_pop (b : Workbench) :
    Brings pop b fun t b' => t = Tokens.peek b.tokens ∧
    b' = { b with tokens := Tokens.rest b.tokens } :=
  ⟨b.proceeds_tokens _, rfl, rfl⟩

lemma brings_eat (t : Token) (b : Workbench) : Brings (eat t) b fun _ _ => True := by
  refine ⟨?_, trivial⟩
  rw [on_eat]
  split
  · exact b.proceeds_tokens _
  · exact .refl b

lemma brings_report {p : Problem} (hp : (p.diagnostic "").IsRemark) (b : Workbench) :
    Brings (report p) b fun _ b' => b'.tokens = b.tokens :=
  ⟨⟨⟨_, rfl, by simpa using hp⟩, rfl, List.Subset.refl _⟩, rfl⟩

lemma brings_allocScratch (b : Workbench) :
    Brings allocScratch b fun u b' => u ∈ b'.scratch.addresses := by
  rcases h : b.scratch.acquire? with _ | ⟨u, p⟩
  · have hon : allocScratch.on b = (b.globals.nextFree, { b with
        globals := b.globals.declareWord b.scratch.nextName
        scratch := b.scratch.add b.globals.nextFree true }) := by
      simp [allocScratch, h]
    rw [Brings, hon]
    exact ⟨Workbench.proceeds_of_eq rfl rfl (by simp), by simp⟩
  · have hon : allocScratch.on b = (u, { b with scratch := p }) := by
      simp [allocScratch, h]
    simp only [ScratchPool.acquire?, Option.map_eq_some_iff, Prod.mk.injEq, Prod.exists] at h
    obtain ⟨_, cells, hcells, rfl, rfl⟩ := h
    obtain ⟨hmap, hmem, -⟩ := ScratchPool.takeFree_eq_some hcells
    have haddresses : (ScratchPool.mk cells).addresses = b.scratch.addresses := hmap
    rw [Brings, hon]
    refine ⟨Workbench.proceeds_of_eq rfl rfl (by simp [haddresses]), ?_⟩
    rw [haddresses]
    exact List.mem_map_of_mem hmem

lemma brings_releaseCells (us : List Nat) (b : Workbench) : Brings (releaseCells us) b fun _ _ =>
    True :=
  ⟨Workbench.proceeds_of_eq rfl rfl (by simp [ScratchPool.addresses_foldl_release]), trivial⟩

lemma brings_reuseScratch {a : Backed} (ha : ∀ u ∈ a.cells, u ∈ b.scratch.addresses) :
    Brings (reuseScratch a) b fun u b' => u ∈ b'.scratch.addresses := by
  unfold reuseScratch
  split
  · rename_i u us hcells
    exact brings_pure (ha u (by rw [hcells]; exact List.mem_cons_self))
  · exact brings_allocScratch b

end
end Work

namespace Attempt

/-- The attempt on `b` has a result that satisfies `Q`, or else it fails. -/
def Meets {α : Type} (x : Attempt α) (b : Workbench) (Q : α → Workbench → Prop) : Prop :=
  match x.on b with
  | (some a, b') => Q a b'
  | (none, b') => b.Fails b'

/-- The attempt on `b` proceeds to a result that satisfies `Q`, or else it fails. -/
def Brings {α : Type} (x : Attempt α) (b : Workbench) (Q : α → Workbench → Prop) : Prop :=
  Meets x b fun a b' => b.Proceeds b' ∧ Q a b'

section

variable {α β : Type} {x : Attempt α} {f : α → Attempt β} {b : Workbench}
  {P P' : α → Workbench → Prop}
  {Q : β → Workbench → Prop} {p : Problem}

lemma Meets.mono (h : Meets x b P) (hp : ∀ a b', P a b' → P' a b') : Meets x b P' := by
  unfold Meets at h ⊢
  split
  · rename_i hon
    rw [hon] at h
    exact hp _ _ h
  · rename_i hon
    rwa [hon] at h

lemma Meets.congr {y : Attempt α} (h : Meets y b P) (hon : x.on b = y.on b) : Meets x b P := by
  unfold Meets at h ⊢
  rwa [hon]

lemma Brings.bind_meets (h : Brings x b P)
    (hf : ∀ a b', b.Proceeds b' → P a b' → Meets (f a) b' fun c b'' => Q c b'') :
    Meets (x >>= f) b Q := by
  unfold Brings Meets at h
  unfold Meets
  rw [on_bind]
  generalize x.on b = r at h
  obtain ⟨_ | a, b₁⟩ := r
  · exact h
  · have hnext := hf a b₁ h.1 h.2
    unfold Meets at hnext
    dsimp only
    generalize (f a).on b₁ = r' at hnext
    obtain ⟨_ | c, b₂⟩ := r'
    · exact h.1.fails hnext
    · exact hnext

lemma Brings.bind (h : Brings x b P) (hf : ∀ a b', b.Proceeds b' → P a b' → Brings (f a) b' Q) :
    Brings (x >>= f) b Q :=
  h.bind_meets fun a b' hb hp => (hf a b' hb hp).mono fun _ _ hq => ⟨hb.trans hq.1, hq.2⟩

lemma Brings.consumed (h : Brings x b P) (hx : Absorbs x) :
    Brings x b fun a b' => P a b' ∧ b'.tokens <:+ b.tokens := by
  have htokens : (x.on b).2.tokens <:+ b.tokens := (hx b).tokens
  unfold Brings Meets at h ⊢
  generalize x.on b = r at h htokens
  obtain ⟨_ | a, b'⟩ := r
  · exact h
  · exact ⟨h.1, h.2, htokens⟩

lemma Meets.map {γ : Type} {R : γ → Workbench → Prop} (h : Meets x b P) {g : α → γ}
    (hg : ∀ a b', P a b' → R (g a) b') : Meets (x >>= fun a => pure (g a)) b R := by
  unfold Meets at h ⊢
  rw [on_bind]
  generalize x.on b = r at h
  obtain ⟨_ | a, b'⟩ := r
  · exact h
  · exact hg a b' h

lemma meets_pure {a : α} (h : P a b) : Meets (pure a : Attempt α) b P := h

lemma brings_pure {a : α} (h : P a b) : Brings (pure a : Attempt α) b P := ⟨.refl b, h⟩

lemma brings_lift {w : Work α} (h : Work.Brings w b P) : Brings (liftM w : Attempt α) b P := h

lemma meets_failStatement (hp : p.IsFatal) : Meets (failStatement p : Attempt α) b P := by
  refine ⟨⟨[p.diagnostic _], rfl, _, List.mem_singleton_self _, ?_⟩, rfl⟩
  simpa [Diagnostic.isError, Diagnostic.severity, Problem.diagnostic, Problem.IsFatal] using hp

lemma meets_failHere (hp : p.IsFatal) : Meets (failHere p : Attempt α) b P := by
  refine ⟨⟨[p.diagnostic ""], rfl, _, List.mem_singleton_self _, ?_⟩, rfl⟩
  simpa [Diagnostic.isError, Diagnostic.severity, Problem.diagnostic, Problem.IsFatal] using hp

lemma brings_failStatement (hp : p.IsFatal) : Brings (failStatement p : Attempt α) b P :=
  meets_failStatement hp

lemma brings_failHere (hp : p.IsFatal) : Brings (failHere p : Attempt α) b P :=
  meets_failHere hp

end
end Attempt

/-! ### Operands -/

/-- The scratch cells of the operand are in the pool, and the code before it computes addresses. -/
structure ScratchPool.Prepares (p : ScratchPool) (r : Backed × Code) : Prop where
  cells : ∀ u ∈ r.1.cells, u ∈ p.addresses
  code : Code.IsAddressing p r.2

namespace Code

variable {p p' : ScratchPool} {code code' : Code}

lemma IsAddressing.mono (h : IsAddressing p code) (hp : p.addresses ⊆ p'.addresses) :
    IsAddressing p' code := by
  intro i hi
  obtain ⟨hop, htags, u, hu, hdest⟩ := h i hi
  exact ⟨hop, htags, u, hp hu, hdest⟩

lemma IsAddressing.append (h : IsAddressing p code) (h' : IsAddressing p code') :
    IsAddressing p (code ++ code') :=
  List.forall_mem_append.mpr ⟨h, h'⟩

lemma isAddressing_nil (p : ScratchPool) : IsAddressing p [] := by simp [IsAddressing]

lemma isAddressing_add {u : Nat} (hu : u ∈ p.addresses) (lhs rhs : Operand) :
    IsAddressing p [{ opcode := .add, lhs := lhs, rhs := rhs, dest := .cellDest u }] := by
  intro i hi
  rw [List.mem_singleton.mp hi]
  exact ⟨rfl, rfl, u, hu, rfl⟩

end Code

open Code ScratchPool

lemma ScratchPool.prepares_ofOperand (p : ScratchPool) (a : Operand) :
    p.Prepares (.ofOperand a, []) :=
  ⟨by simp [Backed.ofOperand], isAddressing_nil p⟩

lemma ScratchPool.prepares_through {p : ScratchPool} {u : Nat} {code : Code} (hu : u ∈ p.addresses)
    (hcode : IsAddressing p code) : p.Prepares (.through u, code) :=
  ⟨by simpa [Backed.through] using hu, hcode⟩

namespace Reference

variable (scope : Scope) (head : Head) (role : Role) (b : Workbench)

lemma brings_headType : Work.Brings (headType scope head) b fun _ b' => b' = b := ⟨.refl b, rfl⟩

lemma brings_headOffset : Work.Brings (headOffset scope head) b fun _ b' => b' = b := ⟨.refl b, rfl⟩

lemma brings_frameAddress (owner : String) (offset : Nat) :
    Work.Brings (frameAddress owner offset) b fun r b' =>
      r.1 ∈ b'.scratch.addresses ∧ IsAddressing b'.scratch r.2 :=
  (brings_allocScratch b).bind fun _ _ _ hu => Work.brings_pure ⟨hu, isAddressing_add hu _ _⟩

lemma brings_lowerVariable :
    Work.Brings (lowerVariable scope head) b fun r b' => b'.scratch.Prepares r := by
  refine (brings_headOffset scope head b).bind fun offset b' _ _ => ?_
  split
  · exact Work.brings_pure (prepares_ofOperand _ _)
  · exact (brings_frameAddress _ _ _).bind fun r b'' _ hr =>
      Work.brings_pure (prepares_through hr.1 hr.2)

lemma brings_lowerPlain : Work.Brings (lowerPlain scope head) b fun r b' =>
    b'.scratch.Prepares r := by
  rw [lowerPlain_eq]
  refine (brings_headType scope head b).bind fun type b₁ _ _ => ?_
  split
  · exact (brings_report (.inl rfl) _).bind fun _ b' _ _ => brings_lowerVariable scope head b'
  · exact brings_lowerVariable scope head b₁

lemma brings_fieldOwner : Work.Brings (fieldOwner scope head) b fun _ _ => True := by
  refine (brings_headType scope head b).bind fun type b' _ _ => ?_
  split
  · exact Work.brings_pure trivial
  · exact Work.brings_pure trivial
  · exact (brings_report (.inl rfl) _).bind fun _ _ _ _ => Work.brings_pure trivial

lemma brings_lowerField (field : String) :
    Work.Brings (lowerField scope head field) b fun r b' => b'.scratch.Prepares r := by
  refine (brings_fieldOwner scope head b).bind fun owner b₁ _ _ => ?_
  refine (brings_headOffset scope head b₁).bind fun offset b₂ _ _ => ?_
  split
  · exact (brings_allocScratch _).bind fun u b' _ hu =>
      Work.brings_pure (prepares_through hu (isAddressing_add hu _ _))
  · exact (brings_frameAddress _ _ _).bind fun r b' _ hr =>
      Work.brings_pure (prepares_through hr.1 (hr.2.append (isAddressing_add hr.1 _ _)))

lemma brings_lowerElement {b : Workbench} {index : Backed}
    (hindex : ∀ u ∈ index.cells, u ∈ b.scratch.addresses) :
    Work.Brings (lowerElement scope head index) b fun r b' => b'.scratch.Prepares r := by
  refine (brings_headType scope head b).bind fun type b₁ _ hb₁ => ?_
  subst hb₁
  refine (brings_headOffset scope head b₁).bind fun offset b₂ _ hb₂ => ?_
  subst hb₂
  split
  · exact Work.brings_pure (prepares_ofOperand _ _)
  · exact (brings_reuseScratch hindex).bind fun u b' _ hu =>
      Work.brings_pure (prepares_through hu (isAddressing_add hu _ _))
  · exact (brings_reuseScratch hindex).bind fun u b' _ hu =>
      Work.brings_pure (prepares_through hu (isAddressing_add hu _ _))
  · exact (brings_allocScratch _).bind fun u b' _ hu =>
      Work.brings_pure (prepares_through hu (isAddressing_add hu _ _))
  · exact (brings_reuseScratch hindex).bind fun u b' _ hu => Work.brings_pure (prepares_through hu
      ((isAddressing_add hu _ _).append (isAddressing_add hu _ _)))
  · exact (brings_frameAddress _ _ _).bind fun r b' _ hr =>
      Work.brings_pure (prepares_through hr.1 (hr.2.append (isAddressing_add hr.1 _ _)))

lemma brings_applyShift (shift : Int) (a : Backed) :
    Attempt.Brings (applyShift role shift a) b fun a' b' => a'.cells = a.cells ∧ b' = b := by
  cases role
  all_goals
    unfold applyShift
    dsimp only
    split
    · split
      · refine Attempt.brings_pure ?_
        exact ⟨rfl, rfl⟩
      · exact brings_failHere rfl
    · exact brings_failHere rfl

lemma brings_closeIndex (name : Token) : Attempt.Brings (closeIndex name) b fun _ _ => True := by
  refine (Attempt.brings_lift (brings_eat "]" b)).bind fun eaten b' _ _ => ?_
  split
  · exact Attempt.brings_pure trivial
  · exact (Attempt.brings_lift (brings_peek b')).bind fun _ _ _ _ => brings_failStatement rfl

lemma brings_lower (r : Reference) :
    Attempt.Brings (r.lower scope role) b fun r b' => b'.scratch.Prepares r := by
  induction r generalizing role b with
  | numeral shift text value =>
    rw [lower]
    split
    · exact brings_failStatement rfl
    · refine (brings_applyShift role b shift _).bind fun a b' _ ha => Attempt.brings_pure ?_
      exact ⟨by simp [ha.1, Backed.constant, Backed.ofOperand], isAddressing_nil _⟩
  | plain head =>
    refine (Attempt.brings_lift (brings_lowerPlain scope head b)).bind fun r b₁ _ hr => ?_
    refine (brings_applyShift role b₁ head.shift r.1).bind fun a b₂ _ ha => Attempt.brings_pure ?_
    rw [ha.2]
    exact ⟨by rw [ha.1]; exact hr.cells, hr.code⟩
  | field head name =>
    refine (Attempt.brings_lift (brings_lowerField scope head b name)).bind fun r b₁ _ hr => ?_
    refine (brings_applyShift role b₁ head.shift r.1).bind fun a b₂ _ ha => Attempt.brings_pure ?_
    rw [ha.2]
    exact ⟨by rw [ha.1]; exact hr.cells, hr.code⟩
  | element head index ih =>
    refine (ih .source b).bind fun i b₁ _ hi => ?_
    refine (Attempt.brings_lift (brings_lowerElement scope head hi.cells)).bind
      fun r b₂ h₁₂ hr => ?_
    refine (Attempt.brings_lift (brings_releaseCells _ b₂)).bind fun _ b₃ h₂₃ _ => ?_
    refine (brings_closeIndex b₃ head.name).bind fun _ b₄ h₃₄ _ => ?_
    refine (brings_applyShift role b₄ head.shift r.1).bind fun a b₅ _ ha => Attempt.brings_pure ?_
    have h₂₄ := h₂₃.trans h₃₄
    rw [ha.2]
    refine ⟨by rw [ha.1]; exact fun u hu => h₂₄.pool (hr.cells u hu), ?_⟩
    exact (hi.code.mono (h₁₂.trans h₂₄).pool).append (hr.code.mono h₂₄.pool)

end Reference

lemma brings_reference (scope : Scope) (role : Role) (b : Workbench) :
    Attempt.Brings (reference scope role) b fun r b' => b'.scratch.Prepares r := by
  have hget : Attempt.Brings (get : Attempt Workbench) b fun c b' => c = b ∧ b' = b :=
    ⟨.refl b, rfl, rfl⟩
  have hset : ∀ ts, Attempt.Brings (set { b with tokens := ts } : Attempt Unit) b fun _ _ => True :=
    fun ts =>
    ⟨b.proceeds_tokens ts, trivial⟩
  refine hget.bind fun c b₁ _ hc => ?_
  obtain ⟨rfl, rfl⟩ := hc
  refine (hset _).bind fun _ b₂ _ _ => ?_
  split
  · exact Reference.brings_lower scope role b₂ _
  · exact brings_failStatement (Reference.isFatal_of_read ‹_›)

lemma brings_checkBounds (role : Role) (a : Operand) (b : Workbench) :
    Work.Brings (checkBounds role a) b fun _ b' => b'.tokens = b.tokens := by
  unfold checkBounds
  split
  · exact Work.brings_pure rfl
  · split
    · split
      · exact Work.brings_pure rfl
      · exact brings_report (.inr rfl) b
    · split
      · exact Work.brings_pure rfl
      · exact brings_report (.inr rfl) b

lemma brings_expect {t : Token} (ht : t ≠ "") (b : Workbench) :
    Attempt.Brings (expect t) b fun _ b' => b.tokens = t :: b'.tokens := by
  by_cases hpeek : Tokens.peek b.tokens = t
  · have hon : (expect t).on b = (some (), { b with tokens := Tokens.rest b.tokens }) := by
      rw [on_expect, if_pos hpeek]
    rw [Attempt.Brings, Meets, hon]
    exact ⟨b.proceeds_tokens _, Tokens.eq_cons_of_peek ht hpeek⟩
  · refine Meets.congr ?_ ((on_expect t b).trans (if_neg hpeek))
    exact meets_failStatement rfl

/-! ### Conditions -/

namespace Condition

lemma brings_difference (a c : Backed) (b : Workbench) :
    Work.Brings (Test.difference a c) b fun _ _ => True :=
  (brings_releaseCells _ b).bind fun _ b₁ _ _ => (brings_releaseCells _ b₁).bind fun _ b₂ _ _ =>
    (brings_allocScratch b₂).bind fun _ _ _ _ => Work.brings_pure trivial

lemma brings_distance (a c : Backed) (b : Workbench) :
    Work.Brings (Test.distance a c) b fun _ _ => True := by
  unfold Test.distance
  split
  · exact Work.brings_pure trivial
  · split
    · exact Work.brings_pure trivial
    · exact brings_difference a c b

lemma brings_test (test : Test) (b : Workbench) :
    Work.Brings test.lower b fun r _ => ∀ source dest, (r.1.move? source dest).isSome = true := by
  cases test with
  | less a c =>
    rw [Test.lower]
    split
    · exact Work.brings_pure fun _ _ => rfl
    · exact (brings_difference a c b).bind fun _ _ _ _ => Work.brings_pure fun _ _ => rfl
  | lessEq a c =>
    exact (brings_releaseCells _ b).bind fun _ b₁ _ _ =>
      (brings_allocScratch b₁).bind fun _ _ _ _ =>
      Work.brings_pure fun _ _ => rfl
  | equal a c =>
    exact (brings_distance a c b).bind fun _ b₁ _ _ => (brings_allocScratch b₁).bind fun _ _ _ _ =>
      Work.brings_pure fun _ _ => rfl
  | differ a c =>
    exact (brings_distance a c b).bind fun _ _ _ _ => Work.brings_pure fun _ _ => rfl

lemma brings_readOperator (token : Token) (b : Workbench) :
    Attempt.Brings (readOperator token) b fun _ b' => b' = b := by
  unfold readOperator
  split
  · exact Attempt.brings_pure rfl
  · exact brings_failStatement rfl

end Condition

/-! ### Assignments -/

namespace Assignment

def NeverHolds (reported : List Diagnostic) : Prop :=
  ∃ x op y, Comparison.holds op x y = false ∧
    reported.getLast? = some ((Problem.constantCondition x op y).diagnostic "")

/-- The word that makes an assignment conditional stands before the last tokens `left` of `ts`. -/
def Opens (ts left : List Token) : Prop := ∃ front, ts = front ++ "if" :: left ∨
    ts = front ++ "if=" :: left

def IsConditional (ts left : List Token) : Prop := ∃ condition, Opens ts (condition ++ ";" :: left)

/-- An assignment of the tokens `ts` is accepted: no error is reported, and there is code, unless
the condition of the assignment never holds. -/
structure Accepted (ts : List Token) (b : Workbench) (code : Code) (b' : Workbench) : Prop where
  reports : ∃ ds, b'.diagnostics = b.diagnostics ++ ds ∧ (∀ d ∈ ds, d.isError = false) ∧
    (¬ NeverHolds ds → code ≠ []) ∧
    (NeverHolds ds → IsConditional ts b'.tokens ∧ IsAddressing b'.scratch code)
  pool : b.scratch.addresses ⊆ b'.scratch.addresses

variable {ts : List Token} {b b' b'' : Workbench} {code address : Code} {ds ds' : List Diagnostic}

lemma not_neverHolds_of_remarks (h : ∀ d ∈ ds, d.IsRemark) : ¬ NeverHolds ds := by
  rintro ⟨x, op, y, -, hlast⟩
  rcases h _ (List.mem_of_getLast? hlast) with hkind | hkind <;> cases hkind

lemma neverHolds_append (h : ∀ d ∈ ds, d.IsRemark) : NeverHolds (ds ++ ds') ↔ NeverHolds ds' := by
  rcases List.eq_nil_or_concat ds' with rfl | ⟨ds', d, rfl⟩
  · rw [List.append_nil]
    exact iff_of_false (not_neverHolds_of_remarks h) (not_neverHolds_of_remarks (by simp))
  · simp [NeverHolds]

lemma append_true_ne_append_false (u v : String) : u ++ "true" ≠ v ++ "false" := by
  intro heq
  have hreverse := congrArg (fun text => text.toList.reverse) heq
  simp at hreverse

lemma message_constantCondition (x : Int) (op : Comparison) (y : Int) :
    ∃ start, (Problem.constantCondition x op y).message = start ++ toString (op.holds x y) :=
  ⟨_, rfl⟩

lemma not_neverHolds_of_holds {x y : Int} {op : Comparison} (h : op.holds x y = true) :
    ¬ NeverHolds [(Problem.constantCondition x op y).diagnostic ""] := by
  intro hnever
  obtain ⟨x', op', y', hfalse, hlast⟩ := hnever
  rw [List.getLast?_singleton, Option.some.injEq] at hlast
  have hmessage : (Problem.constantCondition x op y).message =
      (Problem.constantCondition x' op' y').message :=
    congrArg Diagnostic.message hlast
  obtain ⟨start, hstart⟩ := message_constantCondition x op y
  obtain ⟨start', hstart'⟩ := message_constantCondition x' op' y'
  rw [hstart, hstart', h, hfalse] at hmessage
  exact append_true_ne_append_false start start' hmessage

lemma Accepted.after (h : Accepted ts b' code b'') (hb : b.Proceeds b')
    (haddress : IsAddressing b'.scratch address) : Accepted ts b (address ++ code) b'' := by
  obtain ⟨ds, hds, hremarks⟩ := hb.diagnostics
  obtain ⟨⟨ds', hds', hfine, hcode, hnever⟩, hpool⟩ := h
  refine ⟨⟨ds ++ ds', by rw [hds', hds, List.append_assoc], ?_, ?_, ?_⟩,
    List.Subset.trans hb.pool hpool⟩
  · rw [List.forall_mem_append]
    exact ⟨fun d hd => (hremarks d hd).isError, hfine⟩
  · rw [neverHolds_append hremarks]
    intro hholds hnil
    exact hcode hholds (List.append_eq_nil_iff.mp hnil).2
  · rw [neverHolds_append hremarks]
    intro hholds
    obtain ⟨hconditional, haddressing⟩ := hnever hholds
    exact ⟨hconditional, (haddress.mono hpool).append haddressing⟩

lemma accepted_of_remarks (hd : ∃ ds, b'.diagnostics = b.diagnostics ++ ds ∧ ∀ d ∈ ds, d.IsRemark)
    (hpool : b.scratch.addresses ⊆ b'.scratch.addresses) (hcode : code ≠ []) :
    Accepted ts b code b' := by
  obtain ⟨ds, hds, hremarks⟩ := hd
  exact ⟨⟨ds, hds, fun d hd => (hremarks d hd).isError, fun _ => hcode,
    fun hnever => absurd hnever (not_neverHolds_of_remarks hremarks)⟩, hpool⟩

lemma accepted_condition (c : Condition) (source dest : Operand) (hts : IsConditional ts b.tokens) :
    Accepted ts b ((c.lower.on b).1.2 ++ ((c.lower.on b).1.1.move? source dest).toList)
      (c.lower.on b).2 := by
  unfold Condition.lower
  split
  · rename_i x y hx hy
    have hfine : ∀ d ∈ [(Problem.constantCondition x c.op y).diagnostic ""], d.isError = false := by
      intro d hd
      rw [List.mem_singleton.mp hd]
      rfl
    cases hholds : c.op.holds x y with
    | true =>
      refine ⟨⟨_, rfl, hfine, fun _ => ?_, fun hnever => ?_⟩, List.Subset.refl _⟩
      · simp [Branch.move?]
      · exact absurd hnever (not_neverHolds_of_holds hholds)
    | false =>
      refine ⟨⟨_, rfl, hfine, fun hnever => ?_, fun _ => ⟨hts, ?_⟩⟩, List.Subset.refl _⟩
      · exact absurd ⟨x, c.op, y, hholds, rfl⟩ hnever
      · simpa [Branch.move?] using isAddressing_nil _
  · obtain ⟨hproceeds, hmoves⟩ := Condition.brings_test (Test.of c.a c.op c.b) b
    refine accepted_of_remarks hproceeds.diagnostics hproceeds.pool ?_
    intro hnil
    have hsome := hmoves source dest
    rw [List.append_eq_nil_iff, Option.toList_eq_nil_iff] at hnil
    simp [hnil.2] at hsome

lemma meets_conditional (scope : Scope) (source dest : Backed) (hts : Opens ts b.tokens) :
    Meets (conditional scope source dest) b (Accepted ts b) := by
  refine ((brings_reference scope .source b).consumed
    (careful_reference scope .source).absorbs).bind_meets fun x b₁ h₁ hx => ?_
  refine (Attempt.brings_lift (brings_pop b₁)).bind_meets fun t b₂ h₂ ht => ?_
  refine (Condition.brings_readOperator t b₂).bind_meets fun op b₃ h₃ hop => ?_
  refine ((brings_reference scope .source b₃).consumed
    (careful_reference scope .source).absorbs).bind_meets fun y b₄ h₄ hy => ?_
  refine (brings_expect (by decide) b₄).bind_meets fun _ b₅ h₅ hend => ?_
  have hconditional : IsConditional ts b₅.tokens := by
    have hsuffix : ";" :: b₅.tokens <:+ b.tokens := by
      rw [← hend]
      refine hy.2.trans (List.IsSuffix.trans ?_ hx.2)
      rw [hop, ht.2]
      exact Tokens.rest_suffix b₁.tokens
    obtain ⟨condition, hcondition⟩ := hsuffix
    exact ⟨condition, hcondition ▸ hts⟩
  have h₁₅ := h₂.trans (h₃.trans (h₄.trans h₅))
  have haddress : IsAddressing b₅.scratch (x.2 ++ y.2) :=
    (hx.1.code.mono h₁₅.pool).append (hy.1.code.mono h₅.pool)
  have haccepted := (accepted_condition { a := x.1, op := op, b := y.1 } source.toOperand
    dest.toOperand hconditional).after (h₁.trans h₁₅) haddress
  rw [← List.append_assoc] at haccepted
  exact haccepted

lemma brings_reuseScratchExcept (a keep : Backed) (b : Workbench) :
    Work.Brings (reuseScratchExcept a keep) b fun _ _ => True := by
  unfold reuseScratchExcept
  split
  · split
    · exact ⟨(brings_allocScratch b).1, trivial⟩
    · exact Work.brings_pure trivial
  · exact ⟨(brings_allocScratch b).1, trivial⟩

lemma accepted_multiply (lhs rhs dest : Backed) (hcode : code = ((multiply lhs rhs dest).on b).1) :
    Accepted ts b code ((multiply lhs rhs dest).on b).2 := by
  have hbrings : Work.Brings (do
      let _ ← reuseScratchExcept lhs dest
      reuseScratchExcept rhs dest) { b with nextId := b.nextId + 1 } fun _ _ => True :=
    (brings_reuseScratchExcept lhs dest _).bind fun _ b' _ _ =>
      brings_reuseScratchExcept rhs dest b'
  refine accepted_of_remarks hbrings.1.diagnostics hbrings.1.pool ?_
  rw [hcode]
  exact List.cons_ne_nil _ _

lemma meets_binary (scope : Scope) (lhs : Backed) (op : Token) (dest : Backed) :
    Meets (binary scope lhs op dest) b (Accepted ts b) := by
  refine (brings_reference scope .source b).bind_meets fun x b₁ h₁ hx => ?_
  refine (Attempt.brings_lift (brings_checkBounds _ _ b₁)).bind_meets fun _ b₂ h₂ _ => ?_
  refine (brings_expect (by decide) b₂).bind_meets fun _ b₃ h₃ _ => ?_
  have h₁₃ := h₂.trans h₃
  have haddress : IsAddressing b₃.scratch x.2 := hx.code.mono h₁₃.pool
  split
  · exact (accepted_multiply lhs x.1 dest rfl).after (h₁.trans h₁₃) haddress
  · split
    · exact (accepted_of_remarks (b := b₃) (Workbench.Proceeds.refl b₃).diagnostics
        (List.Subset.refl _) (List.cons_ne_nil _ _)).after (h₁.trans h₁₃) haddress
    · exact meets_failHere rfl

lemma meets_after {x : Attempt Code} (h : Meets x b' (Accepted ts b')) (hb : b.Proceeds b') :
    Meets x b' (Accepted ts b) :=
  h.mono fun _ _ haccepted => haccepted.after hb (isAddressing_nil _)

lemma meets_operation (scope : Scope) (lhs : Backed) {op : Token} (dest : Backed)
    (hts : op = "if" → Opens ts b.tokens) :
    Meets (operation scope lhs op dest) b (Accepted ts b) := by
  refine (Attempt.brings_lift (brings_checkBounds _ _ b)).bind_meets fun _ b₁ h₁ htokens => ?_
  split
  · exact meets_pure (accepted_of_remarks h₁.diagnostics h₁.pool (List.cons_ne_nil _ _))
  · split
    · rename_i hif
      exact meets_after (meets_conditional scope lhs dest (htokens ▸ hts hif)) h₁
    · exact meets_after (meets_binary scope lhs op dest) h₁

lemma brings_firstOperand (scope : Scope) (b : Workbench) :
    Attempt.Brings (firstOperand scope) b fun r b' => b'.scratch.Prepares r := by
  refine (Attempt.brings_lift (brings_peek b)).bind fun next b' _ _ => ?_
  split
  · exact Attempt.brings_pure (prepares_ofOperand _ _)
  · exact brings_reference scope .source b'

lemma eq_of_compound? {token op : Token} (h : compound? token = some op) : token = op ++ "=" := by
  unfold compound? at h
  split at h
  · rename_i c cs hreverse
    rw [← Option.some.inj h]
    apply String.toList_injective
    rw [← List.reverse_reverse token.toList, hreverse]
    simp
  · cases h

lemma meets_afterOperator (scope : Scope) (dest : Backed) {eq : Token}
    (haddress : IsAddressing b.scratch address) (hsuffix : b.tokens <:+ ts)
    (heq : eq = "if=" → Opens ts b.tokens) :
    Meets (afterOperator scope dest address eq) b (Accepted ts b) := by
  unfold afterOperator
  split
  · refine ((brings_firstOperand scope b).consumed (careful_firstOperand scope).absorbs).bind_meets
      fun x b₁ h₁ hx => ?_
    refine (Attempt.brings_lift (brings_pop b₁)).bind_meets fun op b₂ h₂ hop => ?_
    have hopens : op = "if" → Opens ts b₂.tokens := by
      intro hif
      have htokens : b₁.tokens = "if" :: b₂.tokens := by
        rw [hop.2]
        exact Tokens.eq_cons_of_peek (by decide) (hop.1.symm.trans hif)
      obtain ⟨front, hfront⟩ := htokens ▸ hx.2.trans hsuffix
      exact ⟨front, .inl hfront.symm⟩
    refine (meets_operation scope x.1 dest hopens).map fun code b' haccepted => ?_
    have h₁₂ := h₁.trans h₂
    exact haccepted.after h₁₂ ((haddress.mono h₁₂.pool).append (hx.1.code.mono h₂.pool))
  · split
    · refine (brings_expect (by decide) b).bind_meets fun _ b₁ h₁ _ => meets_pure ?_
      exact accepted_of_remarks h₁.diagnostics h₁.pool
        (List.append_ne_nil_of_right_ne_nil _ (List.cons_ne_nil _ _))
    · split
      · rename_i op hcompound
        have hopens : op = "if" → Opens ts b.tokens := by
          rintro rfl
          exact heq (eq_of_compound? hcompound)
        exact (meets_operation scope _ dest hopens).map fun code b' haccepted =>
          haccepted.after (.refl b) haddress
      · exact meets_failStatement rfl

lemma meets_lower (scope : Scope) (b : Workbench) :
    Meets (lower scope) b (Accepted b.tokens b) := by
  rw [lower_eq]
  refine ((brings_reference scope .destination b).consumed
    (careful_reference scope .destination).absorbs).bind_meets fun x b₁ h₁ hx => ?_
  refine (Attempt.brings_lift (brings_checkBounds _ _ b₁)).bind_meets fun _ b₂ h₂ htokens => ?_
  refine (Attempt.brings_lift (brings_pop b₂)).bind_meets fun eq b₃ h₃ heq => ?_
  have hsuffix : b₂.tokens <:+ b.tokens := htokens ▸ hx.2
  refine meets_after (meets_afterOperator scope x.1 (hx.1.code.mono (h₂.trans h₃).pool) ?_ ?_)
    (h₁.trans (h₂.trans h₃))
  · rw [heq.2]
    exact (Tokens.rest_suffix b₂.tokens).trans hsuffix
  · intro hif
    have hcons : b₂.tokens = "if=" :: b₃.tokens := by
      rw [heq.2]
      exact Tokens.eq_cons_of_peek (by decide) (heq.1.symm.trans hif)
    obtain ⟨front, hfront⟩ := hcons ▸ hsuffix
    exact ⟨front, .inr hfront.symm⟩

end Assignment

namespace Statement

/-- An assignment reports an error and changes nothing but the workbench, where no number is taken,
or it reports no error and adds code to the program. Of a conditional assignment whose condition is
reported never to hold, that is code that computes addresses, if any. In any case, of cells only
scratch cells are new. -/
theorem assignment_all_or_nothing (s : Session) :
    let s' := (assignment.on s).2
    ∃ reported, s'.bench.diagnostics = s.bench.diagnostics ++ reported ∧
      s.bench.globals.Pads s'.bench.globals ∧
      ((∃ d ∈ reported, d.isError = true) ∧
          s' = { s with bench := s'.bench } ∧ s'.bench.nextId = s.bench.nextId ∨
        (∀ d ∈ reported, d.isError = false) ∧ ∃ code,
          s' = { s with bench := s'.bench, program := s.program ++ code } ∧
          (¬ Assignment.NeverHolds reported → code ≠ []) ∧
          (Assignment.NeverHolds reported →
            Assignment.IsConditional s.bench.tokens s'.bench.tokens ∧
            code.IsAddressing s'.bench.scratch)) := by
  have hmeets := Assignment.meets_lower s.scope s.bench
  have hglobals : s.bench.globals.Pads ((Assignment.lower s.scope).on s.bench).2.globals :=
    ((Assignment.careful_lower s.scope).absorbs s.bench).globals
  unfold Meets at hmeets
  dsimp only
  rw [on_assignment]
  generalize (Assignment.lower s.scope).on s.bench = r at hmeets hglobals
  obtain ⟨_ | code, b⟩ := r
  · obtain ⟨⟨reported, hreported, herror⟩, hid⟩ := hmeets
    exact ⟨reported, hreported, hglobals, .inl ⟨herror, rfl, hid⟩⟩
  · obtain ⟨⟨reported, hreported, hfine, hcode, hnever⟩, -⟩ := hmeets
    exact ⟨reported, hreported, hglobals, .inr ⟨hfine, code, rfl, hcode, hnever⟩⟩

end Statement

end CogolToolchain
