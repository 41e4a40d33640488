import CogolToolchain.Proofs.Structured.Semantics

/-!
Lowered references and conditions stand for what the interpretation says.
-/

namespace CogolToolchain

open Memory Machine Work Attempt ScratchPool

/-! ### Operands that are ready -/

section Ready

variable {S : Set Word} {r : Resolver} {p p' : ScratchPool} {a b : Backed}
  {code : Code} {m : Memory}
  {cells : List Nat} {o : WordOperand} {w : Word}

lemma shows_after (hf : p'.Fits S)
    (hq : ∀ i ∈ code, ∃ t ∈ p'.addresses, i.dest = .cellDest t ∧ t ∉ cells)
    (hcells : ∀ u ∈ cells, u ∈ p'.addresses) (h : m.Shows S (cells.map UInt16.ofNat) o w)
    (k : Nat → Nat) : (after k (r.words code) m).Shows S (cells.map UInt16.ofNat) o w := by
  -- the cells that the code may write
  let changed : Set Word := {c | c = 0 ∨ ∃ t ∈ p'.addresses, t ∉ cells ∧ c = UInt16.ofNat t}
  have hwords : ∀ i ∈ r.words code, i.Quiet ∧ i.dest.value ∈ changed := by
    intro i hi
    obtain ⟨j, hj, rfl⟩ := r.mem_words.mp hi
    obtain ⟨t, ht, hdest, hta⟩ := hq j hj
    rw [hdest, r.word_cellDest]
    exact ⟨⟨rfl, hf.ne_zero ht, hf.ne_one ht⟩, .inr ⟨t, ht, hta, rfl⟩⟩
  have heq : EqOff changed m (after k (r.words code) m) :=
    eqOff_after (.inl rfl) (fun i hi => (hwords i hi).1) (fun i hi => (hwords i hi).2) k m
  refine h.congr heq ?_ ?_
  · rintro c (rfl | ⟨t, ht, -, rfl⟩)
    · exact hf.zero
    · exact hf.scratch t ht
  · intro c hc
    obtain ⟨u, hu, rfl⟩ := List.mem_map.mp hc
    rintro (h0 | ⟨t, ht, hta, heq⟩)
    · exact hf.ne_zero (hcells u hu) h0
    · obtain rfl := hf.ofNat_inj (hcells u hu) ht heq
      exact hta hu

lemma shows_keep (hq : ∀ i ∈ code, ∃ t ∈ p'.addresses, i.dest = .cellDest t ∧ ¬ p.Busy t)
    (hgrow : p.addresses <+: p'.addresses) (hcells : ∀ u ∈ cells, p.Busy u) (hf : p'.Fits S)
    (hm : m.Shows S (cells.map UInt16.ofNat) o w) (k : Nat → Nat) :
    (after k (r.words code) m).Shows S (cells.map UInt16.ofNat) o w := by
  refine shows_after hf (fun i hi => ?_) (fun u hu => hgrow.subset (hcells u hu).mem_addresses) hm k
  obtain ⟨t, ht, hdest, hfree⟩ := hq i hi
  exact ⟨t, ht, hdest, fun hta => hfree (hcells t hta)⟩

end Ready

/-- After the code, the operand stands for the word that `value?` gives. Of the visible cells it
reads only those that `reads` gives. -/
structure Denotes (hidden : Set Word) (r : Resolver) (p : ScratchPool) (a : Backed) (code : Code)
    (p' : ScratchPool) (value? : Memory → Option Word) (reads : Memory → List Word) : Prop where
  lowers : Lowers p a code p'
  visible : ∀ σ w, value? σ = some w → ∀ c ∈ reads σ, c ∉ hidden
  shows : ∀ S, p'.Fits S → ∀ k m σ w, EqOff S σ m → value? σ = some w → (∀ c ∈ reads σ, c ∉ S) →
    (after k (r.words code) m).Shows S a.own a.word w

lemma Denotes.shows_hidden {hidden : Set Word} {r : Resolver} {p p' : ScratchPool} {a : Backed}
    {code : Code} {value? : Memory → Option Word} {reads : Memory → List Word}
    {m σ : Memory} {w : Word} (h : Denotes hidden r p a code p' value? reads) (hf : p'.Fits hidden)
    (hm : EqOff hidden σ m) (hw : value? σ = some w) (k : Nat → Nat) :
    (after k (r.words code) m).Shows hidden a.own a.word w :=
  h.shows hidden hf k m σ w hm hw (h.visible σ w hw)

lemma denotes_constant (hidden : Set Word) (r : Resolver) (p : ScratchPool) (n : Int) :
    Denotes hidden r p (.constant n) [] p (fun _ => some (UInt16.ofInt n)) fun _ => [] where
  lowers := ⟨by simp, by simp [Backed.constant, Backed.ofOperand],
    by simp [Backed.constant, Backed.ofOperand], ⟨n, rfl⟩⟩
  visible := by simp
  shows := by
    rintro S - k m σ w - hw -
    obtain rfl := Option.some.inj hw
    exact shows_constant m S _

/-! ### Conditions -/

/-- After the code, which writes scratch cells that were free, the branch decides `truth?`. -/
structure Judges (hidden : Set Word) (r : Resolver) (p : ScratchPool) (branch : Branch)
    (code : Code) (p' : ScratchPool) (truth? : Memory → Option Bool) : Prop where
  quiet : ∀ i ∈ code, ∃ t ∈ p'.addresses, i.dest = .cellDest t ∧ ¬ p.Busy t
  decides : ∀ k m σ v, EqOff hidden σ m → truth? σ = some v →
    branch.Decides hidden (after k (r.words code) m) v

lemma judges_lower {hidden : Set Word} {r : Resolver} {p p₁ : ScratchPool} {w w' : Workbench}
    {c : Condition} {before before' test : Code} {branch : Branch} {x? y? : Memory → Option Word}
    {reads reads' : Memory → List Word} {truth? : Memory → Option Bool}
    (ha : Denotes hidden r p c.a before p₁ x? reads)
    (hb : Denotes hidden r p₁ c.b before' w.scratch y? reads') (hw : w.Sane)
    (h : c.lower.on w = ((branch, test), w')) (hf : w'.scratch.Fits hidden)
    (hp₁ : p₁.addresses <+: w.scratch.addresses)
    (htruth : ∀ σ v, truth? σ = some v → ∃ x y, x? σ = some x ∧ y? σ = some y ∧ c.truth x y = v) :
    Judges hidden r p branch (before ++ before' ++ test) w'.scratch truth? := by
  have hgrow := ((Condition.advances_lower c w).keeps hw).2.scratch
  rw [h] at hgrow
  have hready := ha.lowers.ready.lowers hb.lowers
  have hset := Condition.settles_lower (r := r) hw hready hb.lowers.ready
    (hb.lowers.disjoint ha.lowers.ready) h hf
  have hf' := hf.of_prefix hgrow
  refine ⟨fun i hi => ?_, fun k m σ v hm hv => ?_⟩
  · simp only [List.mem_append] at hi
    rcases hi with (hi | hi) | hi
    · obtain ⟨u, hu, hdest, hfree⟩ := ha.lowers.quiet i hi
      exact ⟨u, (hp₁.trans hgrow).subset hu, hdest, hfree⟩
    · obtain ⟨u, hu, hdest, hfree⟩ := hb.lowers.quiet i hi
      exact ⟨u, hgrow.subset hu, hdest, fun hbusy => hfree (ha.lowers.keeps hbusy)⟩
    · -- the test may use the cells of its operands, which were free before
      obtain ⟨u, hu, hdest, huse⟩ := hset.scribbles i hi
      refine ⟨u, hu, hdest, fun hbusy => ?_⟩
      rcases List.mem_append.mp (huse (hb.lowers.keeps (ha.lowers.keeps hbusy))) with hmem | hmem
      · exact ha.lowers.own u hmem hbusy
      · exact hb.lowers.own u hmem (ha.lowers.keeps hbusy)
  · obtain ⟨x, y, hx, hy, rfl⟩ := htruth σ v hv
    rw [r.words_append, r.words_append, after_append, after_append]
    have hm₁ := ha.lowers.eqOff_hidden (r := r) (hf'.of_prefix hp₁) hm k
    have hx₁ := shows_keep (r := r) hb.lowers.quiet hp₁ ha.lowers.ready.busy hf'
      (ha.shows_hidden (hf'.of_prefix hp₁) hm hx k) (fun n => k ((r.words before).length + n))
    have hy₁ := hb.shows_hidden hf' hm₁ hy (fun n => k ((r.words before).length + n))
    exact hset.decides _ _ σ x y (hb.lowers.eqOff_hidden hf' hm₁ _) hx₁ hy₁

namespace Structured

open Grammar

def hidden (map : Array String) : Set Word := {c | isHidden map c = true}

section Fits

variable {map : Array String} {b : Workbench}

lemma fits_hidden (hb : b.Sane) (hmap : b.globals.cells.toList <+: map.toList)
    (hsize : map.size < 65536) : b.scratch.Fits (hidden map) := by
  have hlen : b.globals.nextFree ≤ map.size := by simpa [SymbolTable.nextFree] using hmap.length_le
  refine ⟨rfl, fun a ha => ?_, fun a ha => ⟨hb.two_le ha, ?_⟩⟩
  · obtain ⟨n, hn⟩ := List.getElem?_of_mem ha
    have hlt := hb.lt_nextFree ha
    have hcell : map[a]? = some (scratchName n) := by
      obtain ⟨rest, hrest⟩ := hmap
      have hget := hb.named hn
      rw [← Array.getElem?_toList] at hget ⊢
      rw [← hrest, List.getElem?_append_left (List.getElem?_eq_some_iff.mp hget).1, hget]
    have hn' : n < map.size := by
      have := (List.getElem?_eq_some_iff.mp hn).1
      have := hb.length_le
      omega
    have hnat : (UInt16.ofNat a).toNat = a := UInt16.toNat_ofNat_of_lt' (by
      have hsize' : UInt16.size = 65536 := rfl
      omega)
    simp only [hidden, isHidden, Set.mem_ofPred_eq, Bool.or_eq_true, List.any_eq_true, hnat]
    exact .inr ⟨n, List.mem_range.mpr hn', by simp [hcell]⟩
  · have := hb.lt_nextFree ha
    omega

end Fits

/-! ### References -/

def readsOf (t : SymbolTable) (role : Role) (r : Ref) (m : Memory) : List Word :=
  ((find? t r).map fun ref => ref.reads (layout t) m role).getD []

section Reference

variable {map : Array String} {R : Resolver} {t : SymbolTable} {role : Role} {r : Ref}
  {b b' : Workbench} {a : Backed} {code : Code} {rest : List Token}

lemma describes_layout (hslot : ∀ owner name, R.word (.slot owner name) = ⟨.constant, 0⟩)
    (hpads : t.Pads b.globals) : (layout t).Describes R {} b.globals where
  type := fun {home name} hname => by
    cases home with
    | global => simp only [layout, Scope.layout, Scope.type, Scope.table, hpads.types hname]
    | frame owner => rfl
  offset := fun {home name} hname => by
    cases home with
    | global => simp only [layout, Scope.layout, Scope.offset, Scope.table, hpads.address? hname]
    | frame owner => rfl
  frame := fun h => by simp [Scope.frame?] at h
  slot := hslot

lemma find?_of_reference (hr : r.IsValid)
    (hrest : Tokens.peek rest ≠ "." ∧ Tokens.peek rest ≠ "[") (ht : b.tokens = r.tokens ++ rest)
    (hb : b.Sane) (hpads : t.Pads b.globals)
    (h : Yields (reference {} role) b (a, code) b') :
    ∃ ref, find? t r = some ref ∧ ref.Proper {} ∧
      Yields (ref.lower {} role) { b with tokens := ref.closers ++ rest } (a, code) b' ∧
      b'.tokens = rest := by
  obtain ⟨ref, hresolve, hproper, hlower, htokens⟩ := lower_of_reference hr hrest ht hb h
  exact ⟨ref, resolve?_congr hresolve hproper fun name hname =>
    ((SameNames.of_pads hpads).home? _ hname).symm, hproper, hlower, htokens⟩

lemma denotes_reference (hslot : ∀ owner name, R.word (.slot owner name) = ⟨.constant, 0⟩)
    (hr : r.IsValid) (hrest : Tokens.peek rest ≠ "." ∧ Tokens.peek rest ≠ "[")
    (ht : b.tokens = r.tokens ++ rest) (hb : b.Sane) (hpads : t.Pads b.globals)
    (h : Yields (reference {} role) b (a, code) b') (hf : b'.scratch.Fits (hidden map)) :
    Denotes (hidden map) R b.scratch a code b'.scratch (value? map t role r)
      (readsOf t role r) := by
  obtain ⟨ref, hfind, hproper, hlower, -⟩ := find?_of_reference hr hrest ht hb hpads h
  have hsane : Workbench.Sane { b with tokens := ref.closers ++ rest } := hb.congr rfl rfl
  have hd := describes_layout (b := { b with tokens := ref.closers ++ rest }) hslot hpads
  -- what a value says about the reference
  have hvalue : ∀ σ w, value? map t role r σ = some w → ref.isGrounded role = true ∧
      (∀ c ∈ ref.reads (layout t) σ role, isHidden map c = false) ∧
      ref.meaning (layout t) σ role = w := by
    intro σ w hw
    simp only [value?, hfind, Option.bind_some, Option.ite_none_right_eq_some, Bool.and_eq_true,
      List.all_eq_true, Bool.not_eq_true', Option.some.injEq] at hw
    exact ⟨hw.1.1, hw.1.2, hw.2⟩
  have hreads : ∀ σ, readsOf t role r σ = ref.reads (layout t) σ role := fun σ => by
    simp [readsOf, hfind]
  refine ⟨(Reference.computes_of_lower hlower hsane hproper hd hf).lowers,
    fun σ w hw c hc hidden => ?_, fun S hS k m σ w hm hw hvisible => ?_⟩
  · rw [hreads] at hc
    exact absurd hidden (by simp [Structured.hidden, (hvalue σ w hw).2.1 c hc])
  · obtain ⟨hground, -, rfl⟩ := hvalue σ w hw
    rw [hreads] at hvisible
    exact (Reference.computes_of_lower hlower hsane hproper hd hS).shows k m σ hm hground hvisible

lemma constant?_of_reference (hslot : ∀ owner name, R.word (.slot owner name) = ⟨.constant, 0⟩)
    (hr : r.IsValid) (hrest : Tokens.peek rest ≠ "." ∧ Tokens.peek rest ≠ "[")
    (ht : b.tokens = r.tokens ++ rest) (hb : b.Sane) (hpads : t.Pads b.globals)
    (h : Yields (reference {} .source) b (a, code) b')
    (hground : ∃ ref, find? t r = some ref ∧ ref.isGrounded .source = true) :
    a.constant? = constant? t r := by
  obtain ⟨ref, hfind, hproper, hlower, -⟩ := find?_of_reference hr hrest ht hb hpads h
  obtain ⟨ref', hfind', hg⟩ := hground
  obtain rfl : ref = ref' := Option.some.inj (hfind.symm.trans hfind')
  rw [constant?, Ref.constant?, show r.resolve? _ = some ref from hfind, Option.bind_some,
    if_pos hg]
  exact Reference.constant?_of_lower hlower (hb.congr rfl rfl) hproper
    (describes_layout (b := { b with tokens := ref.closers ++ rest }) hslot hpads) hg

lemma grounded_of_value? {w : Word} {m : Memory} (h : value? map t role r m = some w) :
    ∃ ref, find? t r = some ref ∧ ref.isGrounded role = true := by
  simp only [value?, Option.bind_eq_some_iff, Option.ite_none_right_eq_some, Bool.and_eq_true] at h
  obtain ⟨ref, hfind, ⟨hg, -⟩, -⟩ := h
  exact ⟨ref, hfind, hg⟩

/-- What reading and lowering a written reference does. -/
structure Refers (map : Array String) (R : Resolver) (t : SymbolTable) (role : Role) (r : Ref)
    (rest : List Token) (b : Workbench) (a : Backed) (code : Code) (b' : Workbench) : Prop where
  denotes : b'.scratch.Fits (hidden map) →
    Denotes (hidden map) R b.scratch a code b'.scratch (value? map t role r) (readsOf t role r)
  constant : role = .source → (∃ ref, find? t r = some ref ∧ ref.isGrounded .source = true) →
    a.constant? = constant? t r
  mode : role = .destination → a.mode ≠ .doubleDeref
  tokens : b'.tokens = rest
  sane : b'.Sane
  pads : t.Pads b'.globals
  grows : b.Grows b'

lemma refers_of_reference (map : Array String) (h : Yields (reference {} role) b (a, code) b')
    (ht : b.tokens = r.tokens ++ rest) (hr : r.IsValid)
    (hrest : Tokens.peek rest ≠ "." ∧ Tokens.peek rest ≠ "[")
    (hslot : ∀ owner name, R.word (.slot owner name) = ⟨.constant, 0⟩) (hb : b.Sane)
    (hpads : t.Pads b.globals) : Refers map R t role r rest b a code b' := by
  obtain ⟨hsane, hgrows⟩ := (careful_reference {} role).grows hb h
  obtain ⟨ref, -, -, hlower, htokens⟩ := find?_of_reference hr hrest ht hb hpads h
  refine ⟨denotes_reference hslot hr hrest ht hb hpads h, ?_, ?_, htokens, hsane,
    hpads.trans hgrows.globals, hgrows⟩
  · rintro rfl hground
    exact constant?_of_reference hslot hr hrest ht hb hpads h hground
  · rintro rfl
    exact Reference.mode_of_lower hlower

end Reference

section Guard

variable {map : Array String} {R : Resolver} {t : SymbolTable} {b b' : Workbench} {code : Code}
  {rest : List Token}

lemma holds_negated (op : Comparison) (n n' : Option Int) (x y : Word) :
    holds op.negated n n' x y = !holds op n n' x y := by
  unfold holds
  split
  · exact op.holds_negated _ _
  · exact op.holdsWords_negated x y

lemma token_ne (op : Comparison) : op.token ≠ "." ∧ op.token ≠ "[" ∧ op.token ≠ ")" := by
  cases op <;> decide

/-- What reading a condition gives: two operands, and a comparison of what they stand for. -/
structure Reads (map : Array String) (R : Resolver) (t : SymbolTable) (guard : Guard)
    (p : ScratchPool) (c : Condition) (code : Code) (p' : ScratchPool) : Prop where
  split : ∃ before before' p₁ x? reads y? reads', code = before ++ before' ∧
    Denotes (hidden map) R p c.a before p₁ x? reads ∧
    Denotes (hidden map) R p₁ c.b before' p' y? reads' ∧ p₁.addresses <+: p'.addresses ∧
    ∀ σ v, guard.eval? map t σ = some v → ∃ x y, x? σ = some x ∧ y? σ = some y ∧
      holds c.op c.a.constant? c.b.constant? x y = v

lemma reads_of_read {guard : Guard} {c : Condition}
    (hslot : ∀ owner name, R.word (.slot owner name) = ⟨.constant, 0⟩) (hg : guard.IsValid)
    (ht : b.tokens = guard.tokens ++ rest) (hb : b.Sane) (hpads : t.Pads b.globals)
    (h : Yields (Condition.read {}) b (c, code) b') (hf : b'.scratch.Fits (hidden map)) :
    Reads map R t guard b.scratch c code b'.scratch ∧ b'.tokens = rest := by
  cases guard with
  | nonzero a =>
    replace ht : b.tokens = "(" :: (a.tokens ++ ")" :: rest) := by simpa [Guard.tokens] using ht
    simp only [Condition.read, yields_bind, yields_lift, yields_expect ht, Prod.exists] at h
    obtain ⟨_, b₁, rfl, a', before, b₂, href, next, b₃, hpop, h⟩ := h
    have s₁ := refers_of_reference map href (r := a) rfl hg (by simp [Tokens.peek]) hslot
      (hb.congr rfl rfl) hpads
    simp only [on_pop, s₁.tokens, Tokens.peek, Tokens.rest, Prod.mk.injEq] at hpop
    obtain ⟨rfl, rfl⟩ := hpop
    simp only [↓reduceIte, yields_pure, Prod.mk.injEq] at h
    obtain ⟨⟨rfl, rfl⟩, rfl⟩ := h
    refine ⟨⟨_, [], b₂.scratch, _, _, _, _, (List.append_nil _).symm, s₁.denotes hf,
      denotes_constant _ _ _ 0, List.prefix_refl _, fun σ v hv => ?_⟩, rfl⟩
    simp only [Guard.eval?, Option.map_eq_some_iff] at hv
    obtain ⟨x, hx, rfl⟩ := hv
    refine ⟨x, 0, hx, rfl, ?_⟩
    rw [s₁.constant rfl (grounded_of_value? hx)]
    rfl
  | compare a op d =>
    replace ht : b.tokens = "(" :: (a.tokens ++ op.token :: (d.tokens ++ ")" :: rest)) := by
      simpa [Guard.tokens] using ht
    simp only [Condition.read, yields_bind, yields_lift, yields_expect ht, Prod.exists] at h
    obtain ⟨_, b₁, rfl, a', before, b₂, href, next, b₃, hpop, h⟩ := h
    have s₁ := refers_of_reference map href (r := a) rfl hg.1 (by simp [Tokens.peek, token_ne op])
      hslot (hb.congr rfl rfl) hpads
    simp only [on_pop, s₁.tokens, Tokens.peek, Tokens.rest, Prod.mk.injEq] at hpop
    obtain ⟨rfl, rfl⟩ := hpop
    simp only [(token_ne op).2.2, ↓reduceIte, yields_bind, yields_lift, Condition.readOperator,
      Comparison.ofToken?_token, yields_pure, Prod.exists] at h
    obtain ⟨_, b₃, ⟨rfl, rfl⟩, d', before', b₄, href', _, b₅, hcheck, _, b₆, hcheck', _, b₇, hclose,
      heq, rfl⟩ := h
    obtain ⟨rfl, rfl⟩ := Prod.mk.inj heq
    have s₂ := refers_of_reference map href' (r := d) rfl hg.2 (by simp [Tokens.peek]) hslot
      (s₁.sane.congr rfl rfl) s₁.pads
    obtain ⟨ds, -, hds⟩ := on_checkBounds .source a'.toOperand b₄
    obtain ⟨-, rfl⟩ := Prod.mk.inj (hds.symm.trans hcheck)
    obtain ⟨ds', -, hds'⟩ := on_checkBounds .source d'.toOperand { b₄ with diagnostics := ds }
    obtain ⟨-, rfl⟩ := Prod.mk.inj (hds'.symm.trans hcheck')
    obtain rfl := (yields_expect (by exact s₂.tokens)).mp hclose
    refine ⟨⟨before, before', b₂.scratch, _, _, _, _, rfl,
      s₁.denotes (hf.of_prefix s₂.grows.scratch), s₂.denotes hf, s₂.grows.scratch,
      fun σ v hv => ?_⟩, rfl⟩
    simp only [Guard.eval?, compare?, Option.bind_eq_bind, Option.bind_eq_some_iff] at hv
    obtain ⟨x, hx, y, hy, hv⟩ := hv
    refine ⟨x, y, hx, hy, ?_⟩
    rw [s₁.constant rfl (grounded_of_value? hx), s₂.constant rfl (grounded_of_value? hy)]
    exact Option.some.inj hv

lemma truth_eq_holds (c : Condition) (x y : Word) :
    c.truth x y = holds c.op c.a.constant? c.b.constant? x y := rfl

section Judges

variable {guard : Guard} {p : ScratchPool} {c : Condition} {w w' : Workbench} {branch : Branch}
  {test : Code}

lemma Reads.judges (h : Reads map R t guard p c code w.scratch) (hw : w.Sane)
    (hlower : c.lower.on w = ((branch, test), w')) (hf : w'.scratch.Fits (hidden map)) :
    Judges (hidden map) R p branch (code ++ test) w'.scratch (guard.eval? map t) := by
  obtain ⟨before, before', p₁, x?, reads, y?, reads', rfl, ha, hb, hp₁, htruth⟩ := h.split
  exact judges_lower ha hb hw hlower hf hp₁ htruth

lemma Reads.judges_negated (h : Reads map R t guard p c code w.scratch) (hw : w.Sane)
    (hlower : ({ c with op := c.op.negated } : Condition).lower.on w = ((branch, test), w'))
    (hf : w'.scratch.Fits (hidden map)) :
    Judges (hidden map) R p branch (code ++ test) w'.scratch
      fun σ => (guard.eval? map t σ).map (!·) := by
  obtain ⟨before, before', p₁, x?, reads, y?, reads', rfl, ha, hb, hp₁, htruth⟩ := h.split
  refine judges_lower (c := { c with op := c.op.negated }) ha hb hw hlower hf hp₁ fun σ v hv => ?_
  simp only [Option.map_eq_some_iff] at hv
  obtain ⟨v, hv, rfl⟩ := hv
  obtain ⟨x, y, hx, hy, rfl⟩ := htruth σ v hv
  exact ⟨x, y, hx, hy, (truth_eq_holds _ x y).trans (holds_negated _ _ _ x y)⟩

end Judges
end Guard
end Structured
end CogolToolchain
