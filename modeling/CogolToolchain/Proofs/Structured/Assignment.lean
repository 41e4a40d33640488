import CogolToolchain.Proofs.Compile.Assignment
import CogolToolchain.Proofs.Structured.Value

/-!
The code of an assignment does what the assignment means.
-/

namespace CogolToolchain
namespace Structured

open Grammar Memory Machine Work Attempt ScratchPool

/-- Wherever the code stands, it takes a state to the one that `f` gives. -/
def Performs (hidden : Set Word) (r : Resolver) (code : Code) (f : State → Option State) : Prop :=
  ∀ prog k, r.Stands prog k code → prog.length < 65536 →
    ∀ m s s', EqOff hidden s.memory m → f s = some s' →
      ∃ n m', Leads prog n ⟨k, m, s.display⟩ ⟨k + code.length, m', s'.display⟩ ∧
        EqOff hidden s'.memory m'

section Machine

variable {hidden : Set Word} {r : Resolver} {p : ScratchPool} {before code : Code} {m : Memory}
  {s : State} {f : State → Option State} {own own' own'' : List Word} {x y w c : Word} {k : Nat}
  {prog : List WordInstruction}

lemma eqOff_straight (hf : p.Fits hidden)
    (hq : ∀ i ∈ before, ∃ t ∈ p.addresses, i.dest = .cellDest t) {σ : Memory}
    (hm : EqOff hidden σ m) (k : Nat → Nat) : EqOff hidden σ (after k (r.words before) m) := by
  refine hm.trans (eqOff_after hf.zero (fun i hi => ?_) (fun i hi => ?_) k m)
  all_goals
    obtain ⟨j, hj, rfl⟩ := r.mem_words.mp hi
    obtain ⟨t, ht, hdest⟩ := hq j hj
    rw [hdest, r.word_cellDest]
  · exact ⟨rfl, hf.ne_zero ht, hf.ne_one ht⟩
  · exact hf.scratch t ht

lemma leads_straight (hf : p.Fits hidden)
    (hq : ∀ i ∈ before, ∃ t ∈ p.addresses, i.dest = .cellDest t) (hst : r.Stands prog k before)
    (m : Memory) (d : Array Word) :
    Leads prog before.length ⟨k, m, d⟩
      ⟨k + before.length, after (k + ·) (r.words before) m, d⟩ := by
  have hquiet : ∀ i ∈ r.words before, i.Quiet := fun i hi => by
    obtain ⟨j, hj, rfl⟩ := r.mem_words.mp hi
    obtain ⟨t, ht, hdest⟩ := hq j hj
    rw [hdest, r.word_cellDest]
    exact ⟨rfl, hf.ne_zero ht, hf.ne_one ht⟩
  have hleads := Leads.of_quiet hst.sits hquiet m d
  rwa [r.length_words] at hleads

lemma performs_append (hf : p.Fits hidden)
    (hq : ∀ i ∈ before, ∃ t ∈ p.addresses, i.dest = .cellDest t)
    (hend : ∀ prog k, r.Stands prog (k + before.length) code → prog.length < 65536 →
      ∀ m s s', EqOff hidden s.memory m → f s = some s' →
        ∃ n m', Leads prog n ⟨k + before.length, after (k + ·) (r.words before) m, s.display⟩
          ⟨k + before.length + code.length, m', s'.display⟩ ∧ EqOff hidden s'.memory m') :
    Performs hidden r (before ++ code) f := by
  intro prog k hst hsmall m s s' hm hs
  obtain ⟨hst₁, hst₂⟩ := (r.stands_append).mp hst
  obtain ⟨n, m', hleads, hm'⟩ := hend prog k hst₂ hsmall m s s' hm hs
  refine ⟨before.length + n, m', ?_, hm'⟩
  rw [List.length_append, ← Nat.add_assoc]
  exact (leads_straight hf hq hst₁ m s.display).trans hleads

lemma leads_store {i : Instruction} (hst : r.Stands prog k [i]) (h0 : 0 ∈ hidden)
    (hl : m.Shows hidden own (r.word i.lhs) x) (hlo : 0 ∉ own)
    (hr : m.Shows hidden own' (r.word i.rhs) y) (hro : 0 ∉ own')
    (hd : m.Shows hidden own'' (r.word i.dest) c) (hdo : 0 ∉ own'')
    (ho : i.opcode.apply x y = some w) (hc : c ∉ hidden) (hm : EqOff hidden s.memory m) :
    ∃ m', Leads prog 1 ⟨k, m, s.display⟩ ⟨k + 1, m', (s.store c w).display⟩ ∧
      EqOff hidden (s.store c w).memory m' := by
  have hi : prog[k]? = some ⟨i.opcode, r.word i.lhs, r.word i.rhs, r.word i.dest⟩ :=
    (sits_cons.mp hst.sits).1
  have hc0 : c ≠ 0 := by
    rintro rfl
    exact hc h0
  exact ⟨_, Leads.of_store hi h0 hl hlo hr hro hd hdo ho hc0 s.display,
    (hm.trans (eqOff_arrive h0 m k)).write c w⟩

end Machine

section Operation

variable {hidden : Set Word} {r : Resolver} {p p₁ p₂ p₃ : ScratchPool} {lhs rhs dest : Backed}
  {address before code : Code} {c? x? y? : Memory → Option Word}
  {reads reads' reads'' : Memory → List Word} {held : List Nat} {m σ : Memory} {c x y : Word}

/-- The first operand of a calculation, once it is ready: the code of the destination has run
before, and the cells in `held` keep its word. -/
structure First (hidden : Set Word) (r : Resolver) (p₁ p₂ : ScratchPool) (lhs dest : Backed)
    (address before : Code) (held : List Nat) (c? x? : Memory → Option Word) : Prop where
  quiet : ∀ i ∈ before, ∃ t ∈ p₂.addresses, i.dest = .cellDest t ∧ ¬ p₁.Busy t
  keeps : ∀ t, p₁.Busy t → p₂.Busy t
  grows : p₁.addresses <+: p₂.addresses
  known : ∃ n, lhs.value = .known n
  inUse : ∀ u ∈ held, p₂.Busy u
  busy : ∀ u ∈ lhs.cells, p₂.Busy u
  shows : p₂.Fits hidden → ∀ k m σ c x, EqOff hidden σ m → c? σ = some c →
    c ∉ hidden → x? σ = some x → (after k (r.words (address ++ before)) m).Shows
    hidden (held.map UInt16.ofNat) lhs.word x

lemma first_of_denotes (hd : Denotes hidden r p dest address p₁ c? reads)
    (hl : Denotes hidden r p₁ lhs before p₂ x? reads') (hgrow : p₁.addresses <+: p₂.addresses) :
    First hidden r p₁ p₂ lhs dest address before lhs.cells c? x? where
  quiet := hl.lowers.quiet
  keeps _ := hl.lowers.keeps
  grows := hgrow
  known := hl.lowers.known
  inUse := hl.lowers.ready.busy
  busy := hl.lowers.ready.busy
  shows := fun hf k m σ c x hm _ _ hx => by
    rw [r.words_append, after_append]
    have hm₁ := hd.lowers.eqOff_hidden (r := r) (hf.of_prefix hgrow) hm k
    exact hl.shows_hidden hf hm₁ hx _

lemma first_of_read (hd : Denotes hidden r p dest address p₁ c? reads)
    (hmode : dest.mode ≠ .doubleDeref) :
    First hidden r p₁ p₁ (.ofOperand dest.read.toOperand) dest address [] dest.cells c?
      fun σ => (c? σ).map σ.read where
  quiet := by simp
  keeps _ := id
  grows := List.prefix_refl _
  known := hd.lowers.known
  inUse := hd.lowers.ready.busy
  busy := by simp [Backed.ofOperand]
  shows := fun hf k m σ c x hm hc hvis hx => by
    rw [hc, Option.map_some, Option.some.injEq] at hx
    rw [List.append_nil, ← hx]
    have hshows := hd.shows_hidden hf hm hc k
    have hm₁ := hd.lowers.eqOff_hidden (r := r) hf hm k
    rw [← hm₁ c hvis]
    exact hshows.raised hmode hvis

lemma First.ready (h : First hidden r p₁ p₂ lhs dest address before held c? x?)
    (hd : Denotes hidden r p dest address p₁ c? reads) : dest.Ready p₂ :=
  ⟨hd.lowers.known, fun u hu => h.keeps u (hd.lowers.ready.busy u hu)⟩

lemma First.quiet_append (h : First hidden r p₁ p₂ lhs dest address before held c? x?)
    (hd : Denotes hidden r p dest address p₁ c? reads) :
    ∀ i ∈ address ++ before, ∃ t ∈ p₂.addresses, i.dest = .cellDest t := by
  intro i hi
  rcases List.mem_append.mp hi with hi | hi
  · obtain ⟨t, ht, hdest, -⟩ := hd.lowers.quiet i hi
    exact ⟨t, h.grows.subset ht, hdest⟩
  · obtain ⟨t, ht, hdest, -⟩ := h.quiet i hi
    exact ⟨t, ht, hdest⟩

lemma First.shows_dest (h : First hidden r p₁ p₂ lhs dest address before held c? x?)
    (hd : Denotes hidden r p dest address p₁ c? reads) {S : Set Word} (hf : p₂.Fits S)
    (hm : EqOff S σ m) (hc : c? σ = some c) (hreads : ∀ a ∈ reads σ, a ∉ S) (k : Nat → Nat) :
    (after k (r.words (address ++ before)) m).Shows S dest.own dest.word c := by
  rw [r.words_append, after_append]
  have hshows := hd.shows S (hf.of_prefix h.grows) k m σ c hm hc hreads
  exact shows_keep h.quiet h.grows hd.lowers.ready.busy hf hshows _

lemma performs_copy {f : State → Option State}
    (hd : Denotes hidden r p dest address p₁ c? reads)
    (h : First hidden r p₁ p₂ lhs dest address before held c? x?) (hf : p₂.Fits hidden)
    (hs : ∀ s s', f s = some s' → ∃ c x, c? s.memory = some c ∧ c ∉ hidden ∧
      x? s.memory = some x ∧ s' = s.store c x) :
    Performs hidden r (address ++ before ++ [.copy lhs.toOperand dest.toOperand]) f := by
  refine performs_append hf (h.quiet_append hd) fun prog k hst _ m s s' hm hfs => ?_
  obtain ⟨c, x, hc, hvis, hx, rfl⟩ := hs s s' hfs
  have hdest := h.shows_dest hd hf hm hc (hd.visible _ c hc) (k + ·)
  have hlhs := h.shows hf (k + ·) m s.memory c x hm hc hvis hx
  obtain ⟨n, hn⟩ := h.known
  obtain ⟨n', hn'⟩ := hd.lowers.known
  rw [← r.word_of_known hn] at hlhs
  rw [← r.word_of_known hn'] at hdest
  obtain ⟨m', hleads, hm'⟩ := leads_store hst hf.zero
    (shows_constant _ hidden (UInt16.ofInt (-1))) (by simp) hlhs
    (hf.zero_notMem_map fun u hu => (h.inUse u hu).mem_addresses) hdest
    ((h.ready hd).zero_notMem hf (List.prefix_refl _)) rfl hvis
    (eqOff_straight hf (h.quiet_append hd) hm (k + ·))
  exact ⟨1, m', hleads, hm'⟩

section Second

variable (hd : Denotes hidden r p dest address p₁ c? reads)
  (h : First hidden r p₁ p₂ lhs dest address before held c? x?)
  (hr : Denotes hidden r p₂ rhs code p₃ y? reads'') (hgrow : p₂.addresses <+: p₃.addresses)

include hd h hr hgrow

lemma quiet_second : ∀ i ∈ address ++ before ++ code, ∃ t ∈ p₃.addresses, i.dest = .cellDest t := by
  intro i hi
  rcases List.mem_append.mp hi with hi | hi
  · obtain ⟨t, ht, hdest⟩ := h.quiet_append hd i hi
    exact ⟨t, hgrow.subset ht, hdest⟩
  · obtain ⟨t, ht, hdest, -⟩ := hr.lowers.quiet i hi
    exact ⟨t, ht, hdest⟩

lemma shows_second (hf : p₃.Fits hidden) (hm : EqOff hidden σ m) (hc : c? σ = some c)
    (hvis : c ∉ hidden) (hx : x? σ = some x) (hy : y? σ = some y) (k : Nat → Nat) :
    (after k (r.words (address ++ before ++ code)) m).Shows hidden (held.map UInt16.ofNat)
        lhs.word x ∧
      (after k (r.words (address ++ before ++ code)) m).Shows hidden rhs.own rhs.word y := by
  have hf₂ := hf.of_prefix hgrow
  rw [r.words_append (address ++ before), after_append]
  have hm₂ := eqOff_straight (r := r) hf₂ (h.quiet_append hd) hm k
  exact ⟨shows_keep hr.lowers.quiet hgrow h.inUse hf (h.shows hf₂ k m σ c x hm hc hvis hx) _,
    hr.shows_hidden hf hm₂ hy _⟩

lemma shows_dest_second {S : Set Word} (hf : p₃.Fits S) (hm : EqOff S σ m) (hc : c? σ = some c)
    (hreads : ∀ a ∈ reads σ, a ∉ S) (k : Nat → Nat) :
    (after k (r.words (address ++ before ++ code)) m).Shows S dest.own dest.word c := by
  rw [r.words_append (address ++ before), after_append]
  exact shows_keep hr.lowers.quiet hgrow (h.ready hd).busy hf
    (h.shows_dest hd (hf.of_prefix hgrow) hm hc hreads k) _

lemma performs_single {f : State → Option State} {opcode : Opcode} (hf : p₃.Fits hidden)
    (hs : ∀ s s', f s = some s' → ∃ c x y w, c? s.memory = some c ∧ c ∉ hidden ∧
      x? s.memory = some x ∧ y? s.memory = some y ∧ opcode.apply x y = some w ∧ s' = s.store c w) :
    Performs hidden r (address ++ before ++ code ++
      [{ opcode, lhs := lhs.toOperand, rhs := rhs.toOperand, dest := dest.toOperand }]) f := by
  have hq := quiet_second hd h hr hgrow
  refine performs_append hf hq fun prog k hst _ m s s' hm hfs => ?_
  obtain ⟨c, x, y, w, hc, hvis, hx, hy, hw, rfl⟩ := hs s s' hfs
  obtain ⟨hlhs, hrhs⟩ := shows_second hd h hr hgrow hf hm hc hvis hx hy (k + ·)
  have hdest := shows_dest_second hd h hr hgrow hf hm hc (hd.visible _ c hc) (k + ·)
  obtain ⟨n, hn⟩ := h.known
  obtain ⟨n', hn'⟩ := hr.lowers.known
  obtain ⟨n'', hn''⟩ := hd.lowers.known
  rw [← r.word_of_known hn] at hlhs
  rw [← r.word_of_known hn'] at hrhs
  rw [← r.word_of_known hn''] at hdest
  obtain ⟨m', hleads, hm'⟩ := leads_store hst hf.zero hlhs
    (hf.zero_notMem_map fun u hu => hgrow.subset (h.inUse u hu).mem_addresses) hrhs
    (hr.lowers.zero_notMem_own hf) hdest ((h.ready hd).zero_notMem hf hgrow) hw hvis
    (eqOff_straight hf hq hm (k + ·))
  exact ⟨1, m', hleads, hm'⟩

lemma performs_product {f : State → Option State} {w w' : Workbench} {product : Code}
    (hmul : Assignment.Multiplies w lhs rhs dest product w') (hw : w.scratch = p₃)
    (hmode : dest.mode ≠ .doubleDeref) (hf : w'.scratch.Fits hidden)
    (hs : ∀ s s', f s = some s' → ∃ c x y, c? s.memory = some c ∧ c ∉ hidden ∧
      x? s.memory = some x ∧ y? s.memory = some y ∧ c ≠ 1 ∧ c ∉ reads s.memory ∧
      s' = s.store c (x * y)) :
    Performs hidden r (address ++ before ++ code ++ product) f := by
  subst hw
  have hgrow' := hmul.grows.scratch
  obtain ⟨counter, addend, id, rfl, -, hcm, ham, hcd, had, hcr, hne⟩ := hmul.layout
  have hf₃ := hf.of_prefix hgrow'
  have hq := quiet_second hd h hr hgrow
  refine performs_append hf₃ hq fun prog k hst hsmall m s s' hm hfs => ?_
  obtain ⟨c, x, y, hc, hvis, hx, hy, hc1, hcreads, rfl⟩ := hs s s' hfs
  generalize hplace : k + (address ++ before ++ code).length = k' at hst ⊢
  -- the destination is seen without its own cell, which changes on the way
  let S : Set Word := insert c hidden
  have hsub : hidden ⊆ S := Set.subset_insert c hidden
  have hfS : w.scratch.Fits S :=
    ⟨hsub hf.zero, fun t ht => hsub (hf₃.scratch t ht), hf₃.small⟩
  have hlhs := (shows_second hd h hr hgrow hf₃ hm hc hvis hx hy (k + ·)).1
  have hrhs := (shows_second hd h hr hgrow hf₃ hm hc hvis hx hy (k + ·)).2
  have hdest := shows_dest_second hd h hr hgrow hfS (hm.mono hsub) hc (fun a ha hS => by
    rcases hS with rfl | hhid
    · exact hcreads ha
    · exact hd.visible _ c hc a ha hhid) (k + ·)
  have hm₃ := eqOff_straight (r := r) hf₃ hq hm (k + ·)
  generalize after (k + ·) (r.words (address ++ before ++ code)) m = m₃ at hlhs hrhs hdest hm₃
  have hlabel := hst.labels 9 _ rfl _ (List.mem_singleton_self _)
  have hlen := hst.length_le _ (by simp [Assignment.productCode])
  simp only [Assignment.productCode, List.length_cons, List.length_nil] at hlen
  have hsits := hst.sits
  rw [Assignment.words_productCode hlabel] at hsits
  obtain ⟨n, hn⟩ := h.known
  obtain ⟨n', hn'⟩ := hr.lowers.known
  obtain ⟨n'', hn''⟩ := hd.lowers.known
  rw [← r.word_of_known hn] at hlhs
  rw [← r.word_of_known hn'] at hrhs
  rw [← r.word_of_known hn''] at hdest
  have hdready := (h.ready hd)
  have hown : ∀ {t : Nat} {cells : List Nat}, t ∈ w'.scratch.addresses →
      (∀ u ∈ cells, w.scratch.Busy u) → t ∉ cells → UInt16.ofNat t ∉ cells.map UInt16.ofNat :=
    fun ht hcells hnot => hf.notMem_map (fun u hu => hgrow'.subset (hcells u hu).mem_addresses) ht
      hnot
  have hdcells : ∀ u ∈ dest.cells, w.scratch.Busy u := fun u hu =>
    hr.lowers.keeps (hdready.busy u hu)
  have hc_ne : ∀ {t : Nat}, t ∈ w'.scratch.addresses → UInt16.ofNat t ≠ c := by
    rintro t ht rfl
    exact hvis (hf.scratch t ht)
  have hsite : Product.Site S dest.own (UInt16.ofNat counter) (UInt16.ofNat addend) c :=
    { zero_mem := hsub hf.zero
      p_mem := hsub (hf.scratch _ hcm)
      q_mem := hsub (hf.scratch _ ham)
      c_mem := Set.mem_insert c hidden
      zero_own := hdready.zero_notMem hf₃ hgrow
      p_own := hown hcm hdcells hcd
      q_own := hown ham hdcells had
      c_own := fun hmem => by
        obtain ⟨u, hu, rfl⟩ := List.mem_map.mp hmem
        exact hvis (hf₃.scratch u (hdcells u hu).mem_addresses)
      p_ne_zero := hf.ne_zero hcm
      p_ne_one := hf.ne_one hcm
      q_ne_zero := hf.ne_zero ham
      q_ne_one := hf.ne_one ham
      c_ne_zero := by rintro rfl; exact hvis hf.zero
      p_ne_q := fun heq => hne (hf.ofNat_inj hcm ham heq)
      p_ne_c := hc_ne hcm
      q_ne_c := hc_ne ham }
  have hwordmode : (r.word dest.toOperand).mode ≠ .doubleDeref := by
    rw [r.word_of_known hn'']
    exact hmode
  obtain ⟨steps, m', d', hleads, hd', hframe, hread⟩ :=
    Product.leads_product hsits (by omega) hsite hwordmode hf.zero (hf.scratch _ hcm) hlhs
    (hf₃.zero_notMem_map fun u hu => hgrow.subset (h.inUse u hu).mem_addresses) hrhs
    (hr.lowers.zero_notMem_own hf₃) (hown hcm (fun u hu => hr.lowers.own_mem hu) hcr) hdest
    (hm₃.mono hsub) s.display
  refine ⟨steps, m', ?_, fun a ha => ?_⟩
  · rw [hd' hc1] at hleads
    simpa [State.store, hc1, Assignment.productCode] using hleads
  · rw [State.store, read_write]
    split
    · rename_i heq
      rw [← heq, hread]
    · rename_i hac
      exact hframe a fun hS => hS.elim (fun heq => hac heq.symm) ha

end Second
lemma performs_choose {f : State → Option State} {branch : Branch} {test : Code}
    {truth? : Memory → Option Bool} (hd : Denotes hidden r p dest address p₁ c? reads)
    (h : First hidden r p₁ p₂ lhs dest address before held c? x?)
    (htest : Judges hidden r p₂ branch test p₃ truth?) (hgrow : p₂.addresses <+: p₃.addresses)
    (hf : p₃.Fits hidden)
    (hs : ∀ s s', f s = some s' →
      (truth? s.memory = some true ∧ ∃ c x, c? s.memory = some c ∧ c ∉ hidden ∧
        x? s.memory = some x ∧ s' = s.store c x) ∨
      (truth? s.memory = some false ∧ s' = s)) :
    Performs hidden r
      (address ++ before ++ test ++ (branch.move? lhs.toOperand dest.toOperand).toList) f := by
  have hf₂ := hf.of_prefix hgrow
  have hq : ∀ i ∈ address ++ before ++ test, ∃ t ∈ p₃.addresses, i.dest = .cellDest t := by
    intro i hi
    rcases List.mem_append.mp hi with hi | hi
    · obtain ⟨t, ht, hdest⟩ := h.quiet_append hd i hi
      exact ⟨t, hgrow.subset ht, hdest⟩
    · obtain ⟨t, ht, hdest, -⟩ := htest.quiet i hi
      exact ⟨t, ht, hdest⟩
  refine performs_append hf hq fun prog k hst _ m s s' hm hfs => ?_
  have hm₂ := eqOff_straight (r := r) hf₂ (h.quiet_append hd) hm (k + ·)
  have hm₃ := eqOff_straight (r := r) hf hq hm (k + ·)
  have hdecides : ∀ v, truth? s.memory = some v →
      branch.Decides hidden (after (k + ·) (r.words (address ++ before ++ test)) m) v := by
    intro v hv
    rw [r.words_append (address ++ before), after_append]
    exact htest.decides _ _ s.memory v hm₂ hv
  rcases hs s s' hfs with ⟨hv, c, x, hc, hvis, hx, rfl⟩ | ⟨hv, rfl⟩
  · have hdest := h.shows_dest hd hf₂ hm hc (hd.visible _ c hc) (k + ·)
    have hlhs := h.shows hf₂ (k + ·) m s.memory c x hm hc hvis hx
    -- what is in use before the test stays as it is
    replace hdest := shows_keep (r := r) htest.quiet hgrow (h.ready hd).busy hf hdest
      (fun n => k + ((r.words (address ++ before)).length + n))
    replace hlhs := shows_keep (r := r) htest.quiet hgrow h.inUse hf hlhs
      (fun n => k + ((r.words (address ++ before)).length + n))
    rw [← after_append, ← r.words_append] at hdest hlhs
    obtain ⟨n, hn⟩ := h.known
    obtain ⟨n', hn'⟩ := hd.lowers.known
    rw [← r.word_of_known hn] at hlhs
    rw [← r.word_of_known hn'] at hdest
    rcases (hdecides true hv).move? r lhs.toOperand dest.toOperand with ⟨-, hfalse⟩ |
      ⟨opcode, test', own, z, hmove, h0, hz, happly⟩
    · simp at hfalse
    · rw [hmove] at hst ⊢
      obtain ⟨m', hleads, hm'⟩ := leads_store hst hf.zero hz h0 hlhs
        (hf.zero_notMem_map fun u hu => hgrow.subset (h.inUse u hu).mem_addresses) hdest
        ((h.ready hd).zero_notMem hf hgrow) (happly x) hvis hm₃
      exact ⟨1, m', hleads, hm'⟩
  · rcases (hdecides false hv).move? r lhs.toOperand dest.toOperand with ⟨hmove, -⟩ |
      ⟨opcode, test', own, z, hmove, h0, hz, happly⟩
    · rw [hmove]
      exact ⟨0, _, Leads.refl prog _, hm₃⟩
    · rw [hmove] at hst ⊢
      have hi := (sits_cons.mp hst.sits).1
      exact ⟨1, _, Leads.of_idle hi hf.zero hz h0 happly _,
        hm₃.trans (eqOff_arrive hf.zero _ _)⟩

end Operation
section Lower

variable {map : Array String} {R : Resolver} {t : SymbolTable} {b b' : Workbench}
  {rest : List Token}
  {code : Code}

lemma target?_eq_some {r : Ref} {m : Memory} {c : Word} (h : target? map t r m = some c) :
    value? map t .destination r m = some c ∧ c ∉ hidden map := by
  rw [target?, Option.filter_eq_some_iff] at h
  exact ⟨h.1, by simpa [hidden] using h.2⟩

lemma of_canHoldProduct {r : Ref} {m : Memory} {c : Word} (h : canHoldProduct t r c m = true) :
    c ≠ 1 ∧ c ∉ readsOf t .destination r m := by
  simp only [canHoldProduct, Bool.and_eq_true, bne_iff_ne, ne_eq] at h
  refine ⟨h.1, ?_⟩
  rcases hfind : find? t r with _ | ref
  · simp [readsOf, hfind]
  · simpa [readsOf, hfind] using h.2

lemma token_of_operator {op : Operator} (h : op.IsValid) :
    op.token ∉ [";", "if", ".", "["] ∧ Assignment.compound? (op.token ++ "=") = some op.token ∧
      op.token ++ "=" ∉ ["=", "++", "--", ".", "["] := by
  cases op with
  | product => decide
  | single token opcode =>
    replace h : Opcode.ofOperator? token = some opcode := h
    unfold Opcode.ofOperator? at h
    rw [Operator.token]
    split at h <;> first | decide | simp at h

lemma peek_append {ts : List Token} (h : ts ≠ []) (rest : List Token) :
    Tokens.peek (ts ++ rest) = Tokens.peek ts := by
  cases ts with
  | nil => exact absurd rfl h
  | cons t ts => rfl

lemma reference_of_firstOperand {r : Ref} {lhs : Backed} (hr : Assign.IsFirst r)
    (ht : b.tokens = r.tokens ++ rest)
    (h : Yields (Assignment.firstOperand {}) b (lhs, code) b') :
    Yields (reference {} .source) b (lhs, code) b' := by
  simp only [Assignment.firstOperand, yields_bind, yields_lift, on_peek, ht,
    peek_append r.tokens_ne_nil, Prod.mk.injEq] at h
  obtain ⟨_, b₁, ⟨rfl, rfl⟩, h⟩ := h
  rwa [if_neg hr.2] at h

lemma performs_binary (op : Operator) {dest' d : Ref} {lhs dest : Backed} {p p₁ : ScratchPool}
    {address before : Code} {held : List Nat} {x? : Memory → Option Word} {f : State → Option State}
    (h : Yields (Assignment.binary {} lhs op.token dest) b code b')
    (ht : b.tokens = d.tokens ++ ";" :: rest) (hop : op.IsValid) (hvalid : d.IsValid)
    (hslot : ∀ owner name, R.word (.slot owner name) = ⟨.constant, 0⟩) (hb : b.Sane)
    (hpads : t.Pads b.globals) (hf : b'.scratch.Fits (hidden map))
    (hdest : Denotes (hidden map) R p dest address p₁ (value? map t .destination dest')
      (readsOf t .destination dest'))
    (hfirst : First (hidden map) R p₁ b.scratch lhs dest address before held
      (value? map t .destination dest') x?)
    (hmode : dest.mode ≠ .doubleDeref)
    (hs : ∀ s s', f s = some s' → ∃ c x y w, target? map t dest' s.memory = some c ∧
      x? s.memory = some x ∧ value? map t .source d s.memory = some y ∧
      op.result? t dest' c x y s.memory = some w ∧ s' = s.store c w) :
    Performs (hidden map) R (address ++ before ++ code) f ∧ b'.tokens = rest := by
  obtain ⟨hb', hgrow⟩ := (Assignment.careful_binary {} lhs dest op.token).grows hb h
  simp only [Assignment.binary, yields_bind, yields_lift, Prod.exists] at h
  obtain ⟨rhs, before', b₁, href, _, b₂, hcheck, _, b₃, hexpect, h⟩ := h
  have s₁ := refers_of_reference map href ht hvalid (by simp [Tokens.peek]) hslot hb hpads
  obtain ⟨ds, -, hds⟩ := on_checkBounds .source rhs.toOperand b₁
  obtain ⟨-, rfl⟩ := Prod.mk.inj (hds.symm.trans hcheck)
  obtain rfl := (yields_expect (by exact s₁.tokens)).mp hexpect
  cases op with
  | product =>
    simp only [Operator.token, ↓reduceIte, yields_bind, yields_lift, yields_pure] at h
    obtain ⟨product, b₄, hmul, rfl, rfl⟩ := h
    have hsane : Workbench.Sane { b₁ with tokens := rest, diagnostics := ds } :=
      s₁.sane.congr rfl rfl
    have hf₁ : b₁.scratch.Fits (hidden map) := hf.of_prefix (by
      have := ((Assignment.advances_multiply lhs rhs dest _).keeps hsane).2.scratch
      rwa [hmul] at this)
    have hden := s₁.denotes hf₁
    have hready : lhs.Ready b.scratch := ⟨hfirst.known, hfirst.busy⟩
    have hm := Assignment.multiplies_of_multiply hsane (hready.lowers hden.lowers) hden.lowers.ready
      ((hfirst.ready hdest).lowers hden.lowers) (hden.lowers.disjoint hready) hmul
    refine ⟨?_, hm.tokens⟩
    rw [← List.append_assoc]
    refine performs_product hdest hfirst hden s₁.grows.scratch hm rfl hmode hf fun s s' hfs => ?_
    obtain ⟨c, x, y, w, hc, hx, hy, hw, rfl⟩ := hs s s' hfs
    obtain ⟨hc, hvis⟩ := target?_eq_some hc
    simp only [Operator.result?, Option.ite_none_right_eq_some, Option.some.injEq] at hw
    obtain ⟨hcan, rfl⟩ := hw
    exact ⟨c, x, y, hc, hvis, hx, hy, (of_canHoldProduct hcan).1, (of_canHoldProduct hcan).2, rfl⟩
  | single token opcode =>
    have hne : token ≠ "*" := by
      rintro rfl
      simp [Operator.IsValid, Opcode.ofOperator?] at hop
    replace hop : Opcode.ofOperator? token = some opcode := hop
    simp only [Operator.token, hne, ↓reduceIte, hop, yields_pure] at h
    obtain ⟨rfl, rfl⟩ := h
    refine ⟨?_, rfl⟩
    rw [← List.append_assoc]
    refine performs_single hdest hfirst (s₁.denotes hf) s₁.grows.scratch hf fun s s' hfs => ?_
    obtain ⟨c, x, y, w, hc, hx, hy, hw, rfl⟩ := hs s s' hfs
    obtain ⟨hc, hvis⟩ := target?_eq_some hc
    exact ⟨c, x, y, w, hc, hvis, hx, hy, hw, rfl⟩

lemma operation_of_first (map : Array String) {r : Ref} {dest : Backed} {address : Code}
    {op : Token} (h : Yields (Assignment.afterOperator {} dest address "=") b code b')
    (ht : b.tokens = r.tokens ++ op :: rest) (hr : Assign.IsFirst r) (hop : op ≠ "." ∧ op ≠ "[")
    (hslot : ∀ owner name, R.word (.slot owner name) = ⟨.constant, 0⟩) (hb : b.Sane)
    (hpads : t.Pads b.globals) :
    ∃ lhs before code' b₁ ds, Refers map R t .source r (op :: rest) b lhs before b₁ ∧
      code = address ++ before ++ code' ∧
      Yields (if op = ";" then return [.copy lhs.toOperand dest.toOperand]
        else if op = "if" then Assignment.conditional {} lhs dest
        else Assignment.binary {} lhs op dest)
        { b₁ with tokens := rest, diagnostics := ds } code' b' := by
  rw [Assignment.afterOperator, if_pos rfl] at h
  simp only [yields_bind, yields_lift, yields_pure, Prod.exists, Assignment.operation] at h
  obtain ⟨lhs, before, b₁, hfirst, op', b₂, hpop, code', b₃, ⟨_, b₄, hcheck, hrest⟩, rfl, rfl⟩ := h
  have s₂ := refers_of_reference map (reference_of_firstOperand hr ht hfirst) ht
    hr.1 hop hslot hb hpads
  simp only [on_pop, s₂.tokens] at hpop
  obtain ⟨rfl, rfl⟩ := Prod.mk.inj hpop
  obtain ⟨ds, -, hds⟩ := on_checkBounds .source lhs.toOperand
    { b₁ with tokens := Tokens.rest (op :: rest) }
  obtain ⟨-, rfl⟩ := Prod.mk.inj (hds.symm.trans hcheck)
  exact ⟨lhs, before, code', b₁, ds, s₂, rfl, hrest⟩

lemma performs_step {dest' : Ref} {dest : Backed} {p p₁ : ScratchPool} {address : Code} {n : Int}
    {f : State → Option State}
    (hdest : Denotes (hidden map) R p dest address p₁ (value? map t .destination dest')
      (readsOf t .destination dest'))
    (hmode : dest.mode ≠ .doubleDeref) (hf : p₁.Fits (hidden map))
    (hs : ∀ s s', f s = some s' → ∃ c, target? map t dest' s.memory = some c ∧
      s' = s.store c (s.memory.read c + UInt16.ofInt n)) :
    Performs (hidden map) R (address ++
      [{ opcode := .add, lhs := dest.read.toOperand, rhs := .constant n,
         dest := dest.toOperand }]) f := by
  have hperforms : Performs (hidden map) R (address ++ [] ++ [] ++
      [{ opcode := .add, lhs := dest.read.toOperand, rhs := .constant n,
         dest := dest.toOperand }]) f := by
    refine performs_single hdest (first_of_read hdest hmode) (denotes_constant _ R _ n)
      (List.prefix_refl _) hf fun s s' hfs => ?_
    obtain ⟨c, hc, rfl⟩ := hs s s' hfs
    obtain ⟨hc, hvis⟩ := target?_eq_some hc
    exact ⟨c, _, _, _, hc, hvis, congrArg _ hc, rfl, rfl, rfl⟩
  rwa [List.append_nil, List.append_nil] at hperforms

lemma judges_of_conditional {x y : Ref} {op : Comparison} {lhs dest : Backed}
    (h : Yields (Assignment.conditional {} lhs dest) b code b')
    (ht : b.tokens = x.tokens ++ op.token :: (y.tokens ++ ";" :: rest)) (hx : x.IsValid)
    (hy : y.IsValid) (hslot : ∀ owner name, R.word (.slot owner name) = ⟨.constant, 0⟩)
    (hb : b.Sane) (hpads : t.Pads b.globals) (hf : b'.scratch.Fits (hidden map)) :
    ∃ branch test, code = test ++ (branch.move? lhs.toOperand dest.toOperand).toList ∧
      Judges (hidden map) R b.scratch branch test b'.scratch (compare? map t x op y) ∧
      b.scratch.addresses <+: b'.scratch.addresses ∧ b'.tokens = rest := by
  simp only [Assignment.conditional, yields_bind, yields_lift, yields_pure, Prod.exists] at h
  obtain ⟨u, before, b₁, href, next, b₂, hpop, op', b₃, hop, v, before', b₄, href', _, b₅, hexpect,
    branch, test, b₆, hlower, rfl, rfl⟩ := h
  have s₁ := refers_of_reference map href ht hx (by simp [Tokens.peek, token_ne op]) hslot hb hpads
  simp only [on_pop, s₁.tokens, Tokens.peek, Tokens.rest, Prod.mk.injEq] at hpop
  obtain ⟨rfl, rfl⟩ := hpop
  simp only [Condition.readOperator, Comparison.ofToken?_token, yields_pure] at hop
  obtain ⟨hop, rfl⟩ := hop
  obtain rfl := hop.symm
  have s₂ := refers_of_reference map href' (r := y) rfl hy (by simp [Tokens.peek]) hslot
    (s₁.sane.congr rfl rfl) s₁.pads
  obtain rfl := (yields_expect (by exact s₂.tokens)).mp hexpect
  have hsane : Workbench.Sane { b₄ with tokens := rest } := s₂.sane.congr rfl rfl
  have hgrow := ((Condition.advances_lower { a := u, op, b := v } _).keeps hsane).2.scratch
  have htokens := Condition.tokens_lower { a := u, op, b := v } { b₄ with tokens := rest }
  rw [hlower] at hgrow htokens
  have hf₄ : b₄.scratch.Fits (hidden map) := hf.of_prefix hgrow
  have hf₁ := hf₄.of_prefix s₂.grows.scratch
  refine ⟨branch, before ++ before' ++ test, rfl, judges_lower (s₁.denotes hf₁) (s₂.denotes hf₄)
    hsane hlower hf s₂.grows.scratch fun σ w hw => ?_,
    s₁.grows.scratch.trans (s₂.grows.scratch.trans hgrow), htokens⟩
  simp only [compare?, Option.bind_eq_bind, Option.bind_eq_some_iff] at hw
  obtain ⟨x', hx', y', hy', hw⟩ := hw
  refine ⟨x', y', hx', hy', ?_⟩
  rw [truth_eq_holds, s₁.constant rfl (grounded_of_value? hx'),
    s₂.constant rfl (grounded_of_value? hy')]
  exact Option.some.inj hw

/-! ### The parts after the destination -/

section AfterDestination

variable {dest' : Ref} {dest : Backed} {p : ScratchPool} {address : Code}
  (hd : b.scratch.Fits (hidden map) → Denotes (hidden map) R p dest address b.scratch
    (value? map t .destination dest') (readsOf t .destination dest'))
  (hslot : ∀ owner name, R.word (.slot owner name) = ⟨.constant, 0⟩) (hb : b.Sane)
  (hpads : t.Pads b.globals) (hf : b'.scratch.Fits (hidden map))

include hd hslot hb hpads hf

lemma performs_copied {r : Ref} (h : Yields (Assignment.afterOperator {} dest address "=") b
    code b') (ht : b.tokens = r.tokens ++ ";" :: rest) (hr : Assign.IsFirst r) :
    Performs (hidden map) R code ((Assign.copy dest' r).exec? map t) ∧ b'.tokens = rest := by
  obtain ⟨lhs, before, code', b₁, ds, s₁, rfl, hrest⟩ :=
    operation_of_first map h ht hr (by decide) hslot hb hpads
  rw [if_pos rfl, yields_pure] at hrest
  obtain ⟨rfl, rfl⟩ := hrest
  have hd₀ := hd (hf.of_prefix s₁.grows.scratch)
  refine ⟨performs_copy hd₀ (first_of_denotes hd₀ (s₁.denotes hf) s₁.grows.scratch) hf
    fun s s' hs => ?_, rfl⟩
  simp only [Assign.exec?, Option.bind_eq_bind, Option.bind_eq_some_iff] at hs
  obtain ⟨c, hc, x, hx, hs⟩ := hs
  exact ⟨c, x, (target?_eq_some hc).1, (target?_eq_some hc).2, hx, (Option.some.inj hs).symm⟩

lemma performs_chosen {r x y : Ref} {op : Comparison}
    (h : Yields (Assignment.afterOperator {} dest address "=") b code b')
    (ht : b.tokens = r.tokens ++ "if" :: (x.tokens ++ op.token :: (y.tokens ++ ";" :: rest)))
    (hr : Assign.IsFirst r) (hx : x.IsValid) (hy : y.IsValid) :
    Performs (hidden map) R code ((Assign.choose dest' r x op y).exec? map t) ∧
    b'.tokens = rest := by
  obtain ⟨lhs, before, code', b₁, ds, s₁, rfl, hrest⟩ :=
    operation_of_first map h ht hr (by decide) hslot hb hpads
  rw [if_neg (by decide), if_pos rfl] at hrest
  obtain ⟨branch, test, rfl, htest, hgrow, htokens⟩ :=
    judges_of_conditional hrest rfl hx hy hslot (s₁.sane.congr rfl rfl) s₁.pads hf
  have hf₁ : b₁.scratch.Fits (hidden map) := hf.of_prefix hgrow
  have hd₀ := hd (hf₁.of_prefix s₁.grows.scratch)
  refine ⟨?_, htokens⟩
  rw [← List.append_assoc]
  refine performs_choose hd₀ (first_of_denotes hd₀ (s₁.denotes hf₁) s₁.grows.scratch) htest hgrow hf
    fun s s' hs => ?_
  simp only [Assign.exec?, Option.bind_eq_bind, Option.bind_eq_some_iff] at hs
  obtain ⟨truth, htruth, hs⟩ := hs
  cases truth with
  | true =>
    simp only [↓reduceIte, Option.bind_eq_some_iff] at hs
    obtain ⟨c, hc, w, hw, hs⟩ := hs
    exact .inl ⟨htruth, c, w, (target?_eq_some hc).1, (target?_eq_some hc).2, hw,
      (Option.some.inj hs).symm⟩
  | false => exact .inr ⟨htruth, (Option.some.inj hs).symm⟩

lemma performs_combined {r d : Ref} {op : Operator} (hmode : dest.mode ≠ .doubleDeref)
    (h : Yields (Assignment.afterOperator {} dest address "=") b code b')
    (ht : b.tokens = r.tokens ++ op.token :: (d.tokens ++ ";" :: rest)) (hr : Assign.IsFirst r)
    (hop : op.IsValid) (hvalid : d.IsValid) :
    Performs (hidden map) R code ((Assign.combine dest' r op d).exec? map t) ∧
    b'.tokens = rest := by
  have hne := (token_of_operator hop).1
  simp only [List.mem_cons, not_or] at hne
  obtain ⟨lhs, before, code', b₁, ds, s₁, rfl, hrest⟩ :=
    operation_of_first map h ht hr ⟨hne.2.2.1, hne.2.2.2.1⟩ hslot hb hpads
  rw [if_neg hne.1, if_neg hne.2.1] at hrest
  have hsane : Workbench.Sane { b₁ with tokens := d.tokens ++ ";" :: rest, diagnostics := ds } :=
    s₁.sane.congr rfl rfl
  have hgrow := ((Assignment.careful_binary {} lhs dest op.token).grows hsane hrest).2
  have hf₁ : b₁.scratch.Fits (hidden map) := hf.of_prefix hgrow.scratch
  have hd₀ := hd (hf₁.of_prefix s₁.grows.scratch)
  refine performs_binary op hrest rfl hop hvalid hslot hsane s₁.pads hf hd₀
    (first_of_denotes hd₀ (s₁.denotes hf₁) s₁.grows.scratch) hmode fun s s' hs => ?_
  simp only [Assign.exec?, Option.bind_eq_bind, Option.bind_eq_some_iff] at hs
  obtain ⟨c, hc, x, hx, y, hy, w, hw, hs⟩ := hs
  exact ⟨c, x, y, w, hc, hx, hy, hw, (Option.some.inj hs).symm⟩

lemma performs_negated {d : Ref} (hmode : dest.mode ≠ .doubleDeref)
    (h : Yields (Assignment.afterOperator {} dest address "=") b code b')
    (ht : b.tokens = "-" :: (d.tokens ++ ";" :: rest)) (hvalid : d.IsValid) :
    Performs (hidden map) R code ((Assign.negate dest' d).exec? map t) ∧ b'.tokens = rest := by
  rw [Assignment.afterOperator, if_pos rfl] at h
  simp only [Assignment.firstOperand, Assignment.operation, yields_bind, yields_lift, yields_pure,
    on_peek, on_pop, ht, Tokens.peek, Prod.exists] at h
  obtain ⟨lhs, before, b₁, ⟨_, b₂, hpeek, h₁⟩, _, b₃, hpop, code', b₄, ⟨_, b₅, hcheck, h⟩, rfl,
    rfl⟩ := h
  obtain ⟨rfl, rfl⟩ := Prod.mk.inj hpeek
  rw [if_pos rfl, yields_pure, Prod.mk.injEq] at h₁
  obtain ⟨⟨rfl, rfl⟩, rfl⟩ := h₁
  simp only [ht, Tokens.rest] at hpop
  obtain ⟨rfl, rfl⟩ := Prod.mk.inj hpop
  obtain ⟨ds, -, hds⟩ := on_checkBounds .source (Backed.constant 0).toOperand
    { b₁ with tokens := d.tokens ++ ";" :: rest }
  obtain ⟨-, rfl⟩ := Prod.mk.inj (hds.symm.trans hcheck)
  rw [if_neg (by decide), if_neg (by decide)] at h
  have hsane : Workbench.Sane { b₁ with tokens := d.tokens ++ ";" :: rest, diagnostics := ds } :=
    hb.congr rfl rfl
  have hgrow := ((Assignment.careful_binary {} _ dest "-").grows hsane h).2
  have hd₀ := hd (hf.of_prefix hgrow.scratch)
  refine performs_binary (.single "-" .sub) h rfl rfl hvalid hslot hsane hpads hf hd₀
    (first_of_denotes hd₀ (denotes_constant _ _ _ 0) (List.prefix_refl _)) hmode fun s s' hs => ?_
  simp only [Assign.exec?, Option.bind_eq_bind, Option.bind_eq_some_iff] at hs
  obtain ⟨c, hc, y, hy, hs⟩ := hs
  exact ⟨c, 0, y, 0 - y, hc, rfl, hy, rfl, (Option.some.inj hs).symm⟩

lemma performs_updated {d : Ref} {op : Operator} (hmode : dest.mode ≠ .doubleDeref)
    (h : Yields (Assignment.afterOperator {} dest address (op.token ++ "=")) b code b')
    (ht : b.tokens = d.tokens ++ ";" :: rest) (hop : op.IsValid) (hvalid : d.IsValid) :
    Performs (hidden map) R code ((Assign.update dest' op d).exec? map t) ∧ b'.tokens = rest := by
  obtain ⟨hne, hcompound, heq⟩ := token_of_operator hop
  simp only [List.mem_cons, not_or] at hne heq
  rw [Assignment.afterOperator, if_neg heq.1, if_neg (not_or.mpr ⟨heq.2.1, heq.2.2.1⟩),
    hcompound] at h
  simp only [Assignment.operation, yields_bind, yields_lift, yields_pure] at h
  obtain ⟨code', b₁, ⟨_, b₂, hcheck, h⟩, rfl, rfl⟩ := h
  obtain ⟨ds, -, hds⟩ := on_checkBounds .source (Backed.ofOperand dest.read.toOperand).toOperand b
  obtain ⟨-, rfl⟩ := Prod.mk.inj (hds.symm.trans hcheck)
  rw [if_neg hne.1, if_neg hne.2.1] at h
  have hsane : Workbench.Sane { b with diagnostics := ds } := hb.congr rfl rfl
  have hgrow := ((Assignment.careful_binary {} _ dest op.token).grows hsane h).2
  have hd₀ := hd (hf.of_prefix hgrow.scratch)
  have hperforms := performs_binary (f := (Assign.update dest' op d).exec? map t) op h ht hop hvalid
    hslot hsane hpads hf hd₀ (first_of_read hd₀ hmode) hmode fun s s' hs => ?_
  · simpa only [List.append_nil] using hperforms
  · simp only [Assign.exec?, Option.bind_eq_bind, Option.bind_eq_some_iff] at hs
    obtain ⟨c, hc, y, hy, w, hw, hs⟩ := hs
    exact ⟨c, _, y, w, hc, congrArg _ (target?_eq_some hc).1, hy, hw, (Option.some.inj hs).symm⟩

end AfterDestination

/-- The code of an assignment does what the assignment means. -/
theorem performs_lower {a : Assign} (h : Yields (Assignment.lower {}) b code b')
    (ht : b.tokens = a.tokens ++ rest) (hvalid : a.IsValid)
    (hslot : ∀ owner name, R.word (.slot owner name) = ⟨.constant, 0⟩) (hb : b.Sane)
    (hpads : t.Pads b.globals) (hf : b'.scratch.Fits (hidden map)) :
    Performs (hidden map) R code (a.exec? map t) ∧ b'.tokens = rest := by
  obtain ⟨hdvalid, -, htail⟩ := hvalid
  rw [Assignment.lower_eq] at h
  simp only [yields_bind, yields_lift, Prod.exists] at h
  obtain ⟨dest, address, b₁, href, _, b₂, hcheck, eq, b₃, hpop, h⟩ := h
  rw [Assign.tokens, List.append_assoc] at ht
  have hpeek : Tokens.peek (a.tail ++ rest) ≠ "." ∧ Tokens.peek (a.tail ++ rest) ≠ "[" := by
    cases a with
    | update dest op d =>
      have hne := (token_of_operator htail.1).2.2
      simp only [List.mem_cons, not_or] at hne
      exact ⟨hne.2.2.2.1, hne.2.2.2.2.1⟩
    | _ => simp [Assign.tail, Tokens.peek]
  have s₁ := refers_of_reference map href ht hdvalid hpeek hslot hb hpads
  obtain ⟨ds, -, hds⟩ := on_checkBounds .destination dest.toOperand b₁
  obtain ⟨-, rfl⟩ := Prod.mk.inj (hds.symm.trans hcheck)
  simp only [on_pop, s₁.tokens] at hpop
  obtain ⟨rfl, rfl⟩ := Prod.mk.inj hpop
  have hsane : ∀ ts, Workbench.Sane { b₁ with tokens := ts, diagnostics := ds } := fun _ =>
    s₁.sane.congr rfl rfl
  cases a with
  | copy dest' r =>
    exact performs_copied (b := { b₁ with tokens := _, diagnostics := ds }) s₁.denotes
      hslot (hsane _) s₁.pads hf h (by simp [Assign.tail, Tokens.rest]) htail
  | choose dest' r x op y =>
    exact performs_chosen (b := { b₁ with tokens := _, diagnostics := ds }) s₁.denotes
      hslot (hsane _) s₁.pads hf h (by simp [Assign.tail, Tokens.rest]) htail.1 htail.2.1 htail.2.2
  | combine dest' r op d =>
    exact performs_combined (b := { b₁ with tokens := _, diagnostics := ds }) s₁.denotes
      hslot (hsane _) s₁.pads hf (s₁.mode rfl) h (by simp [Assign.tail, Tokens.rest]) htail.1
      htail.2.1 htail.2.2
  | negate dest' d =>
    exact performs_negated (b := { b₁ with tokens := _, diagnostics := ds }) s₁.denotes
      hslot (hsane _) s₁.pads hf (s₁.mode rfl) h (by simp [Assign.tail, Tokens.rest]) htail
  | update dest' op d =>
    exact performs_updated (b := { b₁ with tokens := _, diagnostics := ds }) s₁.denotes
      hslot (hsane _) s₁.pads hf (s₁.mode rfl) h (by simp [Assign.tail, Tokens.rest]) htail.1
      htail.2
  | increment dest' =>
    rw [show Tokens.peek ((Assign.increment dest').tail ++ rest) = "++" from rfl,
      Assignment.afterOperator, if_neg (by decide), if_pos (.inl rfl)] at h
    simp only [yields_bind, yields_pure] at h
    obtain ⟨_, b₄, hexpect, rfl, rfl⟩ := h
    obtain rfl := (yields_expect (by rfl)).mp hexpect
    refine ⟨performs_step (s₁.denotes hf) (s₁.mode rfl) hf fun s s' hs => ?_, rfl⟩
    simp only [Assign.exec?, Option.bind_eq_bind, Option.bind_eq_some_iff] at hs
    obtain ⟨c, hc, hs⟩ := hs
    exact ⟨c, hc, (Option.some.inj hs).symm⟩
  | decrement dest' =>
    rw [show Tokens.peek ((Assign.decrement dest').tail ++ rest) = "--" from rfl,
      Assignment.afterOperator, if_neg (by decide), if_pos (.inr rfl)] at h
    simp only [yields_bind, yields_pure] at h
    obtain ⟨_, b₄, hexpect, rfl, rfl⟩ := h
    obtain rfl := (yields_expect (by rfl)).mp hexpect
    refine ⟨performs_step (s₁.denotes hf) (s₁.mode rfl) hf fun s s' hs => ?_, rfl⟩
    simp only [Assign.exec?, Option.bind_eq_bind, Option.bind_eq_some_iff] at hs
    obtain ⟨c, hc, hs⟩ := hs
    refine ⟨c, hc, (Option.some.inj hs).symm.trans ?_⟩
    rw [UInt16.sub_eq_add_neg]
    rfl

end Lower
end Structured
end CogolToolchain
