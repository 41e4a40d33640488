import CogolToolchain.Compile.Workbench
import CogolToolchain.Proofs.Layout.ScratchPool
import CogolToolchain.Proofs.Layout.SymbolTable
import Mathlib.Data.List.Perm.Subperm

/-!
What work on the workbench can do.

Work never takes back what was there: cells and numbers are only added, and so are diagnostics.
`Work.Keeps` says so of work that always has a result, and `Attempt.Safe` of work that may give up,
which moreover reports an error whenever it does. So in a program without errors every attempt has a
result, and `Attempt.Yields` describes how it came about. Work that advances (`Work.Advances`,
`Attempt.Careful`) moreover takes tokens from the front only, and it says whether it takes numbers.
-/

namespace CogolToolchain

/-! ### Tokens -/

namespace Tokens

lemma rest_suffix (ts : List Token) : rest ts <:+ ts := by
  cases ts with
  | nil => exact List.suffix_refl _
  | cons t ts => exact List.suffix_cons t ts

lemma eat?_suffix {expected : Token} {ts ts' : List Token} (h : eat? expected ts = some ts') :
    ts' <:+ ts := by
  rw [eat?] at h
  split at h
  · rw [← Option.some.inj h]
    exact rest_suffix ts
  · simp at h

lemma splitThrough_suffix (stops ts : List Token) : (splitThrough stops ts).2 <:+ ts :=
  ⟨_, splitThrough_append stops ts⟩

lemma peek_mem (ts : List Token) : peek ts ∈ "" :: ts := by
  cases ts with
  | nil => exact List.mem_singleton_self _
  | cons t ts => exact List.mem_cons_of_mem _ List.mem_cons_self

lemma peek_rest_mem (ts : List Token) : peek (rest ts) ∈ "" :: ts :=
  List.cons_subset_cons "" (rest_suffix ts).subset (peek_mem (rest ts))

lemma splitStatement_suffix (ts : List Token) : (splitStatement ts).2 <:+ rest ts := by
  cases ts with
  | nil => exact List.suffix_refl _
  | cons t ts =>
    simp only [splitStatement, splitThrough]
    split
    · exact List.suffix_refl _
    · exact splitThrough_suffix [";"] ts

lemma length_rest_lt {ts : List Token} (h : ts ≠ []) : (rest ts).length < ts.length := by
  cases ts with
  | nil => exact absurd rfl h
  | cons t ts => exact Nat.lt_succ_self _

lemma ne_nil_of_peek {ts : List Token} (h : peek ts ≠ "") : ts ≠ [] := by
  rintro rfl
  exact h rfl

end Tokens

/-! ### Workbenches -/

def Problem.IsFatal (p : Problem) : Prop := p.kind.severity = .error

instance (p : Problem) : Decidable p.IsFatal := inferInstanceAs (Decidable (_ = _))

namespace Workbench

def Clean (b : Workbench) : Prop := ∀ d ∈ b.diagnostics, d.isError = false

/-- The cells that are named as scratch cells are those of the pool, each under its own name, and
the program counter and the display come first. -/
structure Sane (b : Workbench) : Prop where
  named : ∀ {n a}, b.scratch.addresses[n]? = some a → b.globals.cells[a]? = some (scratchName n)
  pooled : ∀ {n a}, b.globals.cells[a]? = some (scratchName n) → a ∈ b.scratch.addresses
  counter : b.globals.cells[0]? = some programCounterName
  display : b.globals.cells[1]? = some displayName

/-- What was there on the first workbench is still there on the second one; of cells, only scratch
cells are new. -/
structure Grows (b b' : Workbench) : Prop where
  globals : b.globals.Pads b'.globals
  scratch : b.scratch.addresses <+: b'.scratch.addresses
  nextId : b.nextId ≤ b'.nextId
  diagnostics : b.diagnostics <+: b'.diagnostics

section

variable {b b' b'' : Workbench} {a t : Nat} {name : String}

lemma Sane.mem_addresses_iff (h : b.Sane) :
    a ∈ b.scratch.addresses ↔ ∃ n, b.globals.cells[a]? = some (scratchName n) := by
  constructor
  · intro ha
    obtain ⟨n, hn⟩ := List.getElem?_of_mem ha
    exact ⟨n, h.named hn⟩
  · rintro ⟨n, hn⟩
    exact h.pooled hn

lemma Sane.nodup (h : b.Sane) : b.scratch.addresses.Nodup := by
  rw [List.nodup_iff_getElem?_ne_getElem?]
  intro i j hij hj heq
  have ha := List.getElem?_eq_getElem hj
  have hi := h.named (heq.trans ha)
  rw [h.named ha, Option.some.injEq] at hi
  exact absurd (scratchName_injective hi) (by omega)

lemma Sane.lt_nextFree (h : b.Sane) (ha : a ∈ b.scratch.addresses) : a < b.globals.nextFree := by
  obtain ⟨n, hn⟩ := h.mem_addresses_iff.mp ha
  exact (Array.getElem?_eq_some_iff.mp hn).1

lemma Sane.length_le (h : b.Sane) : b.scratch.addresses.length ≤ b.globals.nextFree := by
  have hsub : b.scratch.addresses ⊆ List.range b.globals.nextFree := fun a ha =>
    List.mem_range.mpr (h.lt_nextFree ha)
  simpa using (List.subperm_of_subset h.nodup hsub).length_le

lemma Sane.two_le (h : b.Sane) (ha : a ∈ b.scratch.addresses) : 2 ≤ a := by
  obtain ⟨n, hn⟩ := h.mem_addresses_iff.mp ha
  by_contra hlt
  have hcase : a = 0 ∨ a = 1 := by omega
  rcases hcase with rfl | rfl
  · have heq := hn.symm.trans h.counter
    rw [Option.some.injEq] at heq
    exact programCounterName_ne_scratchName n heq.symm
  · have heq := hn.symm.trans h.display
    rw [Option.some.injEq] at heq
    have hname : isReserved displayName = false := by decide
    exact ne_scratchName hname n heq.symm

lemma Sane.congr (h : b.Sane) (hg : b'.globals = b.globals) (hs : b'.scratch = b.scratch) :
    b'.Sane := by
  obtain ⟨tokens, globals, scratch, nextId, diagnostics⟩ := b'
  obtain rfl : globals = b.globals := hg
  obtain rfl : scratch = b.scratch := hs
  exact ⟨h.named, h.pooled, h.counter, h.display⟩

lemma Grows.refl (b : Workbench) : b.Grows b where
  globals := .refl _
  scratch := List.prefix_refl _
  nextId := Nat.le_refl _
  diagnostics := List.prefix_refl _

lemma Grows.trans (h : b.Grows b') (h' : b'.Grows b'') : b.Grows b'' where
  globals := h.globals.trans h'.globals
  scratch := h.scratch.trans h'.scratch
  nextId := Nat.le_trans h.nextId h'.nextId
  diagnostics := h.diagnostics.trans h'.diagnostics

lemma Grows.clean (h : b.Grows b') (hc : b'.Clean) : b.Clean := fun d hd =>
  hc d (h.diagnostics.subset hd)

lemma Grows.reports (h : b.Grows b') (h' : b'.Grows b'') (hne : b''.diagnostics ≠ b'.diagnostics) :
    b''.diagnostics ≠ b.diagnostics := by
  intro heq
  have hle := h.diagnostics.length_le
  have hle' := h'.diagnostics.length_le
  rw [heq] at hle'
  refine hne (h'.diagnostics.eq_of_length ?_).symm
  rw [heq]
  omega

lemma pool_keeps (hb : b.Sane) {p : ScratchPool} (hp : p.addresses = b.scratch.addresses) :
    Sane { b with scratch := p } ∧ b.Grows { b with scratch := p } := by
  refine ⟨⟨fun h => hb.named (by rwa [← hp]), fun h => ?_, hb.counter, hb.display⟩,
    .refl _, by simp [hp], Nat.le_refl _, List.prefix_refl _⟩
  dsimp only
  rw [hp]
  exact hb.pooled h

/-- The tokens on the second workbench are the last ones of those on the first, and of its cells
only scratch cells are new. -/
structure Consumed (b b' : Workbench) : Prop where
  tokens : b'.tokens <:+ b.tokens
  globals : b.globals.Pads b'.globals

lemma Consumed.trans (h : b.Consumed b') (h' : b'.Consumed b'') : b.Consumed b'' :=
  ⟨h'.tokens.trans h.tokens, h.globals.trans h'.globals⟩

lemma consumed_tokens {ts : List Token} (h : ts <:+ b.tokens) :
    b.Consumed { b with tokens := ts } :=
  ⟨h, .refl _⟩

/-- The second workbench is the first one after some work, which takes no number if `numbers` is
false. -/
structure Advances (numbers : Bool) (b b' : Workbench) : Prop where
  keeps : b.Sane → b'.Sane ∧ b.Grows b'
  consumed : b.Consumed b'
  nextId : numbers = false → b'.nextId = b.nextId

lemma Advances.refl (b : Workbench) : b.Advances false b :=
  ⟨fun hb => ⟨hb, .refl b⟩, consumed_tokens (List.suffix_refl _), fun _ => rfl⟩

lemma Advances.trans {m n : Bool} (h : b.Advances m b') (h' : b'.Advances n b'') :
    b.Advances (m || n) b'' where
  keeps hb := ⟨(h'.keeps (h.keeps hb).1).1, (h.keeps hb).2.trans (h'.keeps (h.keeps hb).1).2⟩
  consumed := h.consumed.trans h'.consumed
  nextId hn := by
    rw [Bool.or_eq_false_iff] at hn
    exact (h'.nextId hn.2).trans (h.nextId hn.1)

lemma Advances.mono {numbers : Bool} (h : b.Advances false b') : b.Advances numbers b' :=
  ⟨h.keeps, h.consumed, fun _ => h.nextId rfl⟩

lemma advances_tokens {ts : List Token} (h : ts <:+ b.tokens) :
    b.Advances false { b with tokens := ts } where
  keeps hb := ⟨hb.congr rfl rfl, .refl _, List.prefix_refl _, Nat.le_refl _, List.prefix_refl _⟩
  consumed := consumed_tokens h
  nextId _ := rfl

lemma advances_pool {p : ScratchPool} (h : p.addresses = b.scratch.addresses) :
    b.Advances false { b with scratch := p } :=
  ⟨fun hb => pool_keeps hb h, ⟨List.suffix_refl _, .refl _⟩, fun _ => rfl⟩

lemma advances_report (d : Diagnostic) :
    b.Advances false { b with diagnostics := b.diagnostics ++ [d] } where
  keeps hb := ⟨hb.congr rfl rfl, .refl _, List.prefix_refl _, Nat.le_refl _, List.prefix_append _ _⟩
  consumed := ⟨List.suffix_refl _, .refl _⟩
  nextId _ := rfl

end
end Workbench

open Workbench

/-! ### Work with a result -/

namespace Work

def on {α : Type} (w : Work α) (b : Workbench) : α × Workbench := w.run b

def Keeps {α : Type} (w : Work α) : Prop :=
  ∀ b, b.Sane → (w.on b).2.Sane ∧ b.Grows (w.on b).2

/-- Work that takes tokens from the front only, and adds no cells but scratch cells. -/
def Consumes {α : Type} (w : Work α) : Prop := ∀ b : Workbench, b.Consumed (w.on b).2

/-- Work that only adds to a workbench and takes tokens from the front only. It takes no number if
`numbers` is false. -/
def Advances {α : Type} (numbers : Bool) (w : Work α) : Prop :=
  ∀ b : Workbench, b.Advances numbers (w.on b).2

section

variable {α β : Type}

@[simp] lemma on_pure (a : α) (b : Workbench) : (pure a : Work α).on b = (a, b) := (rfl)

@[simp] lemma on_bind (w : Work α) (f : α → Work β) (b : Workbench) :
    (w >>= f).on b = (f (w.on b).1).on (w.on b).2 := (rfl)

@[simp] lemma on_map (f : α → β) (w : Work α) (b : Workbench) :
    (f <$> w).on b = (f (w.on b).1, (w.on b).2) := (rfl)

@[simp] lemma on_get (b : Workbench) : (get : Work Workbench).on b = (b, b) := (rfl)

@[simp] lemma on_set (b b' : Workbench) : (set b' : Work Unit).on b = ((), b') := (rfl)

@[simp] lemma on_modify (f : Workbench → Workbench) (b : Workbench) :
    (modify f : Work Unit).on b = ((), f b) := (rfl)

lemma Advances.keeps {n : Bool} {w : Work α} (h : Advances n w) : Keeps w := fun b => (h b).keeps

lemma Advances.consumes {n : Bool} {w : Work α} (h : Advances n w) : Consumes w :=
  fun b => (h b).consumed

lemma Advances.mono {n : Bool} {w : Work α} (h : Advances false w) : Advances n w :=
  fun b => (h b).mono

lemma Advances.of_on {n : Bool} {w : Work α} {a : α} {b b' : Workbench} (h : Advances n w)
    (hon : w.on b = (a, b')) : b.Advances n b' := by
  have hb := h b
  rwa [hon] at hb

lemma advances_pure (a : α) : Advances false (pure a) := .refl

lemma Advances.bind {m n : Bool} {w : Work α} {f : α → Work β} (h : Advances m w)
    (hf : ∀ a, Advances n (f a)) : Advances (m || n) (w >>= f) := fun b => (h b).trans (hf _ _)

lemma advances_get : Advances false get := .refl

lemma keeps_of_tokens {w : Work α} (h : ∀ b, ∃ ts, (w.on b).2 = { b with tokens := ts }) :
    Keeps w := by
  intro b hb
  obtain ⟨ts, hts⟩ := h b
  rw [hts]
  exact ⟨hb.congr rfl rfl, .refl _, List.prefix_refl _, Nat.le_refl _, List.prefix_refl _⟩

lemma keeps_tokens (f : Workbench → List Token) :
    Keeps (modify fun b => { b with tokens := f b }) := keeps_of_tokens fun _ => ⟨_, rfl⟩

lemma advances_reportAt (context : String) (p : Problem) : Advances false (reportAt context p) :=
  fun _ =>
  Workbench.advances_report _

lemma advances_report (p : Problem) : Advances false (report p) := advances_reportAt "" p

lemma advances_reportThrough (stops : List Token) (p : Problem) :
    Advances false (reportThrough stops p) := fun b =>
  (advances_tokens (Tokens.splitThrough_suffix stops b.tokens)).trans (advances_reportAt _ p _)

lemma advances_reportStatement (p : Problem) : Advances false (reportStatement p) :=
  advances_reportThrough [";"] p

lemma advances_peek : Advances false peek := .refl

lemma advances_pop : Advances false pop := fun b => advances_tokens (Tokens.rest_suffix b.tokens)

lemma advances_eat (expected : Token) : Advances false (eat expected) := by
  intro b
  rcases h : Tokens.eat? expected b.tokens with _ | rest
  · simpa [eat, h] using Workbench.Advances.refl b
  · simpa [eat, h] using advances_tokens (Tokens.eat?_suffix h)

lemma advances_takeId : Advances true takeId := fun b =>
  ⟨fun hb => ⟨hb.congr rfl rfl, .refl _, List.prefix_refl _, Nat.le_succ b.nextId,
    List.prefix_refl _⟩, ⟨List.suffix_refl _, .refl _⟩, by simp⟩

lemma advances_releaseCell (t : Nat) : Advances false (releaseCell t) := fun b =>
  advances_pool (b.scratch.addresses_release t)

lemma advances_releaseCells (ts : List Nat) : Advances false (releaseCells ts) := fun b =>
  advances_pool (b.scratch.addresses_foldl_release ts)

/-- What taking a scratch cell does: the cell was not in use, and its use is all that changes. -/
structure Takes (b : Workbench) (t : Nat) (b' : Workbench) : Prop where
  sane : b'.Sane
  grows : b.Grows b'
  mem : t ∈ b'.scratch.addresses
  free : ¬ b.scratch.Busy t
  busy : ∀ a, b'.scratch.Busy a ↔ b.scratch.Busy a ∨ a = t
  tokens : b'.tokens = b.tokens
  nextId : b'.nextId = b.nextId
  diagnostics : b'.diagnostics = b.diagnostics

lemma takes_new {b : Workbench} (hb : b.Sane) :
    Takes b b.globals.nextFree { b with
      globals := b.globals.declareWord b.scratch.nextName
      scratch := b.scratch.add b.globals.nextFree true } := by
  have hlen : b.scratch.size = b.scratch.addresses.length := by
    simp [ScratchPool.size, ScratchPool.addresses]
  have hext := SymbolTable.extends_declareWord b.globals b.scratch.nextName
  refine ⟨⟨?_, ?_, hext.getElem?_eq_some hb.counter, hext.getElem?_eq_some hb.display⟩,
    ⟨b.globals.pads_declareWord b.scratch.size, ?_, Nat.le_refl _, List.prefix_refl _⟩, ?_, ?_,
    fun _ => ScratchPool.busy_add, rfl, rfl, rfl⟩
  · intro n a ha
    rw [ScratchPool.addresses_add, List.getElem?_append] at ha
    split at ha
    · exact hext.getElem?_eq_some (hb.named ha)
    · rename_i hn
      rw [List.getElem?_singleton] at ha
      obtain rfl : n = b.scratch.size := by
        split at ha
        · omega
        · simp at ha
      simp only [hlen, Nat.sub_self, ↓reduceIte, Option.some.injEq] at ha
      rw [← ha]
      exact SymbolTable.getElem?_declareWord _ _
  · intro n a ha
    rw [ScratchPool.addresses_add, List.mem_append, List.mem_singleton]
    rcases Nat.lt_or_ge a b.globals.nextFree with hlt | hge
    · exact .inl (hb.pooled (by rwa [hext.getElem? hlt] at ha))
    · exact .inr (SymbolTable.getElem?_declareWord_ge hge ha).1
  · simp
  · simp
  · intro hbusy
    exact absurd (hb.lt_nextFree hbusy.mem_addresses) (by omega)

lemma takes_allocScratch {b : Workbench} (hb : b.Sane) :
    Takes b (allocScratch.on b).1 (allocScratch.on b).2 := by
  rcases h : b.scratch.acquire? with _ | ⟨t, p⟩
  · have hrun : allocScratch.on b = (b.globals.nextFree, { b with
        globals := b.globals.declareWord b.scratch.nextName
        scratch := b.scratch.add b.globals.nextFree true }) := by
      simp [allocScratch, h]
    rw [hrun]
    exact takes_new hb
  · have hrun : allocScratch.on b = (t, { b with scratch := p }) := by
      simp [allocScratch, h]
    obtain ⟨haddr, hmem, hfree, hbusy⟩ := ScratchPool.acquire?_eq_some hb.nodup h
    obtain ⟨hs, hg⟩ := pool_keeps hb haddr
    rw [hrun]
    exact ⟨hs, hg, haddr ▸ hmem, hfree, hbusy, rfl, rfl, rfl⟩

lemma advances_allocScratch : Advances false allocScratch := by
  intro b
  refine ⟨fun hb => ⟨(takes_allocScratch hb).sane, (takes_allocScratch hb).grows⟩, ?_, fun _ => ?_⟩
  · rcases h : b.scratch.acquire? with _ | ⟨u, p⟩
    · simpa [allocScratch, h] using
        (⟨List.suffix_refl _, b.globals.pads_declareWord b.scratch.size⟩ : b.Consumed { b with
          globals := b.globals.declareWord b.scratch.nextName
          scratch := b.scratch.add b.globals.nextFree true })
    · simpa [allocScratch, h] using (⟨List.suffix_refl _, .refl _⟩ : b.Consumed
        { b with scratch := p })
  · rcases h : b.scratch.acquire? with _ | ⟨u, p⟩ <;> simp [allocScratch, h]

lemma advances_reuseScratch (a : Backed) : Advances false (reuseScratch a) := by
  unfold reuseScratch
  split
  · exact advances_pure _
  · exact advances_allocScratch

lemma advances_reuseScratchExcept (a keep : Backed) :
    Advances false (reuseScratchExcept a keep) := by
  unfold reuseScratchExcept
  split
  · split
    · exact advances_allocScratch
    · exact advances_pure _
  · exact advances_allocScratch

end
end Work

/-! ### Work that may give up -/

namespace Attempt

open Work

/-- The result of an attempt on `b`, if it has one, and what it leaves. -/
def on {α : Type} (x : Attempt α) (b : Workbench) : Option α × Workbench := x.run.on b

/-- Work that only adds to a workbench, and reports an error if it gives up. -/
structure Safe {α : Type} (x : Attempt α) : Prop where
  keeps : Keeps x.run
  fault : ∀ b, (x.on b).1 = none → ¬ (x.on b).2.Clean
  reports : ∀ b, b.Sane → (x.on b).1 = none → (x.on b).2.diagnostics ≠ b.diagnostics

/-- On `b`, the work only adds to the workbench, and reports an error if it gives up. -/
structure SafeOn {α : Type} (b : Workbench) (x : Attempt α) : Prop where
  keeps : b.Sane → (x.on b).2.Sane ∧ b.Grows (x.on b).2
  fault : (x.on b).1 = none → ¬ (x.on b).2.Clean
  reports : b.Sane → (x.on b).1 = none → (x.on b).2.diagnostics ≠ b.diagnostics

/-- An attempt that takes tokens from the front only, and adds no cells but scratch cells. -/
def Absorbs {α : Type} (x : Attempt α) : Prop := Consumes x.run

/-- A safe attempt that takes tokens from the front only. It takes no number if `numbers` is
false. -/
structure Careful {α : Type} (numbers : Bool) (x : Attempt α) : Prop where
  safe : Safe x
  advances : Work.Advances numbers x.run

/-- The attempt on `b` has the result `a` and leaves `b'`. -/
def Yields {α : Type} (x : Attempt α) (b : Workbench) (a : α) (b' : Workbench) : Prop :=
  x.on b = (some a, b')

section

variable {α β : Type} {x : Attempt α} {f : α → Attempt β} {a a' : α} {r : β} {b b' : Workbench}

@[simp] lemma on_pure (a : α) (b : Workbench) : (pure a : Attempt α).on b = (some a, b) := (rfl)

lemma on_bind (x : Attempt α) (f : α → Attempt β) (b : Workbench) :
    (x >>= f).on b = match x.on b with
      | (some a, b') => (f a).on b'
      | (none, b') => (none, b') := by
  rw [on, OptionT.run_bind, Option.elimM, Work.on_bind]
  rw [show x.run.on b = x.on b from rfl]
  rcases x.on b with ⟨_ | a, b'⟩ <;> rfl

@[simp] lemma on_lift (w : Work α) (b : Workbench) :
    (liftM w : Attempt α).on b = (some (w.on b).1, (w.on b).2) := (rfl)

@[simp] lemma on_get (b : Workbench) : (get : Attempt Workbench).on b = (some b, b) := (rfl)

@[simp] lemma on_set (b b' : Workbench) : (set b' : Attempt Unit).on b = (some (), b') := (rfl)

@[simp] lemma on_failure (b : Workbench) : (failure : Attempt α).on b = (none, b) := (rfl)

lemma yields_of_on {x : Attempt α} (h : (x.on b).1 = some a) : Yields x b a (x.on b).2 :=
  Prod.ext h rfl

@[simp] lemma yields_pure : Yields (pure a : Attempt α) b a' b' ↔ a' = a ∧ b' = b := by
  simp [Yields, eq_comm]

@[simp] lemma yields_bind :
    Yields (x >>= f) b r b' ↔ ∃ a b₁, Yields x b a b₁ ∧ Yields (f a) b₁ r b' := by
  simp only [Yields, on_bind]
  rcases x.on b with ⟨_ | a, b₁⟩ <;> simp

@[simp] lemma yields_map {g : α → β} :
    Yields (g <$> x) b r b' ↔ ∃ a, Yields x b a b' ∧ r = g a := by
  rw [map_eq_pure_bind, yields_bind]
  simp only [yields_pure]
  constructor
  · rintro ⟨a, b₁, h, rfl, rfl⟩
    exact ⟨a, h, rfl⟩
  · rintro ⟨a, h, rfl⟩
    exact ⟨a, b', h, rfl, rfl⟩

@[simp] lemma yields_lift {w : Work α} : Yields (liftM w) b a b' ↔ w.on b = (a, b') := by
  rcases h : w.on b with ⟨a', b''⟩
  simp [Yields, h]

@[simp] lemma yields_get {r : Workbench} : Yields get b r b' ↔ r = b ∧ b' = b := by
  simp [Yields, eq_comm]

@[simp] lemma yields_set {s : Workbench} {u : Unit} :
    Yields (set s : Attempt Unit) b u b' ↔ b' = s := by simp [Yields, eq_comm]

@[simp] lemma not_yields_failure : ¬ Yields (failure : Attempt α) b a b' := by simp [Yields]

@[simp] lemma not_yields_failStatement {p : Problem} :
    ¬ Yields (failStatement p : Attempt α) b a b' := by simp [failStatement]

@[simp] lemma not_yields_failHere {p : Problem} : ¬ Yields (failHere p : Attempt α) b a b' := by
  simp [failHere]

lemma safe_iff : Safe x ↔ ∀ b, SafeOn b x :=
  ⟨fun h b => ⟨h.1 b, h.2 b, h.3 b⟩, fun h =>
    ⟨fun b => (h b).1, fun b => (h b).2, fun b => (h b).3⟩⟩

lemma Safe.on (h : Safe x) (b : Workbench) : SafeOn b x := safe_iff.mp h b

lemma SafeOn.bind (h : SafeOn b x) (hf : ∀ a b', Yields x b a b' → SafeOn b' (f a)) :
    SafeOn b (x >>= f) := by
  obtain ⟨hkeeps, hfault, hreports⟩ := h
  rcases hr : x.on b with ⟨_ | a, b₁⟩
  · have hon : (x >>= f).on b = (none, b₁) := by rw [on_bind, hr]
    rw [hr] at hkeeps hfault hreports
    exact ⟨by rwa [hon], fun _ => hon ▸ hfault rfl, fun hb _ => hon ▸ hreports hb rfl⟩
  · have hon : (x >>= f).on b = (f a).on b₁ := by rw [on_bind, hr]
    obtain ⟨hkeeps', hfault', hreports'⟩ := hf a b₁ hr
    rw [hr] at hkeeps
    refine ⟨fun hb => ?_, hon ▸ hfault', fun hb hnone => ?_⟩
    · rw [hon]
      exact ⟨(hkeeps' (hkeeps hb).1).1, (hkeeps hb).2.trans (hkeeps' (hkeeps hb).1).2⟩
    · rw [hon] at hnone ⊢
      exact (hkeeps hb).2.reports (hkeeps' (hkeeps hb).1).2 (hreports' (hkeeps hb).1 hnone)

lemma Safe.bind (h : Safe x) (hf : ∀ a, Safe (f a)) : Safe (x >>= f) :=
  safe_iff.mpr fun b => (h.on b).bind fun a b' _ => (hf a).on b'

lemma not_clean_report {p : Problem} (hp : p.IsFatal) (b : Workbench) (context : String) :
    ¬ ((reportAt context p).on b).2.Clean := by
  intro h
  have := h (p.diagnostic context) (List.mem_append_right _ (by simp))
  simp only [Diagnostic.isError, Diagnostic.severity, Problem.diagnostic] at this
  rw [hp] at this
  simp at this

lemma reports_report (p : Problem) (b : Workbench) (context : String) :
    ((reportAt context p).on b).2.diagnostics ≠ b.diagnostics := by
  have hon : ((reportAt context p).on b).2.diagnostics = b.diagnostics ++ [p.diagnostic context] :=
    rfl
  simp [hon]

lemma Careful.absorbs {n : Bool} (h : Careful n x) : Absorbs x := h.advances.consumes

lemma Careful.mono {n : Bool} (h : Careful false x) : Careful n x := ⟨h.safe, h.advances.mono⟩

lemma Careful.of_yields {n : Bool} (h : Careful n x) (hy : Yields x b a b') : b.Advances n b' :=
  h.advances.of_on hy

lemma Careful.grows {n : Bool} (h : Careful n x) (hb : b.Sane) (hy : Yields x b a b') :
    b'.Sane ∧ b.Grows b' := (h.of_yields hy).keeps hb

lemma advances_bind {m n : Bool} (h : Work.Advances m x.run) (hf : ∀ a, Work.Advances n (f a).run) :
    Work.Advances (m || n) (x >>= f).run := by
  intro b
  have hx : b.Advances m (x.on b).2 := h b
  show b.Advances (m || n) ((x >>= f).on b).2
  rw [on_bind]
  generalize x.on b = r at hx
  obtain ⟨_ | a, b₁⟩ := r
  · exact hx.trans (Workbench.Advances.refl b₁).mono
  · exact hx.trans (hf a b₁)

lemma Careful.bind {m n : Bool} (h : Careful m x) (hf : ∀ a, Careful n (f a)) :
    Careful (m || n) (x >>= f) :=
  ⟨h.safe.bind fun a => (hf a).safe, advances_bind h.advances fun a => (hf a).advances⟩

lemma careful_lift {n : Bool} {w : Work α} (h : Work.Advances n w) :
    Careful n (liftM w : Attempt α) :=
  ⟨⟨h.keeps, by simp, by simp⟩, h⟩

lemma careful_pure (a : α) : Careful false (pure a : Attempt α) := careful_lift (advances_pure a)

lemma careful_setTokens {n : Bool} {f : Workbench → List Token} {g : Workbench → Attempt α}
    (hf : ∀ b, f b <:+ b.tokens) (hg : ∀ b, Careful n (g b)) : Careful n (do
      let b ← get
      set { b with tokens := f b }
      g b) := by
  have hrun : Work.Advances n (do
      let b ← get
      set { b with tokens := f b }
      g b : Attempt α).run := fun b => by
    have hnext := (advances_tokens (hf b)).trans ((hg b).advances { b with tokens := f b })
    rwa [Bool.false_or] at hnext
  exact ⟨⟨hrun.keeps, fun b => (hg b).safe.fault { b with tokens := f b },
    fun b hb => (hg b).safe.reports { b with tokens := f b } (hb.congr rfl rfl)⟩, hrun⟩

lemma careful_failThrough {stops : List Token} {p : Problem} (hp : p.IsFatal) :
    Careful false (do
      Work.reportThrough stops p
      failure : Attempt α) := by
  have hrun : Work.Advances false (do
      Work.reportThrough stops p
      failure : Attempt α).run := (advances_reportThrough stops p).bind fun _ => advances_pure none
  refine ⟨⟨hrun.keeps, fun b _ => ?_, fun b _ _ => ?_⟩, hrun⟩
  · exact not_clean_report hp { b with tokens := (Tokens.splitThrough stops b.tokens).2 } _
  · exact reports_report p { b with tokens := (Tokens.splitThrough stops b.tokens).2 } _

lemma careful_failStatement {p : Problem} (hp : p.IsFatal) :
    Careful false (failStatement p : Attempt α) := careful_failThrough hp

lemma careful_failHere {p : Problem} (hp : p.IsFatal) : Careful false (failHere p : Attempt α) := by
  have hrun : Work.Advances false (failHere p : Attempt α).run :=
    (advances_report p).bind fun _ => advances_pure none
  exact ⟨⟨hrun.keeps, fun b _ => not_clean_report hp b _, fun b _ _ => reports_report p b _⟩, hrun⟩

lemma careful_expect (t : Token) : Careful false (expect t) := by
  refine (careful_lift (advances_eat t)).bind fun eaten => ?_
  split
  · exact careful_pure ()
  · exact (careful_lift advances_peek).bind fun _ => careful_failStatement rfl

end
end Attempt

/-! ### Results -/

namespace Work

variable {b : Workbench} {t : Token} {ts : List Token}

@[simp] lemma on_peek (b : Workbench) : peek.on b = (Tokens.peek b.tokens, b) := (rfl)

@[simp] lemma on_pop (b : Workbench) :
    pop.on b = (Tokens.peek b.tokens, { b with tokens := Tokens.rest b.tokens }) := (rfl)

@[simp] lemma on_takeId (b : Workbench) :
    takeId.on b = (b.nextId, { b with nextId := b.nextId + 1 }) := (rfl)

@[simp] lemma on_releaseCell (u : Nat) (b : Workbench) :
    (releaseCell u).on b = ((), { b with scratch := b.scratch.release u }) := (rfl)

@[simp] lemma on_releaseCells (us : List Nat) (b : Workbench) :
    (releaseCells us).on b = ((), { b with scratch := us.foldl ScratchPool.release b.scratch }) :=
  (rfl)

@[simp] lemma on_release (a : Backed) (b : Workbench) :
    (release a).on b = ((), { b with scratch := a.cells.foldl ScratchPool.release b.scratch }) :=
  (rfl)

@[simp] lemma tokens_allocScratch (b : Workbench) : (allocScratch.on b).2.tokens = b.tokens := by
  rcases h : b.scratch.acquire? with _ | ⟨u, p⟩ <;> simp [allocScratch, h]

@[simp] lemma tokens_report (p : Problem) (b : Workbench) : ((report p).on b).2.tokens = b.tokens :=
  (rfl)

lemma on_eat_of_eq (h : b.tokens = t :: ts) : (eat t).on b = (true, { b with tokens := ts }) := by
  simp [eat, h, Tokens.eat?, Tokens.peek, Tokens.rest]

lemma on_eat (t : Token) (b : Workbench) : (eat t).on b =
    match Tokens.eat? t b.tokens with
    | some rest => (true, { b with tokens := rest })
    | none => (false, b) := by
  rcases h : Tokens.eat? t b.tokens <;> simp [eat, h]

lemma on_eat_of_ne (h : Tokens.peek b.tokens ≠ t) : (eat t).on b = (false, b) := by
  simp [eat, Tokens.eat?, h]

end Work

lemma Attempt.yields_expect {b b' : Workbench} {t : Token} {ts : List Token} {u : Unit}
    (h : b.tokens = t :: ts) : Yields (expect t) b u b' ↔ b' = { b with tokens := ts } := by
  simp [expect, Work.on_eat_of_eq h]

lemma Attempt.yields_expect_iff {b b' : Workbench} {t : Token} {u : Unit} :
    Yields (expect t) b u b' ↔ ∃ ts, Tokens.eat? t b.tokens = some ts ∧
    b' = { b with tokens := ts } := by
  simp only [expect, yields_bind, yields_lift, Work.on_eat]
  cases Tokens.eat? t b.tokens <;> simp

end CogolToolchain
