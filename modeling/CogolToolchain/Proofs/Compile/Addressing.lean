import CogolToolchain.Proofs.Compile.MemoryMap
import CogolToolchain.Proofs.Grammar.Reference
import Mathlib.Data.Bool.AllAny

/-!
References denote their cells.

At every point of a compilation at which a reference can be lowered (`Session.Reached`), the code of
the reference runs straight through, and after it the operand stands for what the reference means
(`Reference.Denoted`), as long as the machine has all the scratch cells there are. A program may
declare so many cells that a scratch cell has no address any more: the code then writes the program
counter instead.
-/

namespace CogolToolchain

open Memory Machine Work Attempt

/-! ### Hidden cells -/

def ScratchPool.hidden (p : ScratchPool) : Set Word :=
  {x | x = 0 ∨ ∃ t ∈ p.addresses, x = UInt16.ofNat t}

lemma Workbench.Sane.fits_hidden {b : Workbench} (hb : b.Sane)
    (hsmall : ∀ t ∈ b.scratch.addresses, t < 65536) : b.scratch.Fits b.scratch.hidden :=
  ⟨.inl rfl, fun t ht => .inr ⟨t, ht, rfl⟩, fun t ht => ⟨hb.two_le ht, hsmall t ht⟩⟩

/-- In the memory `m` the operand reads neither the program counter nor any scratch cell but those
in `cells`. -/
def Backed.IsClear (a : Backed) (cells : List Nat) (p : ScratchPool) (m : Memory) : Prop :=
  ∀ x ∈ m.path a.word, x ≠ 0 ∧ ∀ t ∈ p.addresses, x = UInt16.ofNat t → t ∈ cells

instance (a : Backed) (cells : List Nat) (p : ScratchPool) (m : Memory) :
    Decidable (a.IsClear cells p m) := List.decidableBAll _ _

lemma Backed.IsClear.shows {a : Backed} {cells : List Nat} {p : ScratchPool} {m : Memory}
    (h : a.IsClear cells p m) :
    m.Shows p.hidden (cells.map UInt16.ofNat) a.word (m.eval a.word) := by
  refine ⟨rfl, fun x hx => ?_⟩
  by_cases hscratch : ∃ t ∈ p.addresses, x = UInt16.ofNat t
  · obtain ⟨t, ht, rfl⟩ := hscratch
    exact .inl (List.mem_map_of_mem ((h _ hx).2 t ht rfl))
  · exact .inr fun hmem => hmem.elim (h x hx).1 hscratch

lemma lowers_reference {scope : Scope} {role : Role} {b b' : Workbench} {a : Backed} {code : Code}
    (hb : b.Sane) (h : Yields (reference scope role) b (a, code) b')
    (hsmall : ∀ t ∈ b'.scratch.addresses, t < 65536) : Lowers b.scratch a code b'.scratch := by
  obtain ⟨ref, hread⟩ := exists_read h
  obtain ⟨hproper, ts, hlower⟩ := lower_of_read hread h
  have hf := ((careful_reference scope role).grows hb h).1.fits_hidden hsmall
  exact (Reference.computes_of_lower hlower (hb.congr rfl rfl) hproper
    (Layout.describes_of ⟨{}, {}, []⟩ scope b.globals) hf).lowers

/-! ### What references denote -/

namespace Reference

/-- At most one pointer is taken away from each source, and none from a destination. -/
def IsModest (role : Role) : Reference → Prop
  | numeral shift _ _ => role.drop - 1 ≤ shift
  | plain h | field h _ => role.drop - 1 ≤ h.shift
  | element h index => role.drop - 1 ≤ h.shift ∧ index.IsModest .source

variable {scope : Scope} {role : Role} {b b' : Workbench} {a : Backed} {code : Code}
  {ref : Reference}

lemma isGrounded_of_lower (h : Yields (ref.lower scope role) b (a, code) b')
    (hmodest : ref.IsModest role) : ref.isGrounded role = true := by
  induction ref generalizing role b b' a code with
  | numeral shift text value =>
    simp only [lower] at h
    split at h
    · simp at h
    · simp only [yields_bind, yields_pure, Prod.mk.injEq] at h
      obtain ⟨a', b₁, hshift, -, -⟩ := h
      obtain ⟨-, mode, hmode, -⟩ := withMode_of_applyShift hshift
      have hzero : ((Backed.constant value).mode.level : Int) = 0 := rfl
      rw [isGrounded, level, depth, decide_eq_true_eq]
      · omega
      · simp
  | plain head =>
    simp only [IsModest] at hmodest
    exact decide_eq_true (by simp only [level, depth]; omega)
  | field head x =>
    simp only [IsModest] at hmodest
    exact decide_eq_true (by simp only [level, depth]; omega)
  | element head index ih =>
    simp only [lower, yields_bind, Prod.exists] at h
    obtain ⟨i, before, b₁, hindex, -⟩ := h
    simp only [IsModest] at hmodest
    rw [isGrounded, Bool.and_eq_true]
    exact ⟨decide_eq_true (by simp only [level, depth]; omega), ih hindex hmodest.2⟩

/-- What is promised of the code of a reference: where the code runs, in a memory in which no cell
that the reference reads is the program counter or a scratch cell, it runs straight through; the
operand then stands for the word of a source or for the cell of a destination; and only scratch
cells that were not in use have changed. The reference is read off its tokens as it is written. -/
structure Denoted (r : Resolver) (scope : Scope) (role : Role) (b : Workbench) (ref : Reference)
    (a : Backed) (code : Code) (b' : Workbench) : Prop where
  written : ∀ (w : Grammar.Ref) (rest : List Token), w.IsValid → b.tokens = w.tokens ++ rest →
    Tokens.peek rest ≠ "." ∧ Tokens.peek rest ≠ "[" → w.resolve? (scope.home? b.globals) = some ref
  writes : ∀ i ∈ code, ∃ t ∈ b'.scratch.addresses, i.dest = .cellDest t ∧ ¬ b.scratch.Busy t
  owns : ∀ t, b'.scratch.Busy t ↔ b.scratch.Busy t ∨ t ∈ a.cells
  runs : ∀ (prog : List WordInstruction) (k : Nat) (m : Memory) (d : Array Word),
    Sits prog k (r.words code) →
    (∀ c ∈ ref.reads (.of r scope b.globals) m role,
      c ≠ 0 ∧ ∀ t ∈ b'.scratch.addresses, c ≠ UInt16.ofNat t) →
    ∃ m', Leads prog code.length ⟨k, m, d⟩ ⟨k + code.length, m', d⟩ ∧
      (∀ j, (m'.arrive j).eval (r.word a.toOperand) = ref.meaning (.of r scope b.globals) m role) ∧
      ∀ c, c ≠ 0 → (∀ t ∈ b'.scratch.addresses, b.scratch.Busy t ∨ c ≠ UInt16.ofNat t) →
        m'.read c = m.read c

lemma denoted_of_sane (r : Resolver) (hb : b.Sane)
    (h : Yields (reference scope role) b (a, code) b')
    (hread : (read (scope.home? b.globals) 0 b.tokens).1 = .ok ref) (hmodest : ref.IsModest role)
    (hsmall : ∀ t ∈ b'.scratch.addresses, t < 65536) : Denoted r scope role b ref a code b' := by
  have hsane' := ((careful_reference scope role).grows hb h).1
  obtain ⟨hproper, ts, hlower⟩ := lower_of_read hread h
  have hground := isGrounded_of_lower hlower hmodest
  have hf := hsane'.fits_hidden hsmall
  have hcomputes := computes_of_lower hlower (hb.congr rfl rfl) hproper
    (Layout.describes_of r scope b.globals) hf
  refine ⟨fun w rest hw ht hrest => ?_, hcomputes.lowers.quiet, hcomputes.lowers.busy,
    fun prog k m d hsits hreads => ?_⟩
  · rw [ht] at hread
    exact (Grammar.resolve?_of_read hw hrest (Prod.ext hread rfl)).1
  · have hquiet := quiet_words (r := r) hf hcomputes.lowers.quiet
    have hhidden : ∀ c ∈ ref.reads (.of r scope b.globals) m role, c ∉ b'.scratch.hidden := by
      rintro c hc (hzero | ⟨t, ht, htc⟩)
      · exact (hreads c hc).1 hzero
      · exact (hreads c hc).2 t ht htc
    have hshows := hcomputes.shows (k + ·) m m (EqOff.refl _ _) hground hhidden
    have hleads := Leads.of_quiet hsits (fun i hi => (hquiet i hi).1) m d
    rw [Resolver.length_words] at hleads
    refine ⟨_, hleads, fun j => ?_, fun c hzero hfree => ?_⟩
    · obtain ⟨n, hn⟩ := hcomputes.lowers.known
      rw [r.word_of_known hn]
      exact (hshows.arrive hf.zero (hcomputes.lowers.zero_notMem_own hf) j).eval_eq
    · have hsame := eqOff_after_words (r := r) hf hcomputes.lowers.quiet (k + ·) m
      refine hsame c ?_
      rintro (heq | ⟨t, ht, hbusy, heq⟩)
      · exact hzero heq
      · exact (hfree t ht).elim hbusy fun hne => hne heq

end Reference

namespace Session

/-- The workbenches on which references are lowered. A statement starts with all scratch cells free,
and so does a call, whose turn comes after all statements; from there on there is work that takes
nothing back. -/
inductive Reached (settings : Settings) (source : String) : Workbench → Prop
  | statement (n : Nat) : Reached settings source (Statement.rested (after settings source n)).bench
  | call (n : Nat) (c : CallSite) :
    c ∈ (stated settings source).calls →
      Reached settings source (Call.bench c (placing settings source n).bench)
  | work {α : Type} {b : Workbench} (w : Work α) :
    Reached settings source b → Keeps w → Reached settings source (w.on b).2

variable {settings : Settings} {source : String} {b : Workbench}

lemma Reached.sane (h : Reached settings source b) : b.Sane := by
  induction h with
  | statement n => exact (Statement.fine_rested fine_after).sane
  | call n c _ =>
    have hplacing :=
      grows_insertCalls ((reportOpenBlocks.on (stated settings source)).2.calls.take n)
        (s := { (reportOpenBlocks.on (stated settings source)).2 with calls := [] })
      (grows_reported settings source).1
    exact (Call.grows_bench c hplacing.1).1
  | work w _ hw ih => exact (hw _ ih).1

/-- On every workbench of a compilation, a reference that takes away at most one pointer from each
source, and none from its destination, denotes its cell: its code runs straight through and writes
only scratch cells that no operand owns, and its operand then stands for the word or the cell that
the reference means. The scratch cells that there are then have to be cells of the machine. -/
theorem references_denote_cells (settings : Settings) (source : String)
    {scope : Scope} {role : Role} {b b' : Workbench} {a : Backed} {code : Code} {ref : Reference}
    (hb : Reached settings source b) (h : Yields (reference scope role) b (a, code) b')
    (hread : (Reference.read (scope.home? b.globals) 0 b.tokens).1 = .ok ref)
    (hmodest : ref.IsModest role) (hsmall : ∀ t ∈ b'.scratch.addresses, t < 65536) :
    ref.Denoted (compiled settings source).resolver scope role b a code b' :=
  Reference.denoted_of_sane _ hb.sane h hread hmodest hsmall

/-- An array in a frame, whose index is again an element of it. -/
theorem references_denote_cells_nested :
    let source := "sub f(k, b[2]) \x7b b[b[k]] = 5; \x7d"
    let s := Statement.rested (after {} source 1)
    let b' := ((reference s.scope .destination).on s.bench).2
    ∃ a code, Yields (reference s.scope .destination) s.bench (a, code) b' ∧ code.length = 5 ∧
      Reference.Denoted (compiled {} source).resolver s.scope .destination s.bench
        (.element ⟨0, "b", .frame "f"⟩ (.element ⟨0, "b", .frame "f"⟩
        (.plain ⟨0, "k", .frame "f"⟩)))
        a code b' := by
  intro source s b'
  have hvalue : (((reference s.scope .destination).on s.bench).1.map fun x => x.2.length) =
      some 5 := by
    decide +kernel
  obtain ⟨⟨a, code⟩, hsome, hlength⟩ := Option.map_eq_some_iff.mp hvalue
  have hyields : Yields (reference s.scope .destination) s.bench (a, code) b' := yields_of_on hsome
  have hread : ((Reference.read (s.scope.home? s.bench.globals) 0 s.bench.tokens).1.toOption =
      some (.element ⟨0, "b", .frame "f"⟩
        (.element ⟨0, "b", .frame "f"⟩ (.plain ⟨0, "k", .frame "f"⟩)))) := by
    decide +kernel
  refine ⟨a, code, hyields, hlength, references_denote_cells {} source (.statement 1)
    hyields ?_ ?_ ?_⟩
  · revert hread
    generalize (Reference.read (s.scope.home? s.bench.globals) 0 s.bench.tokens).1 = result
    intro hread
    cases result with
    | error p => simp [Except.toOption] at hread
    | ok ref => simpa [Except.toOption] using hread
  · simp [Reference.IsModest, Role.drop]
  · decide +kernel

end Session

namespace Statement

open Build

lemma on_declaration_array {s : Session} {name size : Token} {n : Nat} {rest : List Token}
    (htokens : s.bench.tokens = "my" :: name :: "[" :: size :: "]" :: ";" :: rest)
    (hname : isReserved name = false) (hnew : s.bench.globals.contains name = false)
    (hsize : Numeral.size? size = some n) :
    (declaration.on s).2 = { s with
      bench := { s.bench with
        tokens := rest, globals := s.bench.globals.declareArray name n 0 }
      preamble := s.preamble ++ [.copy (.constant (Numeral.wrap32 (s.bench.globals.nextFree + 1)))
        (.cellDest s.bench.globals.nextFree)] } := by
  simp [declaration, htokens, hname, hnew, Declarator.read, Declarator.readSize,
    Declarator.readArray, hsize, Attempt.on_bind, Tokens.peek, Tokens.rest, Work.on_eat,
    Tokens.eat?, declareGlobal]

end Statement

namespace Machine

lemma not_leads_one {prog : List WordInstruction} {i : WordInstruction} {k : Nat} {m : Memory}
    {d : Array Word} {w : Word} {t : Spot} (hi : prog[k]? = some i)
    (hdest : (m.arrive k).eval i.dest = 0)
    (hw : i.opcode.apply ((m.arrive k).eval i.lhs) ((m.arrive k).eval i.rhs) = some w) :
    ¬ Leads prog 1 ⟨k, m, d⟩ t := by
  intro h
  have hnext := getElem?_standing prog ⟨k, m, d⟩ 0
  rw [hi] at hnext
  have hrun := h 0
  rw [run_one hnext, step_eq hnext] at hrun
  have hpending := congrArg Machine.pending hrun
  change (execute i (m.arrive k) d).2.2 = none at hpending
  simp [execute_of_apply_eq_some _ hw, store, hdest] at hpending

end Machine

namespace Session

/-- A program whose variables take all cells of the machine, so that a scratch cell has no place. -/
def crowded : String := "my p[65533]; p[display] = 5;"

def bare : Settings := { initialScratchCells := 0 }

/-- The workbench when an array has taken the cells from the display to `size`, and the tokens `ts`
are left. -/
structure Crowded (size : Nat) (ts : List Token) (b : Workbench) : Prop where
  tokens : b.tokens = ts
  scratch : b.scratch = ⟨[]⟩
  nextFree : b.globals.nextFree = size
  array : b.globals.address? "p" = some 2
  display : b.globals.address? "display" = some 1
  arrayType : b.globals.type? "p" = some .array
  displayType : b.globals.type? "display" = some .scalar

lemma on_compile_array {s : Session} {size : Token} {n : Nat} {ts : List Token}
    (hn : Numeral.size? size = some n)
    (htokens : s.bench.tokens = "my" :: "p" :: "[" :: size :: "]" :: ";" :: ts)
    (hnew : s.bench.globals.contains "p" = false) :
    (Statement.compile.on s).2 = { Statement.rested s with
      bench := { (Statement.rested s).bench with
        tokens := ts, globals := s.bench.globals.declareArray "p" n 0 }
      preamble := s.preamble ++ [.copy (.constant (Numeral.wrap32 (s.bench.globals.nextFree + 1)))
        (.cellDest s.bench.globals.nextFree)] } := by
  rw [Statement.on_compile, htokens]
  exact Statement.on_declaration_array (s := Statement.rested s) htokens (by decide) hnew hn

lemma crowded_rested {s : Session} {size : Token} {n : Nat} {ts : List Token}
    (hn : Numeral.size? size = some n) (hempty : s.bench.scratch = ⟨[]⟩)
    (htidy : s.bench.globals.Tidy)
    (htokens : s.bench.tokens = "my" :: "p" :: "[" :: size :: "]" :: ";" :: ts)
    (hsize : s.bench.globals.nextFree = 2) (hnew : s.bench.globals.contains "p" = false)
    (hdisplay : s.bench.globals.address? "display" = some 1)
    (htype : s.bench.globals.type? "display" = some .scalar) :
    Crowded (n + 3) ts (Statement.rested (Statement.compile.on s).2).bench := by
  have hsimple : Simple "p" := .inr (by decide)
  have hrested : (Statement.rested (Statement.compile.on s).2).bench = { s.bench with
      tokens := ts
      globals := s.bench.globals.declareArray "p" n 0
      scratch := ⟨[]⟩ } := by
    rw [Statement.rested, on_compile_array hn htokens hnew, Statement.rested, hempty]
    rfl
  rw [hrested]
  refine ⟨rfl, rfl, ?_, ?_, ?_, rfl, ?_⟩
  · rw [SymbolTable.nextFree_declareArray, hsize]
    omega
  · rw [SymbolTable.address?_declareArray, hsize]
  · exact (htidy.declareArray hnew hsimple n 0).address?_of_extends
      (SymbolTable.extends_declareArray _ _ _ _) hdisplay
  · rw [← htype]
    simp [SymbolTable.type?, SymbolTable.declareArray, List.lookup_cons]

lemma after_one {source : String} (h : (Lexer.tokenize source).1 ≠ []) (settings : Settings) :
    after settings source 1 = (Statement.compile.on (started settings source)).2 := by
  have hzero : after settings source 0 = started settings source := rfl
  have htokens : (started settings source).bench.tokens = (Lexer.tokenize source).1 := rfl
  rw [after_succ, hzero, htokens, if_neg (by simpa using h)]

lemma crowded_after {source : String} {size : Token} {n : Nat} {ts : List Token}
    (hn : Numeral.size? size = some n)
    (htokens : (Lexer.tokenize source).1 = "my" :: "p" :: "[" :: size :: "]" :: ";" :: ts) :
    Crowded (n + 3) ts (Statement.rested (after bare source 1)).bench := by
  have hstart : (started bare source).bench.tokens = _ := htokens
  have hglobals : (started bare source).bench.globals = (new bare).bench.globals := rfl
  rw [after_one (by simp [htokens])]
  refine crowded_rested hn rfl (arranged_started bare source).bench.tidy hstart ?_ ?_ ?_ ?_ <;>
    rw [hglobals] <;> decide +kernel

lemma Crowded.goOn {size : Nat} {b : Workbench} {ts : List Token} (h : Crowded size ts b)
    (ts' : List Token) : Crowded size ts' { b with tokens := ts' } :=
  ⟨rfl, h.scratch, h.nextFree, h.array, h.display, h.arrayType, h.displayType⟩

lemma Crowded.pop {size : Nat} {b : Workbench} {t : Token} {ts : List Token}
    (h : Crowded size (t :: ts) b) : Crowded size ts (Work.pop.on b).2 := by
  rw [on_pop, h.tokens]
  exact h.goOn ts

lemma Crowded.yields_display {size : Nat} {b : Workbench} {ts : List Token}
    (h : Crowded size ("display" :: ts) b)
    (hts : Tokens.peek ts ≠ "." ∧ Tokens.peek ts ≠ "[") :
    Yields (reference {} .source) b (.cell 1, []) { b with tokens := ts } := by
  have htype : ({} : Scope).type b.globals .global "display" = .scalar := by
    simp [Scope.type, Scope.table, h.displayType]
  have hoffset : ({} : Scope).offset b.globals .global "display" = 1 := by
    simp [Scope.offset, Scope.table, h.display]
  have hhome : ({} : Scope).home? b.globals "display" = some .global := by
    simp [Scope.home?, Scope.owner?, SymbolTable.contains, h.display]
  have hname : isReserved "display" = false ∧ Numeral.signed? "display" = none := by decide +kernel
  have hread : Reference.read (({} : Scope).home? b.globals) 0 b.tokens =
      (.ok (.plain ⟨0, "display", .global⟩), ts) := by
    rw [h.tokens]
    simp only [Reference.read, hname, hhome, String.reduceEq, ↓reduceIte, Bool.false_eq_true]
    split
    · simp [Tokens.peek] at hts
    · simp [Tokens.peek] at hts
    · rfl
  have hplain : (Reference.lowerPlain {} ⟨0, "display", .global⟩).on { b with tokens := ts } =
      ((Backed.cell 1, []), { b with tokens := ts }) := by
    simp [Reference.lowerPlain, Reference.headType, Reference.headOffset, htype, hoffset]
  simp only [reference, yields_bind, yields_get, yields_set]
  refine ⟨b, b, ⟨rfl, rfl⟩, (), { b with tokens := ts }, by rw [hread], ?_⟩
  rw [hread]
  show Yields (Reference.lower {} .source (.plain ⟨0, "display", .global⟩)) _ _ _
  rw [Reference.lower, yields_bind]
  exact ⟨_, _, yields_lift.mpr hplain, rfl⟩

lemma yields_numeral {b : Workbench} {ts : List Token} {t : Token} {n : Int} (scope : Scope)
    (h : b.tokens = t :: ts) (ht : t ≠ "$" ∧ t ≠ "\\" ∧ isReserved t = false)
    (hn : Numeral.signed? t = some n) :
    Yields (reference scope .source) b (.constant n, []) { b with tokens := ts } := by
  have hread : Reference.read (scope.home? b.globals) 0 b.tokens = (.ok (.numeral 0 t n), ts) := by
    rw [h]
    simp [Reference.read, ht, hn]
  simp only [reference, yields_bind, yields_get, yields_set]
  refine ⟨b, b, ⟨rfl, rfl⟩, (), { b with tokens := ts }, by rw [hread], ?_⟩
  rw [hread]
  rfl

def crowdedElement : Reference :=
  .element ⟨0, "p", .global⟩ (.plain ⟨0, "display", .global⟩)

lemma Crowded.read {size : Nat} {b : Workbench}
    (h : Crowded size ["p", "[", "display", "]", "=", "5", ";"] b) :
    Reference.read (({} : Scope).home? b.globals) 0 b.tokens =
      (.ok crowdedElement, ["]", "=", "5", ";"]) := by
  have hhome : ∀ {name a}, b.globals.address? name = some a →
      ({} : Scope).home? b.globals name = some .global := by
    intro name a ha
    simp [Scope.home?, Scope.owner?, SymbolTable.contains, ha]
  have harray : isReserved "p" = false ∧ Numeral.signed? "p" = none := by decide +kernel
  have hdisplay : isReserved "display" = false ∧ Numeral.signed? "display" = none := by
    decide +kernel
  rw [h.tokens]
  simp [Reference.read, harray, hdisplay, hhome h.array, hhome h.display,
    crowdedElement, Except.map]

/-- The code that computes the address of `p[display]` in the scratch cell `t`. -/
def elementCode (t : Nat) : Code :=
  [{ opcode := .add, lhs := .constant 3, rhs := .cell 1, dest := .cellDest t }]

lemma Crowded.yields {size : Nat} {b : Workbench}
    (h : Crowded size ["p", "[", "display", "]", "=", "5", ";"] b) :
    ∃ b', Yields (reference {} .destination) b
        ((Backed.through size).withMode .address, elementCode size) b' ∧
      b'.scratch.addresses = [size] ∧ b'.tokens = ["=", "5", ";"] ∧
      b'.diagnostics = b.diagnostics := by
  have htypes : ({} : Scope).type b.globals .global "p" = .array ∧
      ({} : Scope).type b.globals .global "display" = .scalar := by
    simp [Scope.type, Scope.table, h.arrayType, h.displayType]
  have hoffsets : ({} : Scope).offset b.globals .global "p" = 2 ∧
      ({} : Scope).offset b.globals .global "display" = 1 := by
    simp [Scope.offset, Scope.table, h.array, h.display]
  obtain ⟨b₀, hb₀⟩ : ∃ b₀ : Workbench,
      b₀ = { b with tokens := ["]", "=", "5", ";"], scratch := ⟨[]⟩ } := ⟨_, rfl⟩
  have hglobals : b₀.globals = b.globals := by rw [hb₀]
  have hplain : (Reference.lowerPlain {} ⟨0, "display", .global⟩).on b₀ =
      ((Backed.cell 1, []), b₀) := by
    simp [Reference.lowerPlain, Reference.headType, Reference.headOffset, hglobals,
      htypes, hoffsets]
  have hindex : Yields (Reference.lower {} .source (.plain ⟨0, "display", .global⟩)) b₀
      (Backed.cell 1, []) b₀ := by
    rw [Reference.lower, yields_bind]
    refine ⟨_, _, yields_lift.mpr hplain, ?_⟩
    rfl
  have helement : (Reference.lowerElement {} ⟨0, "p", .global⟩ (Backed.cell 1)).on b₀ =
      ((Backed.through size, elementCode size),
        { b₀ with
          globals := b.globals.declareWord (ScratchPool.nextName ⟨[]⟩)
          scratch := ScratchPool.add ⟨[]⟩ size true }) := by
    rw [← h.nextFree]
    simp only [Reference.lowerElement, Reference.headType, Reference.headOffset,
      Work.on_bind, Work.on_get, Work.on_pure, hglobals, htypes, hoffsets]
    rw [hb₀]
    rfl
  have hstart : ({ b with tokens := ["]", "=", "5", ";"] } : Workbench) = b₀ := by
    rw [hb₀, ← h.scratch]
  obtain ⟨b', hlower, hb'⟩ : ∃ b', Yields (crowdedElement.lower {} .destination) b₀
      ((Backed.through size).withMode .address, elementCode size) b' ∧
      b'.scratch.addresses = [size] ∧ b'.tokens = ["=", "5", ";"] ∧
      b'.diagnostics = b.diagnostics := by
    rw [crowdedElement, Reference.lower]
    simp only [yields_bind, yields_lift]
    refine ⟨{ b₀ with
      tokens := ["=", "5", ";"]
      globals := b.globals.declareWord (ScratchPool.nextName ⟨[]⟩)
      scratch := ScratchPool.add ⟨[]⟩ size true },
      ⟨_, _, hindex, _, _, helement, (), _, rfl, ?_⟩, rfl, rfl, by rw [hb₀]⟩
    rw [hb₀]
    exact ⟨(), _, rfl, _, _, rfl, rfl⟩
  refine ⟨b', ?_, hb'⟩
  simp only [reference, yields_bind, yields_get, yields_set]
  refine ⟨b, b, ⟨rfl, rfl⟩, (), b₀, ?_, ?_⟩
  · rw [h.read, hstart]
  · rw [h.read]
    exact hlower

lemma Crowded.not_denoted {ts : List Token} {b b' : Workbench} {a : Backed} (r : Resolver)
    (h : Crowded 65536 ts b) (hpool : b'.scratch.addresses = [65536]) :
    ¬ crowdedElement.Denoted r {} .destination b a (elementCode 65536) b' := by
  intro hdenoted
  have hreads : crowdedElement.reads (.of r {} b.globals) .zero .destination = [1] := by
    simp [crowdedElement, Reference.reads, Reference.startReads, Reference.start, Reference.level,
      Reference.depth, Layout.of, Layout.cell, Layout.origin, Layout.originReads, Scope.type,
      Scope.offset, Scope.table, h.arrayType, h.display, Role.drop, Memory.trail]
  obtain ⟨m', hleads, -⟩ := hdenoted.runs _ 0 .zero #[] (List.prefix_refl _) (by
    rw [hreads, hpool]
    exact List.forall_mem_singleton.mpr (by decide))
  exact not_leads_one (w := _) rfl rfl rfl hleads

/-- If the variables take all cells of the machine, the code of a reference can jump. -/
theorem scratch_cell_without_place : ∃ b a code b', Reached bare crowded b ∧
    Yields (reference {} .destination) b (a, code) b' ∧
    (Reference.read (({} : Scope).home? b.globals) 0 b.tokens).1 = .ok crowdedElement ∧
    crowdedElement.IsModest .destination ∧
    ¬ crowdedElement.Denoted (compiled bare crowded).resolver {} .destination b a code b' := by
  have hb : Crowded 65536 ["p", "[", "display", "]", "=", "5", ";"]
      (Statement.rested (after bare crowded 1)).bench :=
    crowded_after (show Numeral.size? "65533" = some 65533 by decide +kernel) (by decide +kernel)
  obtain ⟨b', hyields, hpool, -⟩ := hb.yields
  refine ⟨_, _, _, b', .statement 1, hyields, ?_, ?_, hb.not_denoted _ hpool⟩
  · rw [hb.read]
  · simp [crowdedElement, Reference.IsModest, Role.drop]

end Session

end CogolToolchain
