import CogolToolchain.Proofs.Code.Listing
import CogolToolchain.Proofs.Compile.Frame
import CogolToolchain.Proofs.Compile.Placement
import CogolToolchain.Proofs.Compile.Pointer
import CogolToolchain.Proofs.Source.Lexer

/-!
The maps of the memory of a compiled program.

A cell is declared with a new name, or as an element of an array with a new name, or as the next
scratch cell. In a source without double quotes no name looks like an element of an array, so no two
cells have the same name (`SymbolTable.Tidy`). A name then means the only cell that has it, from its
declaration to the end of the compilation (`Session.memory_laid_out`).
-/

namespace CogolToolchain

open Work Attempt

/-! ### Names of cells -/

namespace SymbolTable

lemma toList_elementName (array : String) (i : Nat) :
    (elementName array i).toList = array.toList ++ '[' :: (Nat.toDigits 10 i ++ [']']) := by
  simp [elementName]

lemma elementName_inj {array array' : String} {i j : Nat}
    (h : elementName array i = elementName array' j) : array = array' ∧ i = j := by
  have hindex : ∀ n, '[' ∉ ']' :: (Nat.toDigits 10 n).reverse := by
    intro n hmem
    rw [List.mem_cons, List.mem_reverse] at hmem
    rcases hmem with hmem | hmem
    · exact absurd hmem (by decide)
    · exact absurd (Nat.isDigit_of_mem_toDigits (by decide) (by decide) hmem) (by decide)
  have hcut : ∀ (a : String) (n : Nat), Text.cutAt? '[' (elementName a n).toList.reverse =
      some (']' :: (Nat.toDigits 10 n).reverse, a.toList.reverse) := by
    intro a n
    rw [← Text.cutAt?_append (hindex n), toList_elementName]
    simp
  have heq := hcut array i
  rw [h, hcut array' j] at heq
  simp only [Option.some.injEq, Prod.mk.injEq, List.cons.injEq, true_and, List.reverse_inj] at heq
  refine ⟨(String.ext heq.2).symm, ?_⟩
  rw [← Nat.ofDigitChars_ten_toDigits (n := i), ← heq.1, Nat.ofDigitChars_ten_toDigits]

lemma not_simple_elementName (array : String) (i : Nat) : ¬ Simple (elementName array i) := by
  rintro (hbracket | hnone)
  · have hlength := congrArg (fun s : String => s.toList.length) hbracket
    simp only [toList_elementName, List.length_append, List.length_cons] at hlength
    have hone : "[".toList.length = 1 := rfl
    omega
  · simp [toList_elementName] at hnone

lemma simple_scratchName (n : Nat) : Simple (scratchName n) := by
  right
  rw [toList_scratchName, List.mem_append, not_or]
  refine ⟨by decide, fun hmem => ?_⟩
  exact absurd (Nat.isDigit_of_mem_toDigits (by decide) (by decide) hmem) (by decide)

/-- No two cells have the same name, and a name that looks like an element is that of an element of
an array in the table. -/
structure Tidy (t : SymbolTable) : Prop where
  nodup : t.cells.toList.Nodup
  elements : ∀ name ∈ t.cells.toList, Simple name ∨
    ∃ array ∈ t.cells.toList, ∃ i, name = elementName array i

section

variable {t t' : SymbolTable} {name : String} {a : Nat}

lemma mem_cells_iff : name ∈ t.cells.toList ↔ t.contains name = true := by
  rw [contains_iff, List.mem_iff_getElem?]
  simp [Array.getElem?_toList]

lemma notMem_cells (h : t.contains name = false) : name ∉ t.cells.toList := by
  rw [mem_cells_iff, h]
  exact Bool.false_ne_true

lemma Tidy.declareWord (h : t.Tidy) (hnew : t.contains name = false) (hname : Simple name) :
    (t.declareWord name).Tidy := by
  have hcells : (t.declareWord name).cells.toList = t.cells.toList ++ [name] := by
    simp [SymbolTable.declareWord]
  refine ⟨?_, fun x hx => ?_⟩
  · rw [hcells, List.nodup_append]
    exact ⟨h.nodup, List.nodup_singleton _, fun x hx y hy heq =>
      notMem_cells hnew (List.mem_singleton.mp hy ▸ heq ▸ hx)⟩
  · rw [hcells] at hx ⊢
    rcases List.mem_append.mp hx with hx | hx
    · refine (h.elements x hx).imp_right ?_
      rintro ⟨array, harray, i, heq⟩
      exact ⟨array, List.mem_append_left _ harray, i, heq⟩
    · exact .inl (List.mem_singleton.mp hx ▸ hname)

lemma Tidy.declareArray (h : t.Tidy) (hnew : t.contains name = false) (hname : Simple name)
    (size initialized : Nat) : (t.declareArray name size initialized).Tidy := by
  have hfresh : ∀ i, elementName name i ∉ t.cells.toList := by
    intro i hmem
    rcases h.elements _ hmem with hsimple | ⟨array, harray, j, heq⟩
    · exact not_simple_elementName name i hsimple
    · exact notMem_cells hnew ((elementName_inj heq).1 ▸ harray)
  refine ⟨?_, fun x hx => ?_⟩
  · rw [toList_declareArray, List.nodup_append, List.nodup_cons]
    refine ⟨h.nodup, ⟨?_, ?_⟩, ?_⟩
    · intro hmem
      obtain ⟨i, -, heq⟩ := List.mem_map.mp hmem
      exact elementName_ne name i heq
    · exact List.nodup_range.map fun i j heq => (elementName_inj heq).2
    · rintro x hx y hy rfl
      rcases List.mem_cons.mp hy with rfl | hy
      · exact notMem_cells hnew hx
      · obtain ⟨i, -, rfl⟩ := List.mem_map.mp hy
        exact hfresh i hx
  · rw [toList_declareArray] at hx ⊢
    rcases List.mem_append.mp hx with hx | hx
    · refine (h.elements x hx).imp_right ?_
      rintro ⟨array, harray, i, heq⟩
      exact ⟨array, List.mem_append_left _ harray, i, heq⟩
    · rcases List.mem_cons.mp hx with rfl | hx
      · exact .inl hname
      · obtain ⟨i, -, rfl⟩ := List.mem_map.mp hx
        exact .inr ⟨name, by simp, i, rfl⟩

lemma Tidy.congr (h : t.Tidy) (hcells : t'.cells = t.cells) : t'.Tidy :=
  ⟨by rw [hcells]; exact h.nodup, by rw [hcells]; exact h.elements⟩

lemma Tidy.address?_eq (h : t.Tidy) : t.address? name = some a ↔ t.cells[a]? = some name :=
  address?_of_nodup h.nodup

lemma Tidy.idxOf?_eq (h : t.Tidy) (name : String) : t.cells.toList.idxOf? name =
    t.address? name := by
  rcases hname : t.cells.toList.idxOf? name with _ | a
  · rw [List.idxOf?_eq_none_iff, mem_cells_iff, contains, Bool.not_eq_true,
      Option.isSome_eq_false_iff, Option.isNone_iff_eq_none] at hname
    exact hname.symm
  · obtain ⟨hlt, ha, -⟩ := List.idxOf?_eq_some_iff.mp hname
    refine (h.address?_eq.mpr ?_).symm
    rw [← Array.getElem?_toList, List.getElem?_eq_getElem hlt, ha]

lemma Tidy.address?_of_extends (h : t'.Tidy) (hext : t.Extends t') (ha : t.address? name = some a) :
    t'.address? name = some a :=
  h.address?_eq.mpr (hext.getElem?_eq_some (getElem?_of_address? ha))

end
end SymbolTable

/-! ### The cells of a workbench -/

namespace Workbench

/-- No two cells have the same name, and apart from the program counter and the scratch cells they
have names that a program may use. -/
structure Arranged (b : Workbench) : Prop where
  tidy : b.globals.Tidy
  names : ∀ {a name}, b.globals.cells[a]? = some name →
    a = 0 ∨ a ∈ b.scratch.addresses ∨ isReserved name = false

variable {b b' : Workbench} {name : String}

lemma Sane.scratch_iff (h : b.Sane) {n a : Nat} :
    b.scratch.addresses[n]? = some a ↔ b.globals.cells[a]? = some (scratchName n) := by
  refine ⟨h.named, fun ha => ?_⟩
  obtain ⟨k, hk⟩ := List.getElem?_of_mem (h.pooled ha)
  have hname := h.named hk
  rw [ha, Option.some.injEq] at hname
  rwa [scratchName_injective hname]

lemma Arranged.grows (h : b.Arranged) (hs : b'.Sane) (hg : b.Grows b') : b'.Arranged := by
  have hold : ∀ {a x}, b'.globals.cells[a]? = some x →
      b.globals.cells[a]? = some x ∨ ∃ n, b.globals.nextFree ≤ a ∧ x = scratchName n := by
    intro a x ha
    by_cases hlt : a < b.globals.nextFree
    · exact .inl ((hg.globals.cells.getElem? hlt).symm.trans ha)
    · obtain ⟨n, hn⟩ := hg.globals.fresh (Nat.le_of_not_lt hlt) ha
      exact .inr ⟨n, Nat.le_of_not_lt hlt, hn⟩
  have hpooled : ∀ {a n}, b'.globals.cells[a]? = some (scratchName n) →
      b'.scratch.addresses[n]? = some a := hs.scratch_iff.mpr
  refine ⟨⟨?_, fun x hx => ?_⟩, fun {a x} ha => ?_⟩
  · rw [List.nodup_iff_getElem?_ne_getElem?]
    intro i j hij hj heq
    obtain ⟨x, hx⟩ : ∃ x, b'.globals.cells[j]? = some x :=
      ⟨_, Array.getElem?_eq_getElem (by simpa using hj)⟩
    rw [Array.getElem?_toList, Array.getElem?_toList] at heq
    have hi := heq.trans hx
    rcases hold hx with hx' | ⟨n, -, rfl⟩
    · rcases hold hi with hi' | ⟨n, -, rfl⟩
      · rw [← h.tidy.address?_eq] at hx' hi'
        exact absurd (Option.some.inj (hx'.symm.trans hi')) (by omega)
      · exact absurd (Option.some.inj ((hpooled hx).symm.trans (hpooled hi))) (by omega)
    · exact absurd (Option.some.inj ((hpooled hx).symm.trans (hpooled hi))) (by omega)
  · obtain ⟨a, ha⟩ := List.getElem?_of_mem hx
    rw [Array.getElem?_toList] at ha
    rcases hold ha with ha' | ⟨n, -, rfl⟩
    · rw [← Array.getElem?_toList] at ha'
      exact (h.tidy.elements x (List.mem_of_getElem? ha')).imp_right fun ⟨array, harray, i, heq⟩ =>
        ⟨array, hg.globals.cells.subset harray, i, heq⟩
    · exact .inl (SymbolTable.simple_scratchName n)
  · rcases hold ha with ha' | ⟨n, -, rfl⟩
    · exact (h.names ha').imp_right (Or.imp_left fun hmem => hg.scratch.subset hmem)
    · exact .inr (.inl (hs.pooled ha))

lemma Arranged.congr (h : b.Arranged) (hcells : b'.globals.cells = b.globals.cells)
    (hscratch : b'.scratch = b.scratch) : b'.Arranged :=
  ⟨h.tidy.congr hcells, by rw [hcells, hscratch]; exact h.names⟩

lemma Grows.contains_eq (hg : b.Grows b') (hfree : isReserved name = false) :
    b'.globals.contains name = b.globals.contains name := by
  rw [SymbolTable.contains, SymbolTable.contains, hg.globals.address? hfree]

lemma Arranged.declareWord (h : b.Arranged) (hnew : b.globals.contains name = false)
    (hname : Simple name) (hfree : isReserved name = false) :
    Arranged { b with globals := b.globals.declareWord name } := by
  refine ⟨h.tidy.declareWord hnew hname, fun {a x} ha => ?_⟩
  by_cases hlt : a < b.globals.nextFree
  · exact h.names (((b.globals.extends_declareWord name).getElem? hlt).symm.trans ha)
  · rw [(SymbolTable.getElem?_declareWord_ge (Nat.le_of_not_lt hlt) ha).2]
    exact .inr (.inr hfree)

lemma Arranged.declareArray (h : b.Arranged) (hnew : b.globals.contains name = false)
    (hname : Simple name) (hfree : isReserved name = false) (size initialized : Nat) :
    Arranged { b with globals := b.globals.declareArray name size initialized } := by
  refine ⟨h.tidy.declareArray hnew hname size initialized, fun {a x} ha => ?_⟩
  rcases Nat.lt_trichotomy a b.globals.nextFree with hlt | rfl | hgt
  · have hold := (b.globals.extends_declareArray name size initialized).getElem? hlt
    exact h.names (hold.symm.trans ha)
  · rw [← Option.some.inj ((SymbolTable.getElem?_declareArray _ _ _ _).symm.trans ha)]
    exact .inr (.inr hfree)
  · obtain ⟨i, -, -, rfl⟩ := SymbolTable.getElem?_declareArray_gt hgt ha
    exact .inr (.inr (isReserved_elementName name i))

lemma callStackName_ne_scratchName (n : Nat) : callStackName ≠ scratchName n := by
  intro heq
  have hhead := congrArg (fun s : String => s.toList.head?) heq
  simp [toList_scratchName, callStackName] at hhead

lemma Arranged.callStack_new (h : b.Arranged) (hs : b.Sane) :
    b.globals.contains callStackName = false := by
  rw [Bool.eq_false_iff]
  intro hcontains
  obtain ⟨a, ha⟩ := SymbolTable.contains_iff.mp hcontains
  rcases h.names ha with rfl | hmem | hfree
  · exact absurd (Option.some.inj (ha.symm.trans hs.counter)) (by decide)
  · obtain ⟨n, hn⟩ := hs.mem_addresses_iff.mp hmem
    exact callStackName_ne_scratchName n (Option.some.inj (ha.symm.trans hn))
  · exact absurd hfree (by decide)

end Workbench

/-! ### The cells of a frame -/

/-- No two cells of the frame have the same name, and they have names that a program may use. -/
def Frame.Arranged (frame : Frame) : Prop :=
  frame.table.Tidy ∧ ∀ name ∈ frame.table.cells.toList, isReserved name = false

lemma Frame.Declared.arranged {name : String} {block : Block} {params : List (String × Declarator)}
    {frame : Frame} (h : frame.Declared name block params) (hwords : ∀ p ∈ params, Simple p.1) :
    frame.Arranged := by
  induction h with
  | new =>
    have hempty : ({} : SymbolTable).Tidy := ⟨List.nodup_nil, by simp⟩
    refine ⟨(hempty.declareWord (by decide) (.inr (by decide))).declareWord (by decide)
      (.inr (by decide)), fun x hx => ?_⟩
    have hcase : x = returnSlot ∨ x = previousSlot := by
      simpa [Frame.new, Frame.declareWord, SymbolTable.declareWord] using hx
    rcases hcase with rfl | rfl <;> decide
  | @declare params frame param d _ hnew hfree ih =>
    obtain ⟨htidy, hnames⟩ := ih fun p hp => hwords p (List.mem_append_left _ hp)
    have hname : Simple param := hwords (param, d) (by simp)
    have hword : (frame.table.declareWord param).Tidy ∧
        ∀ x ∈ (frame.table.declareWord param).cells.toList, isReserved x = false := by
      refine ⟨htidy.declareWord hnew hname, fun x hx => ?_⟩
      simp only [SymbolTable.declareWord, Array.toList_push, List.mem_append,
        List.mem_singleton] at hx
      exact hx.elim (hnames x) fun heq => heq ▸ hfree
    cases d with
    | word => exact hword
    | wordWithDefault value => exact hword
    | array size values =>
      refine ⟨htidy.declareArray hnew hname size values.length, fun x hx => ?_⟩
      change x ∈ (frame.table.declareArray param size values.length).cells.toList at hx
      rw [SymbolTable.toList_declareArray, List.mem_append, List.mem_cons] at hx
      rcases hx with hx | rfl | hx
      · exact hnames x hx
      · exact hfree
      · obtain ⟨i, -, rfl⟩ := List.mem_map.mp hx
        exact isReserved_elementName param i

/-! ### Sessions -/

namespace Session

open Statement Build

/-- The cells of the session and of all frames have names of their own. -/
structure Arranged (s : Session) : Prop where
  bench : s.bench.Arranged
  frames : ∀ entry ∈ s.scope.subroutines, entry.2.Arranged

section

variable {s s' : Session}

lemma Arranged.on_bench (h : s.Arranged) {b : Workbench} (hsane : b.Sane) (hg : s.bench.Grows b) :
    Arranged { s with bench := b } := ⟨h.bench.grows hsane hg, h.frames⟩

lemma Arranged.declare (h : s.Arranged) (d : Introduces s) (hname : Simple d.name) :
    d.session.Arranged := by
  have hbench := h.bench.grows d.sane d.grows
  have hnew := (d.grows.contains_eq d.free).trans d.new
  refine ⟨?_, h.frames⟩
  show Workbench.Arranged { d.bench with globals := d.declarator.enter d.name d.bench.globals }
  cases d.declarator with
  | word | wordWithDefault => exact hbench.declareWord hnew hname d.free
  | array size values => exact hbench.declareArray hnew hname d.free size values.length

lemma Arranged.subroutine (h : s.Arranged) (o : OpensSub s) (hname : Simple o.name)
    (hparams : ∀ param ∈ o.params, Simple param.1) : o.session.Arranged := by
  have hpointer : Workbench.Arranged { s.bench with globals := o.globals } := by
    rcases o.fresh with ⟨hfree, -, hnew, hglobals⟩ | ⟨hglobals, -⟩
    · rw [hglobals]
      exact h.bench.declareWord hnew hname hfree
    · rw [hglobals]
      exact h.bench
  have hcounted : Workbench.Arranged
      { s.bench with globals := o.globals, nextId := s.bench.nextId + 1 } :=
    hpointer.congr rfl rfl
  obtain ⟨hg, hsane⟩ := o.grows_left
  refine ⟨(hcounted.grows o.sane o.grows).grows hsane hg, fun entry hentry => ?_⟩
  rcases Scope.mem_insertAssoc hentry with rfl | hentry
  · exact o.declared.arranged hparams
  · exact h.frames entry hentry

lemma Arranged.call (h : s.Arranged) (q : Queues s) : q.session.Arranged := by
  refine ⟨h.bench.congr q.retypes.cells rfl, fun entry hentry => ?_⟩
  rcases q.retypes.entries entry hentry with hentry | ⟨name, first, param, type, hfirst, heq⟩
  · exact h.frames entry hentry
  · have hold := h.frames _ hfirst
    have hcells : entry.2.table.cells = first.table.cells := by
      rw [heq]
      exact SymbolTable.cells_setType _
    exact ⟨hold.1.congr hcells, by rw [hcells]; exact hold.2⟩

/-- A statement, right or wrong, gives cells names of their own. -/
theorem Arranged.effect (h : s.Arranged) (hs : s.Fine) (hs' : s'.Fine)
    (hwords : ∀ t ∈ s.bench.tokens, Simple t) (he : Effect s s') : s'.Arranged := by
  have hword : ∀ t ∈ "" :: s.bench.tokens, Simple t :=
    List.forall_mem_cons.mpr ⟨.inr (by simp), hwords⟩
  cases he with
  | idle grows => exact h.on_bench hs'.sane grows
  | declare d => exact h.declare d (hword _ d.word)
  | assign _ lower =>
    obtain ⟨hsane, hg⟩ := (Assignment.careful_lower s.scope).grows hs.sane lower
    exact ⟨h.bench.grows hsane hg, h.frames⟩
  | openFaulty grows => exact ⟨h.bench.grows hs'.sane grows, h.frames⟩
  | openIf o => exact ⟨h.bench.grows hs'.sane (o.plain hs).1, h.frames⟩
  | openWhile o => exact ⟨h.bench.grows hs'.sane (o.plain hs).1, h.frames⟩
  | openDo o => exact ⟨h.bench.grows hs'.sane o.grows, h.frames⟩
  | close c =>
    obtain ⟨hg, hscope⟩ := c.after.grows (c.fine_braced hs).sane
    exact ⟨h.bench.grows hs'.sane ((s.bench.grows_tokens c.rest).trans hg), hscope ▸ h.frames⟩
  | subroutine o => exact h.subroutine o (hword _ o.word) fun p hp => hword _ (o.words p hp)
  | leave grows => exact ⟨h.bench.grows hs'.sane grows, h.frames⟩
  | call q => exact h.call q

lemma settings_effect (he : Effect s s') : s'.settings = s.settings := by
  cases he with
  | close c =>
    show c.inner.settings = s.settings
    generalize c.inner = inner, c.after = after
    cases after <;> rfl
  | _ => rfl

lemma Arranged.expand (h : s.Arranged) (hs : s.Fine) (c : CallSite) (calls : List CallSite) :
    (s.expand c calls).Arranged := by
  obtain ⟨hsane, hg⟩ := (Call.compiles_compile s.scope c s.bench).grows hs.sane
  exact ⟨h.bench.grows hsane hg, h.frames⟩

end

lemma arranged_started (settings : Settings) (source : String) :
    (started settings source).Arranged := by
  have hcells := toList_cells_scratch
    ((({} : SymbolTable).declareWord programCounterName).declareWord displayName)
    (List.range settings.initialScratchCells)
  change (started settings source).bench.globals.cells.toList = _ at hcells
  have hsane := (fine_started settings source).sane
  have hname : ∀ name ∈ (started settings source).bench.globals.cells.toList,
      name = programCounterName ∨ name = displayName ∨ ∃ n, name = scratchName n := by
    intro name hmem
    rw [hcells, List.mem_append] at hmem
    rcases hmem with hmem | hmem
    · have hcase : name = programCounterName ∨ name = displayName := by
        simpa [SymbolTable.declareWord] using hmem
      exact hcase.imp_right .inl
    · obtain ⟨n, -, rfl⟩ := List.mem_map.mp hmem
      exact .inr (.inr ⟨n, rfl⟩)
  have htidy : (started settings source).bench.globals.Tidy := by
    refine ⟨?_, fun name hmem => ?_⟩
    · rw [hcells, List.nodup_append]
      refine ⟨by decide, List.nodup_range.map scratchName_injective, ?_⟩
      rintro x hx y hy rfl
      obtain ⟨n, -, rfl⟩ := List.mem_map.mp hy
      have hcase : scratchName n = programCounterName ∨ scratchName n = displayName := by
        simpa [SymbolTable.declareWord] using hx
      rcases hcase with heq | heq
      · exact programCounterName_ne_scratchName n heq.symm
      · exact ne_scratchName (by decide) n heq.symm
    · rcases hname name hmem with rfl | rfl | ⟨n, rfl⟩
      · exact .inl (.inr (by decide))
      · exact .inl (.inr (by decide))
      · exact .inl (SymbolTable.simple_scratchName n)
  refine ⟨⟨htidy, fun {a name} ha => ?_⟩, by simp [started, new]⟩
  have hmem : name ∈ (started settings source).bench.globals.cells.toList :=
    List.mem_of_getElem? (Array.getElem?_toList ▸ ha)
  rcases hname name hmem with rfl | rfl | ⟨n, rfl⟩
  · have hcounter := hsane.counter
    rw [← htidy.address?_eq] at ha hcounter
    exact .inl (Option.some.inj (ha.symm.trans hcounter))
  · exact .inr (.inr (by decide))
  · exact .inr (.inl (hsane.pooled ha))

/-! ### The tables on the way -/

section

variable {settings : Settings} {source : String}

/-- The session when all statements are compiled and the latest `n` calls are in their places. -/
def placing (settings : Settings) (source : String) (n : Nat) : Session :=
  let s := (reportOpenBlocks.on (stated settings source)).2
  (((s.calls.take n).forM insertCall).on { s with calls := [] }).2

lemma grows_reported (settings : Settings) (source : String) :
    (reportOpenBlocks.on (stated settings source)).2.bench.Sane ∧
      (stated settings source).bench.Grows
        (reportOpenBlocks.on (stated settings source)).2.bench := by
  obtain ⟨b, hreport, hsane, hgrows⟩ := on_reportBlocks (stated settings source).blocks
    (fine_stated settings source).sane
  change (reportOpenBlocks.on (stated settings source)).2 = _ at hreport
  rw [hreport]
  exact ⟨hsane, hgrows⟩

lemma extends_placing (n : Nat) :
    (stated settings source).bench.globals.Extends (placing settings source n).bench.globals ∧
      (placing settings source n).bench.globals.Extends
        (expanded settings source).bench.globals := by
  obtain ⟨hsane, hgrows⟩ := grows_reported settings source
  have hfinal : expanded settings source =
      ((((reportOpenBlocks.on (stated settings source)).2.calls.drop n).forM insertCall).on
        (placing settings source n)).2 := by
    have hsplit : ∀ (before calls : List CallSite) (s : Session),
        (((before ++ calls).forM insertCall).on s).2 =
          ((calls.forM insertCall).on ((before.forM insertCall).on s).2).2 := by
      intro before calls
      induction before with
      | nil => exact fun _ => rfl
      | cons c before ih => exact fun s => ih ((insertCall c).on s).2
    rw [placing, ← hsplit, List.take_append_drop]
    rfl
  have htaken := grows_insertCalls ((reportOpenBlocks.on (stated settings source)).2.calls.take n)
    (s := { (reportOpenBlocks.on (stated settings source)).2 with calls := [] }) hsane
  rw [hfinal]
  exact ⟨(hgrows.trans htaken.2).globals.cells, (grows_insertCalls _ htaken.1).2.globals.cells⟩

lemma after_eq_stated {n : Nat} (h : (Lexer.tokenize source).1.length ≤ n) :
    after settings source n = stated settings source := by
  induction n, h using Nat.le_induction with
  | base => rfl
  | succ n hn ih =>
    have hempty : (stated settings source).bench.tokens = [] :=
      tokens_compileAll _ _ (Nat.le_refl _)
    rw [after_succ, ih, hempty]
    rfl

lemma grows_stated (n : Nat) : (after settings source n).Grows (stated settings source) := by
  have hgrows : ∀ k, (after settings source n).Grows (after settings source (n + k)) := by
    intro k
    induction k with
    | zero => exact .refl _
    | succ k ih => exact ih.trans grows_after_succ
  have hlast := hgrows (Lexer.tokenize source).1.length
  rwa [after_eq_stated (Nat.le_add_left _ _)] at hlast

lemma memoryMap_finish (s : Session) : s.finish.memoryMap = s.bench.globals.cells := rfl

lemma frameMaps_finish (s : Session) :
    s.finish.frameMaps = s.scope.subroutines.map fun x => (x.1, x.2.table.cells) := rfl

lemma base?_cell (s : Session) (name : String) :
    s.resolver.base? (.cell name) = s.bench.globals.address? name := rfl

structure LaysOut (settings : Settings) (source : String) (p : Program) : Prop where
  /-- Every cell has one name, and no two cells have the same one. -/
  cells : p.memoryMap.toList.Nodup
  /-- So it is in every frame. No cell there has a reserved name. -/
  frames : ∀ entry ∈ p.frameMaps, entry.2.toList.Nodup ∧
    ∀ name ∈ entry.2.toList, isReserved name = false
  /-- A variable is where the statements find it, -/
  statements : ∀ n name a, (after settings source n).bench.globals.address? name = some a →
    p.addressOf? name = some a
  /-- where the calls find it, which are lowered when all statements are done, -/
  calls : ∀ n name a, (placing settings source n).bench.globals.address? name = some a →
    p.addressOf? name = some a
  /-- and where the symbols in the code point to. -/
  symbols : ∀ name, (compiled settings source).resolver.base? (.cell name) = p.addressOf? name
  counter : p.memoryMap[0]? = some programCounterName
  display : p.memoryMap[1]? = some displayName
  scratch : ∀ n a : Nat, (compiled settings source).bench.scratch.addresses[n]? = some a ↔
    p.memoryMap[a]? = some (scratchName n)
  /-- All other cells but that of the call stack pointer have names that a program may use. -/
  users : ∀ (a : Nat) name, p.memoryMap[a]? = some name → a = 0 ∨
    a ∈ (compiled settings source).bench.scratch.addresses ∨ name = callStackName ∨
    isReserved name = false
  /-- The call stack is at the end, and nothing else is there. -/
  callStack : ∃ a, p.addressOf? callStackName = some a ∧
    a + 1 + settings.callStackSize = p.memoryMap.size ∧
    (∀ i < settings.callStackSize,
      p.memoryMap[a + 1 + i]? = some (SymbolTable.elementName callStackName i)) ∧
    ∀ n name b, (placing settings source n).bench.globals.address? name = some b → b < a

lemma Arranged.laysOut {s : Session} (h : s.Arranged) (hs : s.Fine)
    (hsettings : s.settings = settings)
    (hcompiled : compiled settings source = (declareCallStack.on s).2)
    (hafter : ∀ n, (after settings source n).bench.globals.Extends s.bench.globals)
    (hplacing : ∀ n, (placing settings source n).bench.globals.Extends s.bench.globals) :
    LaysOut settings source (compiled settings source).finish := by
  set t := s.bench.globals with ht
  set t' := t.declareArray callStackName settings.callStackSize 0 with ht'
  have hglobals : (compiled settings source).bench.globals = t' := by
    rw [hcompiled, ht', ← hsettings]
    rfl
  have hscratch : (compiled settings source).bench.scratch = s.bench.scratch := by
    rw [hcompiled]
    rfl
  have hframes : (compiled settings source).scope = s.scope := by
    rw [hcompiled]
    rfl
  have hmap : (compiled settings source).finish.memoryMap = t'.cells := by
    rw [memoryMap_finish, hglobals]
  have hext : t.Extends t' := t.extends_declareArray _ _ _
  have htidy : t'.Tidy := h.bench.tidy.declareArray (h.bench.callStack_new hs.sane)
    (.inr (by decide)) _ _
  have haddress : ∀ name, (compiled settings source).finish.addressOf? name = t'.address? name := by
    intro name
    rw [Program.addressOf?, hmap, htidy.idxOf?_eq]
  -- the cells of the call stack
  have hnew : ∀ {a : Nat} {name}, t'.cells[a]? = some name → t.cells[a]? = some name ∨
      name = callStackName ∨ ∃ i, name = SymbolTable.elementName callStackName i := by
    intro a name ha
    rcases Nat.lt_trichotomy a t.nextFree with hlt | rfl | hgt
    · exact .inl ((hext.getElem? hlt).symm.trans ha)
    · have hcell := ha.symm.trans (SymbolTable.getElem?_declareArray _ _ _ _)
      exact .inr (.inl (Option.some.inj hcell))
    · obtain ⟨i, -, -, rfl⟩ := SymbolTable.getElem?_declareArray_gt hgt ha
      exact .inr (.inr ⟨i, rfl⟩)
  refine ⟨by rw [hmap]; exact htidy.nodup, fun entry hentry => ?_, fun n name a ha => ?_,
    fun n name a ha => ?_, fun name => ?_, ?_, ?_, fun n a => ?_, fun a name ha => ?_,
    t.nextFree, ?_, ?_,
    fun i hi => ?_, fun n name b hb => ?_⟩
  · rw [frameMaps_finish, hframes] at hentry
    obtain ⟨x, hx, rfl⟩ := List.mem_map.mp hentry
    exact ⟨(h.frames x hx).1.nodup, (h.frames x hx).2⟩
  · rw [haddress]
    exact htidy.address?_of_extends ((hafter n).trans hext) ha
  · rw [haddress]
    exact htidy.address?_of_extends ((hplacing n).trans hext) ha
  · rw [haddress, base?_cell, hglobals]
  · rw [hmap]
    exact hext.getElem?_eq_some hs.sane.counter
  · rw [hmap]
    exact hext.getElem?_eq_some hs.sane.display
  · rw [hmap, hscratch, hs.sane.scratch_iff]
    refine ⟨hext.getElem?_eq_some, fun ha => ?_⟩
    rcases hnew ha with hold | hcall | ⟨i, hi⟩
    · exact hold
    · exact absurd hcall.symm (Workbench.callStackName_ne_scratchName n)
    · have hreserved := isReserved_scratchName n
      rw [hi, isReserved_elementName] at hreserved
      exact absurd hreserved Bool.false_ne_true
  · rw [hmap] at ha
    rw [hscratch]
    rcases hnew ha with hold | hcall | ⟨i, rfl⟩
    · exact (h.bench.names hold).imp_right (Or.imp_right .inr)
    · exact .inr (.inr (.inl hcall))
    · exact .inr (.inr (.inr (isReserved_elementName _ i)))
  · rw [haddress]
    exact t.address?_declareArray _ _ _
  · rw [hmap]
    have hsize := t.nextFree_declareArray callStackName settings.callStackSize 0
    rw [SymbolTable.nextFree, Nat.max_eq_left (Nat.zero_le _)] at hsize
    exact hsize.symm
  · have hlength : t.cells.toList.length = t.nextFree := by simp [SymbolTable.nextFree]
    have hindex : t.nextFree + 1 + i - t.cells.toList.length = i + 1 := by omega
    rw [hmap, ht', ← Array.getElem?_toList, SymbolTable.toList_declareArray,
      List.getElem?_append_right (by omega), hindex, List.getElem?_cons_succ, List.getElem?_map,
      Nat.max_eq_left (Nat.zero_le _), List.getElem?_range hi]
    rfl
  · exact (SymbolTable.lt_nextFree_of_address? hb).trans_le (hplacing n).nextFree_le

lemma settings_expanded (settings : Settings) (source : String) :
    (expanded settings source).settings = settings :=
  (compiled_invariant (P := fun s => s.settings = settings) rfl (fun _ _ _ _ _ h => h)
    (fun _ _ _ _ _ _ he h => (settings_effect he).trans h) fun _ _ _ _ _ h => h).2

lemma arranged_expanded (settings : Settings) {source : String} (h : '"' ∉ source.toList) :
    (expanded settings source).Fine ∧ (expanded settings source).Arranged := by
  have hwords := Lexer.simple_tokenize h
  exact compiled_invariant (arranged_started settings source)
    (fun s b _ hsane hg h => h.on_bench hsane hg)
    (fun s s' hs hs' _ hsub he h => h.effect hs hs' (fun t ht => hwords t (hsub ht)) he)
    (fun s c calls hs _ h => h.expand hs c calls)

/-- In a source without double quotes, with errors or without, every cell has a name of its own,
which means that cell from its declaration on; the program counter and the display come first,
scratch cells have the names of scratch cells and no other cell has, and the call stack comes
last. -/
theorem memory_laid_out (settings : Settings) (source : String) (h : '"' ∉ source.toList) :
    LaysOut settings source (compile settings source) := by
  obtain ⟨hs, harranged⟩ := arranged_expanded settings h
  have hplacing : ∀ n, (placing settings source n).bench.globals.Extends
      (expanded settings source).bench.globals := fun n => (extends_placing n).2
  have hstated : (stated settings source).bench.globals.Extends
      (expanded settings source).bench.globals := (extends_placing 0).1.trans (hplacing 0)
  exact harranged.laysOut hs (settings_expanded settings source)
    (compiled_eq_expanded settings source) (fun n => (grows_stated n).globals.trans hstated)
    hplacing

end

/-- A source with errors: a variable is declared twice, and a parameter has a reserved name. -/
def redeclared : String :=
  "my a[2]; my a; sub f(n, scratch0, b[1]) \x7b n = a[n]; \x7d my c = 7; call c = f(a[c]).n;"

/-- The memory is laid out all the same. -/
theorem memory_laid_out_redeclared : '"' ∉ redeclared.toList ∧
    (compile { callStackSize := 3 } redeclared).hasErrors = true ∧
    LaysOut { callStackSize := 3 } redeclared (compile { callStackSize := 3 } redeclared) :=
  ⟨by decide +kernel, by decide +kernel, memory_laid_out _ _ (by decide +kernel)⟩

end Session
end CogolToolchain
