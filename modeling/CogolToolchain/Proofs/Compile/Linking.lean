import CogolToolchain.Proofs.Compile.Expansion

/-!
The symbols of a program without errors are all resolved.

At the end no block is open and no call waits, so the labels that `Session.Linked` counts are those
that the instructions carry. Every label in an operand is carried by one instruction and every
variable is declared (`Session.resolves_all`). The only symbols that may mean nothing are fields of
frames.
-/

namespace CogolToolchain
namespace Session

/-- The session at the end of a compilation without errors. -/
structure Complete (s : Session) : Prop where
  linked : s.Linked
  blocks : s.blocks = []
  calls : s.calls = []
  callStack : s.bench.globals.contains callStackName = true

lemma Linked.declareCallStack {s : Session} (h : s.Linked) :
    (Session.declareCallStack.on s).2.Linked := by
  refine h.of_adds ⟨[], .nil _ _, fun _ => rfl⟩ (SymbolTable.extends_declareArray _ _ _ _)
    (List.Subset.refl _) (Nat.le_refl _) h.started (fun ref href => .inl (h.program ref href))
    (fun b hb ref href => .inl (h.trailers b hb ref href)) (fun _ hb _ => .inl hb)
    (fun _ frame hframe => .inl ⟨frame, hframe, rfl, fun _ => id⟩) h.preamble

lemma linked_expanded {settings : Settings} {source : String}
    (hc : (compiled settings source).bench.Clean) : (expanded settings source).Linked ∧
      (expanded settings source).blocks = [] ∧ (expanded settings source).calls = [] := by
  have hstated : (stated settings source).bench.Clean → (stated settings source).Linked :=
    fun hclean =>
    (linked_started settings source).compileAll (Lexer.tokenize source).1.length
      (fine_started settings source) hclean
  obtain ⟨-, hcalls, hlinked, hblocks⟩ :=
    expanded_induction (P := fun s => s.Linked ∧ s.blocks = []) (clean_expanded hc)
      (fun hclean hblocks => ⟨hstated hclean, hblocks⟩)
    (fun s c calls hs hcalls h => ⟨h.1.expand hs hcalls, h.2⟩)
  exact ⟨hlinked, hblocks, hcalls⟩

theorem complete_compiled {settings : Settings} {source : String}
    (hc : (compiled settings source).bench.Clean) : (compiled settings source).Complete := by
  obtain ⟨hlinked, hblocks, hcalls⟩ := linked_expanded hc
  rw [compiled_eq_expanded]
  generalize expanded settings source = s at hlinked hblocks hcalls
  refine ⟨hlinked.declareCallStack, hblocks, hcalls, ?_⟩
  show (s.bench.globals.declareArray _ _ _).contains _ = true
  rw [SymbolTable.contains, SymbolTable.address?_declareArray]
  rfl

section

variable {s : Session}

lemma Complete.marks_eq (h : s.Complete) : s.marks = Code.tags s.joined := by
  rw [marks, items, h.calls, h.blocks, itemsOf, List.flatMap_map, joined, Code.tags_append,
    h.linked.preamble.1]
  simp [Code.tags, Item.tags]

lemma Complete.knows_of_mem (h : s.Complete) {ref : SymbolRef} (href : ref ∈ Code.refs s.joined) :
    s.Knows ref.symbol := by
  rw [joined, Code.refs_append, h.linked.preamble.2, List.nil_append] at href
  exact h.linked.program ref href

lemma Complete.lookup_of_mem (h : s.Complete) {l : Label} {k : Nat} {i : Instruction}
    (hk : s.joined[k]? = some i) (hl : l ∈ i.tags) : s.resolver.labels.lookup l = some k :=
  Resolver.lookup_labelsOf (h.marks_eq ▸ h.linked.nodup) hk hl

lemma Complete.lookup_label (h : s.Complete) {l : Label} (hl : s.Knows (.label l)) :
    ∃ k, s.resolver.base? (.label l) = some k ∧
      ∀ j, (∃ i, s.joined[j]? = some i ∧ l ∈ i.tags) ↔ j = k := by
  have hmem : l ∈ Code.tags s.joined := h.marks_eq ▸ hl
  obtain ⟨i, hi, hil⟩ := List.mem_flatMap.mp hmem
  obtain ⟨k, hk⟩ := List.getElem?_of_mem hi
  have hlookup := h.lookup_of_mem hk hil
  refine ⟨k, hlookup, fun j => ⟨?_, ?_⟩⟩
  · rintro ⟨i', hj, hil'⟩
    exact Option.some.inj ((h.lookup_of_mem hj hil').symm.trans hlookup)
  · rintro rfl
    exact ⟨i, hk, hil⟩

lemma Complete.lookup_cell (h : s.Complete) {name : String} (hname : s.Knows (.cell name)) :
    ∃ n, s.bench.globals.address? name = some n := by
  have hcontains : s.bench.globals.contains name = true := by
    rcases hname with rfl | hname
    · exact h.callStack
    · exact hname
  exact Option.isSome_iff_exists.mp hcontains

end

/-- What the operand `a` of a program becomes: a label stands for the one instruction that carries
it, a variable for its address and a parameter for its offset in the frame, each with the offset of
the reference added. -/
def Resolves (s : Session) (a : Operand) : Prop :=
  match a.value with
  | .known _ => s.resolver.operand a = a
  | .symbolic ⟨.label l, offset⟩ => ∃ k : Nat,
      (∀ j, (∃ i, s.joined[j]? = some i ∧ l ∈ i.tags) ↔ j = k) ∧
      s.resolver.operand a = ⟨a.mode, .known (k + offset)⟩
  | .symbolic ⟨.cell name, offset⟩ => ∃ n : Nat,
      s.bench.globals.address? name = some n ∧ s.resolver.operand a = ⟨a.mode, .known (n + offset)⟩
  | .symbolic ⟨.slot owner name, offset⟩ => ∀ frame (n : Nat), s.scope.frame? owner = some frame →
      frame.table.address? name = some n → s.resolver.operand a = ⟨a.mode, .known (n + offset)⟩

lemma operand_of_base? {s : Session} {mode : Mode} {symbol : Symbol} {offset : Int} {n : Nat}
    (h : s.resolver.base? symbol = some n) :
    s.resolver.operand ⟨mode, .symbolic ⟨symbol, offset⟩⟩ = ⟨mode, .known (n + offset)⟩ := by
  simp [Resolver.operand, Resolver.number?, h]

lemma Complete.resolves {s : Session} (h : s.Complete) {a : Operand}
    (hk : ∀ ref, a.value = .symbolic ref → s.Knows ref.symbol) : s.Resolves a := by
  rcases a with ⟨mode, n | ⟨name | ⟨owner, name⟩ | l, offset⟩⟩
  · rfl
  · obtain ⟨n, hn⟩ := h.lookup_cell (hk _ rfl)
    exact ⟨n, hn, operand_of_base? hn⟩
  · intro frame n hframe hn
    refine operand_of_base? ?_
    show (s.scope.frame? owner).bind _ = some n
    rw [hframe]
    exact hn
  · obtain ⟨k, hk, hcarried⟩ := h.lookup_label (hk _ rfl)
    exact ⟨k, hcarried, operand_of_base? hk⟩

lemma Complete.slot_of_problem {s : Session} (h : s.Complete) {a : Operand} {p : Problem}
    (hk : ∀ ref, a.value = .symbolic ref → s.Knows ref.symbol)
    (hp : s.resolver.problem? a = some p) : ∃ owner name offset, a.value =
    .symbolic ⟨.slot owner name, offset⟩ := by
  rcases a with ⟨mode, n | ⟨name | ⟨owner, name⟩ | l, offset⟩⟩
  · simp [Resolver.problem?] at hp
  · obtain ⟨n, hn⟩ := h.lookup_cell (hk _ rfl)
    have hbase : s.resolver.base? (.cell name) = some n := hn
    simp [Resolver.problem?, Resolver.number?, hbase] at hp
  · exact ⟨owner, name, offset, rfl⟩
  · obtain ⟨k, hk, -⟩ := h.lookup_label (hk _ rfl)
    simp [Resolver.problem?, Resolver.number?, hk] at hp

/-- In a program that has no errors when its symbols are resolved, every label in an operand is
carried by one instruction and every variable is declared, all operands get the numbers of their
symbols, and whatever cannot be resolved is a field of a frame. -/
theorem resolves_all (settings : Settings) (source : String)
    (hc : ∀ d ∈ (compiled settings source).bench.diagnostics, d.isError = false) :
    (∀ i ∈ (compiled settings source).joined, ∀ a ∈ i.operands,
      (compiled settings source).Resolves a) ∧
    ∀ p ∈ (compiled settings source).resolver.problems (compiled settings source).joined,
      ∃ i ∈ (compiled settings source).joined, ∃ a ∈ i.operands, ∃ owner name offset,
        a.value = .symbolic ⟨.slot owner name, offset⟩ ∧
        (compiled settings source).resolver.problem? a = some p := by
  have h := complete_compiled hc
  generalize compiled settings source = s at h
  have hknows : ∀ i ∈ s.joined, ∀ a ∈ i.operands, ∀ ref, a.value = .symbolic ref →
      s.Knows ref.symbol := by
    intro i hi a ha ref href
    refine h.knows_of_mem (Code.mem_refs.mpr ⟨i, hi, ?_⟩)
    exact List.mem_filterMap.mpr ⟨a, ha, by rw [href]; rfl⟩
  refine ⟨fun i hi a ha => h.resolves (hknows i hi a ha), fun p hp => ?_⟩
  obtain ⟨i, hi, hp⟩ := List.mem_flatMap.mp hp
  obtain ⟨a, ha, hp⟩ := List.mem_filterMap.mp hp
  obtain ⟨owner, name, offset, hvalue⟩ := h.slot_of_problem (hknows i hi a ha) hp
  exact ⟨i, hi, a, ha, owner, name, offset, hvalue, hp⟩

/-- A loop with a call, and a field that the frame does not have. -/
def strayField : String :=
  "my r; sub f(n) \x7b r += n; \x7d while (r < 4) \x7b call f(2); \x7d call r = f(1).nope;"

/-- The field is the only problem. -/
theorem resolves_all_strayField :
    (∀ d ∈ (compiled {} strayField).bench.diagnostics, d.isError = false) ∧
    ((compiled {} strayField).resolver.problems (compiled {} strayField).joined).length = 1 ∧
    (∀ i ∈ (compiled {} strayField).joined, ∀ a ∈ i.operands, (compiled {} strayField).Resolves a) ∧
    ∀ p ∈ (compiled {} strayField).resolver.problems (compiled {} strayField).joined,
      ∃ i ∈ (compiled {} strayField).joined, ∃ a ∈ i.operands, ∃ owner name offset,
        a.value = .symbolic ⟨.slot owner name, offset⟩ ∧
        (compiled {} strayField).resolver.problem? a = some p := by
  have hclean : ∀ d ∈ (compiled {} strayField).bench.diagnostics, d.isError = false := by
    decide +kernel
  exact ⟨hclean, by decide +kernel, resolves_all {} strayField hclean⟩

/-! ### Code in the finished program -/

lemma Complete.stands {s : Session} (h : s.Complete) :
    s.resolver.Stands (s.resolver.words s.joined) 0 s.joined := by
  refine ⟨List.prefix_refl _, fun j i hi l hl => ?_⟩
  have hmem : l ∈ s.marks := by
    rw [h.marks_eq]
    exact List.mem_flatMap.mpr ⟨i, List.mem_of_getElem? hi, hl⟩
  obtain ⟨k, hk, hcarried⟩ := h.lookup_label hmem
  rw [Nat.zero_add, (hcarried j).mp ⟨i, hi, hl⟩]
  exact hk

end Session

lemma Resolver.Stands.of_enriches {r : Resolver} {prog : List WordInstruction}
    {k : Nat} {p q : Code} (h : r.Stands prog k q)
    (hpq : Enriches (p.map .instruction) (q.map .instruction)) : r.Stands prog k p := by
  have hget : ∀ (n : Nat) i, p[n]? = some i → ∃ labels, q[n]? =
      some { i with tags := i.tags ++ labels } := by
    intro n i hi
    obtain ⟨labels, hn⟩ := hpq n (.instruction i) (by simp [hi])
    rw [List.getElem?_map, Option.map_eq_some_iff] at hn
    obtain ⟨j, hj, hij⟩ := hn
    exact ⟨labels, by rw [hj, Item.instruction.inj hij]⟩
  refine ⟨?_, fun j i hi l hl => ?_⟩
  · refine List.IsPrefix.trans ?_ h.sits
    rw [List.prefix_iff_getElem?]
    intro n hn
    rw [r.length_words] at hn
    obtain ⟨labels, hq⟩ := hget n p[n] (List.getElem?_eq_getElem hn)
    simp [words, code, hq, Instruction.mapOperands, Instruction.word]
  · obtain ⟨labels, hj⟩ := hget j i hi
    exact h.labels j _ hj l (by simp [hl])

end CogolToolchain
