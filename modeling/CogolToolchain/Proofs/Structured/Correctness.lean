import CogolToolchain.Proofs.Compile.Blocks
import CogolToolchain.Proofs.Structured.Body

/-!
Structured programs run as they mean.

A compiled program starts with the preamble, which presets the cells of initialized variables, and
the instruction that sets up the call stack; the code of the statements follows. From a memory of
zeros the preamble makes the memory in which the interpretation starts, and the rest does what the
statements mean (`Structured.runs_as_interpreted`).
-/

namespace CogolToolchain
namespace Structured

open Grammar Machine Memory Work Attempt Build Statement ScratchPool

/-! ### Presets -/

/-- The presets are for different cells, from `lo` to below `hi`. -/
structure Within (lo hi : Nat) (presets : List Preset) : Prop where
  nodup : (presets.map Prod.fst).Nodup
  bounds : ∀ p ∈ presets, lo ≤ p.1 ∧ p.1 < hi

section Presets

variable {lo mid hi a : Nat} {p q presets : List Preset} {map : Array String} {t t' : SymbolTable}

lemma within_nil (lo hi : Nat) : Within lo hi [] := ⟨by simp, by simp⟩

lemma Within.append (hp : Within lo mid p) (hq : Within mid hi q) (hlo : lo ≤ mid)
    (hhi : mid ≤ hi) : Within lo hi (p ++ q) := by
  refine ⟨?_, fun x hx => ?_⟩
  · rw [List.map_append, List.nodup_append]
    refine ⟨hp.nodup, hq.nodup, fun a ha b hb => ?_⟩
    obtain ⟨x, hx, rfl⟩ := List.mem_map.mp ha
    obtain ⟨y, hy, rfl⟩ := List.mem_map.mp hb
    have hx := hp.bounds x hx
    have hy := hq.bounds y hy
    omega
  · rcases List.mem_append.mp hx with hx | hx
    · have := hp.bounds x hx
      omega
    · have := hq.bounds x hx
      omega

lemma within_presetsAt (a : Nat) (x : Declarator) :
    Within a (a + 1 + elements x) (presetsAt a x) := by
  cases x with
  | word => exact within_nil _ _
  | wordWithDefault n => exact ⟨by simp [presetsAt], by simp [presetsAt, elements]⟩
  | array n values =>
    have hfst : (presetsAt a (.array n values)).map Prod.fst =
        List.range' (a + 1) values.length ++ [a] := by
      have hmap := congrArg (List.map (a + 1 + ·)) (List.zipIdx_map_snd 0 values)
      rw [List.map_add_range', Nat.add_zero, List.map_map] at hmap
      rw [presetsAt, List.map_append, List.map_map, ← hmap]
      rfl
    refine ⟨?_, fun p hp => ?_⟩
    · rw [hfst, List.nodup_append]
      refine ⟨List.nodup_range', List.nodup_singleton a, fun x hx y hy => ?_⟩
      rw [List.mem_range'_1] at hx
      rw [List.mem_singleton] at hy
      omega
    · have hmem := List.mem_map_of_mem (f := Prod.fst) hp
      rw [hfst, List.mem_append, List.mem_range'_1, List.mem_singleton] at hmem
      have hle := Nat.le_max_right n values.length
      rw [elements]
      omega

/-- A table that reaches from `t` to the variables of a program within the memory map. -/
structure Spans (map : Array String) (t t' : SymbolTable) (presets : List Preset) : Prop where
  within : Within t.nextFree t'.nextFree presets
  le : t.nextFree ≤ t'.nextFree
  size : t'.nextFree ≤ map.size

lemma Spans.trans {t'' : SymbolTable} (h : Spans map t t' p) (h' : Spans map t' t'' q) :
    Spans map t t'' (p ++ q) :=
  ⟨h.within.append h'.within h.le h'.le, h.le.trans h'.le, h'.size⟩

lemma spans_decl {d : Decl} (h : bindDecl? map t d = some (t', presets)) :
    Spans map t t' presets := by
  simp only [bindDecl?, Option.bind_eq_bind, Option.bind_eq_some_iff, Option.pure_def,
    Option.some.injEq, Prod.mk.injEq] at h
  obtain ⟨x, -, a, ha, rfl, rfl⟩ := h
  rw [place?, List.find?_range'_eq_some, List.mem_range'_1] at ha
  obtain ⟨hroom, ⟨hle, hlt⟩, -⟩ := ha
  simp only [Bool.and_eq_true, decide_eq_true_eq] at hroom
  have hnext : (extend map t d.name a (elements x) (typeOf x)).nextFree = a + 1 + elements x := by
    rw [SymbolTable.nextFree, extend, Array.size_extract]
    omega
  have hwithin := within_presetsAt a x
  refine ⟨?_, by omega, by omega⟩
  rw [hnext]
  exact ⟨hwithin.nodup, fun p hp => by have := hwithin.bounds p hp; omega⟩

lemma spans_bind? {body : Body} (h : body.bind? map t = some (t', presets))
    (hsize : t.nextFree ≤ map.size) : Spans map t t' presets := by
  induction body generalizing t t' presets with
  | done =>
    obtain ⟨rfl, rfl⟩ := Prod.mk.inj (Option.some.inj h)
    exact ⟨within_nil _ _, Nat.le_refl _, hsize⟩
  | empty rest ih | assign _ rest ih => exact ih h hsize
  | declare d rest ih =>
    obtain ⟨t₁, p, q, hd, hrest, rfl⟩ := chain_eq_some.mp h
    have hspan := spans_decl hd
    exact hspan.trans (ih hrest hspan.size)
  | ifThen _ _ body rest ihbody ihrest | whileLoop _ _ body rest ihbody ihrest
  | doWhile _ body _ rest ihbody ihrest =>
    obtain ⟨t₁, p, q, hbody, hrest, rfl⟩ := chain_eq_some.mp h
    have hspan := ihbody hbody hsize
    exact hspan.trans (ihrest hrest hspan.size)
  | ifElse _ _ yes _ no rest ihyes ihno ihrest =>
    obtain ⟨t₂, _, l, hblock, hrest, rfl⟩ := chain_eq_some.mp h
    obtain ⟨t₁, p, q, hyes, hno, rfl⟩ := chain_eq_some.mp hblock
    have hspan := ihyes hyes hsize
    have hspan' := hspan.trans (ihno hno hspan.size)
    exact hspan'.trans (ihrest hrest hspan'.size)

end Presets

/-! ### The start of a program -/

section Start

variable {R : Resolver} {prog : List WordInstruction} {k : Nat} {presets : List Preset}

lemma eqOff_preset {s : Set Word} {m m' : Memory} (h : EqOff s m m') (presets : List Preset) :
    EqOff s (preset m presets) (preset m' presets) := by
  induction presets generalizing m m' with
  | nil => exact h
  | cons p presets ih => exact ih (h.write _ _)

lemma leads_set {source dest : Operand} {c w : Word} (hst : R.Stands prog k [.copy source dest])
    (hs : R.word source = ⟨.constant, w⟩) (hd : R.word dest = ⟨.constant, c⟩)
    (hc : c ≠ 0) (hc' : c ≠ 1) (m : Memory) (d : Array Word) :
    Leads prog 1 ⟨k, m, d⟩ ⟨k + 1, (m.arrive k).write c w, d⟩ := by
  have hshows := shows_constant m {0}
  have hleads := Leads.of_store (sits_cons.mp hst.sits).1 (Set.mem_singleton 0)
    (hshows (UInt16.ofInt (-1))) (by simp) (hs ▸ hshows w) (by simp) (hd ▸ hshows c) (by simp)
    (w := w) rfl hc d
  rwa [if_neg hc'] at hleads

lemma leads_presets (hst : R.Stands prog k (presetCode presets)) (hw : Within 2 65536 presets)
    {m : Memory} (hzero : ∀ p ∈ presets, m.read (UInt16.ofNat p.1) = 0) (d : Array Word) :
    ∃ n m', Leads prog n ⟨k, m, d⟩ ⟨k + (presetCode presets).length, m', d⟩ ∧
      EqOff {0} (preset m presets) m' := by
  induction presets generalizing k m with
  | nil => exact ⟨0, m, Leads.refl prog _, EqOff.refl _ _⟩
  | cons p presets ih =>
    obtain ⟨a, n⟩ := p
    have ha := hw.bounds (a, n) (by simp)
    have hnodup := hw.nodup
    rw [List.map_cons, List.nodup_cons] at hnodup
    have hw' : Within 2 65536 presets := ⟨hnodup.2, fun p hp => hw.bounds p (by simp [hp])⟩
    have hcode : presetCode ((a, n) :: presets) = initialCode a n ++ presetCode presets := rfl
    rw [hcode, R.stands_append] at hst
    by_cases hn : n = 0
    · rw [initialCode, if_pos hn] at hcode hst
      obtain ⟨steps, m', hleads, hm'⟩ := ih hst.2 hw' fun p hp => hzero p (by simp [hp])
      refine ⟨steps, m', ?_, (eqOff_preset ?_ presets).trans hm'⟩
      · rwa [hcode, List.nil_append]
      · intro c _
        rw [Memory.read_write, hn]
        split
        · rename_i hac
          rw [← hac]
          exact hzero (a, n) (by simp)
        · rfl
    · rw [initialCode, if_neg hn] at hcode hst
      have hset := leads_set hst.1 (R.word_constant n) (c := UInt16.ofNat a)
        (R.word_cellDest a) (Word.ofNat_ne_of_lt (b := 0) (by omega) ha.2)
        (Word.ofNat_ne_of_lt (b := 1) (by omega) ha.2) m d
      obtain ⟨steps, m', hleads, hm'⟩ := ih hst.2 hw' (m := (m.arrive k).write _ (UInt16.ofInt n))
        fun p hp => by
          have hp' := hw'.bounds p hp
          have hother : UInt16.ofNat a ≠ UInt16.ofNat p.1 := fun h =>
            hnodup.1 (Word.ofNat_inj ha.2 hp'.2 h ▸ List.mem_map_of_mem hp)
          have hcounter : (0 : Word) ≠ UInt16.ofNat p.1 :=
            (Word.ofNat_ne_of_lt (b := 0) (by omega) hp'.2).symm
          rw [read_write_ne _ _ hother, Memory.arrive, read_write_ne _ _ hcounter]
          exact hzero p (by simp [hp])
      refine ⟨1 + steps, m', ?_, (eqOff_preset ?_ presets).trans hm'⟩
      · rw [hcode, List.singleton_append, List.length_cons, Nat.add_comm _ 1, ← Nat.add_assoc]
        exact hset.trans hleads
      · exact (eqOff_arrive (Set.mem_singleton 0) m k).write _ _

end Start

/-! ### Whole programs -/

section Program

variable {s f : Session} {t : SymbolTable} {body : Body}

lemma Reaches.eq_of_nil (h : Reaches f t [] s) : s = f := by
  obtain ⟨n, hn⟩ := h.heads
  rw [← hn.run]
  cases n with
  | zero => rfl
  | succ n => simp [compileAll, h.tokens]

/-- The session before the first statement of a structured program. -/
structure Begins (f : Session) (body : Body) (s : Session) : Prop where
  reaches : Reaches f initialTable body.tokens s
  program : s.program = [Session.preloadCallStack]
  preamble : s.preamble = []

variable {map : Array String} {presets : List Preset}

/-- What a structured program without errors leaves behind: no subroutine and no call, and the
presets in the preamble. -/
lemma Begins.scope (h : Begins f body s) (hvalid : body.IsValid) (hclean : f.bench.Clean)
    (hcells : f.bench.globals.cells.toList <+: map.toList) (hsize : map.size < 65536)
    (hbind : body.bind? map initialTable = some (t, presets)) :
    f.scope = {} ∧ f.calls = [] ∧ f.preamble = presetCode presets := by
  -- any resolver will do, since the code does not matter here
  have hends : Ends f map ⟨{}, {}, []⟩ := ⟨hclean, hcells, hsize, fun _ _ => rfl⟩
  have hreach := h.reaches
  rw [← List.append_nil body.tokens] at hreach
  obtain ⟨s', hreach', hadds⟩ := exists_body hends body hvalid hreach (by simp [Tokens.peek]) hbind
  obtain rfl := hreach'.eq_of_nil
  refine ⟨hreach'.scope, hreach'.calls, ?_⟩
  rw [hadds.preamble, h.preamble, List.nil_append]

lemma pads_new (settings : Settings) : initialTable.Pads (Session.new settings).bench.globals := by
  have hfold : ∀ (numbers : List Nat) (t : SymbolTable),
      t.Pads (numbers.foldl (fun t n => t.declareWord (scratchName n)) t) := by
    intro numbers
    induction numbers with
    | nil => exact .refl
    | cons n numbers ih => exact fun t => (t.pads_declareWord n).trans (ih _)
  exact hfold _ _

lemma begins_started {settings : Settings} {source : String}
    (htokens : (Lexer.tokenize source).1 = body.tokens) :
    Begins (Session.stated settings source) body (Session.started settings source) where
  reaches :=
    { heads := ⟨_, rfl, Nat.le_refl _, Session.fine_started settings source⟩
      tokens := htokens
      pads := pads_new settings
      program := by simp [Session.started]
      scope := rfl
      calls := rfl }
  program := rfl
  preamble := rfl

lemma compiled_of_calls {settings : Settings} {source : String}
    (hc : (Session.compiled settings source).bench.Clean)
    (hcalls : (Session.stated settings source).calls = []) :
    Session.compiled settings source =
      (Session.declareCallStack.on (Session.stated settings source)).2 := by
  rw [Session.compiled_eq_expanded]
  refine congrArg (fun s => (Session.declareCallStack.on s).2) ?_
  refine (Session.expanded_induction (P := fun s => s = Session.stated settings source)
    (Session.clean_expanded hc) (fun _ _ => rfl) fun s c calls _ hs h => ?_).2.2
  rw [h, hcalls] at hs
  simp at hs

variable {settings : Settings} {source : String}

lemma clean_of_hasErrors (h : (compile settings source).hasErrors = false) :
    (Session.compiled settings source).bench.Clean := fun d hd => by
  have hall := List.any_eq_false.mp h d (List.mem_append_left _ hd)
  simpa using hall

lemma leads_preload {R : Resolver} {prog : List WordInstruction} {k call : Nat}
    (hst : R.Stands prog k [Session.preloadCallStack])
    (hcall : R.base? (.cell callStackName) = some call) (hlow : 2 ≤ call) (hhigh : call < 65536)
    (m : Memory) (d : Array Word) : Leads prog 1 ⟨k, m, d⟩
      ⟨k + 1, (m.arrive k).write (UInt16.ofNat call) (UInt16.ofNat call + 1), d⟩ := by
  refine leads_set hst.of_tagged.1 ?_ ?_ (Word.ofNat_ne_of_lt (b := 0) (by omega) hhigh)
    (Word.ofNat_ne_of_lt (b := 1) (by omega) hhigh) m d
  · rw [Operand.named, R.word_symbolic hcall, UInt16.ofInt_add, UInt16.ofInt_one,
      Word.ofInt_natCast]
  · rw [callStackPointer, Operand.named, R.word_symbolic hcall, Int.add_zero, Word.ofInt_natCast]

lemma word_slot_of_scope {R : Resolver} (h : R.scope = {}) (owner name : String) :
    R.word (.slot owner name) = ⟨.constant, 0⟩ := by
  have hnone : R.base? (.slot owner name) = none := by
    show (R.scope.frame? owner).bind _ = none
    rw [h]
    rfl
  rw [Resolver.word, Resolver.operand, Operand.slot]
  simp only [Resolver.number?, hnone]
  rfl

/-- The program first makes the memory in which the interpretation starts, and then does what the
statements mean. -/
lemma Begins.exists_start (h : Begins f body s) (hvalid : body.IsValid)
    {R : Resolver} (hends : Ends f map R) (hbind : body.bind? map initialTable = some (t, presets))
    {call : Nat} (hcall : R.base? (.cell callStackName) = some call)
    (hmap : SymbolTable.address? { cells := map } callStackName = some call) (hlow : 2 ≤ call)
    {prog : List WordInstruction} (hst : R.Stands prog 0 (f.preamble ++ f.program))
    (hlength : prog.length = (f.preamble ++ f.program).length) (hsmall : prog.length < 65536)
    {m : Memory} (hm : EqOff {0} .zero m) :
    ∃ k n m', Leads prog n ⟨0, m, #[]⟩ ⟨k, m', #[]⟩ ∧
      EqOff (hidden map) (initial map presets).memory m' ∧
      Simulates prog (hidden map) k prog.length fun fuel => body.exec map fuel initialTable := by
  obtain ⟨-, hcalls, hpreamble⟩ := h.scope hvalid hends.clean hends.cells hends.size hbind
  have hreach := h.reaches
  rw [← List.append_nil body.tokens] at hreach
  obtain ⟨s', hreach', hadds⟩ := exists_body hends body hvalid hreach (by simp [Tokens.peek]) hbind
  obtain rfl := hreach'.eq_of_nil
  rw [hpreamble] at hst hlength
  obtain ⟨hpresets, hstatements⟩ := R.stands_append.mp hst
  have hcells : call < map.size := SymbolTable.lt_nextFree_of_address? hmap
  have hlt : call < 65536 := hcells.trans hends.size
  -- the presets
  have hspans := spans_bind? hbind (hlow.trans hcells.le)
  have hwithin : Within 2 65536 presets :=
    ⟨hspans.within.nodup, fun p hp => by
      have hbounds : 2 ≤ p.1 ∧ p.1 < t.nextFree := hspans.within.bounds p hp
      have htop := hspans.size.trans_lt hends.size
      omega⟩
  obtain ⟨n, m₁, hleads, hm₁⟩ := leads_presets hpresets hwithin (m := m) (fun p hp => by
    have hbounds := hwithin.bounds p hp
    rw [hm _ (Word.ofNat_ne_of_lt (b := 0) (by omega) hbounds.2)]
    simp [Memory.read, Memory.zero]) #[]
  -- the call stack pointer
  have hpre := stands_of_grows hadds.grows h.reaches.calls hcalls hstatements
  rw [h.program] at hpre
  have hpreload := leads_preload hpre hcall hlow hlt m₁ #[]
  refine ⟨_, _, _, hleads.trans hpreload, ?_, ?_⟩
  · have hzero : (0 : Word) ∈ hidden map := by simp [hidden, isHidden]
    have hinitial : (initial map presets).memory =
        (preset .zero presets).write (UInt16.ofNat call) (UInt16.ofNat call + 1) := by
      rw [initial, hmap]
      rfl
    rw [hinitial]
    refine EqOff.write ?_ _ _
    have hall : EqOff {0} (preset .zero presets) m₁ := (eqOff_preset hm presets).trans hm₁
    exact (hall.trans (eqOff_arrive (Set.mem_singleton 0) m₁ _)).mono
      (Set.singleton_subset_iff.mpr hzero)
  · have hsim := hadds.simulates prog _ hsmall hstatements
    rw [h.program] at hsim
    rw [hlength, List.length_append]
    simpa using hsim

lemma exists_start (htokens : (Lexer.tokenize source).1 = body.tokens) (hvalid : body.IsValid)
    (hc : (Session.compiled settings source).bench.Clean)
    (hmap : (Session.compiled settings source).bench.globals.cells = map) (hsize : map.size < 65536)
    (hbind : body.bind? map initialTable = some (t, presets))
    {prog : List WordInstruction} (hprog : (Session.compiled settings source).resolver.words
      (Session.compiled settings source).joined = prog) (hsmall : prog.length < 65536)
    {m : Memory} (hm : EqOff {0} .zero m) :
    ∃ k n m', Leads prog n ⟨0, m, #[]⟩ ⟨k, m', #[]⟩ ∧
      EqOff (hidden map) (initial map presets).memory m' ∧
      Simulates prog (hidden map) k prog.length fun fuel => body.exec map fuel initialTable := by
  have hbegins : Begins (Session.stated settings source) body _ := begins_started htokens
  have hclean := Session.clean_stated hc
  have hstands := (Session.complete_compiled hc).stands
  have hcells : (Session.stated settings source).bench.globals.cells.toList <+: map.toList := by
    have hext : (Session.stated settings source).bench.globals.Extends _ :=
      (Session.extends_placing 0).1.trans (Session.extends_placing 0).2
    rw [← hmap, Session.compiled_eq_expanded]
    exact hext.trans (SymbolTable.extends_declareArray _ _ _ _)
  obtain ⟨hscope, hcalls, -⟩ := hbegins.scope hvalid hclean hcells hsize hbind
  have hcompiled := compiled_of_calls hc hcalls
  generalize Session.compiled settings source = s at *
  generalize Session.stated settings source = f at *
  -- the call stack is declared last
  have hcall : s.bench.globals.address? callStackName = some f.bench.globals.nextFree := by
    rw [hcompiled]
    exact SymbolTable.address?_declareArray _ _ _ _
  refine hbegins.exists_start hvalid (R := s.resolver) ⟨hclean, hcells, hsize, ?_⟩ hbind
    hcall ?_ ?_ ?_ ?_ hsmall hm
  · exact word_slot_of_scope (by rw [hcompiled]; exact hscope)
  · rw [← hcall]
    exact SymbolTable.address?_congr hmap.symm
  · exact hbegins.reaches.pads.cells.nextFree_le.trans hbegins.reaches.grows.globals.nextFree_le
  · rw [hprog] at hstands
    rw [hcompiled] at hstands ⊢
    exact hstands
  · rw [← hprog, Resolver.length_words, hcompiled]
    rfl

lemma code_compile (source : String) (h : settings.optimize = false) :
    (compile settings source).code = .nop ::
      (Session.compiled settings source).resolver.code
        (Session.compiled settings source).joined := by
  have hsettings : (Session.compiled settings source).settings.optimize = false := by
    have hexpanded := Session.settings_expanded settings source
    rw [Session.compiled_eq_expanded]
    generalize Session.expanded settings source = s at hexpanded ⊢
    exact hexpanded ▸ h
  rw [Session.compile_eq_finish]
  simp [Session.finish, hsettings]

end Program

end Structured
end CogolToolchain
