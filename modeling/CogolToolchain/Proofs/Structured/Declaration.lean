import CogolToolchain.Proofs.Structured.Statement

/-!
Declarations of structured programs.

A declaration that is read without errors says what the interpretation reads in it, and the variable
gets the cell that the memory map shows.
-/

namespace CogolToolchain
namespace Structured

open Grammar Work Attempt Build Statement ScratchPool Declarator

/-! ### The place of a variable -/

section Place

variable {map : Array String} {t g g' : SymbolTable} {name : String} {n : Nat} {type : VarType}

lemma place?_eq (hpads : t.Pads g) (hcells : g.Extends g')
    (hname : g'.cells[g.nextFree]? = some name) (hfree : isReserved name = false)
    (hmap : g'.cells.toList <+: map.toList) (hnext : g'.nextFree = g.nextFree + 1 + n) :
    place? map t name n = some g.nextFree := by
  have hext : g'.Extends ⟨map, []⟩ := hmap
  have hget : ∀ {a : Nat} {x : String}, g'.cells[a]? = some x → map[a]? = some x :=
    hext.getElem?_eq_some
  have hle := hpads.cells.nextFree_le
  have hroom : g.nextFree + n < map.size := by
    have hsize : g'.nextFree ≤ map.size := hext.nextFree_le
    omega
  rw [place?, List.find?_range'_eq_some]
  refine ⟨by simpa [hget hname] using hroom, ?_, fun a ha ha' => ?_⟩
  · rw [List.mem_range'_1]
    omega
  · obtain ⟨x, hx⟩ : ∃ x, g.cells[a]? = some x := ⟨_, Array.getElem?_eq_getElem ha'⟩
    obtain ⟨k, rfl⟩ := hpads.fresh ha hx
    have hne : scratchName k ≠ name := (ne_scratchName hfree k).symm
    rw [hget (hcells.getElem?_eq_some hx)]
    simp [hne]

lemma pads_extend (hpads : t.Pads g) (hmap : g'.cells.toList <+: map.toList)
    (hnext : g'.nextFree = g.nextFree + 1 + n) (htypes : g'.types = (name, type) :: g.types) :
    (extend map t name g.nextFree n type).Pads g' := by
  have hcells : (extend map t name g.nextFree n type).cells = g'.cells := by
    apply Array.toList_inj.mp
    rw [extend, Array.toList_extract, List.extract_eq_take_drop, List.drop_zero,
      Nat.sub_zero, ← hnext]
    exact (List.prefix_iff_eq_take.mp hmap).symm
  refine ⟨?_, fun {a x} ha hx => ?_, fun {x} hx => ?_⟩
  · rw [SymbolTable.Extends, hcells]
  · rw [SymbolTable.nextFree, hcells] at ha
    rw [Array.getElem?_eq_none ha] at hx
    simp at hx
  · have htype := hpads.types hx
    rw [SymbolTable.type?, SymbolTable.type?] at htype ⊢
    rw [htypes, extend, List.lookup_cons, List.lookup_cons, htype]

end Place

/-! ### The statement -/

section Declare

variable {f s : Session} {map : Array String} {R : Resolver} {t t' : SymbolTable} {ts : List Token}
  {presets : List Preset}

lemma on_declaration (hf : Ends f map R) {name : Token} {tail : List Token}
    (h : Reaches f t ("my" :: name :: tail) s) (hgrow : (declaration.on (rested s)).2.Grows f) :
    ∃ x b, Yields (Declarator.read {} name [";"]) { (rested s).bench with tokens := tail } x b ∧
      isReserved name = false ∧ b.Clean ∧
      declaration.on (rested s) = (declareGlobal name x).on { rested s with bench := b } := by
  have hscope : Declarator.read (rested s).scope name [";"] = Declarator.read {} name [";"] :=
    congrArg (Declarator.read · name [";"]) h.scope
  have htokens : (rested s).bench.tokens = _ := h.tokens
  have hclean := hgrow.clean hf.clean
  simp only [declaration, Build.on_bind, on_discard, on_work, Build.on_get, on_pop,
    htokens, Tokens.rest, Tokens.peek] at hclean ⊢
  split at hclean
  · exact absurd hclean (not_clean_report (show (Problem.reservedDeclaration name).IsFatal from rfl)
      _ _)
  · rename_i hfree
    split at hclean
    · exact absurd hclean (not_clean_report (show (Problem.redeclared name).IsFatal from rfl) _ _)
    · rename_i hnew
      rw [if_neg hfree, if_neg hnew]
      simp only [Build.on_bind, on_attempt, hscope] at hclean ⊢
      generalize ({ (rested s).bench with tokens := tail } : Workbench) = b at hclean ⊢
      rcases hread : (Declarator.read {} name [";"]).on b with ⟨_ | x, b'⟩
      · have hfault := (careful_read {} name [";"]).safe.fault b
        rw [hread] at hclean hfault
        exact absurd hclean (hfault rfl)
      · rw [hread] at hclean
        refine ⟨x, b', hread, by simpa using hfree, ?_, rfl⟩
        cases x <;> exact hclean

lemma extends_enter (x : Declarator) (name : Token) (g : SymbolTable) :
    g.Extends (x.enter name g) ∧ (x.enter name g).cells[g.nextFree]? = some name ∧
      (x.enter name g).nextFree = g.nextFree + 1 + elements x ∧
      (x.enter name g).types = (name, typeOf x) :: g.types := by
  cases x with
  | word | wordWithDefault =>
    exact ⟨g.extends_declareWord name, g.getElem?_declareWord name, g.nextFree_declareWord name,
      rfl⟩
  | array size values =>
    exact ⟨g.extends_declareArray name size values.length,
      g.getElem?_declareArray name size values.length,
      g.nextFree_declareArray name size values.length, rfl⟩

lemma stores_eq {base : Nat} (x : Declarator) (hsmall : base < 65535) :
    x.stores base = presetCode (presetsAt base x) := by
  cases x with
  | word => rfl
  | wordWithDefault value => simp [stores, presetCode, presetsAt]
  | array size values =>
    have hfits : Numeral.Fits32 ((base : Int) + 1) := by
      constructor <;> omega
    have hbase : initialCode base ((base : Int) + 1) =
        [.copy (.constant (base + 1)) (.cellDest base)] :=
      if_neg (by omega)
    rw [stores, Numeral.wrap32_of_fits hfits]
    simp [presetCode, presetsAt, List.flatMap_map, hbase]

lemma exists_declare (hf : Ends f map R) {d : Decl} (h : Reaches f t (declTokens d ++ ts) s)
    (hd : d.IsValid) (hbind : bindDecl? map t d = some (t', presets)) :
    ∃ s', Reaches f t' ts s' ∧ Adds map R s s' presets fun _ st => .done st := by
  replace h : Reaches f t ("my" :: d.name :: (d.form ++ ";" :: ts)) s := by
    simpa [declTokens] using h
  obtain ⟨hgrow, hgrow', hreach⟩ := h.step (by simp) t' ts
  have hrun : Statement.compile.on s = declaration.on (rested s) := by
    simp [on_compile, h.tokens, Tokens.peek]
  rw [hrun] at hgrow hgrow' hreach
  obtain ⟨y, b, hread, hfree, hclean, hdeclare⟩ := on_declaration hf h hgrow'
  have hsane : Workbench.Sane { (rested s).bench with tokens := d.form ++ ";" :: ts } :=
    (fine_rested h.fine).sane.congr rfl rfl
  obtain ⟨hsane', hgrows⟩ := (careful_read {} d.name [";"]).grows hsane hread
  simp only [bindDecl?, Option.bind_eq_bind, Option.bind_eq_some_iff, Option.pure_def,
    Option.some.injEq, Prod.mk.injEq] at hbind
  obtain ⟨x, hx, a, ha, rfl, rfl⟩ := hbind
  obtain ⟨rfl, htokens⟩ := Decl.declarator?_of_read hd hx (List.mem_singleton_self ";")
    (by decide) rfl hsane h.pads hclean hread
  have hpads : t.Pads b.globals := h.pads.trans hgrows.globals
  obtain ⟨hextends, hname, hnext, htypes⟩ := extends_enter y d.name b.globals
  rw [hdeclare, on_declareGlobal] at hgrow hgrow' hreach
  have hmap : (y.enter d.name b.globals).cells.toList <+: map.toList :=
    List.IsPrefix.trans hgrow'.globals hf.cells
  obtain rfl := Option.some.inj (ha.symm.trans (place?_eq hpads hextends hname hfree hmap hnext))
  have hsize : b.globals.nextFree < 65535 := by
    have hlast : (y.enter d.name b.globals).nextFree < 65536 := hmap.length_le.trans_lt hf.size
    omega
  rw [stores_eq y hsize] at hgrow hgrow' hreach
  exact ⟨_, hreach htokens (pads_extend hpads hmap hnext htypes) rfl rfl, hgrow, rfl, rfl,
    fun prog k _ _ => simulates_refl prog _ _⟩

end Declare

end Structured
end CogolToolchain
