import CogolToolchain.Layout.SymbolTable
import Mathlib.Tactic.Common

/-!
Look-up in symbol tables, and the names that no program can use.

A name means the last cell that was given its name, so cells of other names that are added later do
not change what it means.
-/

namespace CogolToolchain

/-! ### Names of scratch cells -/

lemma toList_scratchName (n : Nat) :
    (scratchName n).toList = "scratch".toList ++ Nat.toDigits 10 n := by
  simp [scratchName]

lemma scratchName_injective : Function.Injective scratchName := by
  intro n k h
  have hdigits : Nat.toDigits 10 n = Nat.toDigits 10 k := by
    have := congrArg String.toList h
    rwa [toList_scratchName, toList_scratchName, List.append_cancel_left_eq] at this
  rw [← Nat.ofDigitChars_ten_toDigits (n := n), hdigits, Nat.ofDigitChars_ten_toDigits]

lemma isReserved_scratchName (n : Nat) : isReserved (scratchName n) = true := by
  have hall : ∀ c ∈ Nat.toDigits 10 n, c.isDigit = true := fun c hc =>
    Nat.isDigit_of_mem_toDigits (by decide) (by decide) hc
  have htake : ("scratch".toList ++ Nat.toDigits 10 n).take 7 = "scratch".toList :=
    List.take_left' (by decide)
  have hdrop : ("scratch".toList ++ Nat.toDigits 10 n).drop 7 = Nat.toDigits 10 n :=
    List.drop_left' (by decide)
  simp only [isReserved, toList_scratchName, htake, hdrop, List.all_eq_true.mpr hall]
  simp

lemma programCounterName_ne_scratchName (n : Nat) : programCounterName ≠ scratchName n := by
  intro h
  have hlist := toList_scratchName n
  rw [← h] at hlist
  simp [programCounterName] at hlist

lemma ne_scratchName {name : String} (h : isReserved name = false) (n : Nat) :
    name ≠ scratchName n := by
  rintro rfl
  simp [isReserved_scratchName] at h

lemma ne_programCounterName {name : String} (h : isReserved name = false) :
    name ≠ programCounterName := by
  rintro rfl
  exact absurd h (by decide)

lemma ne_callStackName {name : String} (h : isReserved name = false) : name ≠ callStackName := by
  rintro rfl
  exact absurd h (by decide)

/-- The name of an element ends with a bracket, so it is not reserved. -/
lemma isReserved_elementName (array : String) (i : Nat) :
    isReserved (SymbolTable.elementName array i) = false := by
  have hlist : (SymbolTable.elementName array i).toList =
      array.toList ++ '[' :: Nat.toDigits 10 i ++ [']'] := by
    simp [SymbolTable.elementName]
  have hne : ∀ name : String, ']' ∉ name.toList → SymbolTable.elementName array i ≠ name := by
    rintro name hname rfl
    simp [hlist] at hname
  have hdigits : ∀ cs : List Char, cs.drop 7 ≠ [] → cs.getLast? = some ']' →
      (cs.drop 7).all Char.isDigit = false := by
    intro cs hcs hlast
    have hmem : ']' ∈ cs.drop 7 := by
      rw [← List.take_append_drop 7 cs, List.getLast?_append] at hlast
      rcases hd : (cs.drop 7).getLast? with _ | c
      · exact absurd (List.getLast?_eq_none_iff.mp hd) hcs
      · rw [hd, Option.some_or, Option.some.injEq] at hlast
        exact hlast ▸ List.mem_of_getLast? hd
    rw [List.all_eq_false]
    exact ⟨']', hmem, by decide⟩
  simp only [isReserved, beq_eq_false_iff_ne.mpr (hne programCounterName (by decide)),
    beq_eq_false_iff_ne.mpr (hne callStackName (by decide)), Bool.false_or]
  by_cases hnil : (SymbolTable.elementName array i).toList.drop 7 = []
  · simp [hnil]
  · rw [hdigits _ hnil (by rw [hlist, List.getLast?_concat]), Bool.and_false]

namespace SymbolTable

variable {t t' : SymbolTable} {name : String} {a bound : Nat}

/-! ### Look-up -/

lemma searchBelow_eq_some : t.searchBelow name bound = some a ↔
    a < bound ∧ t.cells[a]? = some name ∧ ∀ b, a < b → b < bound → t.cells[b]? ≠ some name := by
  induction bound with
  | zero => simp [searchBelow]
  | succ n ih =>
    rw [searchBelow]
    by_cases h : t.cells[n]? = some name
    · simp only [h, beq_self_eq_true, ↓reduceIte, Option.some.injEq]
      constructor
      · rintro rfl
        exact ⟨by omega, h, fun b h1 h2 => absurd h2 (by omega)⟩
      · rintro ⟨ha, -, hlast⟩
        by_contra hne
        exact hlast n (by omega) (by omega) h
    · rw [if_neg (by simpa using h), ih]
      constructor
      · rintro ⟨ha, hcell, hlast⟩
        refine ⟨by omega, hcell, fun b h1 h2 => ?_⟩
        rcases Nat.lt_succ_iff_lt_or_eq.mp h2 with h2 | rfl
        · exact hlast b h1 h2
        · exact h
      · rintro ⟨ha, hcell, hlast⟩
        refine ⟨?_, hcell, fun b h1 h2 => hlast b h1 (by omega)⟩
        rcases Nat.lt_succ_iff_lt_or_eq.mp ha with ha | rfl
        · exact ha
        · exact absurd hcell h

lemma searchBelow_eq_none : t.searchBelow name bound = none ↔
    ∀ b < bound, t.cells[b]? ≠ some name := by
  induction bound with
  | zero => simp [searchBelow]
  | succ n ih =>
    rw [searchBelow]
    by_cases h : t.cells[n]? = some name
    · simp only [h, beq_self_eq_true, ↓reduceIte, reduceCtorEq, false_iff]
      exact fun hall => hall n (by omega) h
    · rw [if_neg (by simpa using h), ih]
      constructor
      · intro hall b hb
        rcases Nat.lt_succ_iff_lt_or_eq.mp hb with hb | rfl
        · exact hall b hb
        · exact h
      · exact fun hall b hb => hall b (by omega)

lemma lt_nextFree_of_address? (h : t.address? name = some a) : a < t.nextFree :=
  (searchBelow_eq_some.mp h).1

lemma getElem?_of_address? (h : t.address? name = some a) : t.cells[a]? = some name :=
  (searchBelow_eq_some.mp h).2.1

lemma searchBelow_congr {bound' : Nat} (hb : bound ≤ bound')
    (hcells : ∀ b < bound, t'.cells[b]? = t.cells[b]?)
    (hnew : ∀ b, bound ≤ b → b < bound' → t'.cells[b]? ≠ some name) :
    t'.searchBelow name bound' = t.searchBelow name bound := by
  rcases h : t.searchBelow name bound with _ | a
  · rw [searchBelow_eq_none] at h ⊢
    intro b hlt
    rcases Nat.lt_or_ge b bound with hb' | hb'
    · rw [hcells b hb']
      exact h b hb'
    · exact hnew b hb' hlt
  · rw [searchBelow_eq_some] at h ⊢
    obtain ⟨ha, hcell, hlast⟩ := h
    refine ⟨by omega, by rw [hcells a ha, hcell], fun b h1 h2 => ?_⟩
    rcases Nat.lt_or_ge b bound with hb' | hb'
    · rw [hcells b hb']
      exact hlast b h1 hb'
    · exact hnew b hb' h2

lemma address?_congr (h : t.cells = t'.cells) : t.address? name = t'.address? name := by
  have hsame : ∀ bound, t.searchBelow name bound = t'.searchBelow name bound := by
    intro bound
    induction bound with
    | zero => rfl
    | succ n ih => rw [searchBelow, searchBelow, h, ih]
  rw [address?, address?, nextFree, nextFree, hsame, h]

/-! ### Growth -/

/-- The table has the cells of `t`, and then others. -/
def Extends (t t' : SymbolTable) : Prop := t.cells.toList <+: t'.cells.toList

lemma Extends.refl (t : SymbolTable) : t.Extends t := List.prefix_refl _

lemma Extends.trans {t'' : SymbolTable} (h : t.Extends t') (h' : t'.Extends t'') : t.Extends t'' :=
  List.IsPrefix.trans h h'

lemma Extends.nextFree_le (h : t.Extends t') : t.nextFree ≤ t'.nextFree := by
  simpa [nextFree] using h.length_le

lemma Extends.getElem? (h : t.Extends t') (ha : a < t.nextFree) : t'.cells[a]? = t.cells[a]? := by
  obtain ⟨rest, hrest⟩ := h
  rw [← Array.getElem?_toList, ← Array.getElem?_toList, ← hrest,
    List.getElem?_append_left (by simpa [nextFree] using ha)]

lemma Extends.getElem?_eq_some (h : t.Extends t') (ha : t.cells[a]? = some name) :
    t'.cells[a]? = some name := by
  have hlt : a < t.nextFree := (Array.getElem?_eq_some_iff.mp ha).1
  rw [h.getElem? hlt, ha]

lemma Extends.address? (h : t.Extends t')
    (hnew : ∀ b, t.nextFree ≤ b → t'.cells[b]? ≠ some name) : t'.address? name = t.address? name :=
  searchBelow_congr h.nextFree_le (fun _ hb => h.getElem? hb) fun b hb _ => hnew b hb

lemma contains_iff : t.contains name = true ↔ ∃ b : Nat, t.cells[b]? = some name := by
  constructor
  · intro h
    obtain ⟨b, hb⟩ := Option.isSome_iff_exists.mp h
    exact ⟨b, getElem?_of_address? hb⟩
  · rintro ⟨b, hb⟩
    by_contra hnone
    have hnone : t.searchBelow name t.nextFree = none := by simpa [contains, address?] using hnone
    exact searchBelow_eq_none.mp hnone b (Array.getElem?_eq_some_iff.mp hb).1 hb

lemma address?_of_nodup (h : t.cells.toList.Nodup) :
    t.address? name = some a ↔ t.cells[a]? = some name := by
  refine ⟨getElem?_of_address?, fun ha => ?_⟩
  obtain ⟨b, hb⟩ := Option.isSome_iff_exists.mp (contains_iff.mpr ⟨a, ha⟩)
  have hcell := getElem?_of_address? hb
  rw [← Array.getElem?_toList] at ha hcell
  have hlt : a < t.cells.toList.length := (List.getElem?_eq_some_iff.mp ha).1
  rw [hb, (List.getElem?_inj hlt h).mp (ha.trans hcell.symm)]

lemma Extends.contains (h : t.Extends t') (hname : t.contains name = true) :
    t'.contains name = true := by
  obtain ⟨b, hb⟩ := contains_iff.mp hname
  exact contains_iff.mpr ⟨b, h.getElem?_eq_some hb⟩

/-- The table has the cells of `t`, and then only scratch cells. -/
structure Pads (t t' : SymbolTable) : Prop where
  cells : t.Extends t'
  fresh : ∀ {a name}, t.nextFree ≤ a → t'.cells[a]? = some name → ∃ n, name = scratchName n
  types : ∀ {name}, isReserved name = false → t'.type? name = t.type? name

lemma Pads.refl (t : SymbolTable) : t.Pads t where
  cells := .refl t
  fresh := fun ha hcell => absurd (Array.getElem?_eq_some_iff.mp hcell).1 (by
    simp only [nextFree] at ha
    omega)
  types := fun _ => rfl

lemma Pads.trans {t'' : SymbolTable} (h : t.Pads t') (h' : t'.Pads t'') : t.Pads t'' where
  cells := h.cells.trans h'.cells
  fresh := fun {a} name ha hcell => by
    rcases Nat.lt_or_ge a t'.nextFree with hlt | hge
    · exact h.fresh ha (by rwa [h'.cells.getElem? hlt] at hcell)
    · exact h'.fresh hge hcell
  types := fun hname => (h'.types hname).trans (h.types hname)

/-- Scratch cells do not change what a name of the program means. -/
lemma Pads.address? (h : t.Pads t') (hname : isReserved name = false) :
    t'.address? name = t.address? name := by
  refine h.cells.address? fun a ha hcell => ?_
  obtain ⟨n, hn⟩ := h.fresh ha hcell
  exact ne_scratchName hname n hn

lemma extends_declareWord (t : SymbolTable) (name : String) : t.Extends (t.declareWord name) := by
  simp [Extends, declareWord]

lemma toList_declareArray (t : SymbolTable) (name : String) (size initialized : Nat) :
    (t.declareArray name size initialized).cells.toList =
      t.cells.toList ++ name :: (List.range (max size initialized)).map (elementName name) := by
  simp [declareArray]

lemma extends_declareArray (t : SymbolTable) (name : String) (size initialized : Nat) :
    t.Extends (t.declareArray name size initialized) := by
  simp [Extends, toList_declareArray]

@[simp] lemma nextFree_declareWord (t : SymbolTable) (name : String) :
    (t.declareWord name).nextFree = t.nextFree + 1 := by simp [nextFree, declareWord]

@[simp] lemma nextFree_declareArray (t : SymbolTable) (name : String) (size initialized : Nat) :
    (t.declareArray name size initialized).nextFree = t.nextFree + 1 + max size initialized := by
  rw [nextFree, ← Array.length_toList, toList_declareArray]
  simp [nextFree, Nat.add_assoc, Nat.add_comm 1]

lemma getElem?_declareWord (t : SymbolTable) (name : String) :
    (t.declareWord name).cells[t.nextFree]? = some name := by simp [nextFree, declareWord]

lemma getElem?_declareWord_ge {name' : String} (h : t.nextFree ≤ a)
    (ha : (t.declareWord name).cells[a]? = some name') : a = t.nextFree ∧ name' = name := by
  have hlt : a < (t.declareWord name).nextFree := (Array.getElem?_eq_some_iff.mp ha).1
  rw [nextFree_declareWord] at hlt
  obtain rfl : a = t.nextFree := by omega
  rw [getElem?_declareWord, Option.some.injEq] at ha
  exact ⟨rfl, ha.symm⟩

lemma pads_declareWord (t : SymbolTable) (n : Nat) : t.Pads (t.declareWord (scratchName n)) where
  cells := t.extends_declareWord _
  fresh := fun ha hcell => ⟨n, (getElem?_declareWord_ge ha hcell).2⟩
  types := fun {name} hname => by
    have hne : (name == scratchName n) = false := by simpa using ne_scratchName hname n
    simp [type?, declareWord, List.lookup_cons, hne]

lemma address?_declareWord (t : SymbolTable) (name : String) :
    (t.declareWord name).address? name = some t.nextFree := by
  rw [SymbolTable.address?, searchBelow_eq_some, nextFree_declareWord]
  exact ⟨by omega, getElem?_declareWord t name, fun b h1 h2 => absurd h2 (by omega)⟩

lemma getElem?_declareArray (t : SymbolTable) (name : String) (size initialized : Nat) :
    (t.declareArray name size initialized).cells[t.nextFree]? = some name := by
  rw [← Array.getElem?_toList, toList_declareArray]
  simp [nextFree]

lemma getElem?_declareArray_gt {size initialized : Nat} {name' : String} (h : t.nextFree < a)
    (ha : (t.declareArray name size initialized).cells[a]? = some name') :
    ∃ i < max size initialized, a = t.nextFree + 1 + i ∧ name' = elementName name i := by
  have hlt : a < (t.declareArray name size initialized).nextFree :=
    (Array.getElem?_eq_some_iff.mp ha).1
  rw [nextFree_declareArray] at hlt
  obtain ⟨i, rfl⟩ := Nat.exists_eq_add_of_le (show t.nextFree + 1 ≤ a by omega)
  refine ⟨i, by omega, rfl, ?_⟩
  have hi : i < max size initialized := by omega
  rw [← Array.getElem?_toList, toList_declareArray,
    List.getElem?_append_right (by simp [nextFree]; omega)] at ha
  rw [show t.nextFree + 1 + i - t.cells.toList.length = i + 1 by simp [nextFree]; omega] at ha
  simpa [List.getElem?_range hi, eq_comm] using ha

lemma elementName_ne (array : String) (i : Nat) : elementName array i ≠ array := by
  intro h
  have := congrArg (fun s : String => s.toList.length) h
  simp [elementName] at this

lemma address?_declareArray (t : SymbolTable) (name : String) (size initialized : Nat) :
    (t.declareArray name size initialized).address? name = some t.nextFree := by
  rw [SymbolTable.address?, searchBelow_eq_some, nextFree_declareArray]
  refine ⟨by omega, getElem?_declareArray t name size initialized, fun b h1 _ hb => ?_⟩
  obtain ⟨i, -, -, hi⟩ := getElem?_declareArray_gt h1 hb
  exact elementName_ne name i hi.symm

@[simp] lemma cells_setType {t : SymbolTable} {name : String} (type : VarType) :
    (t.setType name type).cells = t.cells := by
  unfold setType
  split <;> rfl

end SymbolTable
end CogolToolchain
