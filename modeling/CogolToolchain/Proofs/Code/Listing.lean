import CogolToolchain.Code.Listing
import CogolToolchain.Proofs.Machine.Loading
import Mathlib.Data.List.Basic
import Mathlib.Tactic.Common

/-!
Listings are read back.

The fields of a line are made of capital letters, digits and minus signs, so the first point of a
line ends its index, the first semicolon ends the instruction, and blanks separate the fields. What
comes after the semicolon may be any text without a newline: the labels of an annotated listing are
never read. A listing that is read and written again gives the same instructions
(`Listing.read_render`, `Listing.fits_of_read`).
-/

namespace CogolToolchain

/-! ### Lines, words and cuts -/

namespace Text

section

variable {cs rest word : List Char} {c : Char}

lemma foldr_stepLine (h : '\n' ∉ cs) (r : List Char × List (List Char)) :
    cs.foldr stepLine r = (cs ++ r.1, r.2) := by
  induction cs with
  | nil => rfl
  | cons c cs ih =>
    rw [List.mem_cons, not_or] at h
    rw [List.foldr_cons, ih h.2, stepLine, if_neg (by simpa using Ne.symm h.1)]
    rfl

lemma lines_of_notMem (h : '\n' ∉ cs) : lines cs = [cs] := by
  simp [lines, foldr_stepLine h]

lemma lines_append_newline (h : '\n' ∉ cs) : lines (cs ++ '\n' :: rest) = cs :: lines rest := by
  simp [lines, List.foldr_append, foldr_stepLine h, stepLine]

lemma lines_intercalate {ls : List (List Char)} (hne : ls ≠ []) (h : ∀ l ∈ ls, '\n' ∉ l) :
    lines (['\n'].intercalate ls) = ls := by
  induction ls with
  | nil => exact absurd rfl hne
  | cons l ls ih =>
    cases ls with
    | nil => rw [List.intercalate_singleton, lines_of_notMem (h l List.mem_cons_self)]
    | cons l' ls =>
      rw [List.intercalate_cons_cons, List.append_assoc, List.singleton_append,
        lines_append_newline (h l List.mem_cons_self), ih (List.cons_ne_nil _ _)]
      exact fun l hl => h l (List.mem_cons_of_mem _ hl)

lemma foldr_stepWord (h : ∀ c ∈ word, isBlank c = false) (r : List Char × List (List Char)) :
    word.foldr stepWord r = (word ++ r.1, r.2) := by
  induction word with
  | nil => rfl
  | cons c word ih =>
    rw [List.foldr_cons, ih fun c hc => h c (List.mem_cons_of_mem _ hc), stepWord,
      h c List.mem_cons_self]
    rfl

lemma words_of_notBlank (h : ∀ c ∈ word, isBlank c = false) (hne : word ≠ []) :
    words word = [word] := by
  simp [words, foldr_stepWord h, consWord, hne]

lemma words_append_blank (h : ∀ c ∈ word, isBlank c = false) (hne : word ≠ [])
    (hc : isBlank c = true) : words (word ++ c :: rest) = word :: words rest := by
  simp [words, List.foldr_append, foldr_stepWord h, stepWord, hc, consWord, hne]

lemma words_cons_blank (hc : isBlank c = true) : words (c :: rest) = words rest := by
  simp [words, stepWord, hc, consWord]

lemma cutAt?_append (h : c ∉ cs) : cutAt? c (cs ++ c :: rest) = some (cs, rest) := by
  induction cs with
  | nil => simp [cutAt?]
  | cons d cs ih =>
    rw [List.mem_cons, not_or] at h
    rw [List.cons_append, cutAt?, if_neg (by simpa using Ne.symm h.1), ih h.2]
    rfl

lemma trim_append {d : Char} (hd : isBlank d = false) (hc : isBlank c = false) :
    ∃ rest', trim (d :: cs ++ c :: rest) = d :: cs ++ c :: rest' := by
  have hfront : (d :: cs ++ c :: rest).dropWhile isBlank = d :: cs ++ c :: rest :=
    List.dropWhile_cons_of_neg (by simp [hd])
  have hreverse : (d :: cs ++ c :: rest).reverse = rest.reverse ++ c :: (d :: cs).reverse := by simp
  rw [trim, hfront, hreverse, List.dropWhile_append]
  split
  · refine ⟨[], ?_⟩
    rw [List.dropWhile_cons_of_neg (by simp [hc])]
    simp
  · exact ⟨(rest.reverse.dropWhile isBlank).reverse, by simp⟩

end
end Text

/-! ### Numerals -/

namespace Numeral

lemma digits?_toDigits (n : Nat) : digits? (Nat.toDigits 10 n) = some n := by
  have hall : (Nat.toDigits 10 n).all Char.isDigit = true :=
    List.all_eq_true.mpr fun c hc => Nat.isDigit_of_mem_toDigits (by decide) (by decide) hc
  have hne : (Nat.toDigits 10 n).isEmpty = false := by simp
  rw [digits?, hall, hne]
  exact congrArg some Nat.ofDigitChars_ten_toDigits

lemma toList_toString_of_nonneg {v : Int} (h : 0 ≤ v) :
    (toString v).toList = Nat.toDigits 10 v.toNat := by
  rw [Int.toString_eq_repr, Int.repr_eq_if, if_pos h, Nat.toList_repr]

lemma toList_toString_of_neg {v : Int} (h : v < 0) :
    (toString v).toList = '-' :: Nat.toDigits 10 (-v).toNat := by
  rw [Int.toString_eq_repr, Int.repr_eq_if, if_neg (by omega), String.toList_append,
    Nat.toList_repr]
  rfl

/-- Decimal numbers are read back. -/
theorem signed?_toString {v : Int} (h : Fits32 v) : signed? (toString v) = some v := by
  rcases Int.lt_or_le v 0 with hneg | hpos
  · have hvalue : -((-v).toNat : Int) = v := by omega
    rw [signed?, toList_toString_of_neg hneg]
    simp only [digits?_toDigits, Option.bind_some, hvalue, checked32, if_pos h]
  · have hvalue : (v.toNat : Int) = v := by omega
    have hsign : ∀ c cs, Nat.toDigits 10 v.toNat = c :: cs → c.isDigit = true := fun c cs hcs =>
      Nat.isDigit_of_mem_toDigits (n := v.toNat) (b := 10) (by decide) (by decide)
        (hcs ▸ List.mem_cons_self)
    rw [signed?, toList_toString_of_nonneg hpos]
    split
    · exact absurd (hsign _ _ ‹_›) (by decide)
    · exact absurd (hsign _ _ ‹_›) (by decide)
    · simp only [digits?_toDigits, Option.bind_some, hvalue, checked32, if_pos h]

lemma fits32_of_signed? {text : String} {v : Int} (h : signed? text = some v) : Fits32 v := by
  have hchecked : ∀ (n : Option Nat) (f : Nat → Int), (n.bind fun n => checked32 (f n)) = some v →
      Fits32 v := by
    intro n f hn
    obtain ⟨k, -, hk⟩ := Option.bind_eq_some_iff.mp hn
    rw [checked32] at hk
    split at hk
    · exact Option.some.inj hk ▸ ‹_›
    · simp at hk
  rw [signed?] at h
  split at h
  all_goals exact hchecked _ _ h

end Numeral

/-! ### Fields -/

def Operand.Fits (a : Operand) : Prop :=
  match a.value with
  | .known n => Numeral.Fits32 n
  | .symbolic _ => False

instance (a : Operand) : Decidable a.Fits := by
  unfold Operand.Fits
  split <;> infer_instance

def Instruction.Fits (i : Instruction) : Prop := ∀ a ∈ i.operands, a.Fits

instance (i : Instruction) : Decidable i.Fits := inferInstanceAs (Decidable (∀ _ ∈ _, _))

def Label.IsPlain (l : Label) : Prop := '\n' ∉ l.text.toList

instance (l : Label) : Decidable l.IsPlain := inferInstanceAs (Decidable (_ ∉ _))

namespace Listing

def isField (c : Char) : Bool := c.isUpper || c.isDigit || c == '-'

lemma isUpper_iff {c : Char} : c.isUpper = true ↔ 'A'.val ≤ c.val ∧ c.val ≤ 'Z'.val :=
  decide_eq_true_iff

lemma isField_of_isDigit {c : Char} (h : c.isDigit = true) : isField c = true := by
  simp [isField, h]

lemma separators_of_isField {c : Char} (h : isField c = true) :
    Text.isBlank c = false ∧ c ≠ '.' ∧ c ≠ ';' ∧ c ≠ '\n' := by
  have hrange : 65 ≤ c.toNat ∧ c.toNat ≤ 90 ∨ 48 ≤ c.toNat ∧ c.toNat ≤ 57 ∨ c.toNat = 45 := by
    simp only [isField, Bool.or_eq_true, isUpper_iff, Char.isDigit, Bool.and_eq_true,
      decide_eq_true_eq, beq_iff_eq] at h
    rcases h with (⟨h₁, h₂⟩ | ⟨h₁, h₂⟩) | rfl
    · exact .inl ⟨h₁, h₂⟩
    · exact .inr (.inl ⟨h₁, h₂⟩)
    · exact .inr (.inr rfl)
  have hne : ∀ d : Char,
      ¬ (65 ≤ d.toNat ∧ d.toNat ≤ 90 ∨ 48 ≤ d.toNat ∧ d.toNat ≤ 57 ∨ d.toNat = 45) → c ≠ d := by
    rintro d hd rfl
    exact hd hrange
  refine ⟨?_, hne _ (by decide), hne _ (by decide), hne _ (by decide)⟩
  simp only [Text.isBlank, Bool.or_eq_false_iff, Bool.and_eq_false_iff, decide_eq_false_iff_not,
    beq_eq_false_iff_ne]
  omega

lemma isField_mnemonic (op : Opcode) : op.mnemonic.toList.all isField = true := by
  cases op <;> decide

lemma isField_toString (v : Int) : ∀ c ∈ (toString v).toList, isField c = true := by
  have hdigits : ∀ n, ∀ c ∈ Nat.toDigits 10 n, isField c = true := fun n c hc =>
    isField_of_isDigit (Nat.isDigit_of_mem_toDigits (by decide) (by decide) hc)
  intro c hc
  rcases Int.lt_or_le v 0 with hneg | hpos
  · rw [Numeral.toList_toString_of_neg hneg, List.mem_cons] at hc
    rcases hc with rfl | hc
    · decide
    · exact hdigits _ c hc
  · rw [Numeral.toList_toString_of_nonneg hpos] at hc
    exact hdigits _ c hc

lemma toString_ne_nil (v : Int) : (toString v).toList ≠ [] := by
  rcases Int.lt_or_le v 0 with hneg | hpos
  · rw [Numeral.toList_toString_of_neg hneg]
    exact List.cons_ne_nil _ _
  · rw [Numeral.toList_toString_of_nonneg hpos]
    exact Nat.toDigits_ne_nil

lemma isField_text {a : Operand} (h : a.Fits) :
    (∀ c ∈ a.text.toList, isField c = true) ∧ a.text.toList ≠ [] := by
  obtain ⟨mode, v | ref⟩ := a
  · have hletter : mode.letter.toList.all isField = true := by cases mode <;> decide
    refine ⟨fun c hc => ?_, ?_⟩
    · rw [Operand.text, String.toList_append, List.mem_append] at hc
      exact hc.elim (List.all_eq_true.mp hletter c) (isField_toString v c)
    · rw [Operand.text, String.toList_append]
      exact List.append_ne_nil_of_right_ne_nil _ (toString_ne_nil v)
  · exact absurd h id

/-! ### One line -/

lemma splitMode_toString (v : Int) : splitMode (toString v).toList =
    (.constant, (toString v).toList) := by
  have hfirst : ∀ c cs, (toString v).toList = c :: cs → c.isUpper = false := by
    intro c cs hcs
    rcases Int.lt_or_le v 0 with hneg | hpos
    · rw [Numeral.toList_toString_of_neg hneg] at hcs
      obtain rfl := (List.cons.inj hcs).1
      rfl
    · rw [Numeral.toList_toString_of_nonneg hpos] at hcs
      have hdigit : c.isDigit = true := Nat.isDigit_of_mem_toDigits (b := 10) (n := v.toNat)
        (by decide) (by decide) (hcs ▸ List.mem_cons_self)
      simp only [Char.isDigit, Bool.and_eq_true, decide_eq_true_eq] at hdigit
      rw [Bool.eq_false_iff, ne_eq, isUpper_iff]
      exact fun h => absurd (UInt32.le_trans h.1 hdigit.2) (by decide)
  unfold splitMode
  split
  · exact absurd (hfirst _ _ ‹_›) (by decide)
  · exact absurd (hfirst _ _ ‹_›) (by decide)
  · exact absurd (hfirst _ _ ‹_›) (by decide)
  · rfl

lemma readOperand_text {a : Operand} (h : a.Fits) : readOperand a.text.toList = .ok a := by
  obtain ⟨mode, v | ref⟩ := a
  · have hfits : Numeral.Fits32 v := h
    have hsplit : splitMode (Operand.text ⟨mode, .known v⟩).toList =
        (mode, (toString v).toList) := by
      rw [Operand.text, String.toList_append]
      cases mode with
      | constant => exact splitMode_toString v
      | address | deref | doubleDeref => simp [Mode.letter, Value.text, splitMode]
    rw [readOperand, hsplit]
    simp only [String.ofList_toList, Numeral.signed?_toString hfits]
  · exact absurd h id

lemma readOpcode_mnemonic (op : Opcode) : readOpcode op.mnemonic.toList = .ok op := by
  cases op <;> decide +kernel

/-- The text of an instruction is its fields and a semicolon, and then perhaps the labels. -/
lemma toList_render (annotate : Bool) (i : Instruction) : ∃ labels,
    (i.render annotate).toList = i.opcode.mnemonic.toList ++ ' ' :: (i.lhs.text.toList ++ ' ' ::
      (i.rhs.text.toList ++ ' ' :: (i.dest.text.toList ++ ';' :: labels))) ∧
    ∀ c ∈ labels, c = ' ' ∨ ∃ tag ∈ i.tags, c ∈ tag.text.toList := by
  have hlabels : ∀ (tags : List Label) (line : String), ∃ labels,
      (tags.foldl (fun line tag => line ++ " " ++ tag.text) line).toList = line.toList ++ labels ∧
        ∀ c ∈ labels, c = ' ' ∨ ∃ tag ∈ tags, c ∈ tag.text.toList := by
    intro tags
    induction tags with
    | nil => exact fun line => ⟨[], (List.append_nil _).symm, by simp⟩
    | cons tag tags ih =>
      intro line
      obtain ⟨labels, htext, hmem⟩ := ih (line ++ " " ++ tag.text)
      refine ⟨' ' :: tag.text.toList ++ labels, ?_, fun c hc => ?_⟩
      · rw [List.foldl_cons, htext]
        simp
      · rw [List.mem_append, List.mem_cons] at hc
        rcases hc with (rfl | hc) | hc
        · exact .inl rfl
        · exact .inr ⟨tag, List.mem_cons_self, hc⟩
        · rcases hmem c hc with rfl | ⟨other, hother, hc⟩
          · exact .inl rfl
          · exact .inr ⟨other, List.mem_cons_of_mem _ hother, hc⟩
  cases annotate with
  | false => exact ⟨[], by simp [Instruction.render], by simp⟩
  | true =>
    obtain ⟨labels, htext, hmem⟩ := hlabels i.tags (i.opcode.mnemonic ++ " " ++ i.lhs.text ++ " " ++
      i.rhs.text ++ " " ++ i.dest.text ++ ";")
    exact ⟨labels, htext.trans (by simp), hmem⟩

lemma readBody_fields {i : Instruction} (h : i.Fits) :
    readBody (' ' :: (i.opcode.mnemonic.toList ++ ' ' :: (i.lhs.text.toList ++ ' ' ::
      (i.rhs.text.toList ++ ' ' :: i.dest.text.toList)))) = .ok i.untagged := by
  have hblank : Text.isBlank ' ' = true := by decide
  have hl : i.lhs.Fits := h _ (by simp [Instruction.operands])
  have hr : i.rhs.Fits := h _ (by simp [Instruction.operands])
  have hd : i.dest.Fits := h _ (by simp [Instruction.operands])
  have hnotBlank : ∀ {cs : List Char}, (∀ c ∈ cs, isField c = true) →
      ∀ c ∈ cs, Text.isBlank c = false :=
    fun hcs c hc => (separators_of_isField (hcs c hc)).1
  have hname : i.opcode.mnemonic.toList ≠ [] := by cases i.opcode <;> decide
  have hwords : Text.words (' ' :: (i.opcode.mnemonic.toList ++ ' ' :: (i.lhs.text.toList ++ ' ' ::
      (i.rhs.text.toList ++ ' ' :: i.dest.text.toList)))) =
      [i.opcode.mnemonic.toList, i.lhs.text.toList, i.rhs.text.toList, i.dest.text.toList] := by
    rw [Text.words_cons_blank hblank,
      Text.words_append_blank (hnotBlank (List.all_eq_true.mp (isField_mnemonic _))) hname hblank,
      Text.words_append_blank (hnotBlank (isField_text hl).1) (isField_text hl).2 hblank,
      Text.words_append_blank (hnotBlank (isField_text hr).1) (isField_text hr).2 hblank,
      Text.words_of_notBlank (hnotBlank (isField_text hd).1) (isField_text hd).2]
  rw [readBody, hwords]
  simp only [readOpcode_mnemonic, readOperand_text hl, readOperand_text hr, readOperand_text hd]
  rfl

/-- A line of a listing is read back, whatever its index and its labels. -/
lemma readLine_render (annotate : Bool) {i : Instruction} (h : i.Fits) (index : Nat) :
    (Text.trim (toString index ++ ". " ++ i.render annotate).toList).isEmpty = false ∧
      readLine (Text.trim (toString index ++ ". " ++ i.render annotate).toList) =
      .ok i.untagged := by
  obtain ⟨labels, htext, -⟩ := toList_render annotate i
  have hl : i.lhs.Fits := h _ (by simp [Instruction.operands])
  have hr : i.rhs.Fits := h _ (by simp [Instruction.operands])
  have hd : i.dest.Fits := h _ (by simp [Instruction.operands])
  have hdigits : ∀ c ∈ Nat.toDigits 10 index, isField c = true := fun c hc =>
    isField_of_isDigit (Nat.isDigit_of_mem_toDigits (by decide) (by decide) hc)
  -- the line up to the semicolon
  let body := ' ' :: (i.opcode.mnemonic.toList ++ ' ' :: (i.lhs.text.toList ++ ' ' ::
    (i.rhs.text.toList ++ ' ' :: i.dest.text.toList)))
  have hline : (toString index ++ ". " ++ i.render annotate).toList =
      (Nat.toDigits 10 index ++ '.' :: body) ++ ';' :: labels := by
    simp [htext, body]
  obtain ⟨d, ds, hds⟩ : ∃ d ds, Nat.toDigits 10 index = d :: ds :=
    List.exists_cons_of_ne_nil Nat.toDigits_ne_nil
  have hd' : Text.isBlank d = false :=
    (separators_of_isField (hdigits d (hds ▸ List.mem_cons_self))).1
  obtain ⟨rest, htrim⟩ : ∃ rest, Text.trim (d :: (ds ++ '.' :: body) ++ ';' :: labels) =
      d :: (ds ++ '.' :: body) ++ ';' :: rest := Text.trim_append hd' (by decide)
  have htrimmed : Text.trim (toString index ++ ". " ++ i.render annotate).toList =
      Nat.toDigits 10 index ++ '.' :: (body ++ ';' :: rest) := by
    rw [hline, hds]
    simpa using htrim
  have hpoint : '.' ∉ Nat.toDigits 10 index := fun hmem =>
    (separators_of_isField (hdigits _ hmem)).2.1 rfl
  have hfield : ∀ {cs : List Char}, (∀ c ∈ cs, isField c = true) → ';' ∉ cs := fun hcs hmem =>
    (separators_of_isField (hcs _ hmem)).2.2.1 rfl
  have hsemicolon : ';' ∉ body := by
    simp [body, hfield (List.all_eq_true.mp (isField_mnemonic i.opcode)),
      hfield (isField_text hl).1, hfield (isField_text hr).1, hfield (isField_text hd).1]
  rw [htrimmed]
  refine ⟨by simp, ?_⟩
  rw [readLine, Text.cutAt?_append hpoint]
  simp only [Text.cutAt?_append hsemicolon]
  exact readBody_fields h

/-! ### Listings -/

lemma newline_notMem_render (annotate : Bool) {i : Instruction} (h : i.Fits)
    (htags : ∀ tag ∈ i.tags, tag.IsPlain) (index : Nat) :
    '\n' ∉ (toString index ++ ". " ++ i.render annotate).toList := by
  obtain ⟨labels, htext, hlabels⟩ := toList_render annotate i
  have hfield : ∀ {cs : List Char}, (∀ c ∈ cs, isField c = true) → '\n' ∉ cs := fun hcs hmem =>
    (separators_of_isField (hcs _ hmem)).2.2.2 rfl
  have hindex : '\n' ∉ Nat.toDigits 10 index := hfield fun c hc =>
    isField_of_isDigit (Nat.isDigit_of_mem_toDigits (by decide) (by decide) hc)
  have hlabel : '\n' ∉ labels := by
    intro hmem
    rcases hlabels _ hmem with hspace | ⟨tag, htag, hmem⟩
    · exact absurd hspace (by decide)
    · exact htags tag htag hmem
  simp [htext, hindex, hlabel, hfield (List.all_eq_true.mp (isField_mnemonic i.opcode)),
    hfield (isField_text (h i.lhs (by simp [Instruction.operands]))).1,
    hfield (isField_text (h i.rhs (by simp [Instruction.operands]))).1,
    hfield (isField_text (h i.dest (by simp [Instruction.operands]))).1]

/-- The lines of a listing are read back one after the other. `number` counts lines, `index` counts
instructions. -/
lemma readLines_render (annotate : Bool) (code : Code) (h : ∀ i ∈ code, i.Fits)
    (number index : Nat) : readLines number ((code.zipIdx index).map fun x =>
      (toString x.2 ++ ". " ++ x.1.render annotate).toList) =
      .ok (code.map Instruction.untagged) := by
  induction code generalizing number index with
  | nil => rfl
  | cons i code ih =>
    obtain ⟨hne, hread⟩ := readLine_render annotate (h i List.mem_cons_self) index
    simp only [List.zipIdx_cons, List.map_cons, readLines, hne, hread,
      ih (fun i hi => h i (List.mem_cons_of_mem _ hi))]
    rfl

/-- A listing is read back as the instructions that it lists, without their labels. -/
theorem read_render (annotate : Bool) {code : Code} (h : ∀ i ∈ code, i.Fits)
    (htags : ∀ i ∈ code, ∀ tag ∈ i.tags, tag.IsPlain) :
    read (render annotate code) = .ok (code.map Instruction.untagged) := by
  have hlines := readLines_render annotate code h 1 0
  rw [read, render, String.toList_intercalate, List.map_map]
  rcases code with _ | ⟨i, code⟩
  · rfl
  · rw [show "\n".toList = ['\n'] from by decide, Text.lines_intercalate (by simp)]
    · exact hlines
    · intro l hl
      obtain ⟨⟨j, index⟩, hj, rfl⟩ := List.mem_map.mp hl
      have hj : j ∈ i :: code := List.mem_of_getElem? (List.mem_zipIdx_iff_getElem?.mp hj)
      exact newline_notMem_render annotate (h j hj) (htags j hj) index

lemma fits_of_readOperand {field : List Char} {a : Operand} (h : readOperand field = .ok a) :
    a.Fits := by
  rw [readOperand] at h
  rcases hvalue : Numeral.signed? (String.ofList (splitMode field).2) with _ | n
  · simp [hvalue] at h
  · simp only [hvalue] at h
    obtain rfl := Except.ok.inj h
    exact Numeral.fits32_of_signed? hvalue

lemma fits_of_readBody {body : List Char} {i : Instruction} (h : readBody body = .ok i) :
    i.Fits ∧ i.tags = [] := by
  rw [readBody] at h
  split at h
  · rename_i name a b c _
    simp only [bind, Except.bind] at h
    rcases hname : readOpcode name with fault | opcode
    · simp [hname] at h
    rcases ha : readOperand a with fault | lhs
    · simp [hname, ha] at h
    rcases hb : readOperand b with fault | rhs
    · simp [hname, ha, hb] at h
    rcases hc : readOperand c with fault | dest
    · simp [hname, ha, hb, hc] at h
    simp only [hname, ha, hb, hc] at h
    obtain rfl := Except.ok.inj h
    refine ⟨fun operand hoperand => ?_, rfl⟩
    simp only [Instruction.operands, List.mem_cons, List.not_mem_nil, or_false] at hoperand
    rcases hoperand with rfl | rfl | rfl
    · exact fits_of_readOperand ha
    · exact fits_of_readOperand hb
    · exact fits_of_readOperand hc
  · simp at h

lemma fits_of_readLine {line : List Char} {i : Instruction} (h : readLine line = .ok i) :
    i.Fits ∧ i.tags = [] := by
  rw [readLine] at h
  split at h
  · simp at h
  · split at h
    · simp at h
    · exact fits_of_readBody h

lemma fits_of_readLines {lines : List (List Char)} {number : Nat} {code : Code}
    (h : readLines number lines = .ok code) : ∀ i ∈ code, i.Fits ∧ i.tags = [] := by
  induction lines generalizing number code with
  | nil =>
    obtain rfl := Except.ok.inj h
    simp
  | cons line lines ih =>
    rw [readLines] at h
    split at h
    · exact ih h
    · rcases hread : readLine (Text.trim line) with fault | i
      · simp [hread] at h
      · rcases hrest : readLines (number + 1) lines with fault | rest
        · simp [hread, hrest, Except.map] at h
        · simp only [hread, hrest, Except.map] at h
          obtain rfl := Except.ok.inj h
          exact List.forall_mem_cons.mpr ⟨fits_of_readLine hread, ih hrest⟩

/-- The instructions that a text is read as are numbers through and through, and have no labels. -/
theorem fits_of_read {text : String} {code : Code} (h : read text = .ok code) :
    ∀ i ∈ code, i.Fits ∧ i.tags = [] := fits_of_readLines h

end Listing

lemma Instruction.Fits.isResolved {i : Instruction} (h : i.Fits) : i.IsResolved := by
  intro a ha
  have hfits := h a ha
  unfold Operand.Fits at hfits
  split at hfits
  · rename_i n hvalue
    simp [hvalue, Value.number?]
  · exact hfits.elim

lemma Machine.load_untagged {code : Code} (h : ∀ i ∈ code, i.Fits) :
    load (code.map Instruction.untagged) = .ok (boot code .zero) := by
  have huntagged : Code.IsResolved (code.map Instruction.untagged) := by
    intro i hi
    obtain ⟨j, hj, rfl⟩ := List.mem_map.mp hi
    exact (h j hj).isResolved
  rw [load_eq huntagged, boot, boot, List.map_map]
  rfl

end CogolToolchain
