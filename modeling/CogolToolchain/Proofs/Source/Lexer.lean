import CogolToolchain.Source.Lexer
import Mathlib.Tactic.Common

/-!
What tokens look like.

No token goes over the end of a line (`Lexer.oneLine_tokenize`). In a text without double quotes a
bracket is always a token of its own, since it cannot be part of a word or of an operator
(`Lexer.simple_tokenize`).
-/

namespace CogolToolchain

def OneLine (text : String) : Prop := '\n' ∉ text.toList

/-- The text has no opening bracket in it, unless it is one. -/
def Simple (text : String) : Prop := text = "[" ∨ '[' ∉ text.toList

namespace Text

lemma quote_lt_lowercaseRuns :
    ∀ run ∈ lowercaseRuns, (34 : Int) < run.1 + run.2.2.2 := by decide +kernel

lemma ofNat_ne_quote {n : Nat} (h : 34 < n) : Char.ofNat n ≠ '"' := by
  intro heq
  by_cases hvalid : n.isValidChar
  · rw [Char.ofNat, dif_pos hvalid] at heq
    have hval : n = 34 := congrArg Char.toNat heq
    omega
  · rw [Char.ofNat, dif_neg hvalid] at heq
    exact absurd heq (by decide)

lemma toLower_ne_quote : ∀ n < 128, Char.ofNat n ≠ '"' → (Char.ofNat n).toLower ≠ '"' := by decide

lemma lowercaseChar_ne_quote {c : Char} (h : c ≠ '"') : lowercaseChar c ≠ '"' := by
  unfold lowercaseChar
  split
  · rename_i hascii
    rw [← Char.ofNat_toNat c] at h ⊢
    exact toLower_ne_quote _ hascii h
  · dsimp only
    split
    · rename_i first last stride shift hfind
      have hrun := quote_lt_lowercaseRuns _ (List.mem_of_find?_eq_some hfind)
      have hcovers := List.find?_some hfind
      simp only [Bool.and_eq_true, decide_eq_true_eq] at hcovers hrun
      exact ofNat_ne_quote (by omega)
    · exact h

lemma quote_notMem_lowercaseAfter {cs : List Char} (h : '"' ∉ cs) (before : List Char) :
    '"' ∉ lowercaseAfter before cs := by
  induction cs generalizing before with
  | nil => simp [lowercaseAfter]
  | cons c cs ih =>
    rw [List.mem_cons, not_or] at h
    have hchar := lowercaseChar_ne_quote (Ne.symm h.1)
    simp only [lowercaseAfter, List.mem_append, not_or]
    refine ⟨?_, ih h.2 _⟩
    split
    · split <;> decide
    · split
      · decide
      · simpa using Ne.symm hchar

end Text

namespace Lexer

def isOrdinary (c : Char) : Bool :=
  !(c == '#' || c == '"' || isOperator c || Text.isBlank c || isMark c || isForbidden c)

/-- Whether the operator character `c` continues a token that ends in `d`. -/
def joins (c d : Char) : Bool := if c == '-' then d == '-' || d == '+' else isOperator d

namespace State

variable {s s' : State} {c : Char}

/-! ### One character of code -/

/-- What a character of code does, by the kind of the character. -/
inductive CodeStep (s : State) (c : Char) : State → Prop where
  | comment (h : c = '#') : CodeStep s c { s.flush with place := .comment }
  | quote (h : c = '"') : CodeStep s c { s.flush with place := .quote "" }
  | operator (h : isOperator c = true) : CodeStep s c (s.flush.pushOperator (joins c) c)
  | blank (h : Text.isBlank c = true) : CodeStep s c s.flush
  | mark (h : isMark c = true) : CodeStep s c (s.flush.push (String.singleton c))
  | forbidden (h : isForbidden c = true) :
    CodeStep s c { s with
      diagnostics := s.diagnostics ++
        [(Problem.forbiddenCharacter c).diagnostic ("line " ++ toString s.line)] }
  | ordinary (h : isOrdinary c = true) : CodeStep s c (s.pushWord c)

lemma readCode_cases (s : State) (c : Char) : CodeStep s c (s.readCode c) := by
  unfold readCode
  split
  · rename_i hc
    exact .comment (by simpa using hc)
  split
  · rename_i hc
    exact .quote (by simpa using hc)
  split
  · rename_i hminus
    obtain rfl : c = '-' := by simpa using hminus
    exact .operator (by decide)
  split
  · exact .blank ‹_›
  split
  · exact .mark ‹_›
  split
  · rename_i hminus _ _ hjoining
    have hjoins : joins c = isOperator := by
      funext d
      simp only [joins, if_neg hminus]
    rw [← hjoins]
    exact .operator (by simp [isOperator, hjoining])
  split
  · exact .forbidden ‹_›
  · exact .ordinary (by simp_all [isOrdinary, isOperator])

/-! ### Lines -/

structure Lined (s : State) : Prop where
  tokens : ∀ t ∈ s.tokens, OneLine t
  word : OneLine s.word
  quote : ∀ text, s.place = .quote text → OneLine text

lemma oneLine_push {text : String} (h : OneLine text) (hc : c ≠ '\n') : OneLine (text.push c) := by
  simpa [OneLine, String.toList_push, Ne.symm hc] using h

lemma oneLine_singleton (hc : c ≠ '\n') : OneLine (String.singleton c) := by
  simpa [OneLine] using Ne.symm hc

lemma Lined.push (h : s.Lined) {t : Token} (ht : OneLine t) : (s.push t).Lined :=
  ⟨List.forall_mem_cons.mpr ⟨ht, h.tokens⟩, h.word, h.quote⟩

lemma Lined.flush (h : s.Lined) : s.flush.Lined := by
  unfold State.flush
  split
  · exact h
  · exact ⟨(h.push h.word).tokens, by simp [OneLine], h.quote⟩

lemma Lined.pushOperator (h : s.Lined) (joins : Char → Bool) (hc : c ≠ '\n') :
    (s.pushOperator joins c).Lined := by
  unfold State.pushOperator
  split
  · rename_i last earlier htokens
    split
    · have htokens' := h.tokens
      rw [htokens, List.forall_mem_cons] at htokens'
      exact ⟨List.forall_mem_cons.mpr ⟨oneLine_push htokens'.1 hc, htokens'.2⟩, h.word, h.quote⟩
    · exact h.push (oneLine_singleton hc)
  · exact h.push (oneLine_singleton hc)

lemma subset_of_withoutSign? {tokens : List Token} (h : s.withoutSign? = some tokens) :
    tokens ⊆ s.tokens := by
  unfold withoutSign? at h
  split at h
  · rw [← Option.some.inj h]
    exact List.nil_subset _
  · rename_i before earlier htokens
    split at h
    · rw [← Option.some.inj h, htokens]
      exact List.subset_cons_self _ _
    · simp at h
  · simp at h

lemma Lined.pushWord (h : s.Lined) (hc : c ≠ '\n') : (s.pushWord c).Lined := by
  unfold State.pushWord
  split
  · split
    · rename_i tokens hsign
      refine ⟨fun t ht => h.tokens t (subset_of_withoutSign? hsign ht), ?_, h.quote⟩
      exact oneLine_push (by simp [OneLine]) hc
    · exact ⟨h.tokens, oneLine_push h.word hc, h.quote⟩
  · exact ⟨h.tokens, oneLine_push h.word hc, h.quote⟩

lemma Lined.codeStep (h : s.Lined) (hstep : CodeStep s c s') : s'.Lined := by
  have hflush := h.flush
  cases hstep with
  | comment => exact ⟨hflush.tokens, hflush.word, by simp⟩
  | quote =>
    refine ⟨hflush.tokens, hflush.word, fun text htext => ?_⟩
    obtain rfl : "" = text := by simpa using htext
    simp [OneLine]
  | operator hc => exact hflush.pushOperator _ (by rintro rfl; exact absurd hc (by decide))
  | blank => exact hflush
  | mark hc => exact hflush.push (oneLine_singleton (by rintro rfl; exact absurd hc (by decide)))
  | forbidden => exact ⟨h.tokens, h.word, h.quote⟩
  | ordinary hc => exact h.pushWord (by rintro rfl; exact absurd hc (by decide))

lemma Lined.step (h : s.Lined) (c : Char) : (s.step c).Lined := by
  have hread : (s.read c).Lined := by
    unfold State.read
    split
    · exact h.codeStep (readCode_cases s c)
    · split
      · exact ⟨h.tokens, h.word, by simp⟩
      · exact h
    · rename_i text hplace
      have htext := h.quote text hplace
      split
      · exact ⟨(h.push htext).tokens, h.word, by simp⟩
      · rename_i hc
        refine ⟨h.tokens, h.word, fun text' htext' => ?_⟩
        obtain rfl : text.push c = text' := by simpa using htext'
        exact oneLine_push htext (by simp_all)
  unfold State.step
  dsimp only
  split
  · exact ⟨hread.tokens, hread.word, hread.quote⟩
  · exact hread

/-! ### Brackets -/

/-- No text in quotes has been read, and brackets stand alone. -/
structure Unquoted (s : State) : Prop where
  tokens : ∀ t ∈ s.tokens, Simple t
  word : '[' ∉ s.word.toList
  place : ∀ text, s.place ≠ .quote text

lemma simple_singleton (c : Char) : Simple (String.singleton c) := by
  by_cases hc : c = '['
  · exact .inl (by rw [hc]; rfl)
  · exact .inr (by simpa using Ne.symm hc)

lemma Unquoted.push (h : s.Unquoted) {t : Token} (ht : Simple t) : (s.push t).Unquoted :=
  ⟨List.forall_mem_cons.mpr ⟨ht, h.tokens⟩, h.word, h.place⟩

lemma Unquoted.flush (h : s.Unquoted) : s.flush.Unquoted := by
  unfold State.flush
  split
  · exact h
  · exact ⟨(h.push (.inr h.word)).tokens, by simp, h.place⟩

lemma Unquoted.pushOperator (h : s.Unquoted) {joins : Char → Bool} (hjoins : joins '[' = false)
    (hc : c ≠ '[') : (s.pushOperator joins c).Unquoted := by
  unfold State.pushOperator
  split
  · rename_i last earlier htokens
    split
    · rename_i hlast
      have htokens' := h.tokens
      rw [htokens, List.forall_mem_cons] at htokens'
      have hbracket : '[' ∉ last.toList := by
        rcases htokens'.1 with rfl | hlast'
        · simp [hjoins] at hlast
        · exact hlast'
      refine ⟨List.forall_mem_cons.mpr ⟨.inr ?_, htokens'.2⟩, h.word, h.place⟩
      simpa [String.toList_push, Ne.symm hc] using hbracket
    · exact h.push (simple_singleton c)
  · exact h.push (simple_singleton c)

lemma Unquoted.pushWord (h : s.Unquoted) (hc : c ≠ '[') : (s.pushWord c).Unquoted := by
  have hword : ∀ w : String, '[' ∉ w.toList → '[' ∉ (w.push c).toList := fun w hw => by
    simpa [String.toList_push, Ne.symm hc] using hw
  unfold State.pushWord
  split
  · split
    · rename_i tokens hsign
      exact ⟨fun t ht => h.tokens t (subset_of_withoutSign? hsign ht), hword "-" (by decide),
        h.place⟩
    · exact ⟨h.tokens, hword _ h.word, h.place⟩
  · exact ⟨h.tokens, hword _ h.word, h.place⟩

lemma Unquoted.codeStep (h : s.Unquoted) (hquote : c ≠ '"') (hstep : CodeStep s c s') :
    s'.Unquoted := by
  have hflush := h.flush
  cases hstep with
  | comment => exact ⟨hflush.tokens, hflush.word, by simp⟩
  | quote hc => exact absurd hc hquote
  | operator hc =>
    refine hflush.pushOperator ?_ (by rintro rfl; exact absurd hc (by decide))
    -- whichever operator it is, none continues a bracket
    unfold joins
    split <;> decide
  | blank => exact hflush
  | mark => exact hflush.push (simple_singleton c)
  | forbidden => exact ⟨h.tokens, h.word, h.place⟩
  | ordinary hc => exact h.pushWord (by rintro rfl; exact absurd hc (by decide))

lemma Unquoted.step (h : s.Unquoted) (hc : c ≠ '"') : (s.step c).Unquoted := by
  have hread : (s.read c).Unquoted := by
    unfold State.read
    split
    · exact h.codeStep hc (readCode_cases s c)
    · split
      · exact ⟨h.tokens, h.word, by simp⟩
      · exact h
    · exact absurd ‹_› (h.place _)
  unfold State.step
  dsimp only
  split
  · exact ⟨hread.tokens, hread.word, hread.place⟩
  · exact hread

end State

lemma foldl_step {P : State → Prop} {cs : List Char} {s : State} (h : P s)
    (hstep : ∀ s, P s → ∀ c ∈ cs, P (s.step c)) : P (cs.foldl State.step s) := by
  induction cs generalizing s with
  | nil => exact h
  | cons c cs ih =>
    exact ih (hstep s h c List.mem_cons_self) fun s hs d hd =>
      hstep s hs d (List.mem_cons_of_mem _ hd)

/-- A token never goes over the end of a line. -/
theorem oneLine_tokenize (source : String) : ∀ t ∈ (tokenize source).1, OneLine t := by
  have hlined : ((Text.lowercase source).foldl State.step {}).Lined :=
    foldl_step ⟨by simp, by simp [OneLine], by simp⟩ fun s hs c _ => hs.step c
  intro t ht
  rw [tokenize, scan, List.mem_reverse, State.finish] at ht
  split at ht
  · exact (hlined.push (hlined.quote _ ‹_›)).tokens t ht
  · exact hlined.flush.tokens t ht

/-- Without double quotes in the text a bracket is a token of its own. -/
theorem simple_tokenize {source : String} (h : '"' ∉ source.toList) :
    ∀ t ∈ (tokenize source).1, Simple t := by
  have hquote := Text.quote_notMem_lowercaseAfter h []
  have hunquoted : ((Text.lowercase source).foldl State.step {}).Unquoted :=
    foldl_step ⟨by simp, by simp, by simp⟩ fun s hs c hc =>
      hs.step (fun heq => hquote (heq ▸ hc))
  intro t ht
  rw [tokenize, scan, List.mem_reverse, State.finish] at ht
  split at ht
  · exact absurd ‹_› (hunquoted.place _)
  · exact hunquoted.flush.tokens t ht

end Lexer
end CogolToolchain
