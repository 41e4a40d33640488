import Mathlib.Data.Bool.AllAny
import Mathlib.Data.List.Induction
import CogolToolchain.Proofs.Source.Lexer

/-!
Nothing of a text is lost.

Every character of a text is part of code, of a comment or of a quote, which depends on the text
before it (`Lexer.Region.behind`). The tokens spell the text without its blanks, comments, quote
marks and forbidden characters, in order, and every forbidden character is reported with its line
(`Lexer.tokens_spell_text`).
-/

namespace CogolToolchain
namespace Lexer

/-! ### Regions of a text -/

inductive Region where
  | code
  | comment
  | quote
  deriving DecidableEq, Repr

namespace Region

/-- The region behind a character. A comment ends with its line, and so does a quote that is not
closed. -/
def next (c : Char) : Region → Region
  | code => if c = '#' then comment else if c = '"' then quote else code
  | comment => if c = '\n' then code else comment
  | quote => if c = '"' ∨ c = '\n' then code else quote

def behind (before : List Char) : Region := before.foldl (fun r c => r.next c) .code

/-- Whether a character is part of no token. A quote loses the mark or the newline that ends it. -/
def drops : Region → Char → Bool
  | code, c => Text.isBlank c || isForbidden c || c == '#' || c == '"'
  | comment, _ => true
  | quote, c => c == '"' || c == '\n'

@[simp] lemma behind_concat (before : List Char) (c : Char) :
    behind (before ++ [c]) = (behind before).next c := by
  simp [behind]

end Region

def spots (text : List Char) : List (List Char × Char) :=
  text.zipIdx.map fun (c, i) => (text.take i, c)

def kept (text : List Char) : List Char :=
  (spots text).filterMap fun (before, c) => if (Region.behind before).drops c then none else some c

/-- One report for each forbidden character in the code of a text. -/
def faults (text : List Char) : List Diagnostic :=
  (spots text).filterMap fun (before, c) =>
    if Region.behind before = .code ∧ isForbidden c then
      some ((Problem.forbiddenCharacter c).diagnostic ("line " ++ toString (1 + before.count '\n')))
    else none

section

variable (before : List Char) (c : Char)

lemma spots_concat : spots (before ++ [c]) = spots before ++ [(before, c)] := by
  have hfront : ∀ p ∈ before.zipIdx, ((before ++ [c]).take p.2, p.1) = (before.take p.2, p.1) := by
    rintro ⟨d, i⟩ hp
    have hi : i < before.length := (List.mem_zipIdx' hp).1
    rw [List.take_append_of_le_length (Nat.le_of_lt hi)]
  rw [spots, spots, List.zipIdx_append, List.map_append, List.map_congr_left hfront]
  simp

lemma kept_concat : kept (before ++ [c]) =
    kept before ++ if (Region.behind before).drops c then [] else [c] := by
  rw [kept, spots_concat, List.filterMap_append, ← kept]
  split <;> simp_all

lemma faults_concat : faults (before ++ [c]) =
    faults before ++ if Region.behind before = .code ∧ isForbidden c then
        [(Problem.forbiddenCharacter c).diagnostic ("line " ++ toString (1 + before.count '\n'))]
      else [] := by
  rw [faults, spots_concat, List.filterMap_append, ← faults]
  split <;> simp_all

end

/-! ### What has been read -/

def Place.region : Place → Region
  | code => .code
  | comment => .comment
  | quote _ => .quote

def Place.text : Place → List Char
  | quote text => text.toList
  | _ => []

namespace State

/-- What has been kept of the text: the tokens, the word in progress and the quote in progress. -/
def text (s : State) : List Char :=
  (s.tokens.reverse.map String.toList).flatten ++ s.word.toList ++ s.place.text

variable {s s' : State} {c : Char} {before : List Char}

lemma text_push (hword : s.word = "") (hplace : s.place.text = []) (t : Token) :
    (s.push t).text = s.text ++ t.toList := by
  simp [text, push, hword, hplace]

lemma word_flush (s : State) : s.flush.word = "" := by
  unfold flush
  split
  · exact String.isEmpty_iff.mp ‹_›
  · rfl

lemma text_flush (s : State) : s.flush.text = s.text := by
  unfold flush
  split
  · rfl
  · simp [text, push]

lemma flush_eq (s : State) : ∃ tokens, s.flush = { s with tokens, word := "" } := by
  unfold flush
  split
  · rename_i hword
    exact ⟨s.tokens, by rw [← String.isEmpty_iff.mp hword]⟩
  · exact ⟨_, rfl⟩

lemma text_pushOperator (hword : s.word = "") (hplace : s.place.text = []) (joins : Char → Bool)
    (c : Char) : (s.pushOperator joins c).text = s.text ++ [c] := by
  unfold pushOperator
  split
  · rename_i last earlier htokens
    split
    · simp [text, htokens, hword, hplace]
    · simp [text_push hword hplace]
  · simp [text_push hword hplace]

lemma tokens_of_withoutSign? {tokens : List Token} (h : s.withoutSign? = some tokens) :
    s.tokens = "-" :: tokens := by
  unfold withoutSign? at h
  split at h
  · rw [← Option.some.inj h]
    assumption
  · split at h
    · rw [← Option.some.inj h]
      assumption
    · cases h
  · cases h

lemma text_pushWord (hplace : s.place.text = []) (c : Char) :
    (s.pushWord c).text = s.text ++ [c] := by
  unfold pushWord
  split
  · rename_i hdigit
    have hword : s.word = "" := String.isEmpty_iff.mp (Bool.and_eq_true_iff.mp hdigit).2
    split
    · rename_i tokens hsign
      simp [text, tokens_of_withoutSign? hsign, hword, hplace]
    · simp [text, hplace]
  · simp [text, hplace]

lemma pushOperator_eq (s : State) (joins : Char → Bool) (c : Char) :
    ∃ tokens, s.pushOperator joins c = { s with tokens } := by
  unfold pushOperator
  split
  · split <;> exact ⟨_, rfl⟩
  · exact ⟨_, rfl⟩

lemma pushWord_eq (s : State) (c : Char) : ∃ tokens word, s.pushWord c =
    { s with tokens, word } := by
  unfold pushWord
  split
  · split <;> exact ⟨_, _, rfl⟩
  · exact ⟨_, _, rfl⟩

/-! ### Steps -/

/-- What reading a character adds to what has been read. -/
structure Reads (r : Region) (c : Char) (s s' : State) : Prop where
  region : s'.place.region = r.next c
  word : s'.place ≠ .code → s'.word = ""
  text : s'.text = s.text ++ if r.drops c then [] else [c]
  line : s'.line = s.line
  diagnostics : s'.diagnostics = s.diagnostics ++ if r = .code ∧ isForbidden c then
    [(Problem.forbiddenCharacter c).diagnostic ("line " ++ toString s.line)] else []

lemma drops_of_operator (h : isOperator c = true) : Region.code.drops c = false := by
  have hall : ∀ d ∈ "-<>&|!=+^*".toList, Region.code.drops d = false :=
    List.all_iff_forall_prop.mp (by decide)
  exact hall c (by simpa [isOperator, isJoining] using h)

lemma drops_of_mark (h : isMark c = true) : Region.code.drops c = false := by
  have hall : ∀ d ∈ ",.:;\x7b\x7d()[]$\\".toList, Region.code.drops d = false :=
    List.all_iff_forall_prop.mp (by decide)
  exact hall c (by simpa [isMark] using h)

lemma drops_of_ordinary (h : isOrdinary c = true) : Region.code.drops c = false := by
  simp_all [isOrdinary, Region.drops]

lemma not_blank_of_forbidden (h : isForbidden c = true) : Text.isBlank c = false := by
  have hall : ∀ d ∈ "~\x60@%/'".toList, Text.isBlank d = false :=
    List.all_iff_forall_prop.mp (by decide)
  exact hall c (by simpa [isForbidden] using h)

lemma reads_of_keeps (hkeeps : Region.code.drops c = false) (hplace : s'.place = .code)
    (hline : s'.line = s.line) (hdiagnostics : s'.diagnostics = s.diagnostics)
    (htext : s'.text = s.text ++ [c]) : Reads .code c s s' where
  region := by simp_all [Region.drops, Place.region, Region.next]
  word h := absurd hplace h
  text := by simpa [hkeeps] using htext
  line := hline
  diagnostics := by simp_all [Region.drops]

lemma CodeStep.reads (hplace : s.place = .code) (h : CodeStep s c s') : Reads .code c s s' := by
  have hword := s.word_flush
  have htext := s.text_flush
  obtain ⟨tokens, hflush⟩ := s.flush_eq
  have hplace₁ : s.flush.place = .code := by rw [hflush, hplace]
  have hline₁ : s.flush.line = s.line := by rw [hflush]
  have hreports₁ : s.flush.diagnostics = s.diagnostics := by rw [hflush]
  have hopen : s.flush.place.text = [] := by rw [hplace₁]; rfl
  cases h with
  | comment hc =>
    subst hc
    refine ⟨rfl, fun _ => hword, ?_, hline₁, by simpa [isForbidden] using hreports₁⟩
    simpa [State.text, hplace₁, hplace, Place.text, Region.drops] using htext
  | quote hc =>
    subst hc
    refine ⟨rfl, fun _ => hword, ?_, hline₁, by simpa [isForbidden] using hreports₁⟩
    simpa [State.text, hplace₁, hplace, Place.text, Region.drops] using htext
  | operator hc =>
    obtain ⟨tokens', heq⟩ := s.flush.pushOperator_eq (joins c) c
    refine reads_of_keeps (drops_of_operator hc) (by rw [heq, hplace₁]) (by rw [heq, hline₁])
      (by rw [heq, hreports₁]) ?_
    rw [text_pushOperator hword hopen, htext]
  | blank hc =>
    have hhash : c ≠ '#' := by rintro rfl; exact absurd hc (by decide)
    have hquote : c ≠ '"' := by rintro rfl; exact absurd hc (by decide)
    have hforbidden : isForbidden c = false := by
      by_contra hforbidden
      simp [not_blank_of_forbidden (by simpa using hforbidden)] at hc
    refine ⟨by simp [hplace₁, Place.region, Region.next, hhash, hquote],
      fun h => absurd hplace₁ h, ?_,
        hline₁, by simp [hreports₁, hforbidden]⟩
    simp [htext, Region.drops, hc]
  | mark hc =>
    refine reads_of_keeps (drops_of_mark hc) hplace₁ hline₁ hreports₁ ?_
    simp [text_push hword hopen, htext]
  | forbidden hc =>
    have hhash : c ≠ '#' := by rintro rfl; exact absurd hc (by decide)
    have hquote : c ≠ '"' := by rintro rfl; exact absurd hc (by decide)
    refine ⟨by simp [hplace, Place.region, Region.next, hhash, hquote],
      fun h => absurd hplace h, ?_,
        rfl, by simp [hc]⟩
    simp [State.text, Region.drops, hc]
  | ordinary hc =>
    obtain ⟨tokens', word, heq⟩ := s.pushWord_eq c
    refine reads_of_keeps (drops_of_ordinary hc) (by rw [heq, hplace]) (by rw [heq])
      (by rw [heq]) ?_
    rw [text_pushWord (by rw [hplace]; rfl)]

lemma reads_read (hword : s.place ≠ .code → s.word = "") (c : Char) :
    Reads s.place.region c s (s.read c) := by
  unfold read
  split
  · rename_i hplace
    rw [hplace]
    exact (readCode_cases s c).reads hplace
  · rename_i hplace
    rw [hplace]
    split
    · rename_i hc
      obtain rfl : c = '\n' := by simpa using hc
      refine ⟨rfl, fun h => absurd rfl h, ?_, rfl, by simp [Place.region]⟩
      simp [text, hplace, Place.text, Place.region, Region.drops]
    · rename_i hc
      refine ⟨by simp_all [Place.region, Region.next], hword, ?_, rfl, by simp [Place.region]⟩
      simp [Place.region, Region.drops]
  · rename_i quoted hplace
    have hword' := hword (by simp [hplace])
    rw [hplace]
    split
    · rename_i hc
      have hends : c = '"' ∨ c = '\n' := by simpa using hc
      refine ⟨by simp [Place.region, Region.next, hends], fun h => absurd rfl h, ?_, rfl,
        by simp [push, Place.region]⟩
      have hdrops : Region.drops .quote c = true := by simpa [Region.drops] using hends
      simp [text, push, hplace, hword', Place.text, Place.region, hdrops]
    · rename_i hc
      have hgoes : ¬ (c = '"' ∨ c = '\n') := by simpa using hc
      refine ⟨by simp [Place.region, Region.next, hgoes], fun _ => hword', ?_, rfl,
        by simp [Place.region]⟩
      simp [text, hplace, hword', Place.text, Place.region, Region.drops, hgoes]

/-- The state of the lexer after the text `before`. -/
structure HasRead (before : List Char) (s : State) : Prop where
  region : s.place.region = .behind before
  word : s.place ≠ .code → s.word = ""
  text : s.text = kept before
  line : s.line = 1 + before.count '\n'
  diagnostics : s.diagnostics = faults before

lemma hasRead_start : HasRead [] {} where
  region := rfl
  word h := absurd rfl h
  text := rfl
  line := rfl
  diagnostics := rfl

lemma step_eq (s : State) (c : Char) :
    s.step c = { s.read c with line := (s.read c).line + [c].count '\n' } := by
  unfold State.step
  by_cases hc : c = '\n' <;> simp [hc]

lemma HasRead.step (h : HasRead before s) (c : Char) : HasRead (before ++ [c]) (s.step c) := by
  have hr := reads_read h.word c
  rw [h.region] at hr
  rw [step_eq]
  constructor
  · rw [Region.behind_concat]
    exact hr.region
  · exact hr.word
  · rw [kept_concat, ← h.text]
    exact hr.text
  · rw [hr.line, h.line, List.count_append, Nat.add_assoc]
  · rw [faults_concat, ← h.diagnostics, ← h.line]
    exact hr.diagnostics

lemma hasRead_foldl (text : List Char) : HasRead text (text.foldl step {}) := by
  induction text using List.reverseRecOn with
  | nil => exact hasRead_start
  | append_singleton before c ih =>
    rw [List.foldl_append]
    exact ih.step c

lemma HasRead.finish (h : HasRead before s) :
    (s.finish.tokens.reverse.map String.toList).flatten = kept before ∧
      s.finish.diagnostics = faults before := by
  rw [← h.text, ← h.diagnostics]
  unfold State.finish
  split
  · rename_i quoted hplace
    simp [push, State.text, Place.text, hplace, h.word (by simp [hplace])]
  · rename_i hplace
    have hopen : s.flush.place.text = [] := by
      obtain ⟨tokens, hflush⟩ := s.flush_eq
      rw [hflush]
      cases hs : s.place <;> simp_all [Place.text]
    obtain ⟨tokens, hflush⟩ := s.flush_eq
    rw [← s.text_flush, State.text, s.word_flush, hopen]
    simp [hflush]

end State

/-- The tokens spell the text without what no token keeps, and each forbidden character in code is
reported once, with the number of its line. -/
theorem tokens_spell_text (source : String) :
    String.join (tokenize source).1 = String.ofList (kept (Text.lowercase source)) ∧
      (tokenize source).2 = faults (Text.lowercase source) := by
  obtain ⟨htext, hdiagnostics⟩ := (State.hasRead_foldl (Text.lowercase source)).finish
  refine ⟨?_, hdiagnostics⟩
  apply String.toList_injective
  rw [String.toList_ofList, ← htext]
  simp [tokenize, scan, List.flatMap]

example : kept "a@b = \"c d # e\nf - 1 # g \"".toList = "ab=c d # ef-1".toList := by decide

end Lexer
end CogolToolchain
