import Mathlib.Data.List.Chain
import CogolToolchain.Proofs.Source.Conservation

/-!
Tokens are canonical.

Whether an operator character continues the token before it and whether a minus is a sign depends on
the tokens before it and not on the blanks between them. So the tokens of a text without quotes,
joined by blanks, are cut into the same tokens again (`Lexer.tokens_canonical`).

The neighbours that tokens can have are described by `Lexer.Settled`. Every text leads to settled
tokens, and settled tokens are read back.
-/

namespace CogolToolchain

namespace Text

/-- A character that lower-casing leaves alone wherever it stands. -/
def Fixed (c : Char) : Prop := c ≠ 'Σ' ∧ c ≠ 'İ' ∧ lowercaseChar c = c

lemma lowercaseAfter_eq_self_iff {cs : List Char} (before : List Char) :
    lowercaseAfter before cs = cs ↔ ∀ c ∈ cs, Fixed c := by
  induction cs generalizing before with
  | nil => simp [lowercaseAfter]
  | cons c cs ih =>
    rw [List.forall_mem_cons, ← ih (c :: before), lowercaseAfter, Fixed]
    by_cases hsigma : c = 'Σ'
    · subst hsigma
      cases meetsCased before && !meetsCased cs <;> simp
    by_cases hdotted : c = 'İ'
    · subst hdotted
      simp
    simp [hsigma, hdotted]

end Text

namespace Lexer

inductive Lexeme : Token → Prop where
  | mark {c : Char} (h : isMark c = true) : Lexeme (String.singleton c)
  | operator {c : Char} {cs : List Char} (h : ∀ d ∈ c :: cs, isOperator d = true) :
    Lexeme (String.ofList (c :: cs))
  | word {c : Char} {cs : List Char} (h : ∀ d ∈ c :: cs, isOrdinary d = true) :
    Lexeme (String.ofList (c :: cs))
  | numeral {c : Char} {cs : List Char} (hdigit : c.isDigit = true)
      (h : ∀ d ∈ c :: cs, isOrdinary d = true) :
    Lexeme (String.ofList ('-' :: c :: cs))

/-! ### Neighbours -/

/-- The operator character `c` starts a token after the tokens `ts`, the last one first. -/
def Apart (c : Char) (ts : List Token) : Prop :=
  ∀ t ∈ ts.head?, t.toList.getLast?.any (joins c) = false

def SignFollows (ts : List Token) : Prop := ∀ t ∈ ts.head?, State.precedesSign t = true

/-- The word `t` can follow the tokens `ts`. -/
inductive Spells (ts : List Token) : Token → Prop where
  | word {c : Char} {cs : List Char} (h : ∀ d ∈ c :: cs, isOrdinary d = true)
    (hsign : c.isDigit = true → ∀ ts', ts = "-" :: ts' → ¬ SignFollows ts') :
    Spells ts (String.ofList (c :: cs))
  | numeral {c : Char} {cs : List Char} (hdigit : c.isDigit = true)
      (h : ∀ d ∈ c :: cs, isOrdinary d = true)
    (hapart : Apart '-' ts) (hsign : SignFollows ts) : Spells ts (String.ofList ('-' :: c :: cs))

/-- Tokens, the last one first, of which each stays what it is after the ones before it. -/
inductive Settled : List Token → Prop where
  | nil : Settled []
  | mark {ts : List Token} {c : Char} (h : Settled ts) (hc : isMark c = true) :
    Settled (String.singleton c :: ts)
  | operator {ts : List Token} {c : Char} {cs : List Char} (h : Settled ts)
    (hall : ∀ d ∈ c :: cs, isOperator d = true) (hjoins : (c :: cs).IsChain fun d e =>
      joins e d = true)
    (hapart : Apart c ts) : Settled (String.ofList (c :: cs) :: ts)
  | word {ts : List Token} {t : Token} (h : Settled ts) (ht : Spells ts t) : Settled (t :: ts)

lemma Spells.lexeme {ts : List Token} {t : Token} (h : Spells ts t) : Lexeme t := by
  cases h with
  | word h => exact .word h
  | numeral hdigit h => exact .numeral hdigit h

lemma Settled.lexeme {ts : List Token} (h : Settled ts) : ∀ t ∈ ts, Lexeme t := by
  induction h with
  | nil => simp
  | mark _ hc ih => exact List.forall_mem_cons.mpr ⟨.mark hc, ih⟩
  | operator _ hall _ _ ih => exact List.forall_mem_cons.mpr ⟨.operator hall, ih⟩
  | word _ ht ih => exact List.forall_mem_cons.mpr ⟨ht.lexeme, ih⟩

section

variable {c d : Char} {ts : List Token} {t : Token}

lemma isOperator_of_joins (h : joins c d = true) : isOperator d = true := by
  unfold joins at h
  split at h
  · have hd : d = '-' ∨ d = '+' := by simpa using h
    rcases hd with rfl | rfl <;> decide
  · exact h

lemma not_operator_of_mark (h : isMark c = true) : isOperator c = false := by
  have hall : ∀ d ∈ ",.:;\x7b\x7d()[]$\\".toList, isOperator d = false :=
    List.all_iff_forall_prop.mp (by decide)
  exact hall c (by simpa [isMark] using h)

lemma not_operator_of_ordinary (h : isOrdinary c = true) : isOperator c = false := by
  simp_all [isOrdinary]

lemma Spells.getLast? (h : Spells ts t) : ∃ c, t.toList.getLast? = some c ∧
    isOrdinary c = true := by
  have hlast : ∀ (c : Char) cs, (∀ d ∈ c :: cs, isOrdinary d = true) →
      ∃ d, (c :: cs).getLast? = some d ∧ isOrdinary d = true := fun c cs h =>
    ⟨_, List.getLast?_eq_some_getLast (List.cons_ne_nil c cs), h _ (List.getLast_mem _)⟩
  cases h with
  | word h => simpa using hlast _ _ h
  | numeral _ h => simpa [List.getLast?_cons_cons] using hlast _ _ h

lemma push_ofList (cs : List Char) (c : Char) : (String.ofList cs).push c =
    String.ofList (cs ++ [c]) := by
  apply String.toList_injective
  simp

lemma push_append_ofList (w : String) (c : Char) (cs : List Char) :
    w.push c ++ String.ofList cs = w ++ String.ofList (c :: cs) := by
  apply String.toList_injective
  simp

lemma forall_mem_concat {P : Char → Prop} {cs : List Char} (h : ∀ d ∈ cs, P d) (hc : P c) :
    ∀ d ∈ cs ++ [c], P d := by
  rw [List.forall_mem_append, List.forall_mem_singleton]
  exact ⟨h, hc⟩

lemma Spells.push (h : Spells ts t) (hc : isOrdinary c = true) : Spells ts (t.push c) := by
  cases h with
  | word h hsign =>
    rw [push_ofList]
    exact .word (forall_mem_concat h hc) hsign
  | numeral hdigit h hapart hsign =>
    rw [push_ofList]
    exact .numeral hdigit (forall_mem_concat h hc) hapart hsign

lemma Settled.extend (h : Settled (t :: ts)) (hlast : t.toList.getLast?.any (joins c) = true)
    (hc : isOperator c = true) : Settled (t.push c :: ts) := by
  obtain ⟨d, hd, hjoins⟩ : ∃ d, t.toList.getLast? = some d ∧ joins c d = true := by
    simpa [Option.any_eq_true] using hlast
  have hoperator := isOperator_of_joins hjoins
  cases h with
  | mark _ hmark =>
    obtain rfl : _ = d := by simpa using hd
    simp [not_operator_of_mark hmark] at hoperator
  | word _ ht =>
    obtain ⟨e, he, hordinary⟩ := ht.getLast?
    obtain rfl : e = d := Option.some.inj (he.symm.trans hd)
    simp [not_operator_of_ordinary hordinary] at hoperator
  | @operator _ e es hts hall hchain hapart =>
    rw [String.toList_ofList] at hd
    rw [push_ofList]
    refine .operator hts (forall_mem_concat hall hc) ?_ hapart
    refine List.isChain_append.mpr ⟨hchain, .singleton c, ?_⟩
    intro x hx y hy
    obtain rfl : d = x := Option.some.inj (hd.symm.trans hx)
    obtain rfl : c = y := by simpa using hy
    exact hjoins

lemma Settled.of_minus (h : Settled ("-" :: ts)) : Settled ts ∧ Apart '-' ts := by
  generalize ht : "-" = t at h
  replace ht := congrArg String.toList ht
  cases h with
  | mark _ hc =>
    obtain rfl : '-' = _ := by simpa using ht
    exact absurd hc (by decide)
  | operator hts _ _ hapart =>
    obtain ⟨rfl, -⟩ : '-' = _ ∧ _ := by simpa using ht
    exact ⟨hts, hapart⟩
  | word _ hw =>
    cases hw with
    | word h =>
      obtain ⟨rfl, -⟩ : '-' = _ ∧ _ := by simpa using ht
      exact absurd (h _ List.mem_cons_self) (by decide)
    | numeral => simp at ht

end

/-! ### Every text settles -/

namespace State

variable {s s' : State} {c : Char} {ts : List Token}

lemma withoutSign?_eq_some_iff : s.withoutSign? = some ts ↔ s.tokens = "-" :: ts ∧
    SignFollows ts := by
  unfold withoutSign? SignFollows
  split
  · rename_i htokens
    cases ts <;> simp [htokens]
  · rename_i before earlier htokens
    cases ts with
    | nil => simp [htokens]
    | cons next rest =>
      simp only [Option.ite_none_right_eq_some, Option.some.injEq, List.cons.injEq,
        htokens, true_and, List.head?_cons, Option.mem_some_iff, forall_eq']
      constructor
      · rintro ⟨hsign, rfl, rfl⟩
        exact ⟨⟨rfl, rfl⟩, hsign⟩
      · rintro ⟨⟨rfl, rfl⟩, hsign⟩
        exact ⟨hsign, rfl, rfl⟩
  · rename_i hlone hmore
    constructor
    · simp
    · rintro ⟨htokens, -⟩
      cases ts with
      | nil => exact absurd htokens hlone
      | cons before earlier => exact absurd htokens (hmore before earlier)

/-- Outside of quotes: the tokens are settled, and so is the word in progress. -/
structure Settles (s : State) : Prop where
  place : ∀ text, s.place ≠ .quote text
  tokens : Settled s.tokens
  word : s.word = "" ∨ Spells s.tokens s.word

lemma Settles.flush (h : s.Settles) : s.flush.Settles := by
  unfold State.flush
  split
  · exact h
  · rename_i hword
    have hspells := h.word.resolve_left fun hempty => hword (String.isEmpty_iff.mpr hempty)
    exact ⟨h.place, .word h.tokens hspells, .inl rfl⟩

lemma Settles.pushOperator (h : s.Settles) (hword : s.word = "") (hc : isOperator c = true) :
    (s.pushOperator (joins c) c).Settles := by
  have hstarts : Apart c s.tokens → (s.push (String.singleton c)).Settles := fun hapart => by
    have hsettled : Settled (String.ofList [c] :: s.tokens) :=
      .operator h.tokens (by simpa using hc) (.singleton c) hapart
    exact ⟨h.place, hsettled, .inl hword⟩
  unfold State.pushOperator
  split
  · rename_i last earlier htokens
    split
    · rename_i hjoins
      have htokens' := h.tokens
      rw [htokens] at htokens'
      exact ⟨h.place, htokens'.extend hjoins hc, .inl hword⟩
    · rename_i hjoins
      exact hstarts (by simpa [Apart, htokens] using hjoins)
  · rename_i htokens
    exact hstarts (by simp [Apart, htokens])

lemma Settles.pushWord (h : s.Settles) (hc : isOrdinary c = true) : (s.pushWord c).Settles := by
  -- a word that is started does not take a sign
  have hstarts : (c.isDigit = true → s.withoutSign? = none) → s.word = "" →
      Spells s.tokens (s.word.push c) := by
    intro hsign hword
    rw [hword, show "".push c = String.ofList [c] from rfl]
    refine .word (by simpa using hc) fun hdigit ts' htokens hfollows => ?_
    have hsome := withoutSign?_eq_some_iff.mpr ⟨htokens, hfollows⟩
    rw [hsign hdigit] at hsome
    cases hsome
  unfold State.pushWord
  split
  · rename_i hdigit
    rw [Bool.and_eq_true, String.isEmpty_iff] at hdigit
    split
    · rename_i tokens hsign
      obtain ⟨htokens, hfollows⟩ := withoutSign?_eq_some_iff.mp hsign
      have htokens' := h.tokens
      rw [htokens] at htokens'
      obtain ⟨hsettled, hapart⟩ := htokens'.of_minus
      have hspells : Spells tokens ("-".push c) := by
        rw [show "-".push c = String.ofList ['-', c] from push_ofList ['-'] c]
        exact .numeral hdigit.1 (by simpa using hc) hapart hfollows
      exact ⟨h.place, hsettled, .inr hspells⟩
    · rename_i hsign
      exact ⟨h.place, h.tokens, .inr (hstarts (fun _ => hsign) hdigit.2)⟩
  · rename_i hdigit
    rw [Bool.and_eq_true, String.isEmpty_iff] at hdigit
    refine ⟨h.place, h.tokens, .inr ?_⟩
    rcases h.word with hword | hspells
    · exact hstarts (fun hd => absurd ⟨hd, hword⟩ hdigit) hword
    · exact hspells.push hc

lemma Settles.codeStep (h : s.Settles) (hquote : c ≠ '"') (hstep : CodeStep s c s') :
    s'.Settles := by
  have hflush := h.flush
  have hword := s.word_flush
  cases hstep with
  | comment => exact ⟨by simp, hflush.tokens, .inl hword⟩
  | quote hc => exact absurd hc hquote
  | operator hc => exact hflush.pushOperator hword hc
  | blank => exact hflush
  | mark hc => exact ⟨hflush.place, .mark hflush.tokens hc, .inl hword⟩
  | forbidden => exact ⟨h.place, h.tokens, h.word⟩
  | ordinary hc => exact h.pushWord hc

lemma Settles.step (h : s.Settles) (hquote : c ≠ '"') : (s.step c).Settles := by
  have hread : (s.read c).Settles := by
    unfold State.read
    split
    · exact h.codeStep hquote (readCode_cases s c)
    · split
      · exact ⟨by simp, h.tokens, h.word⟩
      · exact h
    · exact absurd ‹_› (h.place _)
  rw [step_eq]
  exact ⟨hread.place, hread.tokens, hread.word⟩

/-! ### Settled tokens are read back -/

lemma readCode_of_operator (hc : isOperator c = true) (s : State) :
    s.readCode c = s.flush.pushOperator (joins c) c := by
  by_cases hminus : c = '-'
  · subst hminus
    rfl
  have hmark : isMark c = false := by
    by_contra hmark
    simp [not_operator_of_mark (by simpa using hmark)] at hc
  have hkeeps := drops_of_operator hc
  have hjoins : joins c = isOperator := by
    funext d
    simp [joins, hminus]
  simp_all [Region.drops, readCode, isOperator]

lemma readCode_of_mark (hc : isMark c = true) (s : State) :
    s.readCode c = s.flush.push (String.singleton c) := by
  have hoperator := not_operator_of_mark hc
  have hkeeps := drops_of_mark hc
  simp_all [Region.drops, readCode, isOperator]

lemma readCode_of_ordinary (hc : isOrdinary c = true) (s : State) :
    s.readCode c = s.pushWord c := by
  simp_all [isOrdinary, readCode, isOperator]

lemma step_of_keeps (hplace : s.place = .code) (hkeeps : Region.code.drops c = false) :
    s.step c = s.readCode c := by
  have hline : c ≠ '\n' := by
    rintro rfl
    exact absurd hkeeps (by decide)
  simp [State.step, State.read, hplace, hline]

lemma step_mark (hc : isMark c = true) :
    State.step { tokens := ts } c = { tokens := String.singleton c :: ts } := by
  rw [step_of_keeps rfl (drops_of_mark hc), readCode_of_mark hc]
  rfl

lemma step_operator (hc : isOperator c = true) (hapart : Apart c ts) :
    State.step { tokens := ts } c = { tokens := String.singleton c :: ts } := by
  rw [step_of_keeps rfl (drops_of_operator hc), readCode_of_operator hc]
  change State.pushOperator { tokens := ts } (joins c) c = _
  cases ts with
  | nil => rfl
  | cons last earlier => simp [State.pushOperator, hapart last rfl, State.push]

lemma foldl_operator {t : Token} {d : Char} {cs : List Char} (hd : t.toList.getLast? = some d)
    (hall : ∀ e ∈ cs, isOperator e = true)
    (hjoins : (d :: cs).IsChain fun d e => joins e d = true) :
    cs.foldl State.step { tokens := t :: ts } = { tokens := (t ++ String.ofList cs) :: ts } := by
  induction cs generalizing t d with
  | nil => simp
  | cons e cs ih =>
    rw [List.forall_mem_cons] at hall
    rw [List.isChain_cons_cons] at hjoins
    have hstep : State.step { tokens := t :: ts } e = { tokens := t.push e :: ts } := by
      rw [step_of_keeps rfl (drops_of_operator hall.1), readCode_of_operator hall.1]
      change State.pushOperator { tokens := t :: ts } (joins e) e = _
      simp [State.pushOperator, hd, hjoins.1]
    rw [List.foldl_cons, hstep, ih (by simp) hall.2 hjoins.2, push_append_ofList]

lemma foldl_word {w : String} {cs : List Char} (hw : w ≠ "")
    (hall : ∀ e ∈ cs, isOrdinary e = true) : cs.foldl State.step { tokens := ts, word := w } =
    { tokens := ts, word := w ++ String.ofList cs } := by
  induction cs generalizing w with
  | nil => simp
  | cons e cs ih =>
    rw [List.forall_mem_cons] at hall
    have hstep : State.step { tokens := ts, word := w } e = { tokens := ts, word := w.push e } := by
      rw [step_of_keeps rfl (drops_of_ordinary hall.1), readCode_of_ordinary hall.1]
      simp [State.pushWord, String.isEmpty_iff, hw]
    rw [List.foldl_cons, hstep, ih (by simp) hall.2, push_append_ofList]

lemma foldl_spells {t : Token} (h : Spells ts t) :
    t.toList.foldl State.step { tokens := ts } = { tokens := ts, word := t } := by
  cases h with
  | @word c cs h hsign =>
    rw [List.forall_mem_cons] at h
    have hstep : State.step { tokens := ts } c = { tokens := ts, word := "".push c } := by
      rw [step_of_keeps rfl (drops_of_ordinary h.1), readCode_of_ordinary h.1, State.pushWord]
      split
      · rename_i hdigit
        split
        · rename_i tokens hsome
          obtain ⟨htokens, hfollows⟩ := withoutSign?_eq_some_iff.mp hsome
          exact absurd hfollows (hsign (Bool.and_eq_true_iff.mp hdigit).1 _ htokens)
        · rfl
      · rfl
    rw [String.toList_ofList, List.foldl_cons, hstep, foldl_word (by simp) h.2,
      push_append_ofList, String.empty_append]
  | @numeral c cs hdigit h hapart hsign =>
    rw [List.forall_mem_cons] at h
    have hstep : State.step { tokens := "-" :: ts } c = { tokens := ts, word := "-".push c } := by
      have hsome : State.withoutSign? { tokens := "-" :: ts } = some ts :=
        withoutSign?_eq_some_iff.mpr ⟨rfl, hsign⟩
      rw [step_of_keeps rfl (drops_of_ordinary h.1), readCode_of_ordinary h.1]
      simp [State.pushWord, hdigit, hsome]
    rw [String.toList_ofList, List.foldl_cons, step_operator (by decide) hapart, List.foldl_cons]
    change cs.foldl State.step (State.step { tokens := "-" :: ts } c) = _
    rw [hstep, foldl_word (by simp) h.2, push_append_ofList, show "-" = "".push '-' from rfl,
      push_append_ofList, String.empty_append]

def spaced (ts : List Token) : List Char := ts.flatMap fun t => ' ' :: t.toList

lemma spaced_concat (ts : List Token) (t : Token) : spaced (ts ++ [t]) = spaced ts ++
    ' ' :: t.toList := by
  simp [spaced]

lemma place_of_flush (h : s.flush = { tokens := ts }) : s.place = .code := by
  obtain ⟨tokens, hflush⟩ := s.flush_eq
  exact congrArg State.place (hflush.symm.trans h)

lemma foldl_spaced (h : Settled ts) : ((spaced ts.reverse).foldl State.step {}).flush =
    { tokens := ts } := by
  -- the blank before a token ends the token before it
  have hblank : ∀ {s : State} {earlier : List Token} (t : Token), s.flush = { tokens := earlier } →
      (' ' :: t.toList).foldl State.step s = t.toList.foldl State.step { tokens := earlier } := by
    intro s earlier t hs
    have hstep : s.step ' ' = s.flush := by
      simp only [State.step, State.read, place_of_flush hs]
      rfl
    rw [List.foldl_cons, hstep, hs]
  induction h with
  | nil => rfl
  | mark _ hc ih =>
    rw [List.reverse_cons, spaced_concat, List.foldl_append, hblank _ ih, String.toList_singleton,
      List.foldl_cons, List.foldl_nil, step_mark hc]
    rfl
  | operator _ hall hjoins hapart ih =>
    rw [List.forall_mem_cons] at hall
    rw [List.reverse_cons, spaced_concat, List.foldl_append, hblank _ ih, String.toList_ofList,
      List.foldl_cons, step_operator hall.1 hapart, foldl_operator (by simp) hall.2 hjoins,
      ← String.push_empty, push_append_ofList, String.empty_append]
    rfl
  | @word _ t _ ht ih =>
    rw [List.reverse_cons, spaced_concat, List.foldl_append, hblank _ ih, foldl_spells ht]
    have hne : t ≠ "" := by
      rintro rfl
      obtain ⟨c, hc, -⟩ := ht.getLast?
      simp at hc
    simp [State.flush, State.push, hne]

lemma cons_joined (t : Token) (ts : List Token) :
    ' ' :: (Tokens.joined (t :: ts)).toList = spaced (t :: ts) := by
  induction ts generalizing t with
  | nil => simp [Tokens.joined, spaced]
  | cons u us ih =>
    have htail := ih u
    simp_all [Tokens.joined, spaced, String.toList_intercalate]

lemma mem_joined (h : c ∈ (Tokens.joined ts).toList) : c = ' ' ∨ ∃ t ∈ ts, c ∈ t.toList := by
  cases ts with
  | nil => simp [Tokens.joined] at h
  | cons t ts =>
    have hspaced : c ∈ spaced (t :: ts) := cons_joined t ts ▸ List.mem_cons_of_mem _ h
    obtain ⟨u, hu, hc⟩ := List.mem_flatMap.mp hspaced
    exact (List.mem_cons.mp hc).imp_right fun hc => ⟨u, hu, hc⟩

lemma foldl_joined (ts : List Token) :
    (Tokens.joined ts).toList.foldl State.step {} = (spaced ts).foldl State.step {} := by
  cases ts with
  | nil => rfl
  | cons t ts =>
    rw [← cons_joined]
    rfl

end State

/-- Settled tokens are the tokens of their joined text. -/
lemma scan_joined {ts : List Token} (h : Settled ts) :
    scan (Tokens.joined ts.reverse).toList = (ts.reverse, []) := by
  have hflush := State.foldl_spaced h
  rw [scan, State.foldl_joined]
  set s := (State.spaced ts.reverse).foldl State.step {}
  have hfinish : s.finish = { tokens := ts } := by
    rw [State.finish, State.place_of_flush hflush, hflush]
  simp only [hfinish]

lemma kept_subset (text : List Char) : kept text ⊆ text := by
  intro c hc
  obtain ⟨⟨before, d⟩, hspot, hd⟩ := List.mem_filterMap.mp hc
  obtain ⟨⟨e, i⟩, he, heq⟩ := List.mem_map.mp hspot
  have hmem := List.fst_mem_of_mem_zipIdx he
  obtain ⟨-, rfl⟩ : text.take i = before ∧ e = d := by simpa using heq
  obtain ⟨-, rfl⟩ : _ ∧ e = c := by simpa using hd
  exact hmem

/-- Without double quotes, and without capital letters, the tokens of a text stay the same when they
are joined by blanks and cut again, and each of them is a mark, an operator, a word or a negative
numeral. -/
theorem tokens_canonical {source : String} (hquote : '"' ∉ source.toList)
    (hlower : Text.lowercase source = source.toList) :
    tokenize (Tokens.joined (tokenize source).1) = ((tokenize source).1, []) ∧
      ∀ t ∈ (tokenize source).1, Lexeme t := by
  have hsettles : (source.toList.foldl State.step {}).Settles :=
    foldl_step ⟨by simp, .nil, .inl rfl⟩ fun s hs c hc => hs.step fun heq => hquote (heq ▸ hc)
  have hread := (State.hasRead_foldl source.toList).finish.1
  set s := source.toList.foldl State.step {} with hs
  have hfinish : s.finish = s.flush := by
    unfold State.finish
    split
    · exact absurd ‹_› (hsettles.place _)
    · rfl
  have hsettled := hsettles.flush.tokens
  rw [hfinish] at hread
  have htokens : (tokenize source).1 = s.flush.tokens.reverse := by
    rw [tokenize, hlower, scan, ← hs, hfinish]
  rw [htokens]
  refine ⟨?_, fun t ht => hsettled.lexeme t (List.mem_reverse.mp ht)⟩
  -- lower-casing leaves the joined tokens alone, as their characters are the text's
  have hfixed : Text.lowercase (Tokens.joined s.flush.tokens.reverse) =
      (Tokens.joined s.flush.tokens.reverse).toList := by
    refine (Text.lowercaseAfter_eq_self_iff _).mpr fun c hc => ?_
    rcases State.mem_joined hc with rfl | ⟨t, ht, hct⟩
    · exact ⟨by decide, by decide, by decide⟩
    · have hkept : c ∈ kept source.toList := by
        rw [← hread]
        exact List.mem_flatten_of_mem (List.mem_map_of_mem ht) hct
      exact (Text.lowercaseAfter_eq_self_iff []).mp hlower c (kept_subset _ hkept)
  rw [tokenize, hfixed, scan_joined hsettled]

/-- Operators that blanks part, a minus that is a sign and one that is not, and a forbidden
character. -/
theorem tokens_canonical_mixed :
    tokenize (Tokens.joined (tokenize "x < - 1 = a - 1 ; - 2@y #z").1) =
        (["x", "<", "-1", "=", "a", "-", "1", ";", "-2y"], []) ∧
      ∀ t ∈ (tokenize "x < - 1 = a - 1 ; - 2@y #z").1, Lexeme t := by
  have hquote : '"' ∉ "x < - 1 = a - 1 ; - 2@y #z".toList := by decide
  have hlower : Text.lowercase "x < - 1 = a - 1 ; - 2@y #z" =
    "x < - 1 = a - 1 ; - 2@y #z".toList := by decide
  have htokens : (tokenize "x < - 1 = a - 1 ; - 2@y #z").1 =
      ["x", "<", "-1", "=", "a", "-", "1", ";", "-2y"] := by decide
  rw [← htokens]
  exact tokens_canonical hquote hlower

end Lexer
end CogolToolchain
