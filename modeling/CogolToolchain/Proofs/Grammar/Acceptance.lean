import CogolToolchain.Proofs.Compile.Expansion
import CogolToolchain.Proofs.Grammar.Call

/-!
The form of the calls that are accepted.

A call that is compiled without a diagnostic names a subroutine, has its arguments in parentheses,
and has a field only together with a destination and an operator. It takes three liberties: a
position of the argument list may hold several references, any token may stand for the operator of a
call that has no field, and what follows the closing parenthesis of such a call is not looked at.
-/

namespace CogolToolchain
namespace Grammar

open Reference Work Attempt Call

/-- The tokens name a field. The bracket of an index may stay open. -/
inductive IsField : List Token → Prop
  | last (name : Token) : IsField [name]
  | dot (name : Token) {ts : List Token} (h : IsField ts) : IsField (name :: "." :: ts)
  | item (name : Token) {ts : List Token} (h : IsField ts) : IsField (name :: "[" :: ts ++ ["]"])
  | unclosed (name : Token) {ts : List Token} (h : IsField ts) : IsField (name :: "[" :: ts)

inductive IsReference : List Token → Prop
  | marked (mark : Mark) {ts : List Token} (h : IsReference ts) : IsReference (mark.token :: ts)
  | number {text : Token} (h : (Numeral.signed? text).isSome) : IsReference [text]
  | named {name : Token} (h : IsName name) : IsReference [name]
  | field {name : Token} {path : List Token} (h : IsName name) (hpath : IsField path) :
      IsReference (name :: "." :: path)
  | element {name : Token} {index : List Token} (h : IsName name) (hindex : IsReference index) :
      IsReference (name :: "[" :: index ++ ["]"])

/-- The references can be arguments for the parameter in `slot`, if there are any. -/
structure Suits (frame : Frame) (slot : Nat) (refs : List (List Token)) : Prop where
  written : ∀ r ∈ refs, IsReference r ∧ Tokens.peek r ≠ ")" ∧ Tokens.peek r ≠ ","
  param : refs ≠ [] → ∃ s, frame.slots[slot]? = some s ∧ frame.isArray s.name = false

def positionList (positions : List (List (List Token))) : List Token :=
  [","].intercalate (positions.map List.flatten)

def targetTokens : Option (List Token × Token) → List Token
  | none => []
  | some (dest, op) => dest ++ [op]

structure CallText where
  /-- The destination and the token after it. -/
  dest? : Option (List Token × Token)
  name : Token
  positions : List (List (List Token))
  field? : Option (List Token)
  /-- What follows the closing parenthesis, or the field. -/
  rest : List Token

namespace CallText

def ending (st : CallText) : List Token :=
  match st.field? with
  | none => st.rest
  | some path => "." :: path ++ st.rest

def tokens (st : CallText) : List Token :=
  "call" :: (targetTokens st.dest? ++ st.name :: "(" ::
    (positionList st.positions ++ ")" :: st.ending))

/-- The parts of the call are what they should be, and the subroutine has parameters for them. -/
structure IsAccepted (st : CallText) (scope : Scope) : Prop where
  dest : ∀ dest op, st.dest? = some (dest, op) → IsReference dest
  callee : ∃ frame, scope.frame? st.name = some frame ∧ ∀ j refs, st.positions[j]? = some refs →
    Suits frame (2 + j) refs
  /-- Without a field, anything that is no field may follow. -/
  bare : st.field? = none → Tokens.peek st.rest ≠ "."
  /-- With a field, there is a destination and an operator to store it with, and nothing else
  follows. -/
  field : ∀ path, st.field? = some path → IsField path ∧ st.rest = [";"] ∧
    ∃ dest op, st.dest? = some (dest, op) ∧ (op = "=" ∨ (resultOpcode? op).isSome)

end CallText

end Grammar

namespace Tokens

lemma peek_splitStatement (ts : List Token) : peek (splitStatement ts).1 = peek ts := by
  cases ts with
  | nil => rfl
  | cons t ts =>
    simp only [splitStatement, splitThrough]
    split <;> rfl

lemma eq_nil_of_splitStatement {ts front left : List Token}
    (h : (splitStatement ts).1 = front ++ ";" :: left) : left = [] := by
  induction ts generalizing front with
  | nil => simp [splitStatement, splitThrough] at h
  | cons t ts ih =>
    by_cases ht : t = ";"
    · subst ht
      have hone : (splitStatement (";" :: ts)).1 = [";"] := rfl
      rw [hone] at h
      cases front with
      | nil => simpa using h.symm
      | cons u us => simp at h
    · have hcons : (splitStatement (t :: ts)).1 = t :: (splitStatement ts).1 := by
        simp [splitStatement, splitThrough, ht]
      rw [hcons] at h
      cases front with
      | nil => exact absurd (List.cons.inj h).1 ht
      | cons u us => exact ih (List.cons.inj h).2

end Tokens

namespace Grammar

open Reference Work Attempt Call

/-! ### References -/

variable {home? : Token → Option Home} {scope : Scope} {role : Role} {b b' : Workbench}

lemma isField_of_readField {ts left : List Token} (h : (readField ts).2 = left)
    (hleft : left ≠ []) : ∃ path, IsField path ∧ ts = path ++ left := by
  fun_induction readField ts generalizing left with
  | case1 => exact absurd h.symm hleft
  | case2 t ts name rest hrest ih =>
    obtain ⟨path, hpath, rfl⟩ := ih (by rw [hrest]; exact h) hleft
    exact ⟨_, .dot t hpath, rfl⟩
  | case3 t ts name rest hrest ih =>
    have hclosed : (readField ts).2 = "]" :: rest := by rw [hrest]
    obtain ⟨path, hpath, rfl⟩ := ih hclosed (by simp)
    obtain rfl : rest = left := h
    exact ⟨_, .item t hpath, by simp⟩
  | case4 t ts name rest hne hrest ih =>
    obtain ⟨path, hpath, rfl⟩ := ih (by rw [hrest]; exact h) hleft
    exact ⟨_, .unclosed t hpath, rfl⟩
  | case5 t ts =>
    obtain rfl : ts = left := h
    exact ⟨_, .last t, rfl⟩

/-- What is read, together with the brackets that are still to come, is a reference. -/
lemma isReference_of_read {shift : Int} {ts left : List Token} {ref : Reference}
    (h : Reference.read home? shift ts = (.ok ref, left)) (hleft : left ≠ []) :
    ∃ front, ts = front ++ left ∧ IsReference (front ++ ref.closers) := by
  fun_induction Reference.read home? shift ts generalizing ref left with
  | case1 => simp_all
  | case2 => simp_all
  | case3 shift ts ih =>
    obtain ⟨front, rfl, hfront⟩ := ih h hleft
    exact ⟨"$" :: front, rfl, .marked .deref hfront⟩
  | case4 shift ts _ ih =>
    obtain ⟨front, rfl, hfront⟩ := ih h hleft
    exact ⟨"\\" :: front, rfl, .marked .address hfront⟩
  | case5 => simp at h
  | case6 shift t ts hderef haddress hres value hvalue =>
    simp only [Prod.mk.injEq, Except.ok.injEq] at h
    obtain ⟨rfl, rfl⟩ := h
    exact ⟨[t], rfl, .number (by simp [hvalue])⟩
  | case7 => simp at h
  | case8 shift t hderef haddress hres hvalue home hhome head inner index rest hread =>
    rename_i ih
    cases index with
    | error => simp [Except.map] at h
    | ok i =>
      simp only [Except.map, Prod.mk.injEq, Except.ok.injEq] at h
      obtain ⟨rfl, rfl⟩ := h
      obtain ⟨front, rfl, hfront⟩ := ih hread hleft
      refine ⟨t :: "[" :: front, rfl, ?_⟩
      have := IsReference.element ⟨hderef, haddress, hvalue⟩ hfront
      simpa [closers] using this
  | case9 shift t hderef haddress hres hvalue home hhome head inner name rest =>
    rename_i hread
    simp only [Prod.mk.injEq, Except.ok.injEq] at h
    obtain ⟨rfl, rfl⟩ := h
    obtain ⟨path, hpath, rfl⟩ := isField_of_readField (congrArg Prod.snd hread) hleft
    have := IsReference.field ⟨hderef, haddress, hvalue⟩ hpath
    exact ⟨t :: "." :: path, rfl, by simpa [closers] using this⟩
  | case10 shift t =>
    simp only [Prod.mk.injEq, Except.ok.injEq] at h
    obtain ⟨rfl, rfl⟩ := h
    exact ⟨[t], rfl, .named ⟨‹_›, ‹_›, ‹_›⟩⟩

lemma isReference_of_reference {r : Backed × Code} (h : Yields (reference scope role) b r b')
    (hb : b.Sane) (hleft : b'.tokens ≠ []) : ∃ ref, IsReference ref ∧ b.tokens = ref ++
    b'.tokens := by
  simp only [reference, yields_bind, yields_get, yields_set] at h
  obtain ⟨b₁, b₂, ⟨h₁, h₂⟩, _, b₃, h₃, h⟩ := h
  subst b₃ b₂ b₁
  rcases hread : Reference.read (scope.home? b.globals) 0 b.tokens with ⟨_ | ref, left⟩
  · simp [hread] at h
  · simp only [hread] at h
    obtain rfl : left = ref.closers ++ b'.tokens := tokens_of_lower h (hb.congr rfl rfl)
    obtain ⟨front, htokens, hfront⟩ := isReference_of_read hread (by simp [hleft])
    exact ⟨_, hfront, by rw [htokens, List.append_assoc]⟩

lemma IsReference.ne_nil {ref : List Token} (h : IsReference ref) : ref ≠ [] := by
  cases h <;> simp

/-! ### Arguments -/

lemma positionList_cons (r : List Token) (refs : List (List Token))
    (positions : List (List (List Token))) :
    positionList ((r :: refs) :: positions) = r ++ positionList (refs :: positions) := by
  cases positions <;> simp [positionList, List.intercalate]

lemma exists_positions {frame : Frame} {slot : Nat} {args : List Argument}
    (h : Arguments scope frame slot b args b') (hb : b.Sane) : ∃ refs positions,
      b.tokens = positionList (refs :: positions) ++ ")" :: b'.tokens ∧
      ∀ j rs, (refs :: positions)[j]? = some rs → Suits frame (slot + j) rs := by
  induction h with
  | @nil slot b next =>
    refine ⟨[], [], Tokens.eq_cons_of_peek (by decide) next, fun j rs hj => ?_⟩
    obtain ⟨rfl, rfl⟩ : j = 0 ∧ [] = rs := by
      cases j with
      | zero => simpa using hj
      | succ j => simp at hj
    exact ⟨by simp, by simp⟩
  | @skip slot b b' args next rest ih =>
    obtain ⟨refs, positions, htokens, hsuits⟩ := ih (hb.congr rfl rfl)
    refine ⟨[], refs :: positions, ?_, fun j rs hj => ?_⟩
    · rw [Tokens.eq_cons_of_peek (by decide) next]
      simp only at htokens
      rw [htokens]
      simp [positionList, List.intercalate]
    · cases j with
      | zero =>
        obtain rfl : [] = rs := by simpa using hj
        exact ⟨by simp, by simp⟩
      | succ j =>
        have := hsuits j rs (by simpa using hj)
        rwa [show slot + (j + 1) = slot + 1 + j by omega]
  | @cons b b₁ b' a args s next hslot hparam harray lowers rest ih =>
    obtain ⟨refs, positions, htokens, hsuits⟩ := ih (lowers.grows hb).1
    obtain @⟨b₂, b₃, ds, hread, hsource, hcheck, htemp⟩ := lowers
    have hleft : b₂.tokens = positionList (refs :: positions) ++ ")" :: b'.tokens := by
      rw [← htokens, ← tokens_allocScratch { b₂ with diagnostics := ds }, htemp]
    obtain ⟨r, hr, hsplit⟩ := isReference_of_reference hsource hb (by simp [hleft])
    refine ⟨r :: refs, positions, ?_, fun j rs hj => ?_⟩
    · rw [hsplit, hleft, positionList_cons, List.append_assoc]
    · cases j with
      | zero =>
        obtain rfl : r :: refs = rs := by simpa using hj
        have hpeek : Tokens.peek r = Tokens.peek b.tokens := by
          rw [hsplit]
          cases r with
          | nil => exact absurd rfl hr.ne_nil
          | cons t ts => rfl
        refine ⟨fun r' hr' => ?_, fun _ => ⟨s, hslot, hparam ▸ harray⟩⟩
        rcases List.mem_cons.mp hr' with rfl | hr'
        · exact ⟨hr, hpeek ▸ next⟩
        · exact (hsuits 0 refs rfl).written r' hr'
      | succ j => exact hsuits (j + 1) rs (by simpa using hj)

/-! ### The parts of a call -/

lemma exists_target {c : CallSite} (p : Lowering scope c b b') (hb : b.Sane) :
    ∃ dest? : Option (List Token × Token),
      Tokens.rest b.tokens = targetTokens dest? ++ p.named.tokens ∧
      (∀ dest op, dest? = some (dest, op) → IsReference dest) ∧
      dest?.map Prod.snd = p.dest?.map fun d => d.2.2 := by
  rcases destination_cases p.yields_destination with ⟨-, hnone, hnamed⟩ |
    ⟨dest, code, b₁, -, hyields, hsome, hnamed⟩
  · exact ⟨none, by rw [hnamed]; rfl, by simp, by simp [hnone]⟩
  · have hnext : b₁.tokens ≠ [] := by
      intro hnil
      have htokens := tokens_named p hb
      rw [hnamed, hnil] at htokens
      simp [Tokens.rest] at htokens
    have hb₀ : Workbench.Sane { b with tokens := Tokens.rest b.tokens } := hb.congr rfl rfl
    obtain ⟨ref, href, hsplit⟩ := isReference_of_reference hyields hb₀ hnext
    refine ⟨some (ref, Tokens.peek b₁.tokens), ?_, ?_, by simp [hsome]⟩
    · obtain ⟨t, ts, ht⟩ := List.exists_cons_of_ne_nil hnext
      simp only at hsplit
      rw [hsplit, hnamed]
      simp [targetTokens, ht, Tokens.peek, Tokens.rest]
    · rintro _ _ ⟨⟩
      exact href

/-- If nothing is reported, a field is stored with an operator, and the statement ends behind it. -/
lemma stored_of_fieldResult {frame : Frame} {dest? : Option (Backed × Code × Token)} {code : Code}
    (h : Yields (fieldResult frame dest?) b code b') (hb : b.Sane)
    (hsilent : b'.diagnostics = b.diagnostics) :
    (∃ dest address op, dest? = some (dest, address, op) ∧ (op = "=" ∨ (resultOpcode? op).isSome)) ∧
      (readField b.tokens).2 = ";" :: b'.tokens := by
  simp only [fieldResult, yields_bind, yields_get, yields_set] at h
  obtain ⟨b₀, b₁, ⟨h₀, h₁⟩, -, b₂, h₂, h⟩ := h
  subst b₂ b₁ b₀
  split at h
  · simp at h
  · rename_i dest address op
    rw [yields_bind] at h
    obtain ⟨temp, b₃, htemp, h⟩ := h
    rw [yields_bind] at h
    obtain ⟨store, b₄, hstore, h⟩ := h
    rw [yields_lift] at htemp hstore
    obtain ⟨-, ts, ds, rfl, heat⟩ := eat_or_report h
    obtain ⟨⟨ds', rfl, hop⟩, -⟩ := stores_of_storeResult hstore
    have hb₀ : Workbench.Sane { b with tokens := (readField b.tokens).2 } := hb.congr rfl rfl
    have htakes := takes_allocScratch hb₀
    rw [htemp] at htakes
    have hdiagnostics : b₃.diagnostics = b.diagnostics := htakes.diagnostics
    have htokens : b₃.tokens = (readField b.tokens).2 := htakes.tokens
    obtain ⟨rfl, rfl⟩ : ds' = [] ∧ ds = [] := by simpa [hdiagnostics] using hsilent
    refine ⟨⟨dest, address, op, rfl, hop rfl⟩, ?_⟩
    rw [← htokens]
    exact Tokens.eq_cons_of_eat? (by decide) (heat rfl)

lemma exists_lowering_of_silent {c : CallSite} (hb : b.Sane)
    (hsilent : ((Call.compile scope c).on b).2.diagnostics = b.diagnostics) :
    ∃ left, ∃ _ : Lowering (Call.scope c scope) c (bench c b) left, left.diagnostics =
    b.diagnostics := by
  rw [on_compile] at hsilent
  rcases hon : (lower (Call.scope c scope) c).on (bench c b) with ⟨_ | code, left⟩
  · have hreports := (safe_lower (Call.scope c scope) c).reports _ (grows_bench c hb).1
      (by rw [hon])
    exact absurd hsilent hreports
  · obtain ⟨p, -⟩ := exists_lowering hon
    rw [hon] at hsilent
    exact ⟨left, p, hsilent⟩

/-- A call that is compiled without a diagnostic is written in one of the accepted forms. -/
theorem silent_calls_are_written {ts : List Token} {c : CallSite} (hcall : Tokens.peek ts = "call")
    (hc : c.tokens = (Tokens.splitStatement ts).1) (hb : b.Sane)
    (hsilent : ((Call.compile scope c).on b).2.diagnostics = b.diagnostics) :
    ∃ st : CallText, c.tokens = st.tokens ∧ st.IsAccepted scope := by
  obtain ⟨left, p, hleft⟩ := exists_lowering_of_silent hb hsilent
  have hbench := (grows_bench c hb).1
  have hstart : c.tokens = "call" :: Tokens.rest c.tokens := by
    refine Tokens.eq_cons_of_peek (by decide) ?_
    rw [hc, Tokens.peek_splitStatement, hcall]
  obtain ⟨dest?, htarget, hdest, hop⟩ := exists_target p hbench
  obtain ⟨refs, positions, harguments, hsuits⟩ :=
    exists_positions p.arguments (p.grows_opened hbench).1
  have htokens : c.tokens = "call" :: (targetTokens dest? ++ Tokens.peek p.named.tokens :: "(" ::
      (positionList (refs :: positions) ++ ")" :: p.closed.tokens)) := by
    rw [hstart, ← harguments, ← tokens_named p hbench]
    exact congrArg _ htarget
  have hcallee : ∃ frame, scope.frame? (Tokens.peek p.named.tokens) = some frame ∧
      ∀ j rs, (refs :: positions)[j]? = some rs → Suits frame (2 + j) rs :=
    ⟨p.frame, p.frame?_eq, hsuits⟩
  have hfinishes := p.finishes
  split at hfinishes
  · rename_i hdot
    -- nothing was reported for the field either
    have hentered : left.diagnostics = (entered p.pointer p.closed).diagnostics := by
      have hbefore := ((p.grows_named hbench).2.trans (p.grows_placed hbench).2).trans
        ((p.takes_temp hbench).grows.trans
        ((p.grows_opened hbench).2.trans (p.grows_closed hbench).2))
      have hle := (hbefore.trans (p.grows_entered hbench).2).diagnostics.length_le
      have hreports := (p.grows_left hbench).2.diagnostics
      refine (hreports.eq_of_length (Nat.le_antisymm hreports.length_le ?_)).symm
      rw [hleft]
      exact hle
    obtain ⟨⟨dest, address, op, hdest', hsupported⟩, hread⟩ :=
      stored_of_fieldResult hfinishes (p.grows_entered hbench).1 hentered
    obtain ⟨path, hpath, hsplit⟩ := isField_of_readField hread (by simp)
    have hclosed : p.closed.tokens = "." :: (path ++ ";" :: left.tokens) := by
      rw [Tokens.eq_cons_of_peek (by decide) hdot]
      exact congrArg _ hsplit
    rw [hclosed] at htokens
    have hend : left.tokens = [] := by
      have hstatement : (Tokens.splitStatement ts).1 =
          ("call" :: (targetTokens dest? ++ Tokens.peek p.named.tokens :: "(" ::
            (positionList (refs :: positions) ++ ")" :: "." :: path))) ++ ";" :: left.tokens := by
        rw [← hc, htokens]
        simp
      exact Tokens.eq_nil_of_splitStatement hstatement
    rw [hend] at htokens
    refine ⟨⟨dest?, Tokens.peek p.named.tokens, refs :: positions, some path, [";"]⟩, htokens,
      hdest, hcallee, by simp, fun path' hpath' => ?_⟩
    obtain rfl : path = path' := by simpa using hpath'
    rw [hdest'] at hop
    obtain ⟨⟨ref, op'⟩, href, rfl⟩ := Option.map_eq_some_iff.mp hop
    exact ⟨hpath, rfl, ref, _, href, hsupported⟩
  · rename_i hdot
    exact ⟨⟨dest?, Tokens.peek p.named.tokens, refs :: positions, none, p.closed.tokens⟩, htokens,
      hdest, hcallee, fun _ => hdot, by simp⟩

/-- A call that takes all liberties. -/
def hurried : String := "my p; sub f(a) \x7b \x7d call p += f(1 2) at once;"

/-- Nothing is reported for two arguments at one position, for the operator or for the words after
the parenthesis. -/
theorem silent_calls_are_written_hurried :
    ∃ (c : CallSite) (st : CallText), c ∈ (Session.stated {} hurried).calls ∧
      c.tokens = ["call", "p", "+=", "f", "(", "1", "2", ")", "at", "once", ";"] ∧
      ((Call.compile (Session.stated {} hurried).scope c).on
        (Session.stated {} hurried).bench).2.diagnostics =
        (Session.stated {} hurried).bench.diagnostics ∧
      c.tokens = st.tokens ∧ st.IsAccepted (Session.stated {} hurried).scope := by
  have hcalls : (Session.stated {} hurried).calls.map CallSite.tokens =
      [["call", "p", "+=", "f", "(", "1", "2", ")", "at", "once", ";"]] := by decide +kernel
  have hsilent : ∀ c ∈ (Session.stated {} hurried).calls,
      ((Call.compile (Session.stated {} hurried).scope c).on
        (Session.stated {} hurried).bench).2.diagnostics =
      (Session.stated {} hurried).bench.diagnostics := by decide +kernel
  obtain ⟨c, hc, htokens⟩ : ∃ c ∈ (Session.stated {} hurried).calls,
      c.tokens = ["call", "p", "+=", "f", "(", "1", "2", ")", "at", "once", ";"] :=
    List.mem_map.mp (hcalls ▸ List.mem_singleton_self _)
  have hcall : Tokens.peek c.tokens = "call" := by rw [htokens]; rfl
  have hstatement : c.tokens = (Tokens.splitStatement c.tokens).1 := by rw [htokens]; decide +kernel
  obtain ⟨st, hst, haccepted⟩ := silent_calls_are_written hcall hstatement
    (Session.fine_stated {} hurried).sane (hsilent c hc)
  exact ⟨c, st, hc, htokens, hsilent c hc, hst, haccepted⟩

end Grammar
end CogolToolchain
