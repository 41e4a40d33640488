import CogolToolchain.Proofs.Compile.Reference
import Mathlib.Algebra.Ring.Int.Defs

/-!
References as they are written.

A reference in the source is a list of marks and then a numeral, a variable, a field or an element.
`Ref.tokens` writes it out, and reading the tokens back gives the reference with every variable
found in its home.
-/

namespace CogolToolchain
namespace Grammar

inductive Mark where
  /-- `$`: one pointer more is followed. -/
  | deref
  /-- `\`: one pointer less is followed. -/
  | address
  deriving DecidableEq, Repr

def Mark.token : Mark → Token
  | deref => "$"
  | address => "\\"

def Mark.shift : Mark → Int
  | deref => 1
  | address => -1

def shiftOf (marks : List Mark) : Int := (marks.map Mark.shift).sum

inductive Field where
  | last (name : Token)
  | dot (name : Token) (field : Field)
  | item (name : Token) (field : Field)
  deriving DecidableEq, Repr

namespace Field

def tokens : Field → List Token
  | last name => [name]
  | dot name field => name :: "." :: field.tokens
  | item name field => name :: "[" :: field.tokens ++ ["]"]

def name : Field → String
  | last name => name
  | dot name field => name ++ "." ++ field.name
  | item name field => name ++ "[" ++ field.name ++ "]"

end Field

inductive Ref where
  | number (marks : List Mark) (text : Token)
  | named (marks : List Mark) (name : Token)
  | field (marks : List Mark) (name : Token) (path : Field)
  | element (marks : List Mark) (name : Token) (index : Ref)
  deriving DecidableEq, Repr

/-- The token can be the name of a variable in a reference. -/
def IsName (t : Token) : Prop := t ≠ "$" ∧ t ≠ "\\" ∧ Numeral.signed? t = none

instance (t : Token) : Decidable (IsName t) := inferInstanceAs (Decidable (_ ∧ _))

namespace Ref

def tokens : Ref → List Token
  | number marks text => marks.map Mark.token ++ [text]
  | named marks name => marks.map Mark.token ++ [name]
  | field marks name path => marks.map Mark.token ++ name :: "." :: path.tokens
  | element marks name index => marks.map Mark.token ++ name :: "[" :: index.tokens ++ ["]"]

lemma tokens_ne_nil (r : Ref) : r.tokens ≠ [] := by cases r <;> simp [tokens]

def IsValid : Ref → Prop
  | number _ text => (Numeral.signed? text).isSome
  | named _ name | field _ name _ => IsName name
  | element _ name index => IsName name ∧ index.IsValid

instance : (r : Ref) → Decidable r.IsValid
  | number _ text => inferInstanceAs (Decidable ((Numeral.signed? text).isSome = true))
  | named _ name | field _ name _ => inferInstanceAs (Decidable (IsName name))
  | element _ name index =>
    have := instDecidableIsValid index
    inferInstanceAs (Decidable (IsName name ∧ index.IsValid))

/-- The reference with its variables found. -/
def resolve? (home? : Token → Option Home) : Ref → Option Reference
  | number marks text => (Numeral.signed? text).map (.numeral (shiftOf marks) text)
  | named marks name =>
    (home? name).map fun home => .plain { shift := shiftOf marks, name, home }
  | field marks name path =>
    (home? name).map fun home => .field { shift := shiftOf marks, name, home } path.name
  | element marks name index =>
    (home? name).bind fun home =>
      (index.resolve? home?).map (.element { shift := shiftOf marks, name, home })

end Ref

/-- The tables have the same variables, as far as a program can name them. -/
def SameNames (t t' : SymbolTable) : Prop :=
  ∀ name, isReserved name = false → t'.contains name = t.contains name

lemma SameNames.of_pads {t t' : SymbolTable} (h : t.Pads t') : SameNames t t' :=
  fun name hname => by
  rw [SymbolTable.contains, SymbolTable.contains, h.address? hname]

lemma SameNames.home? {t t' : SymbolTable} (h : SameNames t t') (scope : Scope) {name : Token}
    (hname : isReserved name = false) : scope.home? t' name = scope.home? t name := by
  simp only [Scope.home?, h name hname]

end Grammar

lemma Tokens.eq_cons_of_peek {t : Token} {ts : List Token} (ht : t ≠ "") (h : Tokens.peek ts = t) :
    ts = t :: Tokens.rest ts := by
  cases ts with
  | nil => exact absurd h.symm ht
  | cons u us =>
    obtain rfl : u = t := h
    rfl

lemma Tokens.eq_cons_of_eat? {t : Token} {ts left : List Token} (ht : t ≠ "")
    (h : Tokens.eat? t ts = some left) : ts = t :: left := by
  unfold Tokens.eat? at h
  split at h
  · rename_i hpeek
    rw [← Option.some.inj h]
    exact Tokens.eq_cons_of_peek ht (eq_of_beq hpeek)
  · simp at h

namespace Reference

/-- The brackets that are still open when a reference has been read. -/
def closers : Reference → List Token
  | element _ index => index.closers ++ ["]"]
  | _ => []

end Reference

namespace Grammar

open Reference Work Attempt

variable {home? : Token → Option Home} {shift : Int} {ts rest : List Token}

lemma shiftOf_cons (mark : Mark) (marks : List Mark) :
    shiftOf (mark :: marks) = mark.shift + shiftOf marks := by simp [shiftOf]

lemma read_marks (marks : List Mark) (ts : List Token) (shift : Int) :
    Reference.read home? shift (marks.map Mark.token ++ ts) =
      Reference.read home? (shift + shiftOf marks) ts := by
  induction marks generalizing shift with
  | nil => simp [shiftOf]
  | cons mark marks ih =>
    rw [List.map_cons, List.cons_append, shiftOf_cons, ← Int.add_assoc, ← ih]
    cases mark with
    | deref => rw [Mark.token, Reference.read, if_pos rfl, Mark.shift]
    | address =>
      rw [Mark.token, Reference.read, if_neg (by decide), if_pos rfl, Mark.shift,
        Int.sub_eq_add_neg]

lemma readField_tokens (f : Field) (h : Tokens.peek rest ≠ "." ∧ Tokens.peek rest ≠ "[") :
    readField (f.tokens ++ rest) = (f.name, rest) := by
  induction f generalizing rest with
  | last name =>
    simp only [Field.tokens, List.singleton_append, Field.name]
    rw [readField]
    · intro ts' heq
      exact h.1 (by rw [heq]; rfl)
    · intro ts' heq
      exact h.2 (by rw [heq]; rfl)
  | dot name field ih =>
    simp only [Field.tokens, List.cons_append, Field.name, readField, ih h]
  | item name field ih =>
    simp only [Field.tokens, List.cons_append, List.append_assoc, List.nil_append, Field.name]
    rw [readField, ih ⟨by simp [Tokens.peek], by simp [Tokens.peek]⟩]
    rfl

lemma home?_of_read_name {name : Token} {ref : Reference} {left : List Token} (hname : IsName name)
    (h : Reference.read home? shift (name :: ts) = (.ok ref, left)) :
    ∃ home, home? name = some home ∧ (match ts with
      | "[" :: inner =>
        ((Reference.read home? 0 inner).1.map (.element { shift, name, home }),
          (Reference.read home? 0 inner).2)
      | "." :: inner =>
        (.ok (.field { shift, name, home } (readField inner).1), (readField inner).2)
      | _ => (.ok (.plain { shift, name, home }), ts)) = (.ok ref, left) := by
  rw [Reference.read, if_neg hname.1, if_neg hname.2.1] at h
  split at h
  · simp at h
  · rw [hname.2.2] at h
    dsimp only at h
    split at h
    · simp at h
    · rename_i home hhome
      exact ⟨home, hhome, h⟩

/-- Reading a reference that is written out gives the reference, up to the brackets of its
indices. -/
lemma resolve?_of_read {r : Ref} {ref : Reference} {left : List Token} (hr : r.IsValid)
    (hrest : Tokens.peek rest ≠ "." ∧ Tokens.peek rest ≠ "[")
    (h : Reference.read home? 0 (r.tokens ++ rest) = (.ok ref, left)) :
    r.resolve? home? = some ref ∧ left = ref.closers ++ rest := by
  induction r generalizing rest ref left with
  | number marks text =>
    obtain ⟨value, hvalue⟩ := Option.isSome_iff_exists.mp hr
    rw [Ref.tokens, List.append_assoc, read_marks, Int.zero_add, List.singleton_append] at h
    have hne : text ≠ "$" ∧ text ≠ "\\" := by
      constructor <;> rintro rfl <;> exact absurd (Option.isSome_of_eq_some hvalue) (by decide)
    rw [Reference.read, if_neg hne.1, if_neg hne.2] at h
    split at h
    · simp at h
    · rw [hvalue] at h
      simp only [Prod.mk.injEq, Except.ok.injEq] at h
      obtain ⟨rfl, rfl⟩ := h
      exact ⟨by simp [Ref.resolve?, hvalue], rfl⟩
  | named marks name =>
    rw [Ref.tokens, List.append_assoc, read_marks, Int.zero_add, List.singleton_append] at h
    obtain ⟨home, hhome, hread⟩ := home?_of_read_name hr h
    split at hread
    · exact absurd rfl hrest.2
    · exact absurd rfl hrest.1
    · simp only [Prod.mk.injEq, Except.ok.injEq] at hread
      obtain ⟨rfl, rfl⟩ := hread
      exact ⟨by simp [Ref.resolve?, hhome], rfl⟩
  | field marks name path =>
    rw [Ref.tokens, List.append_assoc, read_marks, Int.zero_add, List.cons_append,
      List.cons_append] at h
    obtain ⟨home, hhome, hread⟩ := home?_of_read_name hr h
    simp only [readField_tokens path hrest, Prod.mk.injEq, Except.ok.injEq] at hread
    obtain ⟨rfl, rfl⟩ := hread
    exact ⟨by simp [Ref.resolve?, hhome], rfl⟩
  | element marks name index ih =>
    rw [Ref.tokens, List.append_assoc, List.append_assoc, read_marks, Int.zero_add,
      List.cons_append, List.cons_append] at h
    obtain ⟨home, hhome, hread⟩ := home?_of_read_name hr.1 h
    rcases hinner : Reference.read home? 0 (index.tokens ++ ("]" :: rest)) with ⟨_ | i, left'⟩
    · simp [hinner, Except.map] at hread
    · obtain ⟨hindex, rfl⟩ := ih hr.2 ⟨by simp [Tokens.peek], by simp [Tokens.peek]⟩ hinner
      simp only [List.singleton_append, hinner, Except.map, Prod.mk.injEq, Except.ok.injEq] at hread
      obtain ⟨rfl, rfl⟩ := hread
      exact ⟨by simp [Ref.resolve?, hhome, hindex], by simp [closers]⟩

lemma resolve?_congr {home?' : Token → Option Home} {scope : Scope} {r : Ref} {ref : Reference}
    (h : r.resolve? home? = some ref) (hp : ref.Proper scope)
    (hagree : ∀ name, isReserved name = false → home?' name = home? name) :
    r.resolve? home?' = some ref := by
  induction r generalizing ref with
  | number marks text => exact h
  | named marks name | field marks name path =>
    simp only [Ref.resolve?, Option.map_eq_some_iff] at h ⊢
    obtain ⟨home, hhome, rfl⟩ := h
    exact ⟨home, (hagree name hp.1).trans hhome, rfl⟩
  | element marks name index ih =>
    simp only [Ref.resolve?, Option.bind_eq_some_iff, Option.map_eq_some_iff] at h ⊢
    obtain ⟨home, hhome, i, hi, rfl⟩ := h
    exact ⟨home, (hagree name hp.1.1).trans hhome, i, ih hi hp.2, rfl⟩

/-! ### Tokens of lowered references -/

variable {scope : Scope} {role : Role} {b b' : Workbench} {a : Backed} {code : Code} {head : Head}

lemma tokens_of_lowerPlain (hb : b.Sane)
    (h : (lowerPlain scope head).on b = ((a, code), b')) : b'.tokens = b.tokens := by
  obtain ⟨b₁, hglobals, hscratch, htokens, hrun⟩ := on_lowerPlain scope head b
  rw [h] at hrun
  rcases hhome : head.home with _ | owner
  · simp only [hhome, Prod.mk.injEq] at hrun
    rw [hrun.2, htokens]
  · simp only [hhome, Prod.mk.injEq] at hrun
    rw [hrun.2, (takes_allocScratch (hb.congr hglobals hscratch)).tokens, htokens]

lemma tokens_of_lowerField {name : String} (hb : b.Sane)
    (h : (lowerField scope head name).on b = ((a, code), b')) : b'.tokens = b.tokens := by
  obtain ⟨b₁, hglobals, hscratch, htokens, hrun⟩ := on_lowerField scope head name b
  replace hrun := hrun _ rfl
  simp only [h, Prod.mk.injEq] at hrun
  rw [hrun.2, (takes_allocScratch (hb.congr hglobals hscratch)).tokens, htokens]

lemma tokens_of_reuseScratch (hb : b.Sane) (i : Backed) :
    ((reuseScratch i).on b).2.tokens = b.tokens := by
  rcases reuses_reuseScratch hb i with ⟨-, h⟩ | h
  · rw [h]
  · exact h.tokens

lemma tokens_of_lowerElement {i : Backed} (hb : b.Sane)
    (h : (lowerElement scope head i).on b = ((a, code), b')) : b'.tokens = b.tokens := by
  have halloc := (takes_allocScratch hb).tokens
  have hreuse := tokens_of_reuseScratch hb i
  simp only [lowerElement, headType, headOffset, Work.on_bind, Work.on_get, Work.on_pure] at h
  split at h
  all_goals
    simp only [frameAddress, Work.on_bind, Work.on_pure, Prod.mk.injEq] at h
    rw [← h.2]
    try assumption

lemma tokens_of_lower {ref : Reference} (h : Yields (ref.lower scope role) b (a, code) b')
    (hb : b.Sane) : b.tokens = ref.closers ++ b'.tokens := by
  induction ref generalizing role b b' a code with
  | numeral shift text value =>
    simp only [lower] at h
    split at h
    · simp at h
    · simp only [yields_bind, yields_pure, Prod.mk.injEq] at h
      obtain ⟨a', b₁, hshift, ⟨rfl, rfl⟩, rfl⟩ := h
      obtain ⟨rfl, -⟩ := withMode_of_applyShift hshift
      rfl
  | plain head =>
    simp only [lower, yields_bind, yields_lift, yields_pure, Prod.exists, Prod.mk.injEq] at h
    obtain ⟨a₀, code₀, b₁, hrun, a', b₂, hshift, ⟨rfl, rfl⟩, rfl⟩ := h
    obtain ⟨rfl, -⟩ := withMode_of_applyShift hshift
    exact (tokens_of_lowerPlain hb hrun).symm
  | field head name =>
    simp only [lower, yields_bind, yields_lift, yields_pure, Prod.exists, Prod.mk.injEq] at h
    obtain ⟨a₀, code₀, b₁, hrun, a', b₂, hshift, ⟨rfl, rfl⟩, rfl⟩ := h
    obtain ⟨rfl, -⟩ := withMode_of_applyShift hshift
    exact (tokens_of_lowerField hb hrun).symm
  | element head index ih =>
    simp only [lower, yields_bind, yields_lift, yields_pure, Prod.exists, Prod.mk.injEq] at h
    obtain ⟨i, before, b₁, hindex, a₀, code₀, b₂, hrun, _, b₃, hrelease, _, b₄, hclose, a', b₅,
      hshift, ⟨rfl, rfl⟩, rfl⟩ := h
    obtain ⟨rfl, -⟩ := withMode_of_applyShift hshift
    obtain ⟨left, heat, rfl⟩ := eat?_of_closeIndex hclose
    obtain rfl := (Prod.mk.inj ((on_releaseCells _ _).symm.trans hrelease)).2
    obtain ⟨hb₁, -⟩ := (careful_lower scope .source index).grows hb hindex
    have htokens : b₁.tokens = "]" :: left := by
      rw [← tokens_of_lowerElement hb₁ hrun]
      exact Tokens.eq_cons_of_eat? (by decide) heat
    simp [ih hindex hb, htokens, closers]

/-- A written reference is read, and its variables are found where the program keeps them. -/
lemma lower_of_reference {r : Ref} (hr : r.IsValid)
    (hrest : Tokens.peek rest ≠ "." ∧ Tokens.peek rest ≠ "[")
    (ht : b.tokens = r.tokens ++ rest) (hb : b.Sane)
    (h : Yields (reference scope role) b (a, code) b') :
    ∃ ref, r.resolve? (scope.home? b.globals) = some ref ∧ ref.Proper scope ∧
      Yields (ref.lower scope role) { b with tokens := ref.closers ++ rest } (a, code) b' ∧
      b'.tokens = rest := by
  simp only [reference, yields_bind, yields_get, yields_set] at h
  obtain ⟨b₁, b₂, ⟨h₁, h₂⟩, _, b₃, h₃, h⟩ := h
  subst b₃ b₂ b₁
  rcases hread : Reference.read (scope.home? b.globals) 0 b.tokens with ⟨_ | ref, left⟩
  · simp [hread] at h
  · simp only [hread] at h
    rw [ht] at hread
    obtain ⟨hresolve, rfl⟩ := resolve?_of_read hr hrest hread
    refine ⟨ref, hresolve, ?_, h, ?_⟩
    · exact proper_of_read (by rw [hread])
    · exact (List.append_cancel_left (tokens_of_lower h (hb.congr rfl rfl))).symm

end Grammar
end CogolToolchain
