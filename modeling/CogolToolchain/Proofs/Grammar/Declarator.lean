import CogolToolchain.Proofs.Compile.Scope
import CogolToolchain.Proofs.Compile.Statement
import CogolToolchain.Proofs.Grammar.Reference

/-!
Declarations as they are written, of variables and of parameters.

What follows the name says what is declared (`Decl.form`). Read without errors, a declaration gives
the declarator that `Decl.declarator?` reads off it, with the constants that are written there
(`Decl.declarator?_of_read`).
-/

namespace CogolToolchain

/-- What names stand for while a program is read: there are no frames yet. -/
def Scope.layout (scope : Scope) (t : SymbolTable) : Layout where
  type := scope.type t
  offset := scope.offset t
  frame _ := 0
  slot _ _ := 0

lemma Reference.constant?_congr {L L' : Layout} (htype : L.type = L'.type)
    (hoffset : L.offset = L'.offset) (ref : Reference) : ref.constant? L = ref.constant? L' := by
  induction ref with
  | numeral | field => rfl
  | plain head => simp only [constant?, hoffset]
  | element head index ih => simp only [constant?, hoffset, htype, ih]

namespace Grammar

/-- The number of a reference that is known before the program runs. -/
def Ref.constant? (scope : Scope) (t : SymbolTable) (r : Ref) : Option Int :=
  (r.resolve? (scope.home? t)).bind fun ref =>
    if ref.isGrounded .source then ref.constant? (scope.layout t) else none

def elementTokens : List Ref → List Token
  | [] => []
  | [r] => r.tokens
  | r :: rs => r.tokens ++ "," :: elementTokens rs

inductive Decl where
  /-- `name` -/
  | word (name : Token)
  /-- `name = value` -/
  | value (name : Token) (value : Ref)
  /-- `name[size]` -/
  | array (name size : Token)
  /-- `name[size] = {values}` -/
  | list (name size : Token) (first : Ref) (others : List Ref)
  deriving DecidableEq, Repr

namespace Decl

def name : Decl → Token
  | word name | value name _ | array name _ | list name _ _ _ => name

/-- What is written after the name, up to the token that ends the declaration. -/
def form : Decl → List Token
  | word _ => []
  | value _ r => "=" :: r.tokens
  | array _ size => ["[", size, "]"]
  | list _ size first others =>
    "[" :: size :: "]" :: "=" :: "\x7b" :: elementTokens (first :: others) ++ ["\x7d"]

def IsValid : Decl → Prop
  | word _ | array .. => True
  | value _ r => r.IsValid
  | list _ _ first others => ∀ r ∈ first :: others, r.IsValid

instance : (d : Decl) → Decidable d.IsValid
  | word _ | array .. => isTrue trivial
  | value _ r => inferInstanceAs (Decidable r.IsValid)
  | list _ _ first others => inferInstanceAs (Decidable (∀ r ∈ first :: others, r.IsValid))

/-- What is declared, if the initial values are constants. -/
def declarator? (constant? : Ref → Option Int) : Decl → Option Declarator
  | word _ => some .word
  | value _ r => (constant? r).map .wordWithDefault
  | array _ size => (Numeral.size? size).map fun n => .array n []
  | list _ size first others => do
    let n ← Numeral.size? size
    let values ← (first :: others).mapM constant?
    return .array n values

end Decl

/-! ### Parameters -/

/-- A parameter and the token behind it, which is a comma or a parenthesis. -/
def IsParam (p : Decl × Token) : Prop :=
  p.1.IsValid ∧ p.1.name ∉ [")", "\x7b"] ∧ p.2 ∈ [",", ")"]

instance (p : Decl × Token) : Decidable (IsParam p) := inferInstanceAs (Decidable (_ ∧ _ ∧ _))

def paramTokens (params : List (Decl × Token)) : List Token :=
  params.flatMap fun p => p.1.name :: p.1.form ++ [p.2]

lemma paramTokens_cons (d : Decl) (sep : Token) (params : List (Decl × Token)) :
    paramTokens ((d, sep) :: params) = d.name :: (d.form ++ sep :: paramTokens params) := by
  simp [paramTokens]

lemma length_le_paramTokens (params : List (Decl × Token)) :
    params.length ≤ (paramTokens params).length := by
  induction params with
  | nil => simp
  | cons p params ih =>
    obtain ⟨d, sep⟩ := p
    simp only [paramTokens_cons, List.length_cons, List.length_append]
    omega

/-- The parameters of the subroutine `name` that are declared after those in `frame`. They may have
the names of variables, and then hide them from the initial values behind them. -/
def declaredParams? (scope : Scope) (t : SymbolTable) (name : Token) :
    Frame → List (Decl × Token) → Option (List (String × Declarator))
  | _, [] => some []
  | frame, (d, _) :: params => do
    let x ← d.declarator? (Ref.constant? (scope.within name frame) t)
    let others ← declaredParams? scope t name (frame.declare d.name x) params
    return (d.name, x) :: others

structure Heading where
  name : Token
  params : List (Decl × Token)
  deriving DecidableEq, Repr

namespace Heading

def tokens (h : Heading) : List Token :=
  "sub" :: h.name :: "(" :: (if h.params.isEmpty then [")"] else paramTokens h.params) ++ ["\x7b"]

def IsValid (h : Heading) : Prop := ∀ p ∈ h.params, IsParam p

instance (h : Heading) : Decidable h.IsValid :=
  inferInstanceAs (Decidable (∀ p ∈ h.params, IsParam p))

def block (id : Nat) (h : Heading) : Block := { kind := .sub, id, suffix := "_" ++ h.name }

/-- The parameters that are declared, if the initial values are constants. -/
def declared? (scope : Scope) (t : SymbolTable) (id : Nat) (h : Heading) :
    Option (List (String × Declarator)) :=
  declaredParams? scope t h.name (.new h.name (h.block id)) h.params

end Heading

/-! ### Reading declarations -/

open Work Attempt Declarator

section

variable {scope : Scope} {t : SymbolTable} {b b' : Workbench} {ts : List Token} {name : Token}
  {stops : List Token} {stop : Token} {rounds : Nat}

lemma constant?_of_yields {r : Ref} {n : Int} {a : Backed} {code : Code}
    (hn : r.constant? scope t = some n) (hr : r.IsValid)
    (hrest : Tokens.peek ts ≠ "." ∧ Tokens.peek ts ≠ "[") (ht : b.tokens = r.tokens ++ ts)
    (hb : b.Sane) (hpads : t.Pads b.globals)
    (h : Yields (reference scope .source) b (a, code) b') :
    a.constant? = some n ∧ b'.tokens = ts ∧ b'.Sane ∧ t.Pads b'.globals := by
  obtain ⟨hsane, hgrows⟩ := (careful_reference scope .source).grows hb h
  obtain ⟨ref, hresolve, hproper, hlower, htokens⟩ := lower_of_reference hr hrest ht hb h
  have hnames := resolve?_congr hresolve hproper fun name hname =>
    ((SameNames.of_pads hpads).home? scope hname).symm
  simp only [Ref.constant?, hnames, Option.bind_some, Option.ite_none_right_eq_some] at hn
  have hd := (Layout.describes_of ⟨{}, {}, []⟩ scope t).pads hpads
  refine ⟨?_, htokens, hsane, hpads.trans hgrows.globals⟩
  rw [Reference.constant?_of_lower hlower (hb.congr rfl rfl) hproper hd hn.1, ← hn.2]
  exact Reference.constant?_congr rfl rfl ref

lemma elementTokens_cons (r : Ref) (rs : List Ref) : elementTokens (r :: rs) = r.tokens ++
    (if rs.isEmpty then [] else "," :: elementTokens rs) := by
  cases rs <;> simp [elementTokens]

lemma length_le_elementTokens (rs : List Ref) : rs.length ≤ (elementTokens rs).length := by
  induction rs with
  | nil => simp
  | cons r rs ih =>
    have hpos := List.length_pos_iff.mpr r.tokens_ne_nil
    rw [elementTokens_cons, List.length_append, List.length_cons]
    cases rs with
    | nil =>
      rw [List.length_nil]
      omega
    | cons r' rs =>
      simp only [List.isEmpty_cons, Bool.false_eq_true, if_false, List.length_cons] at ih ⊢
      omega

section Round

variable {values : List Int} {value : Int}

lemma on_readElements_none (h : (readElement scope name values.length).on b = (none, b')) :
    (readElements scope name stops (rounds + 1) values).on b = (values.reverse, b') := by
  rw [readElements, Work.on_bind,
    show (readElement scope name values.length).run.on b = (none, b') from h]
  rfl

lemma on_readElements_comma (h : (readElement scope name values.length).on b = (some value, b'))
    (ht : b'.tokens = "," :: ts) : (readElements scope name stops (rounds + 1) values).on b =
      (readElements scope name stops rounds (value :: values)).on { b' with tokens := ts } := by
  rw [readElements, Work.on_bind,
    show (readElement scope name values.length).run.on b = (some value, b') from h]
  simp [ht, Tokens.peek, Tokens.rest]

lemma on_readElements_brace
    (h : (readElement scope name values.length).on b = (some value, b'))
    (ht : b'.tokens = "\x7d" :: stop :: ts) (hstop : stop ∈ stops) :
    (readElements scope name stops (rounds + 1) values).on b =
      ((value :: values).reverse, { b' with tokens := ts }) := by
  rw [readElements, Work.on_bind,
    show (readElement scope name values.length).run.on b = (some value, b') from h]
  simp [ht, Tokens.peek, Tokens.rest, hstop]
  rfl

end Round

/-- The elements of an initializer are read one by one, each with the comma or brace after it. -/
lemma on_readElements {rs : List Ref} {values : List Int} (hstop : stop ∈ stops) (hne : rs ≠ [])
    (hrs : ∀ r ∈ rs, r.IsValid) (hvalues : rs.mapM (Ref.constant? scope t) = some values)
    (ht : b.tokens = elementTokens rs ++ "\x7d" :: stop :: ts) (hb : b.Sane)
    (hpads : t.Pads b.globals) (hrounds : rs.length ≤ rounds) (before : List Int)
    (hclean : ((readElements scope name stops rounds before).on b).2.Clean) :
    ((readElements scope name stops rounds before).on b).1 = before.reverse ++ values ∧
      ((readElements scope name stops rounds before).on b).2.tokens = ts := by
  induction rs generalizing b rounds before values with
  | nil => exact absurd rfl hne
  | cons r rs ih =>
    rw [List.length_cons] at hrounds
    obtain ⟨rounds, rfl⟩ : ∃ n, rounds = n + 1 := ⟨rounds - 1, by omega⟩
    simp only [List.mapM_cons, Option.bind_eq_bind, Option.bind_eq_some_iff, Option.pure_def,
      Option.some.injEq] at hvalues
    obtain ⟨n, hn, values, hvalues, rfl⟩ := hvalues
    rw [elementTokens_cons, List.append_assoc] at ht
    rcases hread : (readElement scope name before.length).on b with ⟨_ | v, b₁⟩
    · have hfault := (careful_readElement scope name before.length).safe.fault b
      rw [on_readElements_none hread] at hclean
      rw [hread] at hfault
      exact absurd hclean (hfault rfl)
    · obtain ⟨a, code, b₀, href, hvalue⟩ : ∃ a code b₀,
          Yields (reference scope .source) b (a, code) b₀ ∧
          (a.constant? = some n → v = n ∧ b₁ = b₀) := by
        have hyields : Yields (readElement scope name before.length) b v b₁ := hread
        simp only [readElement, yields_bind, Prod.exists] at hyields
        obtain ⟨a, code, b₀, href, hmatch⟩ := hyields
        refine ⟨a, code, b₀, href, fun hconstant => ?_⟩
        simpa only [hconstant, yields_pure] using hmatch
      have hrest : Tokens.peek ((if rs.isEmpty then [] else "," :: elementTokens rs) ++
          "\x7d" :: stop :: ts) = if rs.isEmpty then "\x7d" else "," := by
        split <;> simp [Tokens.peek]
      obtain ⟨hconstant, htokens, hsane, hpads'⟩ := constant?_of_yields hn (hrs r (by simp))
        (by rw [hrest]; split <;> decide) ht hb hpads href
      obtain ⟨rfl, rfl⟩ := hvalue hconstant
      cases rs with
      | nil =>
        obtain rfl : [] = values := by simpa using hvalues
        rw [on_readElements_brace hread htokens hstop]
        simp
      | cons r' rs =>
        rw [on_readElements_comma hread htokens] at hclean ⊢
        have hsane' : Workbench.Sane
            { b₁ with tokens := elementTokens (r' :: rs) ++ "\x7d" :: stop :: ts } :=
          hsane.congr rfl rfl
        have hnext := ih (by simp) (fun r hr => hrs r (by simp [hr])) hvalues rfl hsane' hpads'
          (Nat.le_of_succ_le_succ hrounds) (v :: before) hclean
        simpa using hnext

lemma wordWithDefault_of_readDefault {r : Ref} {n : Int} {y : Declarator} (hstop : stop ∈ stops)
    (hend : stop ≠ "." ∧ stop ≠ "[") (hn : r.constant? scope t = some n) (hr : r.IsValid)
    (ht : b.tokens = r.tokens ++ stop :: ts) (hb : b.Sane) (hpads : t.Pads b.globals)
    (h : Yields (readDefault scope name stops) b y b') :
    y = .wordWithDefault n ∧ b'.tokens = ts := by
  simp only [readDefault, yields_bind, yields_lift, on_peek, Prod.exists, Prod.mk.injEq] at h
  obtain ⟨a, code, b₁, href, _, _, ⟨rfl, rfl⟩, h⟩ := h
  have hrest : Tokens.peek (stop :: ts) ≠ "." ∧ Tokens.peek (stop :: ts) ≠ "[" := hend
  obtain ⟨hconstant, htokens, -⟩ := constant?_of_yields hn hr hrest ht hb hpads href
  simp only [hconstant, htokens, Tokens.peek, List.contains_iff_mem.mpr hstop] at h
  obtain ⟨_, b₂, hpop, h⟩ := yields_bind.mp h
  obtain ⟨rfl, rfl⟩ := yields_pure.mp h
  obtain ⟨-, rfl⟩ := Prod.mk.inj (yields_lift.mp hpop)
  exact ⟨rfl, congrArg Tokens.rest htokens⟩

lemma on_readSize {size : Token} {n : Nat} (hn : Numeral.size? size = some n)
    (ht : b.tokens = size :: ts) : (readSize name).on b = (n, { b with tokens := ts }) := by
  simp [readSize, ht, Tokens.peek, Tokens.rest, hn]

lemma on_readArray_empty {size : Nat} (hstop : stop ∈ stops) (ht : b.tokens = "]" :: stop :: ts) :
    (readArray scope name stops size).on b = (.array size [], { b with tokens := ts }) := by
  simp [readArray, on_eat_of_eq ht, Tokens.peek, Tokens.rest, hstop]

lemma on_readArray_list {size : Nat} (hends : "=" ∉ stops)
    (ht : b.tokens = "]" :: "=" :: "\x7b" :: ts) :
    (readArray scope name stops size).on b =
      (.array size
          ((readElements scope name stops (ts.length + 1) []).on { b with tokens := ts }).1,
        ((readElements scope name stops (ts.length + 1) []).on { b with tokens := ts }).2) := by
  have hbrace : (eat "\x7b").on { b with tokens := "\x7b" :: ts } =
    (true, { b with tokens := ts }) := on_eat_of_eq rfl
  simp [readArray, on_eat_of_eq ht, Tokens.peek, Tokens.rest, hbrace, hends]

/-- What is read in a declaration is what it declares. -/
lemma Decl.declarator?_of_read {d : Decl} {x y : Declarator} (hd : d.IsValid)
    (hx : d.declarator? (Ref.constant? scope t) = some x) (hstop : stop ∈ stops)
    (hends : ∀ t ∈ stops, t ≠ "." ∧ t ≠ "[" ∧ t ≠ "=") (ht : b.tokens = d.form ++ stop :: ts)
    (hb : b.Sane) (hpads : t.Pads b.globals) (hclean : b'.Clean)
    (h : Yields (Declarator.read scope name stops) b y b') : y = x ∧ b'.tokens = ts := by
  have hne : "=" ∉ stops ∧ "[" ∉ stops :=
    ⟨fun h => (hends _ h).2.2 rfl, fun h => (hends _ h).2.1 rfl⟩
  simp only [Declarator.read, yields_bind, yields_lift, on_pop, Prod.mk.injEq] at h
  obtain ⟨_, _, ⟨rfl, rfl⟩, h⟩ := h
  cases d with
  | word name' =>
    simp [ht, form, Tokens.peek, Tokens.rest, hstop] at h
    obtain ⟨rfl, rfl⟩ := h
    exact ⟨Option.some.inj hx, rfl⟩
  | value name' r =>
    obtain ⟨n, hn, rfl⟩ := Option.map_eq_some_iff.mp hx
    have hsane : Workbench.Sane { b with tokens := r.tokens ++ stop :: ts } := hb.congr rfl rfl
    simp [ht, form, Tokens.peek, Tokens.rest, hne] at h
    exact wordWithDefault_of_readDefault hstop ⟨(hends _ hstop).1, (hends _ hstop).2.1⟩ hn hd rfl
      hsane hpads h
  | array name' size =>
    obtain ⟨n, hn, rfl⟩ := Option.map_eq_some_iff.mp hx
    simp [ht, form, Tokens.peek, Tokens.rest, hne, on_readSize hn, on_readArray_empty hstop] at h
    obtain ⟨rfl, rfl⟩ := h
    exact ⟨rfl, rfl⟩
  | list name' size first others =>
    simp only [declarator?, Option.bind_eq_bind, Option.bind_eq_some_iff, Option.pure_def,
      Option.some.injEq] at hx
    obtain ⟨n, hn, values, hvalues, rfl⟩ := hx
    have hsane : Workbench.Sane
        { b with tokens := elementTokens (first :: others) ++ "\x7d" :: stop :: ts } :=
      hb.congr rfl rfl
    have hle := length_le_elementTokens (first :: others)
    simp [ht, form, Tokens.peek, Tokens.rest, hne, on_readSize hn, on_readArray_list] at h
    obtain ⟨rfl, rfl⟩ := h
    obtain ⟨hread, htokens⟩ := on_readElements hstop (by simp) hd hvalues rfl hsane hpads (by omega)
      [] hclean
    rw [hread]
    exact ⟨rfl, htokens⟩

end

end Grammar
end CogolToolchain
