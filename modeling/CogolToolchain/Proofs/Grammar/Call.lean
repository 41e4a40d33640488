import CogolToolchain.Proofs.Compile.Call
import CogolToolchain.Proofs.Grammar.Reference

/-!
Calls as they are written.

A call names a subroutine and its arguments, of which some may be left out. It may have a
destination, which gets the new frame, or a field of the finished one. `CallStatement.tokens` writes
it out, and the parts that a call is lowered in are those that are written (`CallStatement.Reads`).
-/

namespace CogolToolchain
namespace Grammar

open Work Attempt Call

/-- A call as it is written. -/
structure CallStatement where
  /-- The destination and the operator after it. -/
  dest? : Option (Ref × Token)
  name : Token
  args : List (Option Ref)
  field? : Option Field
  deriving DecidableEq, Repr

def argument : Option Ref → List Token
  | none => []
  | some r => r.tokens

def argumentList : List (Option Ref) → List Token
  | [] => []
  | [arg] => argument arg
  | arg :: next :: rest => argument arg ++ "," :: argumentList (next :: rest)

/-- The arguments that are there, with their slots. The first one is for `slot`. -/
def suppliedFrom (slot : Nat) : List (Option Ref) → List (Nat × Ref)
  | [] => []
  | none :: rest => suppliedFrom (slot + 1) rest
  | some r :: rest => (slot, r) :: suppliedFrom (slot + 1) rest

namespace CallStatement

def target (st : CallStatement) : List Token :=
  match st.dest? with
  | none => []
  | some (dest, op) => dest.tokens ++ [op]

def ending (st : CallStatement) : List Token :=
  match st.field? with
  | none => [";"]
  | some field => "." :: field.tokens ++ [";"]

def tokens (st : CallStatement) : List Token :=
  "call" :: (st.target ++ st.name :: "(" :: (argumentList st.args ++ ")" :: st.ending))

/-- The parts are well written: the operator is one of assignment, and no name can be mistaken for a
sign of the statement. -/
structure IsValid (st : CallStatement) : Prop where
  dest : ∀ dest op, st.dest? = some (dest, op) →
    dest.IsValid ∧ "(" ∉ dest.tokens ∧ op.toList.getLast? = some '='
  name : st.name.toList.getLast? ≠ some '='
  args : ∀ r, some r ∈ st.args →
    r.IsValid ∧ Tokens.peek r.tokens ≠ ")" ∧ Tokens.peek r.tokens ≠ ","
  field : ∀ field, st.field? = some field → ")" ∉ field.tokens

end CallStatement

lemma exists_of_forall₂ {α β : Type} {R : α → β → Prop} {xs : List α} {ys : List β}
    (h : List.Forall₂ R xs ys) {y : β} (hy : y ∈ ys) : ∃ x ∈ xs, R x y := by
  induction h with
  | nil => simp at hy
  | @cons x _ xs _ hxy _ ih =>
    rcases List.mem_cons.mp hy with rfl | hy
    · exact ⟨x, List.mem_cons_self, hxy⟩
    · obtain ⟨x', hx', hxy'⟩ := ih hy
      exact ⟨x', List.mem_cons_of_mem _ hx', hxy'⟩

lemma mem_suppliedFrom {as : List (Option Ref)} {slot n : Nat} {r : Ref} :
    (n, r) ∈ suppliedFrom slot as ↔ ∃ j, n = slot + j ∧ as[j]? = some (some r) := by
  induction as generalizing slot with
  | nil => simp [suppliedFrom]
  | cons a as ih =>
    have hshift : (∃ j, n = slot + 1 + j ∧ as[j]? = some (some r)) ↔
        ∃ j, n = slot + (j + 1) ∧ (a :: as)[j + 1]? = some (some r) := by
      simp only [List.getElem?_cons_succ, Nat.add_assoc, Nat.add_comm 1]
    have hsplit : (∃ j, n = slot + j ∧ (a :: as)[j]? = some (some r)) ↔
        (n = slot ∧ a = some r) ∨ ∃ j, n = slot + (j + 1) ∧ (a :: as)[j + 1]? = some (some r) := by
      constructor
      · rintro ⟨_ | j, hn, hj⟩
        · exact .inl ⟨hn, by simpa using hj⟩
        · exact .inr ⟨j, hn, hj⟩
      · rintro (⟨hn, ha⟩ | ⟨j, hn, hj⟩)
        · exact ⟨0, hn, by simp [ha]⟩
        · exact ⟨j + 1, hn, hj⟩
    rw [hsplit, ← hshift, ← ih]
    cases a with
    | none => simp [suppliedFrom]
    | some r' => simp [suppliedFrom, eq_comm]

lemma pairwise_suppliedFrom (slot : Nat) (as : List (Option Ref)) :
    (suppliedFrom slot as).Pairwise fun x y => x.1 < y.1 := by
  induction as generalizing slot with
  | nil => exact List.Pairwise.nil
  | cons a as ih =>
    cases a with
    | none => exact ih (slot + 1)
    | some r =>
      refine List.pairwise_cons.mpr ⟨fun y hy => ?_, ih (slot + 1)⟩
      obtain ⟨j, hn, -⟩ := mem_suppliedFrom.mp hy
      dsimp only
      omega

lemma peek_tokens_append (r : Ref) (ts : List Token) :
    Tokens.peek (r.tokens ++ ts) = Tokens.peek r.tokens := by
  cases r with
  | number marks _ | named marks _ | field marks _ _ | element marks _ _ =>
    cases marks <;> rfl

/-! ### Reading a call -/

section

variable {scope : Scope} {frame : Frame} {slot : Nat} {b b' : Workbench} {args : List Argument}
  {as : List (Option Ref)} {r : Ref} {rest : List Token} {globals : SymbolTable}

lemma reads_of_lowers {a : Argument} (h : a.Lowers scope b b') (hb : b.Sane) (hr : r.IsValid)
    (hrest : Tokens.peek rest ≠ "." ∧ Tokens.peek rest ≠ "[") (ht : b.tokens = r.tokens ++ rest)
    (hnames : SameNames b.globals globals) :
    r.resolve? (scope.home? globals) = some a.ref ∧ b'.tokens = rest := by
  obtain @⟨b₁, b₂, ds, hread, hsource, hcheck, htemp⟩ := h
  obtain ⟨ref, hresolve, hproper, -, htokens⟩ := lower_of_reference hr hrest ht hb hsource
  have hsame : ref = a.ref := by
    rcases hfull : Reference.read (scope.home? b.globals) 0 b.tokens with ⟨_ | ref', left⟩
    · simp [hfull] at hread
    · obtain rfl : ref' = a.ref := by simpa [hfull] using hread
      rw [ht] at hfull
      exact Option.some.inj (hresolve.symm.trans (resolve?_of_read hr hrest hfull).1)
  subst hsame
  have htaken : b₂.tokens = b₁.tokens := by
    rw [← tokens_allocScratch { b₁ with diagnostics := ds }, htemp]
  exact ⟨resolve?_congr hresolve hproper fun name hname => hnames.home? scope hname,
    htaken.trans htokens⟩

/-- The written arguments are those that are lowered, and the rest is left. -/
lemma reads_arguments (h : Arguments scope frame slot b args b') (hb : b.Sane)
    (has : ∀ r, some r ∈ as → r.IsValid ∧ Tokens.peek r.tokens ≠ ")" ∧ Tokens.peek r.tokens ≠ ",")
    (ht : b.tokens = argumentList as ++ ")" :: rest) (hnames : SameNames b.globals globals) :
    b'.tokens = rest ∧
      List.Forall₂ (fun (a : Argument) (x : Nat × Ref) =>
        a.slot = x.1 ∧ x.2.resolve? (scope.home? globals) = some a.ref) args
        (suppliedFrom slot as) := by
  have hclose : ∀ {slot : Nat} {b b' : Workbench} {args : List Argument},
      Arguments scope frame slot b args b' → b.tokens = ")" :: rest → b'.tokens = rest ∧
      args = [] := by
    intro slot b b' args h ht
    cases h with
    | nil next => exact ⟨by simp [ht, Tokens.rest], rfl⟩
    | skip next => simp [ht, Tokens.peek] at next
    | cons next => simp [ht, Tokens.peek] at next
  have hcomma : ∀ {slot : Nat} {b b' : Workbench} {args : List Argument} {ts : List Token},
      Arguments scope frame slot b args b' → b.tokens = "," :: ts →
        Arguments scope frame (slot + 1) { b with tokens := ts } args b' := by
    intro slot b b' args ts h ht
    cases h with
    | nil next => simp [ht, Tokens.peek] at next
    | skip next rest =>
      rw [ht] at rest
      exact rest
    | cons next => simp [ht, Tokens.peek] at next
  -- one argument, and what is left after it
  have hone : ∀ {slot : Nat} {b b' : Workbench} {args : List Argument} {r : Ref} {t : Token}
      {ts : List Token}, Arguments scope frame slot b args b' → b.Sane →
      (r.IsValid ∧ Tokens.peek r.tokens ≠ ")" ∧ Tokens.peek r.tokens ≠ ",") → t = "," ∨ t = ")" →
      b.tokens = r.tokens ++ t :: ts → SameNames b.globals globals →
      ∃ a args' b₁, args = a :: args' ∧ a.slot = slot ∧
        r.resolve? (scope.home? globals) = some a.ref ∧ b₁.tokens = t :: ts ∧ b₁.Sane ∧
        SameNames b₁.globals globals ∧ Arguments scope frame slot b₁ args' b' := by
    intro slot b b' args r t ts h hb hr hsep ht hnames
    cases h with
    | nil next =>
      rw [ht, peek_tokens_append] at next
      exact absurd next hr.2.1
    | skip next =>
      rw [ht, peek_tokens_append] at next
      exact absurd next hr.2.2
    | @cons _ b₁ _ a args' _ next hslot hparam harray lowers rest =>
      obtain ⟨hsane, hgrows⟩ := lowers.grows hb
      have hpeek : Tokens.peek (t :: ts) ≠ "." ∧ Tokens.peek (t :: ts) ≠ "[" := by
        rcases hsep with rfl | rfl <;> simp [Tokens.peek]
      obtain ⟨hresolve, htokens⟩ := reads_of_lowers lowers hb hr.1 hpeek ht hnames
      refine ⟨a, args', b₁, rfl, rfl, hresolve, htokens, hsane, ?_, rest⟩
      intro name hname
      rw [hnames name hname, SameNames.of_pads hgrows.globals name hname]
  induction as generalizing slot b args with
  | nil =>
    obtain ⟨htokens, rfl⟩ := hclose h ht
    exact ⟨htokens, List.Forall₂.nil⟩
  | cons a as ih =>
    have has' := fun r hr => has r (List.mem_cons_of_mem _ hr)
    cases as with
    | nil =>
      cases a with
      | none =>
        obtain ⟨htokens, rfl⟩ := hclose h ht
        exact ⟨htokens, List.Forall₂.nil⟩
      | some r =>
        obtain ⟨a, args', b₁, rfl, hslot, hresolve, ht₁, -, -, hrest⟩ :=
          hone h hb (has r List.mem_cons_self) (.inr rfl) ht hnames
        obtain ⟨htokens, rfl⟩ := hclose hrest ht₁
        exact ⟨htokens, List.Forall₂.cons ⟨hslot, hresolve⟩ List.Forall₂.nil⟩
    | cons next as =>
      rw [argumentList, List.append_assoc, List.cons_append] at ht
      cases a with
      | none =>
        exact ih (hcomma h ht) (hb.congr rfl rfl) has' rfl hnames
      | some r =>
        obtain ⟨a, args', b₁, rfl, hslot, hresolve, ht₁, hb₁, hnames₁, hrest⟩ :=
          hone h hb (has r List.mem_cons_self) (.inl rfl) ht hnames
        obtain ⟨htokens, hargs⟩ := ih (hcomma hrest ht₁) (hb₁.congr rfl rfl) has' rfl hnames₁
        exact ⟨htokens, List.Forall₂.cons ⟨hslot, hresolve⟩ hargs⟩

lemma tokens_named {c : CallSite} (p : Lowering scope c b b') (hb : b.Sane) :
    p.named.tokens = Tokens.peek p.named.tokens :: "(" :: p.opened.tokens := by
  have hplaced : p.placed.tokens = Tokens.rest p.named.tokens := by
    rcases framePointer_cases p.on_framePointer with ⟨-, -, -, hplaced⟩ | ⟨-, -, t, halloc, -⟩
    · rw [hplaced]
    · have htokens := tokens_allocScratch { p.named with tokens := Tokens.rest p.named.tokens }
      rwa [halloc] at htokens
  obtain ⟨ts, heat, hopened⟩ := yields_expect_iff.mp p.yields_expect
  have hrest : Tokens.rest p.named.tokens = "(" :: p.opened.tokens := by
    rw [← hplaced, ← (p.takes_temp hb).tokens, hopened]
    exact Tokens.eq_cons_of_eat? (by decide) heat
  cases hnamed : p.named.tokens with
  | nil => simp [hnamed, Tokens.rest] at hrest
  | cons name ts =>
    rw [hnamed] at hrest
    rw [← hrest]
    rfl

end

namespace CallStatement

variable {st : CallStatement} {c : CallSite}

lemma pointerName?_of_none (hst : st.IsValid) (hc : c.tokens = st.tokens)
    (hdest : st.dest? = none) : c.pointerName? = none := by
  have hindex : c.assignIndex? = none := by
    have hname := hst.name
    rw [CallSite.assignIndex?, hc, tokens, target, hdest, List.nil_append,
      List.findIdx?_eq_none_iff]
    intro t ht
    have hmem : t = "call" ∨ t = st.name := by
      by_cases hparen : st.name = "("
      · simp only [List.takeWhile, hparen] at ht
        exact .inl (by simpa using ht)
      · have hne : (st.name != "(") = true := by simpa using hparen
        simp only [List.takeWhile, hne] at ht
        simpa using ht
    rcases hmem with rfl | rfl
    · decide
    · simpa using hname
  simp [CallSite.pointerName?, hindex]

lemma pointerName?_of_some (hst : st.IsValid) (hc : c.tokens = st.tokens) {dest : Ref} {op : Token}
    (hdest : st.dest? = some (dest, op)) : c.pointerName?.isSome = true := by
  obtain ⟨-, hparen, hop⟩ := hst.dest dest op hdest
  have hne : op ≠ "(" := by
    rintro rfl
    simp at hop
  have hindex : ∃ i, c.assignIndex? = some i := by
    rw [← Option.isSome_iff_exists, CallSite.assignIndex?, List.findIdx?_isSome, List.any_eq_true]
    refine ⟨op, ?_, by simp [hop]⟩
    have hsplit : c.tokens = ("call" :: (dest.tokens ++ [op])) ++
        st.name :: "(" :: (argumentList st.args ++ ")" :: st.ending) := by
      rw [hc, tokens, target, hdest]
      simp
    rw [hsplit, List.takeWhile_append_of_pos]
    · simp
    · simp only [List.mem_cons, List.mem_append, List.not_mem_nil, or_false, bne_iff_ne]
      rintro t (rfl | ht | rfl)
      · decide
      · rintro rfl
        exact hparen ht
      · exact hne
  obtain ⟨i, hi⟩ := hindex
  have hsecond : ∃ t, c.tokens[1]? = some t := by
    refine ⟨_, List.getElem?_eq_getElem ?_⟩
    rw [hc, tokens]
    simp only [List.length_append, List.length_cons]
    omega
  obtain ⟨t, ht⟩ := hsecond
  simp [CallSite.pointerName?, hi, ht]

lemma returnsPointer_eq (hst : st.IsValid) (hc : c.tokens = st.tokens) :
    c.returnsPointer = st.field?.isNone := by
  rw [CallSite.returnsPointer, CallSite.takesField, hc]
  rcases hfield : st.field? with _ | field
  · have hend : st.tokens.reverse = ";" :: ")" ::
        ("call" :: (st.target ++ st.name :: "(" :: argumentList st.args)).reverse := by
      simp [tokens, ending, hfield]
    rw [hend]
    rfl
  · have hend : st.tokens.reverse = (";" :: field.tokens.reverse) ++ "." ::
        ("call" :: (st.target ++ st.name :: "(" :: (argumentList st.args ++ [")"]))).reverse := by
      simp [tokens, ending, hfield]
    have hclose := hst.field field hfield
    have hfind : st.tokens.reverse.find? (fun t => t == ")" || t == ".") = some "." := by
      rw [hend, List.find?_append]
      rcases h : (";" :: field.tokens.reverse).find? (fun t => t == ")" || t == ".") with _ | t
      · simp
      · have hp := List.find?_some h
        have hmem := List.mem_of_find?_eq_some h
        simp only [Bool.or_eq_true, beq_iff_eq] at hp
        rcases hp with rfl | rfl
        · simp [hclose] at hmem
        · rfl
    rw [hfind]
    rfl

/-- The call is lowered in the parts that are written. Names are looked up among `globals`. -/
structure Reads (st : CallStatement) (globals : SymbolTable) {scope : Scope} {b b' : Workbench}
    (p : Lowering scope c b b') : Prop where
  frame : scope.frame? st.name = some p.frame
  args : List.Forall₂ (fun (a : Argument) (x : Nat × Ref) =>
    a.slot = x.1 ∧ x.2.resolve? (scope.home? globals) = some a.ref) p.args (suppliedFrom 2 st.args)
  none : st.dest? = none → p.dest? = none
  some : ∀ dest op, st.dest? = some (dest, op) → ∃ ref a code b₁ ts,
    dest.resolve? (scope.home? globals) = some ref ∧ ref.Proper scope ∧
      Yields (ref.lower scope .destination) { b with tokens := ts } (a, code) b₁ ∧
      p.dest? = some (a, code, op) ∧ p.named = { b₁ with tokens := Tokens.rest b₁.tokens }
  returns : c.returnsPointer = st.field?.isNone

section

variable {scope : Scope} {b b' : Workbench} {globals : SymbolTable} {p : Lowering scope c b b'}

lemma Reads.exists_arg (h : st.Reads globals p) {j : Nat} {r : Ref}
    (hr : st.args[j]? = Option.some (Option.some r)) : ∃ a ∈ p.args, a.slot = 2 + j ∧
      r.resolve? (scope.home? globals) = Option.some a.ref :=
  exists_of_forall₂ h.args (mem_suppliedFrom.mpr ⟨j, rfl, hr⟩)

/-- The arguments that are lowered are those that are written. -/
lemma Reads.mem_args_iff (h : st.Reads globals p) {j : Nat} {ref : Reference} :
    (∃ a ∈ p.args, a.slot = 2 + j ∧ a.ref = ref) ↔
      ∃ r, st.args[j]? = Option.some (Option.some r) ∧
        r.resolve? (scope.home? globals) = Option.some ref := by
  constructor
  · rintro ⟨a, ha, hslot, rfl⟩
    obtain ⟨⟨n, r⟩, hx, hn, hresolve⟩ := exists_of_forall₂ h.args.flip ha
    obtain ⟨i, hi, hr⟩ := mem_suppliedFrom.mp hx
    dsimp only at hn hresolve
    obtain rfl : i = j := by omega
    exact ⟨r, hr, hresolve⟩
  · rintro ⟨r, hr, hresolve⟩
    obtain ⟨a, ha, hslot, href⟩ := h.exists_arg hr
    exact ⟨a, ha, hslot, Option.some.inj (href.symm.trans hresolve)⟩

lemma Reads.slots (h : st.Reads globals p) :
    (∀ a ∈ p.args, 2 ≤ a.slot) ∧ p.args.Pairwise fun a a' => a.slot < a'.slot := by
  have hslots : p.args.map Argument.slot = (suppliedFrom 2 st.args).map Prod.fst := by
    have hargs := h.args
    generalize p.args = args, suppliedFrom 2 st.args = xs at hargs
    induction hargs with
    | nil => rfl
    | cons hax _ ih => rw [List.map_cons, List.map_cons, hax.1, ih]
  constructor
  · intro a ha
    have hmem := List.mem_map_of_mem (f := Argument.slot) ha
    rw [hslots, List.mem_map] at hmem
    obtain ⟨⟨n, r⟩, hx, hn⟩ := hmem
    obtain ⟨j, hj, -⟩ := mem_suppliedFrom.mp hx
    dsimp only at hn
    omega
  · rw [← List.pairwise_map (f := Argument.slot) (R := (· < ·)), hslots, List.pairwise_map]
    exact pairwise_suppliedFrom 2 st.args

end

theorem reads_lowering {scope : Scope} {b b' : Workbench} {globals : SymbolTable} (hst : st.IsValid)
    (hc : c.tokens = st.tokens) (p : Lowering scope c b b') (hb : b.Sane) (ht : b.tokens = c.tokens)
    (hnames : SameNames b.globals globals) : st.Reads globals p := by
  have hrest : Tokens.rest b.tokens =
      st.target ++ st.name :: "(" :: (argumentList st.args ++ ")" :: st.ending) := by
    rw [ht, hc]
    rfl
  have hb₀ : Workbench.Sane { b with tokens := Tokens.rest b.tokens } := hb.congr rfl rfl
  -- the destination
  have hdest : p.named.tokens = st.name :: "(" :: (argumentList st.args ++ ")" :: st.ending) ∧
      (st.dest? = Option.none → p.dest? = Option.none) ∧
      ∀ dest op, st.dest? = Option.some (dest, op) → ∃ ref a code b₁ ts,
        dest.resolve? (scope.home? globals) = Option.some ref ∧ ref.Proper scope ∧
          Yields (ref.lower scope .destination) { b with tokens := ts } (a, code) b₁ ∧
          p.dest? = Option.some (a, code, op) ∧
          p.named = { b₁ with tokens := Tokens.rest b₁.tokens } := by
    rcases destination_cases p.yields_destination with ⟨hpointer, hnone, hnamed⟩ |
      ⟨a, code, b₁, hpointer, hyields, hsome, hnamed⟩
    · have hdest : st.dest? = Option.none := by
        by_contra hne
        obtain ⟨⟨dest, op⟩, hdest⟩ := Option.ne_none_iff_exists'.mp hne
        have := pointerName?_of_some hst hc hdest
        simp [hpointer] at this
      refine ⟨?_, fun _ => hnone, fun dest op h => ?_⟩
      · simp only [hnamed, hrest, target, hdest, List.nil_append]
      · simp [hdest] at h
    · rcases hdest : st.dest? with _ | ⟨dest, op⟩
      · simp [pointerName?_of_none hst hc hdest] at hpointer
      · obtain ⟨hvalid, -, hop⟩ := hst.dest dest op hdest
        have hpeek : op ≠ "." ∧ op ≠ "[" := by
          constructor <;> rintro rfl <;> simp at hop
        have hwritten : Tokens.rest b.tokens = dest.tokens ++
            op :: st.name :: "(" :: (argumentList st.args ++ ")" :: st.ending) := by
          simp [hrest, target, hdest]
        obtain ⟨ref, hresolve, hproper, hlower, htokens⟩ :=
          lower_of_reference hvalid (by simpa [Tokens.peek] using hpeek) hwritten hb₀ hyields
        refine ⟨by simp [hnamed, htokens, Tokens.rest], by simp, fun dest' op' h => ?_⟩
        obtain ⟨rfl, rfl⟩ : dest = dest' ∧ op = op' := by simpa using h
        refine ⟨ref, a, code, b₁, _, ?_, hproper, hlower, ?_, hnamed⟩
        · exact resolve?_congr hresolve hproper fun name hname => hnames.home? scope hname
        · rw [hsome, htokens]
          rfl
  obtain ⟨hnamed, hnone, hsome⟩ := hdest
  -- the arguments
  have hopened : p.opened.tokens = argumentList st.args ++ ")" :: st.ending := by
    have htokens := tokens_named p hb
    rw [hnamed, List.cons.injEq, List.cons.injEq] at htokens
    exact htokens.2.2.symm
  have hnames' : SameNames p.opened.globals globals := fun name hname => by
    rw [hnames name hname, SameNames.of_pads (p.grows_toOpened hb).globals name hname]
  refine ⟨?_, (reads_arguments p.arguments (p.grows_opened hb).1 hst.args hopened hnames').2, hnone,
    hsome, returnsPointer_eq hst hc⟩
  have hframe := p.frame?_eq
  rwa [hnamed] at hframe

end CallStatement
end Grammar
end CogolToolchain
