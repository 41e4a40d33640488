import CogolToolchain.Proofs.Compile.Placement

/-!
Compilation ends.

After the last token the compiler reads empty tokens without end, and several of its loops stop only
at a certain token. A `Loop` is such a loop with nothing that bounds its rounds. Each loop of the
compiler consumes a token in every round but the last one (`Loop.Consumes`), so it ends, and the
loops that run, whose rounds are bounded by the number of tokens, give its result (`Loop.Ends`). The
main statement is `Session.compilation_ends`.
-/

namespace CogolToolchain

/-- A loop over tokens. A round goes on with another state or ends the loop with a result. -/
structure Loop (σ ρ : Type) where
  tokens : σ → List Token
  round : σ → σ ⊕ ρ

namespace Loop

variable {σ ρ : Type} (l : Loop σ ρ)

def Consumes : Prop := ∀ s s', l.round s = .inl s' → (l.tokens s').length < (l.tokens s).length

inductive Ends : σ → ρ → Prop where
  | stops {s : σ} {r : ρ} (h : l.round s = .inr r) : Ends s r
  | goesOn {s s' : σ} {r : ρ} (h : l.round s = .inl s') (hrest : Ends s' r) : Ends s r

/-- The loop with a bound on its rounds, which ends with `out` when they are used up. -/
def bounded (out : σ → ρ) : (rounds : Nat) → σ → ρ
  | 0, s => out s
  | rounds + 1, s =>
    match l.round s with
    | .inl s' => bounded out rounds s'
    | .inr r => r

variable {l}

lemma Consumes.ends (h : l.Consumes) (out : σ → ρ) {rounds : Nat} {s : σ}
    (hlast : ∀ s', (l.tokens s').length + rounds ≤ (l.tokens s).length →
      l.round s' = .inr (out s')) :
    l.Ends s (l.bounded out rounds s) := by
  induction rounds generalizing s with
  | zero => exact .stops (hlast s (Nat.le_refl _))
  | succ rounds ih =>
    rw [bounded]
    split
    · rename_i s' hround
      have hless := h s s' hround
      exact .goesOn hround (ih fun s'' hle => hlast s'' (by omega))
    · rename_i r hround
      exact .stops hround

lemma Consumes.ends_succ (h : l.Consumes) (out : σ → ρ) (s : σ) :
    l.Ends s (l.bounded out ((l.tokens s).length + 1) s) :=
  h.ends out fun s' hle => by omega

end Loop

/-! ### Statements and parameters -/

namespace Statement

def statements : Loop Session Session where
  tokens s := s.bench.tokens
  round s := if s.bench.tokens.isEmpty then .inr s else .inl (compile.on s).2

def parameters (sub : Token) : Loop Session Session where
  tokens s := s.bench.tokens
  round s :=
    if s.bench.tokens.isEmpty ∨ Tokens.peek s.bench.tokens = "\x7b" then .inr s
    else .inl ((param sub).on s).2

lemma length_compile_lt {s : Session} (h : s.bench.tokens ≠ []) :
    (compile.on s).2.bench.tokens.length < s.bench.tokens.length :=
  (tokens_compile s).length_le.trans_lt (Tokens.length_rest_lt h)

lemma consumes_statements : statements.Consumes := by
  intro s s' hround
  simp only [statements] at hround ⊢
  split at hround
  · cases hround
  · rename_i hempty
    rw [← Sum.inl.inj hround]
    exact length_compile_lt (by simpa using hempty)

lemma consumes_parameters (sub : Token) : (parameters sub).Consumes := by
  intro s s' hround
  simp only [parameters] at hround ⊢
  split at hround
  · cases hround
  · rename_i hempty
    rw [← Sum.inl.inj hround]
    have hne : s.bench.tokens ≠ [] := by
      intro hnil
      exact hempty (.inl (by rw [hnil]; rfl))
    exact ((progresses_param sub).tokens s).length_le.trans_lt (Tokens.length_rest_lt hne)

lemma compileAll_eq_bounded (rounds : Nat) (s : Session) :
    ((compileAll rounds).on s).2 = statements.bounded id rounds s := by
  induction rounds generalizing s with
  | zero => rfl
  | succ rounds ih =>
    rw [Session.on_compileAll_succ, Loop.bounded, statements]
    dsimp only
    split
    · rfl
    · exact ih _

lemma params_eq_bounded (sub : Token) (rounds : Nat) (s : Session) :
    ((params sub rounds).on s).2 = (parameters sub).bounded id rounds s := by
  induction rounds generalizing s with
  | zero => rfl
  | succ rounds ih =>
    rw [params, Build.on_bind, Build.on_get, Loop.bounded, parameters]
    dsimp only
    split
    · rfl
    · exact ih _

theorem ends_statements (s : Session) :
    statements.Ends s ((compileAll s.bench.tokens.length).on s).2 := by
  rw [compileAll_eq_bounded]
  refine consumes_statements.ends id fun s' hle => ?_
  have hnil : s'.bench.tokens = [] :=
    List.eq_nil_of_length_eq_zero (by simp only [statements] at hle; omega)
  simp [statements, hnil]

theorem ends_parameters (sub : Token) (s : Session) :
    (parameters sub).Ends s ((params sub s.bench.tokens.length).on s).2 := by
  rw [params_eq_bounded]
  refine (consumes_parameters sub).ends id fun s' hle => ?_
  have hnil : s'.bench.tokens = [] :=
    List.eq_nil_of_length_eq_zero (by simp only [parameters] at hle; omega)
  simp [parameters, hnil]

end Statement

/-! ### Initializers -/

namespace Declarator

variable (scope : Scope) (name : Token) (stops : List Token)

/-- The end of an initializer, when the token `next` follows an element. -/
def endElements (next : Token) : Work Unit := do
  if next = "\x7d" then
    if stops.contains (← Work.peek) then discard Work.pop
    else Work.reportThrough stops (.afterInitializer name)
  else Work.reportThrough stops (.initializer next name)

/-- The loop over the elements of an initializer. The state has the elements so far, the last one
first. -/
def elements : Loop (List Int × Workbench) (List Int × Workbench) where
  tokens s := s.2.tokens
  round s :=
    match (readElement scope name s.1.length).on s.2 with
    | (none, b) => .inr (s.1.reverse, b)
    | (some value, b) =>
      if Tokens.peek b.tokens = "," then .inl (value :: s.1,
        { b with tokens := Tokens.rest b.tokens })
      else .inr ((value :: s.1).reverse,
        ((endElements name stops (Tokens.peek b.tokens)).on
        { b with tokens := Tokens.rest b.tokens }).2)

lemma consumes_elements : (elements scope name stops).Consumes := by
  rintro ⟨values, b⟩ s' hround
  have hread := ((careful_readElement scope name values.length).absorbs b).tokens.length_le
  simp only [elements] at hround
  generalize hon : (readElement scope name values.length).on b = r at hround
  obtain ⟨_ | value, b₁⟩ := r
  · cases hround
  · dsimp only at hround
    split at hround
    · rename_i hcomma
      rw [← Sum.inl.inj hround]
      have hrest : (Tokens.rest b₁.tokens).length < b₁.tokens.length :=
        Tokens.length_rest_lt (Tokens.ne_nil_of_peek (by rw [hcomma]; decide))
      have hle : b₁.tokens.length ≤ b.tokens.length := by
        have heq : ((readElement scope name values.length).run.on b).2 = b₁ := congrArg Prod.snd hon
        rwa [heq] at hread
      exact Nat.lt_of_lt_of_le hrest hle
    · cases hround

lemma readElements_eq_bounded (rounds : Nat) (values : List Int) (b : Workbench) :
    (readElements scope name stops rounds values).on b =
      (elements scope name stops).bounded (fun s => (s.1.reverse, s.2)) rounds (values, b) := by
  induction rounds generalizing values b with
  | zero => rfl
  | succ rounds ih =>
    rw [readElements, Work.on_bind, Loop.bounded, elements]
    dsimp only
    have hrun : (readElement scope name values.length).run.on b =
        (readElement scope name values.length).on b := rfl
    rw [hrun]
    generalize (readElement scope name values.length).on b = r
    obtain ⟨_ | value, b₁⟩ := r
    · rfl
    · dsimp only
      rw [Work.on_bind, Work.on_pop]
      dsimp only
      split
      · exact ih _ _
      · unfold endElements
        dsimp only
        split
        · simp only [Work.on_bind, Work.on_peek]
          split <;> rfl
        · rfl

theorem ends_elements (b : Workbench) :
    (elements scope name stops).Ends ([], b)
      ((readElements scope name stops (b.tokens.length + 1) []).on b) := by
  rw [readElements_eq_bounded]
  exact (consumes_elements scope name stops).ends_succ _ ([], b)

end Declarator

/-! ### Arguments -/

namespace Call

/-- The arguments of a call, as far as they are lowered. -/
structure Lowered where
  slot : Nat := 2
  supplied : List Nat := []
  code : Code := []
  bench : Workbench

variable (scope : Scope) (frame : Frame) (pointer : Backed)

def argumentRound (s : Lowered) : Lowered ⊕ Option (List Nat × Code) × Workbench :=
  let next := Tokens.peek s.bench.tokens
  let popped := { s.bench with tokens := Tokens.rest s.bench.tokens }
  if next = ")" then .inr (some (s.supplied, s.code), popped)
  else if next = "," then .inl { s with slot := s.slot + 1, bench := popped }
  else if next = "" ∨ next = ";" then
    .inr ((Attempt.failStatement (.unterminatedArguments frame.name)).on s.bench)
  else
    match (parameter frame s.slot >>= argument scope frame pointer).on s.bench with
    | (none, b) => .inr (none, b)
    | (some code, b) =>
      .inl { s with supplied := s.supplied ++ [s.slot], code := s.code ++ code, bench := b }

def argumentList : Loop Lowered (Option (List Nat × Code) × Workbench) where
  tokens s := s.bench.tokens
  round := argumentRound scope frame pointer

lemma consumes_argumentList : (argumentList scope frame pointer).Consumes := by
  intro s s' hround
  simp only [argumentList, argumentRound] at hround ⊢
  split at hround
  · cases hround
  split at hround
  · rename_i hcomma
    rw [← Sum.inl.inj hround]
    exact Tokens.length_rest_lt (Tokens.ne_nil_of_peek (by rw [hcomma]; decide))
  split at hround
  · cases hround
  rename_i hend
  have hless := Tokens.length_rest_lt (Tokens.ne_nil_of_peek fun hnext => hend (.inl hnext))
  rw [Attempt.on_bind] at hround
  rcases hparam : (parameter frame s.slot).on s.bench with ⟨_ | param, b⟩
  · simp [hparam] at hround
  · rw [hparam] at hround
    obtain ⟨rfl, -⟩ := parameter_cases hparam
    have hargument := (tokens_argument scope frame pointer param s.bench).length_le
    dsimp only at hround
    split at hround
    · cases hround
    · rename_i code b' hon
      rw [← Sum.inl.inj hround]
      rw [hon] at hargument
      exact hargument.trans_lt hless

lemma on_arguments_succ (rounds slot : Nat) (b : Workbench) :
    (arguments scope frame pointer (rounds + 1) slot).on b =
      (let popped := { b with tokens := Tokens.rest b.tokens }
      if Tokens.peek b.tokens = ")" then (some ([], []), popped)
      else if Tokens.peek b.tokens = "," then
        (arguments scope frame pointer rounds (slot + 1)).on popped
      else if Tokens.peek b.tokens = "" ∨ Tokens.peek b.tokens = ";" then
        (Attempt.failStatement (.unterminatedArguments frame.name)).on b
      else
        (parameter frame slot >>= argument scope frame pointer >>= fun code =>
          arguments scope frame pointer rounds slot >>= fun r =>
            pure (slot :: r.1, code ++ r.2)).on b) := by
  rw [arguments, Attempt.on_bind, Attempt.on_lift, Work.on_peek]
  dsimp only
  split
  · rfl
  split
  · rfl
  split
  · rfl
  · rw [bind_assoc]

lemma arguments_eq_bounded (rounds : Nat) (s : Lowered) :
    (argumentList scope frame pointer).bounded (fun s => (none, s.bench)) rounds s =
      (((arguments scope frame pointer rounds s.slot).on s.bench).1.map fun r =>
          (s.supplied ++ r.1, s.code ++ r.2),
        ((arguments scope frame pointer rounds s.slot).on s.bench).2) := by
  induction rounds generalizing s with
  | zero => rfl
  | succ rounds ih =>
    have hround : (argumentList scope frame pointer).round s =
        argumentRound scope frame pointer s := rfl
    rw [Loop.bounded, on_arguments_succ, hround, argumentRound]
    dsimp only
    split_ifs with hclose hcomma hend
    · simp
    · exact ih _
    · rfl
    · rw [Attempt.on_bind _ (fun code => arguments scope frame pointer rounds s.slot >>= fun r =>
        pure (s.slot :: r.1, code ++ r.2))]
      generalize (parameter frame s.slot >>= argument scope frame pointer).on s.bench = r
      obtain ⟨_ | code, b⟩ := r
      · rfl
      · dsimp only
        rw [ih, Attempt.on_bind]
        dsimp only
        generalize (arguments scope frame pointer rounds s.slot).on b = r
        obtain ⟨_ | ⟨supplied, rest⟩, b'⟩ := r
        · rfl
        · simp

theorem ends_argumentList (slot : Nat) (b : Workbench) :
    (argumentList scope frame pointer).Ends { slot := slot, bench := b }
      ((arguments scope frame pointer (b.tokens.length + 1) slot).on b) := by
  have h := (consumes_argumentList scope frame pointer).ends_succ (fun s => (none, s.bench))
    { slot := slot, bench := b }
  rw [arguments_eq_bounded] at h
  simpa [argumentList] using h

end Call

/-! ### References and block suffixes -/

namespace Reference

def nesting : Reference → Nat
  | element _ index => index.nesting + 1
  | _ => 0

lemma length_read_lt (home? : Token → Option Home) (shift : Int) {ts : List Token} (h : ts ≠ []) :
    (read home? shift ts).2.length < ts.length :=
  (read_suffix home? shift ts).length_le.trans_lt (Tokens.length_rest_lt h)

lemma length_readField_lt {ts : List Token} (h : ts ≠ []) : (readField ts).2.length < ts.length :=
  (readField_suffix ts).length_le.trans_lt (Tokens.length_rest_lt h)

lemma nesting_read (home? : Token → Option Home) (shift : Int) (ts : List Token) {r : Reference}
    (h : (read home? shift ts).1 = .ok r) : 2 * r.nesting + (read home? shift ts).2.length ≤
    ts.length := by
  fun_induction read home? shift ts generalizing r with
  | case1 | case6 | case10 =>
    cases h
    simp [nesting]
  | case2 | case5 | case7 => cases h
  | case3 shift ts ih | case4 shift ts hne ih => exact (ih h).trans (Nat.le_succ _)
  | case8 =>
    rename_i inner index rest hread ih
    rw [hread] at ih
    cases index with
    | error p => cases h
    | ok i =>
      cases h
      have hinner := ih rfl
      simp only [nesting, List.length_cons] at hinner ⊢
      omega
  | case9 =>
    rename_i inner name rest hread
    cases h
    have hsuffix := ((readField_suffix inner).trans (Tokens.rest_suffix inner)).length_le
    rw [hread] at hsuffix
    simp only [nesting, List.length_cons] at hsuffix ⊢
    omega

end Reference

lemma Build.length_blockSuffix_lt {s : Session} (h : s.bench.tokens ≠ []) :
    (blockSuffix.on s).2.bench.tokens.length < s.bench.tokens.length := by
  rw [on_blockSuffix]
  have hle := (List.dropWhile_suffix (l := s.bench.tokens) (· != "\x7b")).length_le
  rcases hdrop : s.bench.tokens.dropWhile (· != "\x7b") with _ | ⟨brace, rest⟩
  · exact List.length_pos_iff.mpr h
  · rw [hdrop] at hle
    exact Nat.lt_of_succ_le hle

/-! ### Programs -/

namespace Session

lemma tokens_forM {α : Type} {f : α → Build Unit}
    (hf : ∀ a s, ((f a).on s).2.bench.tokens = s.bench.tokens) (as : List α) (s : Session) :
    ((as.forM f).on s).2.bench.tokens = s.bench.tokens := by
  induction as generalizing s with
  | nil => rfl
  | cons a as ih => exact (ih _).trans (hf a s)

lemma tokens_compileCalls (s : Session) : (compileCalls.on s).2.bench.tokens = s.bench.tokens :=
  tokens_forM (fun call s => by rw [on_insertCall]; rfl) s.calls { s with calls := [] }

lemma tokens_reportOpenBlocks (s : Session) : (reportOpenBlocks.on s).2.bench.tokens =
    s.bench.tokens :=
  tokens_forM (fun _ _ => rfl) s.blocks s

def closing : Build Unit := do
  reportOpenBlocks
  compileCalls
  declareCallStack

/-- The session with the tokens of a program, before its first statement. -/
def loaded (tokens : List Token) (s : Session) : Session :=
  { s with bench := { s.bench with tokens := tokens }, program := s.program ++ [preloadCallStack] }

lemma on_compileTokens (tokens : List Token) (s : Session) : (compileTokens tokens).on s =
    closing.on ((Statement.compileAll tokens.length).on (s.loaded tokens)).2 := rfl

lemma tokens_closing (s : Session) : (closing.on s).2.bench.tokens = s.bench.tokens :=
  (tokens_compileCalls _).trans (tokens_reportOpenBlocks s)

/-- On every list of tokens, whatever the session is, a statement takes a token, the loops over
statements, parameters, initial values and arguments end with what the bounded loops give, and so
does every recursion over references, fields and block suffixes; so a compilation reads all its
tokens. -/
theorem compilation_ends :
    (∀ s : Session, s.bench.tokens ≠ [] →
      (Statement.compile.on s).2.bench.tokens.length < s.bench.tokens.length) ∧
    (Statement.statements.Consumes ∧
      ∀ s, Statement.statements.Ends s ((Statement.compileAll s.bench.tokens.length).on s).2) ∧
    (∀ sub, (Statement.parameters sub).Consumes ∧
      ∀ s, (Statement.parameters sub).Ends s
        ((Statement.params sub s.bench.tokens.length).on s).2) ∧
    (∀ scope name stops, (Declarator.elements scope name stops).Consumes ∧
      ∀ b, (Declarator.elements scope name stops).Ends ([], b)
        ((Declarator.readElements scope name stops (b.tokens.length + 1) []).on b)) ∧
    (∀ scope frame pointer, (Call.argumentList scope frame pointer).Consumes ∧
      ∀ slot b, (Call.argumentList scope frame pointer).Ends { slot := slot, bench := b }
        ((Call.arguments scope frame pointer (b.tokens.length + 1) slot).on b)) ∧
    (∀ home? shift ts, ts ≠ [] → (Reference.read home? shift ts).2.length < ts.length) ∧
    (∀ home? shift ts r, (Reference.read home? shift ts).1 = .ok r →
      2 * r.nesting + (Reference.read home? shift ts).2.length ≤ ts.length) ∧
    (∀ ts, ts ≠ [] → (Reference.readField ts).2.length < ts.length) ∧
    (∀ s : Session, s.bench.tokens ≠ [] →
      (Build.blockSuffix.on s).2.bench.tokens.length < s.bench.tokens.length) ∧
    ∀ tokens s, ∃ s', Statement.statements.Ends (s.loaded tokens) s' ∧
      (compileTokens tokens).on s = closing.on s' ∧ ((compileTokens tokens).on s).2.bench.tokens =
      [] := by
  refine ⟨fun s => Statement.length_compile_lt,
    ⟨Statement.consumes_statements, Statement.ends_statements⟩,
    fun sub => ⟨Statement.consumes_parameters sub, Statement.ends_parameters sub⟩,
    fun scope name stops => ⟨Declarator.consumes_elements scope name stops,
      Declarator.ends_elements scope name stops⟩,
    fun scope frame pointer => ⟨Call.consumes_argumentList scope frame pointer,
      Call.ends_argumentList scope frame pointer⟩,
    fun home? shift ts => Reference.length_read_lt home? shift,
    fun home? shift ts r => Reference.nesting_read home? shift ts,
    fun ts => Reference.length_readField_lt,
    fun s => Build.length_blockSuffix_lt, fun tokens s => ?_⟩
  refine ⟨_, Statement.ends_statements (s.loaded tokens), on_compileTokens tokens s, ?_⟩
  rw [on_compileTokens, tokens_closing]
  exact Statement.tokens_compileAll _ _ (Nat.le_refl _)

/-- A parameter list that is not closed, with an empty token in it. -/
theorem compilation_ends_unclosed :
    ((new {}).loaded ["sub", "f", "(", "", "a"]).bench.tokens ≠ [] ∧
      (Statement.compile.on ((new {}).loaded ["sub", "f", "(", "", "a"])).2.bench.tokens.length <
      5 :=
  ⟨List.cons_ne_nil _ _, compilation_ends.1 _ (List.cons_ne_nil _ _)⟩

end Session

end CogolToolchain
