import CogolToolchain.Proofs.Compile.Expansion

/-!
In whose frame the fields of a variable are looked up.

A call `call p = f();` says that `p` points to a frame of `f` from then on. What it goes by is the
first token of the destination, so a call `call p.next = g();` says that `p` points to a frame of
`g`. A statement looks the fields of `p` up in the frame that the latest such call before it says,
but a call is lowered when all statements are done, and looks them up in the frame that the last
such call of the whole source says (`Session.fields_follow_calls`).
-/

namespace CogolToolchain

open Work Attempt

/-! ### Types of variables -/

namespace SymbolTable

variable {t t' : SymbolTable} {name name' : String}

lemma type?_declareWord : (t.declareWord name).type? name' =
    if name' = name then some .scalar else t.type? name' := by
  simp only [type?, declareWord, List.lookup_cons]
  by_cases h : name' = name
  · simp [h]
  · simp [h, beq_false_of_ne h]

lemma type?_declareArray (size initialized : Nat) :
    (t.declareArray name size initialized).type? name' = if name' =
    name then some .array else t.type? name' := by
  simp only [type?, declareArray, List.lookup_cons]
  by_cases h : name' = name
  · simp [h]
  · simp [h, beq_false_of_ne h]

lemma type?_setType (type : VarType) : (t.setType name type).type? name' =
    if name' = name ∧ (t.type? name).isSome then some type else t.type? name' := by
  unfold setType
  by_cases htyped : (t.type? name).isSome
  · rw [if_pos htyped]
    simp only [type?, List.lookup_cons] at htyped ⊢
    by_cases h : name' = name
    · simp [h, htyped]
    · simp [h, beq_false_of_ne h]
  · simp [htyped]

def Typed (t : SymbolTable) : Prop :=
  ∀ name, isReserved name = false → (t.type? name).isSome → t.contains name = true

lemma Typed.pads (h : t.Typed) (hp : t.Pads t') : t'.Typed := fun name hname htype =>
  hp.cells.contains (h name hname (hp.types hname ▸ htype))

lemma Typed.declareWord (h : t.Typed) : (t.declareWord name).Typed := by
  intro name' hname htype
  rw [type?_declareWord] at htype
  split at htype
  · rename_i heq
    rw [heq, contains, address?_declareWord]
    rfl
  · exact (extends_declareWord t name).contains (h name' hname htype)

lemma Typed.declareArray (h : t.Typed) (size initialized : Nat) :
    (t.declareArray name size initialized).Typed := by
  intro name' hname htype
  rw [type?_declareArray] at htype
  split at htype
  · rename_i heq
    rw [heq, contains, address?_declareArray]
    rfl
  · exact (extends_declareArray t name size initialized).contains (h name' hname htype)

lemma Typed.type?_eq_none (h : t.Typed) (hfree : isReserved name = false)
    (hnew : t.contains name = false) : t.type? name = none := by
  by_contra htype
  have hcontains := h name hfree (Option.isSome_iff_ne_none.mpr htype)
  simp [hnew] at hcontains

lemma Typed.setType (h : t.Typed) (type : VarType) : (t.setType name type).Typed := by
  intro name' hname htype
  rw [type?_setType] at htype
  have hcontains : t.contains name' = true := by
    split at htype
    · rename_i heq
      exact h name' hname (heq.1 ▸ heq.2)
    · exact h name' hname htype
  rw [contains_iff, cells_setType]
  exact contains_iff.mp hcontains

end SymbolTable

/-- The subroutine in whose frame the fields of a variable of this type are looked up. -/
def VarType.pointee (type : VarType) (name : String) : String :=
  match type with
  | .pointer sub => sub
  | .scalar | .array => name

lemma Frame.Declared.pointee {name : String} {block : Block} {params : List (String × Declarator)}
    {frame : Frame} (h : frame.Declared name block params) (p : String) :
    ((frame.table.type? p).getD .scalar).pointee p = p := by
  induction h with
  | new =>
    simp only [Frame.new, Frame.declareWord, SymbolTable.type?_declareWord]
    split
    · rfl
    · split <;> rfl
  | declare declarator _ _ _ ih =>
    cases declarator with
    | word | wordWithDefault =>
      simp only [Frame.declare, Frame.declareWord, Frame.declareDefault,
        SymbolTable.type?_declareWord]
      split
      · rfl
      · exact ih
    | array =>
      simp only [Frame.declare, Frame.declareArray, SymbolTable.type?_declareArray]
      split
      · rfl
      · exact ih

/-! ### Fields in references -/

def Reference.fields : Reference → List (Head × String)
  | numeral .. | plain _ => []
  | field head x => [(head, x)]
  | element _ index => index.fields

/-- The code adds the offset that the field `x` has in the frames of `owner`. -/
def Code.AddsField (code : Code) (owner x : String) : Prop :=
  ∃ i ∈ code, i.opcode = .add ∧ i.rhs = .slot owner x

namespace Reference

variable {scope : Scope} {role : Role} {b b' : Workbench} {a : Backed} {code : Code}

lemma addsField_lowerField {head : Head} {x : String}
    (h : (lowerField scope head x).on b = ((a, code), b')) :
    code.AddsField ((scope.type b.globals head.home head.name).pointee head.name) x := by
  obtain ⟨b₁, -, -, -, hon⟩ := on_lowerField scope head x b
  have hon := h.symm.trans (hon ((scope.type b.globals head.home head.name).pointee head.name)
    (by cases scope.type b.globals head.home head.name <;> rfl))
  obtain ⟨shift, name, home⟩ := head
  cases home with
  | global =>
    simp only [Prod.mk.injEq] at hon
    obtain ⟨⟨-, rfl⟩, -⟩ := hon
    exact ⟨_, List.mem_singleton.mpr rfl, rfl, rfl⟩
  | frame owner =>
    simp only [Prod.mk.injEq] at hon
    obtain ⟨⟨-, rfl⟩, -⟩ := hon
    exact ⟨_, List.mem_cons_of_mem _ (List.mem_singleton.mpr rfl), rfl, rfl⟩

lemma addsField_lower {r : Reference} (h : Yields (r.lower scope role) b (a, code) b') :
    ∀ head x, (head, x) ∈ r.fields →
      code.AddsField ((scope.type b.globals head.home head.name).pointee head.name) x := by
  induction r generalizing role b b' a code with
  | numeral | plain => simp [fields]
  | field head x =>
    simp only [lower, yields_bind, yields_lift, yields_pure, Prod.exists, Prod.mk.injEq] at h
    obtain ⟨a₀, code₀, b₁, hfield, -, -, -, ⟨-, rfl⟩, -⟩ := h
    intro head' x' hmem
    obtain ⟨rfl, rfl⟩ := Prod.mk.inj (List.mem_singleton.mp hmem)
    exact addsField_lowerField hfield
  | element head index ih =>
    simp only [lower, yields_bind, yields_lift, yields_pure, Prod.exists, Prod.mk.injEq] at h
    obtain ⟨i, before, b₁, hindex, -, code₀, -, -, -, -, -, -, -, -, -, -, -, ⟨-, rfl⟩, -⟩ := h
    intro head' x hmem
    obtain ⟨j, hj, hadds⟩ := ih hindex head' x hmem
    exact ⟨j, List.mem_append_left _ hj, hadds⟩

lemma Proper.name_of_mem_fields {r : Reference} (h : r.Proper scope) :
    ∀ head x, (head, x) ∈ r.fields → isReserved head.name = false := by
  induction r with
  | numeral | plain => simp [fields]
  | field head x =>
    intro head' x' hmem
    obtain ⟨rfl, rfl⟩ := Prod.mk.inj (List.mem_singleton.mp hmem)
    exact h.1
  | element head index ih => exact ih h.2

end Reference

/-- From the workbench `b₀` on, a reference in this scope adds the offset of each of its fields in
the frames of the subroutine that `callee` gives for the variable. -/
def Scope.LooksUp (scope : Scope) (b₀ : Workbench) (callee : Home → String → String) : Prop :=
  ∀ b role r a code b', b₀.Grows b → (Reference.read (scope.home? b.globals) 0 b.tokens).1 = .ok r →
    Yields (reference scope role) b (a, code) b' →
    ∀ head x, (head, x) ∈ r.fields → code.AddsField (callee head.home head.name) x

lemma Scope.looksUp {scope : Scope} {b₀ : Workbench} {callee : Home → String → String}
    (h : ∀ home p, isReserved p = false →
      (scope.type b₀.globals home p).pointee p = callee home p) : scope.LooksUp b₀ callee := by
  intro b role r a code b' hg hread hyields head x hmem
  simp only [reference, yields_bind, yields_get, yields_set] at hyields
  obtain ⟨_, b, ⟨rfl, rfl⟩, _, _, rfl, hlower⟩ := hyields
  rw [hread] at hlower
  have hname := (Reference.proper_of_read hread).name_of_mem_fields head x hmem
  have hadds := Reference.addsField_lower hlower head x hmem
  rw [← h head.home head.name hname]
  have htype : scope.type b.globals head.home head.name =
      scope.type b₀.globals head.home head.name := by
    cases hhome : head.home with
    | global => simp only [Scope.type, Scope.table, hg.globals.types hname]
    | frame owner => rfl
  rw [← htype]
  exact hadds

namespace Session

open Statement Build

/-- The subroutine in whose frame the fields of the variable `p` are looked up. -/
def pointee (s : Session) (home : Home) (p : String) : String :=
  (s.scope.type s.bench.globals home p).pointee p

/-- The subroutine that `p` points to a frame of after the next statement, if that is a call that
returns a pointer and whose destination starts with `p`. -/
def retypes? (s : Session) (home : Home) (p : String) : Option String :=
  if Tokens.peek s.bench.tokens = "call" ∧ s.nextCall.returnsPointer = true ∧
      s.nextCall.pointerName? = some p ∧ s.scope.home? s.bench.globals p = some home ∧
      ((s.scope.table s.bench.globals home).type? p).isSome then
    s.nextCall.subroutineName?
  else none

variable {s s' : Session} {home : Home} {p : String}

lemma pointee_congr (hg : s.bench.globals.Pads s'.bench.globals)
    (hframes : ∀ owner, s'.scope.frame? owner = s.scope.frame? owner) (hp : isReserved p = false) :
    s'.pointee home p = s.pointee home p := by
  cases home with
  | global =>
    simp only [pointee, Scope.type, Scope.table]
    rw [hg.types hp]
  | frame owner =>
    simp only [pointee, Scope.type, Scope.table]
    rw [hframes]

lemma pointee_declare (d : Introduces s) (htyped : s.bench.globals.Typed)
    (hp : isReserved p = false) : d.session.pointee home p = s.pointee home p := by
  cases home with
  | frame owner => rfl
  | global =>
    have hnone := d.grows.globals.types d.free ▸ htyped.type?_eq_none d.free d.new
    have htable : (((d.declarator.enter d.name d.bench.globals).type? p).getD .scalar).pointee p =
        ((d.bench.globals.type? p).getD .scalar).pointee p := by
      cases d.declarator <;>
        simp only [Declarator.enter, SymbolTable.type?_declareWord,
          SymbolTable.type?_declareArray] <;>
        split <;> simp_all [VarType.pointee]
    simp only [pointee, Scope.type, Scope.table, htable]
    rw [d.grows.globals.types hp]

lemma pointee_subroutine (o : OpensSub s) (htyped : s.bench.globals.Typed) (hc : o.left.Clean)
    (hp : isReserved p = false) : o.session.pointee home p = s.pointee home p := by
  obtain ⟨hfree, hframe, hnew, hglobals⟩ := o.fresh_of_clean hc
  cases home with
  | global =>
    simp only [pointee, Scope.type, Scope.table]
    rw [o.grows_left.1.globals.types hp, o.grows.globals.types hp, hglobals,
      SymbolTable.type?_declareWord]
    split
    · rename_i heq
      rw [heq, htyped.type?_eq_none hfree hnew]
      rfl
    · rfl
  | frame owner =>
    simp only [pointee, Scope.type, Scope.table, Scope.frame?_within]
    split
    · rename_i heq
      rw [heq, hframe]
      exact o.declared.pointee p
    · rfl

lemma pointee_call (htyped : s.bench.globals.Typed) (hcall : Tokens.peek s.bench.tokens = "call")
    (hp : isReserved p = false) (b : Workbench) (hb : b.globals = s.bench.globals)
    (calls : List CallSite) :
    pointee { ((setPointerType s.nextCall).on { s with bench := b }).2 with calls } home p =
      (s.retypes? home p).getD (s.pointee home p) := by
  generalize hc : s.nextCall = c
  unfold setPointerType
  split
  · rename_i q sub hreturns hpointer hsub
    rw [Build.on_modify]
    -- the call gives `q` another type, if it has one
    have hretypes : s.retypes? home p = if q = p ∧ s.scope.home? s.bench.globals p = some home ∧
        ((s.scope.table s.bench.globals home).type? p).isSome then some sub else none := by
      simp [retypes?, hc, hcall, hreturns, hpointer, hsub]
    rw [hretypes]
    cases howner : s.scope.owner? q with
    | some owner =>
      have hhome : ∀ home', s.scope.home? s.bench.globals q = some home' ↔
          home' = .frame owner := by
        simp [Scope.home?, howner, eq_comm]
      cases home with
      | global =>
        have hne : ¬(q = p ∧ s.scope.home? s.bench.globals p = some .global ∧
            ((s.scope.table s.bench.globals .global).type? p).isSome) := by
          rintro ⟨rfl, hq, -⟩
          simp [hhome] at hq
        rw [if_neg hne]
        simp [pointee, Scope.type, Scope.table, hb]
      | frame o =>
        by_cases ho : o = owner
        · subst ho
          rcases hframe : s.scope.frame? o with _ | frame
          · simp [pointee, Scope.type, Scope.table, Scope.frame?_modifyFrame, hframe,
              SymbolTable.type?]
          · by_cases hq : q = p
            · subst hq
              by_cases htype : (frame.table.type? q).isSome
              · simp [pointee, Scope.type, Scope.table, Scope.frame?_modifyFrame, hframe, hhome,
                  SymbolTable.type?_setType, htype, VarType.pointee]
              · simp [pointee, Scope.type, Scope.table, Scope.frame?_modifyFrame, hframe,
                  SymbolTable.type?_setType, htype]
            · have hpq : p ≠ q := Ne.symm hq
              simp [pointee, Scope.type, Scope.table, Scope.frame?_modifyFrame, hframe,
                SymbolTable.type?_setType, hq, hpq]
        · have hne : ¬(q = p ∧ s.scope.home? s.bench.globals p = some (.frame o) ∧
              ((s.scope.table s.bench.globals (.frame o)).type? p).isSome) := by
            rintro ⟨rfl, hq, -⟩
            simp [hhome, ho] at hq
          rw [if_neg hne]
          simp [pointee, Scope.type, Scope.table, Scope.frame?_modifyFrame, ho]
    | none =>
      cases home with
      | global =>
        by_cases hq : q = p
        · subst hq
          by_cases htype : (s.bench.globals.type? q).isSome
          · have hhome : s.scope.home? s.bench.globals q = some .global := by
              simp [Scope.home?, howner, htyped q hp htype]
            simp [pointee, Scope.type, Scope.table, hb, hhome, SymbolTable.type?_setType, htype,
              VarType.pointee]
          · simp [pointee, Scope.type, Scope.table, hb, SymbolTable.type?_setType, htype]
        · have hpq : p ≠ q := Ne.symm hq
          simp [pointee, Scope.type, Scope.table, hb, SymbolTable.type?_setType, hq, hpq]
      | frame o =>
        have hhome : s.scope.home? s.bench.globals q ≠ some (.frame o) := by
          simp [Scope.home?, howner]
        rw [if_neg fun h => hhome (by simpa [h.1] using h.2.1)]
        rfl
  · rename_i hother
    have hretypes : s.retypes? home p = none := by
      unfold retypes?
      rw [hc]
      split
      · rename_i h
        rcases hsub : c.subroutineName? with _ | sub
        · rfl
        · exact absurd hsub (hother p sub h.2.1 h.2.2.1)
      · rfl
    rw [hretypes]
    refine pointee_congr (s := s) ?_ (fun _ => rfl) hp
    exact hb ▸ .refl _

/-- The second session knows of the same variables, apart from scratch cells. -/
def SameVariables (s s' : Session) : Prop :=
  s.bench.globals.Pads s'.bench.globals ∧ ∀ owner, s'.scope.frame? owner = s.scope.frame? owner

lemma pointee_effect (htyped : s.bench.globals.Typed) (hs : s.Fine) (he : Effect s s')
    (hc : s'.bench.Clean) (hne : Tokens.peek s.bench.tokens ≠ "call") :
    s'.bench.globals.Typed ∧
      ∀ home p, isReserved p = false → s'.pointee home p = s.pointee home p := by
  have hkept : ∀ {s'' : Session}, s.SameVariables s'' → s''.bench.globals.Typed ∧
      ∀ home p, isReserved p = false → s''.pointee home p = s.pointee home p :=
    fun hsame => ⟨htyped.pads hsame.1, fun _ _ hp => pointee_congr hsame.1 hsame.2 hp⟩
  cases he with
  | idle grows => exact hkept ⟨grows.globals, fun _ => rfl⟩
  | declare d =>
    refine ⟨?_, fun home p hp => pointee_declare d htyped hp⟩
    have hpads := htyped.pads d.grows.globals
    show (d.declarator.enter d.name d.bench.globals).Typed
    cases d.declarator with
    | word | wordWithDefault => exact hpads.declareWord
    | array => exact hpads.declareArray _ _
  | assign _ lower =>
    exact hkept ⟨((Assignment.careful_lower s.scope).grows hs.sane lower).2.globals, fun _ => rfl⟩
  | openFaulty grows => exact hkept ⟨grows.globals, fun _ => rfl⟩
  | openIf o => exact hkept ⟨(o.plain hs).1.globals, fun _ => rfl⟩
  | openWhile o => exact hkept ⟨(o.plain hs).1.globals, fun _ => rfl⟩
  | openDo o => exact hkept ⟨o.grows.globals, fun _ => rfl⟩
  | close c =>
    obtain ⟨hgrows, hsubs⟩ := c.after.grows (c.fine_braced hs).sane
    exact hkept ⟨hgrows.globals, fun owner => congrArg (List.lookup owner) hsubs⟩
  | subroutine o =>
    obtain ⟨-, -, -, hglobals⟩ := o.fresh_of_clean hc
    have hpads := (hglobals ▸ o.grows.globals).trans o.grows_left.1.globals
    exact ⟨htyped.declareWord.pads hpads, fun home p hp => pointee_subroutine o htyped hc hp⟩
  | leave grows => exact hkept ⟨grows.globals, fun _ => rfl⟩
  | call q => exact absurd q.next hne

lemma on_compile_call (hcall : Tokens.peek s.bench.tokens = "call") : ∃ b calls,
    b.globals = s.bench.globals ∧ (Statement.compile.on s).2 =
      { ((setPointerType s.nextCall).on { s with bench := b }).2 with calls } := by
  rw [on_compile, hcall]
  exact ⟨{ (rested s).bench with tokens := (Tokens.splitStatement s.bench.tokens).2 }, _, rfl, rfl⟩

lemma typed_setPointerType (c : CallSite) (htyped : s.bench.globals.Typed) :
    ((setPointerType c).on s).2.bench.globals.Typed := by
  unfold setPointerType
  split
  · rw [Build.on_modify]
    split
    · exact htyped
    · exact htyped.setType _
  · exact htyped

lemma pointee_compile (htyped : s.bench.globals.Typed) (hs : s.Fine)
    (hc : (Statement.compile.on s).2.bench.Clean) :
    (Statement.compile.on s).2.bench.globals.Typed ∧ ∀ home p, isReserved p = false →
      (Statement.compile.on s).2.pointee home p = (s.retypes? home p).getD (s.pointee home p) := by
  by_cases hcall : Tokens.peek s.bench.tokens = "call"
  · obtain ⟨b, calls, hb, hon⟩ := on_compile_call hcall
    rw [hon]
    refine ⟨typed_setPointerType _ ?_, fun home p hp => pointee_call htyped hcall hp b hb calls⟩
    rw [hb]
    exact htyped
  · obtain ⟨htyped', hsame⟩ :=
      pointee_effect (s := rested s) htyped (fine_rested hs) (effect_compile hs) hc hcall
    refine ⟨htyped', fun home p hp => ?_⟩
    rw [hsame home p hp, retypes?, if_neg fun h => hcall h.1]
    rfl

/-! ### The statements of a source -/

def after (settings : Settings) (source : String) (n : Nat) : Session :=
  ((Statement.compileAll n).on (started settings source)).2

/-- The subroutine that the latest call among the first `n` statements says that `p` points to a
frame of, or `p` itself. -/
def lastCallee (settings : Settings) (source : String) (home : Home) (p : String) : Nat → String
  | 0 => p
  | n + 1 => ((after settings source n).retypes? home p).getD (lastCallee settings source home p n)

section

variable {settings : Settings} {source : String} {n : Nat}

lemma fine_after : (after settings source n).Fine :=
  (keeps_compileAll n _ (fine_started settings source)).1

lemma on_compileAll_last (n : Nat) (s : Session) : ((Statement.compileAll (n + 1)).on s).2 =
    if ((Statement.compileAll n).on s).2.bench.tokens.isEmpty then ((Statement.compileAll n).on s).2
    else (Statement.compile.on ((Statement.compileAll n).on s).2).2 := by
  induction n generalizing s with
  | zero =>
    rw [on_compileAll_succ]
    show _ = if s.bench.tokens.isEmpty then s else _
    split <;> rfl
  | succ n ih =>
    by_cases hempty : s.bench.tokens.isEmpty
    · simp [on_compileAll_succ, hempty]
    · rw [on_compileAll_succ (n + 1), on_compileAll_succ n s, if_neg hempty, if_neg hempty]
      exact ih _

lemma after_succ : after settings source (n + 1) =
    if (after settings source n).bench.tokens.isEmpty then after settings source n
    else (Statement.compile.on (after settings source n)).2 :=
  on_compileAll_last n _

lemma grows_after_succ : (after settings source n).Grows (after settings source (n + 1)) := by
  rw [after_succ]
  split
  · exact .refl _
  · exact (keeps_compile _ fine_after).2

lemma clean_after (hc : (stated settings source).bench.Clean)
    (hn : n ≤ (Lexer.tokenize source).1.length) : (after settings source n).bench.Clean := by
  have hgrows : ∀ k, (after settings source n).Grows (after settings source (n + k)) := by
    intro k
    induction k with
    | zero => exact .refl _
    | succ k ih => exact ih.trans grows_after_succ
  have hlast := hgrows ((Lexer.tokenize source).1.length - n)
  rw [Nat.add_sub_cancel' hn] at hlast
  exact hlast.clean hc

lemma typed_started : (started settings source).bench.globals.Typed := by
  have hfold : ∀ (numbers : List Nat) (t : SymbolTable), t.Typed →
      (numbers.foldl (fun t n => t.declareWord (scratchName n)) t).Typed := by
    intro numbers
    induction numbers with
    | nil => exact fun t ht => ht
    | cons n numbers ih => exact fun t ht => ih _ ht.declareWord
  have hempty : ({} : SymbolTable).Typed := fun name _ htype => by simp [SymbolTable.type?] at htype
  exact hfold _ _ hempty.declareWord.declareWord

lemma pointee_started (home : Home) (p : String) :
    (started settings source).pointee home p = p := by
  have hfold : ∀ (numbers : List Nat) (t : SymbolTable),
      ((t.type? p).getD .scalar).pointee p = p →
      (((numbers.foldl (fun t n => t.declareWord (scratchName n)) t).type? p).getD
        .scalar).pointee p = p := by
    intro numbers
    induction numbers with
    | nil => exact fun t ht => ht
    | cons n numbers ih =>
      refine fun t ht => ih _ ?_
      rw [SymbolTable.type?_declareWord]
      split
      · rfl
      · exact ht
  cases home with
  | global =>
    refine hfold _ _ ?_
    rw [SymbolTable.type?_declareWord, SymbolTable.type?_declareWord]
    split
    · rfl
    · split <;> rfl
  | frame owner => rfl

lemma pointee_after (hc : (stated settings source).bench.Clean)
    (hn : n ≤ (Lexer.tokenize source).1.length) : (after settings source n).bench.globals.Typed ∧
      ∀ home p, isReserved p = false →
        (after settings source n).pointee home p = lastCallee settings source home p n := by
  induction n with
  | zero => exact ⟨typed_started, fun home p _ => pointee_started home p⟩
  | succ n ih =>
    obtain ⟨htyped, hpointee⟩ := ih (Nat.le_of_succ_le hn)
    have hclean := clean_after hc hn
    rw [after_succ] at hclean ⊢
    split
    · rename_i hempty
      refine ⟨htyped, fun home p hp => ?_⟩
      have hcall : Tokens.peek (after settings source n).bench.tokens ≠ "call" := by
        rw [List.isEmpty_iff.mp hempty]
        decide
      rw [hpointee home p hp, lastCallee, retypes?, if_neg fun h => hcall h.1]
      rfl
    · rename_i hempty
      rw [if_neg hempty] at hclean
      obtain ⟨htyped', hpointee'⟩ := pointee_compile htyped fine_after hclean
      refine ⟨htyped', fun home p hp => ?_⟩
      rw [hpointee' home p hp, lastCallee, hpointee home p hp]

end

/-- In a source without errors, the fields of a variable are looked up in the frame of the
subroutine that the latest call says whose destination starts with the variable, or in the frame of
the subroutine of its own name: in a statement the latest call before it, and in the arguments and
the destination of a call the latest call of the whole source. -/
theorem fields_follow_calls (settings : Settings) (source : String)
    (hc : ∀ d ∈ (compiled settings source).bench.diagnostics, d.isError = false) :
    (∀ n ≤ (Lexer.tokenize source).1.length, (after settings source n).scope.LooksUp
      (after settings source n).bench fun home p => lastCallee settings source home p n) ∧
    (∀ c ∈ (stated settings source).calls, (Call.scope c (stated settings source).scope).LooksUp
      (stated settings source).bench fun home p =>
        lastCallee settings source home p (Lexer.tokenize source).1.length) ∧
    ∀ owner x frame k, (compiled settings source).scope.frame? owner = some frame →
      frame.table.address? x = some k →
      (compiled settings source).resolver.operand (.slot owner x) = .constant k := by
  have hclean : (stated settings source).bench.Clean := by
    obtain ⟨-, -, -, hclean, -⟩ :=
      compiled_induction (P := fun _ => (stated settings source).bench.Clean) hc
        (fun hclean _ => hclean) (fun _ _ _ _ _ => id)
    exact hclean
  refine ⟨fun n hn => Scope.looksUp (pointee_after hclean hn).2,
    fun c _ => Scope.looksUp (pointee_after hclean (Nat.le_refl _)).2,
    fun owner x frame k hframe hx => ?_⟩
  have hnumber : (compiled settings source).resolver.number? { symbol := .slot owner x } =
    some (k : Int) := by
    simp [Resolver.number?, Resolver.base?, resolver, hframe, hx]
  simp [Resolver.operand, Operand.slot, Operand.constant, hnumber]

/-- The second call goes to a field of the frame that `p` points to, and not to `p`. -/
def linkedFrames : String :=
  "sub f(a, next) \x7b \x7d sub g(z, a, next) \x7b \x7d my p; my r; call p = f(5); " ++
    "call p.next = g(7); r = p.a;"

/-- Still, the last statement takes `p` for a pointer to a frame of `g`. -/
theorem fields_follow_calls_linkedFrames :
    (∀ d ∈ (compiled {} linkedFrames).bench.diagnostics, d.isError = false) ∧
    ∃ a code b', Yields (reference (after {} linkedFrames 8).scope .source)
      { (after {} linkedFrames 8).bench with tokens := ["p", ".", "a", ";"] } (a, code) b' ∧
      code.AddsField "g" "a" := by
  have hclean : ∀ d ∈ (compiled {} linkedFrames).bench.diagnostics, d.isError = false := by
    decide +kernel
  refine ⟨hclean, ?_⟩
  obtain ⟨hsome, hhome, hlast, hn⟩ : ((reference (after {} linkedFrames 8).scope .source).on
      { (after {} linkedFrames 8).bench with tokens := ["p", ".", "a", ";"] }).1.isSome ∧
      (after {} linkedFrames 8).scope.home? (after {} linkedFrames 8).bench.globals "p" =
      some .global ∧
      lastCallee {} linkedFrames .global "p" 8 = "g" ∧
      8 ≤ (Lexer.tokenize linkedFrames).1.length := by
    decide +kernel
  have hlook := (fields_follow_calls {} linkedFrames hclean).1 8 hn
  generalize after {} linkedFrames 8 = s at hsome hhome hlook ⊢
  have hread : (Reference.read (s.scope.home? s.bench.globals) 0 ["p", ".", "a", ";"]).1 =
      .ok (.field { shift := 0, name := "p", home := .global } "a") := by
    simp [Reference.read, hhome, Reference.readField, show isReserved "p" = false by decide,
      show Numeral.signed? "p" = none by decide]
  obtain ⟨⟨a, code⟩, hresult⟩ := Option.isSome_iff_exists.mp hsome
  refine ⟨a, code, _, Prod.ext hresult rfl, ?_⟩
  have hadds := hlook _ .source _ a code _ (s.bench.grows_tokens _) hread (Prod.ext hresult rfl)
    _ _ (List.mem_singleton.mpr rfl)
  dsimp only at hadds
  rwa [hlast] at hadds

end Session
end CogolToolchain
