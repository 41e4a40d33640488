import CogolToolchain.Proofs.Compile.Expansion
import Mathlib.Data.List.TakeWhile

/-!
Statements end at their semicolons.

A statement that neither opens nor closes a block takes no token behind its first semicolon,
whatever is wrong with it, unless it breaks off: unless the semicolon stands where a name, the size
of an array, an operator or the comma after an element of an initializer is read. `Statement.scan`
tells from the tokens in front of the semicolon. A statement that breaks off takes the semicolon for
what is missing, and then tokens of the statement behind it.
-/

namespace CogolToolchain

open Work Attempt

/-! ### How far a statement is read -/

/-- What the tokens in front of a semicolon come to when a part of a statement is read from them. -/
inductive Scan where
  /-- They break off, and the semicolon is read as if it belonged to the part. -/
  | breaksOff
  /-- The part ends in a problem, and the semicolon ends the statement. -/
  | settled
  /-- The part is read, and `rest` is left in front of the semicolon. -/
  | upTo (rest : List Token)
  deriving DecidableEq

def Scan.andThen (scan : Scan) (next : List Token → Scan) : Scan :=
  match scan with
  | breaksOff => breaksOff
  | settled => settled
  | upTo rest => next rest

namespace Reference

def scanField : List Token → Scan
  | [] => .breaksOff
  | _ :: "." :: ts => scanField ts
  | _ :: "[" :: ts => (scanField ts).andThen fun rest =>
    .upTo (if Tokens.peek rest = "]" then Tokens.rest rest else rest)
  | _ :: ts => .upTo ts

def scan (home? : Token → Option Home) (role : Role) (shift : Int) : List Token → Scan
  | [] => .breaksOff
  | t :: ts =>
    if t = "$" then scan home? role (shift + 1) ts
    else if t = "\\" then scan home? role (shift - 1) ts
    else if isReserved t then .settled
    else
      match Numeral.signed? t with
      | some _ => if role = .destination ∧ shift = 0 then .settled else .upTo ts
      | none =>
        match home? t with
        | none => .settled
        | some _ =>
          match ts with
          | "[" :: inner => (scan home? .source 0 inner).andThen fun rest =>
            if Tokens.peek rest = "]" then .upTo (Tokens.rest rest) else .settled
          | "." :: inner => scanField inner
          | _ => .upTo ts

end Reference

namespace Assignment

def scanConditional (home? : Token → Option Home) (ts : List Token) : Scan :=
  (Reference.scan home? .source 0 ts).andThen fun
    | [] => .breaksOff
    | op :: ts =>
      match Comparison.ofToken? op with
      | some _ => (Reference.scan home? .source 0 ts).andThen fun _ => .settled
      | none => .settled

/-- Scans the rest of an assignment after its first operand and operator. -/
def scanOperation (home? : Token → Option Home) (op : Token) (ts : List Token) : Scan :=
  if op = ";" then .settled
  else if op = "if" then scanConditional home? ts
  else (Reference.scan home? .source 0 ts).andThen fun _ => .settled

def scanFirst (home? : Token → Option Home) (ts : List Token) : Scan :=
  if Tokens.peek ts = "-" then .upTo ts else Reference.scan home? .source 0 ts

def scanAfterFirst (home? : Token → Option Home) : List Token → Scan
  | [] => .settled
  | op :: ts => scanOperation home? op ts

def scanAfterOperator (home? : Token → Option Home) (eq : Token) (ts : List Token) : Scan :=
  if eq = "=" then (scanFirst home? ts).andThen (scanAfterFirst home?)
  else if eq = "++" ∨ eq = "--" then .settled
  else
    match compound? eq with
    | some op => scanOperation home? op ts
    | none => .settled

def scan (home? : Token → Option Home) (ts : List Token) : Scan :=
  (Reference.scan home? .destination 0 ts).andThen fun
    | [] => .breaksOff
    | eq :: ts => scanAfterOperator home? eq ts

end Assignment

namespace Declarator

/-- Scans the elements of an initializer. A round takes a comma, so the number of tokens bounds the
rounds. -/
def scanElements (home? : Token → Option Home) : (rounds : Nat) → List Token → Scan
  | 0, _ => .settled
  | rounds + 1, ts =>
    (Reference.scan home? .source 0 ts).andThen fun
      | [] => .breaksOff
      | next :: ts => if next = "," then scanElements home? rounds ts else .settled

def scanArray (home? : Token → Option Home) : List Token → Scan
  | "]" :: "=" :: "\x7b" :: ts => scanElements home? (ts.length + 1) ts
  | _ => .settled

def scan (home? : Token → Option Home) : List Token → Scan
  | "=" :: ts => (Reference.scan home? .source 0 ts).andThen fun _ => .settled
  | ["["] => .breaksOff
  | "[" :: _ :: ts => scanArray home? ts
  | _ => .settled

end Declarator

namespace Statement

def scanDeclaration (home? : Token → Option Home) (globals : SymbolTable) : List Token → Scan
  | [] => .breaksOff
  | name :: ts =>
    if isReserved name ∨ globals.contains name then .settled else Declarator.scan home? ts

def own (s : Session) : List Token := s.bench.tokens.takeWhile (· != ";")

/-- Scans the next statement of a session, which does not open or close a block, up to its
semicolon. -/
def scan (s : Session) : Scan :=
  let home? := s.scope.home? s.bench.globals
  match own s with
  | [] | "call" :: _ | "return" :: _ => .settled
  | "my" :: ts => scanDeclaration home? s.bench.globals ts
  | ts => Assignment.scan home? ts

end Statement

/-! ### References -/

/-- Reading a part of a statement from tokens in front of `";" :: post` comes to what the scan
foresees. The part has a result or not, and the tokens `left` are left. What it does to the tokens
behind the semicolon is only foreseen in plain cases. -/
structure Scan.Foresees (scan : Scan) (post : List Token) (plain : Prop) (result : Bool)
    (left : List Token) : Prop where
  contained : scan ≠ .breaksOff → result = false → post <:+ left
  left_eq : ∀ rest, scan = .upTo rest → result = true → left = rest ++ ";" :: post
  fails : scan = .settled → result = false
  succeeds : plain → ∀ rest, scan = .upTo rest → result = true
  swallows : plain → scan = .breaksOff → left <:+ post ∧
    (result = false → left <:+ Tokens.rest post)

namespace Tokens

lemma suffix_splitThrough (pre post : List Token) :
    post <:+ (splitThrough [";"] (pre ++ ";" :: post)).2 := by
  induction pre with
  | nil => simp [splitThrough]
  | cons t ts ih =>
    simp only [List.cons_append, splitThrough]
    split
    · exact (List.suffix_cons _ _).trans (List.suffix_append _ _)
    · exact ih

lemma suffix_rest (pre post : List Token) : post <:+ rest (pre ++ ";" :: post) := by
  cases pre with
  | nil => exact List.suffix_refl _
  | cons t ts => exact (List.suffix_cons _ _).trans (List.suffix_append _ _)

lemma rest_mono {ts ts' : List Token} (h : ts <:+ ts') : rest ts <:+ rest ts' := by
  cases ts' with
  | nil => rw [List.suffix_nil.mp h]
  | cons t us =>
    rcases List.suffix_cons_iff.mp h with rfl | h
    · exact List.suffix_refl _
    · exact (rest_suffix ts).trans h

end Tokens

lemma Work.on_eat_of_peek {t : Token} {b : Workbench} (h : Tokens.peek b.tokens = t) :
    (eat t).on b = (true, { b with tokens := Tokens.rest b.tokens }) := by
  simp [on_eat, Tokens.eat?, h]

namespace Scan

variable {post : List Token} {plain : Prop}

lemma Foresees.mono {scan : Scan} {plain' : Prop} {result : Bool} {left : List Token}
    (h : scan.Foresees post plain result left) (hp : plain' → plain) :
    scan.Foresees post plain' result left :=
  ⟨h.contained, h.left_eq, h.fails, fun p => h.succeeds (hp p), fun p => h.swallows (hp p)⟩

lemma settled_foresees {left : List Token} (h : post <:+ left) :
    settled.Foresees post plain false left where
  contained _ _ := h
  left_eq _ hscan := by simp at hscan
  fails _ := rfl
  succeeds _ _ hscan := by simp at hscan
  swallows _ hscan := by simp at hscan

lemma breaksOff_foresees {left : List Token} {result : Bool}
    (h : plain → left <:+ post ∧ (result = false → left <:+ Tokens.rest post)) :
    breaksOff.Foresees post plain result left where
  contained hscan := absurd rfl hscan
  left_eq _ hscan := by simp at hscan
  fails hscan := by simp at hscan
  succeeds _ _ hscan := by simp at hscan
  swallows hplain _ := h hplain

lemma Foresees.of_result {scan : Scan} {result : Bool} {left : List Token}
    (h : scan.Foresees post True true left) (hresult : plain → result = true) :
    scan.Foresees post plain result left where
  contained hscan _ := by
    cases scan with
    | breaksOff => exact absurd rfl hscan
    | settled => exact absurd (h.fails rfl) (by simp)
    | upTo rest =>
      rw [h.left_eq rest rfl rfl]
      exact (List.suffix_cons _ _).trans (List.suffix_append _ _)
  left_eq rest hscan _ := h.left_eq rest hscan rfl
  fails hscan := absurd (h.fails hscan) (by simp)
  succeeds hplain _ _ := hresult hplain
  swallows hplain hscan := ⟨(h.swallows trivial hscan).1,
    fun hfalse => by simp [hresult hplain] at hfalse⟩

lemma Foresees.andThen {scan : Scan} {left : List Token} (h : scan.Foresees post plain false left)
    (next : List Token → Scan) : (scan.andThen next).Foresees post plain false left where
  contained hscan _ := h.contained (by rintro rfl; exact hscan rfl) rfl
  left_eq _ _ h := absurd h Bool.false_ne_true
  fails _ := rfl
  succeeds hplain rest hrest := by
    cases scan with
    | breaksOff => simp [Scan.andThen] at hrest
    | settled => simp [Scan.andThen] at hrest
    | upTo rest' => exact h.succeeds hplain rest' rfl
  swallows hplain hscan := by
    cases scan with
    | breaksOff => exact h.swallows hplain rfl
    | settled => simp [Scan.andThen] at hscan
    | upTo rest' => exact absurd (h.succeeds hplain rest' rfl) (by simp)

lemma upTo_foresees {rest left : List Token} {result : Bool} (h : left = rest ++ ";" :: post)
    (hresult : plain → result = true) : (upTo rest).Foresees post plain result left where
  contained _ _ := h ▸ (List.suffix_cons _ _).trans (List.suffix_append _ _)
  left_eq _ hscan _ := by
    obtain rfl := Scan.upTo.inj hscan
    exact h
  fails hscan := by simp at hscan
  succeeds hplain _ _ := hresult hplain
  swallows _ hscan := by simp at hscan

end Scan

def Attempt.Follows {α : Type} (x : Attempt α) (b : Workbench) (scan : Scan) (post : List Token)
    (plain : Prop) : Prop := scan.Foresees post plain (x.on b).1.isSome (x.on b).2.tokens

section

variable {α β : Type} {x : Attempt α} {f : α → Attempt β} {b : Workbench} {scan : Scan}
  {post : List Token}
  {plain : Prop}

lemma Attempt.Follows.bind {next : List Token → Scan} (h : x.Follows b scan post plain)
    (hmore : ∀ a b', ((f a).on b').2.tokens <:+ Tokens.rest b'.tokens)
    (hnext : ∀ a b' rest, b'.tokens = rest ++ ";" :: post →
      (f a).Follows b' (next rest) post plain) :
    (x >>= f).Follows b (scan.andThen next) post plain := by
  unfold Follows at h ⊢
  rw [on_bind]
  generalize x.on b = r at h
  obtain ⟨_ | a, b'⟩ := r
  · exact h.andThen next
  · cases scan with
    | breaksOff =>
      refine Scan.breaksOff_foresees fun hplain => ?_
      have hrest := (hmore a b').trans (Tokens.rest_mono (h.swallows hplain rfl).1)
      exact ⟨hrest.trans (Tokens.rest_suffix post), fun _ => hrest⟩
    | settled => exact absurd (h.fails rfl) (by simp)
    | upTo rest => exact hnext a b' rest (h.left_eq rest rfl rfl)

end

namespace Reference

lemma foresees_scanField (pre post : List Token) :
    (scanField pre).Foresees post True true (readField (pre ++ ";" :: post)).2 := by
  fun_induction scanField pre with
  | case1 =>
    refine Scan.breaksOff_foresees fun _ => ⟨?_, by simp⟩
    exact readField_suffix (";" :: post)
  | case2 t ts ih => exact ih
  | case3 t ts ih =>
    simp only [List.cons_append, readField]
    rcases hread : readField (ts ++ ";" :: post) with ⟨name, left⟩
    rw [hread] at ih
    dsimp only
    -- the bracket behind the inner name is taken if it is there
    cases hscan : scanField ts with
    | breaksOff =>
      have hleft := (ih.swallows trivial hscan).1
      refine Scan.breaksOff_foresees fun _ => ⟨?_, by simp⟩
      split
      · exact (List.suffix_cons _ _).trans hleft
      · exact hleft
    | settled => exact absurd (ih.fails hscan) (by simp)
    | upTo rest =>
      obtain rfl := ih.left_eq rest hscan rfl
      refine Scan.upTo_foresees ?_ fun _ => rfl
      cases rest with
      | nil => simp [Tokens.peek]
      | cons u us => 
        simp only [Tokens.peek, Tokens.rest, List.cons_append]
        split <;> simp_all
  | case4 t ts h h' =>
    have hread : readField (t :: ts ++ ";" :: post) = (t, ts ++ ";" :: post) := by
      cases ts with
      | nil => simp [readField]
      | cons u us =>
        have h1 : u ≠ "." := fun hu => h us (by rw [hu])
        have h2 : u ≠ "[" := fun hu => h' us (by rw [hu])
        simp [readField, h1, h2]
    rw [hread]
    exact Scan.upTo_foresees rfl fun _ => rfl

lemma tokens_applyShift (role : Role) (shift : Int) (a : Backed) (b : Workbench) :
    ((applyShift role shift a).on b).2.tokens = b.tokens := by
  cases role
  all_goals
    unfold applyShift
    dsimp only
    split
    · split <;> rfl
    · rfl

lemma isSome_applyShift {role : Role} {a : Backed} (h : role = .source ∨ a.mode ≠ .constant)
    (b : Workbench) : ((applyShift role 0 a).on b).1.isSome := by
  rcases hmode : a.mode <;> rcases role <;> simp_all [applyShift, Mode.level, Mode.ofLevel?]

variable {scope : Scope}

/-- The tokens are plain: there are no marks, and the semicolon is no variable. -/
def IsPlain (home? : Token → Option Home) (ts : List Token) : Prop :=
  home? ";" = none ∧ ∀ t ∈ ts, t ≠ "$" ∧ t ≠ "\\"

instance (home? : Token → Option Home) (ts : List Token) : Decidable (IsPlain home? ts) :=
  inferInstanceAs (Decidable (_ ∧ _))

lemma on_shifted (w : Work (Backed × Code)) (role : Role) (shift : Int) (b : Workbench)
    {x : Attempt (Backed × Code)} (hx : x = do
      let (a, code) ← w
      return (← applyShift role shift a, code)) :
    (x.on b).2.tokens = (w.on b).2.tokens ∧
      (shift = 0 → role = .source ∨ (w.on b).1.1.mode ≠ .constant → (x.on b).1.isSome = true) := by
  subst hx
  rw [Attempt.on_bind, on_lift]
  dsimp only
  rw [Attempt.on_bind]
  have htokens := tokens_applyShift role shift (w.on b).1.1 (w.on b).2
  refine ⟨?_, ?_⟩
  · rw [← htokens]
    rcases (applyShift role shift (w.on b).1.1).on (w.on b).2 with ⟨_ | a, b'⟩ <;> rfl
  · rintro rfl hrole
    obtain ⟨a, ha⟩ := Option.isSome_iff_exists.mp (isSome_applyShift hrole (w.on b).2)
    rw [yields_of_on ha]
    rfl

lemma mode_lowerPlain (scope : Scope) (head : Head) (b : Workbench) :
    ((lowerPlain scope head).on b).1.1.mode ≠ .constant ∧
      ((lowerPlain scope head).on b).2.tokens = b.tokens := by
  obtain ⟨b₁, -, -, htokens, hon⟩ := on_lowerPlain scope head b
  rw [hon]
  split
  · exact ⟨fun h => Mode.noConfusion h, htokens⟩
  · exact ⟨fun h => Mode.noConfusion h, (tokens_allocScratch b₁).trans htokens⟩

lemma mode_lowerField (scope : Scope) (head : Head) (name : String) (b : Workbench) :
    ((lowerField scope head name).on b).1.1.mode ≠ .constant ∧
      ((lowerField scope head name).on b).2.tokens = b.tokens := by
  obtain ⟨b₁, -, -, htokens, hon⟩ := on_lowerField scope head name b
  rw [hon _ rfl]
  exact ⟨fun h => Mode.noConfusion h, (tokens_allocScratch b₁).trans htokens⟩

lemma mode_lowerElement (scope : Scope) (head : Head) (index : Backed) (b : Workbench) :
    ((lowerElement scope head index).on b).1.1.mode ≠ .constant := by
  simp only [lowerElement, headType, headOffset, frameAddress, Work.on_bind,
    Work.on_get, Work.on_pure]
  split <;> exact fun h => Mode.noConfusion h

lemma on_closeIndex_of_eq {name : Token} {b : Workbench} (h : Tokens.peek b.tokens = "]") :
    (closeIndex name).on b = (some (), { b with tokens := Tokens.rest b.tokens }) := by
  simp [closeIndex, Attempt.on_bind, on_eat_of_peek h]

lemma on_closeIndex_of_ne {name : Token} {b : Workbench} (h : Tokens.peek b.tokens ≠ "]") :
    (closeIndex name).on b =
      (failStatement (.unclosedIndex name (Tokens.peek b.tokens)) : Attempt Unit).on b := by
  simp [closeIndex, Attempt.on_bind, on_eat_of_ne h]

/-- What is done with an element when its index has been lowered to `i`. -/
def lowerIndexed (scope : Scope) (role : Role) (head : Head) (i : Backed) (before : Code) :
    Attempt (Backed × Code) := do
  let (a, code) ← lowerElement scope head i
  Work.releaseCells (i.cells.filter fun address => !a.cells.contains address)
  closeIndex head.name
  return (← applyShift role head.shift a, before ++ code)

lemma tokens_lowerElement (scope : Scope) (head : Head) (index : Backed) (b : Workbench) :
    ((lowerElement scope head index).on b).2.tokens = b.tokens := by
  have hreuse : ((reuseScratch index).on b).2.tokens = b.tokens := by
    unfold reuseScratch
    split
    · rfl
    · exact tokens_allocScratch b
  simp only [lowerElement, headType, headOffset, frameAddress, Work.on_bind, Work.on_get,
    Work.on_pure]
  split <;> simp [hreuse]

lemma on_lowerIndexed (scope : Scope) (role : Role) (head : Head) (i : Backed) (before : Code)
    (b : Workbench) :
    if Tokens.peek b.tokens = "]" then
      ((lowerIndexed scope role head i before).on b).2.tokens = Tokens.rest b.tokens ∧
        (head.shift = 0 → ((lowerIndexed scope role head i before).on b).1.isSome = true)
    else ((lowerIndexed scope role head i before).on b).1 = none ∧
      ((lowerIndexed scope role head i before).on b).2.tokens =
      (Tokens.splitThrough [";"] b.tokens).2 := by
  have htokens := tokens_lowerElement scope head i b
  have hmode := mode_lowerElement scope head i b
  rw [lowerIndexed, Attempt.on_bind, on_lift]
  dsimp only
  rw [Attempt.on_bind, on_lift, on_releaseCells]
  dsimp only
  rw [Attempt.on_bind]
  generalize (lowerElement scope head i).on b = r at htokens hmode
  obtain ⟨⟨a, code⟩, b₁⟩ := r
  dsimp only at htokens hmode ⊢
  generalize hb₂ : ({ b₁ with
    scratch := (i.cells.filter fun address => !a.cells.contains address).foldl
      ScratchPool.release b₁.scratch } : Workbench) = b₂
  have htokens₂ : b₂.tokens = b.tokens := by rw [← hb₂, ← htokens]
  rw [← htokens₂]
  split
  · rename_i hpeek
    rw [on_closeIndex_of_eq hpeek]
    have hon := on_shifted (pure (a, before ++ code)) role head.shift
      { b₂ with tokens := Tokens.rest b₂.tokens } rfl
    exact ⟨hon.1, fun hshift => hon.2 hshift (.inr hmode)⟩
  · rename_i hpeek
    rw [on_closeIndex_of_ne hpeek]
    exact ⟨rfl, rfl⟩

lemma lower_element (scope : Scope) (role : Role) (head : Head) (index : Reference) :
    (element head index).lower scope role =
      index.lower scope .source >>= fun x => lowerIndexed scope role head x.1 x.2 := rfl

lemma read_plain {home? : Token → Option Home} {shift : Int} {t : Token} {ts post : List Token}
    {home : Home} (h1 : ¬ t = "$") (h2 : ¬ t = "\\") (hreserved : ¬ isReserved t = true)
    (hnumeral : Numeral.signed? t = none) (hhome : home? t = some home)
    (hindex : ∀ us, ts = "[" :: us → False) (hfield : ∀ us, ts = "." :: us → False) :
    read home? shift (t :: ts ++ ";" :: post) =
    (.ok (.plain ⟨shift, t, home⟩), ts ++ ";" :: post) := by
  simp only [List.cons_append, read, h1, h2, hreserved, hnumeral, hhome, ↓reduceIte]
  cases ts with
  | nil => rfl
  | cons u us =>
    rw [List.cons_append, if_neg Bool.false_ne_true]
    split
    · rename_i hu
      exact absurd (by rw [(List.cons.inj hu).1]) (hindex us)
    · rename_i hu
      exact absurd (by rw [(List.cons.inj hu).1]) (hfield us)
    · rfl

lemma follows_lowered {home? : Token → Option Home} {role : Role} {shift : Int}
    {pre post left : List Token} {result : Except Problem Reference}
    (h : read home? shift (pre ++ ";" :: post) = (result, left)) (b : Workbench) :
    Follows (lowered scope role result) { b with tokens := left }
      (scan home? role shift pre) post (shift = 0 ∧ IsPlain home? pre) := by
  fun_induction scan home? role shift pre generalizing result left b with
  | case1 role shift =>
    refine Scan.breaksOff_foresees ?_
    rintro ⟨rfl, hnone, -⟩
    have hread : read home? 0 (";" :: post) = (.error (.undeclaredVariable ";"), post) := by
      simp [read, hnone, show isReserved ";" =
        false by decide, show Numeral.signed? ";" = none by decide]
    obtain ⟨rfl, rfl⟩ := Prod.mk.inj (hread.symm.trans h)
    exact ⟨Tokens.splitThrough_suffix _ _, fun _ => Tokens.splitStatement_suffix post⟩
  | case2 role shift ts ih | case3 role shift ts _ ih =>
    simp only [List.cons_append, read, String.reduceEq, ↓reduceIte] at h
    exact (ih h b).mono fun hplain => absurd (hplain.2.2 _ List.mem_cons_self) (by simp)
  | case4 role shift t ts h1 h2 hreserved =>
    simp only [List.cons_append, read, h1, h2, hreserved, ↓reduceIte, Prod.mk.injEq] at h
    obtain ⟨rfl, rfl⟩ := h
    exact Scan.settled_foresees (Tokens.suffix_splitThrough ts post)
  | case5 role shift t ts h1 h2 hreserved n hn hrole =>
    simp only [List.cons_append, read, h1, h2, hreserved, hn, ↓reduceIte] at h
    obtain ⟨rfl, rfl⟩ := h
    rw [lowered, lower, if_pos hrole]
    exact Scan.settled_foresees (Tokens.suffix_splitThrough ts post)
  | case6 role shift t ts h1 h2 hreserved n hn hrole =>
    simp only [List.cons_append, read, h1, h2, hreserved, hn, ↓reduceIte] at h
    obtain ⟨rfl, rfl⟩ := h
    rw [lowered, lower, if_neg hrole]
    have hon := on_shifted (pure (.constant n, [])) role
      shift { b with tokens := ts ++ ";" :: post } rfl
    refine Scan.upTo_foresees hon.1 fun hplain => hon.2 hplain.1 (.inl ?_)
    cases role with
    | source => rfl
    | destination => exact absurd ⟨rfl, hplain.1⟩ hrole
  | case7 role shift t ts h1 h2 hreserved hnumeral hnone =>
    simp only [List.cons_append, read, h1, h2, hreserved, hnumeral, hnone, ↓reduceIte] at h
    obtain ⟨rfl, rfl⟩ := h
    exact Scan.settled_foresees (Tokens.suffix_splitThrough ts post)
  | case8 role shift t h1 h2 hreserved hnumeral home hhome inner ih =>
    have hplain : shift = 0 ∧ IsPlain home? (t :: "[" :: inner) → (0 : Int) = 0 ∧
        IsPlain home? inner :=
      fun hplain => ⟨rfl, hplain.2.1, fun u hu => hplain.2.2 u (by simp [hu])⟩
    simp only [List.cons_append, read, h1, h2, hreserved, hnumeral, hhome, ↓reduceIte] at h
    obtain ⟨rfl, rfl⟩ := h
    rcases hread : read home? 0 (inner ++ ";" :: post) with ⟨p | r, left⟩
    · have hfails : Follows (lowered scope .source (.error p)) { b with tokens := left }
          (scan home? .source 0 inner) post _ := (ih hread b).mono hplain
      exact Scan.Foresees.andThen hfails _
    · rw [Except.map, lowered, lower_element]
      refine Follows.bind ((ih hread b).mono hplain) (fun x b' => ?_) fun x b' rest htokens => ?_
      · have hon := on_lowerIndexed scope role ⟨shift, t, home⟩ x.1 x.2 b'
        split at hon
        · rw [hon.1]
        · rw [hon.2]
          exact Tokens.splitStatement_suffix _
      · have hon := on_lowerIndexed scope role ⟨shift, t, home⟩ x.1 x.2 b'
        rw [htokens] at hon
        cases rest with
        | nil =>
          rw [if_neg (by simp [Tokens.peek])] at hon ⊢
          rw [Follows, hon.1, hon.2]
          exact Scan.settled_foresees (Tokens.suffix_splitThrough [] post)
        | cons u us =>
          by_cases hu : u = "]"
          · rw [if_pos (by simp [Tokens.peek, hu])] at hon ⊢
            exact Scan.upTo_foresees hon.1 fun hplain => hon.2 hplain.1
          · rw [if_neg (by simp [Tokens.peek, hu])] at hon ⊢
            rw [Follows, hon.1, hon.2]
            exact Scan.settled_foresees (Tokens.suffix_splitThrough (u :: us) post)
  | case9 role shift t h1 h2 hreserved hnumeral home hhome inner =>
    simp only [List.cons_append, read, h1, h2, hreserved, hnumeral, hhome, ↓reduceIte] at h
    obtain ⟨rfl, rfl⟩ := h
    rw [lowered, lower]
    have hmode := mode_lowerField scope ⟨shift, t, home⟩ (readField (inner ++ ";" :: post)).1
      { b with tokens := (readField (inner ++ ";" :: post)).2 }
    have hon := on_shifted (lowerField scope ⟨shift, t, home⟩ (readField (inner ++ ";" :: post)).1)
      role shift { b with tokens := (readField (inner ++ ";" :: post)).2 } rfl
    rw [Follows, hon.1, hmode.2]
    exact (foresees_scanField inner post).of_result fun hplain => hon.2 hplain.1 (.inr hmode.1)
  | case10 role shift t =>
    rename Home => home
    rw [read_plain ‹_› ‹_› ‹_› ‹_› ‹_› ‹_› ‹_›] at h
    obtain ⟨rfl, rfl⟩ := h
    rename List Token => rest
    rw [lowered, lower]
    have hmode := mode_lowerPlain scope ⟨shift, t, home⟩ { b with tokens := rest ++ ";" :: post }
    have hon := on_shifted (lowerPlain scope ⟨shift, t, home⟩) role shift
      { b with tokens := rest ++ ";" :: post } rfl
    exact Scan.upTo_foresees (hon.1.trans hmode.2) fun hplain => hon.2 hplain.1 (.inr hmode.1)

lemma read_congr {home? home?' : Token → Option Home}
    (h : ∀ name, isReserved name = false → home?' name = home? name) (shift : Int)
    (ts : List Token) : read home?' shift ts = read home? shift ts := by
  fun_induction read home? shift ts with
  | case1 shift home hhome | case2 shift hhome => simp [read, h "" (by decide), hhome]
  | case3 shift ts ih | case4 shift ts _ ih => simp [read, ih]
  | case5 shift t ts h1 h2 hreserved => simp [read, h1, h2, hreserved]
  | case6 shift t ts h1 h2 hreserved n hn => simp [read, h1, h2, hreserved, hn]
  | case7 shift t ts h1 h2 hreserved hnumeral hnone =>
    simp [read, h1, h2, hreserved, hnumeral, h t (by simpa using hreserved), hnone]
  | case8 shift t h1 h2 hreserved hnumeral home hhome head inner index rest hread ih =>
    simp [read, h1, h2, hreserved, hnumeral, h t (by simpa using hreserved), hhome, ih, hread, head]
  | case9 shift t h1 h2 hreserved hnumeral home hhome head inner name rest hread =>
    simp [read, h1, h2, hreserved, hnumeral, h t (by simpa using hreserved), hhome, hread, head]
  | case10 shift t =>
    rename ¬ isReserved t = true => hreserved
    simp only [read, h t (by simpa using hreserved), ↓reduceIte, *]
    rw [if_neg Bool.false_ne_true]

end Reference

lemma SymbolTable.Pads.home? {t t' : SymbolTable} (h : t.Pads t') (scope : Scope) (name : Token)
    (hname : isReserved name = false) : scope.home? t' name = scope.home? t name := by
  simp only [Scope.home?, SymbolTable.contains, h.address? hname]
  rfl

lemma follows_reference {scope : Scope} {role : Role} {globals : SymbolTable} {b : Workbench}
    {pre post : List Token} (hpads : globals.Pads b.globals)
    (htokens : b.tokens = pre ++ ";" :: post) :
    Follows (reference scope role) b (Reference.scan (scope.home? globals) role 0 pre) post
      (Reference.IsPlain (scope.home? globals) pre) := by
  have hread := Reference.read_congr (hpads.home? scope) 0 (pre ++ ";" :: post)
  rw [Follows, Reference.on_reference, htokens, hread]
  exact Scan.Foresees.mono (Reference.follows_lowered rfl b) fun hplain => ⟨rfl, hplain⟩

/-! ### Whole statements -/

/-- The statement leaves what the scan of its tokens allows: it does not go behind its semicolon
unless it breaks off, and then, in plain cases, it takes at least one token from behind it. -/
structure Scan.Bounds (scan : Scan) (post : List Token) (plain : Prop)
    (left : List Token) : Prop where
  contained : scan ≠ .breaksOff → post <:+ left
  overrun : plain → scan = .breaksOff → left <:+ Tokens.rest post

namespace Scan

variable {post left : List Token} {plain plain' : Prop} {scan : Scan}

lemma bounds_settled (h : post <:+ left) : settled.Bounds post plain left := 
  ⟨fun _ => h, fun _ hscan => by simp at hscan⟩

lemma bounds_breaksOff (h : left <:+ Tokens.rest post) : breaksOff.Bounds post plain left :=
  ⟨fun hne => absurd rfl hne, fun _ _ => h⟩

lemma Bounds.mono (h : scan.Bounds post plain left) (hp : plain' → plain) :
    scan.Bounds post plain' left :=
  ⟨h.contained, fun p => h.overrun (hp p)⟩

end Scan

namespace Attempt

variable {α β : Type}

lemma on_lift_bind (w : Work α) (f : α → Attempt β) (b : Workbench) :
    ((liftM w : Attempt α) >>= f).on b = (f (w.on b).1).on (w.on b).2 := by
  rw [Attempt.on_bind, on_lift]

lemma takes_pop {n : Bool} {f : Token → Attempt β} (hf : ∀ t, Careful n (f t)) (b : Workbench) :
    (((liftM Work.pop : Attempt Token) >>= f).on b).2.tokens <:+ Tokens.rest b.tokens := by
  rw [on_lift_bind, on_pop]
  exact ((hf _).absorbs _).tokens

lemma on_expect (t : Token) (b : Workbench) : (expect t).on b =
    if Tokens.peek b.tokens = t then (some (), { b with tokens := Tokens.rest b.tokens })
    else (failStatement (.expected t (Tokens.peek b.tokens)) : Attempt Unit).on b := by
  split
  · rename_i h
    simp [expect, Attempt.on_bind, on_eat_of_peek h]
  · rename_i h
    simp [expect, Attempt.on_bind, on_eat_of_ne h]

section

variable {f : Unit → Attempt β} (hf : ∀ b, ((f ()).on b).2.tokens = b.tokens)

include hf

lemma tokens_expect (b : Workbench) : ((expect ";" >>= f).on b).2.tokens =
    if Tokens.peek b.tokens = ";" then Tokens.rest b.tokens
    else (Tokens.splitThrough [";"] b.tokens).2 := by
  rw [Attempt.on_bind, on_expect]
  by_cases h : Tokens.peek b.tokens = ";"
  · rw [if_pos h, if_pos h]
    exact hf _
  · rw [if_neg h, if_neg h]
    rfl

lemma takes_expect (b : Workbench) : ((expect ";" >>= f).on b).2.tokens <:+
    Tokens.rest b.tokens := by
  rw [tokens_expect hf]
  split
  · exact List.suffix_refl _
  · exact Tokens.splitStatement_suffix _

lemma spares_expect {b : Workbench} {pre post : List Token}
    (htokens : b.tokens = pre ++ ";" :: post) : post <:+ ((expect ";" >>= f).on b).2.tokens := by
  rw [tokens_expect hf, htokens]
  split
  · exact Tokens.suffix_rest pre post
  · exact Tokens.suffix_splitThrough pre post

end
end Attempt

section

variable {β : Type} (scope : Scope) {role : Role} {globals : SymbolTable} {b : Workbench}
  {pre post : List Token}

open Reference (IsPlain)

lemma isPlain_of_suffix {home? : Token → Option Home} {ts ts' : List Token} (h : IsPlain home? ts')
    (hs : ts <:+ ts') : IsPlain home? ts := ⟨h.1, fun t ht => h.2 t (hs.subset ht)⟩

lemma bounds_reference {f : Backed × Code → Attempt β} {next : List Token → Scan}
    (hpads : globals.Pads b.globals) (htokens : b.tokens = pre ++ ";" :: post)
    (hmore : ∀ a b', ((f a).on b').2.tokens <:+ Tokens.rest b'.tokens)
    (hnext : ∀ a b' rest, globals.Pads b'.globals → rest <:+ pre → b'.tokens = rest ++ ";" :: post →
      (next rest).Bounds post (IsPlain (scope.home? globals) rest) ((f a).on b').2.tokens) :
    ((Reference.scan (scope.home? globals) role 0 pre).andThen next).Bounds post
      (IsPlain (scope.home? globals) pre) ((reference scope role >>= f).on b).2.tokens := by
  have hfollows : Follows (reference scope role) b _ post _ := follows_reference hpads htokens
  have habsorbs : b.Consumed ((reference scope role).on b).2 :=
    (careful_reference scope role).absorbs b
  rw [Follows] at hfollows
  rw [Attempt.on_bind]
  generalize (reference scope role).on b = r at hfollows habsorbs
  obtain ⟨_ | a, b'⟩ := r
  · have hthen := hfollows.andThen next
    exact ⟨fun hne => hthen.contained hne rfl, fun hplain hscan =>
      (hthen.swallows hplain hscan).2 rfl⟩
  · cases hscan : Reference.scan (scope.home? globals) role 0 pre with
    | breaksOff =>
      refine ⟨fun hne => absurd rfl hne, fun hplain _ => ?_⟩
      exact (hmore a b').trans (Tokens.rest_mono (hfollows.swallows hplain hscan).1)
    | settled => exact absurd (hfollows.fails hscan) (by simp)
    | upTo rest =>
      have hrest : b'.tokens = rest ++ ";" :: post := hfollows.left_eq rest hscan rfl
      have hsuffix : b'.tokens <:+ b.tokens := habsorbs.tokens
      rw [htokens, hrest, List.suffix_append_self_iff] at hsuffix
      exact (hnext a b' rest (hpads.trans habsorbs.globals) hsuffix hrest).mono fun hplain =>
        isPlain_of_suffix hplain hsuffix

namespace Assignment

lemma bounds_conditional (hpads : globals.Pads b.globals) (htokens : b.tokens = pre ++ ";" :: post)
    (source dest : Backed) :
    (scanConditional (scope.home? globals) pre).Bounds post (IsPlain (scope.home? globals) pre)
      ((conditional scope source dest).on b).2.tokens := by
  refine bounds_reference scope hpads htokens (fun a b' => ?_)
    fun a b' rest hpads' hrest htokens' => ?_
  · exact takes_pop (fun op => (Condition.careful_readOperator op).bind fun _ =>
      (careful_reference scope .source).bind fun _ => (careful_expect ";").bind fun _ =>
        (careful_lift (Condition.advances_lower _)).bind fun _ => careful_pure _) b'
  · rw [on_lift_bind, on_pop, htokens']
    cases rest with
    | nil => exact Scan.bounds_breaksOff (Tokens.splitStatement_suffix post)
    | cons op rest =>
      dsimp only [List.cons_append, Tokens.peek, Tokens.rest]
      rw [Condition.readOperator]
      cases hop : Comparison.ofToken? op with
      | none => exact Scan.bounds_settled (Tokens.suffix_splitThrough rest post)
      | some op =>
        dsimp only
        rw [pure_bind]
        refine Scan.Bounds.mono (bounds_reference scope hpads' rfl (fun a b' => ?_)
          fun a b' rest hpads' hrest htokens' => ?_) fun hplain =>
            isPlain_of_suffix hplain (List.suffix_cons _ _)
        · refine takes_expect (fun b => ?_) b'
          rw [on_lift_bind]
          exact Condition.tokens_lower _ b
        · refine Scan.bounds_settled (spares_expect (fun b => ?_) htokens')
          rw [on_lift_bind]
          exact Condition.tokens_lower _ b

lemma tokens_multiply (lhs rhs dest : Backed) (b : Workbench) :
    ((multiply lhs rhs dest).on b).2.tokens = b.tokens := by
  have hreuse : ∀ (a : Backed) (b : Workbench), ((reuseScratchExcept a dest).on b).2.tokens =
      b.tokens := by
    intro a b
    unfold reuseScratchExcept
    split
    · split
      · exact tokens_allocScratch b
      · rfl
    · exact tokens_allocScratch b
  simp only [multiply, Work.on_bind, Work.on_pure, hreuse, on_takeId]

lemma tokens_afterOperands (lhs rhs dest : Backed) (op : Token) (code : Code) (b : Workbench) :
    ((if op = "*" then do return code ++ (← multiply lhs rhs dest)
      else
        match Opcode.ofOperator? op with
        | some opcode => return code ++
            [{ opcode, lhs := lhs.toOperand, rhs := rhs.toOperand, dest := dest.toOperand }]
        | none =>
          Attempt.failHere (.binaryOperator op) : Attempt Code).on b).2.tokens = b.tokens := by
  split
  · exact tokens_multiply lhs rhs dest b
  · split <;> rfl

lemma bounds_binary (hpads : globals.Pads b.globals) (htokens : b.tokens = pre ++ ";" :: post)
    (lhs : Backed) (op : Token) (dest : Backed) :
    ((Reference.scan (scope.home? globals) .source 0 pre).andThen fun _ => .settled).Bounds post
      (IsPlain (scope.home? globals) pre) ((binary scope lhs op dest).on b).2.tokens := by
  have hcheck : ∀ (a : Operand) (b : Workbench), ((checkBounds .source a).on b).2.tokens =
      b.tokens := by
    intro a b
    obtain ⟨ds, -, hon⟩ := on_checkBounds .source a b
    rw [hon]
  refine bounds_reference scope hpads htokens (fun a b' => ?_)
    fun a b' rest hpads' hrest htokens' => ?_
  · rw [on_lift_bind, ← hcheck a.1.toOperand b']
    exact takes_expect (tokens_afterOperands lhs a.1 dest op a.2) _
  · rw [on_lift_bind]
    exact Scan.bounds_settled (spares_expect (tokens_afterOperands lhs a.1 dest op a.2)
      ((hcheck a.1.toOperand b').trans htokens'))

lemma bounds_operation (hpads : globals.Pads b.globals) (htokens : b.tokens = pre ++ ";" :: post)
    (lhs : Backed) (op : Token) (dest : Backed) :
    (scanOperation (scope.home? globals) op pre).Bounds post (IsPlain (scope.home? globals) pre)
      ((operation scope lhs op dest).on b).2.tokens := by
  obtain ⟨ds, -, hon⟩ := on_checkBounds .source lhs.toOperand b
  have htokens' : ({ b with diagnostics := ds } : Workbench).tokens = pre ++ ";" :: post := htokens
  rw [operation, on_lift_bind, hon, scanOperation]
  split
  · refine Scan.bounds_settled ?_
    rw [Attempt.on_pure, htokens']
    exact (List.suffix_cons _ _).trans (List.suffix_append _ _)
  · split
    · exact bounds_conditional scope (b := { b with diagnostics := ds }) hpads htokens' lhs dest
    · exact bounds_binary scope (b := { b with diagnostics := ds }) hpads htokens' lhs op dest

lemma tokens_bind_pure {α β : Type} (x : Attempt α) (f : α → β) (b : Workbench) :
    ((x >>= fun a => pure (f a)).on b).2.tokens = (x.on b).2.tokens := by
  rw [Attempt.on_bind]
  rcases x.on b with ⟨_ | a, b'⟩ <;> rfl

lemma bounds_afterFirst (hpads : globals.Pads b.globals) (htokens : b.tokens = pre ++ ";" :: post)
    (dest : Backed) (address before : Code) (lhs : Backed) :
    (scanAfterFirst (scope.home? globals) pre).Bounds post (IsPlain (scope.home? globals) pre)
      (((liftM Work.pop : Attempt Token) >>= fun op => do
        return address ++ before ++ (← operation scope lhs op dest)).on b).2.tokens := by
  rw [on_lift_bind, on_pop, htokens, tokens_bind_pure]
  cases pre with
  | nil =>
    -- the semicolon ends the assignment
    obtain ⟨ds, -, hon⟩ := on_checkBounds .source lhs.toOperand { b with tokens := post }
    refine Scan.bounds_settled ?_
    change post <:+ ((operation scope lhs ";" dest).on { b with tokens := post }).2.tokens
    rw [operation, on_lift_bind, hon, if_pos rfl]
    exact List.suffix_refl _
  | cons op ts =>
    have hop := bounds_operation scope (b := { b with tokens := ts ++ ";" :: post })
      hpads rfl lhs op dest
    exact hop.mono fun hplain => isPlain_of_suffix hplain (List.suffix_cons _ _)

lemma bounds_afterOperator (hpads : globals.Pads b.globals)
    (htokens : b.tokens = pre ++ ";" :: post) (dest : Backed) (address : Code) (eq : Token) :
    (scanAfterOperator (scope.home? globals) eq pre).Bounds post (IsPlain (scope.home? globals) pre)
      ((afterOperator scope dest address eq).on b).2.tokens := by
  unfold afterOperator scanAfterOperator
  split
  · have hmore : ∀ (a : Backed × Code) (b : Workbench),
      (((liftM Work.pop : Attempt Token) >>= fun op => do
        return address ++ a.2 ++ (← operation scope a.1 op dest)).on b).2.tokens <:+
          Tokens.rest b.tokens :=
      fun a b => takes_pop (fun op => (careful_operation scope a.1 dest op).bind fun _ =>
        careful_pure _) b
    have hpeek : Tokens.peek b.tokens = "-" ↔ Tokens.peek pre = "-" := by
      rw [htokens]
      cases pre <;> simp [Tokens.peek]
    rw [firstOperand, bind_assoc, on_lift_bind, on_peek, scanFirst]
    by_cases hminus : Tokens.peek pre = "-"
    · rw [if_pos hminus, if_pos (hpeek.mpr hminus), pure_bind]
      exact bounds_afterFirst scope hpads htokens dest address [] (.constant 0)
    · rw [if_neg hminus, if_neg (hminus ∘ hpeek.mp)]
      exact bounds_reference scope hpads htokens hmore fun a b' rest hpads' _ htokens' =>
        bounds_afterFirst scope hpads' htokens' dest address a.2 a.1
  · split
    · exact Scan.bounds_settled (spares_expect (fun _ => rfl) htokens)
    · cases compound? eq with
      | some op =>
        dsimp only
        rw [tokens_bind_pure]
        exact bounds_operation scope hpads htokens _ _ dest
      | none =>
        refine Scan.bounds_settled ?_
        have hsplit : post <:+ (Tokens.splitThrough [";"] b.tokens).2 :=
          htokens ▸ Tokens.suffix_splitThrough pre post
        exact hsplit

lemma bounds_lower (hpads : globals.Pads b.globals) (htokens : b.tokens = pre ++ ";" :: post) :
    (scan (scope.home? globals) pre).Bounds post (IsPlain (scope.home? globals) pre)
      ((lower scope).on b).2.tokens := by
  rw [lower_eq]
  refine bounds_reference scope hpads htokens (fun a b' => ?_)
    fun a b' rest hpads' hrest htokens' => ?_
  · obtain ⟨ds, -, hon⟩ := on_checkBounds .destination a.1.toOperand b'
    rw [on_lift_bind, hon]
    exact takes_pop (careful_afterOperator scope a.1 a.2) _
  · obtain ⟨ds, -, hon⟩ := on_checkBounds .destination a.1.toOperand b'
    rw [on_lift_bind, hon, on_lift_bind, on_pop]
    dsimp only
    rw [htokens']
    cases rest with
    | nil =>
      have hfails : afterOperator scope a.1 a.2 ";" = failStatement (.assignmentOperator ";") := by
        simp [afterOperator, compound?]
      have hpeek : Tokens.peek ([] ++ ";" :: post) = ";" := rfl
      refine Scan.bounds_breaksOff ?_
      rw [hpeek, hfails]
      exact Tokens.splitStatement_suffix post
    | cons eq rest =>
      have hafter := bounds_afterOperator scope
        (b := { b' with tokens := rest ++ ";" :: post, diagnostics := ds }) hpads' rfl a.1 a.2 eq
      exact hafter.mono fun hplain => isPlain_of_suffix hplain (List.suffix_cons _ _)

end Assignment

namespace Declarator

/-- What is done after an element of an initializer and the token `next` behind it. -/
def afterSeparator (scope : Scope) (name : Token) (rounds : Nat) (values : List Int)
    (next : Token) : Work (List Int) := do
  if next = "," then readElements scope name [";"] rounds values
  else do
    if next = "\x7d" then
      if [";"].contains (← Work.peek) then discard Work.pop
      else Work.reportThrough [";"] (.afterInitializer name)
    else Work.reportThrough [";"] (.initializer next name)
    return values.reverse

lemma advances_afterSeparator (scope : Scope) (name : Token) (rounds : Nat) (values : List Int)
    (next : Token) : Work.Advances false (afterSeparator scope name rounds values next) := by
  unfold afterSeparator
  split
  · exact advances_readElements scope name [";"] rounds values
  · split
    · refine advances_peek.bind fun _ => ?_
      split
      · exact advances_pop.bind fun _ => advances_pure _
      · exact (advances_reportThrough _ _).bind fun _ => advances_pure _
    · exact (advances_reportThrough _ _).bind fun _ => advances_pure _

lemma spares_afterSeparator (scope : Scope) (name : Token) (rounds : Nat) (values : List Int)
    {next : Token} (hnext : next ≠ ",") {b : Workbench} {pre post : List Token}
    (htokens : b.tokens = pre ++ ";" :: post) :
    post <:+ ((afterSeparator scope name rounds values next).on b).2.tokens := by
  have hsplit : post <:+ (Tokens.splitThrough [";"] b.tokens).2 :=
    htokens ▸ Tokens.suffix_splitThrough pre post
  rw [afterSeparator, if_neg hnext]
  split
  · rw [Work.on_bind, on_peek]
    dsimp only
    split
    · have hrest : post <:+ Tokens.rest b.tokens := htokens ▸ Tokens.suffix_rest pre post
      exact hrest
    · exact hsplit
  · exact hsplit

lemma readElements_succ (scope : Scope) (name : Token) (rounds : Nat) (values : List Int) :
    readElements scope name [";"] (rounds + 1) values =
      (readElement scope name values.length).run >>= fun
        | none => pure values.reverse
        | some value => Work.pop >>= afterSeparator scope name rounds (value :: values) := rfl

def elementValue (name : Token) (index : Nat) (a : Backed) : Attempt Int :=
  match a.constant? with
  | some value => return value
  | none => do
    Work.report (.initialElement index name)
    return 0

lemma on_elementValue (name : Token) (index : Nat) (a : Backed) (b : Workbench) :
    ∃ value ds, (elementValue name index a).on b = (some value, { b with diagnostics := ds }) := by
  unfold elementValue
  split
  · exact ⟨_, _, rfl⟩
  · exact ⟨0, _, rfl⟩

lemma tokens_readElements (scope : Scope) (name : Token) (rounds : Nat) (values : List Int)
    (b : Workbench) : ((readElements scope name [";"] (rounds + 1) values).on b).2.tokens =
      ((reference scope .source >>= fun x => elementValue name values.length x.1 >>= fun value =>
        (liftM (Work.pop >>= afterSeparator scope name rounds (value :: values)) :
          Attempt (List Int))).on b).2.tokens := by
  have hread : readElement scope name values.length =
      reference scope .source >>= fun x => elementValue name values.length x.1 := rfl
  rw [← bind_assoc, ← hread, Attempt.on_bind, readElements_succ, Work.on_bind]
  rcases h : (readElement scope name values.length).on b with ⟨_ | value, b'⟩
  · have hrun : (readElement scope name values.length).run.on b = (none, b') := h
    rw [hrun]
    rfl
  · have hrun : (readElement scope name values.length).run.on b = (some value, b') := h
    rw [hrun]
    rfl

lemma bounds_readElements (hpads : globals.Pads b.globals) (htokens : b.tokens = pre ++ ";" :: post)
    (name : Token) {rounds rounds' : Nat} (h : pre.length < rounds) (h' : pre.length < rounds')
    (values : List Int) :
    (scanElements (scope.home? globals) rounds pre).Bounds post (IsPlain (scope.home? globals) pre)
      ((readElements scope name [";"] rounds' values).on b).2.tokens := by
  induction rounds generalizing rounds' pre values b with
  | zero => omega
  | succ rounds ih =>
    obtain ⟨rounds', rfl⟩ : ∃ n, rounds' = n + 1 := ⟨rounds' - 1, by omega⟩
    rw [tokens_readElements]
    refine bounds_reference scope hpads htokens (fun a b' => ?_)
      fun a b' rest hpads' hrest htokens' => ?_
    · obtain ⟨value, ds, hon⟩ := on_elementValue name values.length a.1 b'
      rw [Attempt.on_bind, hon]
      exact ((advances_afterSeparator scope name rounds' (value :: values) _).consumes _).tokens
    · obtain ⟨value, ds, hon⟩ := on_elementValue name values.length a.1 b'
      rw [Attempt.on_bind, hon]
      dsimp only
      rw [on_lift]
      dsimp only
      rw [Work.on_bind, on_pop, htokens']
      cases rest with
      | nil => exact Scan.bounds_breaksOff (Tokens.splitStatement_suffix post)
      | cons next rest =>
        have hlength := hrest.length_le
        rw [List.length_cons] at hlength
        by_cases hcomma : next = ","
        · subst hcomma
          have hrounds : rest.length < rounds ∧ rest.length < rounds' := by omega
          have hbounds := ih (b := { b' with tokens := rest ++ ";" :: post, diagnostics := ds })
            hpads' rfl hrounds.1 hrounds.2 (value :: values)
          exact hbounds.mono fun hplain => isPlain_of_suffix hplain (List.suffix_cons _ _)
        · dsimp only
          rw [if_neg hcomma]
          exact Scan.bounds_settled (spares_afterSeparator scope name rounds' (value :: values)
            hcomma rfl)

/-- What is read after the size of an array, if its bracket is closed. -/
def afterSize (scope : Scope) (name : Token) (size : Nat) (next : Token) : Work Declarator := do
  if [";"].contains next then return .array size []
  else if next = "=" then
    if ← Work.eat "\x7b" then
      let rounds := (← get).tokens.length + 1
      return .array size (← readElements scope name [";"] rounds [])
    else do
      Work.reportThrough [";"] (.arrayInitializer name)
      return .array size []
  else do
    Work.reportThrough [";"] (.arrayInitializer name)
    return .array size []

lemma readArray_eq (scope : Scope) (name : Token) (size : Nat) : readArray scope name [";"] size =
    Work.eat "]" >>= fun eaten => if eaten = true then Work.pop >>=
    afterSize scope name size else do
      Work.reportThrough [";"] (.unclosedSize name)
      return .array size [] := rfl

lemma spares_afterSize (name : Token) (size : Nat) {next : Token}
    (htokens : b.tokens = pre ++ ";" :: post) (h : next ≠ "=" ∨ Tokens.peek b.tokens ≠ "\x7b") :
    post <:+ ((afterSize scope name size next).on b).2.tokens := by
  have hsplit : post <:+ (Tokens.splitThrough [";"] b.tokens).2 :=
    htokens ▸ Tokens.suffix_splitThrough pre post
  unfold afterSize
  split
  · have hrefl : post <:+ b.tokens :=
      htokens ▸ (List.suffix_cons _ _).trans (List.suffix_append _ _)
    exact hrefl
  · split
    · rename_i heq
      rw [Work.on_bind, on_eat_of_ne (h.resolve_left (not_not.mpr heq))]
      exact hsplit
    · exact hsplit

lemma bounds_readArray (hpads : globals.Pads b.globals) (htokens : b.tokens = pre ++ ";" :: post)
    (name : Token) (size : Nat) :
    (scanArray (scope.home? globals) pre).Bounds post (IsPlain (scope.home? globals) pre)
      ((readArray scope name [";"] size).on b).2.tokens := by
  rw [readArray_eq, Work.on_bind]
  unfold scanArray
  split
  · rename_i ts
    rw [on_eat_of_eq htokens]
    have hlength : ts.length < (ts ++ ";" :: post).length + 1 := by
      rw [List.length_append]
      omega
    have hbounds := bounds_readElements scope (b := { b with tokens := ts ++ ";" :: post }) hpads
      rfl name (Nat.lt_succ_self ts.length) hlength []
    have htokens' : ((afterSize scope name size "=").on
      { b with tokens := "\x7b" :: (ts ++ ";" :: post) }).2.tokens =
        ((readElements scope name [";"] ((ts ++ ";" :: post).length + 1) []).on
          { b with tokens := ts ++ ";" :: post }).2.tokens := rfl
    refine Scan.Bounds.mono ?_ fun hplain => isPlain_of_suffix hplain
      (((List.suffix_cons _ _).trans (List.suffix_cons _ _)).trans (List.suffix_cons _ _))
    exact htokens' ▸ hbounds
  · rename_i hother
    refine Scan.bounds_settled ?_
    cases pre with
    | nil =>
      rw [on_eat_of_ne (by rw [htokens]; simp [Tokens.peek])]
      have hsplit : post <:+ (Tokens.splitThrough [";"] b.tokens).2 :=
        htokens ▸ Tokens.suffix_splitThrough [] post
      exact hsplit
    | cons t ts =>
      by_cases ht : t = "]"
      · subst ht
        rw [on_eat_of_eq htokens]
        cases ts with
        | nil => exact List.suffix_refl _
        | cons next ts =>
          refine spares_afterSize scope (b := { b with tokens := ts ++ ";" :: post })
            name size rfl ?_
          by_contra hboth
          obtain ⟨rfl, hpeek⟩ := not_or.mp hboth |>.imp not_not.mp not_not.mp
          cases ts with
          | nil => exact absurd hpeek (by simp [Tokens.peek])
          | cons u us =>
            obtain rfl : u = "\x7b" := hpeek
            exact hother us rfl
      · rw [on_eat_of_ne (by rw [htokens]; simpa [Tokens.peek] using ht)]
        have hsplit : post <:+ (Tokens.splitThrough [";"] b.tokens).2 :=
          htokens ▸ Tokens.suffix_splitThrough (t :: ts) post
        exact hsplit

lemma takes_readArray (name : Token) (size : Nat) (b : Workbench) :
    ((readArray scope name [";"] size).on b).2.tokens <:+ Tokens.rest b.tokens := by
  rw [readArray_eq, Work.on_bind]
  rcases h : Tokens.eat? "]" b.tokens with _ | ts
  · rw [on_eat, h]
    exact Tokens.splitStatement_suffix _
  · have hts : ts = Tokens.rest b.tokens := by
      rw [Tokens.eat?] at h
      split at h
      · exact (Option.some.inj h).symm
      · simp at h
    have hafter : Work.Advances false (Work.pop >>= afterSize scope name size) := by
      refine advances_pop.bind fun next => ?_
      unfold afterSize
      split
      · exact advances_pure _
      · split
        · refine (advances_eat "\x7b").bind fun eaten => ?_
          split
          · exact advances_get.bind fun _ =>
              (advances_readElements scope name [";"] _ _).bind fun _ => advances_pure _
          · exact (advances_reportThrough _ _).bind fun _ => advances_pure _
        · exact (advances_reportThrough _ _).bind fun _ => advances_pure _
    rw [on_eat, h, ← hts]
    exact (hafter.consumes { b with tokens := ts }).tokens

/-- What is read after the declared name and the token `next` behind it. -/
def afterName (scope : Scope) (name : Token) (next : Token) : Attempt Declarator :=
  if [";"].contains next then return .word
  else if next = "=" then readDefault scope name [";"]
  else if next = "[" then do
    let size ← readSize name
    readArray scope name [";"] size
  else do
    Work.reportThrough [";"] (.declarator next name)
    failure

lemma read_eq (scope : Scope) (name : Token) :
    read scope name [";"] = (liftM Work.pop : Attempt Token) >>= afterName scope name := rfl

lemma careful_afterName (scope : Scope) (name next : Token) :
    Careful false (afterName scope name next) := by
  unfold afterName
  split
  · exact careful_pure _
  · split
    · exact careful_readDefault scope name _
    · split
      · exact (careful_lift (advances_readSize name)).bind fun size =>
          careful_lift (advances_readArray scope name _ size)
      · exact careful_failThrough rfl

lemma afterName_array (scope : Scope) (name : Token) : afterName scope name "[" =
    (liftM (readSize name) : Attempt Nat) >>= fun size =>
      (liftM (readArray scope name [";"] size) : Attempt Declarator) := rfl

lemma on_readSize (name : Token) (b : Workbench) : ∃ size ds,
    (readSize name).on b =
      (size, { b with tokens := Tokens.rest b.tokens, diagnostics := ds }) := by
  rw [readSize, Work.on_bind, on_pop]
  dsimp only
  split
  · exact ⟨_, _, rfl⟩
  · exact ⟨0, _, rfl⟩

lemma bounds_readDefault (hpads : globals.Pads b.globals) (htokens : b.tokens = pre ++ ";" :: post)
    (name : Token) :
    ((Reference.scan (scope.home? globals) .source 0 pre).andThen fun _ => .settled).Bounds post
      (IsPlain (scope.home? globals) pre) ((readDefault scope name [";"]).on b).2.tokens := by
  refine bounds_reference scope hpads htokens (fun a b' => ?_)
    fun a b' rest hpads' hrest htokens' => ?_
  · rw [on_lift_bind, on_peek]
    dsimp only
    split
    · exact List.suffix_refl _
    · exact Tokens.splitStatement_suffix _
  · have hsplit : post <:+ (Tokens.splitThrough [";"] b'.tokens).2 :=
      htokens' ▸ Tokens.suffix_splitThrough rest post
    rw [on_lift_bind, on_peek]
    dsimp only
    refine Scan.bounds_settled ?_
    split
    · have hpop : post <:+ Tokens.rest b'.tokens := htokens' ▸ Tokens.suffix_rest rest post
      exact hpop
    · exact hsplit

lemma bounds_afterName (hpads : globals.Pads b.globals) (htokens : b.tokens = pre ++ ";" :: post)
    (name next : Token) :
    (scan (scope.home? globals) (next :: pre)).Bounds post (IsPlain (scope.home? globals) pre)
      ((afterName scope name next).on b).2.tokens := by
  by_cases hvalue : next = "="
  · subst hvalue
    exact bounds_readDefault scope hpads htokens name
  · by_cases harray : next = "["
    · subst harray
      obtain ⟨size, ds, hsize⟩ := on_readSize name b
      rw [afterName_array, on_lift_bind, hsize, htokens]
      cases pre with
      | nil =>
        -- the semicolon is taken for the size
        have htakes := takes_readArray scope name size { b with tokens := post, diagnostics := ds }
        exact Scan.bounds_breaksOff htakes
      | cons text ts =>
        have hbounds :=
          bounds_readArray scope (b := { b with tokens := ts ++ ";" :: post, diagnostics := ds })
            hpads rfl name size
        exact hbounds.mono fun hplain => isPlain_of_suffix hplain (List.suffix_cons text ts)
    · have hscan : scan (scope.home? globals) (next :: pre) = .settled := by
        unfold scan
        split <;> simp_all
      rw [hscan, afterName, if_neg hvalue, if_neg harray]
      refine Scan.bounds_settled ?_
      split
      · have hrefl : post <:+ b.tokens :=
          htokens ▸ (List.suffix_cons _ _).trans (List.suffix_append _ _)
        exact hrefl
      · have hsplit : post <:+ (Tokens.splitThrough [";"] b.tokens).2 :=
          htokens ▸ Tokens.suffix_splitThrough pre post
        exact hsplit

lemma bounds_read (hpads : globals.Pads b.globals) (htokens : b.tokens = pre ++ ";" :: post)
    (name : Token) :
    (scan (scope.home? globals) pre).Bounds post (IsPlain (scope.home? globals) pre)
      ((read scope name [";"]).on b).2.tokens := by
  rw [read_eq, on_lift_bind, on_pop, htokens]
  cases pre with
  | nil => exact Scan.bounds_settled (List.suffix_refl _)
  | cons next ts =>
    have hbounds := bounds_afterName scope (b := { b with tokens := ts ++ ";" :: post })
      hpads rfl name next
    exact hbounds.mono fun hplain => isPlain_of_suffix hplain (List.suffix_cons next ts)

end Declarator

end

namespace Statement

open Build
open Reference (IsPlain)

variable {s : Session} {pre post : List Token}

def declared (scope : Scope) (name : Token) (b : Workbench) : Workbench :=
  if isReserved name then ((Work.reportStatement (.reservedDeclaration name)).on b).2
  else if b.globals.contains name then ((Work.reportStatement (.redeclared name)).on b).2
  else ((Declarator.read scope name [";"]).on b).2

lemma tokens_declaration_eq (s : Session) : (declaration.on s).2.bench.tokens =
    (declared s.scope (Tokens.peek (Tokens.rest s.bench.tokens))
      { s.bench with tokens := Tokens.rest (Tokens.rest s.bench.tokens) }).tokens := by
  simp only [declaration, Build.on_bind, on_discard, on_work, on_pop, Build.on_get]
  rw [declared]
  split
  · rfl
  · split
    · rfl
    · have hdeclare : ∀ (name : Token) (d : Declarator) (s : Session),
          ((declareGlobal name d).on s).2.bench.tokens = s.bench.tokens :=
          fun name d s => by cases d <;> rfl
      rw [Build.on_bind, on_attempt]
      dsimp only
      split
      · exact hdeclare _ _ _
      · rfl

lemma bounds_declared (scope : Scope) (name : Token) {b : Workbench}
    (htokens : b.tokens = pre ++ ";" :: post) :
    (scanDeclaration (scope.home? b.globals) b.globals (name :: pre)).Bounds post
      (IsPlain (scope.home? b.globals) pre) (declared scope name b).tokens := by
  have hsplit : post <:+ (Tokens.splitThrough [";"] b.tokens).2 :=
    htokens ▸ Tokens.suffix_splitThrough pre post
  rw [scanDeclaration, declared]
  by_cases hreserved : isReserved name = true
  · rw [if_pos (Or.inl hreserved), if_pos hreserved]
    exact Scan.bounds_settled hsplit
  · by_cases hcontains : b.globals.contains name = true
    · rw [if_pos (Or.inr hcontains), if_neg hreserved, if_pos hcontains]
      exact Scan.bounds_settled hsplit
    · rw [if_neg (not_or.mpr ⟨hreserved, hcontains⟩), if_neg hreserved, if_neg hcontains]
      exact Declarator.bounds_read scope (.refl _) htokens name

lemma bounds_declaration (htokens : s.bench.tokens = "my" :: pre ++ ";" :: post) :
    (scanDeclaration (s.scope.home? s.bench.globals) s.bench.globals pre).Bounds post
      (IsPlain (s.scope.home? s.bench.globals) pre) (declaration.on s).2.bench.tokens := by
  rw [tokens_declaration_eq, htokens]
  cases pre with
  | nil =>
    -- the semicolon is taken for the name
    refine Scan.bounds_breaksOff ?_
    unfold declared
    split
    · exact Tokens.splitStatement_suffix post
    · split
      · exact Tokens.splitStatement_suffix post
      · rw [Declarator.read_eq]
        exact takes_pop (Declarator.careful_afterName s.scope _) _
  | cons name ts =>
    have hbounds := bounds_declared s.scope name (b := { s.bench with tokens := ts ++ ";" :: post })
      rfl
    exact hbounds.mono fun hplain => isPlain_of_suffix hplain (List.suffix_cons name ts)

lemma spares_returnStatement (htokens : s.bench.tokens = "return" :: pre ++ ";" :: post) :
    post <:+ (returnStatement.on s).2.bench.tokens := by
  have hrest : Tokens.rest s.bench.tokens = pre ++ ";" :: post := by rw [htokens]; rfl
  have hsplit : post <:+ (Tokens.splitThrough [";"] (Tokens.rest s.bench.tokens)).2 :=
    hrest ▸ Tokens.suffix_splitThrough pre post
  simp only [returnStatement, Build.on_bind, on_discard, on_work, on_pop, Build.on_get]
  split
  · exact hsplit
  · rw [Build.on_bind, on_work]
    dsimp only
    by_cases hpeek : Tokens.peek (Tokens.rest s.bench.tokens) = ";"
    · have heat : (Work.eat ";").on { s.bench with tokens := Tokens.rest s.bench.tokens } = (true,
          { s.bench with tokens := Tokens.rest (Tokens.rest s.bench.tokens) }) :=
          on_eat_of_peek hpeek
      have hleft : post <:+ Tokens.rest (Tokens.rest s.bench.tokens) :=
        hrest ▸ Tokens.suffix_rest pre post
      rw [heat]
      exact hleft
    · have heat : (Work.eat ";").on { s.bench with tokens := Tokens.rest s.bench.tokens } = (false,
          { s.bench with tokens := Tokens.rest s.bench.tokens }) := on_eat_of_ne hpeek
      rw [heat]
      exact hsplit

def isBlockWord (t : Token) : Bool := ["if", "while", "do", "sub", "\x7d"].contains t

lemma split_own (ts : List Token) : (Tokens.splitStatement ts).2 = [] ∨
    ts = ts.takeWhile (· != ";") ++ ";" :: (Tokens.splitStatement ts).2 := by
  induction ts with
  | nil => exact .inl rfl
  | cons t ts ih =>
    by_cases ht : t = ";"
    · subst ht
      exact .inr rfl
    · have hsplit : (Tokens.splitStatement (t :: ts)).2 = (Tokens.splitStatement ts).2 := by
        simp [Tokens.splitStatement, Tokens.splitThrough, ht]
      have htake : (t :: ts).takeWhile (· != ";") = t :: ts.takeWhile (· != ";") := by simp [ht]
      rw [hsplit, htake, List.cons_append]
      exact ih.imp id fun h => congrArg (t :: ·) h

lemma bounds_compile (hblock : isBlockWord (Tokens.peek s.bench.tokens) = false)
    (htokens : s.bench.tokens = own s ++ ";" :: post) :
    (scan s).Bounds post (IsPlain (s.scope.home? s.bench.globals) (own s))
      (compile.on s).2.bench.tokens := by
  have hrested : (rested s).bench.tokens = own s ++ ";" :: post := htokens
  have hown : ∀ t ∈ own s, t ≠ ";" := fun t ht => by simpa using List.mem_takeWhile_imp ht
  rw [on_compile, scan]
  generalize own s = pre at htokens hrested hown
  cases pre with
  | nil =>
    have hpeek : Tokens.peek s.bench.tokens = ";" := by rw [htokens]; rfl
    have hleft : post <:+ Tokens.rest (rested s).bench.tokens :=
      hrested ▸ Tokens.suffix_rest [] post
    rw [hpeek]
    exact Scan.bounds_settled hleft
  | cons t ts =>
    have hpeek : Tokens.peek s.bench.tokens = t := by rw [htokens]; rfl
    rw [hpeek] at hblock ⊢
    split
    · rename_i heq
      simp at heq
    · rename_i heq
      obtain ⟨rfl, rfl⟩ := List.cons.inj heq
      have hqueue : (queueCall.on (rested s)).2.bench.tokens =
          (Tokens.splitStatement (rested s).bench.tokens).2 := tokens_setPointerType _ _
      have hleft : post <:+ (queueCall.on (rested s)).2.bench.tokens := by
        rw [hqueue, hrested]
        exact Tokens.suffix_splitThrough _ post
      exact Scan.bounds_settled hleft
    · rename_i heq
      obtain ⟨rfl, rfl⟩ := List.cons.inj heq
      exact Scan.bounds_settled (spares_returnStatement hrested)
    · rename_i heq
      obtain ⟨rfl, rfl⟩ := List.cons.inj heq
      exact (bounds_declaration hrested).mono fun hplain =>
        isPlain_of_suffix hplain (List.suffix_cons _ _)
    · rename_i hcall hreturn hmy
      have hassign := Assignment.bounds_lower s.scope (b := (rested s).bench) (.refl _) hrested
      simp only [isBlockWord, List.contains_cons, List.contains_nil, Bool.or_false,
        Bool.or_eq_false_iff, beq_eq_false_iff_ne] at hblock
      split
      · exact absurd rfl (hown _ List.mem_cons_self)
      · exact absurd rfl (hcall ts)
      · exact absurd rfl (hmy ts)
      · exact absurd rfl hblock.1
      · exact absurd rfl hblock.2.1
      · exact absurd rfl hblock.2.2.1
      · exact absurd rfl hblock.2.2.2.2
      · exact absurd rfl hblock.2.2.2.1
      · exact absurd rfl (hreturn ts)
      · simp only [assignment, Build.on_bind, Build.on_get, on_attempt]
        split <;> exact hassign

/-- A statement that neither opens nor closes a block takes no token behind its first semicolon,
whatever is wrong with it, unless it breaks off there. One that breaks off, with no marks in it and
no variable that is called `;`, does take tokens of the next statement. -/
theorem errors_are_contained (s : Session)
    (hblock : isBlockWord (Tokens.peek s.bench.tokens) = false) : (scan s ≠ .breaksOff →
      (Tokens.splitStatement s.bench.tokens).2 <:+ (compile.on s).2.bench.tokens) ∧
    (scan s = .breaksOff → IsPlain (s.scope.home? s.bench.globals) (own s) →
      (Tokens.splitStatement s.bench.tokens).2 ≠ [] →
      ¬ (Tokens.splitStatement s.bench.tokens).2 <:+ (compile.on s).2.bench.tokens) := by
  rcases split_own s.bench.tokens with hnone | htokens
  · rw [hnone]
    exact ⟨fun _ => List.nil_suffix, fun _ _ hne => absurd rfl hne⟩
  · have hbounds := bounds_compile hblock htokens
    refine ⟨hbounds.contained, fun hscan hplain hne hsuffix => ?_⟩
    have hover := (hsuffix.trans (hbounds.overrun hplain hscan)).length_le
    cases hpost : (Tokens.splitStatement s.bench.tokens).2 with
    | nil => exact hne hpost
    | cons t ts =>
      rw [hpost, Tokens.rest, List.length_cons] at hover
      omega

/-- A comma is missing in an initializer; and an operand is missing in an assignment, which takes
the next one with it. -/
theorem errors_are_contained_missing :
    let s := Session.started {} "my a[2] = \x7b1, 2 3\x7d; display = 1;"
    let s' := Session.started {} "display = ; display = 1;"
    (Tokens.splitStatement s.bench.tokens).2 = ["display", "=", "1", ";"] ∧
    (Tokens.splitStatement s.bench.tokens).2 <:+ (compile.on s).2.bench.tokens ∧
    (Tokens.splitStatement s'.bench.tokens).2 = ["display", "=", "1", ";"] ∧
    ¬ (Tokens.splitStatement s'.bench.tokens).2 <:+ (compile.on s').2.bench.tokens := by
  intro s s'
  have hblock : isBlockWord (Tokens.peek s.bench.tokens) = false := by decide +kernel
  have hblock' : isBlockWord (Tokens.peek s'.bench.tokens) = false := by decide +kernel
  exact ⟨by decide +kernel, (errors_are_contained s hblock).1 (by decide +kernel),
    by decide +kernel, (errors_are_contained s' hblock').2 (by decide +kernel) (by decide +kernel)
      (by decide +kernel)⟩

end Statement
end CogolToolchain
