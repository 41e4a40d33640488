import CogolToolchain.Proofs.Compile.Labels

/-!
How a call is lowered.

`Call.Lowering` names what the parts of the code of a call are made of, together with the
workbenches between them, and `Call.exists_lowering` says that every call that is lowered is of this
form.
-/

namespace CogolToolchain

open Work Attempt

/-! ### Calls only add to the workbench -/

namespace Call

lemma careful_argument (scope : Scope) (frame : Frame) (pointer : Backed) (param : String) :
    Careful false (argument scope frame pointer param) :=
  (careful_reference scope .source).bind fun _ =>
    (careful_lift (Condition.advances_checkBounds _ _)).bind fun _ =>
      (careful_lift advances_allocScratch).bind fun _ =>
        (careful_lift (advances_releaseCell _)).bind fun _ =>
        (careful_lift (advances_releaseCells _)).bind fun _ => careful_pure _

lemma tokens_argument (scope : Scope) (frame : Frame) (pointer : Backed) (param : String)
    (b : Workbench) : ((argument scope frame pointer param).on b).2.tokens <:+
    Tokens.rest b.tokens :=
  tokens_of_reference scope .source (fun _ =>
    ((careful_lift (Condition.advances_checkBounds _ _)).bind fun _ =>
      (careful_lift advances_allocScratch).bind fun _ =>
        (careful_lift (advances_releaseCell _)).bind fun _ =>
          (careful_lift (advances_releaseCells _)).bind fun _ => careful_pure _).absorbs) b

lemma careful_parameter (frame : Frame) (slot : Nat) : Careful false (parameter frame slot) := by
  unfold parameter
  split
  · exact careful_failStatement rfl
  · split
    · exact careful_failStatement rfl
    · exact careful_pure _

/-- An argument, in the parts that its code is made of. -/
structure Argument where
  /-- The place of the parameter in the frame's list of slots. -/
  slot : Nat
  param : String
  ref : Reference
  source : Backed
  code : Code
  /-- The scratch cell for the address of the parameter. -/
  temp : Nat

/-- The code that stores the argument in the frame that `pointer` points to. -/
def Argument.stored (frame : Frame) (pointer : Backed) (a : Argument) : Code :=
  a.code ++
    [{ opcode := .add, lhs := pointer.read.toOperand, rhs := .slot frame.name a.param,
       dest := .cellDest a.temp },
     .copy a.source.toOperand (.cell a.temp)]

inductive Argument.Lowers (scope : Scope) (b : Workbench) (a : Argument) : Workbench → Prop
  | mk {b₁ b₂ : Workbench} {ds : List Diagnostic}
      (read : (Reference.read (scope.home? b.globals) 0 b.tokens).1 = .ok a.ref)
      (source : Yields (reference scope .source) b (a.source, a.code) b₁)
      (check : (checkBounds .source a.source.toOperand).on b₁ = ((), { b₁ with diagnostics := ds }))
      (temp : allocScratch.on { b₁ with diagnostics := ds } = (a.temp, b₂)) :
      Lowers scope b a { b₂ with
        scratch := a.source.cells.foldl ScratchPool.release (b₂.scratch.release a.temp) }

lemma argument_cases {scope : Scope} {frame : Frame} {pointer : Backed} {param : String}
    {b b' : Workbench} {code : Code} (slot : Nat)
    (h : Yields (argument scope frame pointer param) b code b') :
    ∃ a : Argument, a.slot = slot ∧ a.param = param ∧ a.Lowers scope b b' ∧
      code = a.stored frame pointer := by
  simp only [argument, yields_bind, yields_lift, yields_pure, Prod.exists, on_release,
    on_releaseCell] at h
  obtain ⟨source, before, b₁, hsource, _, b₂, hcheck, temp, b₃, htemp, _, b₄, hrelease, _, b₅,
    hcells, rfl, rfl⟩ := h
  obtain ⟨ds, -, hds⟩ := on_checkBounds .source source.toOperand b₁
  obtain rfl := (Prod.mk.inj (hds.symm.trans hcheck)).2
  obtain rfl := (Prod.mk.inj hrelease).2
  obtain rfl := (Prod.mk.inj hcells).2
  obtain ⟨ref, hread⟩ := exists_read hsource
  let a : Argument := ⟨slot, param, ref, source, before, temp⟩
  have hlowers := Argument.Lowers.mk (a := a) hread hsource hds htemp
  exact ⟨a, rfl, rfl, hlowers, rfl⟩

/-- The arguments from the one for `slot` on are lowered on `b`, through the closing parenthesis,
which leaves `b'`. -/
inductive Arguments (scope : Scope) (frame : Frame) :
    Nat → Workbench → List Argument → Workbench → Prop
  | nil {slot : Nat} {b : Workbench} (next : Tokens.peek b.tokens = ")") :
      Arguments scope frame slot b [] { b with tokens := Tokens.rest b.tokens }
  | skip {slot : Nat} {b b' : Workbench} {args : List Argument} (next : Tokens.peek b.tokens = ",")
      (rest : Arguments scope frame (slot + 1) { b with tokens := Tokens.rest b.tokens } args b') :
      Arguments scope frame slot b args b'
  | cons {b b₁ b' : Workbench} {a : Argument} {args : List Argument} {slot : Slot}
      (next : Tokens.peek b.tokens ≠ ")" ∧ Tokens.peek b.tokens ≠ ",")
      (hslot : frame.slots[a.slot]? = some slot) (hparam : a.param = slot.name)
      (harray : frame.isArray a.param = false) (lowers : a.Lowers scope b b₁)
      (rest : Arguments scope frame a.slot b₁ args b') :
      Arguments scope frame a.slot b (a :: args) b'

lemma parameter_cases {frame : Frame} {slot : Nat} {param : String} {b b' : Workbench}
    (h : Yields (parameter frame slot) b param b') : b' = b ∧ ∃ s, frame.slots[slot]? = some s ∧
      param = s.name ∧ frame.isArray param = false := by
  unfold parameter at h
  split at h
  · simp at h
  · rename_i s hs
    split at h
    · simp at h
    · rename_i harray
      obtain ⟨rfl, rfl⟩ := yields_pure.mp h
      exact ⟨rfl, s, hs, rfl, by simpa using harray⟩

lemma yields_discard_pop {b b' : Workbench} {u : Unit}
    (h : Yields (discard (liftM Work.pop : Attempt Token)) b u b') :
    b' = { b with tokens := Tokens.rest b.tokens } := by
  obtain ⟨_, hpop, -⟩ := yields_map.mp h
  rw [yields_lift, on_pop] at hpop
  exact (Prod.mk.inj hpop).2.symm

lemma arguments_cases {scope : Scope} {frame : Frame} {pointer : Backed} {rounds slot : Nat}
    {b b' : Workbench} {supplied : List Nat} {code : Code}
    (h : Yields (arguments scope frame pointer rounds slot) b (supplied, code) b') :
    ∃ args, Arguments scope frame slot b args b' ∧ supplied = args.map Argument.slot ∧
      code = args.flatMap (Argument.stored frame pointer) := by
  induction rounds generalizing slot b supplied code with
  | zero => simp [arguments] at h
  | succ rounds ih =>
    simp only [arguments, yields_bind, yields_lift, on_peek, Prod.mk.injEq] at h
    obtain ⟨next, b₀, ⟨rfl, rfl⟩, h⟩ := h
    split at h
    · rename_i hnext
      simp only [yields_bind, yields_pure, Prod.mk.injEq] at h
      obtain ⟨_, b₁, hpop, ⟨rfl, rfl⟩, rfl⟩ := h
      obtain rfl := yields_discard_pop hpop
      exact ⟨[], .nil hnext, rfl, rfl⟩
    · rename_i hclose
      split at h
      · rename_i hnext
        simp only [yields_bind] at h
        obtain ⟨_, b₁, hpop, h⟩ := h
        obtain rfl := yields_discard_pop hpop
        obtain ⟨args, hargs, hsupplied, hcode⟩ := ih h
        exact ⟨args, .skip hnext hargs, hsupplied, hcode⟩
      · rename_i hcomma
        split at h
        · simp at h
        · simp only [yields_bind, yields_pure, Prod.exists, Prod.mk.injEq] at h
          obtain ⟨param, b₁, hparam, code', b₂, harg, supplied', rest, b₃, hrest,
            ⟨rfl, rfl⟩, rfl⟩ := h
          obtain ⟨rfl, s, hs, hname, harray⟩ := parameter_cases hparam
          obtain ⟨a, rfl, rfl, hlowers, rfl⟩ := argument_cases slot harg
          obtain ⟨args, hargs, rfl, rfl⟩ := ih hrest
          exact ⟨a :: args, .cons ⟨hclose, hcomma⟩ hs hname harray hlowers hargs, rfl, rfl⟩

lemma careful_discard_pop : Careful false (discard (liftM Work.pop : Attempt Token)) :=
  (careful_lift advances_pop).bind fun _ => careful_pure ()

lemma advances_arguments (scope : Scope) (frame : Frame) (pointer : Backed) (rounds slot : Nat) :
    Advances false (arguments scope frame pointer rounds slot).run := by
  induction rounds generalizing slot with
  | zero => exact advances_pure _
  | succ rounds ih =>
    refine Attempt.advances_bind (careful_lift advances_peek).advances fun next => ?_
    split
    · exact (careful_discard_pop.bind fun _ => careful_pure _).advances
    · split
      · exact Attempt.advances_bind careful_discard_pop.advances fun _ => ih _
      · split
        · refine Careful.advances (careful_failStatement ?_)
          rfl
        · exact Attempt.advances_bind (careful_parameter frame slot).advances fun param =>
            Attempt.advances_bind (careful_argument scope frame pointer param).advances fun _ =>
              Attempt.advances_bind (ih slot) fun _ => (careful_pure _).advances

lemma safeOn_arguments (scope : Scope) (frame : Frame) (pointer : Backed)
    {rounds : Nat} (slot : Nat) {b : Workbench} (hle : b.tokens.length < rounds) :
    SafeOn b (arguments scope frame pointer rounds slot) := by
  induction rounds generalizing slot b with
  | zero => omega
  | succ rounds ih =>
    refine ((careful_lift advances_peek).safe.on b).bind fun next b₀ hnext => ?_
    obtain ⟨rfl, rfl⟩ := Prod.mk.inj (yields_lift.mp hnext)
    split
    · exact (careful_discard_pop.bind fun _ => careful_pure _).safe.on b
    · split
      · rename_i hcomma
        have hless := Tokens.length_rest_lt (Tokens.ne_nil_of_peek (by rw [hcomma]; decide))
        refine (careful_discard_pop.safe.on b).bind fun _ b₁ hb₁ => ?_
        obtain rfl := yields_discard_pop hb₁
        exact ih (slot + 1) (by dsimp only; omega)
      · split
        · refine Safe.on (Careful.safe (careful_failStatement ?_)) b
          rfl
        · rename_i hend
          have hless := Tokens.length_rest_lt (Tokens.ne_nil_of_peek fun hnext => hend (.inl hnext))
          refine ((careful_parameter frame slot).safe.on b).bind fun param b₁ hparam => ?_
          obtain ⟨rfl, -⟩ := parameter_cases hparam
          refine ((careful_argument scope frame pointer param).safe.on b₁).bind
            fun code b₂ harg => ?_
          have hle' := (tokens_argument scope frame pointer param b₁).length_le
          rw [show (argument scope frame pointer param).on b₁ = _ from harg] at hle'
          exact (ih slot (by dsimp only at hle'; omega)).bind fun _ b₃ _ =>
            (careful_pure _).safe.on b₃

lemma advances_storeResult (assign : Token) (value dest : Backed) :
    Advances false (storeResult assign value dest) := by
  unfold storeResult
  split
  · exact advances_pure _
  · split
    · exact advances_pure _
    · exact (advances_report _).bind fun _ => advances_pure _

lemma careful_fieldResult (frame : Frame) (dest? : Option (Backed × Code × Token)) :
    Careful false (fieldResult frame dest?) := by
  refine careful_setTokens (f := fun b => (Reference.readField b.tokens).2)
    (fun b => (Reference.readField_suffix _).trans (Tokens.rest_suffix b.tokens)) fun b => ?_
  split
  · exact careful_failStatement rfl
  · refine (careful_lift advances_allocScratch).bind fun _ =>
      (careful_lift (advances_storeResult _ _ _)).bind fun _ =>
        (careful_lift (advances_eat _)).bind fun eaten => ?_
    split
    · exact (careful_lift (advances_pure ())).bind fun _ => careful_pure _
    · exact (careful_lift (advances_reportStatement _)).bind fun _ => careful_pure _

lemma careful_destination (scope : Scope) (call : CallSite) :
    Careful false (destination scope call) := by
  unfold destination
  split
  · exact careful_pure _
  · exact (careful_reference scope .destination).bind fun _ =>
      (careful_lift advances_pop).bind fun _ =>
      careful_pure _

lemma careful_callee (scope : Scope) : Careful false (callee scope) := by
  refine (careful_lift advances_pop).bind fun name => ?_
  split
  · exact careful_pure _
  · exact careful_failStatement rfl

lemma advances_framePointer (call : CallSite) (dest? : Option (Backed × Code × Token)) :
    Advances false (framePointer call dest?) := by
  unfold framePointer
  split
  · exact advances_pure _
  · exact advances_allocScratch.bind fun _ => advances_pure _

lemma advances_makeFrame (frame : Frame) (pointer : Backed) :
    Advances false (makeFrame frame pointer) :=
  advances_allocScratch.bind fun _ => (advances_releaseCell _).bind fun _ => advances_pure _

lemma advances_enter (frame : Frame) (pointer : Backed) (supplied : List Nat) :
    Advances true (enter frame pointer supplied) :=
  advances_takeId.bind fun _ => (advances_releaseCells _).bind fun _ => advances_pure _

lemma safe_lower (scope : Scope) (call : CallSite) : Safe (lower scope call) := by
  refine careful_discard_pop.safe.bind fun _ =>
    (careful_destination scope call).safe.bind fun dest? =>
    (careful_callee scope).safe.bind fun frame =>
    (careful_lift (advances_framePointer call dest?)).safe.bind fun r =>
    (careful_lift (advances_makeFrame frame _)).safe.bind fun make =>
      (careful_expect _).safe.bind fun _ => ?_
  refine safe_iff.mpr fun b => ((careful_lift advances_get).safe.on b).bind fun b₀ b₁ hget => ?_
  obtain ⟨rfl, rfl⟩ := yields_get.mp hget
  refine (safeOn_arguments scope frame _ 2 (Nat.lt_succ_self _)).bind fun r b₂ _ => Safe.on ?_ b₂
  refine (careful_lift (advances_enter _ _ _)).safe.bind fun _ =>
    (careful_lift advances_pop).safe.bind fun next => ?_
  split
  · exact ((careful_fieldResult frame dest?).bind fun _ => careful_pure _).safe
  · exact (careful_pure _).safe

/-! ### The parts of a call -/

def makeCode (frame : Frame) (pointer : Backed) (temp : Nat) : Code := [
  { opcode := .add, lhs := stackTop, rhs := .constant 1, dest := .cellDest temp },
  .copy frame.base (.cell temp),
  .copy stackTop pointer.toOperand]

def initialCode (frame : Frame) (supplied : List Nat) : Code :=
  frame.slots.zipIdx.flatMap fun (slot, i) => if supplied.contains i then [] else slot.init

/-- The code that enters the subroutine; control comes back to what follows it. -/
def enterCode (frame : Frame) (pointer : Backed) (supplied : List Nat) (back : Label) : Code :=
  [.copy pointer.read.toOperand (.named .constant frame.name), .copy (.label back 1) frame.base]
    ++ initialCode frame supplied ++
  [.jump (.label (.begin frame.block) 1),
   { opcode := .add, lhs := .constant (Numeral.wrap32 frame.size), rhs := frame.base,
     dest := callStackPointer,
     tags := [back] }]

/-- The workbench when the subroutine is entered: the place to return to has its number, and the
frame pointer is not needed any more. -/
def entered (pointer : Backed) (b : Workbench) : Workbench :=
  { b with
    nextId := b.nextId + 1
    scratch := pointer.cells.foldl ScratchPool.release b.scratch
    tokens := Tokens.rest b.tokens }

structure Lowering (scope : Scope) (call : CallSite) (b b' : Workbench) where
  dest? : Option (Backed × Code × Token)
  frame : Frame
  /-- Where the address of the new frame is kept. -/
  pointer : Backed
  address : Code
  temp : Nat
  args : List Argument
  result : Code
  /-- The workbench before the name of the subroutine. -/
  named : Workbench
  placed : Workbench
  making : Workbench
  opened : Workbench
  closed : Workbench
  yields_destination :
    Yields (destination scope call) { b with tokens := Tokens.rest b.tokens } dest? named
  frame?_eq : scope.frame? (Tokens.peek named.tokens) = some frame
  on_framePointer : (framePointer call dest?).on { named with tokens := Tokens.rest named.tokens } =
    ((pointer, address), placed)
  on_allocScratch : allocScratch.on placed = (temp, making)
  yields_expect : Yields (expect "(") { making with scratch := making.scratch.release temp }
    () opened
  arguments : Arguments scope frame 2 opened args closed
  finishes :
    if Tokens.peek closed.tokens = "." then
      Yields (fieldResult frame dest?) (entered pointer closed) result b'
    else result = [] ∧ b' = entered pointer closed

namespace Lowering

variable {scope : Scope} {call : CallSite} {b b' : Workbench} (p : Lowering scope call b b')

def back : Label := .callReturn p.closed.nextId p.frame.name

def supplied : List Nat := p.args.map Argument.slot

def code : Code :=
  p.address ++ makeCode p.frame p.pointer p.temp ++
    p.args.flatMap (Argument.stored p.frame p.pointer) ++
    enterCode p.frame p.pointer p.supplied p.back ++ p.result

end Lowering

lemma callee_cases {scope : Scope} {b b' : Workbench} {frame : Frame}
    (h : Yields (callee scope) b frame b') : scope.frame? (Tokens.peek b.tokens) = some frame ∧
      b' = { b with tokens := Tokens.rest b.tokens } := by
  simp only [callee, yields_bind, yields_lift, on_pop, Prod.mk.injEq] at h
  obtain ⟨name, b₁, ⟨rfl, rfl⟩, h⟩ := h
  split at h
  · rename_i hframe
    obtain ⟨rfl, rfl⟩ := yields_pure.mp h
    exact ⟨hframe, rfl⟩
  · simp at h

lemma makeFrame_cases {frame : Frame} {pointer : Backed} {b b' : Workbench} {code : Code}
    (h : (makeFrame frame pointer).on b = (code, b')) : ∃ temp b₁, allocScratch.on b = (temp, b₁) ∧
      code = makeCode frame pointer temp ∧
      b' = { b₁ with scratch := b₁.scratch.release temp } := by
  simp only [makeFrame, Work.on_bind, Work.on_pure, on_releaseCell, Prod.mk.injEq] at h
  exact ⟨_, _, rfl, h.1.symm, h.2.symm⟩

/-- A call that is lowered is lowered in these parts. -/
theorem exists_lowering {scope : Scope} {call : CallSite} {b b' : Workbench} {code : Code}
    (h : Yields (lower scope call) b code b') : ∃ p : Lowering scope call b b', p.code = code := by
  simp only [lower, yields_bind] at h
  obtain ⟨_, b₀, hpop, dest?, b₁, hdest, frame, b₂, hcallee, ⟨pointer, address⟩, b₃,
    hpointer, make, b₄, hmake, _, b₅, hexpect, tokens, b₆, hget, ⟨supplied, args⟩, b₇, hargs, entry,
    b₈, henter, next, b₉,
    hnext, h⟩ := h
  obtain rfl := yields_discard_pop hpop
  obtain ⟨rfl, rfl⟩ := yields_get.mp hget
  obtain ⟨args, hparts, rfl, rfl⟩ := arguments_cases hargs
  obtain ⟨hframe, rfl⟩ := callee_cases hcallee
  rw [yields_lift] at hpointer hmake henter hnext
  obtain ⟨temp, making, htemp, rfl, rfl⟩ := makeFrame_cases hmake
  simp only [enter, Work.on_bind, Work.on_pure, on_takeId, on_release, Prod.mk.injEq] at henter
  obtain ⟨rfl, rfl⟩ := henter
  rw [on_pop, Prod.mk.injEq] at hnext
  obtain ⟨rfl, rfl⟩ := hnext
  by_cases hdot : Tokens.peek b₇.tokens = "."
  · rw [if_pos hdot] at h
    simp only [yields_bind, yields_pure] at h
    obtain ⟨result, b₈, hresult, rfl, rfl⟩ := h
    exact ⟨⟨dest?, frame, pointer, address, temp, args, result, _, _, making, _, _, hdest, hframe,
      hpointer, htemp, hexpect, hparts, by rw [if_pos hdot]; exact hresult⟩, rfl⟩
  · rw [if_neg hdot] at h
    obtain ⟨rfl, rfl⟩ := yields_pure.mp h
    exact ⟨⟨dest?, frame, pointer, address, temp, args, [], _, _, making, _, _, hdest, hframe,
      hpointer, htemp, hexpect, hparts, by rw [if_neg hdot]; exact ⟨rfl, rfl⟩⟩, List.append_nil _⟩

end Call

lemma Frame.Sound.initializes_initialCode {pool : List Nat} {name : String} {frame : Frame}
    (h : frame.Sound pool name) (supplied : List Nat) :
    Frame.Initializes name (Call.initialCode frame supplied) := by
  have hslots : ∀ slots : List (Slot × Nat), (∀ entry ∈ slots, entry.1 ∈ frame.slots) →
      Frame.Initializes name (slots.flatMap fun (slot, i) =>
        if supplied.contains i then [] else slot.init) := by
    intro slots hmem
    induction slots with
    | nil => exact Frame.initializes_nil name
    | cons entry slots ih =>
      rw [List.flatMap_cons]
      refine Frame.Initializes.append ?_ (ih fun e he => hmem e (List.mem_cons_of_mem _ he))
      dsimp only
      split
      · exact Frame.initializes_nil name
      · exact h.initializes entry.1 (hmem entry List.mem_cons_self)
  exact hslots _ fun entry hentry => List.fst_mem_of_mem_zipIdx hentry

namespace Call

/-! ### What the parts are -/

/-- The code that stores the value of a field, which `value` points to. -/
inductive Stores (value dest : Backed) : Token → Code → Prop
  | copy : Stores value dest "=" [.copy value.toOperand dest.toOperand]
  | compound {assign : Token} {opcode : Opcode} (hassign : assign ≠ "=")
      (hopcode : resultOpcode? assign = some opcode) :
      Stores value dest assign
        [{ opcode, lhs := dest.read.toOperand, rhs := value.toOperand, dest := dest.toOperand }]

lemma Stores.instruction {value dest : Backed} {assign : Token} {code : Code}
    (h : Stores value dest assign code) (hv : value.IsKnown) (hd : dest.IsKnown) :
    ∃ i : Instruction, code = [i] ∧ i.tags = [] ∧ i.dest = dest.toOperand ∧ i.lhs.IsKnown ∧
      i.rhs.IsKnown := by
  cases h with
  | copy => exact ⟨_, rfl, rfl, rfl, Operand.known_constant _, hv⟩
  | compound => exact ⟨_, rfl, rfl, rfl, hd, hv⟩

lemma Stores.exists_rhs {value dest : Backed} {assign : Token} {code : Code}
    (h : Stores value dest assign code) : ∃ i : Instruction, code = [i] ∧
    i.rhs = value.toOperand := by
  cases h with
  | copy => exact ⟨_, rfl, rfl⟩
  | compound => exact ⟨_, rfl, rfl⟩

lemma stores_of_storeResult {assign : Token} {value dest : Backed} {b b' : Workbench} {code : Code}
    (h : (storeResult assign value dest).on b = (code, b')) :
    (∃ ds, b' = { b with diagnostics := b.diagnostics ++ ds } ∧
      (ds = [] → assign = "=" ∨ (resultOpcode? assign).isSome)) ∧
      (Stores value dest assign code ∨ (code = [] ∧ ¬ b'.Clean)) := by
  unfold storeResult at h
  split at h
  · rename_i hassign
    obtain ⟨rfl, rfl⟩ := Prod.mk.inj h
    subst hassign
    exact ⟨⟨[], by rw [List.append_nil], fun _ => .inl rfl⟩, .inl .copy⟩
  · rename_i hassign
    split at h
    · rename_i opcode hopcode
      obtain ⟨rfl, rfl⟩ := Prod.mk.inj h
      exact ⟨⟨[], by rw [List.append_nil], fun _ => .inr (by simp [hopcode])⟩,
        .inl (.compound hassign hopcode)⟩
    · obtain ⟨rfl, rfl⟩ := Prod.mk.inj h
      exact ⟨⟨_, rfl, by simp⟩, .inr ⟨rfl, not_clean_report (p := .resultOperator assign) rfl b ""⟩⟩

/-- What follows `f(...).` is lowered on `b`, which leaves `b'`. -/
structure Result (frame : Frame) (dest? : Option (Backed × Code × Token)) (b b' : Workbench) where
  dest : Backed
  address : Code
  assign : Token
  temp : Nat
  store : Code
  taken : Workbench
  dest?_eq : dest? = some (dest, address, assign)
  on_allocScratch :
    allocScratch.on { b with tokens := (Reference.readField b.tokens).2 } = (temp, taken)
  stores : Stores (.through temp) dest assign store ∨ (store = [] ∧ ¬ b'.Clean)
  grows : taken.Grows b'
  scratch : b'.scratch = taken.scratch
  nextId : b'.nextId = taken.nextId

def Result.code {frame : Frame} {dest? : Option (Backed × Code × Token)} {b b' : Workbench}
    (p : Result frame dest? b b') : Code :=
  p.address ++
    [{ opcode := .add, lhs := stackTop, rhs := .slot frame.name (Reference.readField b.tokens).1,
       dest := .cellDest p.temp }] ++ p.store

lemma eat_or_report {p : Problem} {code r : Code} {b b' : Workbench} (h : Yields (do
      if ← Work.eat ";" then pure () else Work.reportStatement p
      return code : Attempt Code) b r b') :
    r = code ∧ ∃ ts ds, b' = { b with tokens := ts, diagnostics := b.diagnostics ++ ds } ∧
      (ds = [] → Tokens.eat? ";" b.tokens = some ts) := by
  simp only [yields_bind, yields_lift] at h
  obtain ⟨eaten, b₁, heat, h⟩ := h
  rw [on_eat] at heat
  split at heat
  · rename_i hts
    obtain ⟨rfl, rfl⟩ := Prod.mk.inj heat
    simp only [↓reduceIte, yields_pure] at h
    exact ⟨h.1, _, [], by rw [h.2, List.append_nil], fun _ => hts⟩
  · obtain ⟨rfl, rfl⟩ := Prod.mk.inj heat
    rw [if_neg Bool.false_ne_true, yields_bind] at h
    obtain ⟨_, b₁, hreport, h⟩ := h
    obtain ⟨rfl, rfl⟩ := yields_pure.mp h
    obtain rfl := (Prod.mk.inj (yields_lift.mp hreport)).2
    exact ⟨rfl, _, _, rfl, by simp⟩

lemma exists_result {frame : Frame} {dest? : Option (Backed × Code × Token)} {b b' : Workbench}
    {code : Code} (h : Yields (fieldResult frame dest?) b code b') :
    ∃ p : Result frame dest? b b', p.code = code := by
  simp only [fieldResult, yields_bind, yields_get, yields_set] at h
  obtain ⟨b₀, b₁, ⟨rfl, rfl⟩, -, b₂, rfl, h⟩ := h
  split at h
  · simp at h
  · rename_i dest address assign
    rw [yields_bind] at h
    obtain ⟨temp, b₃, htemp, h⟩ := h
    rw [yields_bind] at h
    obtain ⟨store, b₄, hstore, h⟩ := h
    rw [yields_lift] at htemp hstore
    obtain ⟨rfl, ts, ds, hb', -⟩ := eat_or_report h
    obtain ⟨⟨ds', rfl, -⟩, hstores⟩ := stores_of_storeResult hstore
    have hgrows : b₃.Grows b' := by
      subst hb'
      exact ⟨.refl _, List.prefix_refl _, Nat.le_refl _,
        (List.prefix_append _ _).trans (List.prefix_append _ _)⟩
    refine ⟨⟨dest, address, assign, temp, store, b₃, rfl, htemp,
      hstores.imp_right (And.imp_right fun hfault hc => hfault ?_), hgrows, by rw [hb'],
      by rw [hb']⟩, rfl⟩
    exact fun d hd => hc d (by rw [hb']; exact List.mem_append_left _ hd)

section Arguments

variable {scope : Scope} {frame : Frame} {slot : Nat} {b b' : Workbench} {a : Argument}
  {args : List Argument}

lemma Argument.Lowers.takes (h : a.Lowers scope b b') (hb : b.Sane) : ∃ b₁ b₂ : Workbench,
    Yields (reference scope .source) b (a.source, a.code) b₁ ∧ b₁.Grows b₂ ∧ b₂.Sane ∧
      b₂.scratch = b₁.scratch ∧ b₂.globals = b₁.globals ∧ ∃ b₃, Takes b₂ a.temp b₃ ∧ b' = { b₃ with
        scratch := a.source.cells.foldl ScratchPool.release (b₃.scratch.release a.temp) } := by
  obtain @⟨b₁, b₂, ds, hread, hsource, hcheck, htemp⟩ := h
  obtain ⟨hsane, hg⟩ := ((Condition.advances_checkBounds _ _).of_on hcheck).keeps
    ((careful_reference scope .source).grows hb hsource).1
  have htakes := takes_allocScratch hsane
  rw [htemp] at htakes
  exact ⟨b₁, _, hsource, hg, hsane, rfl, rfl, b₂, htakes, rfl⟩

lemma Argument.Lowers.advances (h : a.Lowers scope b b') : b.Advances false b' := by
  obtain @⟨b₁, b₂, ds, hread, hsource, hcheck, htemp⟩ := h
  exact ((careful_reference scope .source).of_yields hsource).trans
    (((Condition.advances_checkBounds _ _).of_on hcheck).trans
      ((advances_allocScratch.of_on htemp).trans (Workbench.advances_pool (by simp))))

lemma Argument.Lowers.grows (h : a.Lowers scope b b') (hb : b.Sane) : b'.Sane ∧ b.Grows b' :=
  h.advances.keeps hb

lemma Argument.Lowers.lowered (h : a.Lowers scope b b') (hb : b.Sane) :
    scope.Lowered b'.scratch.addresses (a.source, a.code) ∧ a.temp ∈ b'.scratch.addresses := by
  obtain ⟨b₁, b₂, hsource, hg₁, -, -, -, b₃, htakes, rfl⟩ := h.takes hb
  have hlowered := lowered_reference scope [] .source b _ b₁ hb (List.nil_subset _) hsource
  have hmem := htakes.mem
  have hsub := (hg₁.trans htakes.grows).scratch.subset
  constructor
  · refine hlowered.mono ?_
    simpa using hsub
  · simpa using hmem

lemma Arguments.advances (h : Arguments scope frame slot b args b') : b.Advances false b' := by
  induction h with
  | @nil slot b next => exact advances_pop b
  | @skip slot b b' args next rest ih => exact (advances_pop b).trans ih
  | cons next hslot hparam harray lowers rest ih => exact lowers.advances.trans ih

lemma Arguments.grows (h : Arguments scope frame slot b args b') (hb : b.Sane) :
    b'.Sane ∧ b.Grows b' := h.advances.keeps hb

lemma Arguments.lowered (h : Arguments scope frame slot b args b') (hb : b.Sane) : ∀ a ∈ args,
    scope.Lowered b'.scratch.addresses (a.source, a.code) ∧ a.temp ∈ b'.scratch.addresses := by
  induction h with
  | nil => simp
  | skip next rest ih => exact ih (hb.congr rfl rfl)
  | cons next hslot hparam harray lowers rest ih =>
    obtain ⟨hs₁, -⟩ := lowers.grows hb
    obtain ⟨-, hg⟩ := rest.grows hs₁
    rintro a (_ | ⟨_, hmem⟩)
    · obtain ⟨hlowered, htemp⟩ := lowers.lowered hb
      exact ⟨hlowered.mono hg.scratch.subset, hg.scratch.subset htemp⟩
    · exact ih hs₁ a hmem

end Arguments

lemma destination_cases {scope : Scope} {call : CallSite} {b b' : Workbench}
    {dest? : Option (Backed × Code × Token)} (h : Yields (destination scope call) b dest? b') :
    (call.pointerName? = none ∧ dest? = none ∧ b' = b) ∨
      ∃ dest code b₁, call.pointerName?.isSome = true ∧
        Yields (reference scope .destination) b (dest, code) b₁ ∧
        dest? = some (dest, code, Tokens.peek b₁.tokens) ∧
        b' = { b₁ with tokens := Tokens.rest b₁.tokens } := by
  unfold destination at h
  split at h
  · rename_i hnone
    obtain ⟨rfl, rfl⟩ := yields_pure.mp h
    exact .inl ⟨hnone, rfl, rfl⟩
  · rename_i hsome
    simp only [yields_bind, yields_lift, on_pop, yields_pure, Prod.exists] at h
    obtain ⟨dest, code, b₁, hdest, assign, b₂, hpop, rfl, rfl⟩ := h
    obtain ⟨rfl, rfl⟩ := Prod.mk.inj hpop
    exact .inr ⟨dest, code, b₁, by rw [hsome]; rfl, hdest, rfl, rfl⟩

lemma framePointer_cases {call : CallSite} {dest? : Option (Backed × Code × Token)}
    {b b' : Workbench} {pointer : Backed} {address : Code}
    (h : (framePointer call dest?).on b = ((pointer, address), b')) :
    (∃ assign, dest? = some (pointer, address, assign) ∧ call.returnsPointer = true ∧ b' = b) ∨
      ((dest? = none ∨ call.returnsPointer = false) ∧ address = [] ∧
        ∃ t, allocScratch.on b = (t, b') ∧ pointer = .scratch t) := by
  unfold framePointer at h
  split at h
  · rename_i dest code assign hreturns
    obtain ⟨hpair, rfl⟩ := Prod.mk.inj h
    obtain ⟨rfl, rfl⟩ := Prod.mk.inj hpair
    exact .inl ⟨assign, rfl, hreturns, rfl⟩
  · rename_i hother
    obtain ⟨hpair, rfl⟩ := Prod.mk.inj h
    obtain ⟨rfl, rfl⟩ := Prod.mk.inj hpair
    refine .inr ⟨or_iff_not_imp_left.mpr fun hdest => ?_, rfl, _, rfl, rfl⟩
    obtain ⟨⟨dest, code, assign⟩, hdest⟩ := Option.ne_none_iff_exists'.mp hdest
    by_contra hreturns
    exact hother dest code assign hdest (by simpa using hreturns)

namespace Lowering

variable {scope : Scope} {call : CallSite} {b b' : Workbench} (p : Lowering scope call b b')

lemma advances_named : b.Advances false p.named :=
  (advances_pop b).trans ((careful_destination scope call).of_yields p.yields_destination)

lemma advances_placed : p.named.Advances false p.placed :=
  (advances_pop p.named).trans ((advances_framePointer call p.dest?).of_on p.on_framePointer)

lemma advances_opened : p.making.Advances false p.opened :=
  (Workbench.advances_pool (by simp)).trans ((careful_expect "(").of_yields p.yields_expect)

lemma advances_toOpened : b.Advances false p.opened :=
  (p.advances_named.trans p.advances_placed).trans
    ((advances_allocScratch.of_on p.on_allocScratch).trans p.advances_opened)

lemma advances_entered : p.closed.Advances true (entered p.pointer p.closed) :=
  (advances_takeId p.closed).trans ((Workbench.advances_pool (by simp)).trans (advances_pop _))

lemma result_cases : (p.result = [] ∧ b' = entered p.pointer p.closed) ∨
    ∃ q : Result p.frame p.dest? (entered p.pointer p.closed) b', q.code = p.result := by
  have h := p.finishes
  split at h
  · exact .inr (exists_result h)
  · exact .inl h

lemma advances_left : (entered p.pointer p.closed).Advances false b' := by
  have h := p.finishes
  split at h
  · exact (careful_fieldResult p.frame p.dest?).of_yields h
  · have hleft : ∀ b₁, b₁ = entered p.pointer p.closed →
        (entered p.pointer p.closed).Advances false b₁ := by
      rintro b₁ rfl
      exact .refl _
    exact hleft b' h.2

section

variable (hb : b.Sane)
include hb

lemma grows_named : p.named.Sane ∧ b.Grows p.named := p.advances_named.keeps hb

lemma grows_placed : p.placed.Sane ∧ p.named.Grows p.placed :=
  p.advances_placed.keeps (p.grows_named hb).1

lemma takes_temp : Takes p.placed p.temp p.making := by
  have htakes := takes_allocScratch (p.grows_placed hb).1
  rwa [p.on_allocScratch] at htakes

lemma grows_opened : p.opened.Sane ∧ p.making.Grows p.opened :=
  p.advances_opened.keeps (p.takes_temp hb).sane

lemma grows_toOpened : b.Grows p.opened := (p.advances_toOpened.keeps hb).2

lemma grows_closed : p.closed.Sane ∧ p.opened.Grows p.closed :=
  p.arguments.grows (p.grows_opened hb).1

lemma grows_entered :
    (entered p.pointer p.closed).Sane ∧ p.closed.Grows (entered p.pointer p.closed) :=
  p.advances_entered.keeps (p.grows_closed hb).1

lemma grows_left : b'.Sane ∧ (entered p.pointer p.closed).Grows b' :=
  p.advances_left.keeps (p.grows_entered hb).1

lemma scratch_subset : p.named.scratch.addresses ⊆ p.placed.scratch.addresses ∧
    p.placed.scratch.addresses ⊆ p.making.scratch.addresses ∧
    p.making.scratch.addresses ⊆ p.closed.scratch.addresses ∧
    p.closed.scratch.addresses ⊆ b'.scratch.addresses :=
  ⟨(p.grows_placed hb).2.scratch.subset, (p.takes_temp hb).grows.scratch.subset,
    ((p.grows_opened hb).2.trans (p.grows_closed hb).2).scratch.subset,
    ((p.grows_entered hb).2.trans (p.grows_left hb).2).scratch.subset⟩

lemma lowered_dest {dest : Backed} {address : Code} {assign : Token}
    (h : p.dest? = some (dest, address, assign)) :
    scope.Lowered p.named.scratch.addresses (dest, address) := by
  rcases destination_cases p.yields_destination with ⟨-, hnone, -⟩ |
    ⟨dest', address', b₁, -, hdest, hsome, hnamed⟩
  · simp [hnone] at h
  · rw [hsome] at h
    obtain ⟨rfl, rfl, -⟩ : dest' = dest ∧ address' = address ∧ _ := by simpa using h
    rw [hnamed]
    exact lowered_reference scope [] .destination { b with tokens := Tokens.rest b.tokens } _ b₁
      (hb.congr rfl rfl) (List.nil_subset _) hdest

lemma lowered_pointer : scope.Lowered p.placed.scratch.addresses (p.pointer, p.address) := by
  have hnamed := p.grows_named hb
  rcases framePointer_cases p.on_framePointer with ⟨assign, hdest, -, hplaced⟩ |
    ⟨-, haddress, t, htemp, hpointer⟩
  · exact (p.lowered_dest hb hdest).mono (p.scratch_subset hb).1
  · have hb₀ : Workbench.Sane { p.named with tokens := Tokens.rest p.named.tokens } :=
      hnamed.1.congr rfl rfl
    have htakes := takes_allocScratch hb₀
    rw [htemp] at htakes
    rw [haddress, hpointer]
    refine ⟨Operand.known_cellDest t, ?_, Scope.plain_nil⟩
    intro u hu
    obtain rfl := List.mem_singleton.mp hu
    exact htakes.mem

lemma lowered_args : ∀ a ∈ p.args, scope.Lowered p.closed.scratch.addresses (a.source, a.code) ∧
    a.temp ∈ p.closed.scratch.addresses := p.arguments.lowered (p.grows_opened hb).1

lemma nextId_le : b.nextId ≤ p.closed.nextId ∧ p.closed.nextId < b'.nextId := by
  have hbefore := (p.grows_toOpened hb).trans (p.grows_closed hb).2
  exact ⟨hbefore.nextId, (Nat.lt_succ_self _).trans_le (p.grows_left hb).2.nextId⟩

end

/-! #### Labels and symbols -/

def Uses (frame : Frame) (back : Label) : Symbol → Prop
  | .cell name => name = frame.name ∨ name = callStackName
  | .slot _ _ => True
  | .label l => l = back ∨ l = .begin frame.block

/-- Code whose symbols the scope offers, or which a call names itself. -/
def Refers (scope : Scope) (frame : Frame) (back : Label) (code : Code) : Prop :=
  ∀ ref ∈ Code.refs code, scope.Offers ref.symbol ∨ Uses frame back ref.symbol

section

variable {frame : Frame} {back : Label} {pool : List Nat} {code code' : Code} {pointer : Backed}

lemma refers_append : Refers scope frame back (code ++ code') ↔
    Refers scope frame back code ∧ Refers scope frame back code' := by
  simp only [Refers, Code.refs_append, List.forall_mem_append]

lemma refers_of_plain (h : scope.Plain pool code) : Refers scope frame back code :=
  fun ref href => .inl (h.offers ref href)

lemma refers_makeCode (hp : pointer.IsKnown) (temp : Nat) :
    Refers scope frame back (makeCode frame pointer temp) := by
  have hdest : pointer.value.ref? = none := hp
  simp [Refers, makeCode, stackTop, callStackPointer, Frame.base, Uses, hdest]

lemma refers_stored (hp : pointer.IsKnown) {a : Argument}
    (ha : scope.Lowered pool (a.source, a.code)) :
    Refers scope frame back (a.stored frame pointer) := by
  refine refers_append.mpr ⟨refers_of_plain ha.plain, ?_⟩
  have hdest : pointer.read.value.ref? = none := hp
  have hsource : a.source.value.ref? = none := ha.known
  simp [Refers, Uses, hdest, hsource]

lemma refers_enterCode (hp : pointer.IsKnown) {name : String} (hf : frame.Sound pool name)
    (supplied : List Nat) : Refers scope frame back (enterCode frame pointer supplied back) := by
  have hread : pointer.read.value.ref? = none := hp
  have hinit : Refers scope frame back (Call.initialCode frame supplied) := by
    intro ref href
    obtain ⟨name', hmem, hsymbol⟩ := (hf.initializes_initialCode supplied).names ref href
    rw [← hf.name_eq] at hmem
    rw [hsymbol]
    exact .inr (by simpa [Uses] using hmem)
  refine refers_append.mpr ⟨refers_append.mpr ⟨?_, hinit⟩, ?_⟩
  · simp [Refers, Uses, hread, Frame.base]
  · simp [Refers, Uses, callStackPointer, Frame.base]

lemma tags_makeCode (temp : Nat) : Code.tags (makeCode frame pointer temp) = [] := rfl

lemma tags_stored {a : Argument} (ha : scope.Lowered pool (a.source, a.code)) :
    Code.tags (a.stored frame pointer) = [] := by
  rw [Argument.stored, Code.tags_append, ha.plain.tags]
  rfl

lemma tags_enterCode {name : String} (hf : frame.Sound pool name) (supplied : List Nat) :
    Code.tags (enterCode frame pointer supplied back) = [back] := by
  rw [enterCode, Code.tags_append, Code.tags_append, (hf.initializes_initialCode supplied).tags]
  rfl

end

end Lowering

section Result

variable {scope : Scope} {frame : Frame} {dest? : Option (Backed × Code × Token)} {b b' : Workbench}
  {back : Label} {pool : List Nat}

lemma Result.tags (q : Result frame dest? b b') (h : scope.Lowered pool (q.dest, q.address)) :
    Code.tags q.code = [] := by
  have hstore : Code.tags q.store = [] := by
    rcases q.stores with hstores | ⟨hstores, -⟩
    · obtain ⟨i, hi, htags, -⟩ := hstores.instruction (Operand.known_through _) h.known
      simp [hi, htags]
    · rw [hstores]
      rfl
  rw [Result.code, Code.tags_append, Code.tags_append, h.plain.tags, hstore]
  rfl

lemma Result.refers (q : Result frame dest? b b') (h : scope.Lowered pool (q.dest, q.address)) :
    Lowering.Refers scope frame back q.code := by
  have hstore : Lowering.Refers scope frame back q.store := by
    rcases q.stores with hstores | ⟨hstores, -⟩
    · obtain ⟨i, hi, -, hdest, hlhs, hrhs⟩ := hstores.instruction (Operand.known_through _) h.known
      have hrefs : i.refs = [] := Instruction.refs_eq_nil hlhs hrhs (hdest ▸ h.known)
      simp [hi, Lowering.Refers, hrefs]
    · simp [hstores, Lowering.Refers]
  refine Lowering.refers_append.mpr ⟨Lowering.refers_append.mpr
    ⟨Lowering.refers_of_plain h.plain, ?_⟩, hstore⟩
  simp [Lowering.Refers, Lowering.Uses, stackTop, callStackPointer]

end Result

namespace Lowering

variable {scope : Scope} {call : CallSite} {b b' : Workbench} (p : Lowering scope call b b')

lemma tags_code (hb : b.Sane) {pool : List Nat} {name : String} (hf : p.frame.Sound pool name) :
    Code.tags p.code = [p.back] := by
  have hargs : Code.tags (p.args.flatMap (Argument.stored p.frame p.pointer)) = [] := by
    rw [Code.tags, List.flatMap_assoc, List.flatMap_eq_nil_iff]
    exact fun a ha => tags_stored (p.lowered_args hb a ha).1
  have hresult : Code.tags p.result = [] := by
    rcases p.result_cases with ⟨hresult, -⟩ | ⟨q, hresult⟩
    · rw [hresult]
      rfl
    · rw [← hresult]
      exact q.tags (p.lowered_dest hb q.dest?_eq)
  simp only [code, Code.tags_append, (p.lowered_pointer hb).plain.tags, tags_makeCode, hargs,
    tags_enterCode hf, hresult, List.nil_append, List.append_nil]

lemma refers_code (hb : b.Sane) {pool : List Nat} {name : String} (hf : p.frame.Sound pool name) :
    Refers scope p.frame p.back p.code := by
  have hpointer := p.lowered_pointer hb
  have hargs : Refers scope p.frame p.back
      (p.args.flatMap (Argument.stored p.frame p.pointer)) := by
    intro ref href
    obtain ⟨i, hi, hmem⟩ := Code.mem_refs.mp href
    obtain ⟨a, ha, hi⟩ := List.mem_flatMap.mp hi
    exact refers_stored hpointer.known (p.lowered_args hb a ha).1
      ref (Code.mem_refs.mpr ⟨i, hi, hmem⟩)
  have hresult : Refers scope p.frame p.back p.result := by
    rcases p.result_cases with ⟨hresult, -⟩ | ⟨q, hresult⟩
    · simp [hresult, Refers]
    · rw [← hresult]
      exact q.refers (p.lowered_dest hb q.dest?_eq)
  simp only [code, refers_append]
  exact ⟨⟨⟨⟨refers_of_plain hpointer.plain, refers_makeCode hpointer.known p.temp⟩, hargs⟩,
    refers_enterCode hpointer.known hf p.supplied⟩, hresult⟩

end Lowering

end Call
end CogolToolchain
