import CogolToolchain.Proofs.Structured.Declaration

/-!
Blocks of structured programs, and programs as a whole.

The labels of a block are put on its code while the block is closed. Where the program stands in the
end, they lead to the places where the parts of the block start, so that the code of the block
carries out the block as the interpretation does.
-/

namespace CogolToolchain
namespace Structured

open Grammar Machine Work Attempt Build Statement ScratchPool

section Machine

variable {prog : List WordInstruction} {hidden : Set Word} {R : Resolver} {k place c : Nat}

lemma Tests.flip {yes no : Nat} {truth? : Memory → Option Bool}
    (h : Tests prog hidden c k yes no fun σ => (truth? σ).map (!·)) :
    Tests prog hidden 0 k no yes truth? := by
  intro m σ v hm hv d
  obtain ⟨n, m', hleads, hm', -⟩ := h m σ (!v) hm (by simp [hv]) d
  refine ⟨n, m', ?_, hm', fun _ => Nat.zero_le n⟩
  cases v <;> exact hleads

lemma simulates_jump {target : Operand} (h0 : 0 ∈ hidden)
    (hst : R.Stands prog k [.jump target, .nop])
    (htarget : R.word target = ⟨.constant, UInt16.ofNat place⟩) (hplace : place < 65536) :
    Simulates prog hidden k place fun _ st => .done st where
  done := fun fuel s s' m hm h => by
    obtain rfl : s = s' := Outcome.done.inj h
    have hdecides : Branch.always.Decides hidden m true := rfl
    obtain ⟨m', hleads, hm'⟩ := leads_back h0 hdecides hst htarget hplace s.display
    exact ⟨2, m', hleads, hm.trans hm'⟩
  timeout := fun fuel s m _ h => by simp at h

lemma fst_loopBottom (block : Block) (condition : Code) (back : Instruction) :
    (loopBottom block condition back).1 = condition.head?.getD .nop := by
  rcases condition with _ | ⟨first, _ | ⟨second, rest⟩⟩ <;> rfl

lemma length_loopBottom (block : Block) (condition : Code) (back : Instruction) :
    (loopBottom block condition back).2.length = condition.length + 2 := by
  rcases condition with _ | ⟨first, _ | ⟨second, rest⟩⟩ <;> simp [loopBottom]

end Machine

section Blocks

variable {f s s₁ s₂ s₃ s₄ s₅ : Session} {map : Array String} {R : Resolver} {block other : Block}
  {branch : Branch} {code : Code} {p p' : ScratchPool} {truth? : Memory → Option Bool}
  {presets presets' : List Preset} {F G : Nat → State → Outcome}

lemma adds_ifThen
    (hopen : Turns s s₁ (s.program ++ (code ++ branchTo branch (.label (.finish block) 1)))
      ({ block := block } :: s.blocks))
    (hbody : Adds map R s₁ s₂ presets F)
    (hclose : Turns s₂ s₃ (Code.tagLast [.finish block] s₂.program) s.blocks)
    (hcalls₁ : s₁.calls = []) (hcalls₂ : s₂.calls = []) (hne : s₂.program ≠ [])
    (hjudges : Judges (hidden map) R p branch code p' fun σ => (truth? σ).map (!·))
    (hfits : p'.Fits (hidden map)) :
    Adds map R s s₃ presets fun fuel st =>
      match truth? st.memory with
      | none => .fault
      | some true => F fuel st
      | some false => .done st where
  grows := (hopen.grows.trans hbody.grows).trans hclose.grows
  blocks := hclose.blocks
  preamble := by rw [hclose.preamble, hbody.preamble, hopen.preamble]
  simulates := fun prog k hsmall hst => by
    rw [hclose.program] at hst
    obtain ⟨hst₂, hfinish⟩ := hst.of_tagLast hne
    have hst₁ := stands_of_grows hbody.grows hcalls₁ hcalls₂ hst₂
    rw [hopen.program, R.stands_append] at hst₁
    have hle := hst₂.length_le R hne
    have htest := (tests_branchTo hjudges hfits hst₁.2 hfinish (by omega)).flip
    have hyes := hbody.simulates prog k hsmall hst₂
    rw [hopen.program, List.length_append, ← Nat.add_assoc] at hyes
    rw [hclose.program, length_tagLast]
    exact htest.simulates hyes (simulates_refl prog _ _)

lemma adds_ifElse
    (hopen : Turns s s₁ (s.program ++ (code ++ branchTo branch (.label (.finish block) 1)))
      ({ block := block } :: s.blocks))
    (hyes : Adds map R s₁ s₂ presets F)
    (helse : Turns s₂ s₃ (Code.tagLast [.finish block] (s₂.program ++
        [(Instruction.jump (.label (.finish other) 1)).tagged (.begin other), .nop]))
      ({ block := other } :: s.blocks))
    (hno : Adds map R s₃ s₄ presets' G)
    (hclose : Turns s₄ s₅ (Code.tagLast [.finish other] s₄.program) s.blocks)
    (hcalls₁ : s₁.calls = []) (hcalls₂ : s₂.calls = []) (hcalls₃ : s₃.calls = [])
    (hcalls₄ : s₄.calls = []) (hne : s₄.program ≠ [])
    (hjudges : Judges (hidden map) R p branch code p' fun σ => (truth? σ).map (!·))
    (hfits : p'.Fits (hidden map)) :
    Adds map R s s₅ (presets ++ presets') fun fuel st =>
      match truth? st.memory with
      | none => .fault
      | some true => F fuel st
      | some false => G fuel st where
  grows := (((hopen.grows.trans hyes.grows).trans helse.grows).trans hno.grows).trans hclose.grows
  blocks := hclose.blocks
  preamble := by
    rw [hclose.preamble, hno.preamble, helse.preamble, hyes.preamble, hopen.preamble]
    simp [presetCode]
  simulates := fun prog k hsmall hst => by
    rw [hclose.program] at hst
    obtain ⟨hst₄, hend⟩ := hst.of_tagLast hne
    have hst₃ := stands_of_grows hno.grows hcalls₃ hcalls₄ hst₄
    rw [helse.program] at hst₃
    obtain ⟨hst₃, hfinish⟩ := hst₃.of_tagLast (by simp)
    obtain ⟨hst₂, hjump⟩ := R.stands_append.mp hst₃
    have hst₁ := stands_of_grows hyes.grows hcalls₁ hcalls₂ hst₂
    rw [hopen.program, R.stands_append] at hst₁
    have hle := hst₄.length_le R hne
    have hle' := hst₃.length_le R (by simp)
    have htest := (tests_branchTo hjudges hfits hst₁.2 hfinish (by omega)).flip
    have hthen := hyes.simulates prog k hsmall hst₂
    rw [hopen.program, List.length_append, ← Nat.add_assoc] at hthen
    have hover := simulates_jump hfits.zero hjump.of_tagged.1 hend (by omega)
    have hother := hno.simulates prog k hsmall hst₄
    rw [helse.program, length_tagLast] at hother
    rw [hclose.program, length_tagLast]
    refine htest.simulates ((hthen.bind hover).congr fun fuel st => ?_) hother
    cases F fuel st <;> rfl

/-- A `while` block. The condition is compiled once, for the bottom of the loop, and its first
instruction once more, for the slot of the jump that enters the loop. -/
lemma adds_whileLoop {slot : Instruction} {bottom : Code}
    (hopen : Turns s s₁
      (s.program ++ [(Instruction.jump (.label (.finish block) 0)).tagged (.begin block), slot])
      ({ block := block, trailer := bottom } :: s.blocks))
    (hbottom : loopBottom block code ((branch.jump? (.label (.begin block) 2)).getD .nop) =
      (slot, bottom))
    (hbody : Adds map R s₁ s₂ presets F) (hclose : Turns s₂ s₃ (s₂.program ++ bottom) s.blocks)
    (hcalls₁ : s₁.calls = []) (hcalls₂ : s₂.calls = [])
    (hjudges : Judges (hidden map) R p branch code p' truth?) (hfits : p'.Fits (hidden map)) :
    Adds map R s s₃ presets fun fuel => iterate (fun st => truth? st.memory) (F fuel) fuel where
  grows := (hopen.grows.trans hbody.grows).trans hclose.grows
  blocks := hclose.blocks
  preamble := by rw [hclose.preamble, hbody.preamble, hopen.preamble]
  simulates := fun prog k hsmall hst => by
    have hslot := congrArg Prod.fst hbottom
    have hlast := congrArg Prod.snd hbottom
    rw [fst_loopBottom] at hslot
    dsimp only at hslot hlast
    rw [hclose.program, R.stands_append, ← hlast] at hst
    obtain ⟨hst₂, hst₃⟩ := hst
    obtain ⟨hst₃, hfinish⟩ := stands_loopBottom hst₃
    have hst₁ := stands_of_grows hbody.grows hcalls₁ hcalls₂ hst₂
    rw [hopen.program, R.stands_append, ← hslot] at hst₁
    obtain ⟨hentry, hbegin⟩ := hst₁.2.of_tagged
    have hround := hbody.simulates prog k hsmall hst₂
    have hlength : s₁.program.length = s.program.length + 2 := by rw [hopen.program]; simp
    have htarget : R.word (.label (.begin block) 2) =
        ⟨.constant, UInt16.ofNat (k + s₁.program.length)⟩ := by
      rw [R.word_label hbegin, hlength, ← Word.ofInt_natCast]
      congr 2
    have hle := hst₃.length_le R (by simp)
    have hle' := hentry.length_le R (by simp)
    have hplace : k + s₁.program.length < 65536 := by
      rw [hlength]
      simp only [List.length_cons, List.length_nil] at hle'
      omega
    have hfirst := tests_entry hjudges hfits hentry hfinish hst₃ hsmall htarget hplace
    have hagain := tests_bottom hjudges hfits hst₃ htarget hplace
    rw [hclose.program, List.length_append, ← hlast, length_loopBottom, ← Nat.add_assoc]
    exact hfirst.simulates_iterate hagain hround

lemma adds_doWhile
    (hopen : Turns s s₁ (Code.tagLast [.begin block] s.program) ({ block := block } :: s.blocks))
    (hbody : Adds map R s₁ s₂ presets F)
    (hclose : Turns s₂ s₃ (Code.tagLast [.finish block]
      (s₂.program ++ (code ++ branchTo branch (.label (.begin block) 1)))) s.blocks)
    (hcalls₁ : s₁.calls = []) (hcalls₂ : s₂.calls = []) (hne : s.program ≠ [])
    (hne₂ : s₂.program ≠ []) (hjudges : Judges (hidden map) R p branch code p' truth?)
    (hfits : p'.Fits (hidden map)) :
    Adds map R s s₃ presets fun fuel st =>
      (F fuel st).bind (iterate (fun st => truth? st.memory) (F fuel) fuel) where
  grows := (hopen.grows.trans hbody.grows).trans hclose.grows
  blocks := hclose.blocks
  preamble := by rw [hclose.preamble, hbody.preamble, hopen.preamble]
  simulates := fun prog k hsmall hst => by
    rw [hclose.program] at hst
    obtain ⟨hst₂, hst₃⟩ := R.stands_append.mp (hst.of_tagLast (by simp [hne₂])).1
    have hst₁ := stands_of_grows hbody.grows hcalls₁ hcalls₂ hst₂
    rw [hopen.program] at hst₁
    obtain ⟨hst₀, hbegin⟩ := hst₁.of_tagLast hne
    have hle := hst₀.length_le R hne
    have hround := hbody.simulates prog k hsmall hst₂
    rw [hopen.program, length_tagLast] at hround
    have htest := tests_branchTo hjudges hfits hst₃ hbegin (by omega)
    rw [hclose.program, length_tagLast, List.length_append, ← Nat.add_assoc]
    exact hround.bind (htest.simulates_iterate htest hround)

end Blocks

/-! ### Programs -/

section Body

variable {f s s' : Session} {map : Array String} {R : Resolver} {t t' : SymbolTable}
  {ts : List Token} {presets : List Preset} {F G : Nat → State → Outcome}

lemma Adds.congr (h : Adds map R s s' presets F) (hFG : ∀ fuel st, G fuel st = F fuel st) :
    Adds map R s s' presets G :=
  ⟨h.grows, h.blocks, h.preamble, fun prog k hsmall hst =>
    (h.simulates prog k hsmall hst).congr hFG⟩

lemma table_eq {body : Body} (h : body.bind? map t = some (t', presets)) :
    body.table map t = t' := by
  rw [Body.table, h]
  rfl

lemma exists_trans {t₁ : SymbolTable} {ts₁ : List Token} {p q : List Preset}
    (h : ∃ s₁, Reaches f t₁ ts₁ s₁ ∧ Adds map R s s₁ p F)
    (hrest : ∀ s₁, Reaches f t₁ ts₁ s₁ → ∃ s₂, Reaches f t ts s₂ ∧ Adds map R s₁ s₂ q G) :
    ∃ s₂, Reaches f t ts s₂ ∧
      Adds map R s s₂ (p ++ q) fun fuel st => (F fuel st).bind (G fuel) := by
  obtain ⟨s₁, hreach, hadds⟩ := h
  obtain ⟨s₂, hreach', hadds'⟩ := hrest s₁ hreach
  exact ⟨s₂, hreach', hadds.trans hadds' hreach.calls hreach'.calls⟩

section Exists

variable {t₁ t₂ : SymbolTable} {ts₁ ts₂ : List Token} {guard : Guard} {suffix suffix' : List Token}
  {p q : List Preset}

lemma exists_ifThen (hf : Ends f map R) (hguard : guard.IsValid) (hsuffix : "\x7b" ∉ suffix)
    (h : Reaches f t ("if" :: (guard.tokens ++ (opening suffix ++ ts₁))) s)
    (hyes : ∀ s₁, Reaches f t ts₁ s₁ →
      ∃ s₂, Reaches f t₁ ("\x7d" :: ts) s₂ ∧ Adds map R s₁ s₂ p F)
    (helse : Tokens.peek ts ≠ "else") :
    ∃ s', Reaches f t₁ ts s' ∧ Adds map R s s' p fun fuel st =>
      match guard.eval? map t st.memory with
      | none => .fault
      | some true => F fuel st
      | some false => .done st := by
  obtain ⟨s₁, block, skip, code, p₁, p₂, h₁, hopen, hkind, hfits, hjudges⟩ :=
    exists_openIf hf h hguard hsuffix
  obtain ⟨s₂, h₂, hadds⟩ := hyes s₁ h₁
  obtain ⟨s₃, h₃, hclose⟩ := exists_closeIf h₂ (hadds.blocks.trans hopen.blocks)
    (.inr ⟨hkind, helse⟩)
  exact ⟨s₃, h₃, adds_ifThen hopen hadds hclose h₁.calls h₂.calls h₂.program hjudges hfits⟩

lemma exists_ifElse (hf : Ends f map R) (hguard : guard.IsValid) (hsuffix : "\x7b" ∉ suffix)
    (hsuffix' : "\x7b" ∉ suffix')
    (h : Reaches f t ("if" :: (guard.tokens ++ (opening suffix ++ ts₁))) s)
    (hyes : ∀ s₁, Reaches f t ts₁ s₁ → ∃ s₂,
      Reaches f t₁ ("\x7d" :: "else" :: (opening suffix' ++ ts₂)) s₂ ∧ Adds map R s₁ s₂ p F)
    (hno : ∀ s₃, Reaches f t₁ ts₂ s₃ →
      ∃ s₄, Reaches f t₂ ("\x7d" :: ts) s₄ ∧ Adds map R s₃ s₄ q G) :
    ∃ s', Reaches f t₂ ts s' ∧ Adds map R s s' (p ++ q) fun fuel st =>
      match guard.eval? map t st.memory with
      | none => .fault
      | some true => F fuel st
      | some false => G fuel st := by
  obtain ⟨s₁, block, skip, code, p₁, p₂, h₁, hopen, hkind, hfits, hjudges⟩ :=
    exists_openIf hf h hguard hsuffix
  obtain ⟨s₂, h₂, hadds⟩ := hyes s₁ h₁
  obtain ⟨s₃, other, h₃, hkind', helse⟩ :=
    exists_openElse h₂ hsuffix' (hadds.blocks.trans hopen.blocks) hkind
  obtain ⟨s₄, h₄, hadds'⟩ := hno s₃ h₃
  obtain ⟨s₅, h₅, hclose⟩ := exists_closeIf h₄ (hadds'.blocks.trans helse.blocks) (.inl hkind')
  exact ⟨s₅, h₅, adds_ifElse hopen hadds helse hadds' hclose h₁.calls h₂.calls h₃.calls h₄.calls
    h₄.program hjudges hfits⟩

lemma exists_whileLoop (hf : Ends f map R) (hguard : guard.IsValid) (hsuffix : "\x7b" ∉ suffix)
    (h : Reaches f t ("while" :: (guard.tokens ++ (opening suffix ++ ts₁))) s)
    (hbody : ∀ s₁, Reaches f t ts₁ s₁ →
      ∃ s₂, Reaches f t₁ ("\x7d" :: ts) s₂ ∧ Adds map R s₁ s₂ p F) :
    ∃ s', Reaches f t₁ ts s' ∧ Adds map R s s' p fun fuel =>
      iterate (fun st => guard.eval? map t st.memory) (F fuel) fuel := by
  obtain ⟨s₁, block, branch, code, slot, bottom, p₁, p₂, h₁, hopen, hkind, hfits,
    hbottom, hjudges⟩ := exists_openWhile hf h hguard hsuffix
  obtain ⟨s₂, h₂, hadds⟩ := hbody s₁ h₁
  obtain ⟨s₃, h₃, hclose⟩ := exists_closeWhile h₂ (hadds.blocks.trans hopen.blocks) hkind
  exact ⟨s₃, h₃, adds_whileLoop hopen hbottom hadds hclose h₁.calls h₂.calls hjudges hfits⟩

lemma exists_doWhile (hf : Ends f map R) (hguard : guard.IsValid) (hsuffix : "\x7b" ∉ suffix)
    (h : Reaches f t ("do" :: (opening suffix ++ ts₁)) s)
    (hbody : ∀ s₁, Reaches f t ts₁ s₁ → ∃ s₂,
      Reaches f t₁ ("\x7d" :: "while" :: (guard.tokens ++ ";" :: ts)) s₂ ∧ Adds map R s₁ s₂ p F) :
    ∃ s', Reaches f t₁ ts s' ∧ Adds map R s s' p fun fuel st =>
      (F fuel st).bind (iterate (fun st => guard.eval? map t₁ st.memory) (F fuel) fuel) := by
  obtain ⟨s₁, block, h₁, hopen, hkind⟩ := exists_openDo h hsuffix
  obtain ⟨s₂, h₂, hadds⟩ := hbody s₁ h₁
  obtain ⟨s₃, branch, code, p₁, p₂, h₃, hfits, hclose, hjudges⟩ :=
    exists_closeDo hf h₂ hguard (hadds.blocks.trans hopen.blocks) hkind
  exact ⟨s₃, h₃, adds_doWhile hopen hadds hclose h₁.calls h₂.calls h.program
    h₂.program hjudges hfits⟩

end Exists

/-- The code of a structured program does what the program means, wherever the program goes on. -/
theorem exists_body (hf : Ends f map R) (body : Body) (hvalid : body.IsValid)
    (hreach : Reaches f t (body.tokens ++ ts) s) (helse : Tokens.peek ts ≠ "else")
    (hbind : body.bind? map t = some (t', presets)) :
    ∃ s', Reaches f t' ts s' ∧ Adds map R s s' presets fun fuel => body.exec map fuel t := by
  induction body generalizing s t t' ts presets with
  | done =>
    obtain ⟨rfl, rfl⟩ := Prod.mk.inj (Option.some.inj hbind)
    exact ⟨s, hreach, .refl s, rfl, by simp [presetCode], fun prog k _ _ => simulates_refl prog _ _⟩
  | empty rest ih =>
    obtain ⟨s', h', hadds⟩ := exists_trans (exists_empty hreach) fun s₁ h₁ =>
      ih hvalid h₁ helse hbind
    exact ⟨s', h', hadds⟩
  | declare d rest ih =>
    obtain ⟨t₁, p, q, hd, hrest, rfl⟩ := chain_eq_some.mp hbind
    rw [Body.tokens, List.append_assoc] at hreach
    obtain ⟨s', h', hadds⟩ := exists_trans (exists_declare hf hreach hvalid.1 hd) fun s₁ h₁ =>
      ih hvalid.2 h₁ helse hrest
    refine ⟨s', h', hadds.congr fun fuel st => ?_⟩
    have hone : (Body.declare d .done).bind? map t = some (t₁, p ++ []) :=
      chain_eq_some.mpr ⟨t₁, p, [], hd, rfl, rfl⟩
    rw [Body.exec, table_eq hone]
    rfl
  | assign a rest ih =>
    rw [Body.tokens, List.append_assoc] at hreach
    exact exists_trans (exists_assign hf hreach hvalid.1) fun s₁ h₁ => ih hvalid.2 h₁ helse hbind
  | ifThen guard suffix yes rest ihyes ihrest =>
    obtain ⟨t₁, p, q, hyes, hrest, rfl⟩ := chain_eq_some.mp hbind
    obtain ⟨hguard, hsuffix, hyesvalid, hrestvalid, hnext⟩ := hvalid
    replace hreach : Reaches f t ("if" :: (guard.tokens ++ (opening suffix ++
        (yes.tokens ++ "\x7d" :: (rest.tokens ++ ts))))) s := by
      simpa [Body.tokens] using hreach
    have hafter : Tokens.peek (rest.tokens ++ ts) ≠ "else" := by
      cases htokens : rest.tokens with
      | nil => exact helse
      | cons token _ => exact fun heq => hnext (htokens ▸ heq)
    obtain ⟨s', h', hadds⟩ := exists_trans
      (exists_ifThen hf hguard hsuffix hreach
        (fun s₁ h₁ => ihyes hyesvalid h₁ (by simp [Tokens.peek]) hyes) hafter)
      fun s₁ h₁ => ihrest hrestvalid h₁ helse hrest
    refine ⟨s', h', hadds.congr fun fuel st => ?_⟩
    rw [Body.exec, table_eq hyes]
    rcases guard.eval? map t st.memory with _ | _ | _ <;> rfl
  | ifElse guard suffix yes suffix' no rest ihyes ihno ihrest =>
    obtain ⟨t₂, _, l, hblock, hrest, rfl⟩ := chain_eq_some.mp hbind
    obtain ⟨t₁, p, q, hyes, hno, rfl⟩ := chain_eq_some.mp hblock
    obtain ⟨hguard, hsuffix, hyesvalid, hsuffix', hnovalid, hrestvalid⟩ := hvalid
    replace hreach : Reaches f t ("if" :: (guard.tokens ++ (opening suffix ++
        (yes.tokens ++ "\x7d" :: "else" :: (opening suffix' ++
          (no.tokens ++ "\x7d" :: (rest.tokens ++ ts))))))) s := by
      simpa [Body.tokens] using hreach
    obtain ⟨s', h', hadds⟩ := exists_trans
      (exists_ifElse hf hguard hsuffix hsuffix' hreach
        (fun s₁ h₁ => ihyes hyesvalid h₁ (by simp [Tokens.peek]) hyes)
        (fun s₃ h₃ => ihno hnovalid h₃ (by simp [Tokens.peek]) hno))
      fun s₁ h₁ => ihrest hrestvalid h₁ helse hrest
    refine ⟨s', h', hadds.congr fun fuel st => ?_⟩
    rw [Body.exec, table_eq hyes, table_eq hno]
    rcases guard.eval? map t st.memory with _ | _ | _ <;> rfl
  | whileLoop guard suffix body rest ihbody ihrest =>
    obtain ⟨t₁, p, q, hbody, hrest, rfl⟩ := chain_eq_some.mp hbind
    obtain ⟨hguard, hsuffix, hbodyvalid, hrestvalid⟩ := hvalid
    replace hreach : Reaches f t ("while" :: (guard.tokens ++ (opening suffix ++
        (body.tokens ++ "\x7d" :: (rest.tokens ++ ts))))) s := by
      simpa [Body.tokens] using hreach
    obtain ⟨s', h', hadds⟩ := exists_trans
      (exists_whileLoop hf hguard hsuffix hreach
        (fun s₁ h₁ => ihbody hbodyvalid h₁ (by simp [Tokens.peek]) hbody))
      fun s₁ h₁ => ihrest hrestvalid h₁ helse hrest
    refine ⟨s', h', hadds.congr fun fuel st => ?_⟩
    rw [Body.exec, table_eq hbody]
  | doWhile suffix body guard rest ihbody ihrest =>
    obtain ⟨t₁, p, q, hbody, hrest, rfl⟩ := chain_eq_some.mp hbind
    obtain ⟨hsuffix, hbodyvalid, hguard, hrestvalid⟩ := hvalid
    replace hreach : Reaches f t ("do" :: (opening suffix ++
        (body.tokens ++ "\x7d" :: "while" :: (guard.tokens ++ ";" :: (rest.tokens ++ ts))))) s := by
      simpa [Body.tokens] using hreach
    obtain ⟨s', h', hadds⟩ := exists_trans
      (exists_doWhile hf hguard hsuffix hreach
        (fun s₁ h₁ => ihbody hbodyvalid h₁ (by simp [Tokens.peek]) hbody))
      fun s₁ h₁ => ihrest hrestvalid h₁ helse hrest
    refine ⟨s', h', hadds.congr fun fuel st => ?_⟩
    rw [Body.exec, table_eq hbody]

end Body
end Structured
end CogolToolchain
