import CogolToolchain.Proofs.Compile.Expansion

/-!
Delay slots and landing places.

In orderly code every jump is followed by an instruction that is no jump, and control never goes on
in a delay slot. Jumps go to labels, and each kind of label is used with few offsets
(`Label.offsets`), so whether control may go on there is settled where the label is put. Orderly
code is closed under concatenation (`Code.Orderly.append`); what remains is to look at the pieces
that statements and calls are made of.
-/

namespace CogolToolchain

open Work Attempt

/-! ### Labels and jumps -/

/-- How far from the instruction that carries the label control may go on. -/
def Label.offsets : Label → List Int
  | begin block =>
    match block.kind with
    | .whileLoop => [2]
    | .doWhile | .sub => [1]
    | .ifThen | .elseThen => []
  | finish block => if block.kind = .whileLoop then [0] else [1]
  | callReturn _ _ => [1]
  | multiplyEnd _ => [-1, -2]
  | preloadCallStack => []

/-- Control goes on right after the instruction that carries the label, if at all. -/
def Label.Following (l : Label) : Prop := ∀ offset ∈ l.offsets, offset = 1

lemma Label.following_finish {block : Block} (h : block.kind ≠ .whileLoop) :
    (Label.finish block).Following := by
  simp [Following, offsets, h]

lemma Label.following_begin {block : Block} (h : block.kind ≠ .whileLoop) :
    (Label.begin block).Following := by
  intro offset hoffset
  unfold offsets at hoffset
  cases hkind : block.kind <;> simp_all

namespace Instruction

def Calm (i : Instruction) : Prop := i.writesProgramCounter = false

/-- Labels are used with their offsets, symbols in destinations are variables other than the program
counter, and what is stored at the start of a frame is the place that a call returns to. -/
structure Proper (i : Instruction) : Prop where
  labels : ∀ l offset, ⟨.label l, offset⟩ ∈ i.refs → offset ∈ l.offsets
  dest : ∀ ref, i.dest.value = .symbolic ref →
    ∃ name, ref = ⟨.cell name, 0⟩ ∧ name ≠ programCounterName
  back : ∀ name, i.dest = .named .address name →
    name = callStackName ∨ ∃ id, i.rhs = .label (.callReturn id name) 1

section

variable {i : Instruction}

lemma calm_of_dest (h : i.dest.isZero = false) : i.Calm := by simp [Calm, writesProgramCounter, h]

lemma calm_nop : nop.Calm := rfl

lemma Proper.of_known (hd : i.dest.IsKnown)
    (hl : ∀ l offset, ⟨.label l, offset⟩ ∈ i.refs → offset ∈ l.offsets) : i.Proper where
  labels := hl
  dest := by
    intro ref href
    rw [Operand.IsKnown, href] at hd
    simp [Value.ref?] at hd
  back := by
    intro name hname
    rw [Operand.IsKnown, hname] at hd
    simp at hd

lemma Proper.of_named {name : String} (hd : i.dest = .named .constant name)
    (hname : name ≠ programCounterName)
    (hl : ∀ l offset, ⟨.label l, offset⟩ ∈ i.refs → offset ∈ l.offsets) : i.Proper where
  labels := hl
  dest := by
    intro ref href
    rw [hd] at href
    obtain rfl := Value.symbolic.inj href
    exact ⟨name, rfl, hname⟩
  back := by
    intro name' hname'
    rw [hd] at hname'
    simp [Operand.named] at hname'

lemma proper_nop : nop.Proper := .of_known rfl (by simp)

end
end Instruction

lemma Operand.isZero_named (mode : Mode) (name : String) (offset : Int) :
    (Operand.named mode name offset).isZero = false := by
  cases mode <;> rfl

lemma Operand.isZero_cell (t : Nat) : (Operand.cell t).isZero = false := rfl

lemma Operand.isZero_known {n : Int} (h : n ≠ 0) : isZero ⟨.constant, .known n⟩ = false := by
  simp [isZero, constant?, Value.number?, h]

/-! ### Orderly code -/

namespace Code

/-- Control may go on at the place: it is in the code or right after it, and no delay slot. -/
def Lands (p : Code) (v : Int) : Prop :=
  ∃ n : Nat, v = n ∧ n ≤ p.length ∧ ∀ k i, n = k + 1 → p[k]? = some i → i.Calm

def ReturnsAt (returns : Code → Prop) (p : Code) (k : Nat) : Prop :=
  ∃ c x y, returns c ∧ p.map Instruction.untagged = x ++ c ++ y ∧ k = x.length + 2

/-- Every jump is followed by an instruction that is no jump, it goes to a label or returns, and the
places that the labels stand for are no delay slots. -/
structure Orderly (returns : Code → Prop) (p : Code) : Prop where
  slots : ∀ (k : Nat) i, p[k]? = some i → i.writesProgramCounter = true →
    ∃ j, p[k + 1]? = some j ∧ j.Calm
  jumps : ∀ (k : Nat) i, p[k]? = some i → i.writesProgramCounter = true →
    (∃ l offset, i.rhs = .label l offset) ∨ p.ReturnsAt returns k
  proper : ∀ i ∈ p, i.Proper
  lands : ∀ (k : Nat) i l offset, p[k]? = some i → l ∈ i.tags → offset ∈ l.offsets →
    p.Lands (k + offset)

section

variable {returns returns' : Code → Prop} {p q : Code} {i w : Instruction}

lemma orderly_nil (returns : Code → Prop) : Orderly returns [] := by
  refine ⟨?_, ?_, ?_, ?_⟩ <;> simp

lemma Orderly.mono (h : p.Orderly returns) (hr : ∀ c, returns c → returns' c) :
    p.Orderly returns' := by
  refine ⟨h.slots, fun k i hk hi => ?_, h.proper, h.lands⟩
  rcases h.jumps k i hk hi with hlabel | ⟨c, x, y, hc, hsplit, hk⟩
  · exact .inl hlabel
  · exact .inr ⟨c, x, y, hr c hc, hsplit, hk⟩

lemma Orderly.calm_last (h : p.Orderly returns) {k : Nat} (hk : p.length = k + 1)
    (hi : p[k]? = some i) : i.Calm := by
  by_contra hjump
  obtain ⟨j, hj, -⟩ := h.slots k i hi (by simpa [Instruction.Calm] using hjump)
  rw [List.getElem?_eq_none (by omega)] at hj
  simp at hj

lemma ReturnsAt.append_left {k : Nat} (h : ReturnsAt returns p k) (q : Code) :
    ReturnsAt returns (p ++ q) k := by
  obtain ⟨c, x, y, hc, hsplit, hk⟩ := h
  exact ⟨c, x, y ++ q.map Instruction.untagged, hc, by simp [hsplit], hk⟩

lemma ReturnsAt.append_right {k : Nat} (h : ReturnsAt returns q k) (p : Code) :
    ReturnsAt returns (p ++ q) (p.length + k) := by
  obtain ⟨c, x, y, hc, hsplit, hk⟩ := h
  refine ⟨c, p.map Instruction.untagged ++ x, y, hc, by simp [hsplit], ?_⟩
  rw [hk, List.length_append, List.length_map]
  omega

lemma Lands.append_left {v : Int} (h : p.Lands v) (q : Code) : (p ++ q).Lands v := by
  obtain ⟨n, rfl, hn, hcalm⟩ := h
  refine ⟨n, rfl, by rw [List.length_append]; omega, fun k i hk hi => hcalm k i hk ?_⟩
  rwa [List.getElem?_append_left (by omega)] at hi

lemma Lands.append_right {v : Int} (h : q.Lands v) (hp : p.Orderly returns) :
    (p ++ q).Lands (p.length + v) := by
  obtain ⟨n, rfl, hn, hcalm⟩ := h
  refine ⟨p.length + n, by simp, by rw [List.length_append]; omega, fun k i hk hi => ?_⟩
  rcases Nat.lt_or_ge k p.length with hlt | hge
  · rw [List.getElem?_append_left hlt] at hi
    exact hp.calm_last (by omega) hi
  · rw [List.getElem?_append_right hge] at hi
    exact hcalm (k - p.length) i (by omega) hi

theorem Orderly.append (hp : p.Orderly returns) (hq : q.Orderly returns) :
    (p ++ q).Orderly returns := by
  have hleft : ∀ {k : Nat} {i}, (p ++ q)[k]? = some i → k < p.length → p[k]? = some i :=
    fun hi hk => by rwa [List.getElem?_append_left hk] at hi
  have hright : ∀ {k : Nat} {i}, (p ++ q)[k]? = some i → p.length ≤ k →
      ∃ m, k = p.length + m ∧ q[m]? = some i := fun {k i} hi hk =>
    ⟨k - p.length, by omega, by rwa [List.getElem?_append_right hk] at hi⟩
  refine ⟨fun k i hi hjump => ?_, fun k i hi hjump => ?_, fun i hi => ?_,
    fun k i l offset hi hl hoffset => ?_⟩
  · rcases Nat.lt_or_ge k p.length with hk | hk
    · obtain ⟨j, hj, hcalm⟩ := hp.slots k i (hleft hi hk) hjump
      exact ⟨j, by rw [List.getElem?_append_left (List.getElem?_eq_some_iff.mp hj).1, hj], hcalm⟩
    · obtain ⟨m, rfl, hm⟩ := hright hi hk
      obtain ⟨j, hj, hcalm⟩ := hq.slots m i hm hjump
      refine ⟨j, ?_, hcalm⟩
      rw [Nat.add_assoc, List.getElem?_append_right (by omega), Nat.add_sub_cancel_left, hj]
  · rcases Nat.lt_or_ge k p.length with hk | hk
    · exact (hp.jumps k i (hleft hi hk) hjump).imp_right fun h => h.append_left q
    · obtain ⟨m, rfl, hm⟩ := hright hi hk
      exact (hq.jumps m i hm hjump).imp_right fun h => h.append_right p
  · exact (List.mem_append.mp hi).elim (hp.proper i) (hq.proper i)
  · rcases Nat.lt_or_ge k p.length with hk | hk
    · exact (hp.lands k i l offset (hleft hi hk) hl hoffset).append_left q
    · obtain ⟨m, rfl, hm⟩ := hright hi hk
      have hlands := (hq.lands m i l offset hm hl hoffset).append_right hp
      rwa [Nat.cast_add, Int.add_assoc]

lemma orderly_of_calm (hcalm : ∀ i ∈ p, i.Calm) (hproper : ∀ i ∈ p, i.Proper)
    (htags : ∀ i ∈ p, ∀ l ∈ i.tags, ∀ offset ∈ l.offsets, offset = 0 ∨ offset = 1) :
    p.Orderly returns := by
  have hmem : ∀ {k : Nat} {i}, p[k]? = some i → i ∈ p := List.mem_of_getElem?
  have hnot : ∀ {k : Nat} {i}, p[k]? = some i → i.writesProgramCounter ≠ true := fun hi => by
    rw [hcalm _ (hmem hi)]
    exact Bool.false_ne_true
  refine ⟨fun k i hi hjump => absurd hjump (hnot hi), fun k i hi hjump => absurd hjump (hnot hi),
    hproper, fun k i l offset hi hl hoffset => ?_⟩
  have hlt := (List.getElem?_eq_some_iff.mp hi).1
  rcases htags i (hmem hi) l hl offset hoffset with rfl | rfl
  · exact ⟨k, by simp, by omega, fun m j _ hj => hcalm j (hmem hj)⟩
  · exact ⟨k + 1, by simp, hlt, fun m j _ hj => hcalm j (hmem hj)⟩

lemma orderly_pair (hlabel : w.writesProgramCounter = true → ∃ l offset, w.rhs = .label l offset)
    (hw : w.Proper) (hcalm : i.Calm) (hi : i.Proper)
    (hwtags : ∀ l ∈ w.tags, ∀ offset ∈ l.offsets, offset = 0 ∨ offset = 2)
    (hitags : ∀ l ∈ i.tags, ∀ offset ∈ l.offsets, offset = 1) : Orderly returns [w, i] := by
  have hplace : ∀ {k : Nat} {j}, [w, i][k]? = some j → (k = 0 ∧ j = w) ∨ (k = 1 ∧ j = i) := by
    intro k j hj
    match k with
    | 0 => exact .inl ⟨rfl, (Option.some.inj hj).symm⟩
    | 1 => exact .inr ⟨rfl, (Option.some.inj hj).symm⟩
    | k + 2 => simp at hj
  have hafter : Lands [w, i] (2 : Nat) := by
    refine ⟨2, rfl, Nat.le_refl _, fun k j hk hj => ?_⟩
    obtain ⟨rfl, rfl⟩ | ⟨-, rfl⟩ := hplace hj
    · omega
    · exact hcalm
  refine ⟨fun k j hj hjump => ?_, fun k j hj hjump => ?_, by simp [hw, hi],
    fun k j l offset hj hl hoffset => ?_⟩
  · obtain ⟨rfl, rfl⟩ | ⟨-, rfl⟩ := hplace hj
    · exact ⟨i, rfl, hcalm⟩
    · rw [hcalm] at hjump
      simp at hjump
  · obtain ⟨-, rfl⟩ | ⟨-, rfl⟩ := hplace hj
    · exact .inl (hlabel hjump)
    · rw [hcalm] at hjump
      simp at hjump
  · obtain ⟨rfl, rfl⟩ | ⟨rfl, rfl⟩ := hplace hj
    · rcases hwtags l hl offset hoffset with rfl | rfl
      · exact ⟨0, rfl, Nat.zero_le _, fun k _ hk _ => by omega⟩
      · exact hafter
    · obtain rfl := hitags l hl offset hoffset
      exact hafter

def tagIfLast (labels : List Label) (p : Code) (k : Nat) (i : Instruction) : Instruction :=
  if k + 1 = p.length then { i with tags := i.tags ++ labels } else i

lemma getElem?_tagLast (labels : List Label) (p : Code) (k : Nat) :
    (Code.tagLast labels p)[k]? = p[k]?.map (p.tagIfLast labels k) := by
  rcases List.eq_nil_or_concat p with rfl | ⟨q, i, rfl⟩
  · rfl
  rw [List.concat_eq_append, tagLast_concat, List.getElem?_append, List.getElem?_append]
  rcases Nat.lt_trichotomy k q.length with hk | rfl | hk
  · rw [if_pos hk, if_pos hk, List.getElem?_eq_getElem hk]
    simp [tagIfLast, hk.ne]
  · simp [tagIfLast]
  · have hne : k - q.length ≠ 0 := by omega
    simp [hk.not_gt, hne]

lemma writesProgramCounter_tagIfLast (labels : List Label) (p : Code) (k : Nat) (i : Instruction) :
    (p.tagIfLast labels k i).writesProgramCounter = i.writesProgramCounter := by
  unfold tagIfLast
  split <;> rfl

lemma untagged_tagLast (labels : List Label) (p : Code) :
    (Code.tagLast labels p).map Instruction.untagged = p.map Instruction.untagged := by
  refine List.ext_getElem? fun k => ?_
  rw [List.getElem?_map, List.getElem?_map, getElem?_tagLast, Option.map_map]
  congr 1
  funext i
  simp only [Function.comp_apply, tagIfLast]
  split <;> rfl

lemma Lands.tagLast {v : Int} (h : p.Lands v) (labels : List Label) :
    (Code.tagLast labels p).Lands v := by
  obtain ⟨n, rfl, hn, hcalm⟩ := h
  refine ⟨n, rfl, by rwa [length_tagLast], fun k j hk hj => ?_⟩
  rw [getElem?_tagLast, Option.map_eq_some_iff] at hj
  obtain ⟨i, hi, rfl⟩ := hj
  rw [Instruction.Calm, writesProgramCounter_tagIfLast]
  exact hcalm k i hk hi

lemma Orderly.tagLast (h : p.Orderly returns) (labels : List Label)
    (hlabels : ∀ l ∈ labels, ∀ offset ∈ l.offsets, p.Lands (p.length - 1 + offset)) :
    (Code.tagLast labels p).Orderly returns := by
  have hget : ∀ {k : Nat} {j}, (Code.tagLast labels p)[k]? = some j →
      ∃ i, p[k]? = some i ∧ p.tagIfLast labels k i = j := fun hj => by
    rwa [getElem?_tagLast, Option.map_eq_some_iff] at hj
  refine ⟨fun k j hj hjump => ?_, fun k j hj hjump => ?_, fun j hj => ?_,
    fun k j l offset hj hl hoffset => ?_⟩
  · obtain ⟨i, hi, rfl⟩ := hget hj
    rw [writesProgramCounter_tagIfLast] at hjump
    obtain ⟨m, hm, hcalm⟩ := h.slots k i hi hjump
    refine ⟨_, by rw [getElem?_tagLast, hm]; rfl, ?_⟩
    rwa [Instruction.Calm, writesProgramCounter_tagIfLast]
  · obtain ⟨i, hi, rfl⟩ := hget hj
    rw [writesProgramCounter_tagIfLast] at hjump
    rw [ReturnsAt, untagged_tagLast]
    refine (h.jumps k i hi hjump).imp_left fun hlabel => ?_
    unfold tagIfLast
    split <;> exact hlabel
  · obtain ⟨k, hk⟩ := List.getElem?_of_mem hj
    obtain ⟨i, hi, rfl⟩ := hget hk
    have hproper := h.proper i (List.mem_of_getElem? hi)
    unfold tagIfLast
    split
    · exact ⟨hproper.labels, hproper.dest, hproper.back⟩
    · exact hproper
  · obtain ⟨i, hi, rfl⟩ := hget hj
    refine Lands.tagLast ?_ labels
    unfold tagIfLast at hl
    split at hl
    · rename_i hk
      rcases List.mem_append.mp hl with hl | hl
      · exact h.lands k i l offset hi hl hoffset
      · have hplace := hlabels l hl offset hoffset
        rwa [← hk, Nat.cast_add, Nat.cast_one, Int.add_sub_cancel] at hplace
    · exact h.lands k i l offset hi hl hoffset

lemma Orderly.tagLast_following (h : p.Orderly returns) {labels : List Label}
    (hlabels : ∀ l ∈ labels, l.Following) : (Code.tagLast labels p).Orderly returns := by
  refine h.tagLast labels fun l hl offset hoffset => ?_
  obtain rfl := hlabels l hl offset hoffset
  exact ⟨p.length, by omega, Nat.le_refl _, fun k i hk hi => h.calm_last hk hi⟩

end
end Code

/-! ### The pieces of statements -/

def OffCounter (pool : List Nat) : Prop := ∀ t ∈ pool, (Operand.cellDest t).isZero = false

lemma Operand.isZero_cellDest {t : Nat} (h0 : 0 < t) (h : t < 4294967296) :
    (Operand.cellDest t).isZero = false :=
  Operand.isZero_known fun hzero => h0.ne' (Numeral.wrap32_inj h (by omega) hzero)

lemma Workbench.Sane.offCounter {b : Workbench} (hb : b.Sane)
    (h : b.globals.nextFree ≤ 4294967296) : OffCounter b.scratch.addresses := by
  intro t ht
  obtain ⟨n, hn⟩ := hb.mem_addresses_iff.mp ht
  have hlt : t < b.globals.nextFree := (Array.getElem?_eq_some_iff.mp hn).1
  refine Operand.isZero_cellDest (Nat.pos_of_ne_zero ?_) (hlt.trans_le h)
  rintro rfl
  exact programCounterName_ne_scratchName n (Option.some.inj (hb.counter.symm.trans hn))

lemma OffCounter.mono {pool pool' : List Nat} (h : OffCounter pool') (hsub : pool ⊆ pool') :
    OffCounter pool := fun t ht => h t (hsub ht)

lemma OffCounter.calm {pool : List Nat} {t : Nat} {i : Instruction} (h : OffCounter pool)
    (ht : t ∈ pool) (hi : i.dest = .cellDest t) : i.Calm :=
  Instruction.calm_of_dest (hi ▸ h t ht)

lemma Scope.Plain.proper {scope : Scope} {pool : List Nat} {code : Code}
    (h : scope.Plain pool code) : ∀ i ∈ code, i.Proper := by
  intro i hi
  obtain ⟨-, ⟨t, -, hdest⟩, hrefs⟩ := h i hi
  exact .of_known (hdest ▸ Operand.known_cellDest t) fun l offset href => (hrefs _ href).elim

lemma Scope.Plain.calm {scope : Scope} {pool : List Nat} {code : Code} (h : scope.Plain pool code)
    (hpool : OffCounter pool) : ∀ i ∈ code, i.Calm := by
  intro i hi
  obtain ⟨-, ⟨t, ht, hdest⟩, -⟩ := h i hi
  exact hpool.calm ht hdest

section

variable {returns : Code → Prop} {scope : Scope} {pool : List Nat} {code : Code}

lemma Scope.Plain.orderly (h : scope.Plain pool code) (hpool : OffCounter pool) :
    code.Orderly returns :=
  Code.orderly_of_calm (h.calm hpool) h.proper fun i hi l hl => by simp [(h i hi).1] at hl

lemma Instruction.proper_transfer {o : Opcode} {lhs : Operand} {l : Label} {offset : Int}
    {tags : List Label} (hlhs : lhs.IsKnown) (ho : offset ∈ l.offsets) :
    Proper { opcode := o, lhs, rhs := .label l offset, dest := .programCounter, tags } := by
  refine .of_known rfl fun l' offset' href => ?_
  rw [Statement.refs_transfer hlhs, List.mem_singleton, SymbolRef.mk.injEq,
    Symbol.label.injEq] at href
  obtain ⟨rfl, rfl⟩ := href
  exact ho

lemma Instruction.proper_known {i : Instruction} (hl : i.lhs.IsKnown) (hr : i.rhs.IsKnown)
    (hd : i.dest.IsKnown) : i.Proper :=
  .of_known hd (by simp [Instruction.refs_eq_nil hl hr hd])

namespace Statement

variable {branch : Branch} {l : Label} {offset : Int}

lemma proper_jump? (h : branch.IsKnown) (ho : offset ∈ l.offsets) {i : Instruction}
    (hi : branch.jump? (.label l offset) = some i) : i.Proper := by
  cases branch with
  | never => simp [Branch.jump?, Branch.move?] at hi
  | always =>
    obtain rfl := Option.some.inj hi
    exact Instruction.proper_transfer (Operand.known_constant _) ho
  | ifNegative | ifNonZero =>
    obtain rfl := Option.some.inj hi
    exact Instruction.proper_transfer h ho

lemma orderly_branchTo (h : branch.IsKnown) (ho : offset ∈ l.offsets) :
    (branchTo branch (.label l offset)).Orderly returns := by
  unfold branchTo
  split
  · rename_i jump hjump
    obtain ⟨htags, -, hrhs, -⟩ := jump?_eq_some h hjump
    exact Code.orderly_pair (fun _ => ⟨l, offset, hrhs⟩) (proper_jump? h ho hjump)
      Instruction.calm_nop Instruction.proper_nop (by simp [htags]) (by simp)
  · exact Code.orderly_nil returns

lemma back_proper (h : branch.IsKnown) (ho : offset ∈ l.offsets) :
    (((branch.jump? (.label l offset)).getD .nop).writesProgramCounter = true →
      ∃ l' offset', ((branch.jump? (.label l offset)).getD .nop).rhs = .label l' offset') ∧
    ((branch.jump? (.label l offset)).getD .nop).Proper := by
  rcases hjump : branch.jump? (.label l offset) with _ | i
  · exact ⟨fun h => absurd h Bool.false_ne_true, Instruction.proper_nop⟩
  · exact ⟨fun _ => ⟨l, offset, (jump?_eq_some h hjump).2.2.1⟩, proper_jump? h ho hjump⟩

lemma orderly_loopBottom {block : Block} {condition bottom : Code} {back slot : Instruction}
    (hkind : block.kind = .whileLoop) (hc : scope.Plain pool condition) (hpool : OffCounter pool)
    (hlabel : back.writesProgramCounter = true → ∃ l offset, back.rhs = .label l offset)
    (hback : back.Proper) (htags : back.tags = [])
    (h : loopBottom block condition back = (slot, bottom)) :
    slot.Calm ∧ slot.Proper ∧ slot.tags = [] ∧ bottom.Orderly returns := by
  have hfinish : ∀ offset ∈ (Label.finish block).offsets, offset = 0 := by
    simp [Label.offsets, hkind]
  have htagged : (back.tagged (.finish block)).Proper := ⟨hback.labels, hback.dest, hback.back⟩
  have hpair : ∀ {returns}, Code.Orderly returns [back.tagged (.finish block), .nop] :=
    Code.orderly_pair hlabel htagged Instruction.calm_nop Instruction.proper_nop
      (fun l hl offset ho => .inl (hfinish offset (by
        rw [Instruction.tags_tagged, htags, List.nil_append, List.mem_singleton] at hl
        exact hl ▸ ho))) (by simp)
  rcases condition with _ | ⟨first, _ | ⟨second, rest⟩⟩
  · obtain ⟨rfl, rfl⟩ := Prod.mk.inj h
    exact ⟨Instruction.calm_nop, Instruction.proper_nop, rfl, hpair⟩
  · obtain ⟨rfl, rfl⟩ := Prod.mk.inj h
    have hfirst := (hc first List.mem_cons_self).1
    exact ⟨hc.calm hpool _ List.mem_cons_self, hc.proper _ List.mem_cons_self, hfirst,
      (hc.orderly hpool).append hpair⟩
  · obtain ⟨rfl, rfl⟩ := Prod.mk.inj h
    have hsecond : second ∈ first :: second :: rest := List.mem_cons_of_mem _ List.mem_cons_self
    have hproper := hc.proper second hsecond
    have hcalm : (second.tagged (.finish block)).Calm := (hc.calm hpool second hsecond :)
    have htop : ∀ {returns}, Code.Orderly returns [first, second.tagged (.finish block)] := by
      refine Code.orderly_of_calm ?_ ?_ ?_
      · simp only [List.forall_mem_cons, List.not_mem_nil, false_implies, implies_true, and_true]
        exact ⟨hc.calm hpool _ List.mem_cons_self, hcalm⟩
      · simp only [List.forall_mem_cons, List.not_mem_nil, false_implies, implies_true, and_true]
        exact ⟨hc.proper _ List.mem_cons_self, hproper.labels, hproper.dest, hproper.back⟩
      · simp only [List.forall_mem_cons, List.not_mem_nil, false_implies, implies_true, and_true]
        refine ⟨fun l hl => ?_, fun l hl offset ho => .inl (hfinish offset ?_)⟩
        · simp [(hc first List.mem_cons_self).1] at hl
        · rw [Instruction.tags_tagged, (hc second hsecond).1, List.nil_append,
            List.mem_singleton] at hl
          exact hl ▸ ho
    have hrest : scope.Plain pool rest := fun i hi =>
      hc i (List.mem_cons_of_mem _ (List.mem_cons_of_mem _ hi))
    have hend : ∀ {returns}, Code.Orderly returns [back, .nop] :=
      Code.orderly_pair hlabel hback Instruction.calm_nop Instruction.proper_nop (by simp [htags])
        (by simp)
    exact ⟨hc.calm hpool _ List.mem_cons_self, hc.proper _ List.mem_cons_self,
      (hc first List.mem_cons_self).1, htop.append ((hrest.orderly hpool).append hend)⟩

lemma orderly_epilogueCode {name : String} {temp : Nat} (hname : name ≠ programCounterName)
    (hpool : OffCounter pool) (htemp : temp ∈ pool) (hr : returns (epilogueCode name temp)) :
    (epilogueCode name temp).Orderly returns := by
  have hcall : callStackName ≠ programCounterName := by decide
  have hcalm : ∀ (k : Nat) i, (epilogueCode name temp)[k]? = some i → k ≠ 2 → i.Calm := by
    intro k i hi hk
    match k with
    | 0 =>
      obtain rfl := Option.some.inj hi
      exact Instruction.calm_of_dest (Operand.isZero_named _ _ _)
    | 1 =>
      obtain rfl := Option.some.inj hi
      exact hpool.calm htemp rfl
    | 2 => exact absurd rfl hk
    | 3 =>
      obtain rfl := Option.some.inj hi
      exact Instruction.calm_of_dest (Operand.isZero_named _ _ _)
    | k + 4 => simp [epilogueCode] at hi
  have hjump : ∀ (k : Nat) i, (epilogueCode name temp)[k]? = some i →
      i.writesProgramCounter = true → k = 2 := fun k i hi hi' => by
    by_contra hk
    rw [hcalm k i hi hk] at hi'
    simp at hi'
  refine ⟨fun k i hi hi' => ?_, fun k i hi hi' => .inr ?_, fun i hi => ?_, fun k i l _ hi hl => ?_⟩
  · obtain rfl := hjump k i hi hi'
    exact ⟨_, rfl, hcalm 3 _ rfl (by decide)⟩
  · obtain rfl := hjump k i hi hi'
    exact ⟨_, [], [], hr, by simp [epilogueCode, Instruction.untagged, Instruction.copy,
      Instruction.jump], rfl⟩
  · simp only [epilogueCode, List.mem_cons, List.not_mem_nil, or_false] at hi
    rcases hi with rfl | rfl | rfl | rfl
    · exact .of_named rfl hcall (by simp [callStackPointer])
    · exact .of_known rfl (by simp)
    · exact .of_known rfl (by simp)
    · exact .of_named rfl hname (by simp)
  · have htags : i.tags = [] := by
      have hmem := List.mem_of_getElem? hi
      simp only [epilogueCode, List.mem_cons, List.not_mem_nil, or_false] at hmem
      rcases hmem with rfl | rfl | rfl | rfl <;> rfl
    simp [htags] at hl

end Statement

lemma Code.orderly_known {i : Instruction} (hcalm : i.Calm) (htags : i.tags = [])
    (hl : i.lhs.IsKnown) (hr : i.rhs.IsKnown) (hd : i.dest.IsKnown) : Code.Orderly returns [i] :=
  Code.orderly_of_calm (by simpa using hcalm) (by simpa using Instruction.proper_known hl hr hd)
    (by simp [htags])

lemma Code.orderly_transfer {o : Opcode} {x : Operand} {l : Label} {offset : Int} {i : Instruction}
    (hx : x.IsKnown) (ho : offset ∈ l.offsets) (hcalm : i.Calm) (htags : i.tags = [])
    (hl : i.lhs.IsKnown) (hr : i.rhs.IsKnown) (hd : i.dest.IsKnown) :
    Code.Orderly returns [⟨o, x, .label l offset, .programCounter, []⟩, i] :=
  Code.orderly_pair (fun _ => ⟨_, _, rfl⟩) (Instruction.proper_transfer hx ho) hcalm
    (Instruction.proper_known hl hr hd) (by simp) (by simp [htags])

lemma Assignment.orderly_productCode {lhs rhs target : Backed} {counter addend id : Nat}
    (hlhs : lhs.IsKnown) (hrhs : rhs.IsKnown) (hd : target.IsKnown) (hz : target.isZero = false)
    (hpool : OffCounter pool) (hcounter : counter ∈ pool) (haddend : addend ∈ pool) :
    (productCode lhs rhs target counter addend (.multiplyEnd id)).Orderly returns := by
  have hread : target.read.IsKnown := hd
  have hk := Operand.known_constant
  have hc := Operand.known_cell
  have hcd := Operand.known_cellDest
  have hfirst : (-1 : Int) ∈ (Label.multiplyEnd id).offsets := by simp [Label.offsets]
  have hsecond : (-2 : Int) ∈ (Label.multiplyEnd id).offsets := by simp [Label.offsets]
  have hdest : ∀ {i : Instruction}, i.dest = target.toOperand → i.Calm := fun hi =>
    Instruction.calm_of_dest (hi ▸ hz)
  have hstart : ∀ {o : Opcode} {x y : Operand} {t : Nat}, x.IsKnown → y.IsKnown → t ∈ pool →
      Code.Orderly returns [⟨o, x, y, .cellDest t, []⟩] := fun hx hy ht =>
    Code.orderly_known (hpool.calm ht rfl) rfl hx hy (hcd _)
  have hup : Code.Orderly returns
      [⟨.mlz, .cell counter, .label (.multiplyEnd id) (-1), .programCounter, []⟩,
       .copy (.constant 0) target.toOperand] :=
    Code.orderly_transfer (hc counter) hfirst (hdest rfl) rfl (hk (-1)) (hk 0) hd
  have hdown : Code.Orderly returns
      [⟨.mlz, .constant (-1), .label (.multiplyEnd id) (-1), .programCounter, []⟩,
       ⟨.sub, .constant 0, .cell addend, .cellDest addend, []⟩] :=
    Code.orderly_transfer (hk (-1)) hfirst (hpool.calm haddend rfl) rfl (hk 0)
      (hc addend) (hcd addend)
  have hadd : Code.Orderly returns [⟨.add, target.read.toOperand, .cell addend,
      target.toOperand, []⟩] :=
    Code.orderly_known (hdest rfl) rfl hread (hc addend) hd
  have hloop : Code.Orderly returns
      [⟨.mlz, .cell counter, .label (.multiplyEnd id) (-2), .programCounter, []⟩,
       ⟨.add, .cell counter, .constant 1, .cellDest counter, []⟩] :=
    Code.orderly_transfer (hc counter) hsecond (hpool.calm hcounter rfl) rfl (hc counter) (hk 1)
      (hcd counter)
  have hbody := (hstart (o := .sub) (hk 0) hlhs hcounter).append
    ((hstart (o := .add) (hk 0) hrhs haddend).append (hup.append
    ((hstart (o := .sub) (hk 0) (hc counter) hcounter).append (hdown.append (hadd.append hloop)))))
  refine hbody.tagLast [.multiplyEnd id] fun l hl offset ho => ?_
  obtain rfl := List.mem_singleton.mp hl
  -- control goes on at the addition, or right after it
  have hcases : offset = -1 ∨ offset = -2 := by simpa [Label.offsets] using ho
  rcases hcases with rfl | rfl
  · refine ⟨8, rfl, by simp, fun k i hk hi => ?_⟩
    obtain rfl : k = 7 := by omega
    obtain rfl := Option.some.inj hi
    exact hdest rfl
  · refine ⟨7, rfl, by simp, fun k i hk hi => ?_⟩
    obtain rfl : k = 6 := by omega
    obtain rfl := Option.some.inj hi
    exact hpool.calm haddend rfl

lemma Assignment.Ending.orderly {dest : Operand} {lo hi : Nat} {last : Code}
    (h : Ending dest pool lo hi last) (hpool : OffCounter pool) (hd : dest.IsKnown)
    (hz : dest.isZero = false) : last.Orderly returns := by
  cases h with
  | nothing => exact Code.orderly_nil returns
  | store hdest htags hlhs hrhs =>
    exact Code.orderly_known (Instruction.calm_of_dest (hdest ▸ hz)) htags hlhs hrhs (hdest ▸ hd)
  | product hdest hlhs hrhs hcounter haddend _ _ =>
    subst hdest
    exact orderly_productCode hlhs hrhs hd hz hpool hcounter haddend

end

/-! ### Calls -/

lemma Frame.Initializes.orderly {returns : Code → Prop} {name : String} {code : Code}
    (h : Frame.Initializes name code) : code.Orderly returns := by
  have htags : ∀ i ∈ code, i.tags = [] := List.flatMap_eq_nil_iff.mp h.tags
  have hcall : callStackName ≠ programCounterName := by decide
  refine Code.orderly_of_calm (fun i hi => ?_) (fun i hi => ?_) fun i hi l hl => by
    simp [htags i hi] at hl
  · rcases h.dest i hi with hdest | hdest <;>
      exact Instruction.calm_of_dest (by rw [hdest]; exact Operand.isZero_named _ _ _)
  · refine ⟨fun l offset href => ?_, fun ref href => ?_, fun name' hname => ?_⟩
    · obtain ⟨n, -, hsymbol⟩ := h.names _ (Code.mem_refs.mpr ⟨i, hi, href⟩)
      simp at hsymbol
    · rcases h.dest i hi with hdest | hdest <;>
      · rw [hdest] at href
        obtain rfl := Value.symbolic.inj href
        exact ⟨callStackName, rfl, hcall⟩
    · rcases h.dest i hi with hdest | hdest
      · rw [hdest] at hname
        simp [callStackPointer, Operand.named] at hname
      · rw [hdest] at hname
        simp only [callStackTarget, Operand.named, Operand.mk.injEq, Value.symbolic.injEq,
          SymbolRef.mk.injEq, Symbol.cell.injEq] at hname
        exact .inl hname.2.1.symm

namespace Call

variable {returns : Code → Prop} {scope : Scope} {pool : List Nat} {frame : Frame}
  {pointer : Backed}

lemma orderly_makeCode {temp : Nat} (hpool : OffCounter pool) (htemp : temp ∈ pool)
    (hp : pointer.IsKnown) (hz : pointer.isZero = false) :
    (makeCode frame pointer temp).Orderly returns := by
  have href : pointer.value.ref? = none := hp
  refine Code.orderly_of_calm ?_ ?_ (by simp [makeCode, Instruction.copy])
  · simp only [makeCode, List.forall_mem_cons, List.not_mem_nil, false_implies,
      implies_true, and_true]
    exact ⟨hpool.calm htemp rfl, Instruction.calm_of_dest (Operand.isZero_cell temp),
      Instruction.calm_of_dest hz⟩
  · simp only [makeCode, List.forall_mem_cons, List.not_mem_nil, false_implies,
      implies_true, and_true]
    exact ⟨.of_known rfl (by simp [stackTop, callStackPointer]),
      .of_known rfl (by simp [Frame.base]),
      .of_known hp (by simp [stackTop, callStackPointer, href])⟩

lemma orderly_stored {a : Argument} (hpool : OffCounter pool) (hp : pointer.IsKnown)
    (ha : scope.Lowered pool (a.source, a.code)) (htemp : a.temp ∈ pool) :
    (a.stored frame pointer).Orderly returns := by
  have hread : pointer.read.value.ref? = none := hp
  have hsource : a.source.value.ref? = none := ha.known
  refine (ha.plain.orderly hpool).append (Code.orderly_of_calm ?_ ?_ (by simp [Instruction.copy]))
  · simp only [List.forall_mem_cons, List.not_mem_nil, false_implies, implies_true, and_true]
    exact ⟨hpool.calm htemp rfl, Instruction.calm_of_dest (Operand.isZero_cell _)⟩
  · simp only [List.forall_mem_cons, List.not_mem_nil, false_implies, implies_true, and_true]
    exact ⟨.of_known rfl (by simp [hread]), .of_known rfl (by simp [hsource])⟩

lemma orderly_enterCode {name : String} (hf : frame.Sound pool name) (hp : pointer.IsKnown)
    (hname : name ≠ programCounterName) (hkind : frame.block.kind = .sub) (supplied : List Nat)
    (id : Nat) :
    (enterCode frame pointer supplied (.callReturn id frame.name)).Orderly returns := by
  have hread : pointer.read.value.ref? = none := hp
  have hcall : callStackName ≠ programCounterName := by decide
  have hown : frame.name ≠ programCounterName := hf.name_eq ▸ hname
  have hback : ∀ offset ∈ (Label.callReturn id frame.name).offsets, offset = 1 := by
    simp [Label.offsets]
  refine Code.Orderly.append (Code.Orderly.append (Code.orderly_of_calm ?_ ?_ ?_)
    (hf.initializes_initialCode supplied).orderly)
    (Code.orderly_pair (fun _ => ⟨_, _, rfl⟩) ?_ ?_ ?_
      ?_ ?_)
  · simp only [List.forall_mem_cons, List.not_mem_nil, false_implies, implies_true, and_true]
    exact ⟨Instruction.calm_of_dest (Operand.isZero_named _ _ _),
      Instruction.calm_of_dest (Operand.isZero_named _ _ _)⟩
  · simp only [List.forall_mem_cons, List.not_mem_nil, false_implies, implies_true, and_true]
    refine ⟨.of_named rfl hown (by simp [hread]),
      ⟨?_, fun ref href => ?_, fun n hn => .inr ⟨id, ?_⟩⟩⟩
    · simp [Frame.base, Label.offsets]
    · obtain rfl := Value.symbolic.inj href
      exact ⟨frame.name, rfl, hown⟩
    · simp only [Instruction.copy, Frame.base, Operand.named, Operand.mk.injEq,
        Value.symbolic.injEq, SymbolRef.mk.injEq, Symbol.cell.injEq] at hn
      rw [← hn.2.1]
      rfl
  · simp [Instruction.copy]
  · exact Instruction.proper_transfer (Operand.known_constant _) (by simp [Label.offsets, hkind])
  · exact Instruction.calm_of_dest (Operand.isZero_named _ _ _)
  · exact .of_named rfl hcall (by simp [callStackPointer, Frame.base])
  · simp [Instruction.jump, Instruction.copy]
  · simpa using hback

lemma Result.orderly {dest? : Option (Backed × Code × Token)} {b b' : Workbench}
    (q : Result frame dest? b b') (hb : b.Sane) (hpool : OffCounter b'.scratch.addresses)
    (h : scope.Lowered b'.scratch.addresses (q.dest, q.address)) (hz : q.dest.isZero = false) :
    q.code.Orderly returns := by
  have htemp : q.temp ∈ b'.scratch.addresses := by
    have hb₀ : Workbench.Sane { b with tokens := (Reference.readField b.tokens).2 } :=
      hb.congr rfl rfl
    have htakes := takes_allocScratch hb₀
    rw [q.on_allocScratch] at htakes
    rw [q.scratch]
    exact htakes.mem
  refine Code.Orderly.append (Code.Orderly.append (h.plain.orderly hpool)
    (Code.orderly_of_calm ?_ ?_ (by simp))) ?_
  · simpa using hpool.calm htemp rfl
  · simp only [List.forall_mem_cons, List.not_mem_nil, false_implies, implies_true, and_true]
    exact .of_known (Operand.known_cellDest _) (by simp [stackTop, callStackPointer])
  · rcases q.stores with hstores | ⟨hstores, -⟩
    · obtain ⟨i, hi, htags, hdest, hlhs, hrhs⟩ :=
        hstores.instruction (Operand.known_through _) h.known
      rw [hi]
      exact Code.orderly_known (Instruction.calm_of_dest (hdest ▸ hz)) htags hlhs hrhs
        (hdest ▸ h.known)
    · rw [hstores]
      exact Code.orderly_nil returns

namespace Lowering

variable {call : CallSite} {b b' : Workbench} (p : Lowering scope call b b')

/-- Where the address of the new frame is kept is not the program counter, unless the destination of
the call is. -/
lemma isZero_pointer (hb : b.Sane) (hpool : OffCounter b'.scratch.addresses)
    (hdest : ∀ d ∈ p.dest?, d.1.isZero = false) : p.pointer.isZero = false := by
  rcases framePointer_cases p.on_framePointer with ⟨assign, hsome, -, -⟩ | ⟨-, -, t,
    htemp, hpointer⟩
  · exact hdest _ hsome
  · have hb₀ : Workbench.Sane { p.named with tokens := Tokens.rest p.named.tokens } :=
      (p.grows_named hb).1.congr rfl rfl
    have htakes := takes_allocScratch hb₀
    rw [htemp] at htakes
    obtain ⟨-, h₁, h₂, h₃⟩ := p.scratch_subset hb
    rw [hpointer]
    exact hpool t (h₃ (h₂ (h₁ htakes.mem)))

lemma orderly_code (hb : b.Sane) (hpool : OffCounter b'.scratch.addresses) {name : String}
    (hf : p.frame.Sound pool name) (hname : name ≠ programCounterName)
    (hkind : p.frame.block.kind = .sub) (hdest : ∀ d ∈ p.dest?, d.1.isZero = false) :
    p.code.Orderly returns := by
  obtain ⟨h₀, h₁, h₂, h₃⟩ := p.scratch_subset hb
  have hpointer := (p.lowered_pointer hb).mono (List.Subset.trans h₁ (List.Subset.trans h₂ h₃))
  have htemp : p.temp ∈ b'.scratch.addresses := h₃ (h₂ (p.takes_temp hb).mem)
  have hargs : ∀ args : List Argument, (∀ a ∈ args, a ∈ p.args) →
      Code.Orderly returns (args.flatMap (Argument.stored p.frame p.pointer)) := by
    intro args hmem
    induction args with
    | nil => exact Code.orderly_nil returns
    | cons a args ih =>
      obtain ⟨ha, hatemp⟩ := p.lowered_args hb a (hmem a List.mem_cons_self)
      exact (orderly_stored hpool hpointer.known (ha.mono h₃) (h₃ hatemp)).append
        (ih fun a' ha' => hmem a' (List.mem_cons_of_mem _ ha'))
  have hresult : p.result.Orderly returns := by
    rcases p.result_cases with ⟨hresult, -⟩ | ⟨q, hresult⟩
    · rw [hresult]
      exact Code.orderly_nil returns
    · rw [← hresult]
      have hd := (p.lowered_dest hb q.dest?_eq).mono
        (List.Subset.trans h₀ (List.Subset.trans h₁ (List.Subset.trans h₂ h₃)))
      exact q.orderly (p.grows_entered hb).1 hpool hd (hdest _ q.dest?_eq)
  exact ((((hpointer.plain.orderly hpool).append (orderly_makeCode hpool htemp hpointer.known
    (p.isZero_pointer hb hpool hdest))).append (hargs p.args fun _ => id)).append
    (orderly_enterCode hf hpointer.known hname hkind p.supplied _)).append hresult

end Lowering
end Call

end CogolToolchain
