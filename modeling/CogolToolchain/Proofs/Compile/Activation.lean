import CogolToolchain.Proofs.Compile.Call
import CogolToolchain.Proofs.Compile.Frame

/-!
What the code of a call does.

The code of a call makes a frame, stores the arguments in it, initializes the other parameters and
jumps to the subroutine. The cells it works on have to be different ones (`Call.Ground`); then every
part writes the cells of the frame that it is for, and besides them only hidden cells, the call
stack pointer and the frame pointer.
-/

namespace CogolToolchain

open Memory Machine Work Attempt

namespace Memory

@[simp] lemma eval_address (m : Memory) (c : Word) : m.eval ⟨.address, c⟩ = m.read c := rfl

@[simp] lemma eval_deref (m : Memory) (c : Word) : m.eval ⟨.deref, c⟩ = m.read (m.read c) := rfl

@[simp] lemma path_constant (m : Memory) (w : Word) : m.path ⟨.constant, w⟩ = [] := rfl

@[simp] lemma path_address (m : Memory) (c : Word) : m.path ⟨.address, c⟩ = [c] := rfl

@[simp] lemma path_deref (m : Memory) (c : Word) : m.path ⟨.deref, c⟩ = [c, m.read c] := rfl

section

variable {m m' : Memory} {hidden changed : Set Word} {own : List Word} {a : WordOperand}
  {c w : Word}

lemma Shows.path_eq (h : m.Shows hidden own a w) (hm : EqOff changed m m') (hc : changed ⊆ hidden)
    (hown : ∀ c ∈ own, c ∉ changed) : m'.path a = m.path a :=
  hm.path fun c hmem => (h.path c hmem).elim (hown c) fun hnot hch => hnot (hc hch)

lemma Shows.written (h : m.Shows hidden own a c) (h0 : 0 ∈ hidden) (hown : 0 ∉ own)
    (hmode : a.mode ≠ .doubleDeref) (hpath : c ∉ m.path a) (hvisible : c ∈ own ∨ c ∉ hidden)
    (hm : EqOff {0, c} m m') (hw : m'.read c = w) :
    m'.Shows hidden own ⟨a.mode.raised, a.value⟩ w := by
  have hkeep : ∀ b ∈ m.path a, b ∉ ({0, c} : Set Word) := by
    intro b hb
    rintro (rfl | rfl)
    · exact (h.path _ hb).elim hown fun hnot => hnot h0
    · exact hpath hb
  have heval : m'.follow a.mode.level a.value = c := (hm.eval hkeep).trans h.eval_eq
  refine ⟨?_, fun b hb => ?_⟩
  · rw [Memory.eval, level_raised hmode, follow_succ, heval, hw]
  · rw [Memory.path, level_raised hmode, trail_succ, heval, List.mem_append,
      List.mem_singleton] at hb
    rcases hb with hb | rfl
    · exact h.path b (hm.path hkeep ▸ hb)
    · exact hvisible

end
end Memory

lemma Resolver.word_read (r : Resolver) (a : Operand) :
    r.word a.read = ⟨a.mode.raised, (r.word a).value⟩ := by
  simp only [Resolver.word, Resolver.operand, Operand.read]
  split <;> rfl

lemma Resolver.mode_word (r : Resolver) (a : Operand) : (r.word a).mode = a.mode := by
  simp only [Resolver.word, Resolver.operand]
  split <;> rfl

section

variable {prog : List WordInstruction} {i : WordInstruction} {k : Nat} {m : Memory} {c w : Word}

lemma Machine.Leads.of_shows {hidden : Set Word} {own own' own'' : List Word} {x y : Word}
    (hi : prog[k]? = some i) (h0 : 0 ∈ hidden) (hl : m.Shows hidden own i.lhs x) (hlo : 0 ∉ own)
    (hr : m.Shows hidden own' i.rhs y) (hro : 0 ∉ own') (hd : m.Shows hidden own'' i.dest c)
    (hdo : 0 ∉ own'') (happly : i.opcode.apply x y = some w) (hc : c ≠ 0) (d : Array Word) :
    ∃ m' d', Leads prog 1 ⟨k, m, d⟩ ⟨k + 1, m', d'⟩ ∧ m'.read c = w ∧ EqOff {0, c} m m' :=
  ⟨_, _, Leads.of_store hi h0 hl hlo hr hro hd hdo happly hc d, by simp,
    (eqOff_arrive (by simp) m k).trans (EqOff.write_self _ (by simp) w)⟩

lemma Machine.Leads.of_move (hi : prog[k]? = some i) (hreads : 0 ∉ i.reads m)
    (happly : i.opcode.apply (m.eval i.lhs) (m.eval i.rhs) = some w) (hdest : m.eval i.dest = c)
    (hc : c ≠ 0) (d : Array Word) :
    ∃ m' d', Leads prog 1 ⟨k, m, d⟩ ⟨k + 1, m', d'⟩ ∧ m'.read c = w ∧ EqOff {0, c} m m' := by
  have hshows : ∀ a : WordOperand, 0 ∉ m.path a → m.Shows {0} [] a (m.eval a) := fun a ha =>
    ⟨rfl, fun c hc => .inr (by rintro rfl; exact ha hc)⟩
  simp only [WordInstruction.reads, List.mem_append, not_or] at hreads
  exact Leads.of_shows hi (Set.mem_singleton 0) (hshows _ hreads.1.1) (by simp)
    (hshows _ hreads.1.2) (by simp) (hdest ▸ hshows _ hreads.2) (by simp) happly hc d

lemma Machine.Leads.of_copy {hidden : Set Word} {own : List Word} {source dest : WordOperand}
    (hi : prog[k]? = some ⟨.mlz, ⟨.constant, UInt16.ofInt (-1)⟩, source, dest⟩) (h0 : 0 ∈ hidden)
    (hd : m.Shows hidden own dest c) (hdo : 0 ∉ own) (hc : c ≠ 0) (d : Array Word) :
    ∃ m' d', Leads prog 1 ⟨k, m, d⟩ ⟨k + 1, m', d'⟩ ∧ m'.read c = (m.arrive k).eval source ∧
      EqOff {0, c} m m' := by
  have hexecute : execute ⟨.mlz, ⟨.constant, UInt16.ofInt (-1)⟩, source, dest⟩ (m.arrive k) d =
      ((m.arrive k).write c ((m.arrive k).eval source),
        if c = 1 then d.push ((m.arrive k).eval source) else d, none) := by
    rw [execute_of_apply_eq_some (w := (m.arrive k).eval source) d rfl,
      (hd.arrive h0 hdo k).eval_eq, store, if_neg hc]
  exact ⟨_, _, Leads.of_execute hi hexecute, by simp,
    (eqOff_arrive (by simp) m k).trans (EqOff.write_self _ (by simp) _)⟩

lemma Memory.EqOff.of_read {s : Set Word} {m' m'' : Memory} (h : EqOff s m m')
    (h' : EqOff {0, c} m' m'') (hw : m''.read c = w) (h0 : 0 ∈ s) : EqOff s (m.write c w) m'' := by
  intro a ha
  by_cases hac : c = a
  · rw [← hac, read_write_self, hw]
  · rw [read_write_ne _ _ hac, h' a, h a ha]
    rintro (rfl | rfl)
    · exact ha h0
    · exact hac rfl

end

def frameCell (base : Word) (offset : Nat) : Word := base + UInt16.ofNat offset

lemma frameCell_inj {base : Word} {i j : Nat} (hi : i < 65536) (hj : j < 65536)
    (h : frameCell base i = frameCell base j) : i = j :=
  Word.ofNat_inj hi hj (add_left_cancel h)

namespace Call

/-- A call of a subroutine on a stack whose top is `top`: the call stack pointer is in the cell
`call`, the frame pointer of the subroutine in the cell `own`. These are not hidden, and the frame
contains no hidden cell and neither of the two. -/
structure Ground (hidden : Set Word) (r : Resolver) (frame : Frame)
    (call own top : Word) : Prop where
  zero : 0 ∈ hidden
  call_word : ∀ mode, r.word (.named mode callStackName) = ⟨mode, call⟩
  own_word : ∀ mode, r.word (.named mode frame.name) = ⟨mode, own⟩
  call_notMem : call ∉ hidden
  own_notMem : own ∉ hidden
  call_ne_own : call ≠ own
  apart : ∀ i < frame.size, frameCell top i ∉ hidden ∧ frameCell top i ≠ call ∧
    frameCell top i ≠ own

section Ground

variable {hidden : Set Word} {r : Resolver} {frame : Frame} {call own top : Word}
  (g : Ground hidden r frame call own top)

include g

lemma Ground.call_ne_zero : call ≠ 0 := by
  rintro rfl
  exact g.call_notMem g.zero

lemma Ground.own_ne_zero : own ≠ 0 := by
  rintro rfl
  exact g.own_notMem g.zero

lemma Ground.cell_ne_zero {i : Nat} (hi : i < frame.size) : frameCell top i ≠ 0 := by
  intro h
  exact (g.apart i hi).1 (h ▸ g.zero)

lemma Ground.size_lt : frame.size < 65536 := by
  by_contra hge
  have hlt := (-top).toNat_lt
  refine g.cell_ne_zero (i := (-top).toNat) (by omega) ?_
  rw [frameCell, UInt16.ofNat_toNat]
  exact add_neg_cancel top

lemma Ground.cell_inj {i j : Nat} (hi : i < frame.size) (hj : j < frame.size)
    (h : frameCell top i = frameCell top j) : i = j :=
  frameCell_inj (hi.trans g.size_lt) (hj.trans g.size_lt) h

end Ground

/-! ### Initial values -/

/-- In a subroutine whose frame is at `top`, the code stores `contents`, each word at its offset. It
uses no other cell than the call stack pointer. -/
def Fills (r : Resolver) (call own top : Word) (code : Code) (contents : List (Nat × Word)) :
    Prop :=
  ∀ prog k m d, r.Stands prog k code → m.read own = top →
    ∃ m' d', Leads prog code.length ⟨k, m, d⟩ ⟨k + code.length, m', d'⟩ ∧
      (∀ entry ∈ contents, m'.read (frameCell top entry.1) = entry.2) ∧
      EqOff ({0, call} ∪ {c | ∃ entry ∈ contents, c = frameCell top entry.1}) m m'

section Fills

variable {hidden : Set Word} {r : Resolver} {frame : Frame} {call own top : Word}

lemma fills_nil : Fills r call own top [] [] := fun prog k m d _ _ =>
  ⟨m, d, Leads.refl prog _, by simp, EqOff.refl _ m⟩

variable (g : Ground hidden r frame call own top)

include g

lemma Fills.append {p q : Code} {xs ys : List (Nat × Word)} (hp : Fills r call own top p xs)
    (hq : Fills r call own top q ys) (hx : ∀ x ∈ xs, x.1 < frame.size)
    (hy : ∀ y ∈ ys, y.1 < frame.size) (hxy : ∀ x ∈ xs, ∀ y ∈ ys, x.1 ≠ y.1) :
    Fills r call own top (p ++ q) (xs ++ ys) := by
  intro prog k m d hst hm
  obtain ⟨hst₁, hst₂⟩ := r.stands_append.mp hst
  obtain ⟨m₁, d₁, hleads₁, hxs, heq₁⟩ := hp prog k m d hst₁ hm
  have hown : m₁.read own = top := by
    rw [heq₁ own, hm]
    rintro ((h0 | hcall) | ⟨x, hmem, hcell⟩)
    · exact g.own_ne_zero h0
    · exact g.call_ne_own hcall.symm
    · exact (g.apart x.1 (hx x hmem)).2.2 hcell.symm
  obtain ⟨m₂, d₂, hleads₂, hys, heq₂⟩ := hq prog _ m₁ d₁ hst₂ hown
  refine ⟨m₂, d₂, ?_, ?_, (heq₁.mono ?_).trans (heq₂.mono ?_)⟩
  · rw [List.length_append, ← Nat.add_assoc]
    exact hleads₁.trans hleads₂
  · intro entry hentry
    rcases List.mem_append.mp hentry with hmem | hmem
    · rw [heq₂ _, hxs entry hmem]
      rintro ((h0 | hcall) | ⟨y, hy', hcell⟩)
      · exact g.cell_ne_zero (hx entry hmem) h0
      · exact (g.apart _ (hx entry hmem)).2.1 hcall
      · exact hxy entry hmem y hy' (g.cell_inj (hx entry hmem) (hy y hy') hcell)
    · exact hys entry hmem
  · rintro c (h | ⟨x, hmem, rfl⟩)
    · exact .inl h
    · exact .inr ⟨x, List.mem_append_left _ hmem, rfl⟩
  · rintro c (h | ⟨y, hmem, rfl⟩)
    · exact .inl h
    · exact .inr ⟨y, List.mem_append_right _ hmem, rfl⟩

lemma fills_pointed {offset : Nat} (ho : offset < frame.size) {i : Instruction} {w : Word}
    (hdest : i.dest = callStackTarget)
    (hvalue : ∀ m : Memory, m.read call = frameCell top offset →
      0 ∉ m.path (r.word i.lhs) ∧ 0 ∉ m.path (r.word i.rhs) ∧
        i.opcode.apply (m.eval (r.word i.lhs)) (m.eval (r.word i.rhs)) = some w) :
    Fills r call own top [frame.pointCallAt offset, i] [(offset, w)] := by
  intro prog k m d hst hm
  obtain ⟨⟨hpoint, -⟩, hst'⟩ := r.stands_cons.mp hst
  obtain ⟨⟨hi, -⟩, -⟩ := r.stands_cons.mp hst'
  have hbase : r.word (frame.pointCallAt offset).lhs = ⟨.address, own⟩ := g.own_word .address
  have hcall : r.word (frame.pointCallAt offset).dest = ⟨.constant, call⟩ := g.call_word .constant
  have htarget : r.word i.dest = ⟨.address, call⟩ := by rw [hdest]; exact g.call_word .address
  have hoffset : r.word (frame.pointCallAt offset).rhs = ⟨.constant, UInt16.ofNat offset⟩ := by
    rw [Frame.pointCallAt, r.word_constant, Word.ofInt_wrap32, Word.ofInt_natCast]
  rw [hbase, hcall, hoffset] at hpoint
  rw [htarget] at hi
  have hadd : some (m.read own + UInt16.ofNat offset) = some (frameCell top offset) := by
    rw [hm, frameCell]
  obtain ⟨m₁, d₁, hleads₁, hread₁, heq₁⟩ := Leads.of_move (m := m) (c := call) hpoint
    (by simpa [WordInstruction.reads] using g.own_ne_zero.symm) hadd rfl g.call_ne_zero d
  obtain ⟨hlhs, hrhs, happly⟩ := hvalue m₁ hread₁
  obtain ⟨m₂, d₂, hleads₂, hread₂, heq₂⟩ := Leads.of_move hi
    (by simpa [WordInstruction.reads, hlhs, hrhs] using g.call_ne_zero.symm) happly hread₁
    (g.cell_ne_zero ho) d₁
  refine ⟨m₂, d₂, hleads₁.trans hleads₂, by simpa using hread₂, (heq₁.mono ?_).trans (heq₂.mono ?_)⟩
  · rintro c (rfl | rfl) <;> simp
  · rintro c (rfl | rfl) <;> simp

lemma fills_store {offset : Nat} (ho : offset < frame.size) (value : Int) :
    Fills r call own top (frame.store offset value) [(offset, UInt16.ofInt value)] :=
  fills_pointed g ho rfl fun _ _ => ⟨by simp [Instruction.copy], by simp [Instruction.copy], rfl⟩

lemma fills_elements {offset : Nat} (values : List Int) (ho : offset + values.length ≤ frame.size) :
    Fills r call own top
      (values.zipIdx.flatMap fun (value, i) => frame.store (offset + i) value)
      (values.zipIdx.map fun (value, i) => (offset + i, UInt16.ofInt value)) := by
  induction values using List.reverseRecOn with
  | nil => exact fills_nil
  | append_singleton values value ih =>
    rw [List.length_append, List.length_singleton] at ho
    simp only [List.zipIdx_append, List.flatMap_append, List.map_append, List.zipIdx_singleton,
      List.flatMap_singleton, List.map_singleton, Nat.zero_add]
    refine (ih (by omega)).append g (fills_store g (by omega) value) ?_ ?_ ?_
    · intro x hx
      obtain ⟨⟨value', i⟩, hmem, rfl⟩ := List.mem_map.mp hx
      have hlt := List.snd_lt_of_mem_zipIdx hmem
      simp only [Nat.add_zero] at hlt ⊢
      omega
    · simp only [List.mem_singleton, forall_eq]
      omega
    · intro x hx y hy
      obtain ⟨⟨value', i⟩, hmem, rfl⟩ := List.mem_map.mp hx
      obtain rfl := List.mem_singleton.mp hy
      have hlt := List.snd_lt_of_mem_zipIdx hmem
      simp only [Nat.add_zero] at hlt ⊢
      omega

lemma fills_init (declarator : Declarator) {offset : Nat}
    (ho : offset + declarator.size ≤ frame.size) :
    Fills r call own top (declarator.init frame offset) (declarator.contents top offset) := by
  cases declarator with
  | word => exact fills_nil
  | wordWithDefault value => exact fills_store g ho value
  | array size values =>
    simp only [Declarator.size] at ho
    refine (fills_elements g values (by omega)).append
      g (fills_pointed g (by omega) rfl ?_) ?_ ?_ ?_
    · intro m hm
      have hread : r.word callStackPointer.read = ⟨.address, call⟩ := g.call_word .address
      refine ⟨?_, by simp, ?_⟩
      · simpa [hread] using g.call_ne_zero.symm
      · simp only [hread, eval_address, hm]
        rfl
    · intro x hx
      obtain ⟨⟨value, i⟩, hmem, rfl⟩ := List.mem_map.mp hx
      have hlt := List.snd_lt_of_mem_zipIdx hmem
      simp only [Nat.add_zero] at hlt ⊢
      omega
    · simp only [List.mem_singleton, forall_eq]
      omega
    · intro x hx y hy
      obtain ⟨⟨value, i⟩, -, rfl⟩ := List.mem_map.mp hx
      obtain rfl := List.mem_singleton.mp hy
      dsimp only
      omega

def initialContents (top : Word) (params : List (String × Declarator)) (supplied : List Nat) :
    List (Nat × Word) :=
  params.zipIdx.flatMap fun (param, j) =>
    if supplied.contains (2 + j) then [] else param.2.contents top (paramOffset params j)

omit g in
lemma mem_initialContents {params : List (String × Declarator)} {supplied : List Nat}
    {entry : Nat × Word} : entry ∈ initialContents top params supplied ↔
      ∃ j param d, params[j]? = some (param, d) ∧ 2 + j ∉ supplied ∧
        entry ∈ d.contents top (paramOffset params j) := by
  simp only [initialContents, List.mem_flatMap, Prod.exists, List.mem_zipIdx_iff_getElem?]
  constructor
  · rintro ⟨param, d, j, hj, hmem⟩
    split at hmem
    · simp at hmem
    · rename_i hnot
      exact ⟨j, param, d, hj, by simpa using hnot, hmem⟩
  · rintro ⟨j, param, d, hj, hnot, hmem⟩
    exact ⟨param, d, j, hj, by rwa [if_neg (by simpa using hnot)]⟩

lemma fills_initialCode {name : String} {block : Block} {params : List (String × Declarator)}
    {first : Frame} (hdecl : first.Declared name block params) (hname : frame.name = first.name)
    (hslots : frame.slots = first.slots) (hsize : frame.size = first.size) (supplied : List Nat) :
    Fills r call own top (initialCode frame supplied) (initialContents top params supplied) := by
  have hcode : initialCode frame supplied = params.zipIdx.flatMap fun (param, j) =>
      if supplied.contains (2 + j) then [] else param.2.init frame (paramOffset params j) := by
    have hindex : params.zipIdx.zipIdx 2 = params.zipIdx.map fun x => (x, 2 + x.2) := by
      refine List.ext_getElem? fun j => ?_
      simp only [List.getElem?_zipIdx, List.getElem?_map, Option.map_map, Function.comp_def,
        Nat.zero_add]
    rw [initialCode, hslots, hdecl.slots_eq]
    simp only [List.zipIdx_append, List.flatMap_append, List.zipIdx_map, List.flatMap_map]
    simp [List.zipIdx_cons, hindex, List.flatMap_map, Declarator.init_congr hname]
  have hbound : ∀ j param d, params[j]? = some (param, d) →
      paramOffset params j + d.size ≤ frame.size := by
    intro j param d hj
    rw [hsize, hdecl.size_eq]
    exact paramOffset_add_size_le hj (List.getElem?_eq_some_iff.mp hj).1
  -- on how many parameters are dealt with
  have hfills : ∀ xs : List ((String × Declarator) × Nat), xs <+: params.zipIdx →
      Fills r call own top
        (xs.flatMap fun (param, j) =>
          if supplied.contains (2 + j) then [] else param.2.init frame (paramOffset params j))
        (xs.flatMap fun (param, j) =>
          if supplied.contains (2 + j) then [] else param.2.contents top (paramOffset params j)) ∧
      ∀ entry ∈ (xs.flatMap fun (param, j) =>
          if supplied.contains (2 + j) then [] else param.2.contents top (paramOffset params j)),
        entry.1 < paramOffset params xs.length := by
    intro xs
    induction xs using List.reverseRecOn with
    | nil => exact fun _ => ⟨fills_nil, by simp⟩
    | append_singleton xs x ih =>
      intro hxs
      obtain ⟨hfills, hlt⟩ := ih ((List.prefix_append _ _).trans hxs)
      have hx : params.zipIdx[xs.length]? = some x :=
        List.prefix_iff_getElem?.mp hxs xs.length (by simp) |>.trans (by simp)
      obtain ⟨⟨param, d⟩, j⟩ := x
      rw [List.getElem?_zipIdx, Option.map_eq_some_iff] at hx
      obtain ⟨_, hget, heq⟩ := hx
      obtain ⟨rfl, rfl⟩ : _ = (param, d) ∧ 0 + xs.length = j := Prod.mk.inj heq
      rw [Nat.zero_add] at *
      have hfit := hbound _ _ _ hget
      have hlast := paramOffset_succ hget
      simp only [List.flatMap_append, List.flatMap_singleton, List.length_append,
        List.length_singleton]
      split
      · simp only [List.append_nil]
        exact ⟨hfills, fun entry hentry => (hlt entry hentry).trans_le (by omega)⟩
      · have hcontents : ∀ y ∈ d.contents top (paramOffset params xs.length),
            paramOffset params xs.length ≤ y.1 ∧ y.1 < paramOffset params xs.length + d.size :=
          fun y hy => Declarator.mem_contents hy
        refine ⟨hfills.append g (fills_init g d hfit) (fun x hx => ?_) (fun y hy => ?_)
          (fun x hx y hy => ?_), fun entry hentry => ?_⟩
        · have := hlt x hx
          omega
        · have := hcontents y hy
          omega
        · have := hlt x hx
          have := hcontents y hy
          omega
        · rcases List.mem_append.mp hentry with hmem | hmem
          · have := hlt entry hmem
            omega
          · have := hcontents entry hmem
            omega
  rw [hcode]
  exact (hfills _ (List.prefix_refl _)).1

end Fills

/-! ### The new frame -/

def covered (hidden : Set Word) (top : Word) (size : Nat) : Set Word :=
  hidden ∪ {c | ∃ i < size, c = frameCell top i}

section Make

variable {hidden : Set Word} {r : Resolver} {frame : Frame} {call own top : Word}
  {prog : List WordInstruction} {pointer : Backed} {pool : ScratchPool}
  {k temp : Nat} {m σ : Memory}
  {c : Word}

lemma fits_covered (h : pool.Fits hidden) (top : Word) (size : Nat) :
    pool.Fits (covered hidden top size) :=
  ⟨.inl h.zero, fun t ht => .inl (h.scratch t ht), h.small⟩

lemma cell_mem_covered {i size : Nat} (hi : i < size) : frameCell top i ∈ covered hidden top size :=
  .inr ⟨i, hi, rfl⟩

lemma own_mem_hidden (hf : pool.Fits hidden) {a : Backed} (ha : ∀ t ∈ a.cells, t ∈ pool.addresses) :
    ∀ w ∈ a.own, w ∈ hidden ∧ w ≠ 0 := by
  intro w hw
  obtain ⟨t, ht, rfl⟩ := List.mem_map.mp hw
  exact ⟨hf.scratch t (ha t ht), hf.ne_zero (ha t ht)⟩

lemma zero_notMem_own (hf : pool.Fits hidden) {a : Backed}
    (ha : ∀ t ∈ a.cells, t ∈ pool.addresses) : 0 ∉ a.own :=
  fun h0 => (own_mem_hidden hf ha 0 h0).2 rfl

lemma pair_subset_covered (g : Ground hidden r frame call own top) {i : Nat} (hi : i < frame.size) :
    ({0, frameCell top i} : Set Word) ⊆ covered hidden top frame.size := by
  rintro c (rfl | rfl)
  · exact .inl g.zero
  · exact cell_mem_covered hi

lemma own_notMem_cell (g : Ground hidden r frame call own top) (hf : pool.Fits hidden) {a : Backed}
    (ha : ∀ t ∈ a.cells, t ∈ pool.addresses) {i : Nat} (hi : i < frame.size) :
    ∀ w ∈ a.own, w ∉ ({0, frameCell top i} : Set Word) := by
  intro w hw
  obtain ⟨hhidden, hne⟩ := own_mem_hidden hf ha w hw
  rintro (rfl | rfl)
  · exact hne rfl
  · exact (g.apart i hi).1 hhidden

/-- A new frame is made at the top of the stack: the active frame is saved in it, and its address
goes to the cell that `pointer` names. -/
lemma leads_make (g : Ground hidden r frame call own top) (hsize : 1 < frame.size)
    (hf : pool.Fits hidden) (ht : temp ∈ pool.addresses)
    (hown : ∀ t ∈ pointer.cells, t ∈ pool.addresses) (htemp : temp ∉ pointer.cells)
    (hmode : pointer.mode ≠ .doubleDeref) (hst : r.Stands prog k (makeCode frame pointer temp))
    (htop : m.read call = top)
    (hpointer : m.Shows (covered hidden top frame.size) pointer.own (r.word pointer.toOperand) c)
    (hc : c ≠ 0 ∧ c ≠ frameCell top 1) (hpath : c ∉ m.path (r.word pointer.toOperand))
    (hvisible : c ∈ pointer.own ∨ c ∉ covered hidden top frame.size) (d : Array Word) :
    ∃ m' d', Leads prog 3 ⟨k, m, d⟩ ⟨k + 3, m', d'⟩ ∧ m'.read (frameCell top 1) = m.read own ∧
      m'.Shows (covered hidden top frame.size) pointer.own (r.word pointer.read.toOperand) top ∧
      EqOff (covered hidden top frame.size) (m.write c top) m' := by
  have hf' := fits_covered hf top frame.size
  obtain ⟨⟨hi₁, -⟩, hst⟩ := r.stands_cons.mp hst
  obtain ⟨⟨hi₂, -⟩, hst⟩ := r.stands_cons.mp hst
  obtain ⟨⟨hi₃, -⟩, -⟩ := r.stands_cons.mp hst
  have hstack : r.word stackTop = ⟨.address, call⟩ := g.call_word .address
  have hbase : r.word frame.base = ⟨.address, own⟩ := g.own_word .address
  simp only [Instruction.copy, hstack, hbase, r.word_constant, r.word_cellDest, r.word_cell]
    at hi₁ hi₂ hi₃
  have hne : UInt16.ofNat temp ≠ 0 := hf.ne_zero ht
  have hscratch : ∀ w, w ∉ hidden → w ≠ UInt16.ofNat temp := by
    rintro w hw rfl
    exact hw (hf.scratch temp ht)
  -- the cell for the active frame
  have hsum : some (m.read call + UInt16.ofInt 1) = some (frameCell top 1) := by
    rw [htop, frameCell]
    rfl
  obtain ⟨m₁, d₁, hleads₁, hread₁, heq₁⟩ := Leads.of_move (m := m) (c := UInt16.ofNat temp) hi₁
    (by simpa [WordInstruction.reads] using g.call_ne_zero.symm) hsum rfl hne d
  have hown₁ : m₁.read own = m.read own := heq₁ own (by
    simp [g.own_ne_zero, hscratch own g.own_notMem])
  obtain ⟨m₂, d₂, hleads₂, hread₂, heq₂⟩ := Leads.of_move (m := m₁) (w := m.read own) hi₂
    (by simpa [WordInstruction.reads] using ⟨g.own_ne_zero.symm, hne.symm⟩)
    (by rw [← hown₁]; rfl) hread₁ (g.cell_ne_zero hsize) d₁
  have hcall₂ : m₂.read call = top := by
    rw [heq₂ call (by simp [g.call_ne_zero, (g.apart 1 hsize).2.1.symm]),
      heq₁ call (by simp [g.call_ne_zero, hscratch call g.call_notMem]), htop]
  -- the place that keeps the address of the frame
  have hpair := own_notMem_cell g hf hown hsize
  have hframe := pair_subset_covered g hsize
  have htemps := Backed.own_notMem_pair hf hown ht htemp
  have hshows₁ := hpointer.congr heq₁ (hf'.pair_subset ht) htemps
  have hshows₂ := hshows₁.congr heq₂ hframe hpair
  have hpath₂ : c ∉ m₂.path (r.word pointer.toOperand) := by
    rw [hshows₁.path_eq heq₂ hframe hpair, hpointer.path_eq heq₁ (hf'.pair_subset ht) htemps]
    exact hpath
  have hzero := zero_notMem_own hf hown
  obtain ⟨m₃, d₃, hleads₃, hread₃, heq₃⟩ := Leads.of_shows (m := m₂) (w := top) hi₃ hf'.zero
    (shows_constant m₂ _ _) (by simp)
    (⟨hcall₂, by simp⟩ : m₂.Shows _ [call] ⟨.address, call⟩ top)
    (by simpa using g.call_ne_zero.symm) hshows₂ hzero rfl hc.1 d₂
  have hchanged : EqOff (covered hidden top frame.size) m m₂ :=
    (heq₁.mono (hf'.pair_subset ht)).trans (heq₂.mono hframe)
  refine ⟨m₃, d₃, (hleads₁.trans hleads₂).trans hleads₃, ?_, ?_,
    hchanged.of_read heq₃ hread₃ hf'.zero⟩
  · rw [heq₃ _ (by simp [g.cell_ne_zero hsize, hc.2.symm]), hread₂]
  · have hwritten := hshows₂.written hf'.zero hzero (by rwa [r.mode_word]) hpath₂
      hvisible heq₃ hread₃
    rw [r.mode_word] at hwritten
    have hread : r.word pointer.read.toOperand = _ := r.word_read pointer.toOperand
    rwa [hread]

end Make

/-! ### Arguments -/

/-- The reference has a word in `m`, and none of `cells` is read to find it. -/
def Readable (L : Layout) (m : Memory) (cells : Set Word) (ref : Reference) : Prop :=
  ref.isGrounded .source = true ∧ ∀ c ∈ ref.reads L m .source, c ∉ cells

section Arguments

variable {hidden : Set Word} {r : Resolver} {frame : Frame} {call own top : Word} {L : Layout}
  {scope : Scope} {prog : List WordInstruction} {pointer : Backed} {k : Nat} {m σ : Memory}
  {b b' : Workbench} {a : Argument}

lemma Argument.Lowers.busy (h : a.Lowers scope b b') (hb : b.Sane)
    (hd : L.Describes r scope b.globals) (hf : b'.scratch.Fits hidden) {t : Nat}
    (ht : b.scratch.Busy t) : b'.scratch.Busy t := by
  obtain @⟨b₁, b₂, ds, hread, hsource, -, htemp⟩ := h
  obtain ⟨hproper, ts, hlower⟩ := lower_of_read hread hsource
  have hsane₁ : Workbench.Sane { b₁ with diagnostics := ds } :=
    ((careful_reference scope .source).grows hb hsource).1.congr rfl rfl
  have htakes := takes_allocScratch hsane₁
  rw [htemp] at htakes
  have hf₁ : b₁.scratch.Fits hidden := hf.of_prefix (by simpa using htakes.grows.scratch)
  have hlowers := (Reference.computes_of_lower hlower (hb.congr rfl rfl) hproper hd hf₁).lowers
  have hnodup := htakes.sane.nodup
  rw [ScratchPool.busy_foldl_release (by simpa using hnodup), ScratchPool.busy_release hnodup,
    htakes.busy]
  have hbusy₁ : b₁.scratch.Busy t := hlowers.keeps ht
  refine ⟨⟨.inl hbusy₁, ?_⟩, fun hmem => hlowers.own t hmem ht⟩
  rintro rfl
  exact htakes.free hbusy₁

/-- An argument is worked out and stored in its cell of the new frame. What is stored is the word of
the argument, unless that is read from a cell that the call itself writes. -/
lemma Argument.Lowers.leads (h : a.Lowers scope b b') (hb : b.Sane)
    (hd : L.Describes r scope b.globals) (g : Ground hidden r frame call own top)
    (hf : b'.scratch.Fits hidden) (hbusy : ∀ t ∈ pointer.cells, b.scratch.Busy t)
    (hst : r.Stands prog k (a.stored frame pointer)) {offset : Nat} (ho : offset < frame.size)
    (hslot : r.word (.slot frame.name a.param) = ⟨.constant, UInt16.ofNat offset⟩)
    (hm : EqOff (covered hidden top frame.size) σ m)
    (hpointer : m.Shows (covered hidden top frame.size) pointer.own
      (r.word pointer.read.toOperand) top)
    (d : Array Word) :
    ∃ m' d', Leads prog (a.stored frame pointer).length ⟨k, m, d⟩
        ⟨k + (a.stored frame pointer).length, m', d'⟩ ∧
      (Readable L σ (covered hidden top frame.size) a.ref →
        m'.read (frameCell top offset) = a.ref.meaning L σ .source) ∧
      EqOff (hidden ∪ {frameCell top offset}) m m' ∧
      m'.Shows (covered hidden top frame.size) pointer.own (r.word pointer.read.toOperand) top := by
  obtain @⟨b₁, b₂, ds, hread, hsource, -, htemp⟩ := h
  obtain ⟨hproper, ts, hlower⟩ := lower_of_read hread hsource
  have hsane₁ : Workbench.Sane { b₁ with diagnostics := ds } :=
    ((careful_reference scope .source).grows hb hsource).1.congr rfl rfl
  have hgrow₁ := ((careful_reference scope .source).grows hb hsource).2
  have htakes := takes_allocScratch hsane₁
  rw [htemp] at htakes
  have hf₂ : b₂.scratch.Fits hidden := hf.of_prefix (by simp)
  have hf₁ : b₁.scratch.Fits hidden := hf₂.of_prefix htakes.grows.scratch
  have hfree : ¬ b₁.scratch.Busy a.temp := htakes.free
  have hcomputes := Reference.computes_of_lower hlower (hb.congr rfl rfl) hproper hd
    (fits_covered hf₁ top frame.size)
  obtain ⟨hst₁, hst₂⟩ := r.stands_append.mp hst
  obtain ⟨⟨hi₁, -⟩, hst₂⟩ := r.stands_cons.mp hst₂
  obtain ⟨⟨hi₂, -⟩, -⟩ := r.stands_cons.mp hst₂
  simp only [Instruction.copy, hslot, r.word_constant, r.word_cellDest, r.word_cell] at hi₁ hi₂
  -- the argument itself
  have hquiet := quiet_words (r := r) hf₁ hcomputes.lowers.quiet
  have hleads₁ := Leads.of_quiet hst₁.sits (fun i hi => (hquiet i hi).1) m d
  have heq₁ := eqOff_after_words (r := r) hf₁ hcomputes.lowers.quiet (k + ·) m
  have hshows₁ := fun hread : Readable L σ (covered hidden top frame.size) a.ref =>
    hcomputes.shows (k + ·) m σ hm hread.1 hread.2
  rw [r.length_words] at hleads₁
  generalize after (k + ·) (r.words a.code) m = m₁ at hleads₁ heq₁ hshows₁
  obtain ⟨n, hn⟩ := hcomputes.lowers.known
  have hsourceWord : r.word a.source.toOperand = a.source.word := r.word_of_known hn
  have hspare : ScratchPool.spare b.scratch b₁.scratch ⊆ hidden := hf₁.spare_subset
  have hpointer₁ := hpointer.congr heq₁ (hspare.trans Set.subset_union_left)
    (own_notMem_spare hf₁ hgrow₁.scratch hbusy)
  -- the address of its cell
  have hmem : ∀ t ∈ pointer.cells, t ∈ b₂.scratch.addresses := fun t ht =>
    (hgrow₁.scratch.trans htakes.grows.scratch).subset (hbusy t ht).mem_addresses
  have hmem' : ∀ t ∈ a.source.cells, t ∈ b₂.scratch.addresses := fun t ht =>
    htakes.grows.scratch.subset (hcomputes.lowers.own_mem ht).mem_addresses
  have hf' := fits_covered hf₂ top frame.size
  have hne : UInt16.ofNat a.temp ≠ 0 := hf₂.ne_zero htakes.mem
  obtain ⟨m₂, d₂, hleads₂, hread₂, heq₂⟩ := Leads.of_shows (m := m₁) (w := frameCell top offset) hi₁
    hf'.zero hpointer₁ (zero_notMem_own hf₂ hmem) (shows_constant m₁ _ _) (by simp)
    (shows_constant m₁ _ (UInt16.ofNat a.temp)) (by simp) rfl hne d
  have hpointer₂ := hpointer₁.congr heq₂ (hf'.pair_subset htakes.mem)
    (Backed.own_notMem_pair hf₂ hmem htakes.mem fun ht =>
      hfree (hcomputes.lowers.keeps (hbusy _ ht)))
  -- the cell is written
  obtain ⟨m₃, d₃, hleads₃, hread₃, heq₃⟩ :=
    Leads.of_copy (m := m₂) (c := frameCell top offset) hi₂
      hf'.zero (⟨hread₂, by simp⟩ : m₂.Shows _ [UInt16.ofNat a.temp]
      ⟨.address, UInt16.ofNat a.temp⟩ _)
    (by simpa using hne.symm) (g.cell_ne_zero ho) d₂
  have hword₃ : Readable L σ (covered hidden top frame.size) a.ref →
      m₃.read (frameCell top offset) = a.ref.meaning L σ .source := by
    intro hreadable
    have hshows₂ := (hshows₁ hreadable).congr heq₂ (hf'.pair_subset htakes.mem)
      (Backed.own_notMem_pair hf₂ hmem' htakes.mem fun ht => hfree (hcomputes.lowers.own_mem ht))
    rw [hread₃, hsourceWord]
    exact (hshows₂.arrive hf'.zero (zero_notMem_own hf₂ hmem') _).eval_eq
  have hlength : (a.stored frame pointer).length = a.code.length + 1 + 1 := by
    simp [Argument.stored]
  rw [hlength, ← Nat.add_assoc, ← Nat.add_assoc]
  refine ⟨m₃, d₃, (hleads₁.trans hleads₂).trans hleads₃, hword₃, ?_,
    hpointer₂.congr heq₃ (pair_subset_covered g ho) (own_notMem_cell g hf₂ hmem ho)⟩
  refine ((heq₁.mono (hspare.trans Set.subset_union_left)).trans
    (heq₂.mono ((hf₂.pair_subset htakes.mem).trans Set.subset_union_left))).trans (heq₃.mono ?_)
  rintro c (rfl | rfl)
  · exact .inl g.zero
  · exact .inr rfl

lemma Arguments.leads {slot : Nat} {args : List Argument} (h : Arguments scope frame slot b args b')
    (hb : b.Sane) (hd : L.Describes r scope b.globals) (g : Ground hidden r frame call own top)
    (hf : b'.scratch.Fits hidden) (hbusy : ∀ t ∈ pointer.cells, b.scratch.Busy t)
    (hst : r.Stands prog k (args.flatMap (Argument.stored frame pointer))) (offset : Argument → Nat)
    (hoffset : ∀ a ∈ args, offset a < frame.size ∧
      r.word (.slot frame.name a.param) = ⟨.constant, UInt16.ofNat (offset a)⟩)
    (hm : EqOff (covered hidden top frame.size) σ m)
    (hpointer : m.Shows (covered hidden top frame.size) pointer.own
      (r.word pointer.read.toOperand) top) (d : Array Word) :
    ∃ m' d', Leads prog (args.flatMap (Argument.stored frame pointer)).length ⟨k, m, d⟩
        ⟨k + (args.flatMap (Argument.stored frame pointer)).length, m', d'⟩ ∧
      ((args.Pairwise fun a a' => offset a ≠ offset a') → ∀ a ∈ args,
        Readable L σ (covered hidden top frame.size) a.ref →
        m'.read (frameCell top (offset a)) = a.ref.meaning L σ .source) ∧
      EqOff (hidden ∪ {c | ∃ a ∈ args, c = frameCell top (offset a)}) m m' ∧
      m'.Shows (covered hidden top frame.size) pointer.own (r.word pointer.read.toOperand) top := by
  induction h generalizing k m d with
  | nil => exact ⟨m, d, Leads.refl prog _, by simp, EqOff.refl _ m, hpointer⟩
  | skip next rest ih => exact ih (hb.congr rfl rfl) hd hf hbusy hst hoffset hm hpointer d
  | @cons b b₁ b' a args slot next hslot hparam harray lowers rest ih =>
    obtain ⟨hsane₁, hgrow₁⟩ := lowers.grows hb
    obtain ⟨-, hgrow₂⟩ := rest.grows hsane₁
    have hf₁ : b₁.scratch.Fits hidden := hf.of_prefix hgrow₂.scratch
    rw [List.flatMap_cons] at hst
    obtain ⟨hst₁, hst₂⟩ := r.stands_append.mp hst
    obtain ⟨ho, hword⟩ := hoffset a List.mem_cons_self
    obtain ⟨m₁, d₁, hleads₁, hread₁, heq₁, hpointer₁⟩ :=
      lowers.leads hb hd g hf₁ hbusy hst₁ ho hword hm hpointer d
    have hm₁ : EqOff (covered hidden top frame.size) σ m₁ := by
      refine hm.trans (heq₁.mono ?_)
      rintro c (hc | rfl)
      · exact .inl hc
      · exact cell_mem_covered ho
    obtain ⟨m₂, d₂, hleads₂, hread₂, heq₂, hpointer₂⟩ := ih hsane₁ (hd.grows hgrow₁) hf
      (fun t ht => lowers.busy hb hd hf₁ (hbusy t ht)) hst₂
      (fun a' ha' => hoffset a' (List.mem_cons_of_mem _ ha')) hm₁ hpointer₁ d₁
    rw [List.flatMap_cons, List.length_append, ← Nat.add_assoc]
    refine ⟨m₂, d₂, hleads₁.trans hleads₂, fun hapart => ?_, (heq₁.mono ?_).trans (heq₂.mono ?_),
      hpointer₂⟩
    · rw [List.pairwise_cons] at hapart
      rintro a' (_ | ⟨_, ha'⟩) hreadable
      · rw [heq₂ _, hread₁ hreadable]
        rintro (hmem | ⟨a', ha', heq⟩)
        · exact (g.apart _ ho).1 hmem
        · exact hapart.1 a' ha'
            (g.cell_inj ho (hoffset a' (List.mem_cons_of_mem _ ha')).1 heq)
      · exact hread₂ hapart.2 a' ha' hreadable
    · rintro c (hc | rfl)
      · exact .inl hc
      · exact .inr ⟨a, List.mem_cons_self, rfl⟩
    · rintro c (hc | ⟨a', ha', rfl⟩)
      · exact .inl hc
      · exact .inr ⟨a', List.mem_cons_of_mem _ ha', rfl⟩

end Arguments

/-! ### Entering the subroutine -/

section Enter

variable {hidden S : Set Word} {r : Resolver} {frame : Frame} {call own top : Word}
  {prog : List WordInstruction} {pointer : Backed} {k place : Nat} {m : Memory}
  {supplied : List Nat}
  {back : Label} {contents : List (Nat × Word)}

lemma leads_jump {i : Instruction} {target : Operand} {v c w : Word} {tags : List Label}
    (hst : r.Stands prog k [{ Instruction.jump target with tags }, i])
    (htarget : r.word target = ⟨.constant, v⟩)
    (hreads : 0 ∉ m.path (r.word i.lhs) ++ m.path (r.word i.rhs) ++ m.path (r.word i.dest))
    (happly : i.opcode.apply (m.eval (r.word i.lhs)) (m.eval (r.word i.rhs)) = some w)
    (hdest : m.eval (r.word i.dest) = c) (hc : c ≠ 0) (d : Array Word) :
    ∃ m' d', Leads prog 2 ⟨k, m, d⟩ ⟨v.toNat, m', d'⟩ ∧ m'.read c = w ∧ EqOff {0, c} m m' := by
  obtain ⟨⟨hjump, -⟩, hst⟩ := r.stands_cons.mp hst
  obtain ⟨⟨hi, -⟩, -⟩ := r.stands_cons.mp hst
  have hslot := eqOff_arrive (Set.mem_singleton (0 : Word)) m (k + 1)
  simp only [List.mem_append, not_or] at hreads
  have heval : ∀ a : WordOperand, 0 ∉ m.path a → (m.arrive (k + 1)).eval a = m.eval a :=
    fun a ha => hslot.eval fun c hc => by rintro rfl; exact ha hc
  have hexecute :
      execute ⟨i.opcode, r.word i.lhs, r.word i.rhs, r.word i.dest⟩ (m.arrive (k + 1)) d =
      ((m.arrive (k + 1)).write c w, if c = 1 then d.push w else d, none) := by
    rw [execute_of_apply_eq_some (w := w), heval _ hreads.2, hdest, store, if_neg hc]
    rw [heval _ hreads.1.1, heval _ hreads.1.2, happly]
  refine ⟨_, _, Leads.of_branch hjump hi (Set.mem_singleton 0) (shows_constant m _ _)
    (by simp) htarget rfl rfl hexecute, by simp, ?_⟩
  exact (hslot.mono (by simp)).trans (EqOff.write_self _ (by simp) w)

/-- The new frame becomes the active one, gets the place to return to, and control goes to the
subroutine, with the call stack pointer behind the frame. -/
lemma leads_enter (g : Ground hidden r frame call own top) (hsize : 0 < frame.size)
    (hst : r.Stands prog k (enterCode frame pointer supplied back)) (hS : 0 ∈ S)
    (hown : 0 ∉ pointer.own) (hfills : Fills r call own top (initialCode frame supplied) contents)
    (hcontents : ∀ entry ∈ contents, 0 < entry.1 ∧ entry.1 < frame.size)
    (hbegin : r.labels.lookup (.begin frame.block) = some place)
    (hpointer : m.Shows S pointer.own (r.word pointer.read.toOperand) top) (d : Array Word) :
    ∃ m' d', Leads prog (enterCode frame pointer supplied back).length ⟨k, m, d⟩
        ⟨(place + 1) % 65536, m', d'⟩ ∧ m'.read own = top ∧
      m'.read (frameCell top 0) =
        UInt16.ofNat (k + (enterCode frame pointer supplied back).length) ∧
      (∀ entry ∈ contents, m'.read (frameCell top entry.1) = entry.2) ∧
      m'.read call = frameCell top frame.size ∧
      EqOff ({0, call, own, frameCell top 0} ∪ {c | ∃ entry ∈ contents, c = frameCell top entry.1})
        m m' := by
  obtain ⟨hst₁₂, hst₃⟩ := r.stands_append.mp hst
  obtain ⟨hst₁, hst₂⟩ := r.stands_append.mp hst₁₂
  obtain ⟨⟨hi₁, -⟩, hst₁⟩ := r.stands_cons.mp hst₁
  obtain ⟨⟨hi₂, -⟩, -⟩ := r.stands_cons.mp hst₁
  have hbase : r.word frame.base = ⟨.address, own⟩ := g.own_word .address
  have hcall : r.word callStackPointer = ⟨.constant, call⟩ := g.call_word .constant
  simp only [Instruction.copy, r.word_constant, g.own_word .constant, hbase] at hi₁ hi₂
  have hzero : frameCell top 0 = top := by simp [frameCell]
  -- the frame pointer
  obtain ⟨m₁, d₁, hleads₁, hread₁, heq₁⟩ := Leads.of_shows (m := m) (w := top) hi₁ hS
    (shows_constant m _ _) (by simp) hpointer hown (shows_constant m _ own) (by simp) rfl
    g.own_ne_zero d
  -- the place to return to
  have hback : r.labels.lookup back =
      some (k + (2 + (initialCode frame supplied).length) + 1) := by
    have hlabel := hst₃.labels 1 _ rfl back (by simp)
    rw [hlabel, List.length_append]
    rfl
  have hreturn : r.word (.label back 1) =
      ⟨.constant, UInt16.ofNat (k + (enterCode frame pointer supplied back).length)⟩ := by
    rw [r.word_label hback, enterCode, List.length_append, List.length_append, ← Word.ofInt_natCast]
    rfl
  rw [hreturn] at hi₂
  obtain ⟨m₂, d₂, hleads₂, hread₂, heq₂⟩ := Leads.of_move (m := m₁) (c := frameCell top 0)
    (w := UInt16.ofNat (k + (enterCode frame pointer supplied back).length)) hi₂
    (by simpa [WordInstruction.reads] using g.own_ne_zero.symm) rfl (hread₁.trans hzero.symm)
    (g.cell_ne_zero hsize) d₁
  have hown₂ : m₂.read own = top := by
    rw [heq₂ own (by simp [g.own_ne_zero, (g.apart 0 hsize).2.2.symm]), hread₁]
  -- the other parameters
  obtain ⟨m₃, d₃, hleads₃, hread₃, heq₃⟩ := hfills prog _ m₂ d₂ hst₂ hown₂
  have hown₃ : m₃.read own = top := by
    rw [heq₃ own, hown₂]
    rintro ((h0 | hmem) | ⟨entry, hmem, heq⟩)
    · exact g.own_ne_zero h0
    · exact g.call_ne_own hmem.symm
    · exact (g.apart _ (hcontents entry hmem).2).2.2 heq.symm
  -- the jump
  have htarget : r.word (.label (.begin frame.block) 1) =
      ⟨.constant, UInt16.ofNat (place + 1)⟩ := by
    rw [r.word_label hbegin, ← Word.ofInt_natCast]
    rfl
  have hpast : r.word (.constant (Numeral.wrap32 frame.size)) =
      ⟨.constant, UInt16.ofNat frame.size⟩ := by
    rw [r.word_constant, Word.ofInt_wrap32, Word.ofInt_natCast]
  have hsum : some (UInt16.ofNat frame.size + m₃.read own) = some (frameCell top frame.size) := by
    rw [hown₃, frameCell, add_comm]
  obtain ⟨m₄, d₄, hleads₄, hread₄, heq₄⟩ := leads_jump (m := m₃) (c := call)
    (w := frameCell top frame.size) hst₃ htarget
    (by rw [hpast]; simpa [hbase, hcall] using g.own_ne_zero.symm)
    (by rw [hbase, hpast]; exact hsum)
    (by simp [hcall]) g.call_ne_zero d₃
  rw [List.length_append, ← Nat.add_assoc] at hleads₄
  have hplace : (UInt16.ofNat (place + 1)).toNat = (place + 1) % 65536 := by simp
  rw [hplace] at hleads₄
  have hlength : (enterCode frame pointer supplied back).length =
      1 + 1 + (initialCode frame supplied).length + 2 := by
    simp only [enterCode, List.length_append, List.length_cons, List.length_nil]
  refine ⟨m₄, d₄, hlength ▸ ((hleads₁.trans hleads₂).trans hleads₃).trans hleads₄, ?_, ?_,
    fun entry hentry => ?_, hread₄, ((heq₁.mono ?_).trans (heq₂.mono ?_)).trans
    ((heq₃.mono ?_).trans (heq₄.mono ?_))⟩
  · rw [heq₄ own (by simp [g.own_ne_zero, g.call_ne_own.symm]), hown₃]
  · rw [heq₄ _ (by simp [g.cell_ne_zero hsize, (g.apart 0 hsize).2.1]), heq₃ _, hread₂]
    rintro ((h0 | hmem) | ⟨entry, hmem, heq⟩)
    · exact g.cell_ne_zero hsize h0
    · exact (g.apart 0 hsize).2.1 hmem
    · have hlt := hcontents entry hmem
      have := g.cell_inj hsize hlt.2 heq
      omega
  · have hlt := (hcontents entry hentry).2
    rw [heq₄ _ (by simp [g.cell_ne_zero hlt, (g.apart _ hlt).2.1]), hread₃ entry hentry]
  all_goals
    rintro c hc
    simp only [Set.mem_union, Set.mem_insert_iff, Set.mem_singleton_iff] at hc ⊢
    tauto

end Enter

/-! ### The whole call -/

lemma Arguments.slot_of_mem {scope : Scope} {frame : Frame} {slot : Nat} {b b' : Workbench}
    {args : List Argument} (h : Arguments scope frame slot b args b') :
    ∀ a ∈ args, ∃ s, frame.slots[a.slot]? = some s ∧ a.param = s.name ∧
      frame.isArray a.param = false := by
  induction h with
  | nil => simp
  | skip next rest ih => exact ih
  | cons next hslot hparam harray lowers rest ih =>
    rintro a (_ | ⟨_, ha⟩)
    · exact ⟨_, hslot, hparam, harray⟩
    · exact ih a ha

namespace Lowering

variable {hidden : Set Word} {r : Resolver} {call own top c : Word} {L : Layout} {scope : Scope}
  {site : CallSite} {b b' : Workbench} {p : Lowering scope site b b'} {prog : List WordInstruction}
  {k place : Nat} {m σ : Memory} {name : String} {params : List (String × Declarator)}

def entry (p : Lowering scope site b b') : Code :=
  makeCode p.frame p.pointer p.temp ++ p.args.flatMap (Argument.stored p.frame p.pointer) ++
    enterCode p.frame p.pointer p.supplied p.back

lemma code_eq_entry (p : Lowering scope site b b') : p.code = p.address ++ p.entry ++ p.result := by
  simp only [code, entry, List.append_assoc]

lemma offset_of_mem (hshape : p.frame.Shaped name params)
    (hnodup : p.frame.table.cells.toList.Nodup) (hslots : ∀ a ∈ p.args, 2 ≤ a.slot)
    {a : Argument} (ha : a ∈ p.args) : ∃ j d, a.slot = 2 + j ∧ params[j]? = some (a.param, d) ∧
      p.frame.table.address? a.param = some (paramOffset params j) := by
  obtain ⟨s, hs, hparam, -⟩ := p.arguments.slot_of_mem a ha
  obtain ⟨j, hj⟩ := Nat.exists_eq_add_of_le (hslots a ha)
  rw [hj] at hs
  obtain ⟨d, hd⟩ := hshape.param_of_slot hs
  rw [← hparam] at hd
  exact ⟨j, d, hj, hd, hshape.address?_param hnodup hd⟩

/-- What the body of a subroutine finds when it is called: `landing` is the place that control
returns to, and `previous` the frame that was active before. The arguments have the words that they
mean in `σ`. -/
structure Enters (p : Lowering scope site b b') (hidden : Set Word) (L : Layout)
    (params : List (String × Declarator)) (call own top : Word) (landing : Nat) (previous : Word)
    (σ m' : Memory) : Prop where
  own : m'.read own = top
  landing : m'.read (frameCell top 0) = UInt16.ofNat landing
  previous : m'.read (frameCell top 1) = previous
  args : ∀ a ∈ p.args, Readable L σ (covered hidden top p.frame.size) a.ref →
    m'.read (frameCell top (paramOffset params (a.slot - 2))) = a.ref.meaning L σ .source
  inits : ∀ entry ∈ initialContents top params p.supplied, m'.read (frameCell top entry.1) = entry.2
  call : m'.read call = frameCell top p.frame.size

/-- The code of a call runs through to the body of the subroutine. `c` is the cell that keeps the
address of the frame, and `offset` says which cells of the frame the arguments go to. An argument
stays there unless another one or an initial value goes to the same cell. -/
theorem leads_through (hb : b.Sane) (hshape : p.frame.Shaped name params)
    (g : Ground hidden r p.frame call own top) (offset : Argument → Nat)
    (hoffset : ∀ a ∈ p.args, 2 ≤ offset a ∧ offset a < p.frame.size ∧
      r.word (.slot p.frame.name a.param) = ⟨.constant, UInt16.ofNat (offset a)⟩)
    (hbegin : r.labels.lookup (.begin p.frame.block) = some place)
    (hd : L.Describes r scope p.opened.globals) (hf : p.closed.scratch.Fits hidden)
    (hbusy : ∀ t ∈ p.pointer.cells, p.placed.scratch.Busy t) (hmode : p.pointer.mode ≠ .doubleDeref)
    (hst : r.Stands prog k p.entry) (htop : m.read call = top)
    (hpointer : m.Shows (covered hidden top p.frame.size) p.pointer.own
      (r.word p.pointer.toOperand) c)
    (hc : c ≠ 0 ∧ c ≠ frameCell top 1) (hpath : c ∉ m.path (r.word p.pointer.toOperand))
    (hvisible : c ∈ p.pointer.own ∨ c ∉ covered hidden top p.frame.size)
    (hσ : EqOff (covered hidden top p.frame.size) σ (m.write c top)) (d : Array Word) :
    ∃ m' d', Leads prog p.entry.length ⟨k, m, d⟩ ⟨(place + 1) % 65536, m', d'⟩ ∧
      m'.read own = top ∧ m'.read (frameCell top 0) = UInt16.ofNat (k + p.entry.length) ∧
      m'.read (frameCell top 1) = m.read own ∧
      ((p.args.Pairwise fun a a' => offset a ≠ offset a') → ∀ a ∈ p.args,
        (∀ entry ∈ initialContents top params p.supplied, entry.1 ≠ offset a) →
        Readable L σ (covered hidden top p.frame.size) a.ref →
        m'.read (frameCell top (offset a)) = a.ref.meaning L σ .source) ∧
      (∀ entry ∈ initialContents top params p.supplied,
        m'.read (frameCell top entry.1) = entry.2) ∧
      m'.read call = frameCell top p.frame.size ∧
      EqOff (covered hidden top p.frame.size ∪ {call, own}) σ m' := by
  obtain ⟨hst₁₂, hst₃⟩ := r.stands_append.mp hst
  obtain ⟨hst₁, hst₂⟩ := r.stands_append.mp hst₁₂
  have hsize := hshape.one_lt_size
  have htakes := p.takes_temp hb
  obtain ⟨hsane₁, hgrow₁⟩ := p.grows_opened hb
  obtain ⟨-, hgrow₂⟩ := p.grows_closed hb
  have hf₁ : p.making.scratch.Fits hidden := hf.of_prefix (hgrow₁.trans hgrow₂).scratch
  have hcells : ∀ t ∈ p.pointer.cells, t ∈ p.making.scratch.addresses := fun t ht =>
    htakes.grows.scratch.subset (hbusy t ht).mem_addresses
  have htemp : p.temp ∉ p.pointer.cells := fun ht => htakes.free (hbusy _ ht)
  -- the frame
  obtain ⟨m₁, d₁, hleads₁, hprevious₁, hpointer₁, heq₁⟩ := leads_make g hsize hf₁ htakes.mem hcells
    htemp hmode hst₁ htop hpointer hc hpath hvisible d
  -- the arguments
  have hbusy₁ : ∀ t ∈ p.pointer.cells, p.opened.scratch.Busy t := by
    intro t ht
    obtain ⟨ts, -, hopened⟩ := yields_expect_iff.mp p.yields_expect
    replace hopened : p.opened.scratch = p.making.scratch.release p.temp := by rw [hopened]
    rw [hopened, ScratchPool.busy_release htakes.sane.nodup, htakes.busy]
    refine ⟨.inl (hbusy t ht), ?_⟩
    rintro rfl
    exact htemp ht
  obtain ⟨m₂, d₂, hleads₂, hargs₂, heq₂, hpointer₂⟩ := p.arguments.leads hsane₁ hd g
    hf hbusy₁ hst₂ offset (fun a ha => (hoffset a ha).2) (hσ.trans heq₁) hpointer₁ d₁
  -- the rest
  obtain ⟨first, hdecl, hsame, hcellsEq⟩ := hshape.declared
  have hsizeEq : p.frame.size = first.size := by
    rw [hshape.size_eq, hdecl.size_eq]
  have hfills := fills_initialCode g hdecl (hshape.name_eq.trans hdecl.name_eq.1.symm) hsame hsizeEq
    p.supplied
  have hcontents : ∀ entry ∈ initialContents top params p.supplied,
      2 ≤ entry.1 ∧ entry.1 < p.frame.size := by
    intro entry hentry
    obtain ⟨j, param, declarator, hget, -, hmem⟩ := mem_initialContents.mp hentry
    have hbounds := Declarator.mem_contents (n := entry.1) (w := entry.2) hmem
    have hle := hshape.offset_add_size_le hget
    have htwo := two_le_paramOffset params j
    omega
  have hclosed : ∀ t ∈ p.pointer.cells, t ∈ p.closed.scratch.addresses := fun t ht =>
    (hgrow₁.trans hgrow₂).scratch.subset (hcells t ht)
  obtain ⟨m₃, d₃, hleads₃, hown₃, hlanding₃, hinits₃, hcall₃, heq₃⟩ := leads_enter g
    (by omega) hst₃ (.inl g.zero : (0 : Word) ∈ covered hidden top p.frame.size)
    (zero_notMem_own hf hclosed) hfills
    (fun entry hentry => ⟨by have := hcontents entry hentry; omega, (hcontents entry hentry).2⟩)
    hbegin hpointer₂ d₂
  rw [List.length_append, ← Nat.add_assoc] at hleads₃
  have hlength : p.entry.length = 3 + (p.args.flatMap (Argument.stored p.frame p.pointer)).length +
      (enterCode p.frame p.pointer p.supplied p.back).length := by
    rw [entry, List.length_append, List.length_append]
    rfl
  -- the cells of the arguments are apart from those of the other parameters
  have hkeep : ∀ n, 0 < n → n < p.frame.size →
      (∀ entry ∈ initialContents top params p.supplied, entry.1 ≠ n) →
      m₃.read (frameCell top n) = m₂.read (frameCell top n) := by
    intro n hpos hlt hne
    refine heq₃ _ ?_
    rintro ((h0 | hmem | hmem | hmem) | ⟨entry, hentry, heq⟩)
    · exact g.cell_ne_zero hlt h0
    · exact (g.apart n hlt).2.1 hmem
    · exact (g.apart n hlt).2.2 hmem
    · have := g.cell_inj hlt (by omega) hmem
      omega
    · exact hne entry hentry (g.cell_inj (hcontents entry hentry).2 hlt heq.symm)
  refine ⟨m₃, d₃, hlength ▸ (hleads₁.trans hleads₂).trans hleads₃, hown₃, ?_, ?_,
    fun hapart a ha hinit hreadable => ?_, hinits₃, hcall₃, ?_⟩
  · simp only [hlanding₃, entry, List.length_append, Nat.add_assoc]
  · rw [hkeep 1 (by omega) hsize, heq₂, hprevious₁]
    · rintro (hmem | ⟨a, ha, heq⟩)
      · exact (g.apart 1 hsize).1 hmem
      · obtain ⟨htwo, hlt, -⟩ := hoffset a ha
        have := g.cell_inj hsize hlt heq
        omega
    · intro entry hentry hone
      have := hcontents entry hentry
      omega
  · obtain ⟨htwo, hlt, -⟩ := hoffset a ha
    rw [← hargs₂ hapart a ha hreadable]
    exact hkeep _ (by omega) hlt hinit
  · have hcovered : EqOff (covered hidden top p.frame.size ∪ {call, own}) σ m₁ :=
      (hσ.trans heq₁).mono Set.subset_union_left
    refine (hcovered.trans (heq₂.mono ?_)).trans (heq₃.mono ?_)
    · rintro w (hmem | ⟨a, ha, rfl⟩)
      · exact .inl (.inl hmem)
      · exact .inl (cell_mem_covered (hoffset a ha).2.1)
    · rintro w ((rfl | rfl | rfl | rfl) | ⟨entry, hentry, rfl⟩)
      · exact .inl (.inl g.zero)
      · exact .inr (.inl rfl)
      · exact .inr (.inr rfl)
      · exact .inl (cell_mem_covered (by omega))
      · exact .inl (cell_mem_covered (hcontents entry hentry).2)

/-- The code of a call runs through to the body of the subroutine. `c` is the cell that keeps the
address of the frame. -/
theorem leads_entry (hb : b.Sane) (hshape : p.frame.Shaped name params)
    (hnodup : p.frame.table.cells.toList.Nodup)
    (g : Ground hidden r p.frame call own top)
    (hoffset : ∀ param n, p.frame.table.address? param = some n →
      r.word (.slot p.frame.name param) = ⟨.constant, UInt16.ofNat n⟩)
    (hbegin : r.labels.lookup (.begin p.frame.block) = some place)
    (hd : L.Describes r scope p.opened.globals) (hf : p.closed.scratch.Fits hidden)
    (hbusy : ∀ t ∈ p.pointer.cells, p.placed.scratch.Busy t) (hmode : p.pointer.mode ≠ .doubleDeref)
    (hslots : ∀ a ∈ p.args, 2 ≤ a.slot) (hapart : p.args.Pairwise fun a a' => a.slot < a'.slot)
    (hst : r.Stands prog k p.entry) (htop : m.read call = top)
    (hpointer : m.Shows (covered hidden top p.frame.size) p.pointer.own
      (r.word p.pointer.toOperand) c)
    (hc : c ≠ 0 ∧ c ≠ frameCell top 1) (hpath : c ∉ m.path (r.word p.pointer.toOperand))
    (hvisible : c ∈ p.pointer.own ∨ c ∉ covered hidden top p.frame.size)
    (hσ : EqOff (covered hidden top p.frame.size) σ (m.write c top)) (d : Array Word) :
    ∃ n m' d', Leads prog n ⟨k, m, d⟩ ⟨(place + 1) % 65536, m', d'⟩ ∧
      p.Enters hidden L params call own top (k + p.entry.length) (m.read own) σ m' ∧
      EqOff (covered hidden top p.frame.size ∪ {call, own}) σ m' := by
  have hinj : ∀ a ∈ p.args, ∀ a' ∈ p.args, a.slot < a'.slot →
      paramOffset params (a.slot - 2) < paramOffset params (a'.slot - 2) := by
    intro a ha a' ha' hlt
    obtain ⟨j, declarator, hj, hget, -⟩ := offset_of_mem hshape hnodup hslots ha
    obtain ⟨j', _, hj', -⟩ := offset_of_mem hshape hnodup hslots ha'
    have hle := paramOffset_add_size_le hget (k := j') (by omega)
    have hpos := declarator.size_pos
    rw [hj, hj', Nat.add_sub_cancel_left, Nat.add_sub_cancel_left]
    omega
  obtain ⟨m', d', hleads, hown, hlanding, hprevious, hargs, hinits, hcall, hoff⟩ :=
    leads_through hb hshape g (fun a => paramOffset params (a.slot - 2))
    (fun a ha => by
      obtain ⟨j, declarator, hj, hget, haddress⟩ := offset_of_mem hshape hnodup hslots ha
      have hle := hshape.offset_add_size_le hget
      have hpos := declarator.size_pos
      rw [hj, Nat.add_sub_cancel_left]
      exact ⟨two_le_paramOffset params j, by omega, hoffset _ _ haddress⟩)
    hbegin hd hf hbusy hmode hst htop hpointer hc hpath hvisible hσ d
  refine ⟨_, m', d', hleads, ⟨hown, hlanding, hprevious, fun a ha => ?_, hinits, hcall⟩, hoff⟩
  refine hargs (hapart.imp_of_mem fun ha ha' hlt => (hinj _ ha _ ha' hlt).ne) a ha
    fun entry hentry hsameCell => ?_
  -- the parameter of an argument gets no initial value
  obtain ⟨j, declarator, hj, hget, -⟩ := offset_of_mem hshape hnodup hslots ha
  have hpos := declarator.size_pos
  rw [hj, Nat.add_sub_cancel_left] at hsameCell
  obtain ⟨j', param, declarator', hget', hnot, hmem⟩ := mem_initialContents.mp hentry
  have hbounds := Declarator.mem_contents (n := entry.1) (w := entry.2) hmem
  rcases Nat.lt_trichotomy j j' with hlt | rfl | hlt
  · have := paramOffset_add_size_le hget hlt
    omega
  · exact hnot (hj ▸ List.mem_map_of_mem ha)
  · have := paramOffset_add_size_le hget' hlt
    omega

end Lowering

end Call
end CogolToolchain
